import Oxbrook.Origins.Checks

/-!
# One list, four readers

The three checks of an origin against the CORS layer.  What the layer allows they all take exactly if it stands in
the list letter for letter: the session and MCP read a pattern as a text, and MCP does not fold the case of an
entry.  What it does not allow they all refuse, unless an entry in lower case is that text, or the `Host` header
is one that the session or MCP reads in a way of its own.
-/

namespace Oxbrook

open OriginSettings

variable {py : Lowering}

/-! ## Hosts -/

/-- The host of `host[:port]`, in lower case. -/
def bareHost (authority : Text) : Text :=
  if authority.head? = some '[' ∧ ']' ∈ authority then authority.takeWhile fun c => c ≠ ']'
  else authority.takeWhile fun c => c ≠ ':'

def hostOf (value : Text) : Text := bareHost (lowercase (strip value))

/-- The host of an origin is the one in the `Host` header. -/
def NamesHost (origin : Text) (headers : HeaderMap) : Prop :=
  ∃ scheme authority host, splitOnce origin "://".toList = some (scheme, authority) ∧
    headers.header "host" = some host ∧ hostOf authority = hostOf host

section Hosts

variable {a b : Text} {c : Char}

lemma takeWhile_append_of_mem (hmem : c ∈ a) :
    (a ++ b).takeWhile (fun d => d ≠ c) = a.takeWhile fun d => d ≠ c := by
  induction a with
  | nil => exact absurd hmem List.not_mem_nil
  | cons d a ih =>
    by_cases hd : d = c
    · simp [hd]
    · have hmem : c ∈ a := (List.mem_cons.mp hmem).resolve_left (Ne.symm hd)
      simpa [hd] using ih hmem

lemma takeWhile_append_of_not_mem (hmem : c ∉ a) : (a ++ c :: b).takeWhile (fun d => d ≠ c) = a := by
  induction a with
  | nil => simp
  | cons d a ih =>
    obtain ⟨hd, hmem⟩ : c ≠ d ∧ c ∉ a := by simpa using hmem
    simpa [Ne.symm hd] using ih hmem

/-- A port does not matter. -/
lemma bareHost_port (hb : ']' ∉ b) : bareHost (a ++ ':' :: b) = bareHost a := by
  have hbracket : ((a ++ ':' :: b).head? = some '[' ∧ ']' ∈ a ++ ':' :: b) ↔ a.head? = some '[' ∧ ']' ∈ a := by
    cases a with
    | nil => simp
    | cons d a => simp [hb]
  rw [bareHost, bareHost, if_congr hbracket rfl rfl]
  split
  next h => exact takeWhile_append_of_mem h.2
  next =>
    by_cases hcolon : ':' ∈ a
    · exact takeWhile_append_of_mem hcolon
    · rw [takeWhile_append_of_not_mem hcolon, ← List.append_nil a, List.takeWhile_append_of_pos]
      · simp
      · intro d hd
        simpa using ne_of_mem_of_not_mem hd hcolon

/-- A text without one of some ports at its end. -/
lemma bareHost_dropPort {α : Type*} (ports : List α) (port : α → Text) (text : Text)
    (hports : ∀ x ∈ ports, ∃ digits, port x = ':' :: digits ∧ ']' ∉ digits) :
    bareHost ((ports.findSome? fun x => text.dropSuffix? (port x)).getD text) = bareHost text := by
  cases hfound : ports.findSome? fun x => text.dropSuffix? (port x) with
  | none => rfl
  | some bare =>
    obtain ⟨x, hx, hdrop⟩ := List.exists_of_findSome?_eq_some hfound
    obtain ⟨digits, hport, hdigits⟩ := hports x hx
    obtain ⟨suffix, htext, hsuffix⟩ := List.dropSuffix?_eq_some_iff.mp hdrop
    rw [Option.getD_some, htext, eq_of_beq hsuffix, hport, bareHost_port hdigits]

lemma bareHost_withoutDefaultPort (authority : Text) (scheme : Option Text) :
    bareHost (withoutDefaultPort authority scheme) = hostOf authority := by
  apply bareHost_dropPort _ id
  intro port hport
  have hport : port ∈ [":80".toList, ":443".toList] := by
    revert hport
    split
    · simp +contextual
    · split
      · simp +contextual
      · exact id
  simp only [List.mem_cons, List.not_mem_nil, or_false] at hport
  obtain rfl | rfl := hport
  · exact ⟨"80".toList, by decide, by decide⟩
  · exact ⟨"443".toList, by decide, by decide⟩

lemma bareHost_authorityOf (hascii : py.lower (strip a) = lowercase (strip a)) (scheme : Option Text) :
    bareHost (authorityOf py a scheme) = hostOf a := by
  rw [hostOf, ← hascii]
  apply bareHost_dropPort
  intro port hport
  obtain hport := List.mem_of_mem_filter hport
  simp only [List.mem_cons, List.not_mem_nil, or_false] at hport
  obtain rfl | rfl := hport
  · exact ⟨"80".toList, by decide, by decide⟩
  · exact ⟨"443".toList, by decide, by decide⟩

end Hosts

/-! ## Texts of headers -/

section Texts

variable {v : HeaderValue} {a b text : Text} {headers : HeaderMap} {name : String}

lemma visible_lt {b : UInt8} (h : visibleAscii b = true) : (Char.ofUInt8 b).toNat < 128 := by
  have hall : ∀ b : BitVec 8, visibleAscii ⟨b⟩ = true → (⟨b⟩ : UInt8).toNat < 128 := by decide
  exact hall b.toBitVec h

lemma ascii_text (h : v.text = some text) : ∀ c ∈ text, c.toNat < 128 := by
  intro c hc
  obtain ⟨bytes, hbytes, rfl⟩ := Option.map_eq_some_iff.mp h
  obtain ⟨hvisible, hv⟩ := Option.ite_none_right_eq_some.mp hbytes
  obtain ⟨b, hb, rfl⟩ := List.mem_map.mp hc
  rw [← Option.some.inj hv] at hb
  exact visible_lt (hvisible b hb)

lemma ascii_header (h : headers.header name = some text) : ∀ c ∈ text, c.toNat < 128 := by
  obtain ⟨v, -, hv⟩ := Option.bind_eq_some_iff.mp h
  exact ascii_text hv

lemma mem_of_mem_strip {c : Char} (h : c ∈ strip text) : c ∈ text :=
  (List.dropWhile_sublist _).mem ((List.rdropWhile_prefix _ _).mem h)

/-- On ASCII the two languages agree. -/
lemma lower_strip (h : ∀ c ∈ text, c.toNat < 128) : py.lower (strip text) = lowercase (strip text) :=
  py.ascii _ fun c hc => h c (mem_of_mem_strip hc)

lemma splitOnce_eq {sep : Text} (h : splitOnce text sep = some (a, b)) : text = a ++ sep ++ b := by
  obtain ⟨⟨i, rfl, hsep⟩, -⟩ := List.dropInfix?_eq_some_iff.mp h
  rw [eq_of_beq hsep]

lemma mem_of_splitOnce {sep : Text} (h : splitOnce text sep = some (a, b)) {c : Char} (hc : c ∈ b) : c ∈ text := by
  rw [splitOnce_eq h]
  exact List.mem_append_right _ hc

lemma firstItem_of_not_mem (h : ',' ∉ text) : firstItem text = text := by
  rw [firstItem, List.takeWhile_eq_self_iff]
  intro c hc
  simpa using ne_of_mem_of_not_mem hc h

end Texts

/-! ## The answers -/

/-- An origin as a browser sends it, and the value of its header. -/
structure SentOrigin where
  value : HeaderValue
  text : Text
  reads : value.text = some text
  stripped : strip text = text
  lower : lowercase text = text

/-- All three checks take the origin of a request. -/
def Accepted (cors : Cors py) (headers : HeaderMap) : Prop :=
  (socketOrigins (.default cors)).permits headers = true ∧
    (∀ method expected, forged (.default cors) method headers expected = none) ∧
    originAllowed (.default cors) headers = true

/-- All three checks refuse the origin of a request, which the session looks at if the method is not safe. -/
def Refused (cors : Cors py) (headers : HeaderMap) : Prop :=
  (socketOrigins (.default cors)).permits headers = false ∧
    (∀ method ∉ safeMethods, ∀ expected, forged (.default cors) method headers expected ≠ none) ∧
    originAllowed (.default cors) headers = false

/-- The `Host` header goes on after a comma, and what stands before it is the authority of the origin. -/
def NamedBeforeComma (py : Lowering) (origin : Text) (headers : HeaderMap) : Prop :=
  ∃ scheme authority host, splitOnce origin "://".toList = some (scheme, authority) ∧ authority ≠ [] ∧
    headers.header "host" = some host ∧ ',' ∈ host ∧
    authorityOf py (firstItem host) none = authorityOf py authority (some scheme)

section Answers

variable {cors : Cors py} {o : SentOrigin} {headers : HeaderMap}

lemma SentOrigin.ascii (o : SentOrigin) : ∀ c ∈ o.text, c.toNat < 128 := ascii_text o.reads

lemma SentOrigin.py_lower (o : SentOrigin) : py.lower o.text = o.text := by
  rw [py.ascii _ o.ascii, o.lower]

lemma SentOrigin.header_eq (h : headers.get "origin" = some o.value) : headers.header "origin" = some o.text := by
  rw [HeaderMap.header, h, Option.bind_some, o.reads]

lemma corsOrigins_default (noStar : ['*'] ∉ cors.allowOrigins) :
    corsOrigins (.default cors) = cors.allowOrigins := by
  apply List.filter_eq_self.mpr
  intro entry hentry
  simpa using ne_of_mem_of_not_mem hentry noStar

lemma allows_eq (noStar : ['*'] ∉ cors.allowOrigins) (origin : Text) :
    cors.allows origin = listed (splitOrigins cors.allowOrigins) origin := by
  have hfilter := corsOrigins_default noStar
  simp only [corsOrigins, OriginSettings.default, Option.elim_some] at hfilter
  rw [Cors.allows, hfilter, decide_eq_false noStar, Bool.false_or]

lemma permits_eq (noStar : ['*'] ∉ cors.allowOrigins) (horigin : headers.get "origin" = some o.value) :
    (socketOrigins (.default cors)).permits headers =
      (cors.allows o.text || SocketOrigins.namesServer headers o.text) := by
  have hsocket : socketOrigins (.default cors) = ⟨false, splitOrigins cors.allowOrigins⟩ := by
    have horigins := corsOrigins_default noStar
    have hfilter : cors.allowOrigins.filter (fun origin => origin ≠ ['*']) = cors.allowOrigins := horigins
    rw [socketOrigins, show (OriginSettings.default cors).websocketOrigins = none from rfl, Option.getD_none,
      horigins, hfilter, decide_eq_false noStar, SocketOrigins.build]
  rw [allows_eq noStar, SocketOrigins.permits, hsocket, horigin]
  simp only [o.reads, o.stripped, o.lower, Bool.false_or]

/-- What names the server for a socket has the host of the `Host` header. -/
lemma not_namesServer (hforwarded : headers.get "x-forwarded-host" = none) (hhost : ¬ NamesHost o.text headers) :
    SocketOrigins.namesServer headers o.text = false := by
  rw [SocketOrigins.namesServer]
  cases hsplit : splitOnce o.text "://".toList with
  | none => rfl
  | some parts =>
    obtain ⟨scheme, authority⟩ := parts
    have hxfh : headers.header "x-forwarded-host" = none := by rw [HeaderMap.header, hforwarded, Option.bind_none]
    simp only [hxfh, Option.map_none, SocketOrigins.named, Option.any_none, Bool.or_false]
    apply eq_false_of_ne_true
    intro hnamed
    obtain ⟨host, hheader, heq⟩ := (Option.any_eq_true _ _).mp hnamed
    apply hhost
    refine ⟨scheme, authority, host, hsplit, hheader, ?_⟩
    rw [← bareHost_withoutDefaultPort authority (some scheme), ← bareHost_withoutDefaultPort host none,
      of_decide_eq_true heq]

/-- To the session an origin of another host is its own only by what stands before a comma. -/
lemma sameOrigin_iff (hforwarded : headers.get "x-forwarded-host" = none) (hhost : ¬ NamesHost o.text headers) :
    sameOrigin py o.text headers = true ↔ NamedBeforeComma py o.text headers := by
  have hxfh : headers.header "x-forwarded-host" = none := by rw [HeaderMap.header, hforwarded, Option.bind_none]
  rw [sameOrigin, o.stripped, o.py_lower]
  constructor
  · intro hsame
    cases hsplit : splitOnce o.text "://".toList with
    | none =>
      rw [hsplit] at hsame
      exact absurd hsame Bool.false_ne_true
    | some parts =>
      obtain ⟨scheme, authority⟩ := parts
      simp only [hsplit, hxfh, namedBy, Option.any_none, Bool.or_false, Bool.and_eq_true, decide_eq_true_eq,
        Option.any_eq_true] at hsame
      obtain ⟨hauthority, host, hheader, -, heq⟩ := hsame
      refine ⟨scheme, authority, host, hsplit, hauthority, hheader, ?_, heq⟩
      by_contra hcomma
      apply hhost
      refine ⟨scheme, authority, host, hsplit, hheader, ?_⟩
      have hascii : ∀ c ∈ authority, c.toNat < 128 := fun c hc => o.ascii c (mem_of_splitOnce hsplit hc)
      have hlower : py.lower (strip authority) = lowercase (strip authority) := lower_strip hascii
      rw [firstItem_of_not_mem hcomma] at heq
      rw [← bareHost_authorityOf hlower (some scheme), ← heq,
        bareHost_authorityOf (lower_strip (ascii_header hheader))]
  · rintro ⟨scheme, authority, host, hsplit, hauthority, hheader, hcomma, heq⟩
    have hnonempty : host ≠ [] := List.ne_nil_of_mem hcomma
    simp only [hsplit, namedBy, hheader, Option.any_some, heq, ne_eq, hauthority, hnonempty, not_false_eq_true,
      decide_true, Bool.and_self, Bool.true_or]

lemma forged_of_origin {method : String} {expected : Option Text} (hmethod : method ∉ safeMethods)
    (horigin : headers.get "origin" = some o.value) (hsite : headers.get "sec-fetch-site" = none)
    (settings : OriginSettings py) :
    forged settings method headers expected = none ↔
      sameOrigin py o.text headers = true ∨ o.text ∈ settings.trusted := by
  have hnosite : py.lower (strip ((headers.header "sec-fetch-site").getD [])) = [] := by
    rw [HeaderMap.header, hsite, Option.bind_none, Option.getD_none]
    exact py.ascii [] nofun
  have hplain : ¬ (([] : Text) = "same-origin".toList ∨ ([] : Text) = "none".toList) := by decide
  rw [forged, hnosite, if_neg hmethod, if_neg hplain, SentOrigin.header_eq horigin]
  simp only [o.stripped, o.py_lower, ite_eq_left_iff, reduceCtorEq, imp_false, not_not, Bool.or_eq_true,
    decide_eq_true_eq]

/-- The origins the session trusts: every entry, in lower case. -/
lemma trusted_default (noStar : ['*'] ∉ cors.allowOrigins) :
    trusted (.default cors) = cors.allowOrigins.map py.lower := by
  rw [trusted, corsOrigins_default noStar]
  rfl

lemma mem_trusted_of_mem (h : o.text ∈ cors.allowOrigins) : o.text ∈ cors.allowOrigins.map py.lower :=
  List.mem_map.mpr ⟨o.text, h, o.py_lower⟩

lemma originAllowed_iff (noStar : ['*'] ∉ cors.allowOrigins) (horigin : headers.get "origin" = some o.value) :
    originAllowed (.default cors) headers = true ↔ o.text ∈ cors.allowOrigins ∨
      headers.header "host" = some ((splitOnce o.text "://".toList).elim [] Prod.snd) := by
  rw [originAllowed, SentOrigin.header_eq horigin]
  simp only [OriginSettings.default, Option.any_some, noStar, decide_false, Bool.false_or, Bool.or_eq_true,
    decide_eq_true_eq, Option.any_eq_true]
  apply or_congr_right
  constructor
  · rintro ⟨host, hheader, rfl⟩
    exact hheader
  · intro hheader
    exact ⟨_, hheader, rfl⟩

/-- What is listed letter for letter is taken everywhere. -/
lemma accepted_of_mem (noStar : ['*'] ∉ cors.allowOrigins) (hallows : cors.allows o.text = true)
    (hmem : o.text ∈ cors.allowOrigins) (horigin : headers.get "origin" = some o.value) : Accepted cors headers := by
  refine ⟨?_, ?_, (originAllowed_iff noStar horigin).mpr (.inl hmem)⟩
  · rw [permits_eq noStar horigin, hallows, Bool.true_or]
  · intro method expected
    have htrusted : o.text ∈ trusted (.default cors) := by
      rw [trusted_default noStar]
      exact mem_trusted_of_mem hmem
    simp only [forged, SentOrigin.header_eq horigin, o.stripped, o.py_lower, htrusted, decide_true, Bool.or_true,
      if_true, ite_self]

/-- MCP takes an origin with another host if it is listed, or has no host and there is none to name. -/
lemma originAllowed_foreign_iff (noStar : ['*'] ∉ cors.allowOrigins)
    (horigin : headers.get "origin" = some o.value) (hhost : ¬ NamesHost o.text headers) :
    originAllowed (.default cors) headers = true ↔ o.text ∈ cors.allowOrigins ∨
      splitOnce o.text "://".toList = none ∧ headers.header "host" = some [] := by
  rw [originAllowed_iff noStar horigin]
  apply or_congr_right
  cases hsplit : splitOnce o.text "://".toList with
  | none => simp
  | some parts =>
    obtain ⟨scheme, authority⟩ := parts
    simp only [Option.elim_some, reduceCtorEq, false_and, iff_false]
    intro hheader
    exact hhost ⟨scheme, authority, authority, hsplit, hheader, rfl⟩

/-- What the CORS layer does not allow is refused everywhere, with three exceptions. -/
lemma refused_iff (noStar : ['*'] ∉ cors.allowOrigins) (horigin : headers.get "origin" = some o.value)
    (hsite : headers.get "sec-fetch-site" = none) (hforwarded : headers.get "x-forwarded-host" = none)
    (hallows : cors.allows o.text = false) (hhost : ¬ NamesHost o.text headers) :
    Refused cors headers ↔ o.text ∉ cors.allowOrigins.map py.lower ∧ ¬ NamedBeforeComma py o.text headers ∧
      ¬ (splitOnce o.text "://".toList = none ∧ headers.header "host" = some []) := by
  have hsocket : (socketOrigins (.default cors)).permits headers = false := by
    rw [permits_eq noStar horigin, hallows, not_namesServer hforwarded hhost, Bool.or_false]
  have hforged (method : String) (hmethod : method ∉ safeMethods) (expected : Option Text) :
      forged (.default cors) method headers expected ≠ none ↔
        ¬ NamedBeforeComma py o.text headers ∧ o.text ∉ cors.allowOrigins.map py.lower := by
    rw [Ne, forged_of_origin hmethod horigin hsite, sameOrigin_iff hforwarded hhost, trusted_default noStar, not_or]
  have hmcp : originAllowed (.default cors) headers = false ↔ o.text ∉ cors.allowOrigins ∧
      ¬ (splitOnce o.text "://".toList = none ∧ headers.header "host" = some []) := by
    rw [← Bool.not_eq_true, originAllowed_foreign_iff noStar horigin hhost, not_or]
  constructor
  · rintro ⟨-, hsession, hrefused⟩
    have hpost : "POST" ∉ safeMethods := by decide
    obtain ⟨hcomma, hlower⟩ := (hforged "POST" hpost none).mp (hsession "POST" hpost none)
    exact ⟨hlower, hcomma, (hmcp.mp hrefused).2⟩
  · rintro ⟨hlower, hcomma, hnull⟩
    refine ⟨hsocket, ?_, hmcp.mpr ⟨fun hmem => hlower (mem_trusted_of_mem hmem), hnull⟩⟩
    intro method hmethod expected
    exact (hforged method hmethod expected).mpr ⟨hcomma, hlower⟩

/-- The request with nothing but an origin is taken by MCP only if the origin is listed. -/
lemma mem_of_accepted_bare (noStar : ['*'] ∉ cors.allowOrigins)
    (h : Accepted cors [("origin", o.value)]) : o.text ∈ cors.allowOrigins := by
  have horigin : HeaderMap.get [("origin", o.value)] "origin" = some o.value := rfl
  have hnohost : HeaderMap.header [("origin", o.value)] "host" = none := rfl
  obtain hmem | hheader := (originAllowed_iff noStar horigin).mp h.2.2
  · exact hmem
  · rw [hnohost] at hheader
    exact absurd hheader nofun

/-- **One list, four readers**: all three checks take what the CORS layer allows exactly if it is in the list letter
for letter.  They all refuse what it does not allow and what has another host than the request, except for an entry
that is this text in lower case, a `Host` header that names it before a comma, and an origin without a host where the
`Host` header is empty. -/
theorem origins_answered_alike_iff (cors : Cors py) (noStar : ['*'] ∉ cors.allowOrigins) (o : SentOrigin) :
    ((cors.allows o.text = true →
        ∀ headers : HeaderMap, headers.get "origin" = some o.value → Accepted cors headers) ↔
      (cors.allows o.text = true → o.text ∈ cors.allowOrigins)) ∧
    ∀ headers : HeaderMap, headers.get "origin" = some o.value → headers.get "sec-fetch-site" = none →
      headers.get "x-forwarded-host" = none → cors.allows o.text = false → ¬ NamesHost o.text headers →
      (Refused cors headers ↔ o.text ∉ cors.allowOrigins.map py.lower ∧ ¬ NamedBeforeComma py o.text headers ∧
        ¬ (splitOnce o.text "://".toList = none ∧ headers.header "host" = some [])) := by
  constructor
  · constructor
    · intro haccepted hallows
      exact mem_of_accepted_bare noStar (haccepted hallows _ rfl)
    · intro hlisted hallows headers horigin
      exact accepted_of_mem noStar hallows (hlisted hallows) horigin
  · intro headers horigin hsite hforwarded hallows hhost
    exact refused_iff noStar horigin hsite hforwarded hallows hhost

end Answers

/-! ## Previews of a site -/

def asciiLowering : Lowering := ⟨lowercase, fun _ _ => rfl⟩

def asciiBytes (text : String) : List UInt8 := text.toList.map fun c => c.toNat.toUInt8

/-- The origin of a site and a pattern for its previews. -/
def previews : Cors asciiLowering where
  allowOrigins := ["https://app.example.com".toList, "https://*.example.dev".toList]
  checked := by decide +kernel
  nonempty := by decide

def appOrigin : SentOrigin where
  value := ⟨asciiBytes "https://app.example.com", by decide +kernel⟩
  text := "https://app.example.com".toList
  reads := by decide +kernel
  stripped := by decide +kernel
  lower := by decide +kernel

def previewOrigin : SentOrigin where
  value := ⟨asciiBytes "https://pr-12.example.dev", by decide +kernel⟩
  text := "https://pr-12.example.dev".toList
  reads := by decide +kernel
  stripped := by decide +kernel
  lower := by decide +kernel

def foreignOrigin : SentOrigin where
  value := ⟨asciiBytes "https://evil.example", by decide +kernel⟩
  text := "https://evil.example".toList
  reads := by decide +kernel
  stripped := by decide +kernel
  lower := by decide +kernel

/-- A request from an origin to `api.example.com`. -/
def requestFrom (o : SentOrigin) : HeaderMap :=
  [("host", ⟨asciiBytes "api.example.com", by decide +kernel⟩), ("origin", o.value)]

lemma host_requestFrom (o : SentOrigin) : (requestFrom o).header "host" = some "api.example.com".toList := by
  have htext : HeaderValue.text ⟨asciiBytes "api.example.com", by decide +kernel⟩ =
      some "api.example.com".toList := by decide +kernel
  have hget : (requestFrom o).get "host" = some ⟨asciiBytes "api.example.com", by decide +kernel⟩ := by
    simp [requestFrom, HeaderMap.get, HeaderMap.getAll]
  rw [HeaderMap.header, hget, Option.bind_some, htext]

lemma foreign_not_namesHost : ¬ NamesHost foreignOrigin.text (requestFrom foreignOrigin) := by
  rintro ⟨scheme, authority, host, hsplit, hheader, heq⟩
  have hparts : splitOnce foreignOrigin.text "://".toList = some ("https".toList, "evil.example".toList) := by
    decide +kernel
  rw [hparts] at hsplit
  rw [host_requestFrom] at hheader
  obtain ⟨rfl, rfl⟩ := Prod.mk.inj (Option.some.inj hsplit)
  obtain rfl := Option.some.inj hheader
  exact absurd heq (by decide +kernel)

lemma foreign_not_beforeComma :
    ¬ NamedBeforeComma asciiLowering foreignOrigin.text (requestFrom foreignOrigin) := by
  rintro ⟨-, -, host, -, -, hheader, hcomma, -⟩
  rw [host_requestFrom] at hheader
  obtain rfl := Option.some.inj hheader
  exact absurd hcomma (by decide +kernel)

/-- The site itself is taken by all, and a foreign page by none. -/
theorem previews_answered_alike :
    (∀ headers : HeaderMap, headers.get "origin" = some appOrigin.value → Accepted previews headers) ∧
      Refused previews (requestFrom foreignOrigin) := by
  have noStar : ['*'] ∉ previews.allowOrigins := by decide +kernel
  constructor
  · apply (origins_answered_alike_iff previews noStar appOrigin).1.mpr
    · intro _
      decide +kernel
    · decide +kernel
  · apply ((origins_answered_alike_iff previews noStar foreignOrigin).2 (requestFrom foreignOrigin) rfl rfl rfl
      (by decide +kernel) foreign_not_namesHost).mpr
    refine ⟨by decide +kernel, foreign_not_beforeComma, ?_⟩
    rintro ⟨hsplit, -⟩
    exact absurd hsplit (by decide +kernel)

/-- A preview may call the site and open a socket, but to its session the request is forged, and MCP refuses it. -/
theorem preview_refused :
    previews.allows previewOrigin.text = true ∧
      (requestFrom previewOrigin).get "origin" = some previewOrigin.value ∧
      (socketOrigins (.default previews)).permits (requestFrom previewOrigin) = true ∧
      forged (.default previews) "POST" (requestFrom previewOrigin) none = some "cross-origin request" ∧
      originAllowed (.default previews) (requestFrom previewOrigin) = false ∧
      ¬ Accepted previews (requestFrom previewOrigin) := by
  have hmcp : originAllowed (.default previews) (requestFrom previewOrigin) = false := by decide +kernel
  refine ⟨by decide +kernel, rfl, by decide +kernel, by decide +kernel, hmcp, ?_⟩
  rintro ⟨-, -, haccepted⟩
  exact absurd haccepted (by rw [hmcp]; decide)

end Oxbrook
