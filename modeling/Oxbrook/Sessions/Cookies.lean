import Oxbrook.Sessions.Middleware

/-!
# Writing a session loses no other cookie

The context variable is one for all `Sessions`: the innermost middleware finds the session that was loaded last,
whichever it is, and the others find nothing.  It writes that session under its own name, and its assignment to
`set-cookie` takes the place of what a handler has set under that key.  `preserved_iff` says when no cookie is lost.
-/

namespace Oxbrook

open Attempt PyStr

variable {ι κ ν α : Type} [DecidableEq κ] [DecidableEq α]

/-! ## The cookies of a dict of headers -/

/-- The cookies that one entry of a dict of headers sets. -/
def entryCookies (header : PyArg α × HeaderEntry α) : Multiset (PyArg α) :=
  if header.1.isSetCookie then
    match header.2 with
    | .one value => {value}
    | .many values => ↑values
  else 0

def dictCookies (headers : HeaderDict α) : Multiset (PyArg α) := (headers.map entryCookies).sum

omit [DecidableEq α] in
lemma cookiesIn_append (pairs others : List (PyArg α × PyArg α)) :
    cookiesIn (pairs ++ others) = cookiesIn pairs + cookiesIn others := by
  unfold cookiesIn
  rw [List.filter_append, List.map_append, Multiset.coe_add]

omit [DecidableEq α] in
lemma cookiesIn_headerPairs (headers : HeaderDict α) : cookiesIn ((headerPairs headers).getD []) = dictCookies headers := by
  have hpairs : (headerPairs headers).getD [] = headers.flatMap fun header =>
      match header.2 with
      | .one value => [(header.1, value)]
      | .many values => values.map fun value => (header.1, value) := by
    unfold headerPairs
    cases headers with
    | nil => rfl
    | cons header rest => rfl
  rw [hpairs]
  clear hpairs
  unfold dictCookies
  induction headers with
  | nil => rfl
  | cons header rest ih =>
    rw [List.flatMap_cons, cookiesIn_append, ih, List.map_cons, List.sum_cons]
    congr 1
    obtain ⟨name, entry⟩ := header
    unfold entryCookies cookiesIn
    cases entry with
    | one value =>
      cases hname : name.isSetCookie with
      | true => simp [hname]
      | false => simp [hname]
    | many values =>
      cases hname : name.isSetCookie with
      | true => simp [hname, List.filter_map, Function.comp_def]
      | false => simp [hname, List.filter_map, Function.comp_def]

omit [DecidableEq α] in
lemma dictCookies_perm {headers others : HeaderDict α} (h : headers.Perm others) :
    dictCookies headers = dictCookies others :=
  (h.map entryCookies).sum_eq

namespace DictReply

/-- All the headers of a reply. -/
def total (r : DictReply α) : OrderedDict (PyArg α) (HeaderEntry α) := r.own.update r.headers.items

omit [DecidableEq κ] in
lemma update_items (d : OrderedDict κ ν) [DecidableEq κ] (items : List (κ × ν)) :
    (d.update items).items = dictUpdate d.items items := by
  induction items generalizing d with
  | nil => rfl
  | cons item rest ih => exact ih (d.set item.1 item.2)

/-- The reply is a stream. -/
def streamed (r : DictReply α) : Bool :=
  match r.value with
  | .sse _ _ => true
  | _ => false

lemma cookies_streamed {r : DictReply α} (h : r.streamed = true) : r.cookies = 0 := by
  unfold streamed at h
  unfold cookies toReply ReplyValue.merge
  cases hvalue : r.value with
  | sse status pumped => rfl
  | _ => simp [hvalue] at h

lemma total_of_own_empty {r : DictReply α} (h : r.own.items = []) : r.total.Holds r.headers := by
  intro k
  have hown : r.own.get k = none := by simp [OrderedDict.get, h]
  rw [total, OrderedDict.get_update_items, hown, Option.or_none]

lemma cookies_eq {r : DictReply α} (h : r.streamed = false) : r.cookies = dictCookies r.total.items := by
  unfold cookies toReply ReplyValue.merge
  cases hvalue : r.value with
  | sse status pumped => simp [streamed, hvalue] at h
  | response response =>
    have hown := r.own_response response hvalue
    have htotal : r.total.items = dictUpdate r.own.items r.headers.items := update_items r.own r.headers.items
    rw [htotal, ← cookiesIn_headerPairs]
    simp only [HeadersArg.asDict, hown]
    rfl
  | _ =>
    have hown : r.own.items = [] := r.own_empty (by simp [hvalue])
    rw [dictCookies_perm (total_of_own_empty hown).perm, ← cookiesIn_headerPairs]
    rfl

/-- The cookies under the very key that the middleware of a session assigns to. -/
def underKey (r : DictReply α) : Multiset (PyArg α) :=
  match r.total.get (.text "set-cookie") with
  | none => 0
  | some entry => entryCookies (.text "set-cookie", entry)

lemma total_setHeader (r : DictReply α) (key value : PyArg α) :
    (r.setHeader key value).total.Holds (r.total.set key (.one value)) := by
  intro k
  have htotal : (r.setHeader key value).total = r.own.update (r.headers.set key (.one value)).items := rfl
  rw [htotal, OrderedDict.get_update_items]
  by_cases hk : k = key
  · rw [hk, OrderedDict.get_set_self, OrderedDict.get_set_self]
    rfl
  · rw [OrderedDict.get_set_ne hk, OrderedDict.get_set_ne hk, total, OrderedDict.get_update_items]

omit [DecidableEq α] in
lemma isSetCookie_key : (PyArg.text "set-cookie" : PyArg α).isSetCookie = true := by
  simp [PyArg.isSetCookie, PyArg.text, lit, ofText, CodePoint.scalar?]

/-- What is written takes the place of what was there. -/
lemma cookies_setHeader {r : DictReply α} (h : r.streamed = false) (value : PyArg α) :
    (r.setHeader (.text "set-cookie") value).cookies + r.underKey = r.cookies + {value} := by
  have hset : (r.setHeader (.text "set-cookie") value).cookies =
      {value} + dictCookies (r.total.erase (.text "set-cookie")).items := by
    rw [cookies_eq (show (r.setHeader (.text "set-cookie") value).streamed = false from h),
      dictCookies_perm ((r.total_setHeader _ _).perm.trans OrderedDict.perm_set)]
    unfold dictCookies
    rw [List.map_cons, List.sum_cons]
    simp [entryCookies, isSetCookie_key]
  rw [hset, cookies_eq h]
  unfold underKey
  cases hget : r.total.get (.text "set-cookie") with
  | none =>
    rw [OrderedDict.erase_eq_self (OrderedDict.get_eq_none_iff.mp hget)]
    simp [add_comm]
  | some entry =>
    rw [dictCookies_perm (OrderedDict.perm_erase hget)]
    unfold dictCookies
    rw [List.map_cons, List.sum_cons]
    dsimp only
    ac_rfl

end DictReply

/-! ## What is sent -/

namespace PyHost

variable (host : PyHost α)

omit [DecidableEq α] in
lemma sentReply_headers {args : SendArgs α} {reply : HandlerReply} (h : host.sentReply args = .ok reply) :
    host.headersArg (args.headers.getD []) = .ok reply.headers := by
  obtain ⟨full, hfull, hchecked⟩ := bind_eq_ok.mp h
  obtain ⟨_, _, hreply⟩ := bind_eq_ok.mp hchecked
  cases hreply
  obtain ⟨status, _, hfull⟩ := bind_eq_ok.mp hfull
  obtain ⟨contentType, _, hfull⟩ := bind_eq_ok.mp hfull
  obtain ⟨body, _, hfull⟩ := bind_eq_ok.mp hfull
  obtain ⟨headers, hheaders, hfull⟩ := bind_eq_ok.mp hfull
  cases hfull
  exact hheaders

omit [DecidableEq α] in
lemma bodyArgs_headers {m : Merged α} {contentType : String} {body : Except PyError (List UInt8)}
    {reply : HandlerReply} (h : (host.bodyArgs m contentType body >>= host.sentReply) = .ok reply) :
    host.headersArg (m.headers.getD []) = .ok reply.headers := by
  obtain ⟨args, hargs, hsent⟩ := bind_eq_ok.mp h
  obtain ⟨b, _, rfl⟩ := map_eq_ok.mp hargs
  exact host.sentReply_headers hsent

omit [DecidableEq α] in
lemma otherReply_headers {v : PyArg α} {reply : HandlerReply} (h : host.otherReply v = .ok reply) :
    reply.headers = [] := by
  unfold otherReply at h
  cases hjson : host.jsonReply v with
  | ok sent =>
    rw [hjson] at h
    cases h
    obtain ⟨body, _, hchecked⟩ := bind_eq_ok.mp hjson
    obtain ⟨_, _, hreply⟩ := bind_eq_ok.mp hchecked
    cases hreply
    rfl
  | error e =>
    rw [hjson] at h
    obtain ⟨body, _, hsent⟩ := bind_eq_ok.mp h
    exact (Except.ok.inj (host.sentReply_headers hsent)).symm

/-- The headers of what is sent are the pairs of the reply, but for a stream. -/
lemma mergedReply_headers {m : Merged α} {reply : HandlerReply} (h : host.mergedReply m = .ok reply)
    (hstream : ∀ status pumped, m.value ≠ .sse status pumped) : host.headersArg m.pairs = .ok reply.headers := by
  unfold mergedReply at h
  unfold Merged.pairs
  cases hvalue : m.value with
  | sse status pumped => exact absurd hvalue (hstream status pumped)
  | response r =>
    rw [hvalue] at h
    obtain ⟨args, hargs, hsent⟩ := bind_eq_ok.mp h
    obtain ⟨body, _, hargs⟩ := bind_eq_ok.mp hargs
    obtain ⟨pairs, hpairs, hargs⟩ := bind_eq_ok.mp hargs
    cases hargs
    have hheaders := host.sentReply_headers hsent
    cases hr : r.headers with
    | dict headers =>
      rw [hr] at hpairs
      cases hpairs
      simp only [hr]
      exact hheaders
    | other falsy raised =>
      rw [hr] at hpairs
      cases falsy with
      | true =>
        cases hpairs
        simp only [hr]
        exact hheaders
      | false => cases hpairs
  | none =>
    rw [hvalue] at h
    exact host.sentReply_headers h
  | model x =>
    rw [hvalue] at h
    exact host.bodyArgs_headers h
  | buffer b =>
    rw [hvalue] at h
    exact host.bodyArgs_headers h
  | text s =>
    rw [hvalue] at h
    exact host.bodyArgs_headers h
  | other v =>
    rw [hvalue] at h
    by_cases hbare : m.Bare
    · rw [host.otherReply_headers (by simpa [hbare] using h), hbare.2]
      rfl
    · exact host.bodyArgs_headers (by simpa [hbare] using h)

end PyHost

/-! ## Middleware of other kinds -/

/-- What the other middleware of a chain makes of a reply. -/
def applyOthers (r : DictReply α) : List (SessionsLink ι α) → DictReply α
  | [] => r
  | .other middleware :: rest => middleware.run (applyOthers r rest)
  | .sessions _ :: rest => applyOthers r rest

/-- The cookies that they add. -/
def growth (r : DictReply α) : List (SessionsLink ι α) → Multiset (PyArg α)
  | [] => 0
  | .other middleware :: rest =>
    growth r rest + ((middleware.run (applyOthers r rest)).cookies - (applyOthers r rest).cookies)
  | .sessions _ :: rest => growth r rest

lemma cookies_applyOthers (r : DictReply α) (chain : List (SessionsLink ι α)) :
    (applyOthers r chain).cookies = r.cookies + growth r chain := by
  induction chain with
  | nil => simp [applyOthers, growth]
  | cons link rest ih =>
    cases link with
    | sessions i => exact ih
    | other middleware =>
      have hkeeps := add_tsub_cancel_of_le (middleware.keeps (applyOthers r rest))
      simp only [applyOthers, growth]
      rw [← add_assoc, ← ih, hkeeps]

/-! ## What the middleware of a session finds -/

namespace SessionsWorld

variable (w : SessionsWorld ι κ ν) (steps : List (HandlerStep ι κ ν)) (reply : DictReply α)

/-- What is loaded does not depend on the context variable. -/
lemma handleAll_loaded (st : SessionVar ι κ ν) (current : Option ℕ) :
    (w.handleAll { st with current := current } steps).loaded = (w.handleAll st steps).loaded := by
  induction steps generalizing st current with
  | nil => rfl
  | cons step rest ih =>
    cases step with
    | load i => rfl
    | act n op => exact ih { st with loaded := st.loaded.modify n fun entry => (entry.1, entry.2.step op) } current

/-- The context variable holds the session that was loaded last. -/
lemma handleAll_current (st : SessionVar ι κ ν)
    (h : st.current = if st.loaded = [] then none else some (st.loaded.length - 1)) :
    (w.handleAll st steps).current =
      if (w.handleAll st steps).loaded = [] then none else some ((w.handleAll st steps).loaded.length - 1) := by
  induction steps generalizing st with
  | nil => exact h
  | cons step rest ih =>
    apply ih
    cases step with
    | load i => simp [handle]
    | act n op => simp [handle, h]

/-- Every `Sessions.middleware` leaves the context variable as it was. -/
lemma serve_current (chain : List (SessionsLink ι α)) (st : SessionVar ι κ ν) :
    (w.serve steps reply chain st).2.current =
      if chain.any SessionsLink.isSessions then st.current else (w.handleAll st steps).current := by
  induction chain generalizing st with
  | nil => rfl
  | cons link rest ih =>
    cases link with
    | sessions i => rfl
    | other middleware => exact ih st

lemma serve_loaded (chain : List (SessionsLink ι α)) (st : SessionVar ι κ ν) :
    (w.serve steps reply chain st).2.loaded = (w.handleAll st steps).loaded := by
  induction chain generalizing st with
  | nil => rfl
  | cons link rest ih =>
    cases link with
    | sessions i => exact (ih { st with current := none }).trans (w.handleAll_loaded steps st none)
    | other middleware => exact ih st

lemma serve_others {chain : List (SessionsLink ι α)} (h : chain.any SessionsLink.isSessions = false)
    (st : SessionVar ι κ ν) : (w.serve steps reply chain st).1 = .ok (applyOthers reply chain) := by
  induction chain with
  | nil => rfl
  | cons link rest ih =>
    cases link with
    | sessions i => simp [SessionsLink.isSessions] at h
    | other middleware =>
      have hrest := ih (by simpa [SessionsLink.isSessions] using h)
      simp only [serve, hrest, applyOthers]
      rfl

/-- The sessions that a handler has loaded, as it leaves them. -/
def loadedBy : List (ι × CookieSession κ ν) := (w.handleAll start steps).loaded

/-- The innermost middleware of a session finds the one that was loaded last. -/
lemma serve_innermost {others : List (SessionsLink ι α)} (h : others.any SessionsLink.isSessions = false) (i : ι)
    (current : Option ℕ) :
    (w.serve steps reply (.sessions i :: others) ⟨[], current⟩).1 =
      w.writeBack i (w.loadedBy steps).getLast? (applyOthers reply others) := by
  have hloaded : (w.serve steps reply others ⟨[], none⟩).2.loaded = w.loadedBy steps := w.serve_loaded steps reply others _
  have hcurrent : (w.serve steps reply others ⟨[], none⟩).2.current =
      if w.loadedBy steps = [] then none else some ((w.loadedBy steps).length - 1) := by
    rw [serve_current, h]
    exact w.handleAll_current steps ⟨[], none⟩ rfl
  have hsession : ((w.serve steps reply others ⟨[], none⟩).2.current.bind fun n =>
      (w.serve steps reply others ⟨[], none⟩).2.loaded[n]?) = (w.loadedBy steps).getLast? := by
    rw [hcurrent, hloaded]
    by_cases hnil : w.loadedBy steps = []
    · simp [hnil]
    · simp [hnil, List.getLast?_eq_getElem?]
  rw [serve]
  dsimp only
  rw [hsession, w.serve_others steps reply h]
  rfl

/-- The middleware outside it finds nothing. -/
lemma serve_eq (before : List (SessionsLink ι α)) {others : List (SessionsLink ι α)}
    (h : others.any SessionsLink.isSessions = false) (i : ι) (current : Option ℕ) :
    (w.serve steps reply (before ++ .sessions i :: others) ⟨[], current⟩).1 =
      (w.writeBack i (w.loadedBy steps).getLast? (applyOthers reply others)).map fun r => applyOthers r before := by
  induction before generalizing current with
  | nil =>
    rw [List.nil_append, w.serve_innermost steps reply h]
    cases w.writeBack i (w.loadedBy steps).getLast? (applyOthers reply others) <;> rfl
  | cons link rest ih =>
    have hinner := ih none
    cases link with
    | other middleware =>
      rw [List.cons_append, serve]
      dsimp only
      rw [ih current]
      cases w.writeBack i (w.loadedBy steps).getLast? (applyOthers reply others) <;> rfl
    | sessions j =>
      have hcurrent : (w.serve steps reply (rest ++ .sessions i :: others) ⟨[], none⟩).2.current = none := by
        rw [serve_current]
        simp [SessionsLink.isSessions]
      rw [List.cons_append, serve]
      dsimp only
      rw [hinner, hcurrent]
      cases w.writeBack i (w.loadedBy steps).getLast? (applyOthers reply others) <;> rfl

/-! ## What a response has to carry -/

/-- The cookies that the other middleware of a chain adds to the replies that reach it. -/
def added : List (SessionsLink ι α) → SessionVar ι κ ν → Multiset (PyArg α)
  | [], _ => 0
  | .other middleware :: rest, st =>
    added rest st +
      match (w.serve steps reply rest st).1 with
      | .ok r => (middleware.run r).cookies - r.cookies
      | .error _ => 0
  | .sessions _ :: rest, st => added rest { st with current := none }

/-- The cookie of a session, under its own name and with its content. -/
def cookieOf (entry : ι × CookieSession κ ν) : PyArg α :=
  match w.cookieHeader entry.1 entry.2.data with
  | .ok text => .text text
  | .error _ => .none

/-- The cookies of the sessions that were modified. -/
def modifiedCookies (loaded : List (ι × CookieSession κ ν)) : Multiset (PyArg α) :=
  Multiset.ofList ((loaded.filter fun entry => entry.2.modified).map fun entry => w.cookieOf entry)

/-- The response carries the cookies of the handler, those that other middleware has added, and one for each
modified session. -/
def Preserved (chain : List (SessionsLink ι α)) : Prop :=
  ∃ final, (w.serve steps reply chain start).1 = .ok final ∧
    reply.cookies + w.added steps reply chain start + w.modifiedCookies (w.loadedBy steps) ≤ final.cookies

/-- No session is modified; or the last one is the only one, the innermost middleware is its own, and no cookie of
the reply that reaches this middleware, which is not a stream, is under the key `set-cookie`. -/
def Kept (chain : List (SessionsLink ι α)) : Prop :=
  (∀ entry ∈ w.loadedBy steps, entry.2.modified = false) ∨
    ∃ before i others earlier session, chain = before ++ .sessions i :: others ∧
      others.any SessionsLink.isSessions = false ∧ w.loadedBy steps = earlier ++ [(i, session)] ∧
      (∀ entry ∈ earlier, entry.2.modified = false) ∧ (applyOthers reply others).streamed = false ∧
      (applyOthers reply others).underKey = 0

lemma added_others {chain : List (SessionsLink ι α)} (h : chain.any SessionsLink.isSessions = false)
    (st : SessionVar ι κ ν) : w.added steps reply chain st = growth reply chain := by
  induction chain with
  | nil => rfl
  | cons link rest ih =>
    cases link with
    | sessions i => simp [SessionsLink.isSessions] at h
    | other middleware =>
      have hrest : rest.any SessionsLink.isSessions = false := by simpa [SessionsLink.isSessions] using h
      simp only [added, growth, ih hrest, w.serve_others steps reply hrest st]

lemma added_eq (before : List (SessionsLink ι α)) {others : List (SessionsLink ι α)}
    (h : others.any SessionsLink.isSessions = false) {i : ι} {current : Option ℕ} {written : DictReply α}
    (hwritten : w.writeBack i (w.loadedBy steps).getLast? (applyOthers reply others) = .ok written) :
    w.added steps reply (before ++ .sessions i :: others) ⟨[], current⟩ =
      growth reply others + growth written before := by
  induction before generalizing current with
  | nil =>
    rw [List.nil_append, added, w.added_others steps reply h]
    simp [growth]
  | cons link rest ih =>
    cases link with
    | other middleware =>
      have hserve := w.serve_eq steps reply rest h i current
      rw [hwritten] at hserve
      rw [List.cons_append, added, ih, hserve]
      simp only [growth, Except.map, add_assoc]
    | sessions j => exact ih

/-- All depends on what the innermost middleware writes. -/
lemma preserved_iff_written (before : List (SessionsLink ι α)) {others : List (SessionsLink ι α)}
    (h : others.any SessionsLink.isSessions = false) {i : ι} {written : DictReply α}
    (hwritten : w.writeBack i (w.loadedBy steps).getLast? (applyOthers reply others) = .ok written) :
    w.Preserved steps reply (before ++ .sessions i :: others) ↔
      (applyOthers reply others).cookies + w.modifiedCookies (w.loadedBy steps) ≤ written.cookies := by
  have hserve : (w.serve steps reply (before ++ .sessions i :: others) start).1 = .ok (applyOthers written before) := by
    have hserve := w.serve_eq steps reply before h i none
    rw [hwritten] at hserve
    exact hserve
  have hadded : w.added steps reply (before ++ .sessions i :: others) start =
      growth reply others + growth written before := w.added_eq steps reply before h hwritten
  have hsum : reply.cookies + (growth reply others + growth written before) + w.modifiedCookies (w.loadedBy steps) =
      (applyOthers reply others).cookies + w.modifiedCookies (w.loadedBy steps) + growth written before := by
    rw [cookies_applyOthers]
    ac_rfl
  unfold Preserved
  rw [hserve, hadded, hsum]
  constructor
  · rintro ⟨final, hfinal, hle⟩
    cases hfinal
    rw [cookies_applyOthers written before] at hle
    exact le_of_add_le_add_right hle
  · intro hle
    refine ⟨_, rfl, ?_⟩
    rw [cookies_applyOthers written before]
    exact add_le_add_left hle _

lemma preserved_others_iff {chain : List (SessionsLink ι α)} (h : chain.any SessionsLink.isSessions = false) :
    w.Preserved steps reply chain ↔ w.modifiedCookies (α := α) (w.loadedBy steps) = 0 := by
  unfold Preserved
  rw [w.serve_others steps reply h, w.added_others steps reply h, ← cookies_applyOthers]
  constructor
  · rintro ⟨final, hfinal, hle⟩
    cases hfinal
    exact le_antisymm (le_of_add_le_add_left (hle.trans_eq (add_zero _).symm)) (Multiset.zero_le _)
  · intro hzero
    refine ⟨_, rfl, ?_⟩
    rw [hzero, add_zero]

omit [DecidableEq κ] [DecidableEq α] in
lemma modifiedCookies_eq_zero_iff {loaded : List (ι × CookieSession κ ν)} :
    w.modifiedCookies (α := α) loaded = 0 ↔ ∀ entry ∈ loaded, entry.2.modified = false := by
  unfold modifiedCookies
  rw [Multiset.coe_eq_zero, List.map_eq_nil_iff, List.filter_eq_nil_iff]
  simp

/-! ## The innermost middleware -/

omit [DecidableEq κ] in
lemma innermost_cases (chain : List (SessionsLink ι α)) :
    chain.any SessionsLink.isSessions = false ∨
      ∃ before i others, chain = before ++ .sessions i :: others ∧ others.any SessionsLink.isSessions = false := by
  induction chain with
  | nil => exact .inl rfl
  | cons link rest ih =>
    rcases ih with hrest | ⟨before, i, others, rfl, hothers⟩
    · cases link with
      | sessions i => exact .inr ⟨[], i, rest, rfl, hrest⟩
      | other middleware => exact .inl (by simpa [SessionsLink.isSessions] using hrest)
    · exact .inr ⟨link :: before, i, others, rfl, hothers⟩

omit [DecidableEq κ] in
lemma innermost_of_append {extra others others' : List (SessionsLink ι α)} {i i' : ι}
    (hothers : others.any SessionsLink.isSessions = false)
    (h : .sessions i :: others = extra ++ .sessions i' :: others') : i = i' ∧ others = others' := by
  cases extra with
  | nil =>
    rw [List.nil_append, List.cons.injEq] at h
    exact ⟨SessionsLink.sessions.inj h.1, h.2⟩
  | cons link rest =>
    rw [List.cons_append, List.cons.injEq] at h
    simp [h.2, SessionsLink.isSessions] at hothers

omit [DecidableEq κ] in
lemma innermost_unique {before before' others others' : List (SessionsLink ι α)} {i i' : ι}
    (hothers : others.any SessionsLink.isSessions = false) (hothers' : others'.any SessionsLink.isSessions = false)
    (h : before ++ .sessions i :: others = before' ++ .sessions i' :: others') : i = i' ∧ others = others' := by
  rcases List.append_eq_append_iff.mp h with ⟨extra, _, hextra⟩ | ⟨extra, _, hextra⟩
  · exact innermost_of_append hothers hextra
  · obtain ⟨hi, hsame⟩ := innermost_of_append hothers' hextra
    exact ⟨hi.symm, hsame.symm⟩

/-! ## Names -/

omit [DecidableEq κ] in
/-- The text of a cookie begins with its name. -/
lemma cookieHeader_name {i : ι} {data : OrderedDict κ ν} {text : String} (h : w.cookieHeader i data = .ok text) :
    text.toList.takeWhile (· ≠ '=') = (w.object i).cookie.toList := by
  unfold cookieHeader at h
  obtain ⟨encoded, _, rfl⟩ := map_eq_ok.mp h
  have hname : ∀ c ∈ (w.object i).cookie.toList, (c ≠ '=') := by
    rintro c hc rfl
    exact (w.object i).named hc
  rw [List.cons_append, String.intercalate_cons_of_ne_nil (by simp)]
  simp only [String.toList_append, List.append_assoc]
  rw [List.takeWhile_append_of_pos (by simpa using hname)]
  simp

variable {w}

omit [DecidableEq κ] in
lemma cookieHeader_injective (hnames : Function.Injective fun i => (w.object i).cookie) {i j : ι} {d d' : OrderedDict κ ν}
    {text : String} (hi : w.cookieHeader i d = .ok text) (hj : w.cookieHeader j d' = .ok text) : i = j := by
  apply hnames
  have hname : (w.object i).cookie.toList = (w.object j).cookie.toList :=
    (w.cookieHeader_name hi).symm.trans (w.cookieHeader_name hj)
  exact String.toList_injective hname

/-- A cookie that is written is the only one that a response gains. -/
lemma le_setHeader_iff {r : DictReply α} {value : PyArg α} {owed : Multiset (PyArg α)} (howed : owed ≠ 0) :
    r.cookies + owed ≤ (r.setHeader (.text "set-cookie") value).cookies ↔
      r.streamed = false ∧ r.underKey = 0 ∧ owed = {value} := by
  cases hstreamed : r.streamed with
  | true =>
    have hset : (r.setHeader (.text "set-cookie") value).cookies = 0 := DictReply.cookies_streamed hstreamed
    rw [hset, DictReply.cookies_streamed hstreamed, zero_add]
    refine iff_of_false ?_ (by simp)
    intro hle
    exact howed (le_antisymm hle (Multiset.zero_le _))
  | false =>
    have hset := DictReply.cookies_setHeader hstreamed value
    constructor
    · intro hle
      have hsum : owed + r.underKey ≤ {value} := by
        have hle' := add_le_add_left hle r.underKey
        rw [hset, add_assoc] at hle'
        exact le_of_add_le_add_left hle'
      have hcard : owed.card + r.underKey.card ≤ 1 := by simpa using Multiset.card_le_card hsum
      have hpos : 0 < owed.card := Multiset.card_pos.mpr howed
      have hunder : r.underKey = 0 := Multiset.card_eq_zero.mp (by omega)
      rw [hunder, add_zero] at hsum
      refine ⟨rfl, hunder, Multiset.eq_of_le_of_card_le hsum ?_⟩
      rw [Multiset.card_singleton]
      exact hpos
    · rintro ⟨_, hunder, rfl⟩
      rw [hunder, add_zero] at hset
      rw [hset]

omit [DecidableEq κ] [DecidableEq α] in
lemma modifiedCookies_concat (earlier : List (ι × CookieSession κ ν)) {entry : ι × CookieSession κ ν}
    (h : entry.2.modified = true) :
    w.modifiedCookies (α := α) (earlier ++ [entry]) = w.modifiedCookies earlier + {w.cookieOf entry} := by
  unfold modifiedCookies
  rw [List.filter_append, List.map_append, ← Multiset.coe_add]
  simp [h]

omit [DecidableEq α] in
lemma text_injective {s t : String} (h : (PyArg.text s : PyArg α) = .text t) : s = t := by
  have hscalars := congrArg PyStr.scalars (PyArg.str.inj h)
  simp only [lit, scalars_ofText] at hscalars
  exact String.toList_injective hscalars

variable {steps reply}

/-- The innermost middleware finds no session, or one that is not modified. -/
lemma preserved_iff_unwritten {before others : List (SessionsLink ι α)} {i : ι}
    (hothers : others.any SessionsLink.isSessions = false)
    (hlast : ∀ entry, (w.loadedBy steps).getLast? = some entry → entry.2.modified = false) :
    w.Preserved steps reply (before ++ .sessions i :: others) ↔
      ∀ entry ∈ w.loadedBy steps, entry.2.modified = false := by
  have hwritten : w.writeBack i (w.loadedBy steps).getLast? (applyOthers reply others) =
      .ok (applyOthers reply others) := by
    cases hentry : (w.loadedBy steps).getLast? with
    | none => rfl
    | some entry => simp [writeBack, hlast entry hentry]
  rw [w.preserved_iff_written steps reply before hothers hwritten, ← w.modifiedCookies_eq_zero_iff (α := α)]
  constructor
  · intro hle
    exact le_antisymm (le_of_add_le_add_left (hle.trans_eq (add_zero _).symm)) (Multiset.zero_le _)
  · intro hzero
    rw [hzero, add_zero]

/-- It finds one that is modified. -/
lemma preserved_iff_rewritten {before others : List (SessionsLink ι α)} {i : ι} {earlier : List (ι × CookieSession κ ν)}
    {entry : ι × CookieSession κ ν} (hnames : Function.Injective fun i => (w.object i).cookie)
    (hjson : ∀ i data, ∃ encoded, w.encode i data = .ok encoded) (hothers : others.any SessionsLink.isSessions = false)
    (hloaded : w.loadedBy steps = earlier ++ [entry]) (hmodified : entry.2.modified = true) :
    w.Preserved steps reply (before ++ .sessions i :: others) ↔
      entry.1 = i ∧ (∀ entry ∈ earlier, entry.2.modified = false) ∧ (applyOthers reply others).streamed = false ∧
        (applyOthers reply others).underKey = 0 := by
  have htexts : ∀ j, ∃ text, w.cookieHeader j entry.2.data = .ok text := by
    intro j
    obtain ⟨encoded, hencoded⟩ := hjson j entry.2.data
    unfold cookieHeader
    rw [hencoded]
    exact ⟨_, rfl⟩
  obtain ⟨text, htext⟩ := htexts i
  obtain ⟨own, hown⟩ := htexts entry.1
  have hcookie : (w.cookieOf entry : PyArg α) = .text own := by
    unfold cookieOf
    rw [hown]
  have hwritten : w.writeBack i (w.loadedBy steps).getLast? (applyOthers reply others) =
      .ok ((applyOthers reply others).setHeader (.text "set-cookie") (.text text)) := by
    rw [hloaded, List.getLast?_concat]
    simp [writeBack, hmodified, htext, Except.map]
  have howed : w.modifiedCookies (α := α) (w.loadedBy steps) = w.modifiedCookies earlier + {.text own} := by
    rw [hloaded, modifiedCookies_concat earlier hmodified, hcookie]
  rw [w.preserved_iff_written steps reply before hothers hwritten, howed, le_setHeader_iff]
  · constructor
    · rintro ⟨hstreamed, hunder, hsum⟩
      have hearlier : w.modifiedCookies (α := α) earlier = 0 := by
        have hcard := congrArg Multiset.card hsum
        rw [Multiset.card_add, Multiset.card_singleton, Multiset.card_singleton] at hcard
        exact Multiset.card_eq_zero.mp (by omega)
      rw [hearlier, zero_add, Multiset.singleton_inj] at hsum
      obtain rfl := text_injective hsum
      exact ⟨cookieHeader_injective hnames hown htext, w.modifiedCookies_eq_zero_iff.mp hearlier, hstreamed, hunder⟩
    · rintro ⟨rfl, hearlier, hstreamed, hunder⟩
      obtain rfl : text = own := Except.ok.inj (htext.symm.trans hown)
      refine ⟨hstreamed, hunder, ?_⟩
      rw [w.modifiedCookies_eq_zero_iff.mpr hearlier, zero_add]
  · intro hzero
    simpa using congrArg Multiset.card hzero

/-- No cookie is lost, exactly if the sessions and the reply are such that none can be. -/
theorem preserved_iff (w : SessionsWorld ι κ ν) (hnames : Function.Injective fun i => (w.object i).cookie)
    (hjson : ∀ i data, ∃ encoded, w.encode i data = .ok encoded) (steps : List (HandlerStep ι κ ν))
    (reply : DictReply α) (chain : List (SessionsLink ι α)) :
    w.Preserved steps reply chain ↔ w.Kept steps reply chain := by
  unfold Kept
  rcases innermost_cases chain with hothers | ⟨before, i, others, rfl, hothers⟩
  · rw [w.preserved_others_iff steps reply hothers, modifiedCookies_eq_zero_iff]
    constructor
    · exact .inl
    · rintro (hnone | ⟨before, i, others, earlier, session, rfl, _⟩)
      · exact hnone
      · simp [SessionsLink.isSessions] at hothers
  · by_cases hlast : ∀ entry, (w.loadedBy steps).getLast? = some entry → entry.2.modified = false
    · rw [preserved_iff_unwritten hothers hlast]
      constructor
      · exact .inl
      · rintro (hnone | ⟨before', i', others', earlier, session, _, _, hloaded, hearlier, _⟩)
        · exact hnone
        · have hsession := hlast (i', session) (by rw [hloaded, List.getLast?_concat])
          rw [hloaded]
          intro entry hentry
          rcases List.mem_append.mp hentry with hentry | hentry
          · exact hearlier entry hentry
          · rw [List.mem_singleton.mp hentry]
            exact hsession
    · obtain ⟨entry, hentry, hmodified⟩ : ∃ entry, (w.loadedBy steps).getLast? = some entry ∧ entry.2.modified = true := by
        simpa using hlast
      obtain ⟨earlier, hloaded⟩ := List.getLast?_eq_some_iff.mp hentry
      rw [preserved_iff_rewritten hnames hjson hothers hloaded hmodified]
      constructor
      · rintro ⟨rfl, hearlier, hstreamed, hunder⟩
        exact .inr ⟨before, entry.1, others, earlier, entry.2, rfl, hothers, hloaded, hearlier, hstreamed, hunder⟩
      · rintro (hnone | ⟨before', i', others', earlier', session, hchain, hothers', hloaded', hearlier, hstreamed, hunder⟩)
        · have hunmodified := hnone entry (by simp [hloaded])
          rw [hmodified] at hunmodified
          cases hunmodified
        · obtain ⟨rfl, rfl⟩ := innermost_unique hothers hothers' hchain
          rw [hloaded] at hloaded'
          obtain ⟨rfl, hlast'⟩ := List.append_inj' hloaded' rfl
          obtain rfl := List.singleton_inj.mp hlast'
          exact ⟨rfl, hearlier, hstreamed, hunder⟩

end SessionsWorld

/-! ## Two sessions -/

inductive ShopSession
  | login
  | cart
  deriving DecidableEq

/-- An app with two `Sessions`, and a request without cookies. -/
def twoSessions : SessionsWorld ShopSession String String where
  object
    | .login => ⟨"login", 1209600, true, "Lax", "/", by decide⟩
    | .cart => ⟨"cart", 1209600, true, "Lax", "/", by decide⟩
  encode _ data := .ok (" ".intercalate (data.items.map fun item => item.1 ++ ":" ++ item.2))
  decoded _ := .empty

lemma twoSessions_names : Function.Injective fun i => (twoSessions.object i).cookie := by
  intro i j h
  cases i <;> cases j <;> first | rfl | exact absurd h (by decide)

/-- One session, the last to be loaded and that of the innermost middleware, is written. -/
theorem cart_written :
    twoSessions.Preserved [.load .login, .load .cart, .act 1 (.setItem "item" "book")]
      (SessionsWorld.plainReply : DictReply Empty) [.sessions .login, .sessions .cart] := by
  apply (twoSessions.preserved_iff twoSessions_names (fun _ _ => ⟨_, rfl⟩) _ _ _).mpr
  refine .inr ⟨[.sessions .login], .cart, [], [(.login, .new .empty)], _, rfl, rfl, rfl, ?_, rfl, rfl⟩
  simp [CookieSession.new]

/-- A login is lost if the cart is loaded after it. -/
theorem login_lost :
    (twoSessions.serve [.load .login, .load .cart, .act 0 (.setItem "user" "ada")]
      (SessionsWorld.plainReply : DictReply Empty) [.sessions .login, .sessions .cart] SessionsWorld.start).1 =
        .ok SessionsWorld.plainReply ∧
    ¬ twoSessions.Preserved [.load .login, .load .cart, .act 0 (.setItem "user" "ada")]
      (SessionsWorld.plainReply : DictReply Empty) [.sessions .login, .sessions .cart] := by
  refine ⟨rfl, ?_⟩
  rintro ⟨final, hfinal, hle⟩
  cases hfinal
  have hcard := Multiset.card_le_card hle
  exact absurd hcard (by decide)

end Oxbrook
