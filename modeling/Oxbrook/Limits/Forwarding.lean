import Oxbrook.Limits.Proxies

/-!
# Requests through trusted proxies

The way of a request: the client sends some lines of `X-Forwarded-For`, and each trusted proxy adds the address
of its peer.  The outermost one adds the address of the client, and the last is the peer of the server.
-/

namespace Oxbrook

open Proxies

/-! ## What a proxy adds -/

/-- An address as a proxy writes it: visible, without a comma or spaces around it, and in one of the notations
that are read. -/
structure WrittenAddr where
  text : List UInt8
  addr : IpAddr
  visible : ∀ b ∈ text, visibleAscii b = true
  single : 44 ∉ text
  trimmed : trim text = text
  reads : parseEntry text = some addr

namespace WrittenAddr

/-- A line of its own. -/
def line (w : WrittenAddr) : HeaderValue where
  bytes := w.text
  valid b hb := headerByte_of_visibleAscii (w.visible b hb)

/-- After a comma and some spaces. -/
def appendTo (w : WrittenAddr) (spaces : ℕ) (v : HeaderValue) : HeaderValue where
  bytes := v.bytes ++ 44 :: (List.replicate spaces 32 ++ w.text)
  valid b hb := by
    simp only [List.mem_append, List.mem_cons, List.mem_replicate] at hb
    obtain hb | rfl | ⟨-, rfl⟩ | hb := hb
    · exact v.valid b hb
    · decide
    · decide
    · exact headerByte_of_visibleAscii (w.visible b hb)

end WrittenAddr

inductive ForwardMode
  | appended (spaces : ℕ)
  | ownLine
  deriving DecidableEq

/-- A proxy: the address of its peer, and how it adds it. -/
structure ProxyHop where
  entry : WrittenAddr
  mode : ForwardMode

namespace ProxyHop

/-- The lines a proxy passes on.  Where there is no line yet, it starts one. -/
def forward (hop : ProxyHop) (lines : List HeaderValue) : List HeaderValue :=
  match hop.mode, lines.getLast? with
  | .appended spaces, some last => lines.dropLast ++ [hop.entry.appendTo spaces last]
  | _, _ => lines ++ [hop.entry.line]

/-- The lines that reach the server. -/
def forwardAll (hops : List ProxyHop) (lines : List HeaderValue) : List HeaderValue :=
  hops.foldl (fun lines hop => hop.forward lines) lines

end ProxyHop

open ProxyHop

/-- The headers that reach the server: what has nothing to do with the address, and the lines. -/
def requestHeaders (others : HeaderMap) (lines : List HeaderValue) : HeaderMap :=
  (others.filter fun h => h.1 ≠ forwardedFor) ++ lines.map fun line => (forwardedFor, line)

/-! ## Entries -/

section Entries

variable {v : HeaderValue} {w : WrittenAddr} {lines : List HeaderValue} {hop : ProxyHop} {spaces : ℕ}

lemma entriesOf_append (lines more : List HeaderValue) :
    entriesOf (lines ++ more) = entriesOf lines ++ entriesOf more := by
  simp [entriesOf]

lemma entriesOf_visible (h : v.Visible) : entriesOf [v] = (v.bytes.splitOn 44).map trim := by
  simp [entriesOf, HeaderValue.toStr, h]

lemma entriesOf_not_visible (h : ¬ v.Visible) : entriesOf [v] = [] := by
  simp [entriesOf, HeaderValue.toStr, h]

lemma trim_spaces (text : List UInt8) : trim (List.replicate spaces 32 ++ text) = trim text := by
  induction spaces with
  | zero => rfl
  | succ n ih =>
    rw [List.replicate_succ, List.cons_append, ← ih]
    simp [trim]

lemma WrittenAddr.line_visible (w : WrittenAddr) : w.line.Visible := w.visible

lemma WrittenAddr.entriesOf_line (w : WrittenAddr) : entriesOf [w.line] = [w.text] := by
  rw [entriesOf_visible w.line_visible]
  simp only [WrittenAddr.line, List.splitOn_eq_singleton w.single, List.map_cons, List.map_nil, w.trimmed]

/-- Appending keeps a line as readable as it was. -/
lemma WrittenAddr.appendTo_visible_iff : (w.appendTo spaces v).Visible ↔ v.Visible := by
  constructor
  · intro h b hb
    exact h b (List.mem_append_left _ hb)
  · intro h b hb
    simp only [WrittenAddr.appendTo, List.mem_append, List.mem_cons, List.mem_replicate] at hb
    obtain hb | rfl | ⟨-, rfl⟩ | hb := hb
    · exact h b hb
    · decide
    · decide
    · exact w.visible b hb

lemma WrittenAddr.entriesOf_appendTo (h : v.Visible) :
    entriesOf [w.appendTo spaces v] = entriesOf [v] ++ [w.text] := by
  have hsingle : (44 : UInt8) ∉ List.replicate spaces 32 ++ w.text := by
    simp only [List.mem_append, List.mem_replicate, not_or]
    exact ⟨fun h => absurd h.2 (by decide), w.single⟩
  rw [entriesOf_visible h, entriesOf_visible (WrittenAddr.appendTo_visible_iff.mpr h)]
  simp only [WrittenAddr.appendTo, List.splitOn_append_cons_self, List.splitOn_eq_singleton hsingle,
    List.map_append, List.map_cons, List.map_nil, trim_spaces, w.trimmed]

/-- The last line, if any, can be read. -/
def LastVisible (lines : List HeaderValue) : Prop := ∀ last, lines.getLast? = some last → last.Visible

lemma lastVisible_concat : LastVisible (lines ++ [v]) ↔ v.Visible := by
  simp [LastVisible]

lemma forward_ownLine (h : hop.mode = .ownLine) : hop.forward lines = lines ++ [hop.entry.line] := by
  simp only [forward, h]

lemma forward_nil : hop.forward [] = [hop.entry.line] := by
  simp [forward]

lemma forward_appended (h : hop.mode = .appended spaces) :
    hop.forward (lines ++ [v]) = lines ++ [hop.entry.appendTo spaces v] := by
  simp [forward, h]

/-- What a proxy adds is the last entry, if it starts a line or finds one that can be read. -/
lemma entriesOf_forward (hop : ProxyHop) (h : hop.mode = .ownLine ∨ LastVisible lines) :
    entriesOf (hop.forward lines) = entriesOf lines ++ [hop.entry.text] ∧ LastVisible (hop.forward lines) := by
  have hstart : entriesOf (lines ++ [hop.entry.line]) = entriesOf lines ++ [hop.entry.text] ∧
      LastVisible (lines ++ [hop.entry.line]) := by
    rw [entriesOf_append, hop.entry.entriesOf_line, lastVisible_concat]
    exact ⟨rfl, hop.entry.line_visible⟩
  cases hmode : hop.mode with
  | ownLine =>
    rw [forward_ownLine hmode]
    exact hstart
  | appended spaces =>
    have hlast : LastVisible lines := h.resolve_left (by simp [hmode])
    obtain rfl | ⟨before, v, rfl⟩ := lines.eq_nil_or_concat
    · rw [forward_nil]
      exact hstart
    · rw [List.concat_eq_append] at hlast ⊢
      have hv : v.Visible := lastVisible_concat.mp hlast
      rw [forward_appended hmode, lastVisible_concat, entriesOf_append, entriesOf_append,
        WrittenAddr.entriesOf_appendTo hv, List.append_assoc]
      exact ⟨rfl, WrittenAddr.appendTo_visible_iff.mpr hv⟩

/-- From a line that can be read on, the entries of all proxies are the last ones. -/
lemma entriesOf_forwardAll (hops : List ProxyHop) (h : LastVisible lines) :
    entriesOf (forwardAll hops lines) = entriesOf lines ++ hops.map fun hop => hop.entry.text := by
  induction hops generalizing lines with
  | nil => simp [forwardAll]
  | cons hop hops ih =>
    obtain ⟨hentries, hlast⟩ := entriesOf_forward hop (.inr h)
    have hrest := ih hlast
    rw [hentries] at hrest
    simpa [forwardAll] using hrest

/-- What the proxies append to a line that cannot be read is lost, up to the first that starts a line. -/
lemma entriesOf_forwardAll_lost (hops : List ProxyHop) (h : ¬ v.Visible) :
    entriesOf (forwardAll hops (lines ++ [v])) =
      entriesOf lines ++ (hops.dropWhile fun hop => hop.mode ≠ .ownLine).map fun hop => hop.entry.text := by
  induction hops generalizing v with
  | nil => simp [forwardAll, entriesOf_append, entriesOf_not_visible h]
  | cons hop hops ih =>
    cases hmode : hop.mode with
    | ownLine =>
      have hstarts : hop.mode = .ownLine ∨ LastVisible (lines ++ [v]) := .inl hmode
      obtain ⟨hentries, hlast⟩ := entriesOf_forward hop hstarts
      have hrest := entriesOf_forwardAll hops hlast
      rw [hentries, entriesOf_append, entriesOf_not_visible h] at hrest
      simpa [forwardAll, hmode] using hrest
    | appended spaces =>
      have hv : ¬ (hop.entry.appendTo spaces v).Visible := fun hv => h (WrittenAddr.appendTo_visible_iff.mp hv)
      have hrest := ih hv
      rw [← forward_appended hmode] at hrest
      simpa [forwardAll, hmode] using hrest

end Entries

/-! ## The address that is read -/

section Client

variable {networks : List (IpAddr × ℕ)} {peer : IpAddr} {others : HeaderMap} {lines : List HeaderValue}
variable {first : ProxyHop} {rest : List ProxyHop} {proxies : Proxies}

lemma getAll_forwardedFor : (requestHeaders others lines).getAll forwardedFor = lines := by
  simp [requestHeaders, HeaderMap.getAll, List.filter_filter, List.filter_map, Function.comp_def]

/-- A limit that is not keyed on the lines themselves does not see them. -/
lemma writeKey_requestHeaders {key : LimitKey} (h : key ≠ .header forwardedFor) (client : Option IpAddr) :
    key.writeKey client (requestHeaders others lines) = key.writeKey client (requestHeaders others []) := by
  cases key with
  | client => rfl
  | principal => rfl
  | header name =>
    have hname : forwardedFor ≠ name := fun hname => h (hname ▸ rfl)
    have hgetAll : (requestHeaders others lines).getAll name = (requestHeaders others []).getAll name := by
      simp [requestHeaders, HeaderMap.getAll, List.filter_map, Function.comp_def, hname]
    have hcontains : (requestHeaders others lines).containsKey name =
        (requestHeaders others []).containsKey name := by
      rw [requestHeaders, requestHeaders, HeaderMap.containsKey, HeaderMap.containsKey, List.any_append,
        List.any_append, List.any_map]
      simp [Function.comp_def, hname]
    simp only [LimitKey.writeKey, hgetAll, hcontains]

/-- The walk passes over the entries of trusted proxies. -/
lemma walk_trusted (hops : List ProxyHop) (client : IpAddr) (entries : List (List UInt8))
    (trusted : ∀ hop ∈ hops, trusts networks hop.entry.addr = true) :
    ∃ client', walk networks client ((hops.map fun hop => hop.entry.text) ++ entries) =
      walk networks client' entries := by
  induction hops generalizing client with
  | nil => exact ⟨client, rfl⟩
  | cons hop hops ih =>
    obtain ⟨client', hwalk⟩ := ih hop.entry.addr fun h hh => trusted h (List.mem_cons_of_mem _ hh)
    refine ⟨client', ?_⟩
    rw [List.map_cons, List.cons_append, walk, hop.entry.reads]
    simpa [trusted hop (List.mem_cons_self ..)] using hwalk

/-- And over entries of one address it ends at this address. -/
lemma walk_replicate (chosen : WrittenAddr) (n : ℕ) (client : IpAddr) :
    walk networks client (List.replicate (n + 1) chosen.text) = chosen.addr := by
  induction n generalizing client with
  | zero =>
    rw [List.replicate_one, walk, chosen.reads]
    simp [walk]
  | succ n ih =>
    rw [List.replicate_succ, walk, chosen.reads]
    simp [ih]

/-- The proxies the server is told about are those the request went through: as many, or by their networks, with
the client outside. -/
def Describes (proxies : Proxies) (peer : IpAddr) (first : ProxyHop) (rest : List ProxyHop) : Prop :=
  proxies = .hops (rest.length + 1) ∨ ∃ networks, proxies = .networks networks ∧
    trusts networks peer = true ∧ (∀ hop ∈ rest, trusts networks hop.entry.addr = true) ∧
      trusts networks first.entry.addr = false

/-- Where the entries of all proxies are the last ones, the address is the one the outermost recorded. -/
lemma client_eq_recorded (h : Describes proxies peer first rest) {before : List (List UInt8)}
    (entries : entriesOf lines = before ++ (first :: rest).map fun hop => hop.entry.text) :
    proxies.client peer (requestHeaders others lines) = first.entry.addr := by
  obtain rfl | ⟨networks, rfl, hpeer, htrusted, hfirst⟩ := h
  · have hlength : (entriesOf lines).length = before.length + (rest.length + 1) := by
      simp [entries]
    have hat : (entriesOf lines)[before.length]? = some first.entry.text := by
      simp [entries]
    simp only [client, getAll_forwardedFor, hlength, Nat.add_sub_cancel, hat, Option.bind_some,
      first.entry.reads, Option.getD_some, Nat.le_add_left, if_true]
  · have hreverse : (entriesOf lines).reverse =
        (rest.reverse.map fun hop => hop.entry.text) ++ first.entry.text :: before.reverse := by
      simp [entries]
    obtain ⟨client', hwalk⟩ := walk_trusted rest.reverse peer (first.entry.text :: before.reverse)
      fun hop hhop => htrusted hop (List.mem_reverse.mp hhop)
    simp only [client, getAll_forwardedFor, hpeer, if_true, hreverse, hwalk, walk, first.entry.reads, hfirst,
      Bool.false_eq_true, if_false]

/-- Where they are not, and the client has sent enough entries of one address, it is that address. -/
lemma client_eq_chosen (h : Describes proxies peer first rest) (chosen : WrittenAddr) {kept : List ProxyHop}
    (sublist : kept.Sublist rest)
    (entries : entriesOf lines =
      List.replicate (rest.length + 1) chosen.text ++ kept.map fun hop => hop.entry.text) :
    proxies.client peer (requestHeaders others lines) = chosen.addr := by
  obtain rfl | ⟨networks, rfl, hpeer, htrusted, -⟩ := h
  · have hlength : (entriesOf lines).length = kept.length + (rest.length + 1) := by
      simp [entries, Nat.add_comm]
    have hshort : kept.length < rest.length + 1 := Nat.lt_succ_of_le sublist.length_le
    have hat : (entriesOf lines)[kept.length]? = some chosen.text := by
      rw [entries, List.getElem?_append_left (by simpa using hshort), List.getElem?_replicate, if_pos hshort]
    simp only [client, getAll_forwardedFor, hlength, Nat.add_sub_cancel, hat, Option.bind_some, chosen.reads,
      Option.getD_some, Nat.le_add_left, if_true]
  · have hreverse : (entriesOf lines).reverse =
        (kept.reverse.map fun hop => hop.entry.text) ++ List.replicate (rest.length + 1) chosen.text := by
      simp [entries]
    obtain ⟨client', hwalk⟩ := walk_trusted kept.reverse peer (List.replicate (rest.length + 1) chosen.text)
      fun hop hhop => htrusted hop (sublist.subset (List.mem_reverse.mp hhop))
    simp only [client, getAll_forwardedFor, hpeer, if_true, hreverse, hwalk, walk_replicate]

lemma entriesOf_replicate (w : WrittenAddr) (n : ℕ) :
    entriesOf (List.replicate n w.line) = List.replicate n w.text := by
  induction n with
  | zero => rfl
  | succ n ih =>
    rw [List.replicate_succ, ← List.singleton_append, entriesOf_append, w.entriesOf_line, ih,
      List.replicate_succ, List.singleton_append]

/-- Two addresses a client may pretend to have. -/
def WrittenAddr.six : WrittenAddr where
  text := [54, 46, 54, 46, 54, 46, 54]
  addr := .v4 0x06060606
  visible := by decide +kernel
  single := by decide +kernel
  trimmed := by decide +kernel
  reads := by decide +kernel

def WrittenAddr.seven : WrittenAddr where
  text := [55, 46, 55, 46, 55, 46, 55]
  addr := .v4 0x07070707
  visible := by decide +kernel
  single := by decide +kernel
  trimmed := by decide +kernel
  reads := by decide +kernel

lemma exists_other_addr (addr : IpAddr) : ∃ w : WrittenAddr, w.addr ≠ addr := by
  by_cases h : WrittenAddr.six.addr = addr
  · refine ⟨WrittenAddr.seven, fun hseven => ?_⟩
    exact absurd (h.trans hseven.symm) (by decide)
  · exact ⟨WrittenAddr.six, h⟩

/-- **When a client cannot choose its address.**  Fix the proxies, and the last line the client sends.  Whatever
other lines it sends before, the address and the key of a limit are those of what the outermost proxy recorded,
if and only if this proxy starts a line of its own or the last line of the client can be read. -/
theorem client_address_recorded_iff (describes : Describes proxies peer first rest) (others : HeaderMap)
    (sent : List HeaderValue) :
    (∀ sent' : List HeaderValue, sent'.getLast? = sent.getLast? →
      let headers := requestHeaders others (forwardAll (first :: rest) sent')
      proxies.client peer headers = first.entry.addr ∧
        ∀ key : LimitKey, key ≠ .header forwardedFor →
          key.writeKey (some (proxies.client peer headers)) headers =
            key.writeKey (some first.entry.addr) (requestHeaders others [])) ↔
      (first.mode = .ownLine ∨ ∀ last, sent.getLast? = some last → last.Visible) := by
  constructor
  · intro always
    by_contra! hlost
    obtain ⟨happended, last, hlast, hinvisible⟩ := hlost
    obtain ⟨chosen, hother⟩ := exists_other_addr first.entry.addr
    -- as many lines with the other address as there are proxies, and the unreadable one
    let before := List.replicate (rest.length + 1) chosen.line
    have hentries : entriesOf (forwardAll (first :: rest) (before ++ [last])) =
        entriesOf before ++ _ := entriesOf_forwardAll_lost (first :: rest) hinvisible
    rw [entriesOf_replicate, List.dropWhile_cons_of_pos (by simpa using happended)] at hentries
    have hrecorded := (always (before ++ [last]) (by simp [hlast])).1
    have hchosen : proxies.client peer
        (requestHeaders others (forwardAll (first :: rest) (before ++ [last]))) = chosen.addr :=
      client_eq_chosen describes chosen (List.dropWhile_sublist _) hentries
    exact hother (hchosen.symm.trans hrecorded)
  · intro h sent' hlast
    have hvisible : first.mode = .ownLine ∨ LastVisible sent' := by
      rw [LastVisible, hlast]
      exact h
    obtain ⟨hfirst, hnext⟩ := entriesOf_forward first hvisible
    have hentries : entriesOf (forwardAll (first :: rest) sent') =
        entriesOf sent' ++ (first :: rest).map fun hop => hop.entry.text := by
      have hrest := entriesOf_forwardAll rest hnext
      rw [hfirst] at hrest
      simpa [forwardAll] using hrest
    have hclient : proxies.client peer (requestHeaders others (forwardAll (first :: rest) sent')) =
        first.entry.addr := client_eq_recorded describes hentries
    refine ⟨hclient, fun key hkey => ?_⟩
    rw [hclient]
    exact writeKey_requestHeaders hkey _

/-- One proxy that appends `7.7.7.7` to the line the client sent. -/
theorem client_address_recorded_small :
    let first : ProxyHop := ⟨WrittenAddr.seven, .appended 1⟩
    let sent : List HeaderValue := [WrittenAddr.six.line]
    (Proxies.hops 1).client (.v4 0x0a000001) (requestHeaders [] (forwardAll [first] sent)) = .v4 0x07070707 := by
  intro first sent
  have describes : Describes (.hops 1) (.v4 0x0a000001) first [] := .inl rfl
  have hiff := client_address_recorded_iff describes [] sent
  exact (hiff.mpr (.inr (by decide +kernel)) sent rfl).1

/-- A client sends `6.6.6.6` and then a line with one byte that is not visible.  The proxy appends the address
`7.7.7.7` of the client to that line, and the address that is read is `6.6.6.6`. -/
theorem client_chooses_its_address :
    let first : ProxyHop := ⟨WrittenAddr.seven, .appended 1⟩
    let sent : List HeaderValue := [WrittenAddr.six.line, ⟨[255], by decide +kernel⟩]
    let headers := requestHeaders [] (forwardAll [first] sent)
    let networks := [(IpAddr.v4 0x0a000000, 8)]
    Describes (.hops 1) (.v4 0x0a000001) first [] ∧
      Describes (.networks networks) (.v4 0x0a000001) first [] ∧
      (Proxies.hops 1).client (.v4 0x0a000001) headers = .v4 0x06060606 ∧
      (Proxies.networks networks).client (.v4 0x0a000001) headers = .v4 0x06060606 ∧
      first.entry.addr ≠ .v4 0x06060606 := by
  intro first sent headers networks
  refine ⟨.inl rfl, .inr ⟨networks, rfl, ?_, nofun, ?_⟩, ?_, ?_, ?_⟩
  all_goals decide +kernel

end Client

end Oxbrook
