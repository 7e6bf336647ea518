import Mathlib.Data.Nat.Digits.Lemmas
import Oxbrook.Events.Format
import Oxbrook.Foundation.Runs

/-!
# Where a subscription resumes

What `subscribe(since=…)` makes of a `Last-Event-ID`, and what the replay then asks of Redis:
entries after a position, first the one the client sent and then that of each entry read.  The
position is sent as two numbers, and Redis keeps either of them in 64 bits.

`since_iff` says for which texts the replay never fails, and that the id of an entry is always one
of them.
-/

namespace Oxbrook

open PyStr StepMachine

namespace Since

/-! ## Texts and numbers -/

/-- The decimal digits of Unicode, which `\d` matches and `int` reads. -/
structure DecimalTable where
  value : CodePoint → Option ℕ
  ascii : ∀ d < 10, value (.scalar (Nat.digitChar d)) = some d
  dash : value (.scalar '-') = none

variable (table : DecimalTable)

/-- `\d{1,20}`. -/
def numeral (text : PyStr) : Bool :=
  1 ≤ text.length ∧ text.length ≤ 20 ∧ ∀ c ∈ text, (table.value c).isSome

/-- `str.partition("-")`, without the dash. -/
def partition (text : PyStr) : PyStr × PyStr :=
  (text.takeWhile (· ≠ .scalar '-'), (text.dropWhile (· ≠ .scalar '-')).tail)

/-- `STREAM_ID.fullmatch`. -/
def fullmatch (text : PyStr) : Bool :=
  .scalar '-' ∈ text ∧ numeral table (partition text).1 ∧ numeral table (partition text).2

/-- `int` of a text of digits; `none` is its `ValueError`. -/
def readInt (text : PyStr) : Option ℕ :=
  if text = [] then none
  else text.foldl (fun n c => n.bind fun n => (table.value c).map fun d => 10 * n + d) (some 0)

/-- `_position`. -/
def position (ident : PyStr) : Option (ℕ × ℕ) :=
  (readInt table (partition ident).1).bind fun ms =>
    (readInt table (partition ident).2).map fun seq => (ms, seq)

/-- What `subscribe` is given: a `str`, or a value of another type, which has this name. -/
inductive SinceArg
  | text (since : PyStr)
  | other (type : String)

/-- `_since`; the error is the text of its `TypeError`. -/
def since : SinceArg → Except String PyStr
  | .other type => .error s!"since is a stream id string, got {type}"
  | .text since =>
    if since = lit "$" ∨ since = [] then .ok (lit "$")
    else if since = lit "0" then .ok (lit "0-0")
    else if fullmatch table since then .ok since
    else .ok (lit "$")

/-- A stream id as Redis writes it. -/
def idText (id : ℕ × ℕ) : PyStr :=
  ofText (Nat.toDigits 10 id.1) ++ .scalar '-' :: ofText (Nat.toDigits 10 id.2)

/-- The `start` of a page of history, after a position. -/
def historyStart (after : ℕ × ℕ) : PyStr := .scalar '(' :: idText after

/-! ## The replay -/

/-- Either part of the id has 64 bits, and there is an id after it. -/
def InRange (id : ℕ × ℕ) : Prop :=
  id.1 < 2 ^ 64 ∧ id.2 < 2 ^ 64 ∧ id ≠ (2 ^ 64 - 1, 2 ^ 64 - 1)

instance (id : ℕ × ℕ) : Decidable (InRange id) := inferInstanceAs (Decidable (_ ∧ _))

/-- What `XRANGE` accepts as its start: an exclusive start has to be an id of two 64-bit numbers
that another id comes after. -/
structure RedisRanges where
  accepts : PyStr → Bool
  exclusive : ∀ id, accepts (historyStart id) = true ↔ InRange id

/-- A replay: the position read last, the entries of the last page that were not read yet, and
whether a read has raised. -/
structure Replay where
  after : ℕ × ℕ
  backlog : List PyStr
  failed : Bool

/-- A step of `_replayed`: it reads a page, which holds these entries of the stream if the read
succeeds, or it takes the next entry from the page. -/
inductive ReplayAction
  | read (page : List (ℕ × ℕ))
  | take

namespace Replay

/-- The step function.  Redis makes an entry's id from its clock, so it comes before the greatest. -/
def step (redis : RedisRanges) (s : Replay) : ReplayAction → Option Replay
  | .read page =>
    if s.backlog = [] ∧ s.failed = false ∧ ∀ id ∈ page, InRange id then
      some (if redis.accepts (historyStart s.after) then { s with backlog := page.map idText }
        else { s with failed := true })
    else none
  | .take =>
    match s.backlog with
    | [] => none
    | ident :: backlog =>
      match position table ident with
      | some after => some { s with after := after, backlog := backlog }
      | none => some { s with failed := true }

end Replay

/-- The text is two numerals, of these numbers, with a dash between them. -/
def Spells (text : PyStr) (id : ℕ × ℕ) : Prop :=
  ∃ a b, text = a ++ .scalar '-' :: b ∧ numeral table a = true ∧ numeral table b = true ∧
    readInt table a = some id.1 ∧ readInt table b = some id.2

/-- The subscription that `since` opens works: it starts from new messages, or from a position of
two 64-bit numbers after which the replay never fails. -/
def Works (redis : RedisRanges) (text : PyStr) : Prop :=
  ∃ ident, since table (.text text) = .ok ident ∧ (ident = lit "$" ∨
    ∃ after, position table ident = some after ∧ after.1 < 2 ^ 64 ∧ after.2 < 2 ^ 64 ∧
      ∀ s, Reachable (Replay.step table redis) ⟨after, [], false⟩ s → s.failed = false)

/-! ## Reading ids -/

section Reading

variable {table : DecimalTable} {text a b : PyStr} {id : ℕ × ℕ}

/-- A text is parted at its first dash. -/
lemma partition_append (h : .scalar '-' ∉ a) : partition (a ++ .scalar '-' :: b) = (a, b) := by
  have before : ∀ c ∈ a, (c ≠ .scalar '-') := by
    rintro c hc rfl
    exact h hc
  have taken : (a ++ .scalar '-' :: b).takeWhile (· ≠ .scalar '-') = a := by
    rw [List.takeWhile_append_of_pos (by simpa using before)]
    simp
  have dropped : (a ++ .scalar '-' :: b).dropWhile (· ≠ .scalar '-') = .scalar '-' :: b := by
    rw [List.dropWhile_append_of_pos (by simpa using before)]
    simp
  rw [partition, taken, dropped, List.tail_cons]

/-- A text with a dash is what it is parted into. -/
lemma eq_of_partition (h : .scalar '-' ∈ text) :
    text = (partition text).1 ++ .scalar '-' :: (partition text).2 := by
  obtain ⟨a, b, rfl, ha⟩ := List.eq_append_cons_of_mem h
  rw [partition_append ha]

lemma dash_not_mem (h : numeral table text = true) : .scalar '-' ∉ text := by
  intro hmem
  have digit := (of_decide_eq_true h).2.2 _ hmem
  simp [table.dash] at digit

/-- What the regular expression matches: two numerals with a dash between them. -/
theorem fullmatch_iff : fullmatch table text = true ↔
    ∃ a b, text = a ++ .scalar '-' :: b ∧ numeral table a = true ∧ numeral table b = true := by
  simp only [fullmatch, decide_eq_true_eq]
  constructor
  · rintro ⟨hdash, hms, hseq⟩
    exact ⟨_, _, eq_of_partition hdash, hms, hseq⟩
  · rintro ⟨a, b, rfl, ha, hb⟩
    rw [partition_append (dash_not_mem ha)]
    exact ⟨by simp, ha, hb⟩

/-- A numeral is read. -/
lemma exists_readInt (h : numeral table text = true) : ∃ n, readInt table text = some n := by
  obtain ⟨hpos, -, hdigits⟩ := of_decide_eq_true h
  have hne : text ≠ [] := List.ne_nil_of_length_pos hpos
  simp only [readInt, if_neg hne]
  clear h hpos hne
  generalize (0 : ℕ) = start
  induction text generalizing start with
  | nil => exact ⟨start, rfl⟩
  | cons c rest ih =>
    obtain ⟨d, hd⟩ := Option.isSome_iff_exists.mp (hdigits c List.mem_cons_self)
    obtain ⟨n, hn⟩ := ih (fun c hc => hdigits c (List.mem_cons_of_mem _ hc)) (10 * start + d)
    refine ⟨n, ?_⟩
    simpa [hd] using hn

/-- An id is read. -/
lemma exists_position (h : fullmatch table text = true) : ∃ id, position table text = some id := by
  obtain ⟨a, b, rfl, ha, hb⟩ := fullmatch_iff.mp h
  obtain ⟨ms, hms⟩ := exists_readInt ha
  obtain ⟨seq, hseq⟩ := exists_readInt hb
  exact ⟨(ms, seq), by simp [position, partition_append (dash_not_mem ha), hms, hseq]⟩

/-- A text spells the id that it matches and is read as. -/
lemma spells_iff : Spells table text id ↔
    fullmatch table text = true ∧ position table text = some id := by
  rw [fullmatch_iff]
  constructor
  · rintro ⟨a, b, rfl, ha, hb, hms, hseq⟩
    refine ⟨⟨a, b, rfl, ha, hb⟩, ?_⟩
    simp [position, partition_append (dash_not_mem ha), hms, hseq]
  · rintro ⟨⟨a, b, rfl, ha, hb⟩, hposition⟩
    simp only [position, partition_append (dash_not_mem ha), Option.bind_eq_some_iff,
      Option.map_eq_some_iff] at hposition
    obtain ⟨ms, hms, seq, hseq, rfl⟩ := hposition
    exact ⟨a, b, rfl, ha, hb, hms, hseq⟩

/-- Every character of a number's numeral is a digit. -/
lemma value_of_mem_toDigits (table : DecimalTable) {n : ℕ} {c : CodePoint}
    (h : c ∈ ofText (Nat.toDigits 10 n)) :
    ∃ d, table.value c = some d := by
  induction n using Nat.strongRecOn with
  | ind n ih =>
    by_cases hn : n < 10
    · rw [Nat.toDigits_of_lt_base hn] at h
      obtain rfl : c = .scalar (Nat.digitChar n) := by simpa [ofText] using h
      exact ⟨n, table.ascii n hn⟩
    · rw [Nat.toDigits_of_base_le (by omega) (by omega), ofText, List.map_append] at h
      rcases List.mem_append.mp h with h | h
      · exact ih (n / 10) (by omega) h
      · obtain rfl : c = .scalar (Nat.digitChar (n % 10)) := by simpa using h
        exact ⟨n % 10, table.ascii _ (by omega)⟩

/-- A number of 64 bits is written with twenty digits at most. -/
lemma numeral_toDigits {n : ℕ} (h : n < 2 ^ 64) :
    numeral table (ofText (Nat.toDigits 10 n)) = true := by
  refine decide_eq_true ⟨?_, ?_, ?_⟩
  · rw [ofText, List.length_map]
    exact Nat.length_toDigits_pos
  · have width : n < 10 ^ 20 := by omega
    simpa [ofText] using (Nat.length_toDigits_le_iff (by omega) (by omega)).mpr width
  · intro c hc
    obtain ⟨d, hd⟩ := value_of_mem_toDigits table hc
    simp [hd]

/-- A number written in decimal is read back. -/
lemma readInt_toDigits (n : ℕ) : readInt table (ofText (Nat.toDigits 10 n)) = some n := by
  have hne : ofText (Nat.toDigits 10 n) ≠ [] := by
    simp [ofText, Nat.toDigits_ne_nil]
  simp only [readInt, if_neg hne]
  clear hne
  induction n using Nat.strongRecOn with
  | ind n ih =>
    by_cases hn : n < 10
    · simp [Nat.toDigits_of_lt_base hn, ofText, table.ascii n hn]
    · have hquotient : n / 10 < n := by omega
      have hread := ih (n / 10) hquotient
      rw [Nat.toDigits_of_base_le (by omega) (by omega)]
      simp only [ofText, List.map_append, List.foldl_append] at hread ⊢
      rw [hread]
      simp [table.ascii (n % 10) (by omega), Nat.div_add_mod]

/-- An id that Redis wrote is read back. -/
lemma position_idText (id : ℕ × ℕ) : position table (idText id) = some id := by
  have nodash : .scalar '-' ∉ ofText (Nat.toDigits 10 id.1) := by
    intro hmem
    obtain ⟨d, hd⟩ := value_of_mem_toDigits table hmem
    simp [table.dash] at hd
  simp [position, idText, partition_append nodash, readInt_toDigits]

/-- An id that Redis wrote matches. -/
lemma fullmatch_idText (hms : id.1 < 2 ^ 64) (hseq : id.2 < 2 ^ 64) :
    fullmatch table (idText id) = true :=
  fullmatch_iff.mpr ⟨_, _, rfl, numeral_toDigits hms, numeral_toDigits hseq⟩

/-- A text that matches is passed on as it is. -/
lemma since_of_fullmatch (h : fullmatch table text = true) :
    since table (.text text) = .ok text := by
  have hdash : .scalar '-' ∈ text := (of_decide_eq_true h).1
  have special : text ≠ lit "$" ∧ text ≠ [] ∧ text ≠ lit "0" := by
    refine ⟨?_, ?_, ?_⟩
    all_goals
      rintro rfl
      revert hdash
      decide
  simp [since, special, h]

/-- A text that does not match stands for new messages, or is `"0"`. -/
lemma since_of_not_fullmatch (h : ¬ fullmatch table text = true) :
    since table (.text text) = .ok (lit "$") ∨ since table (.text text) = .ok (lit "0-0") := by
  simp only [since, if_neg h]
  split
  · exact Or.inl rfl
  · split
    · exact Or.inr rfl
    · exact Or.inl rfl

end Reading

/-! ## A replay from a position in range -/

section Replaying

variable {table : DecimalTable} {redis : RedisRanges} {after : ℕ × ℕ} {s s' : Replay}

/-- The replay stands at a position in range, has a page of such positions to go through, and has
not failed. -/
structure Replay.Sound (s : Replay) : Prop where
  after : InRange s.after
  backlog : ∀ ident ∈ s.backlog, ∃ id, ident = idText id ∧ InRange id
  unfailed : s.failed = false

/-- Every step goes on like this. -/
lemma Replay.Sound.step {a : ReplayAction} (h : s.Sound) (hs : s.step table redis a = some s') :
    s'.Sound := by
  cases a with
  | read page =>
    obtain ⟨⟨-, -, hpage⟩, rfl⟩ := of_guard hs
    rw [if_pos ((redis.exclusive s.after).mpr h.after)]
    refine ⟨h.after, ?_, h.unfailed⟩
    intro ident hident
    obtain ⟨id, hid, rfl⟩ := List.mem_map.mp hident
    exact ⟨id, rfl, hpage id hid⟩
  | take =>
    simp only [Replay.step] at hs
    split at hs
    case h_1 => cases hs
    case h_2 ident backlog hbacklog =>
      obtain ⟨id, rfl, hid⟩ := h.backlog ident (by simp [hbacklog])
      rw [position_idText] at hs
      obtain rfl := Option.some.inj hs
      refine ⟨hid, ?_, h.unfailed⟩
      intro ident' hident'
      exact h.backlog ident' (by simp [hbacklog, hident'])

/-- A replay from a position out of range fails at its first page. -/
lemma first_page_fails (out : ¬ InRange after) :
    Reachable (Replay.step table redis) ⟨after, [], false⟩ ⟨after, [], true⟩ := by
  have refused : redis.accepts (historyStart after) = false := by
    by_contra accepted
    exact out ((redis.exclusive after).mp (by simpa using accepted))
  exact Reaches.start.next (.read []) trivial (by simp [Replay.step, refused])

/-- A replay never fails exactly if it starts in range. -/
lemma never_fails_iff :
    (∀ s, Reachable (Replay.step table redis) ⟨after, [], false⟩ s → s.failed = false) ↔
      InRange after := by
  constructor
  · intro h
    by_contra out
    cases h _ (first_page_fails out)
  · intro h s run
    have sound : s.Sound := by
      refine run.invariant (I := Replay.Sound) ⟨h, by simp, rfl⟩ ?_
      intro t a t' ht taken
      exact ht.step taken
    exact sound.unfailed

end Replaying

/-- **Which `Last-Event-ID`s give a working subscription.**  All but those that spell an id with a
part of more than 64 bits, or the greatest id there is.  What the topic handed out is passed on as
it is, and is read as the id it was. -/
theorem since_iff (table : DecimalTable) (redis : RedisRanges) :
    (∀ text, Works table redis text ↔ ∀ id, Spells table text id → InRange id) ∧
    (∀ id : ℕ × ℕ, id.1 < 2 ^ 64 → id.2 < 2 ^ 64 →
      since table (.text (idText id)) = .ok (idText id) ∧ position table (idText id) = some id) := by
  constructor
  · intro text
    constructor
    · rintro ⟨ident, hsince, works⟩ id spells
      obtain ⟨hmatch, hposition⟩ := spells_iff.mp spells
      obtain rfl : text = ident := Except.ok.inj ((since_of_fullmatch hmatch).symm.trans hsince)
      rcases works with rfl | ⟨after, hafter, -, -, never⟩
      · have hdash : .scalar '-' ∈ lit "$" := (of_decide_eq_true hmatch).1
        exact absurd hdash (by decide)
      · obtain rfl : after = id := Option.some.inj (hafter.symm.trans hposition)
        exact never_fails_iff.mp never
    · intro range
      by_cases hmatch : fullmatch table text = true
      · obtain ⟨id, hid⟩ := exists_position hmatch
        have inRange := range id (spells_iff.mpr ⟨hmatch, hid⟩)
        exact ⟨text, since_of_fullmatch hmatch, Or.inr
          ⟨id, hid, inRange.1, inRange.2.1, never_fails_iff.mpr inRange⟩⟩
      · rcases since_of_not_fullmatch hmatch with hnew | hzero
        · exact ⟨_, hnew, Or.inl rfl⟩
        · have zero : InRange (0, 0) := by decide
          have read : position table (lit "0-0") = some (0, 0) := position_idText (0, 0)
          exact ⟨_, hzero, Or.inr ⟨(0, 0), read, zero.1, zero.2.1, never_fails_iff.mpr zero⟩⟩
  · intro id hms hseq
    exact ⟨since_of_fullmatch (fullmatch_idText hms hseq), position_idText id⟩

/-- The digits of ASCII alone. -/
def asciiDigits : DecimalTable where
  value
    | .scalar c => if c.isDigit then some (c.toNat - 48) else none
    | .surrogate _ => none
  ascii := by decide
  dash := rfl

/-- A Redis that knows ids as it writes them. -/
def plainRedis : RedisRanges where
  accepts
    | .scalar '(' :: ident => (position asciiDigits ident).any fun id => decide (InRange id)
    | _ => false
  exclusive id := by simp [historyStart, position_idText]

/-- A reader resumes after the entry it read last. -/
theorem resumes_after_entry :
    Works asciiDigits plainRedis (lit "1700000000000-4") := by
  refine ((since_iff asciiDigits plainRedis).1 _).mpr ?_
  intro id spells
  have read : position asciiDigits (lit "1700000000000-4") = some (1700000000000, 4) := by decide
  obtain rfl := Option.some.inj (read.symm.trans (spells_iff.mp spells).2)
  decide

/-- Twenty digits are more than 64 bits hold: `since` takes 2^64 for a stream id and passes it on,
and the first page of the replay is refused. -/
theorem twenty_digits_fail :
    since asciiDigits (.text (lit "18446744073709551616-0")) = .ok (lit "18446744073709551616-0") ∧
      position asciiDigits (lit "18446744073709551616-0") = some (2 ^ 64, 0) ∧
      Reachable (Replay.step asciiDigits plainRedis) ⟨(2 ^ 64, 0), [], false⟩
        ⟨(2 ^ 64, 0), [], true⟩ ∧
      ¬ Works asciiDigits plainRedis (lit "18446744073709551616-0") := by
  have hmatch : fullmatch asciiDigits (lit "18446744073709551616-0") = true := by decide
  have read : position asciiDigits (lit "18446744073709551616-0") = some (2 ^ 64, 0) := by decide
  have out : ¬ InRange (2 ^ 64, 0) := fun inRange => absurd inRange.1 (by decide)
  refine ⟨since_of_fullmatch hmatch, read, first_page_fails out, ?_⟩
  rintro ⟨ident, hsince, works⟩
  obtain rfl := Except.ok.inj ((since_of_fullmatch hmatch).symm.trans hsince)
  rcases works with hnew | ⟨after, hafter, -, -, never⟩
  · exact absurd hnew (by decide)
  · obtain rfl := Option.some.inj (hafter.symm.trans read)
    exact out (never_fails_iff.mp never)

end Since

end Oxbrook
