import Mathlib.Data.Nat.Digits.Lemmas

/-!
# Numerals of fixed width

Numbers written with leading zeros to a given width, in a base up to sixteen, and read back.
`readDigits_padded` is the round trip, and `readDigits_toDigits` that of numerals without leading
zeros; the other lemmas say what a numeral of fixed width looks like, which is what a reader of a
fixed form needs to take it apart.
-/

namespace Numerals

/-- The value of a digit, in either case. -/
def valueOfDigit (c : Char) : Option ℕ :=
  if '0' ≤ c ∧ c ≤ '9' then some (c.toNat - '0'.toNat)
  else if 'a' ≤ c ∧ c ≤ 'f' then some (c.toNat - 'a'.toNat + 10)
  else if 'A' ≤ c ∧ c ≤ 'F' then some (c.toNat - 'A'.toNat + 10)
  else none

/-- The value of a text of digits of the given base. -/
def readDigits (base : ℕ) (text : List Char) : Option ℕ :=
  text.foldl (fun value c => value.bind fun v => (valueOfDigit c).bind fun d =>
    if d < base then some (v * base + d) else none) (some 0)

/-- A number with at least `width` digits. -/
def padded (base : ℕ) : ℕ → ℕ → List Char
  | 0, n => if n = 0 then [] else Nat.toDigits base n
  | width + 1, n => padded base width (n / base) ++ [Nat.digitChar (n % base)]

variable {base width n : ℕ}

lemma valueOfDigit_digitChar {d : ℕ} (h : d < 16) : valueOfDigit (Nat.digitChar d) = some d := by
  have hall : ∀ d : Fin 16, valueOfDigit (Nat.digitChar d) = some d.val := by decide
  exact hall ⟨d, h⟩

lemma readDigits_append_singleton (text : List Char) (c : Char) :
    readDigits base (text ++ [c]) = (readDigits base text).bind fun v => (valueOfDigit c).bind fun d =>
      if d < base then some (v * base + d) else none := by
  simp [readDigits, List.foldl_append]

/-- A numeral of the width of its number is read back as this number. -/
theorem readDigits_padded (hpos : 0 < base) (hbase : base ≤ 16) (h : n < base ^ width) :
    readDigits base (padded base width n) = some n := by
  induction width generalizing n with
  | zero =>
    obtain rfl : n = 0 := by simpa using h
    simp [padded, readDigits]
  | succ width ih =>
    have hquotient : n / base < base ^ width := by
      rw [Nat.div_lt_iff_lt_mul hpos, ← pow_succ]
      exact h
    have hdigit : n % base < base := Nat.mod_lt _ hpos
    rw [padded, readDigits_append_singleton, ih hquotient, Option.bind_some,
      valueOfDigit_digitChar (hdigit.trans_le hbase), Option.bind_some, if_pos hdigit,
      Nat.div_add_mod']

/-- A numeral without leading zeros is read back as its number. -/
theorem readDigits_toDigits (hone : 1 < base) (hbase : base ≤ 16) (n : ℕ) :
    readDigits base (Nat.toDigits base n) = some n := by
  induction n using Nat.strongRecOn with
  | ind n ih =>
    have hdigit : n % base < base := Nat.mod_lt _ (by omega)
    have hread := valueOfDigit_digitChar (hdigit.trans_le hbase)
    by_cases hn : n < base
    · rw [Nat.mod_eq_of_lt hn] at hread
      simp [Nat.toDigits_of_lt_base hn, readDigits, hread, hn]
    · have hquotient : n / base < n := Nat.div_lt_self (by omega) hone
      rw [Nat.toDigits_of_base_le hone (by omega), readDigits_append_singleton, ih _ hquotient,
        Option.bind_some, hread, Option.bind_some, if_pos hdigit, Nat.div_add_mod']

/-- It has just that width. -/
lemma padded_length (hpos : 0 < base) (h : n < base ^ width) :
    (padded base width n).length = width := by
  induction width generalizing n with
  | zero =>
    obtain rfl : n = 0 := by simpa using h
    simp [padded]
  | succ width ih =>
    have hquotient : n / base < base ^ width := by
      rw [Nat.div_lt_iff_lt_mul hpos, ← pow_succ]
      exact h
    rw [padded, List.length_append, ih hquotient, List.length_singleton]

/-- It consists of digits. -/
lemma mem_padded (hpos : 0 < base) (hbase : base ≤ 16) (h : n < base ^ width) {c : Char}
    (hc : c ∈ padded base width n) : ∃ d < 16, c = Nat.digitChar d := by
  induction width generalizing n with
  | zero =>
    obtain rfl : n = 0 := by simpa using h
    simp [padded] at hc
  | succ width ih =>
    have hquotient : n / base < base ^ width := by
      rw [Nat.div_lt_iff_lt_mul hpos, ← pow_succ]
      exact h
    rw [padded] at hc
    rcases List.mem_append.mp hc with hc | hc
    · exact ih hquotient hc
    · refine ⟨n % base, (Nat.mod_lt _ hpos).trans_le hbase, ?_⟩
      exact List.mem_singleton.mp hc

/-- A character that is no digit is in no numeral. -/
lemma not_mem_padded (hpos : 0 < base) (hbase : base ≤ 16) (h : n < base ^ width) {c : Char}
    (hc : valueOfDigit c = none) : c ∉ padded base width n := by
  intro hmem
  obtain ⟨d, hd, rfl⟩ := mem_padded hpos hbase h hmem
  rw [valueOfDigit_digitChar hd] at hc
  cases hc

/-- A text that is read consists of digits. -/
lemma valueOfDigit_of_readDigits {text : List Char} {n : ℕ} (h : readDigits base text = some n) {c : Char}
    (hc : c ∈ text) : ∃ d, valueOfDigit c = some d := by
  induction text using List.reverseRecOn generalizing n with
  | nil => exact absurd hc List.not_mem_nil
  | append_singleton text last ih =>
    rw [readDigits_append_singleton] at h
    obtain ⟨v, hv, h⟩ := Option.bind_eq_some_iff.mp h
    obtain ⟨d, hd, -⟩ := Option.bind_eq_some_iff.mp h
    rcases List.mem_append.mp hc with hc | hc
    · exact ih hv hc
    · rw [List.mem_singleton.mp hc]
      exact ⟨d, hd⟩

/-- The digits of a number. -/
lemma mem_toDigits (hone : 1 < base) (hbase : base ≤ 16) {c : Char} (hc : c ∈ Nat.toDigits base n) :
    ∃ d < 16, c = Nat.digitChar d := by
  induction n using Nat.strongRecOn with
  | ind n ih =>
    by_cases hn : n < base
    · rw [Nat.toDigits_of_lt_base hn, List.mem_singleton] at hc
      exact ⟨n, by omega, hc⟩
    · have hquotient : n / base < n := Nat.div_lt_self (by omega) hone
      rw [Nat.toDigits_of_base_le hone (by omega)] at hc
      rcases List.mem_append.mp hc with hc | hc
      · exact ih _ hquotient hc
      · exact ⟨n % base, (Nat.mod_lt _ (by omega)).trans_le hbase, List.mem_singleton.mp hc⟩

/-- Two numerals one behind the other. -/
lemma readDigits_append (a b : List Char) : readDigits base (a ++ b) =
    (readDigits base a).bind fun x => (readDigits base b).map fun y => x * base ^ b.length + y := by
  induction b using List.reverseRecOn with
  | nil => simp [readDigits]
  | append_singleton b c ih =>
    rw [← List.append_assoc, readDigits_append_singleton, readDigits_append_singleton, ih]
    cases readDigits base a with
    | none => rfl
    | some x =>
      cases readDigits base b with
      | none => rfl
      | some y =>
        cases valueOfDigit c with
        | none => rfl
        | some d =>
          simp only [Option.bind_some, Option.map_some]
          split_ifs
          · rw [Option.map_some, List.length_append, List.length_singleton, pow_succ]
            congr 1
            ring
          · rfl

/-- Of a text of digits, its value and whether they are all zero. -/
lemma readDigits_of_digits {text : List Char} (h : ∀ c ∈ text, ∃ d < base, valueOfDigit c = some d) :
    ∃ n, readDigits base text = some n ∧ n < base ^ text.length ∧
      (n = 0 ↔ ∀ c ∈ text, valueOfDigit c = some 0) := by
  induction text using List.reverseRecOn with
  | nil => exact ⟨0, rfl, by simp, by simp⟩
  | append_singleton text c ih =>
    obtain ⟨n, hn, hlt, hzero⟩ := ih fun x hx => h x (List.mem_append_left _ hx)
    obtain ⟨d, hd, hvalue⟩ := h c (by simp)
    refine ⟨n * base + d, ?_, ?_, ?_⟩
    · rw [readDigits_append_singleton, hn, Option.bind_some, hvalue, Option.bind_some, if_pos hd]
    · rw [List.length_append, List.length_singleton, pow_succ]
      calc n * base + d < n * base + base := Nat.add_lt_add_left hd _
        _ = (n + 1) * base := by ring
        _ ≤ base ^ text.length * base := Nat.mul_le_mul_right _ hlt
    · have hpos : base ≠ 0 := by omega
      simp only [List.forall_mem_append, List.forall_mem_singleton, ← hzero, hvalue, Option.some.injEq]
      simp [hpos]

/-- A text with another character is not read. -/
lemma readDigits_eq_none {text : List Char} {c : Char} (hc : c ∈ text)
    (h : ∀ d, valueOfDigit c = some d → ¬ d < base) : readDigits base text = none := by
  obtain ⟨before, after, rfl⟩ := List.append_of_mem hc
  have hone : readDigits base ([c] ++ after) = none := by
    rw [readDigits_append]
    cases hvalue : valueOfDigit c with
    | none => simp [readDigits, hvalue]
    | some d => simp [readDigits, hvalue, h d hvalue]
  have hcons : c :: after = [c] ++ after := rfl
  rw [hcons, readDigits_append, hone]
  simp

end Numerals
