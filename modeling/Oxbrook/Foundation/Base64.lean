import Mathlib.Data.List.DropRight
import Mathlib.Data.Nat.Notation

/-!
# Base 64

Three bytes are four digits of six bits each.  One or two bytes at the end are two or three digits, and the text is
filled up with `=`.

`read` is the lenient reader: it passes over what is not a digit, ends at the padding of an unfinished group, and fails
only if the text ends within a group.  Its arguments say how many digits of the group it has read, the bits of them
that it has not given out, and how many `=` it has seen since.  `decode_encode` reads an encoded text back.  Without
its padding an encoded text consists of digits (`mem_unpadded`), and its length says what the padding was
(`repad_unpadded`).
-/

namespace Base64

/-- The characters of the digits.  More characters than these may be read as digits, but not that of the padding. -/
structure Alphabet where
  digit : ℕ → Char
  value : Char → Option ℕ
  value_digit : ∀ n < 64, value (digit n) = some n
  value_pad : value '=' = none

namespace Alphabet

variable (alphabet : Alphabet)

/-- The digits that some bytes are written with. -/
def digits : List UInt8 → List Char
  | [] => []
  | [a] => [alphabet.digit (a.toNat / 4), alphabet.digit (a.toNat % 4 * 16)]
  | [a, b] =>
    [alphabet.digit (a.toNat / 4), alphabet.digit (a.toNat % 4 * 16 + b.toNat / 16),
      alphabet.digit (b.toNat % 16 * 4)]
  | a :: b :: c :: rest =>
    alphabet.digit (a.toNat / 4) :: alphabet.digit (a.toNat % 4 * 16 + b.toNat / 16) ::
      alphabet.digit (b.toNat % 16 * 4 + c.toNat / 64) :: alphabet.digit (c.toNat % 64) :: digits rest

/-- `b64encode`. -/
def encode (bytes : List UInt8) : List Char :=
  alphabet.digits bytes ++ List.replicate ((3 - bytes.length % 3) % 3) '='

/-- An encoded text without its padding. -/
def unpadded (bytes : List UInt8) : List Char := (alphabet.encode bytes).rdropWhile (· = '=')

/-- The lenient reader, within a text. -/
def read (quad left pads : ℕ) : List Char → Option (List UInt8)
  | [] => if quad = 0 then some [] else none
  | c :: rest =>
    if c = '=' then
      if 2 ≤ quad then
        if 4 ≤ quad + (pads + 1) then some [] else read quad left (pads + 1) rest
      else read quad left pads rest
    else
      match alphabet.value c with
      | none => read quad left pads rest
      | some v =>
        match quad with
        | 0 => read 1 v 0 rest
        | 1 => (read 2 (v % 16) 0 rest).map (UInt8.ofNat (left * 4 + v / 16) :: ·)
        | 2 => (read 3 (v % 4) 0 rest).map (UInt8.ofNat (left * 16 + v / 4) :: ·)
        | _ => (read 0 0 0 rest).map (UInt8.ofNat (left * 64 + v) :: ·)

/-- `b64decode`. -/
def decode (text : List Char) : Option (List UInt8) := alphabet.read 0 0 0 text

end Alphabet

/-- A text filled up to whole groups. -/
def repad (text : List Char) : List Char := text ++ List.replicate ((4 - text.length % 4) % 4) '='

namespace Alphabet

variable {alphabet : Alphabet}

/-! ## Digits -/

lemma digit_ne_pad {n : ℕ} (h : n < 64) : alphabet.digit n ≠ '=' := by
  intro heq
  have hvalue := alphabet.value_digit n h
  rw [heq, alphabet.value_pad] at hvalue
  cases hvalue

/-- Only digits are written. -/
lemma mem_digits {bytes : List UInt8} {c : Char} (h : c ∈ alphabet.digits bytes) : ∃ n < 64, c = alphabet.digit n := by
  induction bytes using digits.induct with
  | case1 => cases h
  | case2 a =>
    have ha := a.toNat_lt
    simp only [digits, List.mem_cons, List.not_mem_nil, or_false] at h
    rcases h with rfl | rfl
    · exact ⟨_, by omega, rfl⟩
    · exact ⟨_, by omega, rfl⟩
  | case3 a b =>
    have ha := a.toNat_lt
    have hb := b.toNat_lt
    simp only [digits, List.mem_cons, List.not_mem_nil, or_false] at h
    rcases h with rfl | rfl | rfl
    · exact ⟨_, by omega, rfl⟩
    · exact ⟨_, by omega, rfl⟩
    · exact ⟨_, by omega, rfl⟩
  | case4 a b c rest ih =>
    have ha := a.toNat_lt
    have hb := b.toNat_lt
    have hc := c.toNat_lt
    simp only [digits, List.mem_cons] at h
    rcases h with rfl | rfl | rfl | rfl | h
    · exact ⟨_, by omega, rfl⟩
    · exact ⟨_, by omega, rfl⟩
    · exact ⟨_, by omega, rfl⟩
    · exact ⟨_, by omega, rfl⟩
    · exact ih h

lemma length_digits (bytes : List UInt8) : (alphabet.digits bytes).length = (4 * bytes.length + 2) / 3 := by
  induction bytes using digits.induct with
  | case1 => rfl
  | case2 a => simp [digits]
  | case3 a b => simp [digits]
  | case4 a b c rest ih =>
    simp only [digits, List.length_cons, ih]
    omega

/-! ## Without padding -/

lemma unpadded_eq (bytes : List UInt8) : alphabet.unpadded bytes = alphabet.digits bytes := by
  have hpadding : ∀ k, (alphabet.digits bytes ++ List.replicate k '=').rdropWhile (· = '=') =
      (alphabet.digits bytes).rdropWhile (· = '=') := by
    intro k
    induction k with
    | zero => rw [List.replicate_zero, List.append_nil]
    | succ k ih =>
      rw [List.replicate_succ', ← List.append_assoc, List.rdropWhile_concat_pos _ _ _ (by simp)]
      exact ih
  unfold unpadded encode
  rw [hpadding, List.rdropWhile_eq_self_iff]
  intro hne hpad
  obtain ⟨n, hn, hdigit⟩ := mem_digits (List.getLast_mem hne)
  rw [hdigit] at hpad
  exact digit_ne_pad hn (of_decide_eq_true hpad)

lemma mem_unpadded {bytes : List UInt8} {c : Char} (h : c ∈ alphabet.unpadded bytes) :
    ∃ n < 64, c = alphabet.digit n := by
  rw [unpadded_eq] at h
  exact mem_digits h

lemma unpadded_ne_nil {bytes : List UInt8} (h : bytes ≠ []) : alphabet.unpadded bytes ≠ [] := by
  intro hnil
  have hlength := @length_digits alphabet bytes
  rw [← unpadded_eq, hnil, List.length_nil] at hlength
  have hpos := List.length_pos_iff.mpr h
  omega

/-- The length of the digits says what the padding was. -/
theorem repad_unpadded (bytes : List UInt8) : repad (alphabet.unpadded bytes) = alphabet.encode bytes := by
  have hpadding : (4 - (alphabet.digits bytes).length % 4) % 4 = (3 - bytes.length % 3) % 3 := by
    rw [length_digits]
    have hgroups : bytes.length % 3 = 0 ∨ bytes.length % 3 = 1 ∨ bytes.length % 3 = 2 := by omega
    rcases hgroups with h | h | h
    · omega
    · omega
    · omega
  unfold repad encode
  rw [unpadded_eq, hpadding]

/-! ## Reading back -/

section Reading

variable {n : ℕ} (h : n < 64) (left pads : ℕ) (rest : List Char)
include h

lemma read_first : alphabet.read 0 left pads (alphabet.digit n :: rest) = alphabet.read 1 n 0 rest := by
  simp only [read, if_neg (digit_ne_pad h), alphabet.value_digit n h]

lemma read_second : alphabet.read 1 left pads (alphabet.digit n :: rest) =
    (alphabet.read 2 (n % 16) 0 rest).map (UInt8.ofNat (left * 4 + n / 16) :: ·) := by
  simp only [read, if_neg (digit_ne_pad h), alphabet.value_digit n h]

lemma read_third : alphabet.read 2 left pads (alphabet.digit n :: rest) =
    (alphabet.read 3 (n % 4) 0 rest).map (UInt8.ofNat (left * 16 + n / 4) :: ·) := by
  simp only [read, if_neg (digit_ne_pad h), alphabet.value_digit n h]

lemma read_fourth : alphabet.read 3 left pads (alphabet.digit n :: rest) =
    (alphabet.read 0 0 0 rest).map (UInt8.ofNat (left * 64 + n) :: ·) := by
  simp only [read, if_neg (digit_ne_pad h), alphabet.value_digit n h]

end Reading

/-- A byte is put together from its parts. -/
lemma ofNat_eq {b : UInt8} {n : ℕ} (h : n = b.toNat) : UInt8.ofNat n = b := by
  rw [h, UInt8.ofNat_toNat]

/-- An encoded text is read back. -/
theorem decode_encode (bytes : List UInt8) : alphabet.decode (alphabet.encode bytes) = some bytes := by
  unfold decode encode
  induction bytes using digits.induct with
  | case1 => rfl
  | case2 a =>
    have ha := a.toNat_lt
    have hfirst : UInt8.ofNat (a.toNat / 4 * 4 + a.toNat % 4 * 16 / 16) = a := ofNat_eq (by omega)
    have hpad : List.replicate ((3 - [a].length % 3) % 3) '=' = ['=', '='] := rfl
    rw [hpad]
    simp only [digits, List.cons_append, List.nil_append]
    rw [read_first (by omega), read_second (by omega)]
    rw [hfirst]
    rfl
  | case3 a b =>
    have ha := a.toNat_lt
    have hb := b.toNat_lt
    have hfirst : UInt8.ofNat (a.toNat / 4 * 4 + (a.toNat % 4 * 16 + b.toNat / 16) / 16) = a := ofNat_eq (by omega)
    have hsecond : UInt8.ofNat ((a.toNat % 4 * 16 + b.toNat / 16) % 16 * 16 + b.toNat % 16 * 4 / 4) = b :=
      ofNat_eq (by omega)
    have hpad : List.replicate ((3 - [a, b].length % 3) % 3) '=' = ['='] := rfl
    rw [hpad]
    simp only [digits, List.cons_append, List.nil_append]
    rw [read_first (by omega), read_second (by omega), read_third (by omega)]
    rw [hfirst, hsecond]
    rfl
  | case4 a b c rest ih =>
    have ha := a.toNat_lt
    have hb := b.toNat_lt
    have hc := c.toNat_lt
    have hfirst : UInt8.ofNat (a.toNat / 4 * 4 + (a.toNat % 4 * 16 + b.toNat / 16) / 16) = a := ofNat_eq (by omega)
    have hsecond : UInt8.ofNat ((a.toNat % 4 * 16 + b.toNat / 16) % 16 * 16 + (b.toNat % 16 * 4 + c.toNat / 64) / 4) =
        b := ofNat_eq (by omega)
    have hthird : UInt8.ofNat ((b.toNat % 16 * 4 + c.toNat / 64) % 4 * 64 + c.toNat % 64) = c := ofNat_eq (by omega)
    have hpad : (3 - (a :: b :: c :: rest).length % 3) % 3 = (3 - rest.length % 3) % 3 := by
      simp only [List.length_cons]
      omega
    rw [hpad]
    simp only [digits, List.cons_append]
    rw [read_first (by omega), read_second (by omega), read_third (by omega), read_fourth (by omega)]
    rw [ih, hfirst, hsecond, hthird]
    rfl

end Alphabet

/-! ## The URL-safe alphabet -/

/-- The digits `-` and `_` take the place of `+` and `/`, which are still read. -/
def urlsafe : Alphabet where
  digit n :=
    if n < 26 then .ofNat (65 + n)
    else if n < 52 then .ofNat (71 + n)
    else if n < 62 then .ofNat (n - 4)
    else if n = 62 then '-' else '_'
  value c :=
    if 'A' ≤ c ∧ c ≤ 'Z' then some (c.toNat - 65)
    else if 'a' ≤ c ∧ c ≤ 'z' then some (c.toNat - 71)
    else if '0' ≤ c ∧ c ≤ '9' then some (c.toNat + 4)
    else if c = '+' ∨ c = '-' then some 62
    else if c = '/' ∨ c = '_' then some 63
    else none
  value_digit := by decide
  value_pad := by decide

end Base64
