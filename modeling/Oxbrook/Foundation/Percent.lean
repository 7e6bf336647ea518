import Mathlib.Data.List.Basic
import Mathlib.Data.Nat.Notation
import Mathlib.Tactic.SplitIfs

/-!
# Percent-encoding

A text is written with the bytes of its UTF-8 form, each kept as a character or written as `%` and two digits, and read
back byte by byte, a `%` that is not followed by two digits being a byte like any other.

`decode_encode_append` reads an encoded text back in front of anything, so that encoded pieces may be joined with
characters that are not `%`; `decodeText_of_bytes` puts the characters together again.
-/

namespace Percent

/-- A digit of base sixteen, in upper case. -/
def hexDigit (n : ℕ) : Char := (Nat.digitChar n).toUpper

/-- The value of a digit of base sixteen, in either case. -/
def hexValue (b : UInt8) : Option ℕ :=
  if 48 ≤ b ∧ b ≤ 57 then some (b.toNat - 48)
  else if 65 ≤ b ∧ b ≤ 70 then some (b.toNat - 55)
  else if 97 ≤ b ∧ b ≤ 102 then some (b.toNat - 87)
  else none

/-- The bytes a percent-encoded text stands for. -/
def decode : List UInt8 → List UInt8
  | [] => []
  | 37 :: high :: low :: rest =>
    match hexValue high, hexValue low with
    | some h, some l => .ofNat (h * 16 + l) :: decode rest
    | _, _ => 37 :: decode (high :: low :: rest)
  | b :: rest => b :: decode rest

/-- The UTF-8 form of a text. -/
def bytesOf (text : List Char) : List UInt8 := text.flatMap String.utf8EncodeChar

/-- A percent-encoded text, read; nothing if the bytes are not those of a text. -/
def decodeText (text : List Char) : Option (List Char) :=
  (decode (bytesOf text)).toByteArray.utf8Decode?.map Array.toList

/-- A set of bytes that may stand as they are: characters of ASCII, and not the mark itself. -/
structure KeptSet where
  keeps : UInt8 → Bool
  ascii : ∀ b, keeps b = true → b < 128
  mark : keeps 37 = false

namespace KeptSet

variable (set : KeptSet)

def encodeByte (b : UInt8) : List Char :=
  if set.keeps b then [Char.ofUInt8 b] else ['%', hexDigit (b.toNat / 16), hexDigit (b.toNat % 16)]

/-- A text, percent-encoded. -/
def encode (text : List Char) : List Char := (bytesOf text).flatMap set.encodeByte

end KeptSet

/-! ## Bytes of texts -/

lemma bytesOf_append (a b : List Char) : bytesOf (a ++ b) = bytesOf a ++ bytesOf b := by
  rw [bytesOf, List.flatMap_append]
  rfl

lemma bytesOf_cons (c : Char) (text : List Char) : bytesOf (c :: text) = String.utf8EncodeChar c ++ bytesOf text := by
  rw [bytesOf, List.flatMap_cons]
  rfl

lemma utf8EncodeChar_ofUInt8 {b : UInt8} (h : b < 128) : String.utf8EncodeChar (Char.ofUInt8 b) = [b] := by
  have hall : ∀ b : BitVec 8, (⟨b⟩ : UInt8) < 128 → String.utf8EncodeChar (Char.ofUInt8 ⟨b⟩) = [⟨b⟩] := by
    decide
  exact hall b.toBitVec h

/-- The bytes of a text are read as its characters. -/
lemma decodeText_of_bytes {text decoded : List Char} (h : decode (bytesOf text) = bytesOf decoded) :
    decodeText text = some decoded := by
  have hbytes : (bytesOf decoded).toByteArray = decoded.utf8Encode := rfl
  rw [decodeText, h, hbytes, List.utf8Decode?_utf8Encode]
  rfl

/-! ## Reading back -/

lemma decode_cons {b : UInt8} (h : b ≠ 37) (rest : List UInt8) : decode (b :: rest) = b :: decode rest := by
  rw [decode]
  intro high low rest' heq
  exact absurd heq h

/-- A digit is one byte, and its value is read from it. -/
lemma hexDigit_spec : ∀ n : Fin 16, ∃ b, String.utf8EncodeChar (hexDigit n) = [b] ∧ hexValue b = some n.val := by
  intro n
  refine ⟨(hexDigit n).toUInt8, ?_, ?_⟩
  · revert n
    decide
  · revert n
    decide

lemma decode_escape (b : UInt8) (rest : List UInt8) :
    decode (bytesOf ['%', hexDigit (b.toNat / 16), hexDigit (b.toNat % 16)] ++ rest) = b :: decode rest := by
  have hb : b.toNat < 256 := b.toNat_lt
  obtain ⟨high, hhigh, hvalue⟩ := hexDigit_spec ⟨b.toNat / 16, by omega⟩
  obtain ⟨low, hlow, hvalue'⟩ := hexDigit_spec ⟨b.toNat % 16, by omega⟩
  have hmark : String.utf8EncodeChar '%' = [37] := by decide
  have hbytes : bytesOf ['%', hexDigit (b.toNat / 16), hexDigit (b.toNat % 16)] = [37, high, low] := by
    rw [bytesOf_cons, bytesOf_cons, bytesOf_cons, hmark, hhigh, hlow]
    rfl
  have hwhole : b.toNat / 16 * 16 + b.toNat % 16 = b.toNat := by omega
  rw [hbytes]
  simp only [List.cons_append, List.nil_append, decode, hvalue, hvalue', hwhole, UInt8.ofNat_toNat]

namespace KeptSet

variable (set : KeptSet)

lemma decode_encodeByte (b : UInt8) (rest : List UInt8) :
    decode (bytesOf (set.encodeByte b) ++ rest) = b :: decode rest := by
  rw [encodeByte]
  split_ifs with hkept
  · have hne : b ≠ 37 := by
      intro heq
      rw [heq, set.mark] at hkept
      exact Bool.noConfusion hkept
    rw [bytesOf_cons, utf8EncodeChar_ofUInt8 (set.ascii b hkept)]
    exact decode_cons hne rest
  · exact decode_escape b rest

/-- An encoded text is read back, whatever follows it. -/
lemma decode_encode_append (text : List Char) (rest : List UInt8) :
    decode (bytesOf (set.encode text) ++ rest) = bytesOf text ++ decode rest := by
  rw [encode]
  induction bytesOf text with
  | nil => rfl
  | cons b bytes ih =>
    rw [List.flatMap_cons, bytesOf_append, List.append_assoc, decode_encodeByte, ih, List.cons_append]

theorem decodeText_encode (text : List Char) : decodeText (set.encode text) = some text := by
  apply decodeText_of_bytes
  simpa [decode] using set.decode_encode_append text []

/-! ## The characters of an encoded text -/

lemma mem_encode {text : List Char} {c : Char} (h : c ∈ set.encode text) :
    (∃ b, set.keeps b = true ∧ c = Char.ofUInt8 b) ∨ c = '%' ∨ ∃ n < 16, c = hexDigit n := by
  rw [encode, List.mem_flatMap] at h
  obtain ⟨b, -, hc⟩ := h
  have hb : b.toNat < 256 := b.toNat_lt
  rw [encodeByte] at hc
  split_ifs at hc with hkept
  · exact Or.inl ⟨b, hkept, List.mem_singleton.mp hc⟩
  · simp only [List.mem_cons, List.not_mem_nil, or_false] at hc
    rcases hc with rfl | rfl | rfl
    · exact Or.inr (Or.inl rfl)
    · exact Or.inr (Or.inr ⟨_, by omega, rfl⟩)
    · exact Or.inr (Or.inr ⟨_, by omega, rfl⟩)

lemma encode_ne_nil {text : List Char} (h : text ≠ []) : set.encode text ≠ [] := by
  intro hnil
  have hread := set.decodeText_encode text
  have hnone : decodeText [] = some [] := decodeText_of_bytes rfl
  rw [hnil, hnone, Option.some.injEq] at hread
  exact h hread.symm

end KeptSet

end Percent
