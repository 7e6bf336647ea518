import Mathlib.Data.List.Basic
import Mathlib.Data.Nat.Notation

/-!
# Replacing in a text

All occurrences of one text in another, from the left and without overlap, are replaced; what is put in is not searched
again.  Where no occurrence can lie across the border of two texts, they are replaced one by one
(`replaceAll_append`).
-/

namespace Replace

variable {α : Type} [DecidableEq α]

/-- The first characters are those of an occurrence that has been replaced. -/
def replaceFrom (old new : List α) : ℕ → List α → List α
  | _, [] => []
  | skip + 1, _ :: rest => replaceFrom old new skip rest
  | 0, c :: rest =>
    if old <+: c :: rest then new ++ replaceFrom old new (old.length - 1) rest
    else c :: replaceFrom old new 0 rest

/-- `str.replace`, of a text that is not empty. -/
def replaceAll (old new text : List α) : List α := replaceFrom old new 0 text

/-- No occurrence of a text lies across the border of two others. -/
def Apart (old left right : List α) : Prop :=
  ∀ start rest, old = start ++ rest → start ≠ [] → rest ≠ [] → start <:+ left → ¬ rest <+: right

variable {old new left right text : List α}

omit [DecidableEq α] in
lemma Apart.tail {c : α} (h : Apart old (c :: left) right) : Apart old left right := by
  intro start rest heq hstart hrest hsuffix
  exact h start rest heq hstart hrest (hsuffix.trans (List.suffix_cons c left))

omit [DecidableEq α] in
/-- An occurrence in two texts that begins in the first one is within it. -/
lemma isPrefix_append_iff (hne : left ≠ []) (h : Apart old left right) : old <+: left ++ right ↔ old <+: left := by
  constructor
  · rintro ⟨more, hmore⟩
    rcases List.append_eq_append_iff.mp hmore with ⟨rest, hleft, -⟩ | ⟨rest, hold, hright⟩
    · exact ⟨rest, hleft.symm⟩
    · by_cases hnil : rest = []
      · simp [hold, hnil]
      · exact absurd ⟨more, hright.symm⟩ (h left rest hold hne hnil (List.suffix_refl left))
  · intro hprefix
    exact hprefix.trans (List.prefix_append left right)

lemma replaceFrom_append (skip : ℕ) (hskip : skip ≤ left.length) (h : Apart old left right) :
    replaceFrom old new skip (left ++ right) = replaceFrom old new skip left ++ replaceFrom old new 0 right := by
  induction left generalizing skip with
  | nil =>
    obtain rfl : skip = 0 := Nat.le_zero.mp hskip
    rfl
  | cons c left ih =>
    cases skip with
    | succ skip => exact ih skip (Nat.le_of_succ_le_succ hskip) h.tail
    | zero =>
      have hiff := isPrefix_append_iff (List.cons_ne_nil c left) h
      rw [List.cons_append] at hiff
      rw [List.cons_append, replaceFrom, replaceFrom]
      by_cases hprefix : old <+: c :: left
      · have hlength : old.length - 1 ≤ left.length := by
          have hle := hprefix.length_le
          rw [List.length_cons] at hle
          omega
        rw [if_pos (hiff.mpr hprefix), if_pos hprefix, ih _ hlength h.tail, List.append_assoc]
      · rw [if_neg (fun hlong => hprefix (hiff.mp hlong)), if_neg hprefix, ih 0 (Nat.zero_le _) h.tail,
          List.cons_append]

/-- **Replacing piece by piece.** -/
theorem replaceAll_append (h : Apart old left right) :
    replaceAll old new (left ++ right) = replaceAll old new left ++ replaceAll old new right :=
  replaceFrom_append 0 (Nat.zero_le _) h

/-- A text without the first character of what is replaced stays as it is. -/
lemma replaceAll_of_not_mem {c : α} {rest : List α} (h : c ∉ text) : replaceAll (c :: rest) new text = text := by
  unfold replaceAll
  induction text with
  | nil => rfl
  | cons d text ih =>
    rw [List.mem_cons, not_or] at h
    have hprefix : ¬ (c :: rest) <+: d :: text := by
      intro hprefix
      exact h.1 (List.cons_prefix_cons.mp hprefix).1
    rw [replaceFrom, if_neg hprefix, ih h.2]

/-- What is replaced is itself an occurrence, and the only one. -/
lemma replaceAll_self (hne : old ≠ []) : replaceAll old new old = new := by
  have hdrop : ∀ rest : List α, replaceFrom old new rest.length rest = [] := by
    intro rest
    induction rest with
    | nil => rfl
    | cons c rest ih => exact ih
  unfold replaceAll
  cases old with
  | nil => exact absurd rfl hne
  | cons c rest =>
    rw [replaceFrom, if_pos (List.prefix_refl _), List.length_cons, Nat.add_sub_cancel, hdrop, List.append_nil]

/-- A text that is shorter is not touched. -/
lemma replaceAll_of_length_lt (h : text.length < old.length) : replaceAll old new text = text := by
  unfold replaceAll
  induction text with
  | nil => rfl
  | cons c text ih =>
    have hprefix : ¬ old <+: c :: text := by
      intro hprefix
      exact absurd hprefix.length_le (by omega)
    rw [List.length_cons] at h
    rw [replaceFrom, if_neg hprefix, ih (by omega)]

lemma replaceAll_ne_nil (hnew : new ≠ []) (htext : text ≠ []) : replaceAll old new text ≠ [] := by
  unfold replaceAll
  cases text with
  | nil => exact absurd rfl htext
  | cons c text =>
    rw [replaceFrom]
    split
    · simp [hnew]
    · simp

/-- One character is replaced wherever it stands. -/
lemma replaceAll_singleton (c : α) (new text : List α) :
    replaceAll [c] new text = text.flatMap fun d => if d = c then new else [d] := by
  unfold replaceAll
  induction text with
  | nil => rfl
  | cons d text ih =>
    have hstarts : [c] <+: d :: text ↔ d = c := by
      rw [List.cons_prefix_cons]
      exact ⟨fun h => h.1.symm, fun h => ⟨h.symm, List.nil_prefix⟩⟩
    rw [replaceFrom, List.flatMap_cons, List.length_singleton, ih]
    simp only [hstarts]
    split_ifs <;> rfl

end Replace
