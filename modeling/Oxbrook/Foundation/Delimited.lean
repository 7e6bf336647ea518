import Mathlib.Data.List.Basic

/-!
# Words that end in a mark

Words without a mark, written one after the other with a mark after each, can be told apart: no splitting of one
word into several, and no other point between two, gives the same symbols.
-/

namespace Delimited

variable {α : Type*} {mark : α}

/-- Up to the first mark. -/
lemma append_mark_inj {a b c d : List α} (ha : mark ∉ a) (hb : mark ∉ b) :
    a ++ mark :: c = b ++ mark :: d ↔ a = b ∧ c = d := by
  constructor
  · intro h
    induction a generalizing b with
    | nil =>
      cases b with
      | nil => exact ⟨rfl, (List.cons.inj h).2⟩
      | cons y b => exact absurd (List.cons.inj h).1 fun hy => hb (hy ▸ List.mem_cons_self ..)
    | cons x a ih =>
      cases b with
      | nil => exact absurd (List.cons.inj h).1 fun hx => ha (hx ▸ List.mem_cons_self ..)
      | cons y b =>
        obtain ⟨rfl, htail⟩ := List.cons.inj h
        have ha' : mark ∉ a := fun hx => ha (List.mem_cons_of_mem _ hx)
        have hb' : mark ∉ b := fun hy => hb (List.mem_cons_of_mem _ hy)
        obtain ⟨rfl, rfl⟩ := ih ha' hb' htail
        exact ⟨rfl, rfl⟩
  · rintro ⟨rfl, rfl⟩
    rfl

/-- **Words can be told apart.** -/
theorem flatMap_mark_inj {words words' : List (List α)} (free : ∀ w ∈ words, mark ∉ w)
    (free' : ∀ w ∈ words', mark ∉ w) :
    words.flatMap (· ++ [mark]) = words'.flatMap (· ++ [mark]) ↔ words = words' := by
  constructor
  · intro h
    induction words generalizing words' with
    | nil =>
      cases words' with
      | nil => rfl
      | cons w' words' => simp at h
    | cons w words ih =>
      cases words' with
      | nil => simp at h
      | cons w' words' =>
        rw [List.flatMap_cons, List.flatMap_cons, List.append_assoc, List.append_assoc, List.singleton_append,
          List.singleton_append, append_mark_inj (free w (List.mem_cons_self ..))
            (free' w' (List.mem_cons_self ..))] at h
        obtain ⟨rfl, hrest⟩ := h
        have hwords := ih (fun v hv => free v (List.mem_cons_of_mem _ hv))
          (fun v hv => free' v (List.mem_cons_of_mem _ hv)) hrest
        rw [hwords]
  · rintro rfl
    rfl

/-! ## What is written piece by piece -/

section Pieces

variable {σ : Type*} {write : σ → List α → σ}

/-- A writer to whom it makes no difference how what it is given is cut into pieces. -/
structure Streams (write : σ → List α → σ) : Prop where
  nothing : ∀ s, write s [] = s
  append : ∀ s a b, write (write s a) b = write s (a ++ b)

/-- Pieces leave what they make together. -/
lemma Streams.foldl_eq (h : Streams write) (pieces : List (List α)) (s : σ) :
    pieces.foldl write s = write s pieces.flatten := by
  induction pieces generalizing s with
  | nil => exact (h.nothing s).symm
  | cons piece pieces ih => rw [List.foldl_cons, ih, h.append, List.flatten_cons]

lemma streams_append : Streams fun (s a : List α) => s ++ a where
  nothing s := List.append_nil s
  append s a b := List.append_assoc s a b

end Pieces

end Delimited
