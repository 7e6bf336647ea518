import Mathlib.Data.List.Nodup
import Mathlib.Data.List.Range
import Mathlib.Data.Set.Insert

/-!
# First come, first served

Items that each bring a sequence of candidates, and take from it, one item after the other, the
first candidate that was not taken before.  `search` finds that candidate if the sequence does not
repeat itself, for it has to try one more than there are taken ones at most.  Nobody gets what
another one got (`Assigned.nodup`).  If no two items would take the same candidate of those that are
free at the start, each of them takes that one, whatever their order is (`Assigned.eq_own`).
-/

namespace FirstFree

variable {α ι : Type*}

/-- The first candidate that is not taken. -/
def IsFirst (candidate : ℕ → α) (taken : Set α) (a : α) : Prop :=
  ∃ n, candidate n = a ∧ a ∉ taken ∧ ∀ m < n, candidate m ∈ taken

section Candidates

variable {candidate : ℕ → α} {taken taken' : Set α} {a b : α}

lemma IsFirst.not_mem (h : IsFirst candidate taken a) : a ∉ taken := by
  obtain ⟨_, -, ha, -⟩ := h
  exact ha

/-- There is one first candidate. -/
lemma IsFirst.unique (h : IsFirst candidate taken a) (h' : IsFirst candidate taken b) : a = b := by
  obtain ⟨n, rfl, hn, before⟩ := h
  obtain ⟨m, rfl, hm, before'⟩ := h'
  rcases Nat.lt_trichotomy n m with hlt | rfl | hlt
  · exact absurd (before' n hlt) hn
  · rfl
  · exact absurd (before m hlt) hm

/-- A candidate stays the first one while others are taken. -/
lemma IsFirst.mono (h : IsFirst candidate taken a) (hsub : taken ⊆ taken') (ha : a ∉ taken') :
    IsFirst candidate taken' a := by
  obtain ⟨n, hn, -, before⟩ := h
  exact ⟨n, hn, ha, fun m hm => hsub (before m hm)⟩

end Candidates

/-! ## The search -/

section Search

variable [DecidableEq α]

/-- The first candidate from a place that is not taken, if that is among the next few. -/
def search (candidate : ℕ → α) (taken : List α) : ℕ → ℕ → Option α
  | 0, _ => none
  | turns + 1, n =>
    if candidate n ∈ taken then search candidate taken turns (n + 1) else some (candidate n)

variable {candidate : ℕ → α} {taken : List α}

/-- A sequence without repetitions has a free candidate among one more than there are taken. -/
lemma exists_free (h : Function.Injective candidate) (taken : List α) :
    ∃ n ≤ taken.length, candidate n ∉ taken := by
  by_contra none
  have hall : (List.range (taken.length + 1)).map candidate ⊆ taken := by
    intro a ha
    obtain ⟨n, hn, rfl⟩ := List.mem_map.mp ha
    by_contra free
    exact none ⟨n, Nat.lt_succ_iff.mp (List.mem_range.mp hn), free⟩
  have hnodup : ((List.range (taken.length + 1)).map candidate).Nodup := List.nodup_range.map h
  have hlength := hnodup.length_le_of_subset hall
  rw [List.length_map, List.length_range] at hlength
  omega

/-- The search ends at a free candidate, and has passed none. -/
lemma search_of_free {turns n k : ℕ} (hk : n ≤ k) (hturns : k < n + turns)
    (hfree : candidate k ∉ taken) (before : ∀ m < n, candidate m ∈ taken) :
    ∃ a, search candidate taken turns n = some a ∧ IsFirst candidate {t | t ∈ taken} a := by
  induction turns generalizing n with
  | zero => omega
  | succ turns ih =>
    by_cases hmem : candidate n ∈ taken
    · have hne : n ≠ k := by
        rintro rfl
        exact hfree hmem
      rw [search, if_pos hmem]
      apply ih (by omega) (by omega)
      intro m hm
      rcases Nat.lt_succ_iff_lt_or_eq.mp hm with hlt | rfl
      · exact before m hlt
      · exact hmem
    · exact ⟨candidate n, by rw [search, if_neg hmem], n, rfl, hmem, before⟩

/-- The search finds the first free candidate. -/
theorem search_spec (h : Function.Injective candidate) (taken : List α) :
    ∃ a, search candidate taken (taken.length + 1) 0 = some a ∧
      IsFirst candidate {t | t ∈ taken} a := by
  obtain ⟨k, hk, hfree⟩ := exists_free h taken
  exact search_of_free (Nat.zero_le k) (by omega) hfree (by simp)

end Search

/-! ## Items in turn -/

/-- Items in their order, each with what it took. -/
inductive Assigned (candidates : ι → ℕ → α) : Set α → List (ι × α) → Prop
  | nil {taken : Set α} : Assigned candidates taken []
  | cons {taken : Set α} {i : ι} {a : α} {rest : List (ι × α)}
      (first : IsFirst (candidates i) taken a) (later : Assigned candidates (insert a taken) rest) :
      Assigned candidates taken ((i, a) :: rest)

namespace Assigned

variable {candidates : ι → ℕ → α} {taken : Set α} {out : List (ι × α)}

/-- Nothing is taken that was taken before. -/
theorem not_mem (h : Assigned candidates taken out) : ∀ item ∈ out, item.2 ∉ taken := by
  induction h with
  | nil => simp
  | cons first _ ih =>
    intro item hitem
    rcases List.mem_cons.mp hitem with rfl | hitem
    · exact first.not_mem
    · intro hmem
      exact ih item hitem (Set.mem_insert_of_mem _ hmem)

/-- Nothing is taken twice. -/
theorem nodup (h : Assigned candidates taken out) : (out.map Prod.snd).Nodup := by
  induction h with
  | nil => simp
  | @cons taken i a rest first later ih =>
    rw [List.map_cons, List.nodup_cons]
    refine ⟨?_, ih⟩
    intro hmem
    obtain ⟨item, hitem, rfl⟩ := List.mem_map.mp hmem
    exact later.not_mem item hitem (Set.mem_insert _ _)

/-- If the items would take different candidates of those that are free at the start, they do. -/
theorem eq_own {own : ι → α} (h : Assigned candidates taken out)
    (hown : ∀ item ∈ out, IsFirst (candidates item.1) taken (own item.1))
    (hdistinct : (out.map fun item => own item.1).Nodup) : ∀ item ∈ out, item.2 = own item.1 := by
  induction h with
  | nil => simp
  | @cons taken i a rest first _ ih =>
    rw [List.map_cons, List.nodup_cons] at hdistinct
    obtain rfl : a = own i := first.unique (hown (i, a) List.mem_cons_self)
    intro item hitem
    rcases List.mem_cons.mp hitem with rfl | hitem
    · rfl
    · refine ih ?_ hdistinct.2 item hitem
      intro other hother
      have free := hown other (List.mem_cons_of_mem _ hother)
      apply free.mono (Set.subset_insert _ _)
      rintro (heq | hmem)
      · exact hdistinct.1 (List.mem_map.mpr ⟨other, hother, heq⟩)
      · exact free.not_mem hmem

end Assigned

end FirstFree
