import Mathlib.Data.List.Induction
import Mathlib.Data.Nat.Notation
import Mathlib.Order.Lattice

/-!
# The best of what is offered

A list of choices with a weight each.  The best is the first of those with the greatest weight, if that is positive;
`foldl_better` finds it in one pass, in which a later choice has to be strictly better.

Who asks for the best again and again, each time without the last answer, gets the choices of positive weight in
falling order of weight, and those of one weight in the order of the list: `picks_spec`.
-/

namespace Preference

variable {α W : Type*} [LinearOrder W] [Zero W] {weight : α → W} {offered : List α} {x y : α}

/-- A choice of positive weight, better than all before it and no worse than those after it. -/
def Best (weight : α → W) (offered : List α) (x : α) : Prop :=
  ∃ before after, offered = before ++ x :: after ∧ 0 < weight x ∧ (∀ y ∈ before, weight y < weight x) ∧
    ∀ y ∈ after, weight y ≤ weight x

/-- One step of the pass: the best so far, with its weight, and the next choice. -/
def better (weight : α → W) (best : Option (α × W)) (x : α) : Option (α × W) :=
  if 0 < weight x ∧ (best.all fun (_, w) => decide (w < weight x)) then some (x, weight x) else best

/-- What a choice is preferred to: what has less weight, and what has the same and comes later. -/
def Preferred (weight : α → W) (offered : List α) (x y : α) : Prop :=
  weight y < weight x ∨ weight y = weight x ∧ [x, y].Sublist offered

/-- The answers to asking again and again, `n` times at most. -/
def picks [DecidableEq α] (choose : List α → Option α) : ℕ → List α → List α
  | 0, _ => []
  | n + 1, offered =>
    match choose offered with
    | none => []
    | some x => x :: picks choose n (offered.filter fun y => y ≠ x)

/-! ## The best -/

lemma Best.mem (h : Best weight offered x) : x ∈ offered := by
  obtain ⟨before, after, rfl, -, -, -⟩ := h
  simp

lemma Best.pos (h : Best weight offered x) : 0 < weight x := by
  obtain ⟨-, -, -, hpos, -, -⟩ := h
  exact hpos

lemma Best.le (h : Best weight offered x) (hy : y ∈ offered) : weight y ≤ weight x := by
  obtain ⟨before, after, rfl, -, hbefore, hafter⟩ := h
  rcases List.mem_append.mp hy with hy | hy
  · exact le_of_lt (hbefore y hy)
  · rcases List.mem_cons.mp hy with rfl | hy
    · exact le_rfl
    · exact hafter y hy

/-- It is preferred to all the others. -/
lemma Best.preferred (h : Best weight offered x) (hy : y ∈ offered) (hne : y ≠ x) :
    Preferred weight offered x y := by
  obtain ⟨before, after, rfl, -, hbefore, hafter⟩ := h
  rcases List.mem_append.mp hy with hy | hy
  · exact .inl (hbefore y hy)
  · rcases List.mem_cons.mp hy with heq | hy
    · exact absurd heq hne
    · obtain hlt | heq := lt_or_eq_of_le (hafter y hy)
      · exact .inl hlt
      · have hpair : [x, y].Sublist (before ++ x :: after) :=
          (List.cons_sublist_cons.mpr (List.singleton_sublist.mpr hy)).trans (List.sublist_append_right ..)
        exact .inr ⟨heq, hpair⟩

lemma Best.unique (h : Best weight offered x) (h' : Best weight offered y) : x = y := by
  have hsame : weight x = weight y := le_antisymm (h'.le h.mem) (h.le h'.mem)
  obtain ⟨before, after, hoffered, -, hbefore, -⟩ := h
  obtain ⟨before', after', hoffered', -, hbefore', -⟩ := h'
  rw [hoffered] at hoffered'
  -- Neither stands before the other, which would have less weight.
  obtain ⟨between, hbetween, hrest⟩ | ⟨between, hbetween, hrest⟩ := List.append_eq_append_iff.mp hoffered'
  · cases between with
    | nil => exact (List.cons.inj hrest).1
    | cons z between =>
      obtain rfl := (List.cons.inj hrest).1
      have hlt := hbefore' x (by simp [hbetween])
      exact absurd hlt (by rw [hsame]; exact lt_irrefl _)
  · cases between with
    | nil => exact (List.cons.inj hrest).1.symm
    | cons z between =>
      obtain rfl := (List.cons.inj hrest).1
      have hlt := hbefore y (by simp [hbetween])
      exact absurd hlt (by rw [hsame]; exact lt_irrefl _)

/-- The pass finds the best, and nothing only if no choice has positive weight. -/
theorem foldl_better (weight : α → W) (offered : List α) :
    offered.foldl (better weight) none = none ∧ (∀ y ∈ offered, ¬ 0 < weight y) ∨
      ∃ x, offered.foldl (better weight) none = some (x, weight x) ∧ Best weight offered x := by
  induction offered using List.reverseRecOn with
  | nil => exact .inl ⟨rfl, nofun⟩
  | append_singleton offered y ih =>
    rw [List.foldl_append, List.foldl_cons, List.foldl_nil]
    obtain ⟨hnone, hzero⟩ | ⟨x, hsome, hbest⟩ := ih
    · rw [hnone]
      by_cases hy : 0 < weight y
      · refine .inr ⟨y, if_pos ⟨hy, rfl⟩, offered, [], rfl, hy, ?_, nofun⟩
        intro z hz
        exact lt_of_le_of_lt (not_lt.mp (hzero z hz)) hy
      · refine .inl ⟨if_neg fun h => hy h.1, ?_⟩
        intro z hz
        rcases List.mem_append.mp hz with hz | hz
        · exact hzero z hz
        · rwa [List.mem_singleton.mp hz]
    · rw [hsome]
      by_cases hy : weight x < weight y
      · have hpos : 0 < weight y := lt_trans hbest.pos hy
        refine .inr ⟨y, if_pos ⟨hpos, by simpa using hy⟩, offered, [], rfl, hpos, ?_, nofun⟩
        intro z hz
        exact lt_of_le_of_lt (hbest.le hz) hy
      · refine .inr ⟨x, if_neg fun h => hy (by simpa using h.2), ?_⟩
        obtain ⟨before, after, rfl, hpos, hbefore, hafter⟩ := hbest
        refine ⟨before, after ++ [y], by simp, hpos, hbefore, ?_⟩
        intro z hz
        rcases List.mem_append.mp hz with hz | hz
        · exact hafter z hz
        · rw [List.mem_singleton.mp hz]
          exact not_lt.mp hy

/-- Weights that are ordered in the same way have the same best. -/
lemma best_congr {V : Type*} [LinearOrder V] [Zero V] {other : α → V}
    (hpos : ∀ x ∈ offered, 0 < weight x ↔ 0 < other x)
    (hlt : ∀ x ∈ offered, ∀ y ∈ offered, weight x < weight y ↔ other x < other y) :
    Best weight offered x ↔ Best other offered x := by
  constructor
  · rintro ⟨before, after, rfl, h, hbefore, hafter⟩
    refine ⟨before, after, rfl, (hpos x (by simp)).mp h, ?_, ?_⟩
    · intro y hy
      exact (hlt y (by simp [hy]) x (by simp)).mp (hbefore y hy)
    · intro y hy
      exact not_lt.mp fun h => not_lt.mpr (hafter y hy) ((hlt x (by simp) y (by simp [hy])).mpr h)
  · rintro ⟨before, after, rfl, h, hbefore, hafter⟩
    refine ⟨before, after, rfl, (hpos x (by simp)).mpr h, ?_, ?_⟩
    · intro y hy
      exact (hlt y (by simp [hy]) x (by simp)).mpr (hbefore y hy)
    · intro y hy
      exact not_lt.mp fun h => not_lt.mpr (hafter y hy) ((hlt x (by simp) y (by simp [hy])).mp h)

/-! ## Asking again -/

section Picks

variable [DecidableEq α] {choose : List α → Option α}

/-- If each answer is the best of what is left, the answers are the choices of positive weight, each once and in the
order of preference. -/
theorem picks_spec (some_iff : ∀ offered x, choose offered = some x ↔ Best weight offered x)
    (none_iff : ∀ offered, choose offered = none ↔ ∀ y ∈ offered, ¬ 0 < weight y) (distinct : offered.Nodup) {n : ℕ}
    (enough : offered.length ≤ n) :
    (picks choose n offered).Nodup ∧ (∀ x, x ∈ picks choose n offered ↔ x ∈ offered ∧ 0 < weight x) ∧
      (picks choose n offered).Pairwise (Preferred weight offered) := by
  induction n generalizing offered with
  | zero =>
    obtain rfl := List.length_eq_zero_iff.mp (Nat.le_zero.mp enough)
    exact ⟨List.nodup_nil, by simp [picks], List.Pairwise.nil⟩
  | succ n ih =>
    rw [picks]
    cases hchoose : choose offered with
    | none =>
      have hzero := (none_iff offered).mp hchoose
      refine ⟨List.nodup_nil, ?_, List.Pairwise.nil⟩
      intro y
      refine iff_of_false List.not_mem_nil ?_
      rintro ⟨hy, hpos⟩
      exact hzero y hy hpos
    | some x =>
      have hbest := (some_iff offered x).mp hchoose
      have hrest : ∀ y, y ∈ offered.filter (fun y => y ≠ x) ↔ y ∈ offered ∧ y ≠ x := by simp
      have hless : (offered.filter fun y => y ≠ x).length < offered.length :=
        List.length_filter_lt_length_iff_exists.mpr ⟨x, hbest.mem, by simp⟩
      have hdistinct : (offered.filter fun y => y ≠ x).Nodup := distinct.filter _
      obtain ⟨hnodup, hmem, hpairwise⟩ := ih hdistinct (by omega)
      refine ⟨List.nodup_cons.mpr ⟨?_, hnodup⟩, ?_, List.pairwise_cons.mpr ⟨?_, ?_⟩⟩
      · intro hx
        exact ((hrest x).mp ((hmem x).mp hx).1).2 rfl
      · intro y
        rw [List.mem_cons, hmem, hrest]
        constructor
        · rintro (rfl | ⟨⟨hy, -⟩, hpos⟩)
          · exact ⟨hbest.mem, hbest.pos⟩
          · exact ⟨hy, hpos⟩
        · rintro ⟨hy, hpos⟩
          by_cases heq : y = x
          · exact .inl heq
          · exact .inr ⟨⟨hy, heq⟩, hpos⟩
      · intro y hy
        obtain ⟨hoffered, hne⟩ := (hrest y).mp ((hmem y).mp hy).1
        exact hbest.preferred hoffered hne
      · refine hpairwise.imp ?_
        rintro a b (hlt | ⟨heq, hbefore⟩)
        · exact .inl hlt
        · exact .inr ⟨heq, hbefore.trans List.filter_sublist⟩

/-- More rounds than there are choices change nothing: the asking ends by itself. -/
theorem picks_eq (mem : ∀ offered x, choose offered = some x → x ∈ offered) {n m : ℕ} (hn : offered.length ≤ n)
    (hm : offered.length ≤ m) : picks choose n offered = picks choose m offered := by
  have hnil : choose [] = none := by
    by_contra h
    obtain ⟨x, hx⟩ := Option.ne_none_iff_exists'.mp h
    exact absurd (mem [] x hx) List.not_mem_nil
  have hzero : ∀ n, picks choose n [] = [] := by
    intro n
    cases n with
    | zero => rfl
    | succ n => rw [picks, hnil]
  induction n generalizing offered m with
  | zero =>
    obtain rfl := List.length_eq_zero_iff.mp (Nat.le_zero.mp hn)
    rw [hzero, hzero]
  | succ n ih =>
    cases m with
    | zero =>
      obtain rfl := List.length_eq_zero_iff.mp (Nat.le_zero.mp hm)
      rw [hzero, hzero]
    | succ m =>
      rw [picks, picks]
      cases hchoose : choose offered with
      | none => rfl
      | some x =>
        have hless : (offered.filter fun y => y ≠ x).length < offered.length :=
          List.length_filter_lt_length_iff_exists.mpr ⟨x, mem offered x hchoose, by simp⟩
        have hrest : picks choose n (offered.filter fun y => y ≠ x) = picks choose m (offered.filter fun y => y ≠ x) :=
          ih (by omega) (by omega)
        simp only [hrest]

end Picks

end Preference
