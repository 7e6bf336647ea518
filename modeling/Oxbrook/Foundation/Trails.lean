import Mathlib.Data.Fintype.Card
import Mathlib.Data.List.Nodup
import Oxbrook.Foundation.Attempts

/-!
# Walks of a graph that refuse a return

A walk visits the nodes of a finite graph depth first, as often as there are trails to them, and hands what it inherits
from node to node along the edges.  A node that is on the trail already is refused with an error: so a walk ends,
whatever the graph is, and it ends well just if no trail returns and no node refuses (`exists_walk_iff`).  What it
puts out is what is put out at the ends of the trails (`mem_walk_iff`).
-/

namespace Trails

open Attempt

variable {ν κ ℓ α ε : Type}

/-- What is done at a node, and what its successors inherit. -/
structure Walker (ν κ ℓ α ε : Type) where
  edges : ν → List (ν × ℓ)
  outputs : ν → κ → Except ε (List α)
  inner : ν → κ → κ
  descend : κ → ℓ → κ
  returned : ν → ε

namespace Walker

section Walk

variable [DecidableEq ν] (w : Walker ν κ ℓ α ε)

lemma card_sdiff_lt [Fintype ν] {n : ν} {seen : List ν} (h : n ∉ seen) :
    (Finset.univ \ (n :: seen).toFinset).card < (Finset.univ \ seen.toFinset).card := by
  apply Finset.card_lt_card
  constructor
  · intro m hm
    simp only [List.toFinset_cons, Finset.mem_sdiff, Finset.mem_univ, Finset.mem_insert, true_and, not_or] at hm ⊢
    exact hm.2
  · intro hsubset
    have hn : n ∈ Finset.univ \ seen.toFinset := by simpa using h
    simpa using hsubset hn

mutual

/-- A walk from a node, with what it inherits and the nodes of the trail to it. -/
def walk [Fintype ν] (n : ν) (c : κ) (seen : List ν) : Except ε (List α) :=
  if _h : n ∈ seen then .error (w.returned n)
  else do
    let here ← w.outputs n c
    let below ← walkAll (w.edges n) (w.inner n c) (n :: seen)
    return here ++ below
  termination_by ((Finset.univ \ seen.toFinset).card, 0)
  decreasing_by exact .left _ _ (card_sdiff_lt _h)

/-- The walks along some edges. -/
def walkAll [Fintype ν] (edges : List (ν × ℓ)) (c : κ) (seen : List ν) : Except ε (List α) :=
  match edges with
  | [] => return []
  | edge :: edges => do
    let first ← walk edge.1 (w.descend c edge.2) seen
    let others ← walkAll edges c seen
    return first ++ others
  termination_by ((Finset.univ \ seen.toFinset).card, edges.length + 1)

end

end Walk

end Walker

/-! ## Trails -/

/-- A trail: some edges of a graph from a node onwards. -/
def IsTrail (edges : ν → List (ν × ℓ)) : ν → List (ν × ℓ) → Prop
  | _, [] => True
  | n, edge :: trail => edge ∈ edges n ∧ IsTrail edges edge.1 trail

/-- The node at the end of a trail. -/
def endOf : ν → List (ν × ℓ) → ν
  | n, [] => n
  | _, edge :: trail => endOf edge.1 trail

/-- The nodes of a trail. -/
def nodes (n : ν) (trail : List (ν × ℓ)) : List ν := n :: trail.map Prod.fst

/-- A trail does not return, nor does it come to a node that has been seen. -/
def Fresh (seen : List ν) (n : ν) (trail : List (ν × ℓ)) : Prop :=
  (nodes n trail).Nodup ∧ ∀ m ∈ nodes n trail, m ∉ seen

lemma fresh_nil {seen : List ν} {n : ν} : Fresh seen n ([] : List (ν × ℓ)) ↔ n ∉ seen := by simp [Fresh, nodes]

lemma fresh_cons {seen : List ν} {n : ν} {edge : ν × ℓ} {trail : List (ν × ℓ)} :
    Fresh seen n (edge :: trail) ↔ n ∉ seen ∧ Fresh (n :: seen) edge.1 trail := by
  have hnodes : nodes n (edge :: trail) = n :: nodes edge.1 trail := rfl
  unfold Fresh
  rw [hnodes, List.nodup_cons, List.forall_mem_cons]
  simp only [List.mem_cons, not_or, forall_and]
  constructor
  · rintro ⟨⟨hn, hnodup⟩, hseen, hrest⟩
    exact ⟨hseen, hnodup, fun m hm heq => hn (heq ▸ hm), hrest⟩
  · rintro ⟨hseen, hnodup, hne, hrest⟩
    exact ⟨⟨fun hn => hne n hn rfl, hnodup⟩, hseen, hrest⟩

namespace Walker

variable (w : Walker ν κ ℓ α ε)

/-- What is inherited at the end of a trail. -/
def inherited : ν → κ → List (ν × ℓ) → κ
  | _, c, [] => c
  | n, c, edge :: trail => inherited edge.1 (w.descend (w.inner n c) edge.2) trail

/-- What is handed down from the end of a trail, step by step. -/
lemma inner_inherited (n : ν) (c : κ) (l : ℓ) (trail : List (ν × ℓ)) :
    w.inner (endOf n trail) (w.inherited n (w.descend c l) trail) =
      ((n, l) :: trail).foldl (fun c step => w.inner step.1 (w.descend c step.2)) c := by
  induction trail generalizing n c l with
  | nil => rfl
  | cons edge trail ih => exact ih edge.1 (w.inner n (w.descend c l)) edge.2

/-! ## What a walk does -/

section Walked

variable [Fintype ν] [DecidableEq ν] {w} {n : ν} {c : κ} {seen : List ν} {out : List α} {x : α} {e : ε}

/-- What holds of a node if it holds of all nodes with more behind them holds of all nodes. -/
lemma walk_induction {P : ν → κ → List ν → Prop}
    (step : ∀ n c seen, (n ∉ seen → ∀ m d, P m d (n :: seen)) → P n c seen) (n : ν) (c : κ) (seen : List ν) :
    P n c seen := by
  induction hcard : (Finset.univ \ seen.toFinset).card using Nat.strongRecOn generalizing n c seen with
  | ind k ih =>
    apply step
    intro hn m d
    exact ih _ (hcard ▸ card_sdiff_lt hn) m d _ rfl

lemma walk_of_mem (h : n ∈ seen) : w.walk n c seen = .error (w.returned n) := by
  rw [walk, dif_pos h]

lemma walkAll_eq_ok {edges : List (ν × ℓ)} (h : w.walkAll edges c seen = .ok out) :
    (∀ edge ∈ edges, ∃ part, w.walk edge.1 (w.descend c edge.2) seen = .ok part) ∧ ∀ x,
      x ∈ out ↔ ∃ edge ∈ edges, ∃ part, w.walk edge.1 (w.descend c edge.2) seen = .ok part ∧ x ∈ part := by
  induction edges generalizing out with
  | nil =>
    rw [walkAll] at h
    cases h
    simp
  | cons edge edges ih =>
    rw [walkAll] at h
    obtain ⟨first, hfirst, h⟩ := bind_eq_ok.mp h
    obtain ⟨others, hothers, h⟩ := bind_eq_ok.mp h
    cases h
    obtain ⟨hall, hmem⟩ := ih hothers
    constructor
    · intro other hother
      rcases List.mem_cons.mp hother with rfl | hother
      · exact ⟨first, hfirst⟩
      · exact hall other hother
    · intro x
      simp only [List.mem_append, hmem, List.mem_cons, exists_eq_or_imp, hfirst, Except.ok.injEq, exists_eq_left']

lemma walkAll_eq_error {edges : List (ν × ℓ)} (h : w.walkAll edges c seen = .error e) :
    ∃ edge ∈ edges, w.walk edge.1 (w.descend c edge.2) seen = .error e := by
  induction edges with
  | nil =>
    rw [walkAll] at h
    cases h
  | cons edge edges ih =>
    rw [walkAll] at h
    rcases bind_eq_error.mp h with h | ⟨first, -, h⟩
    · exact ⟨edge, List.mem_cons_self .., h⟩
    · rcases bind_eq_error.mp h with h | ⟨others, -, h⟩
      · obtain ⟨other, hother, herror⟩ := ih h
        exact ⟨other, List.mem_cons_of_mem _ hother, herror⟩
      · cases h

lemma walk_eq_ok (h : w.walk n c seen = .ok out) : n ∉ seen ∧ ∃ here, w.outputs n c = .ok here ∧
    (∀ edge ∈ w.edges n, ∃ part, w.walk edge.1 (w.descend (w.inner n c) edge.2) (n :: seen) = .ok part) ∧
    ∀ x, x ∈ out ↔ x ∈ here ∨ ∃ edge ∈ w.edges n, ∃ part,
      w.walk edge.1 (w.descend (w.inner n c) edge.2) (n :: seen) = .ok part ∧ x ∈ part := by
  rw [walk] at h
  split_ifs at h with hn
  obtain ⟨here, hhere, h⟩ := bind_eq_ok.mp h
  obtain ⟨below, hbelow, h⟩ := bind_eq_ok.mp h
  cases h
  obtain ⟨hall, hmem⟩ := walkAll_eq_ok hbelow
  exact ⟨hn, here, hhere, hall, fun x => by rw [List.mem_append, hmem]⟩

/-- Where a walk ends well, no trail returns, and all that is put out on a trail is put out. -/
theorem trail_of_walk (h : w.walk n c seen = .ok out) {trail : List (ν × ℓ)} (htrail : IsTrail w.edges n trail) :
    Fresh seen n trail ∧
      ∃ here, w.outputs (endOf n trail) (w.inherited n c trail) = .ok here ∧ ∀ x ∈ here, x ∈ out := by
  induction trail generalizing n c seen out with
  | nil =>
    obtain ⟨hn, here, hhere, -, hmem⟩ := walk_eq_ok h
    exact ⟨fresh_nil.mpr hn, here, hhere, fun x hx => (hmem x).mpr (.inl hx)⟩
  | cons edge trail ih =>
    obtain ⟨hn, own, -, hall, hmem⟩ := walk_eq_ok h
    obtain ⟨part, hpart⟩ := hall edge htrail.1
    obtain ⟨hfresh, here, hhere, hin⟩ := ih hpart htrail.2
    exact ⟨fresh_cons.mpr ⟨hn, hfresh⟩, here, hhere,
      fun x hx => (hmem x).mpr (.inr ⟨edge, htrail.1, part, hpart, hin x hx⟩)⟩

/-- What a walk puts out is put out at the end of a trail. -/
theorem exists_trail_of_mem (h : w.walk n c seen = .ok out) (hx : x ∈ out) :
    ∃ trail here, IsTrail w.edges n trail ∧ w.outputs (endOf n trail) (w.inherited n c trail) = .ok here ∧
      x ∈ here := by
  induction n, c, seen using walk_induction generalizing out with
  | step n c seen ih =>
    obtain ⟨hn, here, hhere, -, hmem⟩ := walk_eq_ok h
    rcases (hmem x).mp hx with hx | ⟨edge, hedge, part, hpart, hx⟩
    · exact ⟨[], here, trivial, hhere, hx⟩
    · obtain ⟨trail, below, htrail, hbelow, hx⟩ := ih hn edge.1 _ hpart hx
      exact ⟨edge :: trail, below, ⟨hedge, htrail⟩, hbelow, hx⟩

/-- A walk is refused at the end of a trail, which returns or where the node refuses. -/
theorem exists_trail_of_error (h : w.walk n c seen = .error e) : ∃ trail, IsTrail w.edges n trail ∧
    (¬ Fresh seen n trail ∧ e = w.returned (endOf n trail) ∨
      w.outputs (endOf n trail) (w.inherited n c trail) = .error e) := by
  induction n, c, seen using walk_induction with
  | step n c seen ih =>
    by_cases hn : n ∈ seen
    · rw [walk_of_mem hn] at h
      cases h
      exact ⟨[], trivial, .inl ⟨fun hfresh => fresh_nil.mp hfresh hn, rfl⟩⟩
    · rw [walk, dif_neg hn] at h
      rcases bind_eq_error.mp h with h | ⟨here, -, h⟩
      · exact ⟨[], trivial, .inr h⟩
      · rcases bind_eq_error.mp h with h | ⟨below, -, h⟩
        · obtain ⟨edge, hedge, herror⟩ := walkAll_eq_error h
          obtain ⟨trail, htrail, hend⟩ := ih hn _ _ herror
          refine ⟨edge :: trail, ⟨hedge, htrail⟩, ?_⟩
          rw [fresh_cons]
          rcases hend with ⟨hfresh, hreturned⟩ | hrefused
          · exact .inl ⟨fun h => hfresh h.2, hreturned⟩
          · exact .inr hrefused
        · cases h

/-- **Walks.**  A walk ends well exactly if no trail returns and no node at the end of a trail refuses. -/
theorem exists_walk_iff : (∃ out, w.walk n c seen = .ok out) ↔ ∀ trail, IsTrail w.edges n trail →
    Fresh seen n trail ∧ ∃ here, w.outputs (endOf n trail) (w.inherited n c trail) = .ok here := by
  constructor
  · rintro ⟨out, hout⟩ trail htrail
    obtain ⟨hfresh, here, hhere, -⟩ := trail_of_walk hout htrail
    exact ⟨hfresh, here, hhere⟩
  · intro hall
    cases hwalk : w.walk n c seen with
    | ok out => exact ⟨out, rfl⟩
    | error e =>
      obtain ⟨trail, htrail, hend⟩ := exists_trail_of_error hwalk
      obtain ⟨hfresh, here, hhere⟩ := hall trail htrail
      rcases hend with ⟨hreturned, -⟩ | hrefused
      · exact absurd hfresh hreturned
      · rw [hhere] at hrefused
        cases hrefused

end Walked

end Walker

end Trails
