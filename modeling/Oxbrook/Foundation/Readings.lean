import Mathlib
import Oxbrook.Foundation.Runs

/-!
# Reading shared cells one at a time

A report on shared cells loads them one after another while others go on writing.  No moment need exist at which the
cells held, all together, what the report says of them.  What is still true of it is stated here for any preorder of
stores that the writers go up in.

`Outcome look good hi lo r a` says that the reading `r` may end with `a` if it is begun at the store `lo` and ended at
the store `hi`, and `ended_outcome` that this covers every interleaving with the writers.  A reading whose parts load
different cells is `Explained` by one snapshot: its result is what the same reading gives on cells that do not move,
each of them at a value it did have while the reading ran.
-/

namespace Readings

open StepMachine

variable {κ ν α β γ σ ρ ω : Type}

/-! ## Readings -/

/-- A computation that loads cells, one after another. -/
inductive Readout (κ ν α : Type)
  | done (a : α)
  | load (cell : κ) (rest : ν → Readout κ ν α)

namespace Readout

def bind : Readout κ ν α → (α → Readout κ ν β) → Readout κ ν β
  | .done a, f => f a
  | .load cell rest, f => .load cell fun v => (rest v).bind f

instance : Monad (Readout κ ν) where
  pure := .done
  bind := bind

def fetch (cell : κ) : Readout κ ν ν := .load cell .done

/-- The lists that a reading gives for each item, one after another. -/
def collect (f : β → Readout κ ν (List α)) : List β → Readout κ ν (List α)
  | [] => pure []
  | b :: items => do
    let here ← f b
    let more ← collect f items
    pure (here ++ more)

/-- The result where no cell moves. -/
def eval (snap : κ → ν) : Readout κ ν α → α
  | .done a => a
  | .load cell rest => (rest (snap cell)).eval snap

@[simp] lemma eval_pure (snap : κ → ν) (a : α) : (pure a : Readout κ ν α).eval snap = a := rfl

@[simp] lemma eval_fetch (snap : κ → ν) (cell : κ) : (fetch cell).eval snap = snap cell := rfl

@[simp] lemma eval_bind (snap : κ → ν) (r : Readout κ ν α) (f : α → Readout κ ν β) :
    (r >>= f).eval snap = (f (r.eval snap)).eval snap := by
  induction r with
  | done a => rfl
  | load cell rest ih => exact ih (snap cell)

@[simp] lemma eval_collect (snap : κ → ν) (f : β → Readout κ ν (List α)) (items : List β) :
    (collect f items).eval snap = items.flatMap fun b => (f b).eval snap := by
  induction items with
  | nil => rfl
  | cons b items ih => simp [collect, ih]

end Readout

open Readout

/-! ## Outcomes -/

variable [Preorder σ] {look : σ → κ → ν} {good : σ → Prop} {lo hi : σ}

/-- A reading that is begun at one store and ended at another may have a result; all its loads are at good stores. -/
inductive Outcome (look : σ → κ → ν) (good : σ → Prop) (hi : σ) : σ → Readout κ ν α → α → Prop
  | done {lo : σ} (a : α) (start : good lo) (le : lo ≤ hi) : Outcome look good hi lo (.done a) a
  | load {lo : σ} {cell : κ} {rest : ν → Readout κ ν α} {a : α} (now : σ) (start : good lo) (le : lo ≤ now)
      (later : Outcome look good hi now (rest (look now cell)) a) : Outcome look good hi lo (.load cell rest) a

lemma Outcome.le {r : Readout κ ν α} {a : α} (h : Outcome look good hi lo r a) : lo ≤ hi := by
  induction h with
  | done a start le => exact le
  | load now start le later ih => exact le.trans ih

lemma Outcome.start {r : Readout κ ν α} {a : α} (h : Outcome look good hi lo r a) : good lo := by
  cases h with
  | done _ start _ => exact start
  | load _ start _ _ => exact start

/-- What may happen from a later store on may happen from an earlier one on. -/
lemma Outcome.earlier {r : Readout κ ν α} {a : α} {before : σ} (h : Outcome look good hi lo r a) (start : good before)
    (le : before ≤ lo) : Outcome look good hi before r a := by
  cases h with
  | done a _ h => exact .done a start (le.trans h)
  | load now _ h later => exact .load now start (le.trans h) later

/-- A reading in two parts has a store between them. -/
lemma Outcome.of_bind {r : Readout κ ν α} {f : α → Readout κ ν β} {b : β}
    (h : Outcome look good hi lo (r >>= f) b) :
    ∃ mid a, Outcome look good mid lo r a ∧ Outcome look good hi mid (f a) b := by
  induction r generalizing lo with
  | done a => exact ⟨lo, a, .done a h.start le_rfl, h⟩
  | load cell rest ih =>
    have hload : Outcome look good hi lo (.load cell fun v => rest v >>= f) b := h
    cases hload with
    | load now start le later =>
      obtain ⟨mid, a, hfirst, hsecond⟩ := ih _ later
      exact ⟨mid, a, .load now start le hfirst, hsecond⟩

lemma Outcome.of_pure {a b : α} (h : Outcome look good hi lo (pure a : Readout κ ν α) b) : a = b ∧ lo ≤ hi := by
  have hdone : Outcome look good hi lo (.done a) b := h
  cases hdone with
  | done _ _ le => exact ⟨rfl, le⟩

lemma Outcome.of_fetch {cell : κ} {v : ν} (h : Outcome look good hi lo (fetch cell : Readout κ ν ν) v) :
    ∃ now, good now ∧ lo ≤ now ∧ now ≤ hi ∧ look now cell = v := by
  cases h with
  | load now _ le later =>
    cases later with
    | done _ hnow hle => exact ⟨now, hnow, le, hle, rfl⟩

/-! ## Snapshots -/

/-- The cell held the value at some good store between two. -/
def HeldBetween (look : σ → κ → ν) (good : σ → Prop) (lo hi : σ) (cell : κ) (v : ν) : Prop :=
  ∃ now, good now ∧ lo ≤ now ∧ now ≤ hi ∧ look now cell = v

lemma HeldBetween.wider {lo' hi' : σ} {cell : κ} {v : ν} (h : HeldBetween look good lo hi cell v)
    (hlo : lo' ≤ lo) (hhi : hi ≤ hi') :
    HeldBetween look good lo' hi' cell v := by
  obtain ⟨now, hgood, hle, hge, heq⟩ := h
  exact ⟨now, hgood, hlo.trans hle, hge.trans hhi, heq⟩

/-- Every outcome of the reading is what it gives on one snapshot of these cells. -/
def Explained (look : σ → κ → ν) (good : σ → Prop) (cells : Set κ) (r : Readout κ ν α) : Prop :=
  ∀ lo hi a, good hi → Outcome look good hi lo r a →
    ∃ snap : κ → ν, (∀ cell ∈ cells, HeldBetween look good lo hi cell (snap cell)) ∧
      ∀ other : κ → ν, Set.EqOn other snap cells → r.eval other = a

variable {A B : Set κ}

lemma explained_pure (a : α) : Explained look good ∅ (pure a : Readout κ ν α) := by
  intro lo hi b _ h
  obtain ⟨rfl, -⟩ := h.of_pure
  refine ⟨look lo, fun cell hcell => absurd hcell (Set.notMem_empty cell), ?_⟩
  intro other _
  rfl

lemma explained_fetch (cell : κ) : Explained look good {cell} (fetch cell : Readout κ ν ν) := by
  intro lo hi v _ h
  obtain ⟨now, hgood, hle, hge, rfl⟩ := h.of_fetch
  refine ⟨look now, ?_, ?_⟩
  · intro other _
    exact ⟨now, hgood, hle, hge, rfl⟩
  · intro other heq
    exact heq (Set.mem_singleton cell)

/-- **Parts that load different cells** are explained together. -/
theorem Explained.bind {r : Readout κ ν α} {f : α → Readout κ ν β} (hr : Explained look good A r)
    (hf : ∀ a, Explained look good B (f a)) (apart : Disjoint A B) : Explained look good (A ∪ B) (r >>= f) := by
  classical
  intro lo hi b hhi h
  obtain ⟨mid, a, hfirst, hsecond⟩ := h.of_bind
  obtain ⟨s, hs, hevals⟩ := hr lo mid a hsecond.start hfirst
  obtain ⟨t, ht, hevalt⟩ := hf a mid hi b hhi hsecond
  refine ⟨A.piecewise s t, ?_, ?_⟩
  · rintro cell (hA | hB)
    · rw [Set.piecewise_eq_of_mem _ _ _ hA]
      exact (hs cell hA).wider le_rfl hsecond.le
    · rw [Set.piecewise_eq_of_notMem _ _ _ (Set.disjoint_right.mp apart hB)]
      exact (ht cell hB).wider hfirst.le le_rfl
  · intro other heq
    have hother : Set.EqOn other s A := by
      intro cell hA
      rw [heq (Or.inl hA), Set.piecewise_eq_of_mem _ _ _ hA]
    have hlater : Set.EqOn other t B := by
      intro cell hB
      rw [heq (Or.inr hB), Set.piecewise_eq_of_notMem _ _ _ (Set.disjoint_right.mp apart hB)]
    rw [eval_bind, hevals other hother, hevalt other hlater]

/-- What is done with a result loads nothing more. -/
lemma Explained.map {r : Readout κ ν α} (hr : Explained look good A r) (f : α → β) :
    Explained look good A (r >>= fun a => pure (f a)) := by
  have h := hr.bind (fun a => explained_pure (f a)) (Set.disjoint_empty A)
  rwa [Set.union_empty] at h

/-- Cells that are not loaded held something too. -/
lemma Explained.mono {r : Readout κ ν α} (hr : Explained look good A r) (sub : A ⊆ B) : Explained look good B r := by
  classical
  intro lo hi a hhi h
  obtain ⟨snap, hsnap, heval⟩ := hr lo hi a hhi h
  refine ⟨A.piecewise snap (look lo), ?_, ?_⟩
  · intro cell _
    by_cases hA : cell ∈ A
    · rw [Set.piecewise_eq_of_mem _ _ _ hA]
      exact hsnap cell hA
    · rw [Set.piecewise_eq_of_notMem _ _ _ hA]
      exact ⟨lo, h.start, le_rfl, h.le, rfl⟩
  · intro other heq
    apply heval
    intro cell hA
    rw [heq (sub hA), Set.piecewise_eq_of_mem _ _ _ hA]

lemma Explained.collect {f : β → Readout κ ν (List α)} (cells : β → Set κ) (items : List β)
    (hf : ∀ b ∈ items, Explained look good (cells b) (f b))
    (apart : items.Pairwise fun b c => Disjoint (cells b) (cells c)) :
    Explained look good {cell | ∃ b ∈ items, cell ∈ cells b} (collect f items) := by
  induction items with
  | nil =>
    have hempty : {cell | ∃ b ∈ ([] : List β), cell ∈ cells b} = (∅ : Set κ) := by simp
    rw [hempty]
    exact explained_pure []
  | cons b items ih =>
    rw [List.pairwise_cons] at apart
    have hrest := ih (fun c hc => hf c (List.mem_cons_of_mem b hc)) apart.2
    have hunion : {cell | ∃ c ∈ b :: items, cell ∈ cells c} =
        cells b ∪ {cell | ∃ c ∈ items, cell ∈ cells c} := by
      ext cell
      simp
    rw [hunion]
    refine (hf b List.mem_cons_self).bind (fun here => hrest.map (here ++ ·)) ?_
    rw [Set.disjoint_left]
    rintro cell hcell ⟨c, hc, hmem⟩
    exact Set.disjoint_left.mp (apart.1 c hc) hcell hmem

/-- **Looking twice.**  A reading that goes on to a second part over the same cells only if the first one found
something is explained by what the second part found, if what was found stays. -/
theorem Explained.recheck {r : Readout κ ν α} {P : α → Prop} [DecidablePred P] {body : Readout κ ν β} {otherwise : β}
    (hr : Explained look good A r) (hbody : Explained look good B body) (sub : A ⊆ B)
    (stays : ∀ lo mid hi a snap, Outcome look good mid lo r a → P a → good hi → mid ≤ hi →
      (∀ cell ∈ B, HeldBetween look good mid hi cell (snap cell)) → P (r.eval snap)) :
    Explained look good B (r >>= fun a => if P a then body else pure otherwise) := by
  intro lo hi b hhi h
  obtain ⟨mid, a, hfirst, hsecond⟩ := h.of_bind
  by_cases hP : P a
  · rw [if_pos hP] at hsecond
    obtain ⟨snap, hsnap, heval⟩ := hbody mid hi b hhi hsecond
    refine ⟨snap, fun cell hcell => (hsnap cell hcell).wider hfirst.le le_rfl, ?_⟩
    intro other heq
    have hheld : ∀ cell ∈ B, HeldBetween look good mid hi cell (other cell) := by
      intro cell hcell
      rw [heq hcell]
      exact hsnap cell hcell
    rw [eval_bind, if_pos (stays lo mid hi a other hfirst hP hhi hsecond.le hheld), heval other heq]
  · rw [if_neg hP] at hsecond
    have hmid := hsecond.start
    obtain ⟨rfl, hle⟩ := hsecond.of_pure
    obtain ⟨snap, hsnap, heval⟩ := hr.mono sub lo mid a hmid hfirst
    refine ⟨snap, fun cell hcell => (hsnap cell hcell).wider le_rfl hle, ?_⟩
    intro other heq
    rw [eval_bind, heval other heq, if_neg hP]
    rfl

/-! ## Readers among writers -/

/-- Where a reader stands; the stores at which it was begun and ended are kept beside it. -/
inductive Progress (σ κ ν α : Type)
  | idle
  | busy (opened : σ) (rest : Readout κ ν α)
  | ended (opened closed : σ) (result : α)

structure Watched (σ ρ κ ν α : Type) where
  store : σ
  readers : ρ → Progress σ κ ν α

inductive WatchedAction (ω ρ : Type)
  | write (w : ω)
  | begin (r : ρ)
  | load (r : ρ)

namespace Watched

variable [DecidableEq ρ]

omit [Preorder σ] in
/-- One write, or one load of one reader. -/
def step (look : σ → κ → ν) (write : σ → ω → Option σ) (program : ρ → Readout κ ν α)
    (s : Watched σ ρ κ ν α) : WatchedAction ω ρ → Option (Watched σ ρ κ ν α)
  | .write w => (write s.store w).map fun store => { s with store := store }
  | .begin r =>
    match s.readers r with
    | .idle => some { s with readers := Function.update s.readers r (.busy s.store (program r)) }
    | _ => none
  | .load r =>
    match s.readers r with
    | .busy opened (.load cell rest) =>
      some { s with readers := Function.update s.readers r (.busy opened (rest (look s.store cell))) }
    | .busy opened (.done a) =>
      some { s with readers := Function.update s.readers r (.ended opened s.store a) }
    | _ => none

variable {write : σ → ω → Option σ} {program : ρ → Readout κ ν α} {s s' : Watched σ ρ κ ν α}

omit [Preorder σ] in
/-- What a step may do. -/
lemma step_cases {a : WatchedAction ω ρ} (h : step look write program s a = some s') :
    (∃ w store, a = .write w ∧ write s.store w = some store ∧ s' = { s with store := store }) ∨
    (∃ r, s.readers r = .idle ∧
      s' = { s with readers := Function.update s.readers r (.busy s.store (program r)) }) ∨
    (∃ r opened cell rest, s.readers r = .busy opened (.load cell rest) ∧
      s' = { s with readers := Function.update s.readers r (.busy opened (rest (look s.store cell))) }) ∨
    (∃ r opened result, s.readers r = .busy opened (.done result) ∧
      s' = { s with readers := Function.update s.readers r (.ended opened s.store result) }) := by
  cases a with
  | write w =>
    rw [step, Option.map_eq_some_iff] at h
    obtain ⟨store, hwrite, rfl⟩ := h
    exact Or.inl ⟨w, store, rfl, hwrite, rfl⟩
  | begin r =>
    simp only [step] at h
    split at h
    case h_1 hidle => exact Or.inr (Or.inl ⟨r, hidle, (Option.some.inj h).symm⟩)
    case h_2 => cases h
  | load r =>
    simp only [step] at h
    split at h
    case h_1 opened cell rest hbusy =>
      exact Or.inr (Or.inr (Or.inl ⟨r, opened, cell, rest, hbusy, (Option.some.inj h).symm⟩))
    case h_2 opened result hbusy =>
      exact Or.inr (Or.inr (Or.inr ⟨r, opened, result, hbusy, (Option.some.inj h).symm⟩))
    case h_3 => cases h

/-- What is known of a reader: whatever it may still end with it may have ended with from the start, and the stores
kept beside it are good ones, the first no earlier than `since`. -/
def Follows (look : σ → κ → ν) (good : σ → Prop) (store since : σ) (program : Readout κ ν α) : Progress σ κ ν α → Prop
  | .idle => since ≤ store
  | .busy opened rest => (good opened ∧ since ≤ opened ∧ opened ≤ store) ∧
    ∀ hi result, Outcome look good hi store rest result → Outcome look good hi opened program result
  | .ended opened closed result => since ≤ opened ∧ (good closed ∧ closed ≤ store) ∧
    Outcome look good closed opened program result

/-- A write leaves what is known of a reader as it is. -/
lemma Follows.raise {store later since : σ} {r : Readout κ ν α} {p : Progress σ κ ν α} (start : good store)
    (h : Follows look good store since r p) (le : store ≤ later) : Follows look good later since r p := by
  cases p with
  | idle => exact le_trans (α := σ) h le
  | busy opened rest =>
    obtain ⟨⟨hgood, hsince, hopened⟩, houtcome⟩ := h
    exact ⟨⟨hgood, hsince, hopened.trans le⟩, fun hi result hout => houtcome hi result (hout.earlier start le)⟩
  | ended opened closed result =>
    obtain ⟨hopened, ⟨hgood, hclosed⟩, houtcome⟩ := h
    exact ⟨hopened, ⟨hgood, hclosed.trans le⟩, houtcome⟩

/-- **One step**, where no write goes down. -/
lemma Follows.step {since : σ} {a : WatchedAction ω ρ} {r : ρ} (hgood : good s.store)
    (hr : Follows look good s.store since (program r) (s.readers r))
    (up : ∀ w store, a = .write w → write s.store w = some store → s.store ≤ store)
    (h : step look write program s a = some s') : Follows look good s'.store since (program r) (s'.readers r) := by
  have hmoved : ∀ r' p, (r = r' → Follows look good s.store since (program r) p) →
      Follows look good s.store since (program r) (Function.update s.readers r' p r) := by
    intro r' p hp
    by_cases heq : r = r'
    · subst heq
      rw [Function.update_self]
      exact hp rfl
    · rwa [Function.update_of_ne heq]
  rcases step_cases h with ⟨w, store, ha, hwrite, rfl⟩ | ⟨r', hidle, rfl⟩ | ⟨r', opened, cell, rest, hbusy, rfl⟩ |
    ⟨r', opened, result, hbusy, rfl⟩
  · exact hr.raise hgood (up w store ha hwrite)
  · apply hmoved
    rintro rfl
    rw [hidle] at hr
    exact ⟨⟨hgood, hr, le_rfl⟩, fun hi result hout => hout⟩
  · apply hmoved
    rintro rfl
    rw [hbusy] at hr
    obtain ⟨hopened, houtcome⟩ := hr
    exact ⟨hopened, fun hi result hout => houtcome hi result (.load s.store hgood le_rfl hout)⟩
  · apply hmoved
    rintro rfl
    rw [hbusy] at hr
    obtain ⟨⟨-, hsince, -⟩, houtcome⟩ := hr
    exact ⟨hsince, ⟨hgood, le_rfl⟩, houtcome _ _ (.done result hgood le_rfl)⟩

variable {ok : Watched σ ρ κ ν α → WatchedAction ω ρ → Prop} {s₀ : Watched σ ρ κ ν α}

omit [Preorder σ] in
/-- Stores stay good if every write keeps them so. -/
lemma good_step {a : WatchedAction ω ρ} (hgood : good s.store)
    (keeps : ∀ w store, a = .write w → write s.store w = some store → good store)
    (h : step look write program s a = some s') : good s'.store := by
  rcases step_cases h with ⟨w, store, ha, hwrite, rfl⟩ | ⟨_, _, rfl⟩ | ⟨_, _, _, _, _, rfl⟩ | ⟨_, _, _, _, rfl⟩
  · exact keeps w store ha hwrite
  all_goals exact hgood

omit [Preorder σ] in
lemma good_of_run (good : σ → Prop) (start : good s₀.store)
    (keeps : ∀ s w store, good s.store → ok s (.write w) → write s.store w = some store → good store)
    (run : Reaches (step look write program) ok s₀ s) : good s.store := by
  apply run.invariant (I := fun t => good t.store) start
  intro t a t' hgood hok htaken
  apply good_step hgood _ htaken
  rintro w store rfl hwrite
  exact keeps t w store hgood hok hwrite

/-- **Readers among writers.**  Where every write goes up and keeps the store good, a reader that was idle in a state
and has ended in a later one was begun at a good store no lower than that state's, ended at a good one no higher than
the later state's, and its result is an outcome between the two. -/
theorem ended_outcome (good : σ → Prop) (start : good s₀.store)
    (up : ∀ s w store, good s.store → ok s (.write w) → write s.store w = some store → good store ∧ s.store ≤ store)
    (run : Reaches (step look write program) ok s₀ s) {r : ρ} (idle : s₀.readers r = .idle) {opened closed : σ}
    {result : α} (ended : s.readers r = .ended opened closed result) :
    s₀.store ≤ opened ∧ (good closed ∧ closed ≤ s.store) ∧ Outcome look good closed opened (program r) result := by
  have hstart : Follows look good s₀.store s₀.store (program r) (s₀.readers r) := by
    rw [idle]
    exact le_refl s₀.store
  have hfollows : good s.store ∧ Follows look good s.store s₀.store (program r) (s.readers r) := by
    apply run.invariant (I := fun t => good t.store ∧ Follows look good t.store s₀.store (program r) (t.readers r))
      ⟨start, hstart⟩
    rintro t a t' ⟨hgood, ht⟩ hok htaken
    have hup : ∀ w store, a = .write w → write t.store w = some store → good store ∧ t.store ≤ store := by
      rintro w store rfl hwrite
      exact up t w store hgood hok hwrite
    exact ⟨good_step hgood (fun w store ha hwrite => (hup w store ha hwrite).1) htaken,
      ht.step hgood (fun w store ha hwrite => (hup w store ha hwrite).2) htaken⟩
  have h := hfollows.2
  rw [ended] at h
  exact h

omit [Preorder σ] in
/-- A reader that is left alone ends, with what the reading gives on the cells as they are. -/
theorem reaches_ended (run : Reaches (step look write program) ok s₀ s) {r : ρ} {opened : σ} {rest : Readout κ ν α}
    (busy : s.readers r = .busy opened rest) (free : ∀ s, ok s (.load r)) :
    ∃ s', Reaches (step look write program) ok s₀ s' ∧ s'.store = s.store ∧
      s'.readers r = .ended opened s.store (rest.eval (look s.store)) ∧
        ∀ r', r' ≠ r → s'.readers r' = s.readers r' := by
  have hnext : ∀ p, step look write program s (.load r) = some { s with readers := Function.update s.readers r p } →
      Reaches (step look write program) ok s₀ { s with readers := Function.update s.readers r p } :=
    fun p htaken => run.next (.load r) (free s) htaken
  have hself : ∀ p, Function.update s.readers r p r = p := fun p => Function.update_self ..
  have hother : ∀ p r', r' ≠ r → Function.update s.readers r p r' = s.readers r' :=
    fun p r' hne => Function.update_of_ne hne ..
  induction rest generalizing s with
  | done a =>
    exact ⟨_, hnext (.ended opened s.store a) (by simp only [step, busy]), rfl, hself _, hother _⟩
  | load cell rest ih =>
    have hrun := hnext (.busy opened (rest (look s.store cell))) (by simp only [step, busy])
    obtain ⟨s', hlater, hstore, hended, hothers⟩ := ih (look s.store cell) hrun (hself _)
      (fun p htaken => hrun.next (.load r) (free _) htaken) (fun p => Function.update_self ..)
      (fun p r' hne => Function.update_of_ne hne ..)
    refine ⟨s', hlater, hstore, hended, ?_⟩
    intro r' hne
    rw [hothers r' hne]
    exact hother _ r' hne

end Watched

end Readings
