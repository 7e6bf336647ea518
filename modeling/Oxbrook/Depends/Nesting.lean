import Mathlib.Data.List.Range
import Oxbrook.Depends.Resolve

/-!
# Dependencies are finished like nested blocks

Two facts carry the results.  While dependencies are resolved, the stack holds the generators that have yielded, the
last one on top, and nothing was raised (`Opening`).  And a dependency that was called for a marker with a cache is in
the cache, or else an exception is on its way (`Once`): the graph has no cycle, so that resolving the dependencies of
a callable cannot call it.

Finishing is a fold over the stack.  A generator sees the exception that was raised last, and where it raises none
itself that exception stands.
-/

namespace Oxbrook

open Attempt

variable {ι ν ε ρ : Type}

/-! ## Logs -/

namespace DependsLog

variable (log : DependsLog ι ε ρ) (event : DependsEvent ι ε ρ)

lemma cachedRuns_concat : cachedRuns (log ++ [event]) = log.cachedRuns ++ event.cachedRun?.toList := by
  cases h : event.cachedRun? <;> simp [cachedRuns, h]

lemma yields_concat : yields (log ++ [event]) = log.yields ++ event.yield?.toList := by
  cases h : event.yield? <;> simp [yields, h]

lemma resumptions_concat : resumptions (log ++ [event]) = log.resumptions ++ event.resumption?.toList := by
  cases h : event.resumption? <;> simp [resumptions, h]

lemma lastRaised_concat : lastRaised (log ++ [event]) = event.exception?.or log.lastRaised := by
  cases h : event.exception? <;> simp [lastRaised, h]

end DependsLog

namespace Route

variable (r : Route ι ν ε ρ)

/-! ## Invariants of resolving -/

/-- `P` is kept by what happens while a dependency is resolved, and `R` holds where it raises. -/
structure Stable (P : Scope ι ν ε ρ → Prop) (R : ε → Scope ι ν ε ρ → Prop) : Prop where
  ran : ∀ s fn cached, P s → P (s.note (.ran fn cached))
  push : ∀ s fn kind, P s → P (s.push fn kind)
  store : ∀ s marker value, P s → P (s.store marker value)
  fail : ∀ s e, P s → R e (s.note (.raised .setup e))

/-- An invariant of resolving one dependency is one of resolving each of a list. -/
lemma meets_resolveEach {P : Scope ι ν ε ρ → Prop} {R : ε → Scope ι ν ε ρ → Prop}
    {resolve : Marker ι → Resolving ι ν ε ρ ν} {markers : List (Marker ι)}
    (h : ∀ marker ∈ markers, Meets P (resolve marker) (fun _ => P) R) :
    Meets P (resolveEach resolve markers) (fun _ => P) R := by
  induction markers with
  | nil => exact Meets.pure fun s hs => hs
  | cons marker rest ih =>
    obtain ⟨hmarker, hrest⟩ := List.forall_mem_cons.mp h
    apply Meets.bind hmarker
    intro value
    apply Meets.bind (ih hrest)
    intro others
    exact Meets.pure fun s hs => hs

namespace Stable

variable {P : Scope ι ν ε ρ → Prop} {R : ε → Scope ι ν ε ρ → Prop} (h : Stable P R)

include h

lemma begin (fn : ι) (kind : GeneratorKind) (first : FirstStep ν ε) :
    Meets P (r.begin fn kind first) (fun _ => P) R := by
  cases first with
  | yields v =>
    intro s hs
    exact h.push s fn kind hs
  | raises e =>
    intro s hs
    exact h.fail s e hs
  | returns =>
    intro s hs
    exact h.fail s _ hs

lemma produce (marker : Marker ι) (kwargs : List ν) : Meets P (r.produce marker kwargs) (fun _ => P) R := by
  refine Meets.bind (Q := fun _ => P) (fun s hs => h.ran s _ _ hs) ?_
  intro _
  apply Meets.get_bind
  intro t
  apply Meets.weaken _ (fun s hs => hs.1) (fun _ _ => id)
  cases r.call t.log marker.dependency kwargs with
  | value v => exact Meets.pure fun s hs => hs
  | raised e =>
    intro s hs
    exact h.fail s e hs
  | generator kind first => exact h.begin r _ kind first

theorem resolve [DecidableEq ι] (levels : ℕ) (marker : Marker ι) :
    Meets P (r.resolve levels marker) (fun _ => P) R := by
  induction levels generalizing marker with
  | zero =>
    intro s hs
    exact h.fail s _ hs
  | succ levels ih =>
    apply Meets.get_bind
    intro t
    apply Meets.weaken _ (fun s hs => hs.1) (fun _ _ => id)
    cases cached marker t with
    | some value => exact Meets.pure fun s hs => hs
    | none =>
      apply Meets.bind (meets_resolveEach fun sub _ => ih sub)
      intro kwargs
      apply Meets.bind (h.produce r marker kwargs)
      intro value s hs
      exact h.store s marker value hs

end Stable

/-! ## Setting up -/

/-- The generators that have yielded are on the stack, and none was resumed. -/
structure Opening (s : Scope ι ν ε ρ) : Prop where
  ids : s.stack.map Generator.id = (List.range s.stack.length).reverse
  yields : s.log.yields = List.range s.stack.length
  untouched : s.log.resumptions = []
  teardown : s.stack ≠ [] → s.teardown = true

/-- Nothing was raised yet. -/
def Going (s : Scope ι ν ε ρ) : Prop := Opening s ∧ s.log.lastRaised = none

/-- `e` was raised last. -/
def Failed (e : ε) (s : Scope ι ν ε ρ) : Prop := Opening s ∧ s.log.lastRaised = some e

/-- The log grows by something that is neither a yield nor a resumption. -/
lemma Opening.note {s : Scope ι ν ε ρ} {event : DependsEvent ι ε ρ} (h : Opening s) (hyield : event.yield? = none)
    (hresumed : event.resumption? = none) : Opening (s.note event) where
  ids := h.ids
  yields := by
    rw [Scope.note, DependsLog.yields_concat, hyield, h.yields]
    simp
  untouched := by
    rw [Scope.note, DependsLog.resumptions_concat, hresumed, h.untouched]
    simp
  teardown := h.teardown

lemma Opening.push {s : Scope ι ν ε ρ} (h : Opening s) (fn : ι) (kind : GeneratorKind) : Opening (s.push fn kind) where
  ids := by
    change s.stack.length :: s.stack.map Generator.id = _
    rw [h.ids]
    simp [Scope.push, List.range_succ]
  yields := by
    rw [Scope.push, DependsLog.yields_concat, h.yields]
    simp [DependsEvent.yield?, List.range_succ]
  untouched := by
    rw [Scope.push, DependsLog.resumptions_concat, h.untouched]
    rfl
  teardown _ := rfl

lemma Going.note {s : Scope ι ν ε ρ} {event : DependsEvent ι ε ρ} (h : Going s) (hyield : event.yield? = none)
    (hresumed : event.resumption? = none) (hquiet : event.exception? = none) : Going (s.note event) := by
  refine ⟨h.1.note hyield hresumed, ?_⟩
  rw [Scope.note, DependsLog.lastRaised_concat, hquiet, h.2]
  rfl

lemma Going.fail {s : Scope ι ν ε ρ} (h : Going s) (source : RaisedBy) (e : ε) :
    Failed e (s.note (.raised source e)) := by
  refine ⟨h.1.note rfl rfl, ?_⟩
  rw [Scope.note, DependsLog.lastRaised_concat]
  rfl

lemma going_stable : Stable (Going : Scope ι ν ε ρ → Prop) Failed where
  ran s fn cached hs := hs.note rfl rfl rfl
  push s fn kind hs := by
    refine ⟨hs.1.push fn kind, ?_⟩
    rw [Scope.push, DependsLog.lastRaised_concat, hs.2]
    rfl
  store s marker value hs := by
    unfold Scope.store
    split
    · exact ⟨⟨hs.1.ids, hs.1.yields, hs.1.untouched, hs.1.teardown⟩, hs.2⟩
    · exact hs
  fail s e hs := hs.fail .setup e

lemma going_new : Going (.new : Scope ι ν ε ρ) := ⟨⟨rfl, rfl, rfl, fun h => absurd rfl h⟩, rfl⟩

lemma meets_checkResult (result : ρ) : Meets Going (r.checkResult result) (fun _ => Going) Failed := by
  refine Meets.bind (Q := fun _ => Going) (fun s hs => hs.note rfl rfl rfl) ?_
  intro _
  apply Meets.get_bind
  intro t
  apply Meets.weaken _ (fun s hs => hs.1) (fun _ _ => id)
  split
  · cases r.encodes result with
    | ok _ => exact Meets.pure fun s hs => hs
    | error e =>
      intro s hs
      exact hs.fail .encoding e
  · exact Meets.pure fun s hs => hs

section

variable [DecidableEq ι]

lemma meets_body : Meets Going r.body (fun _ => Going) Failed := by
  apply Meets.bind (meets_resolveEach fun marker _ => going_stable.resolve r maxLevels marker)
  intro params
  apply Meets.get_bind
  intro t
  apply Meets.weaken _ (fun s hs => hs.1) (fun _ _ => id)
  cases r.handler t.log params with
  | ok result => exact r.meets_checkResult result
  | error e =>
    intro s hs
    exact hs.fail .handler e

/-! ## The cache -/

/-- What was called for a marker with a cache was called once, and is in the cache. -/
structure Once (s : Scope ι ν ε ρ) : Prop where
  nodup : s.log.cachedRuns.Nodup
  cached : ∀ fn ∈ s.log.cachedRuns, fn ∈ s.cache.map Prod.fst

/-- `Once`, with nothing in the cache that is to stay out of it. -/
def OnceWithout (A : ι → Prop) (s : Scope ι ν ε ρ) : Prop := Once s ∧ ∀ fn, A fn → fn ∉ s.cache.map Prod.fst

/-- After an exception the cache is not looked at again. -/
def CalledOnce (_ : ε) (s : Scope ι ν ε ρ) : Prop := s.log.cachedRuns.Nodup

omit [DecidableEq ι] in
lemma calledOnce_fail {β : Type} {P : Scope ι ν ε ρ → Prop} {Q : β → Scope ι ν ε ρ → Prop} (source : RaisedBy) (e : ε)
    (h : ∀ s, P s → s.log.cachedRuns.Nodup) :
    Meets P (fail source e) Q CalledOnce := by
  intro s hs
  change (DependsLog.cachedRuns (s.log ++ [.raised source e])).Nodup
  rw [DependsLog.cachedRuns_concat]
  simpa [DependsEvent.cachedRun?] using h s hs

omit [DecidableEq ι] in
/-- A yield changes neither the cache nor what was called. -/
lemma meets_begin_of_push {P : Scope ι ν ε ρ → Prop} (h : ∀ s, P s → s.log.cachedRuns.Nodup)
    (hpush : ∀ s fn kind, P s → P (s.push fn kind)) (fn : ι) (kind : GeneratorKind) (first : FirstStep ν ε) :
    Meets P (r.begin fn kind first) (fun _ => P) CalledOnce := by
  cases first with
  | yields v =>
    intro s hs
    exact hpush s fn kind hs
  | raises e => exact calledOnce_fail _ e h
  | returns => exact calledOnce_fail _ _ h

/-- A dependency was called, and its value is not yet in the cache. -/
structure Called (A : ι → Prop) (marker : Marker ι) (s : Scope ι ν ε ρ) : Prop where
  nodup : s.log.cachedRuns.Nodup
  cached : ∀ fn ∈ s.log.cachedRuns,
    fn ∈ s.cache.map Prod.fst ∨ marker.useCache = true ∧ fn = marker.dependency
  without : ∀ fn, A fn → fn ∉ s.cache.map Prod.fst

/-- To be left out of the cache: what was to be left out before, and what is about to be called. -/
def Barred (A : ι → Prop) (marker : Marker ι) (fn : ι) : Prop :=
  A fn ∨ marker.useCache = true ∧ fn = marker.dependency

section

omit [DecidableEq ι]

variable {A : ι → Prop} {marker : Marker ι} {s : Scope ι ν ε ρ}

lemma OnceWithout.ran (h : OnceWithout (Barred A marker) s) :
    Called A marker (s.note (.ran marker.dependency marker.useCache)) := by
  obtain ⟨⟨hnodup, hcached⟩, hwithout⟩ := h
  have hout : ∀ fn, A fn → fn ∉ s.cache.map Prod.fst := fun fn hfn => hwithout fn (.inl hfn)
  cases huse : marker.useCache with
  | false =>
    have hlog : (s.note (.ran marker.dependency false)).log.cachedRuns = s.log.cachedRuns := by
      rw [Scope.note, DependsLog.cachedRuns_concat]
      simp [DependsEvent.cachedRun?]
    refine ⟨?_, ?_, hout⟩
    · rw [hlog]
      exact hnodup
    · rw [hlog]
      exact fun fn hfn => .inl (hcached fn hfn)
  | true =>
    have hlog : (s.note (.ran marker.dependency true)).log.cachedRuns =
        s.log.cachedRuns ++ [marker.dependency] := by
      rw [Scope.note, DependsLog.cachedRuns_concat]
      rfl
    have hnew : marker.dependency ∉ s.log.cachedRuns := fun hmem =>
      hwithout marker.dependency (.inr ⟨huse, rfl⟩) (hcached _ hmem)
    refine ⟨?_, ?_, hout⟩
    · rw [hlog]
      exact (List.perm_append_singleton _ _).nodup_iff.mpr (List.nodup_cons.mpr ⟨hnew, hnodup⟩)
    · rw [hlog]
      intro fn hfn
      obtain hold | hlast := List.mem_append.mp hfn
      · exact .inl (hcached fn hold)
      · exact .inr ⟨huse, List.mem_singleton.mp hlast⟩

lemma Called.push (h : Called A marker s) (fn : ι) (kind : GeneratorKind) : Called A marker (s.push fn kind) := by
  have hlog : (s.push fn kind).log.cachedRuns = s.log.cachedRuns := by
    rw [Scope.push, DependsLog.cachedRuns_concat]
    simp [DependsEvent.cachedRun?]
  exact ⟨hlog ▸ h.nodup, hlog ▸ h.cached, h.without⟩

lemma Called.store (h : Called A marker s) (hself : ∀ fn, A fn → fn ≠ marker.dependency) (value : ν) :
    OnceWithout A (s.store marker value) := by
  cases huse : marker.useCache with
  | false =>
    simp only [Scope.store, huse, Bool.false_eq_true, if_false]
    refine ⟨⟨h.nodup, ?_⟩, h.without⟩
    intro fn hfn
    simpa [huse] using h.cached fn hfn
  | true =>
    simp only [Scope.store, huse, if_true]
    refine ⟨⟨h.nodup, ?_⟩, ?_⟩
    · intro fn hfn
      obtain hold | ⟨_, rfl⟩ := h.cached fn hfn
      · exact List.mem_cons_of_mem _ hold
      · exact List.mem_cons_self
    · intro fn hfn hmem
      obtain heq | hold := List.mem_cons.mp hmem
      · exact hself fn hfn heq
      · exact h.without fn hfn hold

lemma calledOnce_produce (kwargs : List ν) :
    Meets (OnceWithout (Barred A marker)) (r.produce marker kwargs) (fun _ => Called A marker) CalledOnce := by
  refine Meets.bind (Q := fun _ => Called A marker) (fun s hs => hs.ran) ?_
  intro _
  apply Meets.get_bind
  intro t
  apply Meets.weaken _ (fun s hs => hs.1) (fun _ _ => id)
  cases r.call t.log marker.dependency kwargs with
  | value v => exact Meets.pure fun s hs => hs
  | raised e => exact calledOnce_fail _ e fun s hs => hs.nodup
  | generator kind first =>
    exact r.meets_begin_of_push (fun s hs => hs.nodup) (fun s fn kind hs => hs.push fn kind) _ kind first

end

/-- Resolving a dependency leaves alone what ranks above it. -/
lemma calledOnce_resolve (levels : ℕ) (marker : Marker ι) (A : ι → Prop)
    (habove : ∀ fn, A fn → r.rank marker.dependency < r.rank fn) :
    Meets (OnceWithout A) (r.resolve levels marker) (fun _ => OnceWithout A) CalledOnce := by
  induction levels generalizing marker A with
  | zero => exact calledOnce_fail _ _ fun s hs => hs.1.nodup
  | succ levels ih =>
    apply Meets.get_bind
    intro t
    cases hcached : cached marker t with
    | some value =>
      apply Meets.weaken _ (fun s hs => hs.1) (fun _ _ => id)
      exact Meets.pure fun s hs => hs
    | none =>
      -- what is not in the cache stays out of it until it is stored
      have hbarred : ∀ s : Scope ι ν ε ρ, OnceWithout A s ∧ s = t → OnceWithout (Barred A marker) s := by
        rintro s ⟨⟨honce, hwithout⟩, rfl⟩
        refine ⟨honce, ?_⟩
        rintro fn (hfn | ⟨huse, rfl⟩)
        · exact hwithout fn hfn
        · rw [cached, if_pos huse, List.lookup_eq_none_iff] at hcached
          intro hmem
          obtain ⟨item, hitem, heq⟩ := List.mem_map.mp hmem
          simpa [heq] using hcached item hitem
      apply Meets.weaken _ hbarred (fun _ _ => id)
      apply Meets.bind (Q := fun _ => OnceWithout (Barred A marker))
      · apply meets_resolveEach
        intro sub hsub
        apply ih
        have hrank := r.descends _ sub hsub
        rintro fn (hfn | ⟨_, rfl⟩)
        · exact hrank.trans (habove fn hfn)
        · exact hrank
      · intro kwargs
        apply Meets.bind (r.calledOnce_produce kwargs)
        intro value s hs
        refine hs.store ?_ value
        rintro fn hfn rfl
        exact lt_irrefl _ (habove _ hfn)

omit [DecidableEq ι] in
lemma onceWithout_new : OnceWithout (fun _ => False) (.new : Scope ι ν ε ρ) := by
  refine ⟨⟨List.nodup_nil, ?_⟩, ?_⟩
  · intro fn hfn
    cases hfn
  · intro fn hfn
    exact hfn.elim

lemma calledOnce_body : Meets (OnceWithout fun _ => False) r.body (fun _ s => s.log.cachedRuns.Nodup) CalledOnce := by
  apply Meets.bind (meets_resolveEach fun marker _ => r.calledOnce_resolve maxLevels marker _ fun _ hfn => hfn.elim)
  intro params
  apply Meets.get_bind
  intro t
  cases r.handler t.log params with
  | error e => exact calledOnce_fail _ e fun s hs => hs.1.1.nodup
  | ok result =>
    refine Meets.bind (Q := fun _ s => s.log.cachedRuns.Nodup) ?_ ?_
    · intro s hs
      change (DependsLog.cachedRuns (s.log ++ [.returned result])).Nodup
      rw [DependsLog.cachedRuns_concat]
      simpa [DependsEvent.cachedRun?] using hs.1.1.nodup
    · intro _
      apply Meets.get_bind
      intro t'
      apply Meets.weaken _ (fun s hs => hs.1) (fun _ _ => id)
      split
      · cases r.encodes result with
        | ok _ => exact Meets.pure fun s hs => hs
        | error e => exact calledOnce_fail _ e fun s hs => hs
      · exact Meets.pure fun s hs => hs

end

/-! ## Tearing down -/

/-- Each generator saw the exception that had been raised last. -/
def Told (log : DependsLog ι ε ρ) : Prop :=
  ∀ (before : DependsLog ι ε ρ) g exc after, log = before ++ .resumed g exc :: after → exc = before.lastRaised

lemma told_concat {log : DependsLog ι ε ρ} {event : DependsEvent ι ε ρ} (h : Told log)
    (hevent : ∀ g exc, event = .resumed g exc → exc = log.lastRaised) : Told (log ++ [event]) := by
  intro before g exc after heq
  rcases List.eq_nil_or_concat after with rfl | ⟨rest, last, rfl⟩
  · obtain ⟨rfl, hlast⟩ := List.append_inj' heq rfl
    exact hevent g exc (List.singleton_inj.mp hlast)
  · rw [List.concat_eq_append, ← List.cons_append, ← List.append_assoc] at heq
    exact h before g exc rest (List.append_inj' heq rfl).1

lemma told_of_untouched {log : DependsLog ι ε ρ} (h : log.resumptions = []) : Told log := by
  rintro before g exc after rfl
  simp [DependsLog.resumptions, DependsEvent.resumption?] at h

/-- In the middle of the teardown that began in `start`: the exception on its way is the one raised last, and the
generators that are left are those not yet resumed. -/
structure Closing (start : Scope ι ν ε ρ) (rest : List (Generator ι)) (exc : Option ε) (s : Scope ι ν ε ρ) :
    Prop where
  told : Told s.log
  raised : exc = s.log.lastRaised
  grown : start.log <+: s.log
  yields : s.log.yields = start.log.yields
  runs : s.log.cachedRuns = start.log.cachedRuns
  resumed : s.log.resumptions ++ rest.map Generator.id = start.stack.map Generator.id
  returned : ∀ result, .returned result ∈ s.log → .returned result ∈ start.log

section

variable {start s : Scope ι ν ε ρ} {rest : List (Generator ι)} {exc : Option ε}

lemma Closing.returned_note (h : Closing start rest exc s) (event : DependsEvent ι ε ρ)
    (hevent : ∀ result, .returned result ≠ event) :
    ∀ result, .returned result ∈ (s.note event).log → .returned result ∈ start.log := by
  intro result hmem
  obtain hold | hnew := List.mem_append.mp hmem
  · exact h.returned result hold
  · exact absurd (List.mem_singleton.mp hnew) (hevent result)

/-- The log grows by something that is neither a call, a yield, a resumption nor a result. -/
lemma Closing.note (h : Closing start rest exc s) (event : DependsEvent ι ε ρ) (hyield : event.yield? = none)
    (hrun : event.cachedRun? = none) (hresumed : event.resumption? = none)
    (hreturned : ∀ result, .returned result ≠ event) :
    Closing start rest (event.exception?.or exc) (s.note event) where
  told := by
    apply told_concat h.told
    rintro g exc rfl
    cases hresumed
  raised := by
    rw [Scope.note, DependsLog.lastRaised_concat, ← h.raised]
  grown := h.grown.trans (List.prefix_append _ _)
  yields := by
    rw [Scope.note, DependsLog.yields_concat, hyield, h.yields]
    simp
  runs := by
    rw [Scope.note, DependsLog.cachedRuns_concat, hrun, h.runs]
    simp
  resumed := by
    rw [Scope.note, DependsLog.resumptions_concat, hresumed]
    simpa using h.resumed
  returned := h.returned_note event hreturned

lemma Closing.resume {g : Generator ι} (h : Closing start (g :: rest) exc s) :
    Closing start rest exc (s.note (.resumed g.id exc)) where
  told := by
    apply told_concat h.told
    rintro g' exc' heq
    cases heq
    exact h.raised
  raised := by
    rw [Scope.note, DependsLog.lastRaised_concat, ← h.raised]
    rfl
  grown := h.grown.trans (List.prefix_append _ _)
  yields := by
    rw [Scope.note, DependsLog.yields_concat, h.yields]
    simp [DependsEvent.yield?]
  runs := by
    rw [Scope.note, DependsLog.cachedRuns_concat, h.runs]
    simp [DependsEvent.cachedRun?]
  resumed := by
    rw [Scope.note, DependsLog.resumptions_concat]
    simpa [DependsEvent.resumption?] using h.resumed
  returned := h.returned_note _ (by simp)

lemma closing_fail (source : RaisedBy) (e : ε) {Q : Unit → Scope ι ν ε ρ → Prop} :
    Meets (Closing start rest exc) (fail source e) Q (fun e => Closing start rest (some e)) := by
  intro s hs
  exact hs.note (.raised source e) rfl rfl rfl (by simp)

end

variable [DecidableEq ε]

/-- One generator is resumed.  Its exception, if it raises a new one, is the one that the next sees. -/
lemma closing_finish (start : Scope ι ν ε ρ) (g : Generator ι) (rest : List (Generator ι)) (exc : Option ε) :
    Meets (Closing start (g :: rest) exc) (r.finish g exc) (fun _ => Closing start rest exc)
      (fun e => Closing start rest (some e)) := by
  refine Meets.bind (Q := fun _ => Closing start rest exc) (fun s hs => hs.resume) ?_
  intro _
  apply Meets.get_bind
  intro t
  apply Meets.weaken _ (fun s hs => hs.1) (fun _ _ => id)
  cases r.resume t.log g exc with
  | stops => exact Meets.pure fun s hs => hs
  | raises e =>
    dsimp only
    split
    · exact Meets.pure fun s hs => hs
    · exact closing_fail _ e
  | yields closing =>
    refine Meets.bind (Q := fun _ => Closing start rest exc) (fun s hs => hs.note (.closed g.id) rfl rfl rfl (by simp)) ?_
    intro _
    exact closing_fail _ _

lemma closing_unwind {start : Scope ι ν ε ρ} (rest : List (Generator ι)) (exc : Option ε) (s : Scope ι ν ε ρ)
    (h : Closing start rest exc s) : Closing start [] (r.unwind rest exc s).1 (r.unwind rest exc s).2 := by
  induction rest generalizing exc s with
  | nil => exact h
  | cons g rest ih =>
    unfold unwind
    have hfinish := r.closing_finish start g rest exc
    cases hrun : (r.finish g exc).run s with
    | ok _ s' => exact ih exc s' (hfinish.ok h hrun)
    | error e s' => exact ih (some e) s' (hfinish.error h hrun)

/-- A generator that swallows an exception does not make a success of a failure. -/
lemma unwind_isSome (rest : List (Generator ι)) (e : ε) (s : Scope ι ν ε ρ) :
    (r.unwind rest (some e) s).1.isSome = true := by
  induction rest generalizing e s with
  | nil => rfl
  | cons g rest ih =>
    unfold unwind
    cases (r.finish g (some e)).run s with
    | ok _ s' => exact ih e s'
    | error e' s' => exact ih e' s'

/-! ## The results -/

omit [DecidableEq ε] in
lemma Opening.closing {s : Scope ι ν ε ρ} {exc : Option ε} (h : Opening s) (hexc : exc = s.log.lastRaised) :
    Closing s s.stack exc s where
  told := told_of_untouched h.untouched
  raised := hexc
  grown := List.prefix_rfl
  yields := rfl
  runs := rfl
  resumed := by
    rw [h.untouched]
    rfl
  returned _ := id

/-- A request as nested blocks run it: a dependency with a cache is called once; the generators that yielded are
resumed once, in reverse, after the last of them has yielded; each is told the exception that was raised last; and
this is the one that leaves, if any was raised. -/
structure Nested (outcome : Except ε ρ) (log : DependsLog ι ε ρ) : Prop where
  runs : log.cachedRuns.Nodup
  yields : log.yields.Nodup
  resumed : log.resumptions = log.yields.reverse
  apart : ∃ opening closing : DependsLog ι ε ρ,
    log = opening ++ closing ∧ opening.resumptions = [] ∧ closing.yields = []
  told : ∀ (before : DependsLog ι ε ρ) g exc after, log = before ++ .resumed g exc :: after → exc = before.lastRaised
  returned : ∀ result, outcome = .ok result → .returned result ∈ log ∧ log.lastRaised = none
  raised : ∀ e, outcome = .error e → log.lastRaised = some e

omit [DecidableEq ε] in
/-- A teardown that is through. -/
lemma Closing.nested {start s : Scope ι ν ε ρ} {exc : Option ε} {outcome : Except ε ρ} (h : Closing start [] exc s)
    (hopen : Opening start) (hruns : start.log.cachedRuns.Nodup)
    (hreturned : ∀ result, outcome = .ok result → .returned result ∈ start.log ∧ exc = none)
    (hraised : ∀ e, outcome = .error e → exc = some e) : Nested outcome s.log where
  runs := by
    rw [h.runs]
    exact hruns
  yields := by
    rw [h.yields, hopen.yields]
    exact List.nodup_range
  resumed := by
    have hresumed := h.resumed
    rw [List.map_nil, List.append_nil] at hresumed
    rw [hresumed, hopen.ids, h.yields, hopen.yields]
  apart := by
    obtain ⟨closing, hclosing⟩ := h.grown
    refine ⟨start.log, closing, hclosing.symm, hopen.untouched, ?_⟩
    have hyields := h.yields
    rw [← hclosing, DependsLog.yields, List.filterMap_append] at hyields
    exact List.append_right_eq_self.mp hyields
  told := h.told
  returned := by
    intro result hresult
    obtain ⟨hmem, hexc⟩ := hreturned result hresult
    exact ⟨h.grown.subset hmem, by rw [← h.raised, hexc]⟩
  raised := by
    intro e he
    rw [← h.raised, hraised e he]

variable [DecidableEq ι]

/-- The handler has not returned. -/
def Unreturned (s : Scope ι ν ε ρ) : Prop := ∀ result, .returned result ∉ s.log

omit [DecidableEq ε] [DecidableEq ι] in
lemma Unreturned.note {s : Scope ι ν ε ρ} {event : DependsEvent ι ε ρ} (h : Unreturned s)
    (hevent : ∀ result, .returned result ≠ event) : Unreturned (s.note event) := by
  intro result hmem
  obtain hold | hnew := List.mem_append.mp hmem
  · exact h result hold
  · exact hevent result (List.mem_singleton.mp hnew)

omit [DecidableEq ε] [DecidableEq ι] in
lemma unreturned_stable : Stable (Unreturned : Scope ι ν ε ρ → Prop) (fun _ _ => True) where
  ran s fn cached hs := hs.note (by simp)
  push s fn kind hs := hs.note (by simp)
  store s marker value hs := by
    unfold Scope.store
    split
    · exact hs
    · exact hs
  fail s e hs := trivial

/-- `result` is what the handler returned, and was checked if there is a teardown. -/
structure Accepted (result : ρ) (s : Scope ι ν ε ρ) : Prop where
  returned : .returned result ∈ s.log
  only : ∀ other, .returned other ∈ s.log → other = result
  checked : s.teardown = true → r.socket = false → r.encodes result = .ok ()

omit [DecidableEq ε] [DecidableEq ι] in
lemma accepted_checkResult (result : ρ) :
    Meets Unreturned (r.checkResult result) (fun value => r.Accepted value) (fun _ _ => True) := by
  intro s hs
  have honly : ∀ other, .returned other ∈ (s.note (.returned result)).log → other = result := by
    intro other hmem
    obtain hold | hnew := List.mem_append.mp hmem
    · exact absurd hold (hs other)
    · simpa using hnew
  have hmem : .returned result ∈ (s.note (.returned result)).log := List.mem_append_right _ (List.mem_singleton.mpr rfl)
  have hnote : (Route.note (.returned result) : Resolving ι ν ε ρ Unit).run s = .ok () (s.note (.returned result)) := rfl
  unfold checkResult
  rw [run_bind_ok hnote, EStateM.run_bind, EStateM.run_get]
  dsimp only
  split_ifs with hteardown
  · cases hencodes : r.encodes result with
    | ok _ => exact ⟨hmem, honly, fun _ _ => hencodes⟩
    | error e => exact trivial
  · refine ⟨hmem, honly, ?_⟩
    intro hopen hsocket
    simp [hopen, hsocket] at hteardown

omit [DecidableEq ε] in
lemma accepted_body : Meets Unreturned r.body (fun result => r.Accepted result) (fun _ _ => True) := by
  apply Meets.bind (meets_resolveEach fun marker _ => unreturned_stable.resolve r maxLevels marker)
  intro params
  apply Meets.get_bind
  intro t
  apply Meets.weaken _ (fun s hs => hs.1) (fun _ _ => id)
  cases r.handler t.log params with
  | ok result => exact r.accepted_checkResult result
  | error e => exact fun s _ => trivial

omit [DecidableEq ε] [DecidableEq ι] in
lemma quiet_of_append {log more : DependsLog ι ε ρ} (h : DependsLog.lastRaised (log ++ more) = none) :
    log.lastRaised = none := by
  simp only [DependsLog.lastRaised, List.filterMap_append, List.getLast?_eq_none_iff, List.append_eq_nil_iff] at h ⊢
  exact h.1

omit [DecidableEq ε] [DecidableEq ι] in
/-- A generator is resumed without an exception only if the body raised none. -/
lemma Closing.quiet {start s : Scope ι ν ε ρ} {exc : Option ε} {g : ℕ} (h : Closing start [] exc s)
    (hopen : Opening start) (hmem : .resumed g none ∈ s.log) : start.log.lastRaised = none ∧ start.stack ≠ [] := by
  obtain ⟨closing, hclosing⟩ := h.grown
  have hresumed : g ∈ s.log.resumptions := List.mem_filterMap.mpr ⟨_, hmem, rfl⟩
  constructor
  · rw [← hclosing] at hmem
    obtain hstart | hafter := List.mem_append.mp hmem
    · have hg : g ∈ start.log.resumptions := List.mem_filterMap.mpr ⟨_, hstart, rfl⟩
      rw [hopen.untouched] at hg
      cases hg
    · obtain ⟨before, after, rfl⟩ := List.append_of_mem hafter
      rw [← List.append_assoc] at hclosing
      exact quiet_of_append (h.told _ g none after hclosing.symm).symm
  · intro hstack
    have hids := h.resumed
    rw [hstack, List.map_nil, List.append_nil] at hids
    rw [hids] at hresumed
    cases hresumed

lemma wrapped_of_ok {result : ρ} {s : Scope ι ν ε ρ} (h : r.body.run .new = .ok result s) :
    r.wrapped.2 = (r.unwind s.stack none s).2 := by
  simp only [wrapped, h]
  cases r.unwind s.stack none s with
  | mk exc s' =>
    cases exc with
    | none => rfl
    | some e => rfl

lemma wrapped_of_error {e : ε} {s : Scope ι ν ε ρ} (h : r.body.run .new = .error e s) :
    r.wrapped.2 = (r.unwind s.stack (some e) s).2 := by
  simp only [wrapped, h]

/-- What the handler returned was encoded before any generator is resumed without an exception. -/
theorem encoded_of_resumed {result : ρ} {g : ℕ} (hsocket : r.socket = false)
    (hreturned : .returned result ∈ r.wrapped.2.log) (hmem : .resumed g none ∈ r.wrapped.2.log) :
    r.encodes result = .ok () := by
  cases hbody : r.body.run .new with
  | ok value s =>
    have hgoing := r.meets_body.ok going_new hbody
    have haccepted := r.accepted_body.ok (fun _ h => by cases h) hbody
    have hclosing := r.closing_unwind s.stack none s (hgoing.1.closing hgoing.2.symm)
    rw [r.wrapped_of_ok hbody] at hreturned hmem
    obtain ⟨_, hstack⟩ := hclosing.quiet hgoing.1 hmem
    obtain rfl := haccepted.only result (hclosing.returned result hreturned)
    exact haccepted.checked (hgoing.1.teardown hstack) hsocket
  | error e s =>
    have hfailed := r.meets_body.error going_new hbody
    have hclosing := r.closing_unwind s.stack (some e) s (hfailed.1.closing hfailed.2.symm)
    rw [r.wrapped_of_error hbody] at hmem
    obtain ⟨hquiet, _⟩ := hclosing.quiet hfailed.1 hmem
    rw [hfailed.2] at hquiet
    cases hquiet

end Route

end Oxbrook
