import Oxbrook.Foundation.OrderedDict

/-!
# A dict that remembers whether anything changed

`Session` of `_sessions.py` is a subclass of `dict` with a flag.  Five of the methods that change a dict are
overridden and set the flag; `popitem`, `setdefault` and `|=` are those of `dict` and do not.  An `update` that raises
has set the items that it had read by then, but not the flag.

`apply` is what a dict does, `step` what a session does.  `Tracked` follows a list of operations up to the first one
that sets the flag: until then each has to leave the content as it is.
-/

namespace Oxbrook

variable {κ ν : Type} [DecidableEq κ]

/-- `Session`. -/
structure CookieSession (κ ν : Type) where
  data : OrderedDict κ ν
  modified : Bool

/-- An operation of a handler on its session.  For `update` and `|=` there are the items that were read, and whether
the argument raised after that. -/
inductive SessionOp (κ ν : Type)
  /-- `get`, `in`, `len`, iteration and the like. -/
  | read
  /-- An operation whose key cannot be hashed. -/
  | refused
  | setItem (k : κ) (v : ν)
  | delItem (k : κ)
  | pop (k : κ)
  | popitem
  | setdefault (k : κ) (v : ν)
  | update (items : List (κ × ν)) (raises : Bool)
  | ior (items : List (κ × ν)) (raises : Bool)
  | clear

namespace SessionOp

def mutating : SessionOp κ ν → Bool
  | read => false
  | refused => false
  | _ => true

/-- What a dict does.  An operation that raises, as `popitem` does on an empty dict, leaves it as it is. -/
def apply (d : OrderedDict κ ν) : SessionOp κ ν → OrderedDict κ ν
  | read => d
  | refused => d
  | setItem k v => d.set k v
  | delItem k => d.erase k
  | pop k => d.erase k
  | popitem => d.dropLast
  | setdefault k v => if k ∈ d.keys then d else d.set k v
  | update items _ => d.update items
  | ior items _ => d.update items
  | clear => .empty

/-- The operation sets the flag. -/
def marks (d : OrderedDict κ ν) : SessionOp κ ν → Bool
  | setItem _ _ => true
  | delItem k => decide (k ∈ d.keys)
  | pop _ => true
  | update _ raises => !raises
  | clear => true
  | _ => false

/-- The items are there already. -/
def Present (d : OrderedDict κ ν) (items : List (κ × ν)) : Prop :=
  ∀ k v, items.reverse.lookup k = some v → d.get k = some v

/-- An operation that does not set the flag finds nothing to change. -/
def Harmless (d : OrderedDict κ ν) : SessionOp κ ν → Prop
  | popitem => d.items = []
  | setdefault k _ => k ∈ d.keys
  | update items _ => Present d items
  | ior items _ => Present d items
  | _ => True

end SessionOp

namespace CookieSession

open SessionOp

def new (d : OrderedDict κ ν) : CookieSession κ ν := ⟨d, false⟩

/-- The methods of `Session`, and those of `dict` that it does not override. -/
def step (s : CookieSession κ ν) : SessionOp κ ν → CookieSession κ ν
  | .read => s
  | .refused => s
  | .setItem k v => ⟨s.data.set k v, true⟩
  | .delItem k => if k ∈ s.data.keys then ⟨s.data.erase k, true⟩ else s
  | .pop k => ⟨s.data.erase k, true⟩
  | .popitem => ⟨s.data.dropLast, s.modified⟩
  | .setdefault k v => if k ∈ s.data.keys then s else ⟨s.data.set k v, s.modified⟩
  | .update items raises => ⟨s.data.update items, if raises then s.modified else true⟩
  | .ior items _ => ⟨s.data.update items, s.modified⟩
  | .clear => ⟨.empty, true⟩

def run (s : CookieSession κ ν) (ops : List (SessionOp κ ν)) : CookieSession κ ν := ops.foldl step s

/-! ## A session against a dict -/

lemma step_data (s : CookieSession κ ν) (op : SessionOp κ ν) : (s.step op).data = op.apply s.data := by
  cases op with
  | delItem k =>
    by_cases hk : k ∈ s.data.keys
    · simp [step, apply, hk]
    · simp [step, apply, hk, OrderedDict.erase_eq_self hk]
  | setdefault k v =>
    by_cases hk : k ∈ s.data.keys
    · simp [step, apply, hk]
    · simp [step, apply, hk]
  | _ => rfl

lemma step_modified (s : CookieSession κ ν) (op : SessionOp κ ν) :
    (s.step op).modified = (s.modified || op.marks s.data) := by
  cases op with
  | delItem k =>
    by_cases hk : k ∈ s.data.keys
    · simp [step, marks, hk]
    · simp [step, marks, hk]
  | setdefault k v =>
    by_cases hk : k ∈ s.data.keys
    · simp [step, marks, hk]
    · simp [step, marks, hk]
  | update items raises =>
    cases raises with
    | true => simp [step, marks]
    | false => simp [step, marks]
  | _ => simp [step, marks]

lemma run_cons (s : CookieSession κ ν) (op : SessionOp κ ν) (ops : List (SessionOp κ ν)) :
    s.run (op :: ops) = (s.step op).run ops := rfl

/-- The flag is never taken back. -/
lemma run_modified_of_modified {s : CookieSession κ ν} (h : s.modified = true) (ops : List (SessionOp κ ν)) :
    (s.run ops).modified = true := by
  induction ops generalizing s with
  | nil => exact h
  | cons op ops ih =>
    apply ih
    rw [step_modified, h, Bool.true_or]

/-- Only operations that can change a dict set the flag. -/
lemma run_unmodified {s : CookieSession κ ν} (h : s.modified = false) {ops : List (SessionOp κ ν)}
    (hops : ∀ op ∈ ops, op.mutating = false) : (s.run ops).modified = false := by
  induction ops generalizing s with
  | nil => exact h
  | cons op ops ih =>
    obtain ⟨hop, hrest⟩ := List.forall_mem_cons.mp hops
    refine ih ?_ hrest
    rw [step_modified, h, Bool.false_or]
    cases op with
    | read => rfl
    | refused => rfl
    | _ => cases hop

end CookieSession

/-! ## Operations that change nothing -/

namespace SessionOp

variable {d : OrderedDict κ ν}

lemma holds_update_iff {items : List (κ × ν)} : (d.update items).Holds d ↔ Present d items := by
  constructor
  · intro h k v hlookup
    rw [← h k, OrderedDict.get_update, hlookup]
    rfl
  · intro h k
    rw [OrderedDict.get_update]
    cases hlookup : items.reverse.lookup k with
    | none => rfl
    | some v => exact (h k v hlookup).symm

lemma holds_dropLast_iff : d.dropLast.Holds d ↔ d.items = [] := by
  constructor
  · intro h
    rcases List.eq_nil_or_concat d.items with hnil | ⟨rest, ⟨k, v⟩, hitems⟩
    · exact hnil
    · have hlast : d.get k = some v := by
        rw [OrderedDict.get_eq_some_iff, hitems]
        simp
      have hdropped := h k
      rw [OrderedDict.get_dropLast_self (by simpa using hitems), hlast] at hdropped
      cases hdropped
  · intro h k
    simp [OrderedDict.get, OrderedDict.dropLast, h]

/-- Without the flag, an operation leaves the content as it is exactly if it is harmless. -/
lemma holds_apply_iff {op : SessionOp κ ν} (h : op.marks d = false) : (op.apply d).Holds d ↔ op.Harmless d := by
  cases op with
  | read => exact iff_of_true (fun _ => rfl) trivial
  | refused => exact iff_of_true (fun _ => rfl) trivial
  | setItem k v => cases h
  | pop k => cases h
  | clear => cases h
  | delItem k =>
    have hk : k ∉ d.keys := by simpa [marks] using h
    refine iff_of_true ?_ trivial
    rw [apply, OrderedDict.erase_eq_self hk]
    exact fun _ => rfl
  | popitem => exact holds_dropLast_iff
  | setdefault k v =>
    by_cases hk : k ∈ d.keys
    · simp [apply, Harmless, hk, OrderedDict.Holds]
    · refine iff_of_false ?_ hk
      rw [apply, if_neg hk]
      intro hholds
      have hget := hholds k
      rw [OrderedDict.get_set_self, OrderedDict.get_eq_none_iff.mpr hk] at hget
      cases hget
  | update items raises => exact holds_update_iff
  | ior items raises => exact holds_update_iff

end SessionOp

/-! ## Runs -/

/-- Up to the first operation that sets the flag, each is harmless. -/
def Tracked : OrderedDict κ ν → List (SessionOp κ ν) → Prop
  | _, [] => True
  | d, op :: rest => op.marks d = true ∨ (op.Harmless d ∧ Tracked (op.apply d) rest)

namespace CookieSession

open SessionOp

lemma step_new {d : OrderedDict κ ν} {op : SessionOp κ ν} (h : op.marks d = false) :
    (new d).step op = new (op.apply d) := by
  have hdata : ((new d).step op).data = op.apply d := step_data (new d) op
  have hmodified : ((new d).step op).modified = false := by
    rw [step_modified]
    exact h
  cases hstep : (new d).step op with
  | mk data modified =>
    rw [hstep] at hdata hmodified
    subst hdata hmodified
    rfl

/-- A change of the content is never without the flag, exactly if the operations are tracked. -/
theorem tracked_iff (d : OrderedDict κ ν) (ops : List (SessionOp κ ν)) :
    (∀ done, done <+: ops → ¬ ((new d).run done).data.Holds d → ((new d).run done).modified = true) ↔
      Tracked d ops := by
  induction ops generalizing d with
  | nil =>
    refine iff_of_true ?_ trivial
    intro done hdone hchanged
    obtain rfl := List.prefix_nil.mp hdone
    exact absurd (fun _ => rfl) hchanged
  | cons op rest ih =>
    cases hmarks : op.marks d with
    | true =>
      refine iff_of_true ?_ (.inl hmarks)
      intro done hdone hchanged
      cases done with
      | nil => exact absurd (fun _ => rfl) hchanged
      | cons op' done =>
        obtain ⟨rfl, _⟩ := List.cons_prefix_cons.mp hdone
        rw [run_cons]
        apply run_modified_of_modified
        rw [step_modified]
        simpa [new] using hmarks
    | false =>
      have hrest := ih (op.apply d)
      unfold Tracked
      simp only [hmarks, Bool.false_eq_true, false_or]
      rw [← holds_apply_iff hmarks, ← hrest]
      constructor
      · intro h
        have hholds : (op.apply d).Holds d := by
          by_contra hchanged
          have hmodified := h [op] (List.prefix_append [op] rest) (by
            rw [run_cons, step_new hmarks]
            exact hchanged)
          rw [run_cons, step_new hmarks] at hmodified
          cases hmodified
        refine ⟨hholds, ?_⟩
        intro done hdone hchanged
        have hmodified := h (op :: done) (List.cons_prefix_cons.mpr ⟨rfl, hdone⟩)
        rw [run_cons, step_new hmarks] at hmodified
        apply hmodified
        intro hsame
        apply hchanged
        intro k
        rw [hsame k, hholds k]
      · rintro ⟨hholds, h⟩ done hdone hchanged
        cases done with
        | nil => exact absurd (fun _ => rfl) hchanged
        | cons op' done =>
          obtain ⟨rfl, hdone'⟩ := List.cons_prefix_cons.mp hdone
          rw [run_cons, step_new hmarks] at hchanged ⊢
          apply h done hdone'
          intro hsame
          apply hchanged
          intro k
          rw [hsame k, hholds k]

end CookieSession

end Oxbrook
