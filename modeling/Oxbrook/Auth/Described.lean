import Oxbrook.Auth.Gate
import Oxbrook.Foundation.OrderedDict

/-!
# How a declaration is described

`security` of `python/oxbrook/_auth.py` turns a declaration into the `security` of an OpenAPI operation, a list of
alternatives, each of them a scheme with the scopes it asks for.  It knows only scopes: a requirement is a conjunction
of scopes and of sets of which one scope is enough, and what is listed is the disjunctive form of these.

`security_iff` compares the list with the gate, for declarations that ask for scopes only.
-/

namespace Oxbrook

variable {σ ι Entry : Type} [DecidableEq σ]

/-! ## The list -/

/-- `_name` and `openapi` of the schemes. -/
structure SchemeForms (σ Entry : Type) where
  name : σ → String
  openapi : σ → Option Entry

/-- An alternative of OpenAPI: the scopes asked for, by scheme.  That without a scheme is for everyone. -/
abbrev SecurityAlternative := List (String × List String)

local instance transScope : IsTrans String (· ≤ ·) := inferInstance

local instance antisymmScope : Std.Antisymm fun a b : String => a ≤ b := inferInstance

/-- The scopes that are needed in any case. -/
def neededScopes (requirements : List Requirement) : List String :=
  requirements.foldl (fun scopes r => AuthWorld.extendNew scopes (r.allOf.sort (· ≤ ·))) []

/-- One scope of each set of which one is enough. -/
def scopeChoices (requirements : List Requirement) : List (List String) :=
  requirements.foldl
    (fun choices r =>
      if r.anyOf.Nonempty then choices.flatMap fun c => (r.anyOf.sort (· ≤ ·)).map fun s => c ++ [s] else choices)
    [[]]

/-- The lists of scopes that an alternative of the declaration is expanded to. -/
def expandedScopes (requirements : List Requirement) : List (List String) :=
  (scopeChoices requirements).map fun choice =>
    neededScopes requirements ++ choice.filter (· ∉ neededScopes requirements)

/-- `if x not in xs: xs.append(x)` -/
def appendNew {α : Type} [DecidableEq α] (xs : List α) (x : α) : List α := if x ∈ xs then xs else xs ++ [x]

/-- What one scheme adds to the alternatives and to the schemes that are named. -/
def describeScheme (forms : SchemeForms σ Entry)
    (described : List SecurityAlternative × OrderedDict String (σ × Entry)) (scheme : SchemeOptions σ) :
    List SecurityAlternative × OrderedDict String (σ × Entry) :=
  match forms.openapi scheme.1 with
  | none => described
  | some entry =>
    (scheme.2.foldl
      (fun listed requirements =>
        (expandedScopes requirements).foldl
          (fun listed scopes => appendNew listed [(forms.name scheme.1, scopes)]) listed)
      described.1,
      described.2.set (forms.name scheme.1) (scheme.1, entry))

/-- `security`. -/
def security (forms : SchemeForms σ Entry) (declaration : AuthDeclaration σ) :
    List SecurityAlternative × OrderedDict String (σ × Entry) :=
  let described := (plan declaration).1.foldl (describeScheme forms) ([], .empty)
  (if (plan declaration).2 then described.1 ++ [[]] else described.1, described.2)

/-! ## What it is compared with -/

namespace AuthExpr

/-- The schemes of a declaration. -/
def schemes (e : AuthExpr σ) : List σ := e.written.map Prod.fst

/-- Its requirements name scopes only. -/
def ScopesOnly : AuthExpr σ → Prop
  | scheme _ => True
  | or a b => a.ScopesOnly ∧ b.ScopesOnly
  | requires a requirement => a.ScopesOnly ∧ requirement.roles = ∅ ∧ requirement.check = none

end AuthExpr

/-- The only credential of the request is one of this scheme. -/
def AuthWorld.PresentsOnly (w : AuthWorld σ ι) (e : AuthExpr σ) (s : σ) (found : Principal) : Prop :=
  w.authenticate s = .found found ∧ ∀ t ∈ e.schemes, t ≠ s → w.authenticate t = .absent

/-- The request has no credential. -/
def AuthWorld.PresentsNone (w : AuthWorld σ ι) (e : AuthExpr σ) : Prop := ∀ t ∈ e.schemes, w.authenticate t = .absent

/-! ## What is in the list -/

/-- What a loop that only adds to a list ends with. -/
lemma mem_foldl_iff {State α β : Type} {view : State → List β} {f : State → α → State} {Adds : α → β → Prop}
    (h : ∀ state a x, x ∈ view (f state a) ↔ x ∈ view state ∨ Adds a x) (items : List α) (state : State) (x : β) :
    x ∈ view (items.foldl f state) ↔ x ∈ view state ∨ ∃ a ∈ items, Adds a x := by
  induction items generalizing state with
  | nil => simp
  | cons a items ih =>
    rw [List.foldl_cons, ih, h, or_assoc]
    simp only [List.mem_cons, exists_eq_or_imp]

lemma mem_appendNew {α : Type} [DecidableEq α] {xs : List α} {a x : α} : x ∈ appendNew xs a ↔ x ∈ xs ∨ x = a := by
  unfold appendNew
  split
  · rename_i hmem
    constructor
    · exact .inl
    · rintro (hx | rfl)
      · exact hx
      · exact hmem
  · rw [List.mem_append, List.mem_singleton]

lemma mem_extendNew {xs ys : List String} {x : String} : x ∈ AuthWorld.extendNew xs ys ↔ x ∈ xs ∨ x ∈ ys := by
  have hstep : ∀ (xs : List String) (y x : String),
      x ∈ (if y ∈ xs then xs else xs ++ [y]) ↔ x ∈ xs ∨ x = y := fun _ _ _ => mem_appendNew
  exact (@mem_foldl_iff _ _ _ id _ _ hstep ys xs x).trans (by simp)

lemma mem_neededScopes {requirements : List Requirement} {scope : String} :
    scope ∈ neededScopes requirements ↔ ∃ r ∈ requirements, scope ∈ r.allOf := by
  have hstep : ∀ (scopes : List String) (r : Requirement) (scope : String),
      scope ∈ AuthWorld.extendNew scopes (r.allOf.sort (· ≤ ·)) ↔ scope ∈ scopes ∨ scope ∈ r.allOf := by
    intro scopes r scope
    rw [mem_extendNew, Finset.mem_sort]
  exact (@mem_foldl_iff _ _ _ id _ _ hstep requirements [] scope).trans (by simp)

/-- A choice can be made within a set of scopes just when each set has a scope there. -/
lemma exists_choice_iff {requirements : List Requirement} {held : Finset String} :
    (∃ choice ∈ scopeChoices requirements, ∀ scope ∈ choice, scope ∈ held) ↔
      ∀ r ∈ requirements, r.anyOf.Nonempty → (r.anyOf ∩ held).Nonempty := by
  have hrun : ∀ choices : List (List String),
      (∃ choice ∈ requirements.foldl
        (fun choices r =>
          if r.anyOf.Nonempty then choices.flatMap fun c => (r.anyOf.sort (· ≤ ·)).map fun s => c ++ [s] else choices)
        choices, ∀ scope ∈ choice, scope ∈ held) ↔
      (∃ choice ∈ choices, ∀ scope ∈ choice, scope ∈ held) ∧
        ∀ r ∈ requirements, r.anyOf.Nonempty → (r.anyOf ∩ held).Nonempty := by
    induction requirements with
    | nil => simp
    | cons r requirements ih =>
      intro choices
      rw [List.foldl_cons, ih, List.forall_mem_cons, ← and_assoc]
      apply and_congr_left
      intro _
      split
      · rename_i hany
        constructor
        · rintro ⟨choice, hchoice, hheld⟩
          obtain ⟨c, hc, hchoice⟩ := List.mem_flatMap.mp hchoice
          obtain ⟨s, hs, rfl⟩ := List.mem_map.mp hchoice
          rw [Finset.mem_sort] at hs
          refine ⟨⟨c, hc, fun scope hscope => hheld scope (List.mem_append_left _ hscope)⟩, fun _ => ⟨s, ?_⟩⟩
          exact Finset.mem_inter.mpr ⟨hs, hheld s (by simp)⟩
        · rintro ⟨⟨c, hc, hheld⟩, hmeets⟩
          obtain ⟨s, hs⟩ := hmeets hany
          rw [Finset.mem_inter] at hs
          refine ⟨c ++ [s], List.mem_flatMap.mpr ⟨c, hc, List.mem_map.mpr ⟨s, ?_, rfl⟩⟩, ?_⟩
          · rw [Finset.mem_sort]
            exact hs.1
          · intro scope hscope
            rw [List.mem_append, List.mem_singleton] at hscope
            rcases hscope with hscope | rfl
            · exact hheld scope hscope
            · exact hs.2
      · rename_i hnone
        simp [hnone]
  unfold scopeChoices
  rw [hrun]
  simp

/-- The expansion of an alternative has a list within a set of scopes just when a principal with these scopes meets its
requirements. -/
lemma exists_expanded_iff {requirements : List Requirement} {found : Principal}
    (scopesOnly : ∀ r ∈ requirements, r.roles = ∅ ∧ r.check = none) :
    (∃ scopes ∈ expandedScopes requirements, ∀ scope ∈ scopes, scope ∈ found.scopes) ↔
      ∀ r ∈ requirements, r.met found = true := by
  have hmet : ∀ r ∈ requirements, (r.met found = true ↔
      r.allOf ⊆ found.scopes ∧ (r.anyOf.Nonempty → (r.anyOf ∩ found.scopes).Nonempty)) := by
    intro r hr
    obtain ⟨hroles, hcheck⟩ := scopesOnly r hr
    unfold Requirement.met
    rw [hroles, hcheck]
    simp only [Finset.empty_subset, not_true_eq_false, if_false]
    by_cases hall : r.allOf ⊆ found.scopes
    · by_cases hany : r.anyOf.Nonempty ∧ ¬ (r.anyOf ∩ found.scopes).Nonempty
      · rw [if_neg (not_not.mpr hall), if_pos hany]
        simp only [Bool.false_eq_true, false_iff]
        exact fun hboth => hany.2 (hboth.2 hany.1)
      · rw [if_neg (not_not.mpr hall), if_neg hany]
        simp only [true_iff]
        exact ⟨hall, fun hne => by_contra fun hno => hany ⟨hne, hno⟩⟩
    · simp [hall]
  have hsplit : (∀ r ∈ requirements, r.met found = true) ↔
      (∀ r ∈ requirements, r.allOf ⊆ found.scopes) ∧
        ∀ r ∈ requirements, r.anyOf.Nonempty → (r.anyOf ∩ found.scopes).Nonempty := by
    rw [← forall₂_and]
    exact forall₂_congr hmet
  rw [hsplit, ← exists_choice_iff]
  unfold expandedScopes
  constructor
  · rintro ⟨scopes, hscopes, hheld⟩
    obtain ⟨choice, hchoice, rfl⟩ := List.mem_map.mp hscopes
    have hneeded : ∀ scope ∈ neededScopes requirements, scope ∈ found.scopes :=
      fun scope hscope => hheld scope (List.mem_append_left _ hscope)
    refine ⟨fun r hr scope hscope => hneeded scope (mem_neededScopes.mpr ⟨r, hr, hscope⟩), choice, hchoice, ?_⟩
    intro scope hscope
    by_cases hmem : scope ∈ neededScopes requirements
    · exact hneeded scope hmem
    · exact hheld scope (List.mem_append_right _ (List.mem_filter.mpr ⟨hscope, by simpa using hmem⟩))
  · rintro ⟨hall, choice, hchoice, hheld⟩
    refine ⟨_, List.mem_map.mpr ⟨choice, hchoice, rfl⟩, ?_⟩
    intro scope hscope
    rw [List.mem_append] at hscope
    rcases hscope with hscope | hscope
    · obtain ⟨r, hr, hin⟩ := mem_neededScopes.mp hscope
      exact hall r hr hin
    · exact hheld scope (List.mem_filter.mp hscope).1

section Listed

variable {forms : SchemeForms σ Entry} {e : AuthExpr σ} {anonymous : Bool}

omit [DecidableEq σ] in
lemma mem_describeScheme (described : List SecurityAlternative × OrderedDict String (σ × Entry))
    (scheme : SchemeOptions σ) (alternative : SecurityAlternative) :
    alternative ∈ (describeScheme forms described scheme).1 ↔ alternative ∈ described.1 ∨
      ((forms.openapi scheme.1).isSome = true ∧ ∃ requirements ∈ scheme.2, ∃ scopes ∈ expandedScopes requirements,
        alternative = [(forms.name scheme.1, scopes)]) := by
  unfold describeScheme
  cases forms.openapi scheme.1 with
  | none => simp
  | some entry =>
    have hstep : ∀ (listed : List SecurityAlternative) (requirements : List Requirement)
        (alternative : SecurityAlternative),
        alternative ∈ (expandedScopes requirements).foldl
          (fun listed scopes => appendNew listed [(forms.name scheme.1, scopes)]) listed ↔
        alternative ∈ listed ∨
          ∃ scopes ∈ expandedScopes requirements, alternative = [(forms.name scheme.1, scopes)] := by
      intro listed requirements alternative
      have hadd : ∀ (listed : List SecurityAlternative) (scopes : List String) (alternative : SecurityAlternative),
          alternative ∈ appendNew listed [(forms.name scheme.1, scopes)] ↔
            alternative ∈ listed ∨ alternative = [(forms.name scheme.1, scopes)] := fun _ _ _ => mem_appendNew
      exact @mem_foldl_iff _ _ _ id _ _ hadd _ listed alternative
    refine (@mem_foldl_iff _ _ _ id _ _ hstep scheme.2 described.1 alternative).trans ?_
    simp

lemma mem_optionsOf {alternatives : List (Alternative σ)} {s : σ} {requirements : List Requirement} :
    requirements ∈ optionsOf alternatives s ↔ (s, requirements) ∈ alternatives := by
  unfold optionsOf
  rw [List.mem_map]
  constructor
  · rintro ⟨⟨t, requirements⟩, hmem, rfl⟩
    rw [List.mem_filter, decide_eq_true_eq] at hmem
    exact hmem.2 ▸ hmem.1
  · intro hmem
    exact ⟨(s, requirements), List.mem_filter.mpr ⟨hmem, by simp⟩, rfl⟩

/-- The alternatives of the list are the expansions of those that are written. -/
lemma mem_security_iff {alternative : SecurityAlternative} :
    alternative ∈ (security forms (e.declare anonymous)).1 ↔ (anonymous = true ∧ alternative = []) ∨
      ∃ s requirements, (s, requirements) ∈ e.written ∧ (forms.openapi s).isSome = true ∧
        ∃ scopes ∈ expandedScopes requirements, alternative = [(forms.name s, scopes)] := by
  have hdescribed : alternative ∈ ((plan (e.declare anonymous)).1.foldl (describeScheme forms) ([], .empty)).1 ↔
      ∃ s requirements, (s, requirements) ∈ e.written ∧ (forms.openapi s).isSome = true ∧
        ∃ scopes ∈ expandedScopes requirements, alternative = [(forms.name s, scopes)] := by
    refine (@mem_foldl_iff _ _ _ Prod.fst _ _ mem_describeScheme _ _ alternative).trans ?_
    rw [plan_declare]
    simp only [List.not_mem_nil, false_or, List.mem_map]
    constructor
    · rintro ⟨-, ⟨s, -, rfl⟩, hform, requirements, hmem, hscopes⟩
      exact ⟨s, requirements, mem_optionsOf.mp hmem, hform, hscopes⟩
    · rintro ⟨s, requirements, hmem, hform, hscopes⟩
      exact ⟨_, ⟨s, mem_firstWritten.mpr (List.mem_map_of_mem hmem), rfl⟩, hform, requirements,
        mem_optionsOf.mpr hmem, hscopes⟩
  unfold security
  dsimp only
  have hanonymous : (plan (e.declare anonymous)).2 = anonymous := by rw [plan_declare]
  rw [hanonymous]
  cases anonymous with
  | true =>
    rw [if_pos rfl, List.mem_append, List.mem_singleton, hdescribed, or_comm]
    simp
  | false =>
    rw [if_neg Bool.false_ne_true, hdescribed]
    simp

/-- Every scheme of the list is described in the document. -/
lemma used_of_mem_security {alternative : SecurityAlternative} {name : String} {scopes : List String}
    (h : alternative ∈ (security forms (e.declare anonymous)).1) (hname : (name, scopes) ∈ alternative) :
    ∃ s ∈ e.schemes, forms.name s = name ∧ (forms.openapi s).isSome = true := by
  rcases mem_security_iff.mp h with ⟨-, rfl⟩ | ⟨s, requirements, hmem, hform, scopes', -, rfl⟩
  · cases hname
  · rw [List.mem_singleton, Prod.mk.injEq] at hname
    exact ⟨s, List.mem_map_of_mem hmem, hname.1.symm, hform⟩

end Listed

/-! ## The gate -/

section Gate

variable {w : AuthWorld σ ι} {e : AuthExpr σ} {anonymous : Bool} {limits first shared : List ι} {s : σ}
  {found : Principal}

omit [DecidableEq σ] in
lemma AuthExpr.ScopesOnly.requirement (h : e.ScopesOnly) {requirements : List Requirement}
    (hmem : (s, requirements) ∈ e.written) : ∀ r ∈ requirements, r.roles = ∅ ∧ r.check = none := by
  induction e generalizing requirements with
  | scheme t =>
    rw [written, List.mem_singleton, Prod.mk.injEq] at hmem
    rw [hmem.2]
    exact fun _ hr => absurd hr List.not_mem_nil
  | or a b iha ihb =>
    rw [written, List.mem_append] at hmem
    rcases hmem with hmem | hmem
    · exact iha h.1 hmem
    · exact ihb h.2 hmem
  | requires a requirement ih =>
    rw [written, List.mem_map] at hmem
    obtain ⟨⟨t, inner⟩, hinner, heq⟩ := hmem
    obtain ⟨rfl, rfl⟩ := Prod.mk.inj heq
    intro r hr
    rw [List.mem_append, List.mem_singleton] at hr
    rcases hr with hr | rfl
    · exact ih h.1 hinner r hr
    · exact h.2

omit [DecidableEq σ] in
lemma AuthWorld.PresentsOnly.firstToRespond (h : w.PresentsOnly e s found) (hs : s ∈ e.schemes) :
    w.firstToRespond e = some s := by
  have hresponds : ∀ t ∈ e.schemes, (w.responds t = true ↔ t = s) := by
    intro t ht
    unfold responds
    by_cases hts : t = s
    · simp [hts, h.1]
    · simp [hts, h.2 t ht hts]
  unfold AuthWorld.firstToRespond
  cases hfind : (e.written.map Prod.fst).find? w.responds with
  | none =>
    have hsilent := List.find?_eq_none.mp hfind s hs
    exact absurd ((hresponds s hs).mpr rfl) hsilent
  | some t => rw [(hresponds t (List.mem_of_find?_eq_some hfind)).mp (List.find?_some hfind)]

omit [DecidableEq σ] in
lemma AuthWorld.PresentsNone.firstToRespond (h : w.PresentsNone e) : w.firstToRespond e = none :=
  firstToRespond_eq_none.mpr fun _ hmem => h _ (List.mem_map_of_mem hmem)

/-- The gate lets in the holder of one credential whose scopes are enough. -/
lemma granted_of_only (hs : s ∈ e.schemes) (h : w.PresentsOnly e s found) :
    (w.call (e.gate anonymous limits first shared)).result = .granted (w.named s found) ↔
      w.Within (e.gate anonymous limits first shared) (some (w.named s found)) ∧
        AuthWorld.Meets e s (w.named s found) := by
  rw [(w.judged_call e anonymous limits first shared).granted_iff]
  apply and_congr_right
  intro _
  constructor
  · rintro ⟨t, other, hfirst, -, -, hmeets⟩
    rw [h.firstToRespond hs] at hfirst
    obtain rfl := Option.some.inj hfirst
    exact hmeets
  · intro hmeets
    exact ⟨s, found, h.firstToRespond hs, h.1, rfl, hmeets⟩

/-- The gate lets in a caller without a credential where that is declared. -/
lemma anonymous_of_none (h : w.PresentsNone e) :
    (w.call (e.gate anonymous limits first shared)).result = .anonymous ↔
      w.Within (e.gate anonymous limits first shared) none ∧ anonymous = true := by
  rw [(w.judged_call e anonymous limits first shared).anonymous_iff]
  simp [h.firstToRespond]

omit [DecidableEq σ] in
lemma AuthWorld.named_scopes : (w.named s found).scopes = found.scopes := by
  unfold AuthWorld.named
  split <;> rfl

end Gate

/-- **The document and the gate.**  Where a declaration asks for scopes only, and its schemes are described under names
of their own, the holder of one credential passes within its budgets exactly if an alternative of the list asks for no
scope that is not held.  A caller without one passes exactly if the list has the empty alternative. -/
theorem security_iff (e : AuthExpr σ) (anonymous : Bool) (limits first shared : List ι) (forms : SchemeForms σ Entry)
    (scopesOnly : e.ScopesOnly) (distinct : ∀ s ∈ e.schemes, ∀ t ∈ e.schemes, forms.name s = forms.name t → s = t)
    (described : ∀ s ∈ e.schemes, (forms.openapi s).isSome = true) (w : AuthWorld σ ι) :
    (∀ s ∈ e.schemes, ∀ found, w.PresentsOnly e s found →
      ((w.call (e.gate anonymous limits first shared)).result = .granted (w.named s found) ↔
        w.Within (e.gate anonymous limits first shared) (some (w.named s found)) ∧
        ∃ scopes, [(forms.name s, scopes)] ∈ (security forms (e.declare anonymous)).1 ∧
          ∀ scope ∈ scopes, scope ∈ found.scopes)) ∧
    (([] ∈ (security forms (e.declare anonymous)).1 ↔ anonymous = true) ∧
      (w.PresentsNone e → ((w.call (e.gate anonymous limits first shared)).result = .anonymous ↔
        w.Within (e.gate anonymous limits first shared) none ∧ [] ∈ (security forms (e.declare anonymous)).1))) := by
  have hempty : [] ∈ (security forms (e.declare anonymous)).1 ↔ anonymous = true := by
    rw [mem_security_iff]
    simp
  refine ⟨?_, hempty, ?_⟩
  · intro s hs found hpresents
    rw [granted_of_only hs hpresents]
    apply and_congr_right
    intro _
    have hexpanded : ∀ requirements, (s, requirements) ∈ e.written →
        ((∃ scopes ∈ expandedScopes requirements, ∀ scope ∈ scopes, scope ∈ found.scopes) ↔
          ∀ r ∈ requirements, r.met (w.named s found) = true) := by
      intro requirements hmem
      rw [← exists_expanded_iff (scopesOnly.requirement hmem), AuthWorld.named_scopes]
    constructor
    · rintro ⟨requirements, hmem, hmet⟩
      obtain ⟨scopes, hscopes, hheld⟩ := (hexpanded requirements hmem).mpr hmet
      exact ⟨scopes, mem_security_iff.mpr (.inr ⟨s, requirements, hmem, described s hs, scopes, hscopes, rfl⟩), hheld⟩
    · rintro ⟨scopes, hlisted, hheld⟩
      rcases mem_security_iff.mp hlisted with ⟨-, hnil⟩ | ⟨t, requirements, hmem, -, scopes', hscopes, heq⟩
      · cases hnil
      · simp only [List.cons.injEq, Prod.mk.injEq, and_true] at heq
        obtain ⟨hname, rfl⟩ := heq
        obtain rfl := distinct s hs t (List.mem_map_of_mem hmem) hname
        exact ⟨requirements, hmem, (hexpanded requirements hmem).mp ⟨scopes, hscopes, hheld⟩⟩
  · intro hpresents
    rw [anonymous_of_none hpresents, hempty]

def readsNotes : Requirement where
  allOf := ∅
  anyOf := {"notes:admin", "notes:read"}
  check := none
  roles := ∅

/-- `optional(bearer.requires(any_of=("notes:admin", "notes:read")) | key)`, of which the first scheme is `true`. -/
def noteReaders : AuthExpr Bool := .or (.requires (.scheme true) readsNotes) (.scheme false)

def noteForms : SchemeForms Bool Unit := ⟨fun s => if s then "bearer" else "key", fun _ => some ()⟩

def noteReader : Principal where
  subject := "ada"
  scheme := "bearer"
  scopes := {"notes:read"}
  roles := ∅
  claims := []
  user := none
  subject_ne := ada_ne_empty

/-- A request with a bearer token of hers. -/
def noteWorld : AuthWorld Bool Empty where
  authenticate := fun s => if s then .found noteReader else .absent
  name := noteForms.name
  challenge := fun _ _ => none
  exceeded := fun _ _ => none

theorem note_reader_passes :
    (noteWorld.call (noteReaders.gate true [] [] [])).result = .granted (noteWorld.named true noteReader) := by
  have hexpanded : ∃ scopes ∈ expandedScopes [readsNotes], ∀ scope ∈ scopes, scope ∈ noteReader.scopes :=
    (exists_expanded_iff (by simp [readsNotes])).mpr (by decide)
  obtain ⟨scopes, hscopes, hheld⟩ := hexpanded
  have hlaw := security_iff noteReaders true [] [] [] noteForms ⟨⟨trivial, rfl, rfl⟩, trivial⟩ (by decide)
    (fun _ _ => rfl) noteWorld
  refine (hlaw.1 true (by decide) noteReader ⟨rfl, fun t _ ht => ?_⟩).mpr ⟨⟨nofun, nofun⟩, ?_⟩
  · obtain rfl : t = false := by simpa using ht
    rfl
  · exact ⟨scopes, mem_security_iff.mpr (.inr ⟨true, [readsNotes], List.mem_cons_self .., rfl, scopes, hscopes, rfl⟩),
      hheld⟩

end Oxbrook
