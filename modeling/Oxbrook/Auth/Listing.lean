import Oxbrook.Auth.Gate

/-!
# What a list shows

`Gate.permits` of `python/oxbrook/_auth.py` says whether a request would get past the gate, for `tools/list` and
`resources/list` of `python/oxbrook/_mcp.py`.  It runs through the plan as `Gate.__call__` does, but keeps what the
schemes answer in a memo that the gates of one list share, and where a check raises it goes on with the next set of
requirements.  A call does not: the exception ends it.

`permits_iff_returns` says that this is the only difference: a gate is shown to a caller it does not let in if a
check raises that comes before the set of requirements the caller meets.
-/

namespace Oxbrook

/-- What a `check=` raises. -/
inductive CheckError
  | http (status : ℕ)
  | other
  deriving DecidableEq

/-- How a call ends: as the gate decides, or with what a check raised. -/
inductive CallOutcome
  | decided (result : GateResult)
  | checkRaised (error : CheckError)
  deriving DecidableEq

/-- The call returns. -/
def CallOutcome.Returns : CallOutcome → Prop
  | decided (.granted _) => True
  | decided .anonymous => True
  | _ => False

instance : DecidablePred CallOutcome.Returns
  | .decided (.granted _) => .isTrue trivial
  | .decided .anonymous => .isTrue trivial
  | .decided (.unauthenticated _) => .isFalse nofun
  | .decided (.forbidden _) => .isFalse nofun
  | .decided (.raised _) => .isFalse nofun
  | .decided (.limited _) => .isFalse nofun
  | .checkRaised _ => .isFalse nofun

/-- What a memo keeps of a scheme. -/
inductive Remembered
  | refused
  | answer (found : Option Principal)

/-- `memo`, by the scheme. -/
abbrev Memo (σ : Type) := σ → Option Remembered

/-- One request whose checks may raise: instead of the answer of `Requirement.check`. -/
structure CheckWorld (σ ι : Type) extends AuthWorld σ ι where
  raises : Requirement → Principal → Option CheckError

namespace CheckWorld

variable {σ ι : Type} [DecidableEq σ] (w : CheckWorld σ ι)

/-! ## Requirements -/

/-- `Requirement.met`. -/
def met (r : Requirement) (found : Principal) : Except CheckError Bool :=
  if ¬ r.allOf ⊆ found.scopes then .ok false
  else if r.anyOf.Nonempty ∧ ¬ (r.anyOf ∩ found.scopes).Nonempty then .ok false
  else if ¬ r.roles ⊆ found.roles then .ok false
  else match r.check with
    | some check =>
      match w.raises r found with
      | some error => .error error
      | none => .ok (check found)
    | none => .ok true

/-- The loop over one set of requirements: the first that is not met ends it. -/
def metAll : List Requirement → Principal → Except CheckError Bool
  | [], _ => .ok true
  | r :: requirements, found =>
    match w.met r found with
    | .error error => .error error
    | .ok false => .ok false
    | .ok true => metAll requirements found

/-! ## Calling -/

/-- The loop of `Gate.__call__` over the options of a scheme. -/
def admitted : List (List Requirement) → Principal → Except CheckError Bool
  | [], _ => .ok false
  | requirements :: options, found =>
    match w.metAll requirements found with
    | .error error => .error error
    | .ok true => .ok true
    | .ok false => admitted options found

/-- What a scheme that found a principal leads to. -/
def admitPrincipal (s : σ) (options : List (List Requirement)) (found : Principal) : CallOutcome :=
  match w.admitted options found with
  | .error error => .checkRaised error
  | .ok true => .decided (.granted found)
  | .ok false => .decided (.forbidden (w.forbidden s (options.headD []) found))

/-- The loop of `Gate.__call__`, of a gate without limits. -/
def search (gate : Gate σ ι) : List (SchemeOptions σ) → CallOutcome
  | [] => .decided (if gate.anonymous then .anonymous else .unauthenticated (w.unauthenticated gate none))
  | (s, options) :: rest =>
    match w.authenticate s with
    | .refused error => .decided (.unauthenticated (w.unauthenticated gate (some (s, error))))
    | .raised status => .decided (.raised status)
    | .absent => search gate rest
    | .found found => w.admitPrincipal s options (w.named s found)

/-- `Gate.__call__`, of a gate without limits. -/
def call (gate : Gate σ ι) : CallOutcome := w.search gate gate.schemes

/-! ## Listing -/

/-- What the memo keeps of `authenticate`: a scheme that raises an `HTTPError` refuses. -/
def remember (s : σ) : Remembered :=
  match w.authenticate s with
  | .absent => .answer none
  | .found found => .answer (some found)
  | .refused _ => .refused
  | .raised _ => .refused

/-- The loop of `Gate.permits` over the options of a scheme: a check that raises ends one set of requirements. -/
def permitted : List (List Requirement) → Principal → Bool
  | [], _ => false
  | requirements :: options, found =>
    match w.metAll requirements found with
    | .error _ => permitted options found
    | .ok true => true
    | .ok false => permitted options found

/-- The loop of `Gate.permits`. -/
def permitsFrom (anonymous : Bool) : List (SchemeOptions σ) → Memo σ → Memo σ × Bool
  | [], memo => (memo, anonymous)
  | (s, options) :: rest, memo =>
    let found := (memo s).getD (w.remember s)
    let memo := Function.update memo s (some found)
    match found with
    | .refused => (memo, false)
    | .answer none => permitsFrom anonymous rest memo
    | .answer (some found) => (memo, w.permitted options (w.named s found))

/-- `Gate.permits`. -/
def permits (gate : Gate σ ι) (memo : Memo σ) : Memo σ × Bool := w.permitsFrom gate.anonymous gate.schemes memo

/-- The memo of a list after some gates. -/
def memoAfter (gates : List (Gate σ ι)) : Memo σ :=
  gates.foldl (fun memo gate => (w.permits gate memo).1) fun _ => none

/-- The names whose gates permit the request, or that have none. -/
def listed : List (String × Option (Gate σ ι)) → Memo σ → List String
  | [], _ => []
  | (name, none) :: entries, memo => name :: listed entries memo
  | (name, some gate) :: entries, memo =>
    let (memo, shown) := w.permits gate memo
    if shown then name :: listed entries memo else listed entries memo

/-- `Gate(policy)`: without limits. -/
def gateOf (ι : Type) (auth : AuthDeclaration σ) : Gate σ ι := Gate.new auth [] [] []

/-- `MCP.tool_list`: the capabilities, each with the declaration of its route. -/
def toolList (capabilities : List (String × Option (AuthDeclaration σ))) : List String :=
  w.listed (capabilities.map fun c => (c.1, c.2.map (gateOf ι))) fun _ => none

/-- `MCP.resource_list`: the resources, each with what `_exposed` gives. -/
def resourceList (resources : List (String × Option (Option (AuthDeclaration σ)))) : List String :=
  w.listed (resources.filterMap fun r => r.2.map fun auth => (r.1, auth.map (gateOf ι))) fun _ => none

/-- `MCP._topic`: whether the topic is given to the caller. -/
def topicGiven (exposed : Option (Option (AuthDeclaration σ))) : Bool :=
  match exposed with
  | none => false
  | some none => true
  | some (some auth) => (w.permits (gateOf ι auth) fun _ => none).2

/-! ## Where a raise is hidden -/

/-- No set of requirements before `o` is met, a check of `o` raises, and a later set is met. -/
def HiddenRaise (options : List (List Requirement)) (found : Principal) : Prop :=
  ∃ before o after error, options = before ++ o :: after ∧ (∀ b ∈ before, w.metAll b found = .ok false) ∧
    w.metAll o found = .error error ∧ ∃ later ∈ after, w.metAll later found = .ok true

/-- The first scheme to respond finds a principal, and among its sets of requirements is a raise that is hidden. -/
def HidesRaise (schemes : List (SchemeOptions σ)) : Prop :=
  ∃ s options found, schemes.find? (fun g => w.responds g.1) = some (s, options) ∧
    w.authenticate s = .found found ∧ w.HiddenRaise options (w.named s found)

/-- What is public, or whose gate a call gets past. -/
def Usable (auth : Option (AuthDeclaration σ)) : Prop := ∀ policy ∈ auth, (w.call (gateOf ι policy)).Returns

instance : DecidablePred w.Usable := fun auth =>
  inferInstanceAs (Decidable (∀ policy ∈ auth, (w.call (gateOf ι policy)).Returns))

/-- The answer of a gate after those of `earlier` on the same list: as without them, and as the call's. -/
structure Agrees (auth : AuthDeclaration σ) (earlier : List (Gate σ ι)) : Prop where
  sharing : (w.permits (gateOf ι auth) (w.memoAfter earlier)).2 = (w.permits (gateOf ι auth) fun _ => none).2
  calling : (w.permits (gateOf ι auth) (w.memoAfter earlier)).2 = true ↔ (w.call (gateOf ι auth)).Returns

/-- The names a caller may use. -/
def usable (entries : List (String × Option (AuthDeclaration σ))) : List String :=
  (entries.filter fun entry => w.Usable entry.2).map Prod.fst

/-- No declaration of the entries hides a raise. -/
def Plain (entries : List (String × Option (AuthDeclaration σ))) : Prop :=
  ∀ entry ∈ entries, ∀ auth ∈ entry.2, ¬ w.HidesRaise (plan auth).1

variable {w}

section Requirements

variable {options : List (List Requirement)} {found : Principal}

omit [DecidableEq σ] in
/-- Some set of requirements is met without a raise in it. -/
lemma permitted_iff : w.permitted options found = true ↔ ∃ o ∈ options, w.metAll o found = .ok true := by
  induction options with
  | nil => simp [permitted]
  | cons o options ih =>
    rw [permitted]
    rcases ho : w.metAll o found with error | met
    · simp [ih, ho]
    · cases met
      · simp [ih, ho]
      · simp [ho]

omit [DecidableEq σ] in
/-- A raise is hidden from a list, not from a call. -/
lemma not_admitted_of_hiddenRaise (h : w.HiddenRaise options found) : w.admitted options found ≠ .ok true := by
  obtain ⟨before, o, after, error, rfl, hbefore, ho, -⟩ := h
  induction before with
  | nil =>
    rw [List.nil_append, admitted, ho]
    exact nofun
  | cons b before ih =>
    rw [List.cons_append, admitted, hbefore b (List.mem_cons_self ..)]
    exact ih fun c hc => hbefore c (List.mem_cons_of_mem _ hc)

omit [DecidableEq σ] in
/-- What is permitted is admitted, or hides a raise. -/
lemma admitted_or_hiddenRaise (h : w.permitted options found = true) :
    w.admitted options found = .ok true ∨ w.HiddenRaise options found := by
  induction options with
  | nil => simp [permitted] at h
  | cons o options ih =>
    rw [permitted] at h
    rw [admitted]
    rcases ho : w.metAll o found with error | met
    · simp only [ho] at h
      obtain ⟨later, hlater, hmet⟩ := permitted_iff.mp h
      exact .inr ⟨[], o, options, error, rfl, nofun, ho, later, hlater, hmet⟩
    · cases met
      · simp only [ho] at h
        obtain hadmitted | ⟨before, p, after, error, rfl, hbefore, hp, hlater⟩ := ih h
        · exact .inl hadmitted
        · refine .inr ⟨o :: before, p, after, error, rfl, ?_, hp, hlater⟩
          intro b hb
          obtain rfl | hb := List.mem_cons.mp hb
          · exact ho
          · exact hbefore b hb
      · exact .inl rfl

omit [DecidableEq σ] in
/-- What is admitted is permitted. -/
lemma permitted_of_admitted (h : w.admitted options found = .ok true) : w.permitted options found = true := by
  induction options with
  | nil => simp [admitted] at h
  | cons o options ih =>
    rw [admitted] at h
    rw [permitted]
    rcases ho : w.metAll o found with error | met
    · simp [ho] at h
    · cases met
      · rw [ho] at h
        exact ih h
      · rfl

omit [DecidableEq σ] in
/-- A hidden raise is the only way to be permitted and not admitted. -/
lemma permitted_and_not_admitted_iff :
    (w.permitted options found = true ∧ w.admitted options found ≠ .ok true) ↔ w.HiddenRaise options found := by
  constructor
  · rintro ⟨hpermitted, hnot⟩
    exact (admitted_or_hiddenRaise hpermitted).resolve_left hnot
  · intro hides
    refine ⟨?_, not_admitted_of_hiddenRaise hides⟩
    obtain ⟨before, o, after, error, rfl, -, -, later, hlater, hmet⟩ := hides
    exact permitted_iff.mpr ⟨later, List.mem_append_right _ (List.mem_cons_of_mem _ hlater), hmet⟩

end Requirements

section NoRaise

variable {options : List (List Requirement)} {found : Principal}

omit [DecidableEq σ] in
lemma met_of_no_raise (h : ∀ r p, w.raises r p = none) (r : Requirement) : w.met r found = .ok (r.met found) := by
  rw [met, Requirement.met]
  split_ifs with hall hany hroles
  · rfl
  · cases r.check with
    | none => rfl
    | some check => simp only [h]
  · rfl
  · rfl

omit [DecidableEq σ] in
lemma metAll_of_no_raise (h : ∀ r p, w.raises r p = none) (requirements : List Requirement) :
    w.metAll requirements found = .ok (requirements.all fun r => r.met found) := by
  induction requirements with
  | nil => rfl
  | cons r requirements ih =>
    rw [metAll, met_of_no_raise h, List.all_cons]
    cases r.met found with
    | true => exact ih
    | false => rfl

omit [DecidableEq σ] in
lemma admitted_of_no_raise (h : ∀ r p, w.raises r p = none) :
    w.admitted options found = .ok (options.any fun requirements => requirements.all fun r => r.met found) := by
  induction options with
  | nil => rfl
  | cons requirements options ih =>
    rw [admitted, metAll_of_no_raise h, List.any_cons]
    cases requirements.all fun r => r.met found with
    | true => rfl
    | false => exact ih

/-- Where no check raises, a call is the run of the gate. -/
theorem call_eq_of_no_raise (h : ∀ r p, w.raises r p = none) (auth : AuthDeclaration σ) :
    w.call (gateOf ι auth) = .decided (w.toAuthWorld.call (gateOf ι auth)).result := by
  have hspend (consulted : List σ) (caller : Option Principal) (result : GateResult) :
      (w.toAuthWorld.spending (gateOf ι auth) consulted caller result).result = result := rfl
  have hsearch (schemes : List (SchemeOptions σ)) :
      w.search (gateOf ι auth) schemes = .decided (w.toAuthWorld.search (gateOf ι auth) schemes).result := by
    induction schemes with
    | nil => rw [search, AuthWorld.search, hspend]
    | cons g schemes ih =>
      obtain ⟨s, options⟩ := g
      rw [search, AuthWorld.search]
      cases hs : w.authenticate s with
      | absent => exact ih
      | found found =>
        simp only [hspend, admitPrincipal, admitted_of_no_raise h, AuthWorld.admitPrincipal]
        cases options.any fun requirements => requirements.all fun r => r.met (w.named s found) <;> rfl
      | refused error => rfl
      | raised status => rfl
  rw [call, hsearch]
  rfl

end NoRaise

/-! ## The memo -/

/-- Every answer the memo keeps is the one the scheme would give. -/
def Faithful (w : CheckWorld σ ι) (memo : Memo σ) : Prop := ∀ s, ∀ kept ∈ memo s, kept = w.remember s

omit [DecidableEq σ] in
lemma faithful_empty : w.Faithful fun _ => none := by
  intro s kept hkept
  cases hkept

lemma Faithful.update {memo : Memo σ} (h : w.Faithful memo) (s : σ) :
    w.Faithful (Function.update memo s (some (w.remember s))) := by
  intro t kept hkept
  by_cases ht : t = s
  · subst ht
    rw [Function.update_self] at hkept
    exact (Option.mem_some_iff.mp hkept).symm
  · rw [Function.update_of_ne ht] at hkept
    exact h t kept hkept

omit [DecidableEq σ] in
/-- Looking a scheme up gives its answer, kept or not. -/
lemma Faithful.lookup {memo : Memo σ} (h : w.Faithful memo) (s : σ) :
    (memo s).getD (w.remember s) = w.remember s := by
  cases hs : memo s with
  | none => rfl
  | some kept => exact h s kept hs

/-- A gate answers by its schemes alone, and leaves the memo faithful. -/
lemma permitsFrom_faithful {anonymous : Bool} {schemes : List (SchemeOptions σ)} {memo : Memo σ}
    (h : w.Faithful memo) :
    w.Faithful (w.permitsFrom anonymous schemes memo).1 ∧
      (w.permitsFrom anonymous schemes memo).2 = (w.permitsFrom anonymous schemes fun _ => none).2 := by
  induction schemes generalizing memo with
  | nil => exact ⟨h, rfl⟩
  | cons g schemes ih =>
    obtain ⟨s, options⟩ := g
    have hempty : ((fun _ => none : Memo σ) s).getD (w.remember s) = w.remember s := faithful_empty.lookup s
    have hmemo := h.update s
    have hnone := (faithful_empty (w := w)).update s
    simp only [permitsFrom, h.lookup s, hempty]
    revert hmemo hnone
    generalize w.remember s = kept
    intro hmemo hnone
    rcases kept with _ | _ | found
    · exact ⟨hmemo, rfl⟩
    · exact ⟨(ih hmemo).1, (ih hmemo).2.trans (ih hnone).2.symm⟩
    · exact ⟨hmemo, rfl⟩

/-- The memo of a list is faithful. -/
lemma faithful_memoAfter (gates : List (Gate σ ι)) : w.Faithful (w.memoAfter gates) := by
  rw [memoAfter]
  have hempty := faithful_empty (w := w)
  revert hempty
  generalize (fun _ => none : Memo σ) = memo
  intro hmemo
  induction gates generalizing memo with
  | nil => exact hmemo
  | cons gate gates ih => exact ih _ (permitsFrom_faithful hmemo).1

/-! ## Listing and calling -/

section Gates

variable {gate : Gate σ ι} {anonymous : Bool} {schemes : List (SchemeOptions σ)} {s : σ}
  {options : List (List Requirement)}

/-- Where a list has not asked before, the first scheme to respond decides. -/
lemma permitsFrom_cons : (w.permitsFrom anonymous ((s, options) :: schemes) fun _ => none).2 =
    match w.authenticate s with
    | .absent => (w.permitsFrom anonymous schemes fun _ => none).2
    | .found found => w.permitted options (w.named s found)
    | .refused _ => false
    | .raised _ => false := by
  have hafter : w.authenticate s = .absent →
      w.Faithful (Function.update (fun _ => none) s (some (.answer none))) := by
    intro habsent
    have h := (faithful_empty (w := w)).update s
    rwa [remember, habsent] at h
  rw [permitsFrom]
  cases hs : w.authenticate s with
  | absent => simpa [remember, hs] using (permitsFrom_faithful (hafter hs)).2
  | found found => simp [remember, hs]
  | refused error => simp [remember, hs]
  | raised status => simp [remember, hs]

/-- What a call of a gate without limits ends in, by the first scheme to respond. -/
lemma returns_cons : (w.search gate ((s, options) :: schemes)).Returns ↔
    match w.authenticate s with
    | .absent => (w.search gate schemes).Returns
    | .found found => w.admitted options (w.named s found) = .ok true
    | .refused _ => False
    | .raised _ => False := by
  rw [search]
  cases hs : w.authenticate s with
  | absent => rfl
  | found found =>
    simp only [admitPrincipal]
    rcases w.admitted options (w.named s found) with error | _ | _ <;> simp [CallOutcome.Returns]
  | refused error => simp [CallOutcome.Returns]
  | raised status => simp [CallOutcome.Returns]

omit [DecidableEq σ] in
/-- A raise is hidden by the scheme at the head, or by a later one if that does not respond. -/
lemma hidesRaise_cons : w.HidesRaise ((s, options) :: schemes) ↔
    match w.authenticate s with
    | .absent => w.HidesRaise schemes
    | .found found => w.HiddenRaise options (w.named s found)
    | .refused _ => False
    | .raised _ => False := by
  cases hs : w.authenticate s with
  | absent => simp [HidesRaise, AuthWorld.responds, hs]
  | found found =>
    constructor
    · rintro ⟨t, options', found', hfirst, hfound, hides⟩
      simp only [AuthWorld.responds, hs, List.find?_cons] at hfirst
      obtain ⟨rfl, rfl⟩ := Prod.mk.inj (Option.some.inj hfirst)
      cases hs.symm.trans hfound
      exact hides
    · intro hides
      refine ⟨s, options, found, ?_, hs, hides⟩
      simp [AuthWorld.responds, hs]
  | refused error => simp [HidesRaise, AuthWorld.responds, hs]
  | raised status => simp [HidesRaise, AuthWorld.responds, hs]

/-- A list shows the gates that a call returns from. -/
lemma permits_of_returns (h : (w.search gate schemes).Returns) :
    (w.permitsFrom gate.anonymous schemes fun _ => none).2 = true := by
  induction schemes with
  | nil => cases hanonymous : gate.anonymous <;> simp [permitsFrom, search, hanonymous, CallOutcome.Returns] at h ⊢
  | cons g schemes ih =>
    obtain ⟨s, options⟩ := g
    rw [permitsFrom_cons]
    rw [returns_cons] at h
    cases hs : w.authenticate s with
    | absent =>
      rw [hs] at h
      exact ih h
    | found found =>
      rw [hs] at h
      exact permitted_of_admitted h
    | refused error => simp [hs] at h
    | raised status => simp [hs] at h

/-- What a list shows and a call does not let through is a hidden raise. -/
lemma permits_and_not_returns_iff :
    ((w.permitsFrom gate.anonymous schemes fun _ => none).2 = true ∧ ¬ (w.search gate schemes).Returns) ↔
      w.HidesRaise schemes := by
  induction schemes with
  | nil => cases hanonymous : gate.anonymous <;> simp [permitsFrom, search, HidesRaise, hanonymous, CallOutcome.Returns]
  | cons g schemes ih =>
    obtain ⟨s, options⟩ := g
    rw [permitsFrom_cons, returns_cons, hidesRaise_cons]
    cases w.authenticate s with
    | absent => exact ih
    | found found => exact permitted_and_not_admitted_iff
    | refused error => simp
    | raised status => simp

end Gates

/-- What a list says of an entry. -/
def shows (w : CheckWorld σ ι) : Option (Gate σ ι) → Bool
  | none => true
  | some gate => (w.permits gate fun _ => none).2

/-- A list has the entries that its gates show each by itself. -/
lemma listed_eq {entries : List (String × Option (Gate σ ι))} {memo : Memo σ} (h : w.Faithful memo) :
    w.listed entries memo = (entries.filter fun entry => w.shows entry.2).map Prod.fst := by
  induction entries generalizing memo with
  | nil => rfl
  | cons entry entries ih =>
    obtain ⟨name, gate⟩ := entry
    cases gate with
    | none =>
      rw [listed, ih h]
      rfl
    | some gate =>
      have hmemo : w.Faithful (w.permits gate memo).1 := (permitsFrom_faithful h).1
      have hshown : (w.permits gate memo).2 = (w.permits gate fun _ => none).2 := (permitsFrom_faithful h).2
      simp only [listed, hshown, ih hmemo, List.filter_cons, shows]
      split <;> rfl

/-- Entries that are shown and not usable hide a raise. -/
lemma shows_and_not_usable_iff {auth : Option (AuthDeclaration σ)} :
    (w.shows (auth.map (gateOf ι)) = true ∧ ¬ w.Usable auth) ↔ ∃ policy ∈ auth, w.HidesRaise (plan policy).1 := by
  cases auth with
  | none => simp [shows, Usable]
  | some policy =>
    have h : ((w.permits (gateOf ι policy) fun _ => none).2 = true ∧ ¬ (w.call (gateOf ι policy)).Returns) ↔
        w.HidesRaise (plan policy).1 := permits_and_not_returns_iff
    simpa [shows, Usable] using h

/-- Usable entries are shown. -/
lemma shows_of_usable {auth : Option (AuthDeclaration σ)} (h : w.Usable auth) :
    w.shows (auth.map (gateOf ι)) = true := by
  cases auth with
  | none => rfl
  | some policy => exact permits_of_returns (h policy rfl)

/-- Where no raise is hidden, what is shown is usable. -/
lemma shows_iff_usable {auth : Option (AuthDeclaration σ)} (h : ∀ policy ∈ auth, ¬ w.HidesRaise (plan policy).1) :
    w.shows (auth.map (gateOf ι)) = true ↔ w.Usable auth := by
  constructor
  · intro hshown
    by_contra hnot
    obtain ⟨policy, hpolicy, hides⟩ := shows_and_not_usable_iff.mp ⟨hshown, hnot⟩
    exact h policy hpolicy hides
  · exact shows_of_usable

/-- The names shown are those usable, where no raise is hidden. -/
lemma listed_eq_usable_iff (entries : List (String × Option (AuthDeclaration σ))) :
    w.listed (entries.map fun entry => (entry.1, entry.2.map (gateOf ι))) (fun _ => none) = w.usable entries ↔
      w.Plain entries := by
  have hlisted : w.listed (entries.map fun entry => (entry.1, entry.2.map (gateOf ι))) (fun _ => none) =
      (entries.filter fun entry => w.shows (entry.2.map (gateOf ι))).map Prod.fst := by
    rw [listed_eq faithful_empty, List.filter_map, List.map_map]
    rfl
  rw [hlisted, usable]
  constructor
  · intro hnames entry hentry policy hpolicy hides
    -- what is shown contains what is usable, so equal lengths make them equal
    have hsub : (entries.filter fun entry => w.Usable entry.2).Sublist
        (entries.filter fun entry => w.shows (entry.2.map (gateOf ι))) :=
      List.monotone_filter_right entries fun entry husable => by
        simpa using shows_of_usable (of_decide_eq_true husable)
    have hlength := congrArg List.length hnames
    rw [List.length_map, List.length_map] at hlength
    have hsame := hsub.eq_of_length hlength.symm
    obtain ⟨hshown, hnot⟩ := shows_and_not_usable_iff.mpr ⟨policy, hpolicy, hides⟩
    have hmem : entry ∈ entries.filter fun entry => w.Usable entry.2 :=
      hsame ▸ List.mem_filter.mpr ⟨hentry, hshown⟩
    exact hnot (of_decide_eq_true (List.mem_filter.mp hmem).2)
  · intro hplain
    congr 1
    refine List.filter_congr fun entry hentry => ?_
    rw [Bool.eq_iff_iff, shows_iff_usable (hplain entry hentry), decide_eq_true_iff]

/-- A topic is given to those who may use it, where no raise is hidden. -/
theorem topicGiven_iff {auth : Option (AuthDeclaration σ)} (h : ∀ policy ∈ auth, ¬ w.HidesRaise (plan policy).1) :
    w.topicGiven (some auth) = true ↔ w.Usable auth := by
  have hshows : w.topicGiven (some auth) = w.shows (auth.map (gateOf ι)) := by
    cases auth <;> rfl
  rw [hshows]
  exact shows_iff_usable h

/-- A gate is shown exactly to those a call of it lets in, and a list has exactly what the caller may use, where no
raise is hidden.  A shared memo changes nothing. -/
theorem permits_iff_returns (w : CheckWorld σ ι) :
    (∀ auth earlier, w.Agrees auth earlier ↔ ¬ w.HidesRaise (plan auth).1) ∧
      (∀ auth earlier, (w.permits (gateOf ι auth) (w.memoAfter earlier)).2 =
        (w.permits (gateOf ι auth) fun _ => none).2) ∧
      (∀ capabilities, w.toolList capabilities = w.usable capabilities ↔ w.Plain capabilities) ∧
      ∀ resources, w.resourceList resources = w.usable (resources.filterMap fun r => r.2.map fun auth => (r.1, auth)) ↔
        w.Plain (resources.filterMap fun r => r.2.map fun auth => (r.1, auth)) := by
  have hsharing (auth : AuthDeclaration σ) (earlier : List (Gate σ ι)) :
      (w.permits (gateOf ι auth) (w.memoAfter earlier)).2 = (w.permits (gateOf ι auth) fun _ => none).2 :=
    (permitsFrom_faithful (faithful_memoAfter earlier)).2
  refine ⟨?_, hsharing, fun capabilities => listed_eq_usable_iff capabilities, ?_⟩
  · intro auth earlier
    have hiff : ((w.permits (gateOf ι auth) fun _ => none).2 = true ∧ ¬ (w.call (gateOf ι auth)).Returns) ↔
        w.HidesRaise (plan auth).1 := permits_and_not_returns_iff
    constructor
    · intro hagrees hides
      obtain ⟨hshown, hnot⟩ := hiff.mpr hides
      exact hnot (hagrees.calling.mp ((hsharing auth earlier).trans hshown))
    · intro hplain
      refine ⟨hsharing auth earlier, ?_⟩
      rw [hsharing]
      constructor
      · intro hshown
        by_contra hnot
        exact hplain (hiff.mp ⟨hshown, hnot⟩)
      · exact permits_of_returns
  · intro resources
    rw [resourceList, ← listed_eq_usable_iff, List.map_filterMap]
    simp only [Option.map_map, Function.comp_def]

/-- A scheme that finds a principal, and a check that raises. -/
def raisingCheck : CheckWorld Unit Unit where
  authenticate _ := .found ⟨"ada", "", ∅, ∅, [], none, ada_ne_empty⟩
  name _ := "bearer"
  challenge _ _ := none
  exceeded _ _ := none
  raises _ _ := some .other

/-- `scheme.requires(check=...) | scheme`. -/
def eitherWay : AuthDeclaration Unit :=
  ((AuthExpr.scheme ()).requires ⟨∅, ∅, some fun _ => true, ∅⟩ |>.or (.scheme ())).declare false

/-- The tool is listed, and calling it fails. -/
theorem raise_hidden :
    (raisingCheck.permits (gateOf Unit eitherWay) fun _ => none).2 = true ∧
      raisingCheck.call (gateOf Unit eitherWay) = .checkRaised .other ∧
      raisingCheck.toolList [("erase", some eitherWay)] = ["erase"] ∧
      ¬ raisingCheck.Usable (some eitherWay) := by
  decide +kernel

end CheckWorld

end Oxbrook
