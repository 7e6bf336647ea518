import Mathlib.Data.List.TakeWhile
import Oxbrook.Auth.Policy

/-!
# The gate of a route

`Gate` of `python/oxbrook/_auth.py`: it tries the schemes of a plan in order, and the first that finds a
credential of its kind decides.  What the gate asks others for is in `AuthWorld`: what each scheme makes of the
request, its name and its challenges, and whether a rate limit is over its budget.  A run of the gate records the
schemes it consulted and the limits it charged.

`gate_computes_policy` compares the gate with the declaration as it is written, over every expression and every
behaviour of the schemes, the requirements and the limits.
-/

namespace Oxbrook

/-! ## What the gate asks for -/

/-- `Unauthenticated`. -/
structure Unauthenticated where
  detail : Option String
  headers : List (String × List String)
  type : String
  extensions : List (String × String)
  deriving DecidableEq

/-- `Forbidden`. -/
structure Forbidden where
  detail : Option String
  headers : List (String × List String)
  scopes : List String
  roles : List String
  deriving DecidableEq

/-- What `authenticate` does: no credential of its kind, a principal, a wrong credential, or another
`HTTPError`. -/
inductive Authenticated
  | absent
  | found (principal : Principal)
  | refused (error : Unauthenticated)
  | raised (status : ℕ)
  deriving DecidableEq

/-- What a challenge is asked for. -/
inductive ChallengeFor
  | nothing
  | unauthenticated (error : Unauthenticated)
  | forbidden (error : Forbidden)

/-- What a limit is charged by: its own key of the request, the address, or the caller. -/
inductive ChargeKey
  | request
  | address
  | principal (scheme subject : String)
  deriving DecidableEq

/-- One request, as seen by the schemes and the limits.  A limit answers with the wait, if it is over. -/
structure AuthWorld (σ ι : Type) where
  authenticate : σ → Authenticated
  name : σ → String
  challenge : σ → ChallengeFor → Option String
  exceeded : ι → ChargeKey → Option ℕ

/-- How a call of the gate ends. -/
inductive GateResult
  | granted (principal : Principal)
  | anonymous
  | unauthenticated (error : Unauthenticated)
  | forbidden (error : Forbidden)
  | raised (status : ℕ)
  | limited (wait : ℕ)
  deriving DecidableEq

/-- The result, the schemes whose `authenticate` was called, and the limits that were charged. -/
structure GateRun (σ ι : Type) where
  consulted : List σ
  charges : List (ι × ChargeKey)
  result : GateResult

/-! ## The gate -/

variable {σ ι : Type} [DecidableEq σ]

/-- `first` are the shared limits keyed on the address or a header, `shared` those keyed on the caller. -/
structure Gate (σ ι : Type) where
  schemes : List (SchemeOptions σ)
  anonymous : Bool
  limits : List ι
  first : List ι
  shared : List ι

def Gate.new (declaration : AuthDeclaration σ) (limits first shared : List ι) : Gate σ ι where
  schemes := (plan declaration).1
  anonymous := (plan declaration).2
  limits := limits
  first := first
  shared := shared

namespace AuthWorld

variable (w : AuthWorld σ ι)

/-- A principal that names no scheme is given the name of the one that found it. -/
def named (s : σ) (found : Principal) : Principal :=
  if found.scheme = "" then { found with scheme := w.name s } else found

/-- The challenge of a scheme, if it gives one that is not empty. -/
def challengeOf (s : σ) (asked : ChallengeFor) : Option String := (w.challenge s asked).filter (· ≠ "")

/-- `headers[name] = values`. -/
def setHeader (headers : List (String × List String)) (name : String) (values : List String) :
    List (String × List String) :=
  (headers.filter fun h => h.1 ≠ name) ++ [(name, values)]

/-- What a scheme is told about the error: only the one that raised it. -/
def asked (raised : Option (σ × Unauthenticated)) (s : σ) : ChallengeFor :=
  match raised with
  | some (raisedBy, error) => if s = raisedBy then .unauthenticated error else .nothing
  | none => .nothing

/-- `Gate.unauthenticated`. -/
def unauthenticated (gate : Gate σ ι) (raised : Option (σ × Unauthenticated)) : Unauthenticated :=
  let challenges := gate.schemes.filterMap fun g => w.challengeOf g.1 (asked raised g.1)
  let headers := (raised.map fun r => r.2.headers).getD []
  { detail := raised.bind fun r => r.2.detail
    headers := if challenges = [] then headers else setHeader headers "www-authenticate" challenges
    type := (raised.map fun r => r.2.type).getD "about:blank"
    extensions := (raised.map fun r => r.2.extensions).getD [] }

/-- `xs.extend(y for y in ys if y not in xs)`. -/
def extendNew (xs ys : List String) : List String :=
  ys.foldl (fun xs y => if y ∈ xs then xs else xs ++ [y]) xs

/-- `Gate.forbidden`. -/
def forbidden (s : σ) (requirements : List Requirement) (found : Principal) : Forbidden :=
  let missing := requirements.foldl (fun xs r => extendNew xs (r.missing found)) []
  let roles := requirements.foldl (fun xs r => extendNew xs (r.missingRoles found)) []
  let said :=
    (if missing = [] then [] else ["requires scope " ++ " ".intercalate missing]) ++
      if roles = [] then [] else ["requires role " ++ " ".intercalate roles]
  let refused : Forbidden :=
    { detail := if said = [] then none else some ("; ".intercalate said), headers := [], scopes := missing, roles }
  match w.challengeOf s (.forbidden refused) with
  | some value => { refused with headers := setHeader refused.headers "www-authenticate" [value] }
  | none => refused

/-- Charge limits in order, up to one that is over. -/
def chargeAll (key : ChargeKey) : List ι → List (ι × ChargeKey) × Option ℕ
  | [] => ([], none)
  | limit :: limits =>
    match w.exceeded limit key with
    | some wait => ([], some wait)
    | none =>
      let (charges, wait) := chargeAll key limits
      ((limit, key) :: charges, wait)

/-- What the limits of a caller are charged by. -/
def callerKey : Option Principal → ChargeKey
  | none => .address
  | some found => .principal found.scheme found.subject

/-- `Gate.spend`. -/
def spend (gate : Gate σ ι) (found : Option Principal) : List (ι × ChargeKey) × Option ℕ :=
  w.chargeAll (callerKey found) (gate.limits ++ gate.shared)

/-- What comes of a request once its limits are spent. -/
def spending (gate : Gate σ ι) (consulted : List σ) (caller : Option Principal) (result : GateResult) :
    GateRun σ ι :=
  let (charges, wait) := w.spend gate caller
  { consulted, charges, result := (wait.map GateResult.limited).getD result }

/-- What a scheme that found a principal leads to. -/
def admitPrincipal (s : σ) (options : List (List Requirement)) (found : Principal) : GateResult :=
  if options.any fun requirements => requirements.all fun r => r.met found then .granted found
  else .forbidden (w.forbidden s (options.headD []) found)

/-- The loop of `Gate.__call__`. -/
def search (gate : Gate σ ι) : List (SchemeOptions σ) → GateRun σ ι
  | [] =>
    w.spending gate [] none
      (if gate.anonymous then .anonymous else .unauthenticated (w.unauthenticated gate none))
  | (s, options) :: rest =>
    match w.authenticate s with
    | .refused error =>
      w.spending gate [s] none (.unauthenticated (w.unauthenticated gate (some (s, error))))
    | .raised status => { consulted := [s], charges := [], result := .raised status }
    | .absent =>
      let run := search gate rest
      { run with consulted := s :: run.consulted }
    | .found found =>
      w.spending gate [s] (some (w.named s found)) (w.admitPrincipal s options (w.named s found))

/-- `Gate.__call__`. -/
def call (gate : Gate σ ι) : GateRun σ ι :=
  match w.chargeAll .request gate.first with
  | (charges, some wait) => { consulted := [], charges, result := .limited wait }
  | (charges, none) =>
    let run := w.search gate gate.schemes
    { run with charges := charges ++ run.charges }

/-! ## The declared policy -/

/-- `authenticate` did not return `None`. -/
def responds (s : σ) : Bool := w.authenticate s ≠ .absent

/-- The first scheme, in the order in which they are written, that did not return `None`. -/
def firstToRespond (e : AuthExpr σ) : Option σ := (e.written.map Prod.fst).find? w.responds

/-- Some written alternative of the scheme has all its requirements met. -/
def Meets (e : AuthExpr σ) (s : σ) (found : Principal) : Prop :=
  ∃ requirements, (s, requirements) ∈ e.written ∧ ∀ r ∈ requirements, r.met found = true

/-- No limit of the gate is over for this caller. -/
def Within (gate : Gate σ ι) (caller : Option Principal) : Prop :=
  (∀ limit ∈ gate.first, w.exceeded limit .request = none) ∧
    ∀ limit ∈ gate.limits ++ gate.shared, w.exceeded limit (callerKey caller) = none

variable {w}

section Charges

variable {key : ChargeKey} {limits : List ι}

omit [DecidableEq σ] in
/-- Where no limit is over, each is charged once. -/
lemma chargeAll_of_within (h : ∀ limit ∈ limits, w.exceeded limit key = none) :
    w.chargeAll key limits = (limits.map fun limit => (limit, key), none) := by
  induction limits with
  | nil => rfl
  | cons limit limits ih =>
    have hrest := ih fun l hl => h l (List.mem_cons_of_mem _ hl)
    rw [chargeAll, h limit (List.mem_cons_self ..), hrest, List.map_cons]

omit [DecidableEq σ] in
/-- Otherwise those before the first that is over. -/
lemma chargeAll_of_over (h : ¬ ∀ limit ∈ limits, w.exceeded limit key = none) :
    ∃ before limit after wait, limits = before ++ limit :: after ∧ w.exceeded limit key = some wait ∧
      w.chargeAll key limits = (before.map fun limit => (limit, key), some wait) := by
  induction limits with
  | nil => exact absurd nofun h
  | cons limit limits ih =>
    cases hover : w.exceeded limit key with
    | some wait =>
      refine ⟨[], limit, limits, wait, rfl, hover, ?_⟩
      rw [chargeAll, hover, List.map_nil]
    | none =>
      have hrest : ¬ ∀ l ∈ limits, w.exceeded l key = none := by
        intro hall
        refine h fun l hl => ?_
        obtain rfl | hl := List.mem_cons.mp hl
        · exact hover
        · exact hall l hl
      obtain ⟨before, l, after, wait, rfl, hwait, hcharges⟩ := ih hrest
      refine ⟨limit :: before, l, after, wait, rfl, hwait, ?_⟩
      rw [chargeAll, hover, hcharges, List.map_cons]

end Charges

/-- What the first scheme to respond leads to, or that there is none. -/
def decided (w : AuthWorld σ ι) (gate : Gate σ ι) (options : σ → List (List Requirement)) :
    Option σ → GateRun σ ι
  | some s =>
    match w.authenticate s with
    | .refused error =>
      w.spending gate [s] none (.unauthenticated (w.unauthenticated gate (some (s, error))))
    | .raised status => { consulted := [s], charges := [], result := .raised status }
    | .found found => w.spending gate [s] (some (w.named s found)) (w.admitPrincipal s (options s) (w.named s found))
    | .absent => { consulted := [s], charges := [], result := .anonymous }
  | none =>
    w.spending gate [] none
      (if gate.anonymous then .anonymous else .unauthenticated (w.unauthenticated gate none))

/-- The loop ends at the first scheme that responds. -/
lemma search_eq (gate : Gate σ ι) (options : σ → List (List Requirement)) (order : List σ) :
    let run := w.decided gate options (order.find? w.responds)
    w.search gate (order.map fun s => (s, options s)) =
      { run with consulted := (order.takeWhile fun s => ! w.responds s) ++ run.consulted } := by
  induction order with
  | nil => rfl
  | cons s order ih =>
    intro run
    rw [List.map_cons, search]
    cases hs : w.authenticate s with
    | absent => simp [run, ih, responds, hs]
    | found p => simp [run, responds, hs, decided, spending]
    | refused error => simp [run, responds, hs, decided, spending]
    | raised status => simp [run, responds, hs, decided]

omit [DecidableEq σ] in
lemma spending_of_within {gate : Gate σ ι} {caller : Option Principal}
    (h : ∀ limit ∈ gate.limits ++ gate.shared, w.exceeded limit (callerKey caller) = none) (consulted : List σ)
    (result : GateResult) :
    w.spending gate consulted caller result =
      { consulted, charges := (gate.limits ++ gate.shared).map fun limit => (limit, callerKey caller), result } := by
  rw [spending, spend, chargeAll_of_within h]
  rfl

omit [DecidableEq σ] in
lemma spending_of_over {gate : Gate σ ι} {caller : Option Principal}
    (h : ¬ ∀ limit ∈ gate.limits ++ gate.shared, w.exceeded limit (callerKey caller) = none) (consulted : List σ)
    (result : GateResult) :
    ∃ before limit after wait, gate.limits ++ gate.shared = before ++ limit :: after ∧
      w.exceeded limit (callerKey caller) = some wait ∧
      w.spending gate consulted caller result =
        { consulted, charges := before.map fun limit => (limit, callerKey caller), result := .limited wait } := by
  obtain ⟨before, limit, after, wait, hlimits, hover, hcharges⟩ := chargeAll_of_over h
  refine ⟨before, limit, after, wait, hlimits, hover, ?_⟩
  rw [spending, spend, hcharges]
  rfl

end AuthWorld

/-! ## The gate of an expression -/

/-- The gate of a route declared with `auth=e` or `auth=optional(e)`. -/
def AuthExpr.gate (e : AuthExpr σ) (anonymous : Bool) (limits first shared : List ι) : Gate σ ι :=
  Gate.new (e.declare anonymous) limits first shared

namespace AuthWorld

variable {w : AuthWorld σ ι} {e : AuthExpr σ} {anonymous : Bool} {limits first shared : List ι}

/-- The alternatives a scheme has in the plan are the written ones. -/
lemma any_optionsOf {s : σ} {found : Principal} :
    ((optionsOf e.written s).any fun requirements => requirements.all fun r => r.met found) = true ↔
      Meets e s found := by
  simp only [optionsOf, List.any_map, List.any_filter, List.any_eq_true, Function.comp, Meets,
    Bool.and_eq_true, decide_eq_true_eq, List.all_eq_true]
  constructor
  · rintro ⟨⟨t, requirements⟩, hmem, rfl, hmet⟩
    exact ⟨requirements, hmem, hmet⟩
  · rintro ⟨requirements, hmem, hmet⟩
    exact ⟨(s, requirements), hmem, rfl, hmet⟩

variable (w) in
/-- A call whose first limits are within their budgets. -/
lemma call_of_first_within (h : ∀ limit ∈ first, w.exceeded limit .request = none) :
    let run := w.decided (e.gate anonymous limits first shared) (optionsOf e.written) (w.firstToRespond e)
    w.call (e.gate anonymous limits first shared) =
      { consulted := ((firstWritten e.written).takeWhile fun s => ! w.responds s) ++ run.consulted
        charges := (first.map fun limit => (limit, .request)) ++ run.charges
        result := run.result } := by
  intro run
  have hschemes : (e.gate anonymous limits first shared).schemes =
      (firstWritten e.written).map fun s => (s, optionsOf e.written s) := by
    rw [AuthExpr.gate, Gate.new, plan_declare]
  have hfirst : w.chargeAll .request (e.gate anonymous limits first shared).first =
      (first.map fun limit => (limit, .request), none) := chargeAll_of_within h
  rw [call, hfirst, hschemes]
  simp only [search_eq, find?_firstWritten]
  rfl

variable (w e anonymous limits shared) in
/-- A call one of whose first limits is over. -/
lemma call_of_first_over (h : ¬ ∀ limit ∈ first, w.exceeded limit .request = none) :
    ∃ before limit after wait, first = before ++ limit :: after ∧ w.exceeded limit .request = some wait ∧
      w.call (e.gate anonymous limits first shared) =
        { consulted := [], charges := before.map fun limit => (limit, .request), result := .limited wait } := by
  obtain ⟨before, limit, after, wait, hlimits, hover, hcharges⟩ := chargeAll_of_over h
  refine ⟨before, limit, after, wait, hlimits, hover, ?_⟩
  have hfirst : w.chargeAll .request (e.gate anonymous limits first shared).first =
      (before.map fun limit => (limit, .request), some wait) := hcharges
  rw [call, hfirst]

/-- The caller that the first scheme to respond found, if it found one. -/
def callerOf (w : AuthWorld σ ι) (e : AuthExpr σ) : Option Principal :=
  (w.firstToRespond e).bind fun s =>
    match w.authenticate s with
    | .found found => some (w.named s found)
    | _ => none

/-- What the written declaration says about a request. -/
inductive Judged (w : AuthWorld σ ι) (e : AuthExpr σ) (anonymous : Bool) (gate : Gate σ ι) :
    GateResult → Prop
  | granted {s : σ} {found : Principal} (within : w.Within gate (some (w.named s found)))
      (responds : w.firstToRespond e = some s) (authenticated : w.authenticate s = .found found)
      (meets : Meets e s (w.named s found)) : Judged w e anonymous gate (.granted (w.named s found))
  | forbidden {s : σ} {found : Principal} (error : Forbidden)
      (within : w.Within gate (some (w.named s found)))
      (responds : w.firstToRespond e = some s) (authenticated : w.authenticate s = .found found)
      (fails : ¬ Meets e s (w.named s found)) : Judged w e anonymous gate (.forbidden error)
  | refused {s : σ} {refused : Unauthenticated} (error : Unauthenticated) (within : w.Within gate none)
      (responds : w.firstToRespond e = some s) (authenticated : w.authenticate s = .refused refused) :
      Judged w e anonymous gate (.unauthenticated error)
  | raised {s : σ} {status : ℕ} (responds : w.firstToRespond e = some s)
      (authenticated : w.authenticate s = .raised status) : Judged w e anonymous gate (.raised status)
  | anonymous (within : w.Within gate none) (absent : w.firstToRespond e = none)
      (optional : anonymous = true) : Judged w e anonymous gate .anonymous
  | missing (error : Unauthenticated) (within : w.Within gate none) (absent : w.firstToRespond e = none)
      (mandatory : anonymous = false) : Judged w e anonymous gate (.unauthenticated error)
  | limited (wait : ℕ) (exceeds : ¬ w.Within gate (w.callerOf e)) : Judged w e anonymous gate (.limited wait)

omit [DecidableEq σ] in
/-- Spending the limits of the caller either leads to the result or says that a limit is over. -/
lemma judged_spending {gate : Gate σ ι} {caller : Option Principal} {result : GateResult}
    (hfirst : ∀ limit ∈ gate.first, w.exceeded limit .request = none) (consulted : List σ)
    (hcaller : w.callerOf e = caller) (h : w.Within gate caller → Judged w e anonymous gate result) :
    Judged w e anonymous gate (w.spending gate consulted caller result).result := by
  by_cases hspent : ∀ limit ∈ gate.limits ++ gate.shared, w.exceeded limit (callerKey caller) = none
  · rw [spending_of_within hspent]
    exact h ⟨hfirst, hspent⟩
  · obtain ⟨before, limit, after, wait, -, -, hrun⟩ := spending_of_over hspent consulted result
    rw [hrun]
    refine .limited wait fun hwithin => hspent ?_
    rw [← hcaller]
    exact hwithin.2

omit [DecidableEq σ] in
lemma authenticate_ne_absent {s : σ} (h : w.firstToRespond e = some s) : w.authenticate s ≠ .absent := by
  have hresponds := List.find?_some h
  simpa [responds] using hresponds

variable (w e anonymous limits first shared) in
/-- The gate does what the declaration says. -/
theorem judged_call :
    Judged w e anonymous (e.gate anonymous limits first shared)
      (w.call (e.gate anonymous limits first shared)).result := by
  by_cases hfirst : ∀ limit ∈ first, w.exceeded limit .request = none
  · rw [call_of_first_within w hfirst]
    cases hresponds : w.firstToRespond e with
    | none =>
      have hcaller : w.callerOf e = none := by simp [callerOf, hresponds]
      have hanonymous : (e.gate anonymous limits first shared).anonymous = anonymous := by
        rw [AuthExpr.gate, Gate.new, plan_declare]
      refine judged_spending hfirst [] hcaller fun hwithin => ?_
      rw [hanonymous]
      cases anonymous with
      | true => exact .anonymous hwithin hresponds rfl
      | false => exact .missing _ hwithin hresponds rfl
    | some s =>
      simp only [decided]
      cases hauthenticate : w.authenticate s with
      | absent => exact absurd hauthenticate (authenticate_ne_absent hresponds)
      | raised status => exact .raised hresponds hauthenticate
      | refused error =>
        have hcaller : w.callerOf e = none := by simp [callerOf, hresponds, hauthenticate]
        exact judged_spending hfirst [s] hcaller fun hwithin => .refused _ hwithin hresponds hauthenticate
      | found found =>
        have hcaller : w.callerOf e = some (w.named s found) := by
          simp [callerOf, hresponds, hauthenticate]
        refine judged_spending hfirst [s] hcaller fun hwithin => ?_
        rw [admitPrincipal]
        by_cases hmeets : Meets e s (w.named s found)
        · rw [if_pos (any_optionsOf.mpr hmeets)]
          exact .granted hwithin hresponds hauthenticate hmeets
        · rw [if_neg (fun h => hmeets (any_optionsOf.mp h))]
          exact .forbidden _ hwithin hresponds hauthenticate hmeets
  · obtain ⟨before, limit, after, wait, -, -, hcall⟩ :=
      call_of_first_over w e anonymous limits shared hfirst
    rw [hcall]
    exact .limited wait fun hwithin => hfirst hwithin.1

omit [DecidableEq σ] in
lemma spending_consulted (gate : Gate σ ι) (consulted : List σ) (caller : Option Principal)
    (result : GateResult) : (w.spending gate consulted caller result).consulted = consulted := rfl

lemma decided_consulted (gate : Gate σ ι) (options : σ → List (List Requirement)) (o : Option σ) :
    (w.decided gate options o).consulted = o.toList := by
  cases o with
  | none => rfl
  | some s =>
    simp only [decided]
    split <;> rfl

/-- No scheme is consulted after one that responded. -/
lemma consulted_last {before after : List σ} {s : σ}
    (h : (w.call (e.gate anonymous limits first shared)).consulted = before ++ s :: after)
    (responds : w.responds s = true) : after = [] := by
  by_cases hfirst : ∀ limit ∈ first, w.exceeded limit .request = none
  · rw [call_of_first_within w hfirst, decided_consulted] at h
    have hlast : ∀ before', (w.firstToRespond e).toList = before' ++ s :: after → after = [] := by
      intro before' hsplit
      cases hfound : w.firstToRespond e with
      | none => simp [hfound] at hsplit
      | some t =>
        rw [hfound] at hsplit
        have hlength := congrArg List.length hsplit
        simp only [Option.toList_some, List.length_cons, List.length_nil, List.length_append] at hlength
        exact List.length_eq_zero_iff.mp (by omega)
    obtain ⟨middle, hbefore, htail⟩ | ⟨middle, hskipped, htail⟩ := List.append_eq_append_iff.mp h
    · exact hlast middle htail
    · cases middle with
      | nil => exact hlast [] htail.symm
      | cons t middle =>
        obtain rfl : s = t := by simpa using congrArg List.head? htail
        have hmem : s ∈ (firstWritten e.written).takeWhile fun s => ! w.responds s := by
          rw [hskipped]
          exact List.mem_append_right _ (List.mem_cons_self ..)
        have hsilent := List.mem_takeWhile_imp hmem
        simp [responds] at hsilent
  · obtain ⟨_, _, _, _, -, -, hcall⟩ := call_of_first_over w e anonymous limits shared hfirst
    simp [hcall] at h

/-- Two expressions that differ in how the alternatives of a scheme are grouped, repeated or ordered: the schemes
are first written in the same order, and each alternative of one is an alternative of the other. -/
def SameAlternatives (e e' : AuthExpr σ) : Prop :=
  firstWritten e.written = firstWritten e'.written ∧
    (∀ alternative ∈ e.written, ∃ alternative' ∈ e'.written,
      alternative'.1 = alternative.1 ∧ ∀ r, r ∈ alternative'.2 ↔ r ∈ alternative.2) ∧
    ∀ alternative' ∈ e'.written, ∃ alternative ∈ e.written,
      alternative.1 = alternative'.1 ∧ ∀ r, r ∈ alternative.2 ↔ r ∈ alternative'.2

lemma SameAlternatives.meets_iff {e' : AuthExpr σ} (h : SameAlternatives e e') {s : σ} {found : Principal} :
    Meets e s found ↔ Meets e' s found := by
  constructor
  · rintro ⟨requirements, hmem, hmet⟩
    obtain ⟨⟨t, requirements'⟩, hmem', rfl, hsame⟩ := h.2.1 _ hmem
    exact ⟨requirements', hmem', fun r hr => hmet r ((hsame r).mp hr)⟩
  · rintro ⟨requirements, hmem, hmet⟩
    obtain ⟨⟨t, requirements'⟩, hmem', rfl, hsame⟩ := h.2.2 _ hmem
    exact ⟨requirements', hmem', fun r hr => hmet r ((hsame r).mp hr)⟩

/-- A `401` depends on the schemes of the plan and their order alone. -/
lemma unauthenticated_congr {gate gate' : Gate σ ι}
    (h : gate.schemes.map Prod.fst = gate'.schemes.map Prod.fst) (raised : Option (σ × Unauthenticated)) :
    w.unauthenticated gate raised = w.unauthenticated gate' raised := by
  let F (s : σ) : Option String := w.challengeOf s (asked raised s)
  have hmap : (gate.schemes.filterMap fun g => F g.1) = gate'.schemes.filterMap fun g => F g.1 := by
    have hfst : ∀ schemes : List (SchemeOptions σ),
        (schemes.filterMap fun g => F g.1) = (schemes.map Prod.fst).filterMap F := by
      intro schemes
      rw [List.filterMap_map]
      rfl
    rw [hfst, hfst, h]
  simp only [F] at hmap
  simp only [unauthenticated, hmap]

/-- The same run, but for what a `403` says. -/
def SameRun (run run' : GateRun σ ι) : Prop :=
  run'.consulted = run.consulted ∧ run'.charges = run.charges ∧
    (run'.result = run.result ∨ ∃ error error', run.result = .forbidden error ∧ run'.result = .forbidden error')

omit [DecidableEq σ] in
lemma SameRun.refl (run : GateRun σ ι) : SameRun run run := ⟨rfl, rfl, .inl rfl⟩

omit [DecidableEq σ] in
lemma sameRun_spending {gate gate' : Gate σ ι} (limits : gate'.limits = gate.limits)
    (shared : gate'.shared = gate.shared) (consulted : List σ) (caller : Option Principal)
    {result result' : GateResult}
    (h : result' = result ∨ ∃ error error', result = .forbidden error ∧ result' = .forbidden error') :
    SameRun (w.spending gate consulted caller result) (w.spending gate' consulted caller result') := by
  refine ⟨rfl, ?_, ?_⟩
  · simp only [spending, spend, limits, shared]
  · simp only [spending, spend, limits, shared]
    cases (w.chargeAll (callerKey caller) (gate.limits ++ gate.shared)).2 with
    | some wait => exact .inl rfl
    | none => exact h

variable (w anonymous limits first shared) in
/-- Grouping or repeating alternatives of a scheme changes nothing. -/
lemma SameAlternatives.sameRun {e' : AuthExpr σ} (h : SameAlternatives e e') :
    SameRun (w.call (e.gate anonymous limits first shared))
      (w.call (e'.gate anonymous limits first shared)) := by
  have hresponds : w.firstToRespond e' = w.firstToRespond e := by
    rw [firstToRespond, firstToRespond, ← find?_firstWritten, ← find?_firstWritten, h.1]
  have hschemes : (e'.gate anonymous limits first shared).schemes.map Prod.fst =
      (e.gate anonymous limits first shared).schemes.map Prod.fst := by
    rw [AuthExpr.gate, Gate.new, plan_declare, AuthExpr.gate, Gate.new, plan_declare, List.map_map,
      List.map_map, h.1]
    rfl
  have hanonymous : (e'.gate anonymous limits first shared).anonymous =
      (e.gate anonymous limits first shared).anonymous := by
    rw [AuthExpr.gate, Gate.new, plan_declare, AuthExpr.gate, Gate.new, plan_declare]
  by_cases hfirst : ∀ limit ∈ first, w.exceeded limit .request = none
  · have hdecided : SameRun
        (w.decided (e.gate anonymous limits first shared) (optionsOf e.written) (w.firstToRespond e))
        (w.decided (e'.gate anonymous limits first shared) (optionsOf e'.written) (w.firstToRespond e)) := by
      cases w.firstToRespond e with
      | none =>
        rw [decided, decided, unauthenticated_congr hschemes, hanonymous]
        exact sameRun_spending rfl rfl _ _ (.inl rfl)
      | some s =>
        simp only [decided]
        cases w.authenticate s with
        | absent => exact .refl _
        | raised status => exact .refl _
        | refused error =>
          simp only [unauthenticated_congr hschemes]
          exact sameRun_spending rfl rfl _ _ (.inl rfl)
        | found found =>
          refine sameRun_spending rfl rfl _ _ ?_
          rw [admitPrincipal, admitPrincipal]
          by_cases hmeets : Meets e s (w.named s found)
          · rw [if_pos (any_optionsOf.mpr hmeets), if_pos (any_optionsOf.mpr (h.meets_iff.mp hmeets))]
            exact .inl rfl
          · rw [if_neg fun hany => hmeets (any_optionsOf.mp hany),
              if_neg fun hany => hmeets (h.meets_iff.mpr (any_optionsOf.mp hany))]
            exact .inr ⟨_, _, rfl, rfl⟩
    rw [call_of_first_within w hfirst, call_of_first_within w hfirst, hresponds, h.1]
    obtain ⟨hconsulted, hcharges, hresult⟩ := hdecided
    simp only [SameRun, hconsulted, hcharges, true_and]
    exact hresult
  · obtain ⟨before, limit, after, wait, -, -, hcharges⟩ := chargeAll_of_over hfirst
    have hcall : ∀ e : AuthExpr σ, w.call (e.gate anonymous limits first shared) =
        { consulted := [], charges := before.map fun limit => (limit, .request), result := .limited wait } := by
      intro e
      have hgate : (e.gate anonymous limits first shared).first = first := rfl
      rw [call, hgate, hcharges]
    rw [hcall, hcall]
    exact .refl _

omit [DecidableEq σ] in
lemma firstToRespond_eq_none : w.firstToRespond e = none ↔
    ∀ alternative ∈ e.written, w.authenticate alternative.1 = .absent := by
  simp [firstToRespond, responds]

namespace Judged

variable {gate : Gate σ ι} {result : GateResult}

omit [DecidableEq σ] in
lemma granted_iff (h : Judged w e anonymous gate result) (p : Principal) :
    result = .granted p ↔ w.Within gate (some p) ∧ ∃ s found, w.firstToRespond e = some s ∧
      w.authenticate s = .found found ∧ p = w.named s found ∧ Meets e s p := by
  constructor
  · rintro rfl
    cases h with
    | granted within responds authenticated meets => exact ⟨within, _, _, responds, authenticated, rfl, meets⟩
  · rintro ⟨hwithin, s, found, hresponds, hfound, rfl, hmeets⟩
    have hcaller : w.callerOf e = some (w.named s found) := by simp [callerOf, hresponds, hfound]
    cases h <;> simp_all

omit [DecidableEq σ] in
lemma anonymous_iff (h : Judged w e anonymous gate result) :
    result = .anonymous ↔ w.Within gate none ∧ w.firstToRespond e = none ∧ anonymous = true := by
  constructor
  · rintro rfl
    cases h with
    | anonymous within absent optional => exact ⟨within, absent, optional⟩
  · rintro ⟨hwithin, habsent, rfl⟩
    have hcaller : w.callerOf e = none := by simp [callerOf, habsent]
    cases h <;> simp_all

omit [DecidableEq σ] in
lemma forbidden_iff (h : Judged w e anonymous gate result) :
    (∃ error, result = .forbidden error) ↔ ∃ s found, w.firstToRespond e = some s ∧
      w.authenticate s = .found found ∧ w.Within gate (some (w.named s found)) ∧
        ¬ Meets e s (w.named s found) := by
  constructor
  · rintro ⟨error, rfl⟩
    cases h with
    | forbidden _ within responds authenticated fails => exact ⟨_, _, responds, authenticated, within, fails⟩
  · rintro ⟨s, found, hresponds, hfound, hwithin, hfails⟩
    have hcaller : w.callerOf e = some (w.named s found) := by simp [callerOf, hresponds, hfound]
    cases h <;> simp_all

omit [DecidableEq σ] in
lemma unauthenticated_iff (h : Judged w e anonymous gate result) :
    (∃ error, result = .unauthenticated error) ↔ w.Within gate none ∧
      ((∃ s error, w.firstToRespond e = some s ∧ w.authenticate s = .refused error) ∨
        w.firstToRespond e = none ∧ anonymous = false) := by
  constructor
  · rintro ⟨error, rfl⟩
    cases h with
    | refused _ within responds authenticated => exact ⟨within, .inl ⟨_, _, responds, authenticated⟩⟩
    | missing _ within absent mandatory => exact ⟨within, .inr ⟨absent, mandatory⟩⟩
  · rintro ⟨hwithin, ⟨s, error, hresponds, hrefused⟩ | ⟨habsent, rfl⟩⟩
    · have hcaller : w.callerOf e = none := by simp [callerOf, hresponds, hrefused]
      cases h <;> simp_all
    · have hcaller : w.callerOf e = none := by simp [callerOf, habsent]
      cases h <;> simp_all

end Judged

variable (w e anonymous limits first shared) in
/-- **The gate computes the declared policy.**  It returns a principal if and only if the first scheme to respond,
in the order in which they are written, found it, some written alternative of that scheme has all its
requirements met, and no limit is over; the principal is the one found, with the name of the scheme filled in
where it was empty.  It returns `None` if and only if no scheme responds and the policy is optional, refuses with
`403` if and only if the principal that was found meets no alternative, and with `401` if and only if the first
scheme to respond refused, or none responds and the policy is not optional; each unless a limit is over.  No
scheme is consulted after one that responded, and grouping or repeating the alternatives of a scheme changes
nothing but what a `403` says. -/
theorem gate_computes_policy :
    let gate := e.gate anonymous limits first shared
    let run := w.call gate
    (∀ p, run.result = .granted p ↔ w.Within gate (some p) ∧ ∃ s found, w.firstToRespond e = some s ∧
      w.authenticate s = .found found ∧ p = w.named s found ∧ Meets e s p) ∧
    (run.result = .anonymous ↔ w.Within gate none ∧
      (∀ alternative ∈ e.written, w.authenticate alternative.1 = .absent) ∧ anonymous = true) ∧
    ((∃ error, run.result = .forbidden error) ↔ ∃ s found, w.firstToRespond e = some s ∧
      w.authenticate s = .found found ∧ w.Within gate (some (w.named s found)) ∧
        ¬ Meets e s (w.named s found)) ∧
    ((∃ error, run.result = .unauthenticated error) ↔ w.Within gate none ∧
      ((∃ s error, w.firstToRespond e = some s ∧ w.authenticate s = .refused error) ∨
        (∀ alternative ∈ e.written, w.authenticate alternative.1 = .absent) ∧ anonymous = false)) ∧
    (∀ before s after, run.consulted = before ++ s :: after → w.responds s = true → after = []) ∧
    ∀ e', SameAlternatives e e' → SameRun run (w.call (e'.gate anonymous limits first shared)) := by
  intro gate run
  have hjudged : Judged w e anonymous gate run.result := judged_call w e anonymous limits first shared
  simp only [← firstToRespond_eq_none]
  exact ⟨hjudged.granted_iff, hjudged.anonymous_iff, hjudged.forbidden_iff, hjudged.unauthenticated_iff,
    fun before s after => consulted_last, fun e' h => h.sameRun w anonymous limits first shared⟩

/-- A principal that names no scheme is returned under the name of the scheme that found it, and a caller over
its limit is refused, whoever it is. -/
theorem gate_names_and_limits :
    let p : Principal := ⟨"7", "", ∅, ∅, [], none, by decide⟩
    let w : AuthWorld Unit Unit := ⟨fun _ => .found p, fun _ => "bearer", fun _ _ => none, fun _ _ => some 1⟩
    let e : AuthExpr Unit := .scheme ()
    (w.call (e.gate false [] [] [])).result = .granted { p with scheme := "bearer" } ∧
      { p with scheme := "bearer" } ≠ p ∧
      (w.call (e.gate false [()] [] [])).result = .limited 1 := by
  decide +kernel

end AuthWorld

end Oxbrook
