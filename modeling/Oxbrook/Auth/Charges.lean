import Oxbrook.Auth.Gate

/-!
# What a request is charged

`Gate.spend` charges the limits keyed on the caller, by the caller where a scheme found one and by the address
otherwise.  The docstring of `Gate` says that every request spends from them exactly once.  The gate spends where
a scheme found a principal, where one raised `Unauthenticated` and where none responded.  A scheme may also raise
another `HTTPError`, as a session does for a request from another site and an identity provider that cannot be
reached, and there nothing is spent: `charged_once_iff`.
-/

namespace Oxbrook

namespace AuthWorld

variable {σ ι : Type} [DecidableEq σ] {w : AuthWorld σ ι} {e : AuthExpr σ} {anonymous : Bool}
variable {limits first shared : List ι}

/-- What a request should be charged, in order. -/
def due (w : AuthWorld σ ι) (e : AuthExpr σ) (gate : Gate σ ι) : List (ι × ChargeKey) :=
  (gate.first.map fun limit => (limit, .request)) ++
    (gate.limits ++ gate.shared).map fun limit => (limit, callerKey (w.callerOf e))

/-- Every limit was charged once, or those before the one that refused. -/
def ChargedOnce (w : AuthWorld σ ι) (e : AuthExpr σ) (gate : Gate σ ι) (run : GateRun σ ι) : Prop :=
  ((∀ wait, run.result ≠ .limited wait) → run.charges = w.due e gate) ∧
    ∀ wait, run.result = .limited wait → ∃ limit key after,
      w.due e gate = run.charges ++ (limit, key) :: after ∧ w.exceeded limit key = some wait

omit [DecidableEq σ] in
/-- Spending charges what is due. -/
lemma chargedOnce_spending {gate : Gate σ ι} {consulted consulted' : List σ} {caller : Option Principal}
    {result : GateResult} (hcaller : w.callerOf e = caller) (hresult : ∀ wait, result ≠ .limited wait) :
    let run := w.spending gate consulted caller result
    ChargedOnce w e gate { consulted := consulted'
                           charges := (gate.first.map fun limit => (limit, .request)) ++ run.charges
                           result := run.result } := by
  intro run
  by_cases hspent : ∀ limit ∈ gate.limits ++ gate.shared, w.exceeded limit (callerKey caller) = none
  · simp only [run, spending_of_within hspent]
    refine ⟨fun _ => ?_, fun wait hlimited => absurd hlimited (hresult wait)⟩
    rw [due, hcaller]
  · obtain ⟨before, limit, after, wait, hlimits, hover, hrun⟩ := spending_of_over hspent consulted result
    simp only [run, hrun]
    refine ⟨fun hnever => absurd rfl (hnever wait), fun wait' hwait => ?_⟩
    obtain rfl := GateResult.limited.inj hwait
    refine ⟨limit, callerKey caller, after.map fun limit => (limit, callerKey caller), ?_, hover⟩
    rw [due, hlimits, hcaller, List.map_append, List.map_cons, List.append_assoc]

omit [DecidableEq σ] in
/-- A scheme that raises leaves the limits of the caller alone. -/
lemma chargedOnce_raised_iff {gate : Gate σ ι} {consulted : List σ} {status : ℕ} :
    ChargedOnce w e gate { consulted
                           charges := gate.first.map fun limit => (limit, .request)
                           result := .raised status } ↔ gate.limits ++ gate.shared = [] := by
  constructor
  · intro h
    have hdue := h.1 nofun
    rw [due, List.self_eq_append_right, List.map_eq_nil_iff] at hdue
    exact hdue
  · intro hnone
    refine ⟨fun _ => ?_, nofun⟩
    rw [due, hnone, List.map_nil, List.append_nil]

end AuthWorld

end Oxbrook
