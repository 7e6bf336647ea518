import Mathlib.Data.Finset.Sort
import Mathlib.Data.String.Basic

/-!
# Declarations of who may call

Schemes, `|` and `.requires(...)` of `python/oxbrook/auth.py`, and `plan` of `python/oxbrook/_auth.py`, which
turns a declaration into the list a gate runs through.  `AuthExpr` is what is written; `AuthExpr.build` makes the
objects Python makes, where `|` joins the members of both sides in one `_Either`.

`written` says what an expression means: its alternatives in order, each a scheme with every requirement around
it.  `alternatives_build` and `group_eq` connect it to what `plan` computes: each scheme once, in the order in
which it is first written, with the requirements of all its alternatives.
-/

namespace Oxbrook

/-! ## Principals and requirements -/

/-- `Principal`. -/
structure Principal where
  subject : String
  scheme : String
  scopes : Finset String
  roles : Finset String
  claims : List (String × String)
  user : Option String
  subject_ne : subject ≠ ""
  deriving DecidableEq

/-- The subject of the principals that stand for some caller. -/
lemma ada_ne_empty : "ada" ≠ "" := by decide

/-- `Requirement`.  The check is what `check=` answers for the request at hand. -/
structure Requirement where
  allOf : Finset String
  anyOf : Finset String
  check : Option (Principal → Bool)
  roles : Finset String

namespace Requirement

/-- `Requirement.met`. -/
def met (r : Requirement) (found : Principal) : Bool :=
  if ¬ r.allOf ⊆ found.scopes then false
  else if r.anyOf.Nonempty ∧ ¬ (r.anyOf ∩ found.scopes).Nonempty then false
  else if ¬ r.roles ⊆ found.roles then false
  else match r.check with
    | some check => check found
    | none => true

/-- `Requirement.missing`. -/
def missing (r : Requirement) (found : Principal) : List String :=
  (r.allOf \ found.scopes).sort (· ≤ ·) ++
    if r.anyOf.Nonempty ∧ ¬ (r.anyOf ∩ found.scopes).Nonempty then r.anyOf.sort (· ≤ ·) else []

/-- `Requirement.missing_roles`. -/
def missingRoles (r : Requirement) (found : Principal) : List String :=
  (r.roles \ found.roles).sort (· ≤ ·)

end Requirement

/-! ## Declarations -/

/-- The objects of a declaration: a scheme, `_Either` or `_Required`. -/
inductive AuthPolicy (σ : Type)
  | scheme (s : σ)
  | either (members : List (AuthPolicy σ))
  | required (inner : AuthPolicy σ) (requirement : Requirement)

variable {σ : Type}

/-- One way through a declaration: a scheme, and what its principal must meet. -/
abbrev Alternative (σ : Type) := σ × List Requirement

namespace AuthPolicy

/-- `_members`. -/
def members : AuthPolicy σ → List (AuthPolicy σ)
  | either members => members
  | policy => [policy]

mutual

/-- `_alternatives`. -/
def alternatives : AuthPolicy σ → List (Alternative σ)
  | either members => alternativesOfAll members
  | required inner requirement =>
    (alternatives inner).map fun (s, requirements) => (s, requirements ++ [requirement])
  | scheme s => [(s, [])]

/-- Those of the members of an `_Either`. -/
def alternativesOfAll : List (AuthPolicy σ) → List (Alternative σ)
  | [] => []
  | member :: members => alternatives member ++ alternativesOfAll members

end

lemma alternativesOfAll_append (ps qs : List (AuthPolicy σ)) :
    alternativesOfAll (ps ++ qs) = alternativesOfAll ps ++ alternativesOfAll qs := by
  induction ps with
  | nil => rfl
  | cons p ps ih => rw [List.cons_append, alternativesOfAll, alternativesOfAll, ih, List.append_assoc]

lemma alternativesOfAll_members (policy : AuthPolicy σ) :
    alternativesOfAll policy.members = policy.alternatives := by
  cases policy with
  | either ms => rw [AuthPolicy.members, alternatives]
  | scheme s => simp [AuthPolicy.members, alternativesOfAll]
  | required inner requirement => simp [AuthPolicy.members, alternativesOfAll]

end AuthPolicy

/-- A declaration as it is written. -/
inductive AuthExpr (σ : Type)
  | scheme (s : σ)
  | or (a b : AuthExpr σ)
  | requires (a : AuthExpr σ) (requirement : Requirement)

namespace AuthExpr

/-- What Python makes of it. -/
def build : AuthExpr σ → AuthPolicy σ
  | scheme s => .scheme s
  | or a b => .either (a.build.members ++ b.build.members)
  | requires a requirement => .required a.build requirement

/-- The written alternatives, each with its own requirements and every enclosing one. -/
def written : AuthExpr σ → List (Alternative σ)
  | scheme s => [(s, [])]
  | or a b => a.written ++ b.written
  | requires a requirement => a.written.map fun (s, requirements) => (s, requirements ++ [requirement])

/-- The flattened tree has the written alternatives. -/
theorem alternatives_build (e : AuthExpr σ) : e.build.alternatives = e.written := by
  induction e with
  | scheme s => rw [build, AuthPolicy.alternatives, written]
  | or a b iha ihb =>
    rw [build, AuthPolicy.alternatives, AuthPolicy.alternativesOfAll_append,
      AuthPolicy.alternativesOfAll_members, AuthPolicy.alternativesOfAll_members, iha, ihb, written]
  | requires a requirement ih => rw [build, AuthPolicy.alternatives, ih, written]

end AuthExpr

/-! ## The plan -/

section Plan

variable [DecidableEq σ]

/-- A scheme with the requirements of each of its alternatives. -/
abbrev SchemeOptions (σ : Type) := σ × List (List Requirement)

/-- `grouped.setdefault(id(scheme), (scheme, []))[1].append(requirements)`. -/
def setdefaultAppend (grouped : List (SchemeOptions σ)) (alternative : Alternative σ) :
    List (SchemeOptions σ) :=
  if alternative.1 ∈ grouped.map Prod.fst then
    grouped.map fun g => if g.1 = alternative.1 then (g.1, g.2 ++ [alternative.2]) else g
  else grouped ++ [(alternative.1, [alternative.2])]

def group (alternatives : List (Alternative σ)) : List (SchemeOptions σ) :=
  alternatives.foldl setdefaultAppend []

/-- The schemes in the order in which they are first written. -/
def firstWritten (alternatives : List (Alternative σ)) : List σ := (alternatives.map Prod.fst).eraseDups

/-- The requirements of the alternatives of a scheme. -/
def optionsOf (alternatives : List (Alternative σ)) (s : σ) : List (List Requirement) :=
  (alternatives.filter fun alternative => alternative.1 = s).map Prod.snd

lemma mem_firstWritten {alternatives : List (Alternative σ)} {s : σ} :
    s ∈ firstWritten alternatives ↔ s ∈ alternatives.map Prod.fst := List.mem_eraseDups

/-- A scheme that is written again comes no later. -/
lemma firstWritten_concat_of_mem {alternatives : List (Alternative σ)} {alternative : Alternative σ}
    (h : alternative.1 ∈ firstWritten alternatives) :
    firstWritten (alternatives ++ [alternative]) = firstWritten alternatives := by
  rw [mem_firstWritten] at h
  rw [firstWritten, List.map_append, List.map_cons, List.map_nil, List.eraseDups_append,
    List.cons_removeAll, if_neg (by simpa using h), List.nil_removeAll, List.eraseDups_nil, List.append_nil,
    firstWritten]

/-- One that is new comes last. -/
lemma firstWritten_concat_of_not_mem {alternatives : List (Alternative σ)} {alternative : Alternative σ}
    (h : alternative.1 ∉ firstWritten alternatives) :
    firstWritten (alternatives ++ [alternative]) = firstWritten alternatives ++ [alternative.1] := by
  rw [mem_firstWritten] at h
  rw [firstWritten, List.map_append, List.map_cons, List.map_nil, List.eraseDups_append,
    List.cons_removeAll, if_pos (by simpa using h), List.nil_removeAll, List.eraseDups_cons, List.filter_nil,
    List.eraseDups_nil, firstWritten]

lemma optionsOf_concat (alternatives : List (Alternative σ)) (alternative : Alternative σ) (s : σ) :
    optionsOf (alternatives ++ [alternative]) s =
      if s = alternative.1 then optionsOf alternatives s ++ [alternative.2] else optionsOf alternatives s := by
  by_cases hs : s = alternative.1
  · simp [optionsOf, List.filter_append, hs]
  · simp [optionsOf, List.filter_append, hs, Ne.symm hs]

lemma optionsOf_eq_nil {alternatives : List (Alternative σ)} {s : σ} (h : s ∉ firstWritten alternatives) :
    optionsOf alternatives s = [] := by
  rw [mem_firstWritten] at h
  rw [optionsOf, List.map_eq_nil_iff, List.filter_eq_nil_iff]
  intro alternative hmem hs
  exact h (List.mem_map.mpr ⟨alternative, hmem, of_decide_eq_true hs⟩)

/-- Grouping gives each scheme once, in the order in which it is first written, with all its options. -/
theorem group_eq (alternatives : List (Alternative σ)) :
    group alternatives = (firstWritten alternatives).map fun s => (s, optionsOf alternatives s) := by
  induction alternatives using List.reverseRecOn with
  | nil => rfl
  | append_singleton alternatives alternative ih =>
    have hfold : group (alternatives ++ [alternative]) = setdefaultAppend (group alternatives) alternative := by
      rw [group, List.foldl_append]
      rfl
    have hkeys : (group alternatives).map Prod.fst = firstWritten alternatives := by
      rw [ih, List.map_map]
      exact List.map_id _
    rw [hfold, setdefaultAppend, hkeys]
    by_cases hmem : alternative.1 ∈ firstWritten alternatives
    · rw [if_pos hmem, firstWritten_concat_of_mem hmem, ih, List.map_map]
      refine List.map_congr_left fun s _ => ?_
      rw [optionsOf_concat]
      by_cases hs : s = alternative.1
      · simp [hs]
      · simp [hs]
    · rw [if_neg hmem, firstWritten_concat_of_not_mem hmem, ih, List.map_append]
      congr 1
      · refine List.map_congr_left fun s hs => ?_
        have hne : s ≠ alternative.1 := fun h => hmem (h ▸ hs)
        rw [optionsOf_concat, if_neg hne]
      · rw [List.map_cons, List.map_nil, optionsOf_concat, if_pos rfl, optionsOf_eq_nil hmem, List.nil_append]

/-- `auth=`: a policy, or `optional(...)` of one. -/
inductive AuthDeclaration (σ : Type)
  | mandatory (policy : AuthPolicy σ)
  | optional (policy : AuthPolicy σ)

/-- `plan`: the schemes to try, and whether anonymous callers are let in. -/
def plan : AuthDeclaration σ → List (SchemeOptions σ) × Bool
  | .mandatory policy => (group policy.alternatives, false)
  | .optional policy => (group policy.alternatives, true)

/-- What is written as `auth=e` or `auth=optional(e)`. -/
def AuthExpr.declare (e : AuthExpr σ) (anonymous : Bool) : AuthDeclaration σ :=
  if anonymous then .optional e.build else .mandatory e.build

lemma plan_declare (e : AuthExpr σ) (anonymous : Bool) :
    plan (e.declare anonymous) =
      ((firstWritten e.written).map fun s => (s, optionsOf e.written s), anonymous) := by
  cases anonymous with
  | false => simp [AuthExpr.declare, plan, e.alternatives_build, group_eq]
  | true => simp [AuthExpr.declare, plan, e.alternatives_build, group_eq]

lemma find?_eraseDups (p : σ → Bool) (l : List σ) : l.eraseDups.find? p = l.find? p := by
  induction hn : l.length using Nat.strongRecOn generalizing l with
  | ind n ih =>
    cases l with
    | nil => rfl
    | cons a l =>
      rw [List.eraseDups_cons, List.find?_cons, List.find?_cons]
      cases ha : p a with
      | true => rfl
      | false =>
        have hlt : (l.filter fun b => !b == a).length < n := by
          rw [← hn, List.length_cons]
          exact Nat.lt_succ_of_le (List.length_filter_le _ _)
        have hsame : (fun b => decide ((!b == a) = true ∧ p b = true)) = p := by
          funext b
          by_cases hb : b = a
          · simp [hb, ha]
          · simp [hb]
        rw [ih _ hlt _ rfl, List.find?_filter, hsame]

/-- The first scheme of a kind is the first one written. -/
lemma find?_firstWritten (p : σ → Bool) (alternatives : List (Alternative σ)) :
    (firstWritten alternatives).find? p = (alternatives.map Prod.fst).find? p :=
  find?_eraseDups p _

end Plan

end Oxbrook
