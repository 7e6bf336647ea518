import Mathlib.Data.List.DropRight
import Oxbrook.Events.Format
import Oxbrook.Foundation.FirstFree
import Oxbrook.Foundation.Numerals
import Oxbrook.Foundation.OrderedDict

/-!
# Operation ids

The `operationId` that the OpenAPI document gives to each route.  A handler's name is its id unless
another route has it too; the routes that share a name add their method and path to it, and as a
last resort a number.

The routes that share a name are items that take candidates in turn (`Named`).  From this come that
no id is given twice, and when the ids do not depend on the order of the routes.
-/

namespace Oxbrook

open PyStr FirstFree

namespace OperationIds

/-! ## Ids -/

/-- What is read of a `RouteInfo`: `id(route)`, the `__name__` of its `fn` if it has one, its method
and its path. -/
structure RouteInfo where
  ident : ℕ
  fnName : Option PyStr
  method : PyStr
  path : PyStr

/-- `getattr(route.fn, "__name__", "handler")` -/
def RouteInfo.name (route : RouteInfo) : PyStr := route.fnName.getD (lit "handler")

/-- `[A-Za-z0-9]` -/
def inIdent : CodePoint → Bool
  | .scalar c => c.isAlphanum
  | .surrogate _ => false

/-- `_NOT_IDENT.sub("_", …)`: the last character of every run stands for the run. -/
def notIdentSub : PyStr → PyStr
  | [] => []
  | c :: rest =>
    if inIdent c then c :: notIdentSub rest
    else if rest.head?.any fun next => !inIdent next then notIdentSub rest
    else .scalar '_' :: notIdentSub rest

/-- `….strip("_")` -/
def stripUnderscores (text : PyStr) : PyStr :=
  (text.dropWhile (· = .scalar '_')).rdropWhile (· = .scalar '_')

/-- `slug`, of the path. -/
def slug (path : PyStr) : PyStr :=
  let stripped := stripUnderscores (notIdentSub path)
  if stripped = [] then lit "root" else stripped

section

/- `str.lower`; its table is that of Unicode. -/
variable (lower : PyStr → PyStr)

def base (route : RouteInfo) : PyStr :=
  route.name ++ lit "_" ++ lower route.method ++ lit "_" ++ slug route.path

/-- `f"{base}_{n}"` -/
def suffixed (base : PyStr) (n : ℕ) : PyStr := base ++ lit "_" ++ ofText (Nat.toDigits 10 n)

local instance lawfulId : LawfulBEq PyStr := inferInstance

/-- The `while` loop; `none` if it is not over after so many tests. -/
def freeCandidate (taken : List PyStr) (base : PyStr) : ℕ → PyStr → ℕ → Option PyStr
  | 0, _, _ => none
  | tests + 1, candidate, n =>
    if candidate ∈ taken then freeCandidate taken base tests (suffixed base n) (n + 1)
    else some candidate

/-- `counts` -/
def counts (routes : List RouteInfo) : OrderedDict PyStr ℕ :=
  (routes.map RouteInfo.name).foldl (fun d name => d.set name ((d.get name).getD 0 + 1)) .empty

/-- The names that `taken` starts with. -/
def plainNames (counts : OrderedDict PyStr ℕ) : List PyStr :=
  (counts.items.filter fun item => item.2 = 1).map Prod.fst

/-- The variables of the second loop. -/
structure Naming where
  ids : OrderedDict ℕ PyStr
  taken : List PyStr

/-- One turn of the second loop. -/
def nameRoute (counts : OrderedDict PyStr ℕ) (s : Naming) (route : RouteInfo) : Option Naming :=
  if counts.get route.name = some 1 then
    some { s with ids := s.ids.set route.ident route.name }
  else
    let base := base lower route
    (freeCandidate s.taken base (s.taken.length + 1) base 2).map fun candidate =>
      ⟨s.ids.set route.ident candidate, candidate :: s.taken⟩

/-- `_operation_ids`; it is `none` only if a loop does not end. -/
def operationIds (routes : List RouteInfo) : Option (OrderedDict ℕ PyStr) :=
  let counts := counts routes
  (routes.foldlM (nameRoute lower counts) ⟨.empty, plainNames counts⟩).map Naming.ids

end

/-! ## What is told of ids -/

/-- Another route has the same name. -/
def Shared (routes : List RouteInfo) (route : RouteInfo) : Prop :=
  ∃ other ∈ routes, other ≠ route ∧ other.name = route.name

/-- The ids that a route generates, one after the other. -/
def candidates (lower : PyStr → PyStr) (route : RouteInfo) : ℕ → PyStr
  | 0 => base lower route
  | n + 1 => suffixed (base lower route) (n + 2)

/-- The first id that the route generates which is not the name of a handler that keeps it. -/
def Own (lower : PyStr → PyStr) (routes : List RouteInfo) (route : RouteInfo) : PyStr → Prop :=
  IsFirst (candidates lower route)
    {t | ∃ other ∈ routes, ¬ Shared routes other ∧ other.name = t}

/-- Two routes that have to generate ids come to the same one: of the ids that either generates, it
is the first that no handler keeps. -/
def Collide (lower : PyStr → PyStr) (routes : List RouteInfo) (route other : RouteInfo) : Prop :=
  Shared routes route ∧ Shared routes other ∧
    ∃ id, Own lower routes route id ∧ Own lower routes other id

/-! ## Candidates -/

section Candidates

variable (lower : PyStr → PyStr) (route : RouteInfo) (taken : List PyStr)

/-- A route does not generate the same id twice. -/
lemma candidates_injective : Function.Injective (candidates lower route) := by
  have hsuffix : ∀ n, suffixed (base lower route) n ≠ base lower route := by
    intro n heq
    have hlength := congrArg List.length heq
    simp only [suffixed, List.length_append] at hlength
    have hdash : (lit "_").length = 1 := rfl
    omega
  intro n m heq
  cases n with
  | zero =>
    cases m with
    | zero => rfl
    | succ m => exact absurd heq.symm (hsuffix _)
  | succ n =>
    cases m with
    | zero => exact absurd heq (hsuffix _)
    | succ m =>
      have hdigits : ofText (Nat.toDigits 10 (n + 2)) = ofText (Nat.toDigits 10 (m + 2)) :=
        List.append_cancel_left heq
      have hscalar : Function.Injective CodePoint.scalar := fun _ _ h => CodePoint.scalar.inj h
      have hsame : Nat.toDigits 10 (n + 2) = Nat.toDigits 10 (m + 2) :=
        List.map_injective_iff.mpr hscalar hdigits
      have hread := congrArg (Numerals.readDigits 10) hsame
      rw [Numerals.readDigits_toDigits (by omega) (by omega),
        Numerals.readDigits_toDigits (by omega) (by omega)] at hread
      have hnumber := Option.some.inj hread
      omega

/-- The loop is the search among the candidates. -/
lemma freeCandidate_eq_search (tests n : ℕ) :
    freeCandidate taken (base lower route) tests (candidates lower route n) (n + 2) =
      search (candidates lower route) taken tests n := by
  induction tests generalizing n with
  | zero => rfl
  | succ tests ih =>
    rw [freeCandidate, search]
    split
    · exact ih (n + 1)
    · rfl

/-- The loop ends, with the first candidate that is not taken. -/
theorem freeCandidate_spec :
    ∃ a, freeCandidate taken (base lower route) (taken.length + 1) (base lower route) 2 = some a ∧
      IsFirst (candidates lower route) {t | t ∈ taken} a := by
  obtain ⟨a, ha, first⟩ := search_spec (candidates_injective lower route) taken
  have hloop := freeCandidate_eq_search lower route taken (taken.length + 1) 0
  exact ⟨a, hloop.trans ha, first⟩

end Candidates

/-! ## Counts -/

section Counts

variable {routes routes' : List RouteInfo} {route : RouteInfo} {t : PyStr}

/-- A dictionary of counts, after more names were counted. -/
lemma get_counts_from (names : List PyStr) (d : OrderedDict PyStr ℕ) :
    ((names.foldl (fun d name => d.set name ((d.get name).getD 0 + 1)) d).get t).getD 0 =
      (d.get t).getD 0 + names.count t := by
  induction names generalizing d with
  | nil => simp
  | cons name rest ih =>
    rw [List.foldl_cons, ih]
    by_cases ht : t = name
    · subst ht
      rw [OrderedDict.get_set_self, List.count_cons_self, Option.getD_some]
      omega
    · rw [OrderedDict.get_set_ne ht, List.count_cons_of_ne (Ne.symm ht)]

/-- A name has the count 1 if one route has it. -/
lemma get_counts_iff : (counts routes).get t = some 1 ↔ (routes.map RouteInfo.name).count t = 1 := by
  have hcount : ((counts routes).get t).getD 0 = (routes.map RouteInfo.name).count t := by
    rw [counts, get_counts_from]
    simp [OrderedDict.get, OrderedDict.empty]
  rw [← hcount]
  constructor
  · intro h
    rw [h, Option.getD_some]
  · intro h
    cases hget : (counts routes).get t with
    | none => simp [hget] at h
    | some n => rw [hget, Option.getD_some] at h; rw [h]

/-- A route of the list shares its name unless that is counted once. -/
lemma shared_iff (distinct : (routes.map RouteInfo.ident).Nodup) (hroute : route ∈ routes) :
    Shared routes route ↔ (counts routes).get route.name ≠ some 1 := by
  obtain ⟨before, after, rfl⟩ := List.append_of_mem hroute
  have hnodup := List.Nodup.of_map _ distinct
  rw [Ne, get_counts_iff, List.map_append, List.map_cons, List.count_append, List.count_cons_self]
  constructor
  · rintro ⟨other, hother, hne, hname⟩ hcount
    have elsewhere : other ∈ before ∨ other ∈ after := by
      simpa [hne] using hother
    have hzero : (before.map RouteInfo.name).count route.name = 0 ∧
        (after.map RouteInfo.name).count route.name = 0 := by omega
    rw [List.count_eq_zero, List.count_eq_zero] at hzero
    rcases elsewhere with hmem | hmem
    · exact hzero.1 (hname ▸ List.mem_map_of_mem hmem)
    · exact hzero.2 (hname ▸ List.mem_map_of_mem hmem)
  · intro hcount
    have elsewhere : route.name ∈ before.map RouteInfo.name ∨
        route.name ∈ after.map RouteInfo.name := by
      rw [← List.count_pos_iff, ← List.count_pos_iff]
      omega
    rw [List.nodup_middle, List.nodup_cons, List.mem_append, not_or] at hnodup
    rcases elsewhere with hmem | hmem
    · obtain ⟨other, hother, hname⟩ := List.mem_map.mp hmem
      exact ⟨other, by simp [hother], fun heq => hnodup.1.1 (heq ▸ hother), hname⟩
    · obtain ⟨other, hother, hname⟩ := List.mem_map.mp hmem
      exact ⟨other, by simp [hother], fun heq => hnodup.1.2 (heq ▸ hother), hname⟩

/-- `taken` starts with the names that handlers keep. -/
lemma mem_plainNames (distinct : (routes.map RouteInfo.ident).Nodup) :
    t ∈ plainNames (counts routes) ↔ ∃ other ∈ routes, ¬ Shared routes other ∧ other.name = t := by
  have hitem : t ∈ plainNames (counts routes) ↔ (counts routes).get t = some 1 := by
    rw [OrderedDict.get_eq_some_iff]
    simp [plainNames]
  rw [hitem]
  constructor
  · intro h
    have hpos : t ∈ routes.map RouteInfo.name := by
      rw [← List.count_pos_iff, get_counts_iff.mp h]
      omega
    obtain ⟨other, hother, rfl⟩ := List.mem_map.mp hpos
    refine ⟨other, hother, ?_, rfl⟩
    rw [shared_iff distinct hother, not_not]
    exact h
  · rintro ⟨other, hother, hplain, rfl⟩
    rw [shared_iff distinct hother, not_not] at hplain
    exact hplain

/-- Whether a name is shared does not depend on the order. -/
lemma shared_of_perm (h : routes'.Perm routes) : Shared routes' route ↔ Shared routes route := by
  simp only [Shared, h.mem_iff]

end Counts

/-! ## The second loop -/

section Loop

variable {lower : PyStr → PyStr} {counted : OrderedDict PyStr ℕ} {routes : List RouteInfo}
  {route : RouteInfo} {s s' : Naming} {out : List (RouteInfo × PyStr)} {id : PyStr}

/-- What the loop makes of some routes: those whose name is counted once have it for their id, and
the others took candidates in turn. -/
structure Named (lower : PyStr → PyStr) (counted : OrderedDict PyStr ℕ) (routes : List RouteInfo)
    (s s' : Naming) (out : List (RouteInfo × PyStr)) : Prop where
  assigned : Assigned (candidates lower) {t | t ∈ s.taken} out
  items : out.map Prod.fst = routes.filter fun route => counted.get route.name ≠ some 1
  given : ∀ item ∈ out, s'.ids.get item.1.ident = some item.2
  kept : ∀ route ∈ routes, counted.get route.name = some 1 →
    s'.ids.get route.ident = some route.name
  others : ∀ k ∉ routes.map RouteInfo.ident, s'.ids.get k = s.ids.get k

/-- A turn for a route whose name is counted once. -/
lemma nameRoute_kept (h : counted.get route.name = some 1) :
    nameRoute lower counted s route = some ⟨s.ids.set route.ident route.name, s.taken⟩ := by
  rw [nameRoute, if_pos h]

/-- A turn for another route. -/
lemma nameRoute_given (lower : PyStr → PyStr) (s : Naming)
    (h : counted.get route.name ≠ some 1) :
    ∃ id, nameRoute lower counted s route = some ⟨s.ids.set route.ident id, id :: s.taken⟩ ∧
      IsFirst (candidates lower route) {t | t ∈ s.taken} id := by
  obtain ⟨id, hid, first⟩ := freeCandidate_spec lower route s.taken
  refine ⟨id, ?_, first⟩
  rw [nameRoute, if_neg h]
  simp only [hid, Option.map_some]

namespace Named

variable {taken : List PyStr}

/-- A route keeps the id that its own turn set. -/
lemma get_head (h : Named lower counted routes ⟨s.ids.set route.ident id, taken⟩ s' out)
    (hnew : route.ident ∉ routes.map RouteInfo.ident) : s'.ids.get route.ident = some id := by
  rw [h.others _ hnew]
  exact OrderedDict.get_set_self

/-- The turns do nothing to the ids of other routes. -/
lemma others_cons (h : Named lower counted routes ⟨s.ids.set route.ident id, taken⟩ s' out) {k : ℕ}
    (hk : k ∉ (route :: routes).map RouteInfo.ident) : s'.ids.get k = s.ids.get k := by
  rw [List.map_cons, List.mem_cons, not_or] at hk
  rw [h.others k hk.2]
  exact OrderedDict.get_set_ne hk.1

lemma cons_kept (hcount : counted.get route.name = some 1)
    (hnew : route.ident ∉ routes.map RouteInfo.ident)
    (h : Named lower counted routes ⟨s.ids.set route.ident route.name, s.taken⟩ s' out) :
    Named lower counted (route :: routes) s s' out where
  assigned := h.assigned
  items := by rw [h.items, List.filter_cons_of_neg (by simpa using hcount)]
  given := h.given
  kept := by
    intro r hr hr_count
    rcases List.mem_cons.mp hr with rfl | hr
    · exact h.get_head hnew
    · exact h.kept r hr hr_count
  others _ hk := h.others_cons hk

lemma cons_given (hcount : counted.get route.name ≠ some 1)
    (hnew : route.ident ∉ routes.map RouteInfo.ident)
    (first : IsFirst (candidates lower route) {t | t ∈ s.taken} id)
    (h : Named lower counted routes ⟨s.ids.set route.ident id, id :: s.taken⟩ s' out) :
    Named lower counted (route :: routes) s s' ((route, id) :: out) where
  assigned := by
    have htaken : {t | t ∈ id :: s.taken} = insert id {t | t ∈ s.taken} := by
      ext t
      simp
    exact .cons first (htaken ▸ h.assigned)
  items := by rw [List.map_cons, h.items, List.filter_cons_of_pos (by simpa using hcount)]
  given := by
    intro item hitem
    rcases List.mem_cons.mp hitem with rfl | hitem
    · exact h.get_head hnew
    · exact h.given item hitem
  kept := by
    intro r hr hr_count
    rcases List.mem_cons.mp hr with rfl | hr
    · exact absurd hr_count hcount
    · exact h.kept r hr hr_count
  others _ hk := h.others_cons hk

end Named

/-- The loop ends, whatever it starts with. -/
theorem exists_named (lower : PyStr → PyStr) (counted : OrderedDict PyStr ℕ)
    (distinct : (routes.map RouteInfo.ident).Nodup) (s : Naming) :
    ∃ s' out, routes.foldlM (nameRoute lower counted) s = some s' ∧
      Named lower counted routes s s' out := by
  induction routes generalizing s with
  | nil => exact ⟨s, [], rfl, .nil, rfl, by simp, by simp, fun _ _ => rfl⟩
  | cons route rest ih =>
    rw [List.map_cons, List.nodup_cons] at distinct
    by_cases hcount : counted.get route.name = some 1
    · obtain ⟨s', out, hrun, named⟩ := ih distinct.2 ⟨s.ids.set route.ident route.name, s.taken⟩
      refine ⟨s', out, ?_, named.cons_kept hcount distinct.1⟩
      rw [List.foldlM_cons, nameRoute_kept hcount]
      exact hrun
    · obtain ⟨id, hturn, first⟩ := nameRoute_given lower s hcount
      obtain ⟨s', out, hrun, named⟩ := ih distinct.2 ⟨s.ids.set route.ident id, id :: s.taken⟩
      refine ⟨s', (route, id) :: out, ?_, named.cons_given hcount distinct.1 first⟩
      rw [List.foldlM_cons, hturn]
      exact hrun

end Loop

/-! ## The ids of a list -/

section Listed

variable {lower : PyStr → PyStr} {routes routes' : List RouteInfo} {route other : RouteInfo}
  {ids : OrderedDict ℕ PyStr} {out : List (RouteInfo × PyStr)} {id : PyStr}

/-- The ids of a list of routes, and what the routes that share a name took. -/
structure Listed (lower : PyStr → PyStr) (routes : List RouteInfo) (ids : OrderedDict ℕ PyStr)
    (out : List (RouteInfo × PyStr)) : Prop where
  assigned : Assigned (candidates lower)
    {t | ∃ other ∈ routes, ¬ Shared routes other ∧ other.name = t} out
  items : out.map Prod.fst =
    routes.filter fun route => (counts routes).get route.name ≠ some 1
  given : ∀ item ∈ out, ids.get item.1.ident = some item.2
  kept : ∀ route ∈ routes, ¬ Shared routes route → ids.get route.ident = some route.name

/-- Every route generates an id that is not the name of a handler that keeps it. -/
lemma exists_own (lower : PyStr → PyStr) (distinct : (routes.map RouteInfo.ident).Nodup)
    (route : RouteInfo) : ∃ id, Own lower routes route id := by
  obtain ⟨id, -, first⟩ := search_spec (candidates_injective lower route)
    (plainNames (counts routes))
  refine ⟨id, ?_⟩
  unfold Own
  simpa only [mem_plainNames distinct] using first

/-- Every list of distinct routes has its ids. -/
theorem exists_listed (lower : PyStr → PyStr) (distinct : (routes.map RouteInfo.ident).Nodup) :
    ∃ ids out, operationIds lower routes = some ids ∧ Listed lower routes ids out := by
  obtain ⟨s, out, hrun, named⟩ := exists_named lower (counts routes) distinct
    ⟨.empty, plainNames (counts routes)⟩
  have htaken : {t | t ∈ plainNames (counts routes)} =
      {t | ∃ other ∈ routes, ¬ Shared routes other ∧ other.name = t} := by
    ext t
    exact mem_plainNames distinct
  refine ⟨s.ids, out, ?_, htaken ▸ named.assigned, named.items, named.given, ?_⟩
  · simp only [operationIds, hrun, Option.map_some]
  · intro route hroute hplain
    rw [shared_iff distinct hroute, not_not] at hplain
    exact named.kept route hroute hplain

namespace Listed

/-- The routes that took a candidate are those that share a name. -/
lemma mem_out_iff (h : Listed lower routes ids out)
    (distinct : (routes.map RouteInfo.ident).Nodup) (route : RouteInfo) :
    (∃ id, (route, id) ∈ out) ↔ route ∈ routes ∧ Shared routes route := by
  have hmem : route ∈ out.map Prod.fst ↔ ∃ id, (route, id) ∈ out := by
    simp
  rw [← hmem, h.items, List.mem_filter]
  constructor
  · rintro ⟨hroute, hcount⟩
    exact ⟨hroute, (shared_iff distinct hroute).mpr (by simpa using hcount)⟩
  · rintro ⟨hroute, hshared⟩
    exact ⟨hroute, by simpa using (shared_iff distinct hroute).mp hshared⟩

/-- Every route has an id, which it keeps or took. -/
lemma cases (h : Listed lower routes ids out) (distinct : (routes.map RouteInfo.ident).Nodup)
    (hroute : route ∈ routes) :
    (¬ Shared routes route ∧ ids.get route.ident = some route.name) ∨
      ∃ id, (route, id) ∈ out ∧ ids.get route.ident = some id := by
  by_cases hshared : Shared routes route
  · obtain ⟨id, hid⟩ := (h.mem_out_iff distinct route).mpr ⟨hroute, hshared⟩
    exact Or.inr ⟨id, hid, h.given _ hid⟩
  · exact Or.inl ⟨hshared, h.kept route hroute hshared⟩

/-- An id that was taken is not the one that another route keeps. -/
lemma ne_of_kept (h : Listed lower routes ids out) (hroute : route ∈ routes)
    (hplain : ¬ Shared routes route) (hout : (other, id) ∈ out) : route.name ≠ id := by
  rintro rfl
  exact h.assigned.not_mem _ hout ⟨route, hroute, hplain, rfl⟩

/-- No two routes have the same id. -/
theorem get_ne (h : Listed lower routes ids out)
    (distinct : (routes.map RouteInfo.ident).Nodup)
    (hroute : route ∈ routes) (hother : other ∈ routes) (hne : route ≠ other) :
    ids.get route.ident ≠ ids.get other.ident := by
  rcases h.cases distinct hroute with ⟨hplain, hget⟩ | ⟨id, hout, hget⟩
  · rcases h.cases distinct hother with ⟨hplain', hget'⟩ | ⟨id', hout', hget'⟩
    · rw [hget, hget', Ne, Option.some.injEq]
      intro hname
      exact hplain ⟨other, hother, hne.symm, hname.symm⟩
    · rw [hget, hget', Ne, Option.some.injEq]
      exact h.ne_of_kept hroute hplain hout'
  · rcases h.cases distinct hother with ⟨hplain', hget'⟩ | ⟨id', hout', hget'⟩
    · rw [hget, hget', Ne, Option.some.injEq]
      exact (h.ne_of_kept hother hplain' hout).symm
    · rw [hget, hget', Ne, Option.some.injEq]
      rintro rfl
      have hsame := List.inj_on_of_nodup_map h.assigned.nodup hout hout' rfl
      exact hne (congrArg Prod.fst hsame)

/-- If no two routes collide, each has the first free id that it generates. -/
theorem get_own (h : Listed lower routes ids out) (distinct : (routes.map RouteInfo.ident).Nodup)
    (apart : ∀ r ∈ routes, ∀ r' ∈ routes, r ≠ r' → ¬ Collide lower routes r r')
    (hroute : route ∈ routes) (hshared : Shared routes route) (hid : Own lower routes route id) :
    ids.get route.ident = some id := by
  choose own hown using exists_own lower distinct
  have hnodup : (out.map Prod.fst).Nodup := by
    rw [h.items]
    exact (List.Nodup.of_map _ distinct).filter _
  have howns : (out.map fun item => own item.1).Nodup := by
    have hmap : (out.map fun item => own item.1) = (out.map Prod.fst).map own := by
      rw [List.map_map]
      rfl
    rw [hmap]
    refine hnodup.map_on ?_
    intro r hr r' hr' heq
    by_contra hne
    obtain ⟨hmem, hshare⟩ := (h.mem_out_iff distinct r).mp (by simpa using hr)
    obtain ⟨hmem', hshare'⟩ := (h.mem_out_iff distinct r').mp (by simpa using hr')
    exact apart r hmem r' hmem' hne ⟨hshare, hshare', own r, hown r, heq ▸ hown r'⟩
  obtain ⟨a, hout⟩ := (h.mem_out_iff distinct route).mpr ⟨hroute, hshared⟩
  obtain rfl : a = own route := h.assigned.eq_own (fun item _ => hown item.1) howns _ hout
  rw [h.given _ hout, (hown route).unique hid]

/-- The first route of a list has the first free id that it generates. -/
lemma get_first {rest : List RouteInfo} (h : Listed lower (route :: rest) ids out)
    (distinct : ((route :: rest).map RouteInfo.ident).Nodup) (hshared : Shared (route :: rest) route)
    (hid : Own lower (route :: rest) route id) : ids.get route.ident = some id := by
  have hitems := h.items
  have hcount := (shared_iff distinct List.mem_cons_self).mp hshared
  rw [List.filter_cons_of_pos (by simpa using hcount)] at hitems
  cases hout : out with
  | nil => simp [hout] at hitems
  | cons item later =>
    obtain ⟨r, a⟩ := item
    rw [hout, List.map_cons, List.cons.injEq] at hitems
    obtain rfl : r = route := hitems.1
    have hassigned := h.assigned
    rw [hout] at hassigned
    cases hassigned with
    | cons first _ =>
      rw [h.given (r, a) (by simp [hout]), first.unique hid]

end Listed

/-- What a route would take does not depend on the order. -/
lemma own_of_perm (h : routes'.Perm routes) :
    Own lower routes' route id ↔ Own lower routes route id := by
  simp only [Own, shared_of_perm h, h.mem_iff]

lemma collide_of_perm (h : routes'.Perm routes) :
    Collide lower routes' route other ↔ Collide lower routes route other := by
  simp only [Collide, shared_of_perm h, own_of_perm h]

/-- The ids of a list stay with their routes, in whatever order these are listed. -/
def Stable (lower : PyStr → PyStr) (routes : List RouteInfo) (ids : OrderedDict ℕ PyStr) : Prop :=
  ∀ routes' : List RouteInfo, routes'.Perm routes → ∀ ids', operationIds lower routes' = some ids' →
    ∀ route ∈ routes, ids'.get route.ident = ids.get route.ident

/-- Without collisions the ids do not depend on the order. -/
theorem Listed.stable (h : Listed lower routes ids out)
    (distinct : (routes.map RouteInfo.ident).Nodup)
    (apart : ∀ r ∈ routes, ∀ r' ∈ routes, r ≠ r' → ¬ Collide lower routes r r') :
    Stable lower routes ids := by
  intro routes' hperm ids' hids' route hroute
  have distinct' : (routes'.map RouteInfo.ident).Nodup := (hperm.map _).nodup_iff.mpr distinct
  obtain ⟨ids'', out', hids'', h'⟩ := exists_listed lower distinct'
  obtain rfl := Option.some.inj (hids'.symm.trans hids'')
  have hroute' : route ∈ routes' := hperm.mem_iff.mpr hroute
  by_cases hshared : Shared routes route
  · obtain ⟨id, hid⟩ := exists_own lower distinct route
    rw [h.get_own distinct apart hroute hshared hid]
    refine h'.get_own distinct' ?_ hroute' ((shared_of_perm hperm).mpr hshared)
      ((own_of_perm hperm).mpr hid)
    intro r hr r' hr' hne
    rw [collide_of_perm hperm]
    exact apart r (hperm.mem_iff.mp hr) r' (hperm.mem_iff.mp hr') hne
  · rw [h.kept route hroute hshared,
      h'.kept route hroute' fun hshared' => hshared ((shared_of_perm hperm).mp hshared')]

/-- A route that comes first has the first free id that it generates. -/
lemma Stable.get_own (stable : Stable lower routes ids)
    (distinct : (routes.map RouteInfo.ident).Nodup) (hroute : route ∈ routes)
    (hshared : Shared routes route) (hid : Own lower routes route id) :
    ids.get route.ident = some id := by
  obtain ⟨before, after, hsplit⟩ := List.append_of_mem hroute
  have hperm : (route :: (before ++ after)).Perm routes := by
    rw [hsplit]
    exact List.perm_middle.symm
  have distinct' := (hperm.map RouteInfo.ident).nodup_iff.mpr distinct
  obtain ⟨ids', out', hids', h'⟩ := exists_listed lower distinct'
  rw [← stable _ hperm ids' hids' route hroute]
  exact h'.get_first distinct' ((shared_of_perm hperm).mpr hshared) ((own_of_perm hperm).mpr hid)

end Listed

/-- **Operation ids are unique and stable.**  Every list of distinct routes gets ids, one for each
route and no two the same.  A handler whose name no other route has keeps its name.  The ids do not
depend on the order of the list if no two routes come to the same generated id, and only then. -/
theorem operationIds_unique_and_stable (lower : PyStr → PyStr) (routes : List RouteInfo)
    (distinct : (routes.map RouteInfo.ident).Nodup) :
    ∃ ids, operationIds lower routes = some ids ∧
      (∀ r ∈ routes, ∃ id, ids.get r.ident = some id) ∧
      (∀ r ∈ routes, ∀ r' ∈ routes, r ≠ r' → ids.get r.ident ≠ ids.get r'.ident) ∧
      (∀ r ∈ routes, (∀ r' ∈ routes, r' ≠ r → r'.name ≠ r.name) →
        ids.get r.ident = some r.name) ∧
      (Stable lower routes ids ↔
        ∀ r ∈ routes, ∀ r' ∈ routes, r ≠ r' → ¬ Collide lower routes r r') := by
  obtain ⟨ids, out, hids, h⟩ := exists_listed lower distinct
  refine ⟨ids, hids, ?_, ?_, ?_, ?_, h.stable distinct⟩
  · intro r hr
    rcases h.cases distinct hr with ⟨-, hget⟩ | ⟨id, -, hget⟩
    · exact ⟨_, hget⟩
    · exact ⟨id, hget⟩
  · intro r hr r' hr' hne
    exact h.get_ne distinct hr hr' hne
  · intro r hr alone
    refine h.kept r hr ?_
    rintro ⟨r', hr', hne, hname⟩
    exact alone r' hr' hne hname
  · rintro stable r hr r' hr' hne ⟨hshared, hshared', id, hid, hid'⟩
    refine h.get_ne distinct hr hr' hne ?_
    rw [stable.get_own distinct hr hshared hid, stable.get_own distinct hr' hshared' hid']

/-- `str.lower` on ASCII. -/
def asciiLower (text : PyStr) : PyStr :=
  text.map fun
    | .scalar c => .scalar c.toLower
    | c => c

/-- Two handlers of one name, and one whose name is the id that the first of them generates. -/
def itemLists : List RouteInfo :=
  [⟨1, some (lit "list_items"), lit "GET", lit "/a/items"⟩,
    ⟨2, some (lit "list_items"), lit "GET", lit "/b/items"⟩,
    ⟨3, some (lit "list_items_get_a_items"), lit "GET", lit "/{name}"⟩]

/-- The last of them keeps its name, and the first has another id. -/
theorem itemLists_have_ids : ∃ ids, operationIds asciiLower itemLists = some ids ∧
    ids.get 3 = some (lit "list_items_get_a_items") ∧ ids.get 1 ≠ ids.get 3 := by
  obtain ⟨ids, hids, -, unique, kept, -⟩ :=
    operationIds_unique_and_stable asciiLower itemLists (by decide)
  refine ⟨ids, hids, ?_, ?_⟩
  · exact kept ⟨3, some (lit "list_items_get_a_items"), lit "GET", lit "/{name}"⟩
      (by simp [itemLists]) (by simp [itemLists, RouteInfo.name]; decide)
  · exact unique ⟨1, some (lit "list_items"), lit "GET", lit "/a/items"⟩ (by simp [itemLists])
      ⟨3, some (lit "list_items_get_a_items"), lit "GET", lit "/{name}"⟩ (by simp [itemLists])
      (by simp)

example : (operationIds asciiLower itemLists).map (fun ids => ids.get 1) =
    some (some (lit "list_items_get_a_items_2")) := by
  decide

end OperationIds

end Oxbrook
