import Mathlib.Data.List.Induction

/-!
# File trees with symbolic links

A tree maps a location, the list of the names that lead to it from the top, to a file, a directory or a symbolic link.
A path is what a program writes: names and steps up, from the top, and perhaps a slash at the end.  `walk` finds
the location of a path as an operating system does: it follows links wherever they stand, goes up from the location
reached and not from the path as written, and gives up after a number of links.

Locations with no link on the way are called real; `walk` leads to real locations only (`walk_real`), and a real
location is the path to itself (`walk_names`).  A part of a path that meets no link can be taken off its front
(`walk_append`).  A slash at the end asks for a directory, and nothing else (`walk_slash`).
-/

namespace FileTree

/-- A step of a path. -/
inductive Component (ν : Type*)
  | name (name : ν)
  | up
  deriving DecidableEq

/-- A path as it is written.  A step to `.` is left out, or a slash if it is the last. -/
structure RawPath (ν : Type*) where
  absolute : Bool
  components : List (Component ν)
  slash : Bool
  deriving DecidableEq

inductive Node (ν : Type*)
  | file
  | dir
  | link (target : RawPath ν)
  deriving DecidableEq

/-- What stands at each location.  Only a directory has anything in it. -/
structure Tree (ν : Type*) where
  node : List ν → Option (Node ν)
  top : node [] = some .dir
  closed : ∀ location name, (node (location ++ [name])).isSome = true → node location = some .dir

/-- The path to a location. -/
def RawPath.ofNames {ν : Type*} (names : List ν) : RawPath ν := ⟨true, names.map .name, false⟩

/-- A path taken from another one. -/
def RawPath.join {ν : Type*} (path next : RawPath ν) : RawPath ν :=
  if next.absolute then next else ⟨path.absolute, path.components ++ next.components, next.slash⟩

/-- `path` is written below `names`. -/
def RawPath.below? {ν : Type*} [DecidableEq ν] (path : RawPath ν) (names : List ν) :
    Option (List (Component ν)) :=
  if names.map .name <+: path.components then some (path.components.drop names.length) else none

namespace Tree

variable {ν : Type*} [DecidableEq ν] (t : Tree ν)

/-- A location with no link on the way. -/
def Real (location : List ν) : Prop := t.node location = some .file ∨ t.node location = some .dir

/-- One path, given how the rest is found once a link has been followed. -/
def walkWith (follow : List ν → List (Component ν) → Bool → Option (List ν)) :
    List ν → List (Component ν) → Bool → Option (List ν)
  | location, [], slash => if slash ∧ t.node location ≠ some .dir then none else some location
  | location, .up :: rest, slash =>
    if t.node location = some .dir then walkWith follow location.dropLast rest slash else none
  | location, .name name :: rest, slash =>
    match t.node (location ++ [name]) with
    | none => none
    | some (.link target) =>
      follow (if target.absolute then [] else location) (target.components ++ rest)
        (slash || (target.slash && rest.isEmpty))
    | some _ => walkWith follow (location ++ [name]) rest slash

/-- The location of a path, if no more than so many links are on the way. -/
def walk : ℕ → List ν → List (Component ν) → Bool → Option (List ν)
  | 0 => t.walkWith fun _ _ _ => none
  | links + 1 => t.walkWith (walk links)

variable {t} {links : ℕ} {location location' : List ν} {rest : List (Component ν)} {slash : Bool}

/-- What follows a link, with this number of links left. -/
def follow (t : Tree ν) (links : ℕ) : List ν → List (Component ν) → Bool → Option (List ν) :=
  match links with
  | 0 => fun _ _ _ => none
  | links + 1 => t.walk links

lemma follow_zero : t.follow 0 location rest slash = none := rfl

lemma follow_succ : t.follow (links + 1) = t.walk links := rfl

lemma walk_eq : t.walk links = t.walkWith (t.follow links) := by
  cases links <;> rfl

lemma walk_nil : t.walk links location [] slash =
    if slash ∧ t.node location ≠ some .dir then none else some location := by
  rw [walk_eq, walkWith]

lemma walk_up : t.walk links location (.up :: rest) slash =
    if t.node location = some .dir then t.walk links location.dropLast rest slash else none := by
  rw [walk_eq, walkWith]

/-- A name that is neither missing nor a link. -/
lemma walk_name {name : ν} (h : t.Real (location ++ [name])) :
    t.walk links location (.name name :: rest) slash = t.walk links (location ++ [name]) rest slash := by
  rw [walk_eq, walkWith]
  rcases h with h | h <;> rw [h]

lemma walk_missing {name : ν} (h : t.node (location ++ [name]) = none) :
    t.walk links location (.name name :: rest) slash = none := by
  rw [walk_eq, walkWith, h]

lemma walk_link {name : ν} {target : RawPath ν} (h : t.node (location ++ [name]) = some (.link target)) :
    t.walk links location (.name name :: rest) slash =
      t.follow links (if target.absolute then [] else location) (target.components ++ rest)
        (slash || (target.slash && rest.isEmpty)) := by
  rw [walk_eq, walkWith, h]

omit [DecidableEq ν] in
/-- What stands at a location: nothing, a link, or else it is real. -/
lemma name_cases (t : Tree ν) (location : List ν) :
    t.node location = none ∨ (∃ target, t.node location = some (.link target)) ∨ t.Real location := by
  cases h : t.node location with
  | none => exact .inl rfl
  | some node =>
    cases node with
    | file => exact .inr (.inr (.inl h))
    | dir => exact .inr (.inr (.inr h))
    | link target => exact .inr (.inl ⟨target, rfl⟩)

omit [DecidableEq ν] in
lemma real_top (t : Tree ν) : t.Real [] := .inr t.top

omit [DecidableEq ν] in
/-- The location above one that exists is a directory. -/
lemma node_dropLast (h : (t.node location).isSome = true) : t.node location.dropLast = some .dir := by
  rcases List.eq_nil_or_concat location with rfl | ⟨above, name, rfl⟩
  · exact t.top
  · rw [List.concat_eq_append, List.dropLast_concat]
    exact t.closed above name (by simpa using h)

/-! ## Walks that arrive -/

section Induction

variable {P : ℕ → List ν → List (Component ν) → Bool → List ν → Prop}
  (arrived : ∀ links location slash, ¬ (slash = true ∧ t.node location ≠ some .dir) →
    P links location [] slash location)
  (up : ∀ links location rest slash goal, t.node location = some .dir →
    P links location.dropLast rest slash goal → P links location (.up :: rest) slash goal)
  (name : ∀ links location name rest slash goal, t.Real (location ++ [name]) →
    P links (location ++ [name]) rest slash goal → P links location (.name name :: rest) slash goal)

include arrived up name

/-- The part of a walk before its first link. -/
lemma walk_induction_rest
    (linked : ∀ location name target rest slash goal, t.node (location ++ [name]) = some (.link target) →
      t.follow links (if target.absolute then [] else location) (target.components ++ rest)
        (slash || (target.slash && rest.isEmpty)) = some goal → P links location (.name name :: rest) slash goal)
    {goal : List ν} (h : t.walk links location rest slash = some goal) : P links location rest slash goal := by
  induction rest generalizing location with
  | nil =>
    rw [walk_nil] at h
    obtain ⟨hdir, h⟩ := Option.ite_none_left_eq_some.mp h
    obtain rfl := Option.some.inj h
    exact arrived links location slash hdir
  | cons component rest ih =>
    cases component with
    | up =>
      rw [walk_up] at h
      obtain ⟨hdir, h⟩ := Option.ite_none_right_eq_some.mp h
      exact up links location rest slash goal hdir (ih h)
    | name next =>
      rcases name_cases t (location ++ [next]) with hnode | ⟨target, hnode⟩ | hreal
      · rw [walk_missing hnode] at h
        exact nomatch h
      · rw [walk_link hnode] at h
        exact linked location next target rest slash goal hnode h
      · rw [walk_name hreal] at h
        exact name links location next rest slash goal hreal (ih h)

/-- **Induction along a walk that arrives.** -/
theorem walk_induction
    (link : ∀ links location name target rest slash goal, t.node (location ++ [name]) = some (.link target) →
      P links (if target.absolute then [] else location) (target.components ++ rest)
        (slash || (target.slash && rest.isEmpty)) goal →
      P (links + 1) location (.name name :: rest) slash goal)
    {goal : List ν} (h : t.walk links location rest slash = some goal) : P links location rest slash goal := by
  induction links generalizing location rest slash goal with
  | zero =>
    refine walk_induction_rest arrived up name ?_ h
    intro location next target rest slash goal _ hfollow
    rw [follow_zero] at hfollow
    exact nomatch hfollow
  | succ links ih =>
    refine walk_induction_rest arrived up name ?_ h
    intro location next target rest slash goal hnode hfollow
    rw [follow_succ] at hfollow
    exact link links location next target rest slash goal hnode (ih hfollow)

end Induction

/-- A walk from a real location leads to a real one. -/
theorem walk_real {goal : List ν} (h : t.walk links location rest slash = some goal)
    (real : t.Real location) : t.Real goal := by
  revert real
  refine walk_induction (P := fun _ location _ _ goal => t.Real location → t.Real goal) ?_ ?_ ?_ ?_ h
  · intro links location slash _ real
    exact real
  · intro links location rest slash goal hdir ih _
    exact ih (.inr (node_dropLast (by rw [hdir]; rfl)))
  · intro links location name rest slash goal hreal ih _
    exact ih hreal
  · intro links location name target rest slash goal _ ih real
    refine ih ?_
    split
    · exact real_top t
    · exact real

/-- A slash asks for a directory. -/
lemma dir_of_walk_slash {goal : List ν} (h : t.walk links location rest true = some goal) :
    t.node goal = some .dir := by
  have hslash : ∀ slash, t.walk links location rest slash = some goal → slash = true →
      t.node goal = some .dir := by
    intro slash h
    refine walk_induction (P := fun _ _ _ slash goal => slash = true → t.node goal = some .dir) ?_ ?_ ?_ ?_ h
    · intro links location slash hdir hslash
      by_contra hnot
      exact hdir ⟨hslash, hnot⟩
    · exact fun _ _ _ _ _ _ ih => ih
    · exact fun _ _ _ _ _ _ _ ih => ih
    · intro links location name target rest slash goal _ ih hslash
      exact ih (by rw [hslash, Bool.true_or])
  exact hslash true h rfl

/-- It asks for nothing else. -/
lemma walk_of_dir {goal : List ν} (h : t.walk links location rest slash = some goal)
    (hdir : t.node goal = some .dir) (slash' : Bool) : t.walk links location rest slash' = some goal := by
  revert hdir slash'
  refine walk_induction (P := fun links location rest _ goal => t.node goal = some .dir →
    ∀ slash', t.walk links location rest slash' = some goal) ?_ ?_ ?_ ?_ h
  · intro links location slash _ hdir slash'
    rw [walk_nil, if_neg fun hnot => hnot.2 hdir]
  · intro links location rest slash goal hup ih hdir slash'
    rw [walk_up, if_pos hup]
    exact ih hdir slash'
  · intro links location name rest slash goal hreal ih hdir slash'
    rw [walk_name hreal]
    exact ih hdir slash'
  · intro links location name target rest slash goal hlink ih hdir slash'
    rw [walk_link hlink]
    exact ih hdir _

theorem walk_slash {goal : List ν} : t.walk links location rest true = some goal ↔
    t.walk links location rest false = some goal ∧ t.node goal = some .dir := by
  constructor
  · intro h
    have hdir := dir_of_walk_slash h
    exact ⟨walk_of_dir h hdir false, hdir⟩
  · rintro ⟨h, hdir⟩
    exact walk_of_dir h hdir true

/-! ## Parts without a link -/

omit [DecidableEq ν] in
lemma real_of_append {first second : List ν} (h : t.Real (first ++ second)) : t.Real first := by
  induction second using List.reverseRecOn with
  | nil => simpa using h
  | append_singleton second name ih =>
    refine ih (.inr (t.closed _ name ?_))
    rw [List.append_assoc]
    rcases h with h | h <;> rw [h] <;> rfl

/-- A part of a path that meets no link can be taken off its front. -/
theorem walk_append {first : List (Component ν)} {middle : List ν}
    (h : t.walk 0 location first false = some middle) :
    t.walk links location (first ++ rest) slash = t.walk links middle rest slash := by
  refine walk_induction_rest (P := fun _ location first _ middle =>
    t.walk links location (first ++ rest) slash = t.walk links middle rest slash) ?_ ?_ ?_ ?_ h
  · exact fun _ _ _ _ => rfl
  · intro _ location first _ middle hdir ih
    rw [List.cons_append, walk_up, if_pos hdir, ih]
  · intro _ location name first _ middle hreal ih
    rw [List.cons_append, walk_name hreal, ih]
  · intro location next target rest slash goal _ hfollow
    rw [follow_zero] at hfollow
    exact nomatch hfollow

/-- Where a path that meets no link leads. -/
lemma walk_linkless {path : List (Component ν)} {goal : List ν} (h : t.walk 0 location path false = some goal) :
    t.walk links location path slash = if slash ∧ t.node goal ≠ some .dir then none else some goal := by
  have hpath : t.walk links location (path ++ []) slash = t.walk links goal [] slash := walk_append h
  rwa [List.append_nil, walk_nil] at hpath

/-- The first part of a path that meets no link meets none. -/
lemma walk_split {first : List (Component ν)} {goal : List ν}
    (h : t.walk 0 location (first ++ rest) false = some goal) :
    ∃ middle, t.walk 0 location first false = some middle ∧ t.walk 0 middle rest false = some goal := by
  induction first generalizing location with
  | nil => exact ⟨location, by simp [walk_nil], h⟩
  | cons component first ih =>
    rw [List.cons_append] at h
    cases component with
    | up =>
      rw [walk_up] at h
      obtain ⟨hdir, h⟩ := Option.ite_none_right_eq_some.mp h
      obtain ⟨middle, hfirst, hrest⟩ := ih h
      exact ⟨middle, by rw [walk_up, if_pos hdir, hfirst], hrest⟩
    | name name =>
      rcases name_cases t (location ++ [name]) with hnode | ⟨target, hnode⟩ | hreal
      · rw [walk_missing hnode] at h
        exact nomatch h
      · rw [walk_link hnode, follow_zero] at h
        exact nomatch h
      · rw [walk_name hreal] at h
        obtain ⟨middle, hfirst, hrest⟩ := ih h
        exact ⟨middle, by rw [walk_name hreal, hfirst], hrest⟩

/-- A real location is reached by its own names. -/
theorem walk_names {names : List ν} (h : t.Real (location ++ names)) :
    t.walk links location (names.map .name) false = some (location ++ names) := by
  induction names generalizing location with
  | nil => simp [walk_nil]
  | cons name names ih =>
    have hnext : location ++ name :: names = (location ++ [name]) ++ names := by simp
    rw [hnext] at h
    rw [List.map_cons, walk_name (real_of_append h), ih h, hnext]

lemma walk_top {names : List ν} (h : t.Real names) : t.walk links [] (names.map .name) false = some names := by
  have hwalk : t.walk links [] (names.map .name) false = some ([] ++ names) := walk_names h
  rwa [List.nil_append] at hwalk

/-- Names that meet no link lead where they say. -/
lemma walk_names_eq {names goal : List ν} (h : t.walk 0 location (names.map .name) false = some goal) :
    goal = location ++ names := by
  induction names generalizing location with
  | nil =>
    rw [List.map_nil, walk_nil] at h
    simpa using h.symm
  | cons name names ih =>
    rw [List.map_cons] at h
    rcases name_cases t (location ++ [name]) with hnode | ⟨target, hnode⟩ | hreal
    · rw [walk_missing hnode] at h
      exact nomatch h
    · rw [walk_link hnode, follow_zero] at h
      exact nomatch h
    · rw [walk_name hreal] at h
      rw [ih h, List.append_assoc, List.singleton_append]

/-! ## Resolving without looking -/

/-- A path with its steps up taken off the names before them. -/
def lexical (location : List ν) : List (Component ν) → List ν
  | [] => location
  | .up :: rest => lexical location.dropLast rest
  | .name name :: rest => lexical (location ++ [name]) rest

def realpathWith (t : Tree ν) (follow : List ν → ν → RawPath ν → List (Component ν) → List ν) :
    List ν → List (Component ν) → List ν
  | location, [] => location
  | location, .up :: rest => realpathWith t follow location.dropLast rest
  | location, .name name :: rest =>
    match t.node (location ++ [name]) with
    | some (.link target) => follow location name target rest
    | _ => realpathWith t follow (location ++ [name]) rest

/-- Links are followed where there are any, and what does not exist is kept as it is written. -/
def realpath (t : Tree ν) : ℕ → List ν → List (Component ν) → List ν
  | 0 => t.realpathWith fun location name _ rest => lexical (location ++ [name]) rest
  | links + 1 => t.realpathWith fun location _ target rest =>
    realpath t links (if target.absolute then [] else location) (target.components ++ rest)

/-- Where a walk arrives, this arrives too. -/
theorem realpath_of_walk {goal : List ν} (h : t.walk links location rest slash = some goal) :
    t.realpath links location rest = goal := by
  refine walk_induction (P := fun links location rest _ goal => t.realpath links location rest = goal)
    ?_ ?_ ?_ ?_ h
  · intro links location slash _
    cases links <;> rfl
  · intro links location rest slash goal _ ih
    cases links <;> exact ih
  · intro links location name rest slash goal hreal ih
    cases links <;> rw [realpath, realpathWith] <;> rcases hreal with hnode | hnode <;> rw [hnode] <;> exact ih
  · intro links location name target rest slash goal hnode ih
    rw [realpath, realpathWith, hnode]
    exact ih

end Tree

end FileTree
