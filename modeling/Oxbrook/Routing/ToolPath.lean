import Oxbrook.Bodies.Form
import Oxbrook.Foundation.Percent
import Oxbrook.Foundation.Replace
import Oxbrook.Origins.Texts
import Oxbrook.Routing.Tools

/-!
# The path of a tool call

`Capability.invoke` of `python/oxbrook/_capabilities.py` makes up the request that a tool call stands for.  Its path is
that of the route, in which each placeholder is replaced by the text of its argument, one after the other and without
percent-encoding.

`tool_path_iff` says when the router would read the arguments back from this path.  What a placeholder was replaced by
is searched again for the placeholders that come later, so that `rewritten` follows a value through the replacements
after its own.

A pattern is matched as the `matchit` crate documents it: a placeholder stands for one character or more of a segment,
a wildcard for the rest of the path, a segment has at most one placeholder, and a wildcard is the last.
-/

namespace Oxbrook

open Percent Replace

variable {F : Type*}

/-! ## Routes -/

/-- A placeholder of a route's path, and the text between it and the next one. -/
structure Placeholder where
  name : Text
  wild : Bool
  after : Text

/-- `{name}` -/
def plainMark (name : Text) : Text := '{' :: (name ++ ['}'])

/-- `{*name}` -/
def starredMark (name : Text) : Text := '{' :: ('*' :: name ++ ['}'])

def Placeholder.mark (p : Placeholder) : Text := if p.wild then starredMark p.name else plainMark p.name

/-- `[A-Za-z_][A-Za-z0-9_]*` -/
def IsIdentifier (name : Text) : Prop :=
  (∀ c ∈ name, c.isAlphanum = true ∨ c = '_') ∧ name.head?.any (fun c => c.isAlpha || c = '_') = true

/-- What the router takes: one placeholder to a segment, and a wildcard at the end only. -/
def Separated : List Placeholder → Prop
  | [] => True
  | [p] => p.wild = true → p.after = []
  | p :: q :: later => p.wild = false ∧ '/' ∈ p.after ∧ Separated (q :: later)

/-- The path of a route, as `build_route` and `Router::build` take it. -/
structure RoutePath where
  head : Text
  params : List Placeholder
  literal : ∀ text ∈ head :: params.map Placeholder.after, '{' ∉ text ∧ '}' ∉ text
  identifiers : ∀ p ∈ params, IsIdentifier p.name
  distinct : (params.map Placeholder.name).Nodup
  separated : Separated params

namespace RoutePath

def text (route : RoutePath) : Text := route.head ++ route.params.flatMap fun p => p.mark ++ p.after

end RoutePath

/-! ## Matching -/

/-- What the placeholders capture of the rest of a path. -/
def matchParams : List Placeholder → Text → Option (List (Text × Text))
  | [], text => if text = [] then some [] else none
  | p :: later, text =>
    if p.wild then if text = [] then none else some [(p.name, text)]
    else
      let segment := text.takeWhile (· ≠ '/')
      let more := text.dropWhile (· ≠ '/')
      let suffix := p.after.takeWhile (· ≠ '/')
      let fixed := p.after.dropWhile (· ≠ '/')
      if suffix <:+ segment ∧ suffix.length < segment.length ∧ fixed <+: more then
        (matchParams later (more.drop fixed.length)).map
          ((p.name, segment.take (segment.length - suffix.length)) :: ·)
      else none

/-- The parameters that a pattern captures of a path, still encoded. -/
def RoutePath.captures (route : RoutePath) (path : Text) : Option (List (Text × Text)) :=
  if route.head <+: path then matchParams route.params (path.drop route.head.length) else none

/-- `decode_path`. -/
def decodePathText (raw : Text) : Text := if '%' ∈ raw then decodeLossy none (decode (bytesOf raw)) else raw

/-! ## The path of a call -/

/-- `str`, of a scalar. -/
def Wire.pyStr (w : Wire F) : PyObject F → Text
  | .bool value => if value then "True".toList else "False".toList
  | value => (w.text value).toList

/-- One round of the loop of `invoke`. -/
def substitute (value : Text → Text) (path : Text) (p : Placeholder) : Text :=
  replaceAll (starredMark p.name) (value p.name) (replaceAll (plainMark p.name) (value p.name) path)

/-- The path of the request of a tool call. -/
def RoutePath.invoked (route : RoutePath) (w : Wire F) (arguments : Text → PyObject F) : Text :=
  route.params.foldl (substitute fun name => w.pyStr (arguments name)) route.text

/-- The router reads the arguments back from the path. -/
def RoutePath.ReadBack (route : RoutePath) (w : Wire F) (arguments : Text → PyObject F) : Prop :=
  ∃ captures, route.captures (route.invoked w arguments) = some captures ∧
    captures.map (fun capture => (capture.1, decodePathText capture.2)) =
      route.params.map fun p => (p.name, w.pyStr (arguments p.name))

/-- What becomes of a value: its own second replacement, and those of the later placeholders. -/
def rewritten (value : Text → Text) (p : Placeholder) (later : List Placeholder) : Text :=
  later.foldl (substitute value)
    (if p.wild then value p.name else replaceAll (starredMark p.name) (value p.name) (value p.name))

/-- Every value, as it is rewritten, stays within its segment and is decoded to itself. -/
def Survive (value : Text → Text) : List Placeholder → Prop
  | [] => True
  | p :: later =>
    (p.wild = false → '/' ∉ rewritten value p later) ∧ decodePathText (rewritten value p later) = value p.name ∧
      Survive value later

/-! ## Placeholders -/

lemma IsIdentifier.plain {name : Text} (h : IsIdentifier name) {c : Char} (hc : c ∈ ['{', '}', '*', '/']) :
    c ∉ name := by
  intro hmem
  have hmarks : (['{', '}', '*', '/'].all fun c => !c.isAlphanum && c ≠ '_') = true := by decide
  have hmark := List.all_eq_true.mp hmarks c hc
  simp only [Bool.and_eq_true, Bool.not_eq_true', decide_eq_true_eq] at hmark
  rcases h.1 c hmem with halnum | hunder
  · rw [hmark.1] at halnum
    cases halnum
  · exact hmark.2 hunder

/-- The text of a placeholder: one of the two marks of a name without braces. -/
structure MarkOf (mark body : Text) : Prop where
  eq : mark = '{' :: (body ++ ['}'])
  opening : '{' ∉ body
  closing : '}' ∉ body
  slash : '/' ∉ body

lemma markOf_plain {name : Text} (h : IsIdentifier name) : MarkOf (plainMark name) name where
  eq := rfl
  opening := h.plain (by simp)
  closing := h.plain (by simp)
  slash := h.plain (by simp)

lemma markOf_starred {name : Text} (h : IsIdentifier name) : MarkOf (starredMark name) ('*' :: name) where
  eq := rfl
  opening := by simpa using h.plain (c := '{') (by simp)
  closing := by simpa using h.plain (c := '}') (by simp)
  slash := by simpa using h.plain (c := '/') (by simp)

variable {mark body new text : Text}

/-- A mark is found in another one only if the two are the same. -/
lemma replace_mark {other otherBody : Text} (h : MarkOf mark body) (hother : MarkOf other otherBody)
    (hne : body ≠ otherBody) : replaceAll mark new other = other := by
  have hprefix : ¬ mark <+: other := by
    rw [h.eq, hother.eq, List.cons_prefix_cons]
    rintro ⟨-, more, hmore⟩
    have hcut : splitOnce (otherBody ++ ['}']) ['}'] = some (body, more) :=
      splitOnce_char_iff.mpr ⟨by simpa using hmore.symm, h.closing⟩
    rw [splitOnce_char_iff.mpr ⟨rfl, hother.closing⟩, Option.some.injEq, Prod.mk.injEq] at hcut
    exact hne hcut.1.symm
  have hrest : '{' ∉ otherBody ++ ['}'] := by simpa using hother.opening
  unfold replaceAll
  rw [hother.eq] at hprefix ⊢
  rw [replaceFrom, if_neg hprefix]
  congr 1
  rw [h.eq]
  exact replaceAll_of_not_mem hrest

/-! ## Chunks -/

/-- What stands at the places of placeholders, each with the text after it. -/
def chunksText (chunks : List (Text × Text)) : Text := chunks.flatMap fun chunk => chunk.1 ++ chunk.2

/-- Between two places there are no braces, but a slash. -/
def Spaced : List (Text × Text) → Prop
  | [] => True
  | chunk :: rest => ('{' ∉ chunk.2 ∧ '}' ∉ chunk.2) ∧ (rest = [] ∨ '/' ∈ chunk.2) ∧ Spaced rest

/-- A text is replaced at every place. -/
def overChunks (f : Text → Text) (chunks : List (Text × Text)) : List (Text × Text) :=
  chunks.map fun chunk => (f chunk.1, chunk.2)

lemma chunksText_cons (chunk : Text × Text) (rest : List (Text × Text)) :
    chunksText (chunk :: rest) = chunk.1 ++ (chunk.2 ++ chunksText rest) := by
  rw [chunksText, List.flatMap_cons, List.append_assoc]
  rfl

lemma Spaced.overChunks {chunks : List (Text × Text)} (h : Spaced chunks) (f : Text → Text) :
    Spaced (overChunks f chunks) := by
  induction chunks with
  | nil => trivial
  | cons chunk rest ih =>
    refine ⟨h.1, ?_, ih h.2.2⟩
    rcases h.2.1 with hrest | hslash
    · exact .inl (by rw [hrest]; rfl)
    · exact .inr hslash

/-- A mark does not begin in a text without braces. -/
lemma apart_literal {left right : Text} (h : MarkOf mark body) (hleft : '{' ∉ left) : Apart mark left right := by
  intro start rest heq hstart _ hsuffix _
  rw [h.eq] at heq
  obtain ⟨c, start, rfl⟩ := List.exists_cons_of_ne_nil hstart
  obtain ⟨rfl, -⟩ := List.cons.inj heq
  exact hleft (hsuffix.subset (List.mem_cons_self ..))

/-- A mark that begins in a value ends in it. -/
lemma apart_value {left between right : Text} (h : MarkOf mark body) (hbetween : '}' ∉ between)
    (hend : right = [] ∨ '/' ∈ between) : Apart mark left (between ++ right) := by
  intro start rest heq hstart hrest _
  rintro ⟨more, hmore⟩
  have hrest' : ∃ tail, rest = tail ++ ['}'] ∧ '/' ∉ tail := by
    rw [h.eq] at heq
    obtain ⟨c, start, rfl⟩ := List.exists_cons_of_ne_nil hstart
    have hbody : body ++ ['}'] = start ++ rest := (List.cons.inj heq).2
    rcases List.append_eq_append_iff.mp hbody with ⟨tail, hstart', hlast⟩ | ⟨tail, hbody', hrest'⟩
    · have htail : tail = [] := by
        cases tail with
        | nil => rfl
        | cons d tail =>
          rw [List.cons_append] at hlast
          exact absurd (List.append_eq_nil_iff.mp (List.cons.inj hlast).2.symm).2 hrest
      exact ⟨[], by rw [htail] at hlast; exact hlast.symm, by simp⟩
    · refine ⟨tail, hrest', ?_⟩
      intro hslash
      exact h.slash (hbody' ▸ List.mem_append_right _ hslash)
  obtain ⟨tail, rfl, hslash⟩ := hrest'
  rcases List.append_eq_append_iff.mp hmore with ⟨spill, hwithin, -⟩ | ⟨spill, hlong, hright⟩
  · exact hbetween (hwithin ▸ by simp)
  · rcases hend with hnil | hmem
    · rw [hnil] at hright
      rw [(List.append_eq_nil_iff.mp hright.symm).1, List.append_nil] at hlong
      exact hbetween (hlong ▸ by simp)
    · have hin : '/' ∈ tail ++ ['}'] := hlong ▸ List.mem_append_left _ hmem
      simp [hslash] at hin

/-- A mark is replaced at each place by itself. -/
lemma replace_chunks {chunks : List (Text × Text)} (h : MarkOf mark body) (spaced : Spaced chunks) :
    replaceAll mark new (chunksText chunks) = chunksText (overChunks (replaceAll mark new) chunks) := by
  induction chunks with
  | nil => rfl
  | cons chunk rest ih =>
    obtain ⟨⟨hopening, hclosing⟩, hend, hrest⟩ := spaced
    have hnil : chunksText rest = [] ∨ '/' ∈ chunk.2 := by
      rcases hend with hnil | hslash
      · exact .inl (by rw [hnil]; rfl)
      · exact .inr hslash
    have hliteral : replaceAll mark new chunk.2 = chunk.2 := by
      rw [h.eq]
      exact replaceAll_of_not_mem hopening
    have hover : overChunks (replaceAll mark new) (chunk :: rest) =
        (replaceAll mark new chunk.1, chunk.2) :: overChunks (replaceAll mark new) rest := rfl
    rw [chunksText_cons, replaceAll_append (apart_value h hclosing hnil), replaceAll_append (apart_literal h hopening),
      ih hrest, hliteral, hover, chunksText_cons]

/-! ## The loop -/

section Loop

variable {value : Text → Text} {p q : Placeholder} {chunks : List (Text × Text)}

lemma substitute_chunks (hp : IsIdentifier p.name) (spaced : Spaced chunks) :
    substitute value (chunksText chunks) p = chunksText (overChunks (fun x => substitute value x p) chunks) := by
  unfold substitute
  rw [replace_chunks (markOf_plain hp) spaced, replace_chunks (markOf_starred hp) (spaced.overChunks _)]
  unfold overChunks
  rw [List.map_map]
  rfl

lemma substitute_literal {head rest : Text} (hp : IsIdentifier p.name) (hhead : '{' ∉ head) :
    substitute value (head ++ rest) p = head ++ substitute value rest p := by
  have hplain : replaceAll (plainMark p.name) (value p.name) head = head := replaceAll_of_not_mem hhead
  have hstarred : replaceAll (starredMark p.name) (value p.name) head = head := replaceAll_of_not_mem hhead
  unfold substitute
  rw [replaceAll_append (apart_literal (markOf_plain hp) hhead), hplain,
    replaceAll_append (apart_literal (markOf_starred hp) hhead), hstarred]

lemma name_ne_starred (hp : IsIdentifier p.name) (name : Text) : p.name ≠ '*' :: name := by
  intro heq
  exact hp.plain (c := '*') (by simp) (heq ▸ List.mem_cons_self ..)

/-- Other placeholders are left alone. -/
lemma substitute_other (hp : IsIdentifier p.name) (hq : IsIdentifier q.name) (hne : p.name ≠ q.name) :
    substitute value q.mark p = q.mark := by
  unfold substitute Placeholder.mark
  cases q.wild with
  | true =>
    have hplain : replaceAll (plainMark p.name) (value p.name) (starredMark q.name) = starredMark q.name :=
      replace_mark (markOf_plain hp) (markOf_starred hq) (name_ne_starred hp q.name)
    simp only [if_true]
    rw [hplain]
    exact replace_mark (markOf_starred hp) (markOf_starred hq) fun heq => hne (List.cons.inj heq).2
  | false =>
    have hplain : replaceAll (plainMark p.name) (value p.name) (plainMark q.name) = plainMark q.name :=
      replace_mark (markOf_plain hp) (markOf_plain hq) hne
    simp only [Bool.false_eq_true, if_false]
    rw [hplain]
    exact replace_mark (markOf_starred hp) (markOf_plain hq) (name_ne_starred hq p.name).symm

/-- A placeholder gives way to its value, which the second replacement of a plain one searches again. -/
lemma substitute_self (hp : IsIdentifier p.name) : substitute value p.mark p =
    if p.wild then value p.name else replaceAll (starredMark p.name) (value p.name) (value p.name) := by
  unfold substitute Placeholder.mark
  cases p.wild with
  | true =>
    have hplain : replaceAll (plainMark p.name) (value p.name) (starredMark p.name) = starredMark p.name :=
      replace_mark (markOf_plain hp) (markOf_starred hp) (name_ne_starred hp p.name)
    simp only [if_true]
    rw [hplain]
    exact replaceAll_self (by simp [starredMark])
  | false =>
    have hplain : replaceAll (plainMark p.name) (value p.name) (plainMark p.name) = value p.name :=
      replaceAll_self (by simp [plainMark])
    simp only [Bool.false_eq_true, if_false]
    rw [hplain]

/-- What the places hold in the end. -/
def finalChunks (value : Text → Text) : List Placeholder → List (Text × Text)
  | [] => []
  | p :: later => (rewritten value p later, p.after) :: finalChunks value later

/-- The loop, with the values that are already in place before the placeholders that are to come. -/
lemma foldl_chunks {todo : List Placeholder} (identifiers : ∀ p ∈ todo, IsIdentifier p.name)
    (distinct : (todo.map Placeholder.name).Nodup) (spaced : Spaced (chunks ++ todo.map fun p => (p.mark, p.after))) :
    todo.foldl (substitute value) (chunksText (chunks ++ todo.map fun p => (p.mark, p.after))) =
      chunksText (overChunks (fun x => todo.foldl (substitute value) x) chunks ++ finalChunks value todo) := by
  induction todo generalizing chunks with
  | nil => simp [overChunks, finalChunks]
  | cons p later ih =>
    have hp := identifiers p (List.mem_cons_self ..)
    rw [List.map_cons, List.nodup_cons] at distinct
    have hlater : overChunks (fun x => substitute value x p) (later.map fun q => (q.mark, q.after)) =
        later.map fun q => (q.mark, q.after) := by
      unfold overChunks
      rw [List.map_map]
      apply List.map_congr_left
      intro q hq
      have hne : p.name ≠ q.name := fun heq => distinct.1 (heq ▸ List.mem_map_of_mem hq)
      exact Prod.ext (substitute_other hp (identifiers q (List.mem_cons_of_mem _ hq)) hne) rfl
    have hstep : overChunks (fun x => substitute value x p) (chunks ++ (p :: later).map fun q => (q.mark, q.after)) =
        (overChunks (fun x => substitute value x p) chunks ++ [(substitute value p.mark p, p.after)]) ++
          later.map fun q => (q.mark, q.after) := by
      rw [List.append_assoc]
      unfold overChunks at hlater ⊢
      rw [List.map_append, List.map_cons, List.map_cons, hlater]
      rfl
    have hspaced := spaced.overChunks fun x => substitute value x p
    rw [hstep] at hspaced
    rw [List.foldl_cons, substitute_chunks hp spaced, hstep,
      ih (fun q hq => identifiers q (List.mem_cons_of_mem _ hq)) distinct.2 hspaced]
    congr 1
    unfold overChunks
    rw [List.map_append, List.map_map, List.append_assoc, substitute_self hp]
    rfl

end Loop

namespace RoutePath

variable {route : RoutePath}

lemma spaced (route : RoutePath) : Spaced (route.params.map fun p => (p.mark, p.after)) := by
  have hliteral : ∀ p ∈ route.params, '{' ∉ p.after ∧ '}' ∉ p.after := fun p hp =>
    route.literal _ (List.mem_cons_of_mem _ (List.mem_map_of_mem hp))
  have hseparated := route.separated
  revert hliteral hseparated
  induction route.params with
  | nil => exact fun _ _ => trivial
  | cons p later ih =>
    intro hliteral hseparated
    have hrest := ih fun q hq => hliteral q (List.mem_cons_of_mem _ hq)
    cases later with
    | nil => exact ⟨hliteral p (List.mem_cons_self ..), .inl rfl, trivial⟩
    | cons q later => exact ⟨hliteral p (List.mem_cons_self ..), .inr hseparated.2.1, hrest hseparated.2.2⟩

/-- The path of a call: every placeholder has given way to its value, as it is rewritten. -/
lemma foldl_text (route : RoutePath) (value : Text → Text) : route.params.foldl (substitute value) route.text =
    route.head ++ chunksText (finalChunks value route.params) := by
  have hhead := (route.literal route.head (List.mem_cons_self ..)).1
  have hliteral : ∀ todo : List Placeholder, (∀ p ∈ todo, IsIdentifier p.name) → ∀ rest,
      todo.foldl (substitute value) (route.head ++ rest) = route.head ++ todo.foldl (substitute value) rest := by
    intro todo
    induction todo with
    | nil => exact fun _ _ => rfl
    | cons p later ih =>
      intro hidentifiers rest
      rw [List.foldl_cons, List.foldl_cons, substitute_literal (hidentifiers p (List.mem_cons_self ..)) hhead,
        ih fun q hq => hidentifiers q (List.mem_cons_of_mem _ hq)]
  have htext : route.text = route.head ++ chunksText ([] ++ route.params.map fun p => (p.mark, p.after)) := by
    unfold text chunksText
    rw [List.nil_append, List.flatMap_map]
  rw [htext, hliteral _ route.identifiers, foldl_chunks route.identifiers route.distinct route.spaced]
  rfl

end RoutePath

/-! ## Slashes -/

/-- Reading a segment ends before the first slash. -/
lemma takeWhile_segment {value after rest : Text} (hvalue : '/' ∉ value) (hrest : rest = [] ∨ '/' ∈ after) :
    (value ++ (after ++ rest)).takeWhile (· ≠ '/') = value ++ after.takeWhile (· ≠ '/') ∧
      (value ++ (after ++ rest)).dropWhile (· ≠ '/') = after.dropWhile (· ≠ '/') ++ rest := by
  have hplain : ∀ c ∈ value, decide (c ≠ '/') = true := by
    intro c hc
    simpa using fun heq : c = '/' => hvalue (heq ▸ hc)
  rw [List.takeWhile_append_of_pos hplain, List.dropWhile_append_of_pos hplain]
  rcases hrest with rfl | hslash
  · simp
  · obtain ⟨before, tail, rfl, hbefore⟩ := List.eq_append_cons_of_mem hslash
    have hpos : ∀ c ∈ before, decide (c ≠ '/') = true := by
      intro c hc
      simpa using fun heq : c = '/' => hbefore (heq ▸ hc)
    rw [List.append_assoc, List.takeWhile_append_of_pos hpos, List.takeWhile_append_of_pos hpos,
      List.dropWhile_append_of_pos hpos, List.dropWhile_append_of_pos hpos]
    simp

lemma count_firstByte (b : UInt8) : (if b == 47 then 1 else 0) ≤ (firstByte b).1.count '/' := by
  by_cases hb : b = 47
  · rw [hb]
    exact le_rfl
  · simp [hb]

lemma low_firstByte {b : UInt8} : ∀ c ∈ (firstByte b).2, 0x80 ≤ c.low := by
  intro c hc
  unfold firstByte at hc
  dsimp only at hc
  split at hc
  · cases hc
  · split at hc
    · cases hc
      exact le_rfl
    · split at hc
      · cases hc
        dsimp only
        split <;> decide
      · split at hc
        · cases hc
          dsimp only
          split <;> decide
        · cases hc

/-- A slash does not go on with a character. -/
lemma ne_slash {c : HalfRead} {b : UInt8} (hlow : 0x80 ≤ c.low)
    (hin : (decide (c.low ≤ b.toNat) && decide (b.toNat ≤ c.high)) = true) : b ≠ 47 := by
  rintro rfl
  simp only [Bool.and_eq_true, decide_eq_true_eq] at hin
  have hslash : (47 : UInt8).toNat = 47 := rfl
  omega

/-- Decoding takes no slash away. -/
lemma count_decodeLossy (state : Option HalfRead) (bytes : List UInt8) (h : ∀ c ∈ state, 0x80 ≤ c.low) :
    bytes.count 47 ≤ (decodeLossy state bytes).count '/' := by
  induction state, bytes using decodeLossy.induct with
  | case1 => exact le_rfl
  | case2 c => exact Nat.zero_le _
  | case3 b bytes ih =>
    have hbyte := count_firstByte b
    have hrest := ih low_firstByte
    rw [decodeLossy, List.count_cons, List.count_append]
    omega
  | case4 c b bytes hin hlast ih =>
    have hrest := ih (by simp)
    have hne := ne_slash (h c rfl) hin
    rw [decodeLossy, if_pos hin]
    dsimp only
    rw [if_pos hlast, List.count_cons_of_ne hne]
    exact hrest.trans (List.count_le_count_cons)
  | case5 c b bytes hin bits hmore ih =>
    have hrest := ih (by simp)
    have hne := ne_slash (h c rfl) hin
    rw [decodeLossy, if_pos hin]
    dsimp only
    rw [if_neg hmore, List.count_cons_of_ne hne]
    exact hrest
  | case6 c b bytes hout ih =>
    have hbyte := count_firstByte b
    have hrest := ih low_firstByte
    rw [decodeLossy, if_neg hout, List.count_cons, List.count_append, List.count_cons]
    omega

lemma count_decode (bytes : List UInt8) : bytes.count 47 ≤ (decode bytes).count 47 := by
  induction bytes using decode.induct with
  | case1 => exact le_rfl
  | case2 high low rest h l hlow hhigh ih =>
    have hdecode : decode (37 :: high :: low :: rest) = .ofNat (h * 16 + l) :: decode rest := by
      rw [decode]
      simp only [hhigh, hlow]
    have hvalue : hexValue 47 = none := rfl
    have hne : ∀ {b : UInt8} {n : ℕ}, hexValue b = some n → b ≠ 47 := by
      rintro b n hb rfl
      rw [hvalue] at hb
      cases hb
    rw [hdecode, List.count_cons_of_ne (by decide), List.count_cons_of_ne (hne hhigh), List.count_cons_of_ne (hne hlow)]
    exact ih.trans List.count_le_count_cons
  | case3 high low rest hnot ih =>
    have hdecode : decode (37 :: high :: low :: rest) = 37 :: decode (high :: low :: rest) := by
      rw [decode]
      split
      · rename_i h l hhigh hlow
        exact absurd hlow (hnot h l hhigh)
      · rfl
    have hmark : ∀ bytes : List UInt8, (37 :: bytes).count 47 = bytes.count 47 :=
      fun bytes => List.count_cons_of_ne (by decide)
    rw [hdecode, hmark, hmark]
    exact ih
  | case4 b rest hnot ih =>
    have hdecode : decode (b :: rest) = b :: decode rest := by
      rw [decode]
      exact hnot
    rw [hdecode, List.count_cons, List.count_cons]
    omega

lemma count_bytesOf (text : Text) : text.count '/' ≤ (bytesOf text).count 47 := by
  induction text with
  | nil => exact le_rfl
  | cons c text ih =>
    rw [bytesOf_cons, List.count_cons, List.count_append]
    by_cases hc : c = '/'
    · have hslash : (String.utf8EncodeChar '/').count 47 = 1 := by decide
      rw [hc, hslash]
      simp
      omega
    · simp [hc]
      omega

lemma count_decodePathText (raw : Text) : raw.count '/' ≤ (decodePathText raw).count '/' := by
  unfold decodePathText
  split
  · exact (count_bytesOf raw).trans ((count_decode _).trans (count_decodeLossy none _ (by simp)))
  · exact le_rfl

/-! ## What is captured -/

section Captured

variable {value : Text → Text} {p : Placeholder} {params later : List Placeholder} {path : Text}

lemma foldl_ne_nil {start : Text} (hlater : ∀ q ∈ later, value q.name ≠ []) (hstart : start ≠ []) :
    later.foldl (substitute value) start ≠ [] := by
  induction later generalizing start with
  | nil => exact hstart
  | cons q later ih =>
    have hq := hlater q (List.mem_cons_self ..)
    exact ih (fun r hr => hlater r (List.mem_cons_of_mem _ hr)) (replaceAll_ne_nil hq (replaceAll_ne_nil hq hstart))

lemma rewritten_ne_nil (hvalue : ∀ q ∈ p :: later, value q.name ≠ []) : rewritten value p later ≠ [] := by
  have hp := hvalue p (List.mem_cons_self ..)
  apply foldl_ne_nil fun q hq => hvalue q (List.mem_cons_of_mem _ hq)
  split
  · exact hp
  · exact replaceAll_ne_nil hp hp

/-- Every value, as it is rewritten, stays within its segment. -/
def Within (value : Text → Text) : List Placeholder → Prop
  | [] => True
  | p :: later => (p.wild = false → '/' ∉ rewritten value p later) ∧ Within value later

lemma Separated.tail (h : Separated (p :: later)) : Separated later := by
  cases later with
  | nil => trivial
  | cons q later => exact h.2.2

lemma Separated.slash (h : Separated (p :: later)) : chunksText (finalChunks value later) = [] ∨ '/' ∈ p.after := by
  cases later with
  | nil => exact .inl rfl
  | cons q later => exact .inr h.2.1

lemma Separated.last (h : Separated (p :: later)) (hwild : p.wild = true) : later = [] ∧ p.after = [] := by
  cases later with
  | nil => exact ⟨rfl, h hwild⟩
  | cons q later =>
    rw [h.1] at hwild
    cases hwild

/-- Values that stay within their segments are captured. -/
lemma matchParams_final (separated : Separated params) (hvalue : ∀ p ∈ params, value p.name ≠ [])
    (within : Within value params) : matchParams params (chunksText (finalChunks value params)) =
      some ((params.zip (finalChunks value params)).map fun entry => (entry.1.name, entry.2.1)) := by
  induction params with
  | nil => rfl
  | cons p later ih =>
    have hne := rewritten_ne_nil hvalue
    rw [finalChunks, chunksText_cons, matchParams]
    cases hwild : p.wild with
    | true =>
      obtain ⟨rfl, hafter⟩ := separated.last hwild
      simp [hafter, finalChunks, chunksText, hne]
    | false =>
      obtain ⟨hsegment, hmore⟩ := takeWhile_segment (within.1 hwild) separated.slash
      have hcut : ∀ w t : Text, (w ++ t).take ((w ++ t).length - t.length) = w := by
        intro w t
        rw [List.length_append, Nat.add_sub_cancel, List.take_left]
      have hpos := List.length_pos_iff.mpr hne
      dsimp only
      rw [if_neg Bool.false_ne_true, hsegment, hmore, if_pos, List.drop_left, hcut,
        ih separated.tail (fun q hq => hvalue q (List.mem_cons_of_mem _ hq)) within.2]
      · rfl
      · refine ⟨List.suffix_append _ _, ?_, List.prefix_append _ _⟩
        rw [List.length_append]
        omega

/-- The slashes between the places of a pattern. -/
def fixedSlashes (params : List Placeholder) : ℕ := (params.map fun p => p.after.count '/').sum

/-- The slashes that a wildcard may have. -/
def wildSlashes (value : Text → Text) (params : List Placeholder) : ℕ :=
  (params.map fun p => if p.wild then (value p.name).count '/' else 0).sum

/-- A path that the values are read back from has no more slashes than the pattern and its wildcard have. -/
lemma count_of_captured {captures : List (Text × Text)} (h : matchParams params path = some captures)
    (hread : captures.map (fun capture => (capture.1, decodePathText capture.2)) =
      params.map fun p => (p.name, value p.name)) :
    path.count '/' ≤ fixedSlashes params + wildSlashes value params := by
  induction params generalizing path captures with
  | nil =>
    rw [matchParams] at h
    split_ifs at h with hnil
    rw [hnil]
    exact Nat.zero_le _
  | cons p later ih =>
    have hfixed : fixedSlashes (p :: later) = p.after.count '/' + fixedSlashes later := List.sum_cons
    have hwilds : wildSlashes value (p :: later) =
        (if p.wild then (value p.name).count '/' else 0) + wildSlashes value later := List.sum_cons
    rw [hfixed, hwilds]
    rw [matchParams] at h
    cases hwild : p.wild with
    | true =>
      rw [hwild, if_pos rfl] at h
      split_ifs at h
      cases h
      have hvalue : decodePathText path = value p.name := (Prod.mk.inj (List.cons.inj hread).1).2
      have hcount := count_decodePathText path
      rw [hvalue] at hcount
      rw [if_pos rfl]
      omega
    | false =>
      rw [hwild, if_neg Bool.false_ne_true] at h
      dsimp only at h
      split_ifs at h with hmatch
      obtain ⟨-, -, tail, hmore⟩ := hmatch
      obtain ⟨rest, hrest, rfl⟩ := Option.map_eq_some_iff.mp h
      rw [← hmore, List.drop_left] at hrest
      have hlater := ih hrest (List.cons.inj hread).2
      have hsegment : (path.takeWhile (· ≠ '/')).count '/' = 0 := by
        rw [List.count_eq_zero]
        intro hmem
        simpa using List.mem_takeWhile_imp hmem
      have hcut : ∀ text : Text, text.count '/' = (text.takeWhile (· ≠ '/') ++ text.dropWhile (· ≠ '/')).count '/' := by
        intro text
        rw [List.takeWhile_append_dropWhile]
      have hpath := hcut path
      have hafter := hcut p.after
      rw [List.count_append] at hpath hafter
      rw [← hmore, List.count_append] at hpath
      omega

lemma count_final : (chunksText (finalChunks value params)).count '/' =
    fixedSlashes params + ((finalChunks value params).map fun chunk => chunk.1.count '/').sum := by
  induction params with
  | nil => rfl
  | cons p later ih =>
    have hfixed : fixedSlashes (p :: later) = p.after.count '/' + fixedSlashes later := List.sum_cons
    rw [finalChunks, chunksText_cons, List.count_append, List.count_append, ih, hfixed, List.map_cons, List.sum_cons]
    dsimp only
    omega

/-- What a wildcard is replaced by is not searched again. -/
lemma wildSlashes_le (separated : Separated params) :
    wildSlashes value params ≤ ((finalChunks value params).map fun chunk => chunk.1.count '/').sum := by
  induction params with
  | nil => exact le_rfl
  | cons p later ih =>
    have hlater := ih separated.tail
    have hwilds : wildSlashes value (p :: later) =
        (if p.wild then (value p.name).count '/' else 0) + wildSlashes value later := List.sum_cons
    rw [hwilds, finalChunks, List.map_cons, List.sum_cons]
    cases hwild : p.wild with
    | true =>
      obtain ⟨rfl, -⟩ := separated.last hwild
      have hvalue : rewritten value p [] = value p.name := by simp [rewritten, hwild]
      rw [hvalue, if_pos rfl]
      exact Nat.add_le_add_left hlater _
    | false =>
      rw [if_neg Bool.false_ne_true, Nat.zero_add]
      exact hlater.trans (Nat.le_add_left ..)

/-- If the values have no more slashes than the wildcard may have, they stay within their segments. -/
lemma within_of_count (separated : Separated params)
    (h : ((finalChunks value params).map fun chunk => chunk.1.count '/').sum ≤ wildSlashes value params) :
    Within value params := by
  induction params with
  | nil => trivial
  | cons p later ih =>
    have hlater : wildSlashes value later ≤ _ := wildSlashes_le separated.tail
    have hwilds : wildSlashes value (p :: later) =
        (if p.wild then (value p.name).count '/' else 0) + wildSlashes value later := List.sum_cons
    rw [hwilds, finalChunks, List.map_cons, List.sum_cons] at h
    dsimp only at h
    cases hwild : p.wild with
    | true =>
      obtain ⟨rfl, -⟩ := separated.last hwild
      exact ⟨by simp [hwild], trivial⟩
    | false =>
      rw [hwild, if_neg Bool.false_ne_true] at h
      refine ⟨fun _ => ?_, ih separated.tail (by omega)⟩
      rw [← List.count_eq_zero]
      omega

lemma survive_iff : Survive value params ↔ Within value params ∧
    (params.zip (finalChunks value params)).map (fun entry => (entry.1.name, decodePathText entry.2.1)) =
      params.map fun p => (p.name, value p.name) := by
  induction params with
  | nil => simp [Survive, Within]
  | cons p later ih =>
    simp only [Survive, Within, finalChunks, List.zip_cons_cons, List.map_cons, List.cons.injEq, Prod.mk.injEq,
      true_and, ih]
    tauto

lemma rewritten_of_not_mem (h : '{' ∉ value p.name) : rewritten value p later = value p.name := by
  have hsame : ∀ q : Placeholder, substitute value (value p.name) q = value p.name := by
    intro q
    have hplain : replaceAll (plainMark q.name) (value q.name) (value p.name) = value p.name :=
      replaceAll_of_not_mem h
    have hstarred : replaceAll (starredMark q.name) (value q.name) (value p.name) = value p.name :=
      replaceAll_of_not_mem h
    unfold substitute
    rw [hplain, hstarred]
  have hown : replaceAll (starredMark p.name) (value p.name) (value p.name) = value p.name := replaceAll_of_not_mem h
  unfold rewritten
  rw [hown, ite_self]
  induction later with
  | nil => rfl
  | cons q later ih => rw [List.foldl_cons, hsame, ih]

/-- Values without braces are only to stay within their segments, and to hold no escape. -/
theorem survive_iff_of_no_brace (h : ∀ p ∈ params, '{' ∉ value p.name) : Survive value params ↔
    ∀ p ∈ params, (p.wild = false → '/' ∉ value p.name) ∧ decodePathText (value p.name) = value p.name := by
  induction params with
  | nil => simp [Survive]
  | cons p later ih =>
    rw [Survive, rewritten_of_not_mem (h p (List.mem_cons_self ..)), ih fun q hq => h q (List.mem_cons_of_mem _ hq),
      List.forall_mem_cons, and_assoc]

end Captured

/-- **Tool paths.**  The router reads the arguments of a tool call back from its path exactly if every value, as the
later replacements leave it, stays within its segment and is decoded to itself. -/
theorem tool_path_iff (route : RoutePath) (w : Wire F) (arguments : Text → PyObject F)
    (received : ∀ p ∈ route.params, w.pyStr (arguments p.name) ≠ []) :
    route.ReadBack w arguments ↔ Survive (fun name => w.pyStr (arguments name)) route.params := by
  have hpath : route.captures (route.invoked w arguments) =
      matchParams route.params (chunksText (finalChunks (fun name => w.pyStr (arguments name)) route.params)) := by
    unfold RoutePath.invoked RoutePath.captures
    rw [route.foldl_text, if_pos (List.prefix_append _ _), List.drop_left]
  rw [survive_iff]
  unfold RoutePath.ReadBack
  rw [hpath]
  constructor
  · rintro ⟨captures, hmatch, hread⟩
    have hcount : _ ≤ fixedSlashes route.params + wildSlashes (fun name => w.pyStr (arguments name)) route.params :=
      count_of_captured hmatch hread
    rw [count_final] at hcount
    have within : Within (fun name => w.pyStr (arguments name)) route.params :=
      within_of_count route.separated (by omega)
    rw [matchParams_final route.separated received within] at hmatch
    rw [← Option.some.inj hmatch, List.map_map] at hread
    exact ⟨within, hread⟩
  · rintro ⟨within, hread⟩
    refine ⟨_, matchParams_final route.separated received within, ?_⟩
    rw [List.map_map]
    exact hread

/-- `/users/{id}` -/
def userRoute : RoutePath where
  head := "/users/".toList
  params := [⟨"id".toList, false, []⟩]
  literal := by
    intro text htext
    simp only [List.map_cons, List.map_nil, List.mem_cons, List.not_mem_nil, or_false] at htext
    rcases htext with rfl | rfl
    · decide
    · simp
  identifiers := by
    intro p hp
    obtain rfl := List.mem_singleton.mp hp
    refine ⟨?_, by decide⟩
    intro c hc
    obtain rfl | rfl : c = 'i' ∨ c = 'd' := by simpa using hc
    · exact Or.inl rfl
    · exact Or.inl rfl
  distinct := by simp
  separated := by simp [Separated]

theorem user_seven : userRoute.ReadBack Capability.oneFloat fun _ => .int 7 := by
  have hseven : Capability.oneFloat.pyStr (.int 7) = ['7'] := by decide
  refine (tool_path_iff userRoute Capability.oneFloat (fun _ => .int 7) (fun _ _ => ?_)).mpr ?_
  · rw [hseven]
    exact List.cons_ne_nil _ _
  · refine (survive_iff_of_no_brace fun _ _ => ?_).mpr fun _ _ => ⟨fun _ => ?_, ?_⟩
    · rw [hseven]
      decide
    · rw [hseven]
      decide
    · rw [hseven]
      decide

/-- The user whose id over HTTP is `a%2Fb`. -/
theorem slash_is_not_escaped : ¬ ∀ (route : RoutePath) (w : Wire Unit) (arguments : Text → PyObject Unit),
    (∀ p ∈ route.params, w.pyStr (arguments p.name) ≠ []) → route.ReadBack w arguments := by
  intro h
  have hslash : Capability.oneFloat.pyStr (.str "a/b") = ['a', '/', 'b'] := by decide
  have hnone : userRoute.captures (userRoute.invoked Capability.oneFloat fun _ => .str "a/b") = none := by decide
  obtain ⟨captures, hcaptures, -⟩ := h userRoute Capability.oneFloat (fun _ => .str "a/b") fun _ _ => by
    rw [hslash]
    exact List.cons_ne_nil _ _
  rw [hnone] at hcaptures
  cases hcaptures

end Oxbrook
