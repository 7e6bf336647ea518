import Oxbrook.Files.Mount

/-!
# Nothing outside the mount

`contained` does not canonicalise a target in which it sees no link.  `contained_eq` says what it does instead, and
`Exact` that this is what canonicalising the whole target would do.  It is for the targets made from a request, from
an index and from the name of a variant.  A fallback may be spelled in other ways: as an absolute path that leads
into the root by another name, which `contained` refuses, or with a slash at its end, which canonicalising refuses.
`mount_guarded_iff` says that these are the only exceptions, and that nothing outside the root is sent in any case.
-/

namespace Oxbrook

open FileTree Tree

/-! ## The shortcut -/

section Shortcut

variable {fs : FileSystem} {root : List String} {target : RawPath String}

/-- The plain check: canonicalise the target, and look whether it is under the root. -/
def resolvedInside (fs : FileSystem) (root : List String) (target : RawPath String) : Option (RawPath String) :=
  (fs.canonicalize target).bind fun resolved => if root <+: resolved then some (.ofNames resolved) else none

/-- A link at the end of a path whose beginning meets none. -/
lemma symlinkMetadata_name {walked : List (Component String)} {location : List String} {name : String}
    (h : fs.tree.walk 0 [] walked false = some location) :
    fs.symlinkMetadata ⟨true, walked ++ [.name name], false⟩ = fs.tree.node (location ++ [name]) := by
  simp [FileSystem.symlinkMetadata, walk_linkless h]

lemma symlinkMetadata_up {walked : List (Component String)} {location : List String}
    (h : fs.tree.walk 0 [] walked false = some location) :
    fs.symlinkMetadata ⟨true, walked ++ [.up], false⟩ =
      if fs.tree.node location = some .dir then some .dir else none := by
  simp only [FileSystem.symlinkMetadata, List.getLast?_append, List.getLast?_singleton, Option.some_or,
    FileSystem.metadata, FileSystem.canonicalize, walk_append h, walk_up, walk_nil]
  by_cases hdir : fs.tree.node location = some .dir
  · have habove : fs.tree.node location.dropLast = some .dir := node_dropLast (by rw [hdir]; rfl)
    simp [hdir, habove]
  · simp [hdir]

lemma canonicalize_append {walked rest : List (Component String)} {location : List String}
    (h : fs.tree.walk 0 [] walked false = some location) (htarget : target.components = walked ++ rest) :
    fs.canonicalize target = fs.tree.walk fs.maxLinks location rest target.slash := by
  rw [FileSystem.canonicalize, htarget, walk_append h]

/-- The loop, from a point up to which there is no link: the target itself if there is none in the rest either, and
else what the plain check says. -/
lemma containedFrom_eq {walked rest : List (Component String)} {location : List String}
    (h : fs.tree.walk 0 [] walked false = some location) (htarget : target.components = walked ++ rest) :
    containedFrom fs root target walked rest =
      if (fs.tree.walk 0 location rest false).isSome then some target else resolvedInside fs root target := by
  induction rest generalizing walked location with
  | nil => simp [containedFrom, walk_nil]
  | cons component rest ih =>
    have hmore : target.components = (walked ++ [component]) ++ rest := by rw [htarget]; simp
    cases component with
    | up =>
      rw [containedFrom, symlinkMetadata_up h, walk_up]
      by_cases hdir : fs.tree.node location = some .dir
      · have hnext : fs.tree.walk 0 [] (walked ++ [.up]) false = some location.dropLast := by
          rw [walk_append h, walk_up, if_pos hdir, walk_nil]
          simp
        rw [if_pos hdir, if_pos hdir]
        exact ih hnext hmore
      · rw [if_neg hdir, if_neg hdir]
        simp [resolvedInside, canonicalize_append h htarget, walk_up, hdir]
    | name name =>
      rw [containedFrom, symlinkMetadata_name h]
      rcases name_cases fs.tree (location ++ [name]) with hnode | ⟨link, hnode⟩ | hreal
      · rw [hnode, walk_missing hnode]
        simp [resolvedInside, canonicalize_append h htarget, walk_missing hnode]
      · rw [hnode, walk_link hnode, follow_zero]
        rfl
      · have hnext : fs.tree.walk 0 [] (walked ++ [.name name]) false = some (location ++ [name]) := by
          rw [walk_append h, walk_name hreal, walk_nil]
          simp
        have hloop := ih hnext hmore
        rw [walk_name hreal]
        rcases hreal with hnode | hnode <;> rw [hnode] <;> exact hloop

/-- A path written below the root. -/
lemma below?_eq_some {rest : List (Component String)} :
    target.below? root = some rest ↔ target.components = root.map .name ++ rest := by
  rw [RawPath.below?]
  constructor
  · intro h
    obtain ⟨⟨suffix, hsuffix⟩, h⟩ := Option.ite_none_right_eq_some.mp h
    obtain rfl := Option.some.inj h
    rw [← hsuffix]
    simp
  · intro h
    rw [if_pos ⟨rest, h.symm⟩, h]
    simp

/-- What `contained` does with a target written below the root. -/
theorem contained_eq (real : fs.tree.Real root) {rest : List (Component String)}
    (h : target.components = root.map .name ++ rest) :
    contained fs root target =
      if (fs.tree.walk 0 root rest false).isSome then some target else resolvedInside fs root target := by
  rw [contained, below?_eq_some.mpr h, Option.bind_some, containedFrom_eq (walk_top real) h]

/-- `contained` accepts what the plain check accepts, and names the same file. -/
structure Exact (fs : FileSystem) (root : List String) (target : RawPath String) : Prop where
  accepts : (contained fs root target).isSome = true ↔ (resolvedInside fs root target).isSome = true
  same : ∀ path, contained fs root target = some path → fs.canonicalize path = fs.canonicalize target

lemma canonicalize_ofNames {location : List String} (real : fs.tree.Real location) :
    fs.canonicalize (.ofNames location) = some location := walk_top real

lemma canonicalize_real {location : List String} (h : fs.canonicalize target = some location) :
    fs.tree.Real location := walk_real h (real_top fs.tree)

/-- The path the plain check returns names the same file. -/
lemma canonicalize_resolvedInside {path : RawPath String} (h : resolvedInside fs root target = some path) :
    fs.canonicalize path = fs.canonicalize target := by
  obtain ⟨location, hlocation, h⟩ := Option.bind_eq_some_iff.mp h
  obtain ⟨-, h⟩ := Option.ite_none_right_eq_some.mp h
  obtain rfl := Option.some.inj h
  rw [canonicalize_ofNames (canonicalize_real hlocation), hlocation]

lemma resolvedInside_isSome : (resolvedInside fs root target).isSome = true ↔
    ∃ location, fs.canonicalize target = some location ∧ root <+: location := by
  rw [resolvedInside]
  cases fs.canonicalize target with
  | none => simp
  | some location => by_cases h : root <+: location <;> simp [h]

/-- A target that meets a link below the root. -/
lemma exact_of_link (real : fs.tree.Real root) {rest : List (Component String)}
    (h : target.components = root.map .name ++ rest) (link : fs.tree.walk 0 root rest false = none) :
    Exact fs root target := by
  have hcontained : contained fs root target = resolvedInside fs root target := by
    rw [contained_eq real h, link]
    rfl
  refine ⟨by rw [hcontained], fun path hpath => ?_⟩
  rw [hcontained] at hpath
  exact canonicalize_resolvedInside hpath

/-- A target that meets none: the shortcut is exact if it leads into the root, and to a directory if it is written
with a slash. -/
lemma exact_linkless_iff (real : fs.tree.Real root) {rest : List (Component String)} {location : List String}
    (h : target.components = root.map .name ++ rest) (linkless : fs.tree.walk 0 root rest false = some location) :
    Exact fs root target ↔
      root <+: location ∧ (target.slash = true → fs.tree.node location = some .dir) := by
  have hcontained : contained fs root target = some target := by
    rw [contained_eq real h, linkless]
    rfl
  have hcanonical : fs.canonicalize target =
      if target.slash ∧ fs.tree.node location ≠ some .dir then none else some location := by
    rw [canonicalize_append (walk_top real) h, walk_linkless linkless]
  constructor
  · intro exact_
    obtain ⟨found, hfound, hroot⟩ := resolvedInside_isSome.mp (exact_.accepts.mp (by rw [hcontained]; rfl))
    rw [hcanonical] at hfound
    obtain ⟨hdir, hfound⟩ := Option.ite_none_left_eq_some.mp hfound
    obtain rfl := Option.some.inj hfound
    refine ⟨hroot, fun hslash => ?_⟩
    by_contra hnot
    exact hdir ⟨hslash, hnot⟩
  · rintro ⟨hroot, hslash⟩
    have hfound : fs.canonicalize target = some location := by
      rw [hcanonical, if_neg fun hnot => hnot.2 (hslash hnot.1)]
    refine ⟨?_, fun path hpath => ?_⟩
    · rw [hcontained, resolvedInside_isSome]
      simp [hfound, hroot]
    · rw [hcontained] at hpath
      rw [Option.some.inj hpath]

/-- Where a target written below the root leads without a link is under the root. -/
def Leads (fs : FileSystem) (root : List String) (target : RawPath String) : Prop :=
  ∀ rest location, target.components = root.map .name ++ rest → fs.tree.walk 0 root rest false = some location →
    root <+: location

lemma exact_of_leads (real : fs.tree.Real root) {rest : List (Component String)}
    (h : target.components = root.map .name ++ rest) (leads : Leads fs root target) (slash : target.slash = false) :
    Exact fs root target := by
  cases hwalk : fs.tree.walk 0 root rest false with
  | none => exact exact_of_link real h hwalk
  | some location =>
    rw [exact_linkless_iff real h hwalk]
    refine ⟨leads rest location h hwalk, ?_⟩
    rw [slash]
    exact nofun

lemma leads_names (names : List String) : Leads fs root (.ofNames (root ++ names)) := by
  intro rest location h hwalk
  obtain rfl : rest = names.map .name := by
    rw [RawPath.ofNames, List.map_append] at h
    exact (List.append_cancel_left h).symm
  rw [walk_names_eq hwalk]
  exact List.prefix_append root names

lemma exact_names (real : fs.tree.Real root) (names : List String) : Exact fs root (.ofNames (root ++ names)) :=
  exact_of_leads real List.map_append (leads_names names) rfl

/-- What `contained` returns leads into the root. -/
lemma inside_of_contained (real : fs.tree.Real root) (leads : Leads fs root target) {path : RawPath String}
    {location : List String} (h : contained fs root target = some path) (hpath : fs.canonicalize path = some location) :
    root <+: location := by
  cases hbelow : target.below? root with
  | none =>
    rw [contained, hbelow] at h
    exact nomatch h
  | some rest =>
    have hrest := below?_eq_some.mp hbelow
    rw [contained_eq real hrest] at h
    cases hwalk : fs.tree.walk 0 root rest false with
    | none =>
      rw [hwalk] at h
      have hinside : resolvedInside fs root target = some path := h
      obtain ⟨found, hfound, hroot⟩ := resolvedInside_isSome.mp (by rw [hinside]; rfl)
      rw [canonicalize_resolvedInside hinside, hfound] at hpath
      obtain rfl := Option.some.inj hpath
      exact hroot
    | some found =>
      rw [hwalk] at h
      obtain rfl := Option.some.inj h
      rw [canonicalize_append (walk_top real) hrest, walk_linkless hwalk] at hpath
      obtain ⟨-, hpath⟩ := Option.ite_none_left_eq_some.mp hpath
      obtain rfl := Option.some.inj hpath
      exact leads rest found hrest hwalk

/-! ## Variants -/

/-- A directory above a file is above what the file is in. -/
lemma under_of_file {above : List String} {name : String} (hroot : fs.tree.node root = some .dir)
    (hfile : fs.tree.node (above ++ [name]) = some .file) (h : root <+: above ++ [name]) : root <+: above := by
  refine (List.prefix_concat_iff.mp h).resolve_left ?_
  rintro rfl
  exact nomatch hroot.symm.trans hfile

/-- The name of a file with a suffix, when it is reached by names alone. -/
lemma withSuffix_ofNames (above : List String) (name suffix : String) :
    withSuffix (.ofNames (above ++ [name])) suffix = .ofNames (above ++ [name ++ suffix]) := by
  simp [withSuffix, RawPath.ofNames]

/-- The name of a file that is reached without a link, with a suffix. -/
lemma leads_linkless_variant (hroot : fs.tree.node root = some .dir) {rest : List (Component String)}
    {location : List String} (h : target.components = root.map .name ++ rest)
    (linkless : fs.tree.walk 0 root rest false = some location) (hfile : fs.tree.node location = some .file)
    (inside : root <+: location) (hslash : target.slash = false) (suffix : String) :
    (∃ rest, (withSuffix target suffix).components = root.map .name ++ rest) ∧
      Leads fs root (withSuffix target suffix) ∧ (withSuffix target suffix).slash = false := by
  rcases List.eq_nil_or_concat rest with rfl | ⟨init, component, rfl⟩
  · rw [walk_nil] at linkless
    obtain rfl : root = location := by simpa using linkless
    exact nomatch hroot.symm.trans hfile
  rw [List.concat_eq_append] at h linkless
  obtain ⟨above, hinit, hlast⟩ := walk_split linkless
  cases component with
  | up =>
    -- a step up leads to a directory
    rw [walk_up, walk_nil] at hlast
    obtain ⟨hdir, hlast⟩ := Option.ite_none_right_eq_some.mp hlast
    obtain rfl : above.dropLast = location := by simpa using hlast
    have habove : fs.tree.node above.dropLast = some .dir := node_dropLast (by rw [hdir]; rfl)
    exact nomatch habove.symm.trans hfile
  | name name =>
    have hname : fs.tree.walk 0 above ([name].map .name) false = some location := hlast
    obtain rfl := walk_names_eq hname
    have habove := under_of_file hroot hfile inside
    have hsuffix : withSuffix target suffix =
        ⟨target.absolute, root.map .name ++ (init ++ [.name (name ++ suffix)]), false⟩ := by
      simp [withSuffix, hslash, h]
    rw [hsuffix]
    refine ⟨⟨_, rfl⟩, ?_, rfl⟩
    intro rest found hrest hfound
    obtain rfl := List.append_cancel_left hrest
    rw [walk_append hinit] at hfound
    have hname' : fs.tree.walk 0 above ([name ++ suffix].map .name) false = some found := hfound
    rw [walk_names_eq hname']
    exact habove.trans (List.prefix_append above _)

/-- The variant of a file below the root is written below the root and leads into it. -/
lemma leads_variant (hroot : fs.tree.node root = some .dir) (leads : Leads fs root target) {original : RawPath String}
    {location : List String} (h : contained fs root target = some original)
    (horiginal : fs.canonicalize original = some location) (hfile : fs.tree.node location = some .file)
    (suffix : String) :
    (∃ rest, (withSuffix original suffix).components = root.map .name ++ rest) ∧
      Leads fs root (withSuffix original suffix) ∧ (withSuffix original suffix).slash = false := by
  have hinside : root <+: location := inside_of_contained (.inr hroot) leads h horiginal
  cases hbelow : target.below? root with
  | none =>
    rw [contained, hbelow] at h
    exact nomatch h
  | some rest =>
    have hrest := below?_eq_some.mp hbelow
    rw [contained_eq (.inr hroot) hrest] at h
    cases hwalk : fs.tree.walk 0 root rest false with
    | none =>
      rw [hwalk] at h
      obtain ⟨found, hfound, h⟩ := Option.bind_eq_some_iff.mp (show resolvedInside fs root target = some original from h)
      obtain ⟨-, h⟩ := Option.ite_none_right_eq_some.mp h
      obtain rfl := Option.some.inj h
      rw [canonicalize_ofNames (canonicalize_real hfound)] at horiginal
      obtain rfl := Option.some.inj horiginal
      rcases List.eq_nil_or_concat found with rfl | ⟨above, name, rfl⟩
      · exact nomatch fs.tree.top.symm.trans hfile
      · rw [List.concat_eq_append] at hfile hinside
        obtain ⟨names, rfl⟩ := under_of_file hroot hfile hinside
        rw [List.concat_eq_append, withSuffix_ofNames, List.append_assoc]
        exact ⟨⟨_, List.map_append⟩, leads_names _, rfl⟩
    | some found =>
      rw [hwalk] at h
      obtain rfl := Option.some.inj h
      rw [canonicalize_append (walk_top (.inr hroot)) hrest, walk_linkless hwalk] at horiginal
      obtain ⟨hdir, horiginal⟩ := Option.ite_none_left_eq_some.mp horiginal
      obtain rfl := Option.some.inj horiginal
      have hslash : target.slash = false := by
        by_contra hslash
        exact hdir ⟨by simpa using hslash, by rw [hfile]; exact nofun⟩
      exact leads_linkless_variant hroot hrest hwalk hfile hinside hslash suffix

end Shortcut

/-! ## Names in a request -/

lemma not_mem_of_mem_splitOn {c : Char} {text piece : List Char} (h : piece ∈ text.splitOn c) : c ∉ piece := by
  induction text generalizing piece with
  | nil =>
    obtain rfl : piece = [] := by simpa using h
    exact nofun
  | cons d text ih =>
    rw [List.splitOn_cons_eq_if_modifyHead] at h
    by_cases hd : d = c
    · rw [if_pos (by simpa using hd)] at h
      rcases List.mem_cons.mp h with rfl | h
      · exact nofun
      · exact ih h
    · rw [if_neg (by simpa using hd)] at h
      cases hsplit : text.splitOn c with
      | nil => exact absurd hsplit (List.splitOn_ne_nil c text)
      | cons first rest =>
        rw [hsplit, List.modifyHead_cons] at h
        rcases List.mem_cons.mp h with rfl | h
        · have hfirst := ih (hsplit ▸ List.mem_cons_self)
          simp [hfirst, Ne.symm hd]
        · exact ih (hsplit ▸ List.mem_cons_of_mem _ h)

/-- A text that is one name of a path. -/
def IsName (text : String) : Prop :=
  text.toList ≠ [] ∧ text.toList ≠ ['.'] ∧ text.toList ≠ ['.', '.'] ∧ '/' ∉ text.toList

lemma parsePath_name {text : String} (h : IsName text) : parsePath text = ⟨false, [.name text], false⟩ := by
  obtain ⟨hempty, hhere, hup, hslash⟩ := h
  have hhead : text.toList.head? ≠ some '/' := fun hhead => hslash (List.mem_of_mem_head? hhead)
  simp [parsePath, List.splitOn_eq_singleton hslash, pathComponent, hempty, hhere, hup, hhead]

lemma join_name {names : List String} {text : String} (h : IsName text) :
    (RawPath.ofNames names).join (parsePath text) = .ofNames (names ++ [text]) := by
  simp [parsePath_name h, RawPath.join, RawPath.ofNames]

lemma isName_of_plainName {text : String} (h : plainName text = true) : IsName text := by
  simp only [plainName, Bool.and_eq_true, decide_eq_true_eq] at h
  obtain ⟨⟨⟨⟨hempty, hhere⟩, hup⟩, hslash⟩, -⟩ := h
  refine ⟨fun htext => hempty ?_, fun htext => hhere ?_, fun htext => hup ?_, hslash⟩
  · exact String.toList_inj.mp htext
  · exact String.toList_inj.mp htext
  · exact String.toList_inj.mp htext

/-- Items that are each let through. -/
lemma mapM_guard {α β : Type*} {refused : α → Bool} {f : α → β} {items : List α} {results : List β}
    (h : (items.mapM fun item => if refused item then none else some (f item)) = some results) :
    (∀ item ∈ items, refused item = false) ∧ results = items.map f := by
  induction items generalizing results with
  | nil => simpa using h.symm
  | cons item items ih =>
    rw [List.mapM_cons] at h
    obtain ⟨result, hresult, h⟩ := Option.bind_eq_some_iff.mp h
    obtain ⟨rest, hrest, h⟩ := Option.bind_eq_some_iff.mp h
    obtain ⟨hitem, hresult⟩ := Option.ite_none_left_eq_some.mp hresult
    obtain ⟨hitems, rfl⟩ := ih hrest
    obtain rfl := Option.some.inj hresult
    obtain rfl := Option.some.inj h
    refine ⟨List.forall_mem_cons.mpr ⟨by simpa using hitem, hitems⟩, List.map_cons.symm⟩

/-- The segments of a request are names that are not refused. -/
lemma segments_spec {decode : String → Option String} {raw : String} {dotfiles : Bool} {parts : List String}
    (h : segments decode raw dotfiles = some parts) :
    ∃ decoded, decode raw = some decoded ∧
      (∀ segment ∈ decoded.toList.splitOn '/', segment ≠ [] → refusedSegment dotfiles segment = false) ∧
      ∀ part ∈ parts, IsName part := by
  obtain ⟨decoded, hdecoded, h⟩ := Option.bind_eq_some_iff.mp h
  obtain ⟨hlet, rfl⟩ := mapM_guard h
  refine ⟨decoded, hdecoded, ?_, ?_⟩
  · intro segment hsegment hempty
    exact hlet segment (List.mem_filter.mpr ⟨hsegment, by simpa using hempty⟩)
  · intro part hpart
    obtain ⟨segment, hsegment, rfl⟩ := List.mem_map.mp hpart
    have hnot := hlet segment hsegment
    obtain ⟨hpiece, hempty⟩ := List.mem_filter.mp hsegment
    simp only [refusedSegment, Bool.or_eq_false_iff, decide_eq_false_iff_not] at hnot
    rw [IsName, String.toList_ofList]
    exact ⟨by simpa using hempty, hnot.1.1.1.1, hnot.1.1.1.2, not_mem_of_mem_splitOn hpiece⟩

/-! ## Targets -/

section Targets

variable {m : StaticMount} {files : Files} {decode : String → Option String}

/-- The segments a request may have. -/
def StaticMount.Requested (m : StaticMount) (decode : String → Option String) (parts : List String) : Prop :=
  parts = [] ∨ ∃ raw, segments decode raw m.dotfiles = some parts

/-- The targets that `resolve` builds: from a request, from the index of a directory, and from the fallback. -/
inductive StaticMount.Target (m : StaticMount) (decode : String → Option String) : RawPath String → Prop
  | requested {parts : List String} (h : m.Requested decode parts) : Target m decode (m.candidate parts)
  | index {parts : List String} {index : String} (h : m.Requested decode parts) (hindex : m.index = some index) :
    Target m decode ((m.candidate parts).join (parsePath index))
  | fallback {fallback : String} (hfallback : m.fallback = some fallback) :
    Target m decode (m.fallbackPath fallback)

/-- The targets that `contained` is asked about: these, and the variants of a file that is found. -/
inductive StaticMount.Builds (m : StaticMount) (fs : FileSystem) (decode : String → Option String) :
    RawPath String → Prop
  | target {target : RawPath String} (h : m.Target decode target) : Builds m fs decode target
  | variant {target original : RawPath String} {location : List String} (h : m.Target decode target)
    (hcontained : contained fs m.root target = some original) (hlocation : fs.canonicalize original = some location)
    (hfile : fs.tree.node location = some .file) (encoding : Encoding) :
    Builds m fs decode (withSuffix original encoding.suffix)

lemma candidate_eq {parts : List String} (h : ∀ part ∈ parts, IsName part) :
    m.candidate parts = .ofNames (m.root ++ parts) := by
  have hfold : ∀ names, parts.foldl (fun path part => path.join (parsePath part)) (RawPath.ofNames names) =
      .ofNames (names ++ parts) := by
    intro names
    induction parts generalizing names with
    | nil => simp
    | cons part parts ih =>
      obtain ⟨hpart, hparts⟩ := List.forall_mem_cons.mp h
      rw [List.foldl_cons, join_name hpart, ih hparts, List.append_assoc, List.singleton_append]
  exact hfold m.root

lemma isName_of_requested {parts : List String} (h : m.Requested decode parts) : ∀ part ∈ parts, IsName part := by
  rcases h with rfl | ⟨raw, hraw⟩
  · exact nofun
  · obtain ⟨decoded, -, -, hnames⟩ := segments_spec hraw
    exact hnames

/-- What `build_mount` has checked. -/
structure Checked (fs : FileSystem) (m : StaticMount) : Prop where
  root : fs.tree.node m.root = some .dir
  index : ∀ index ∈ m.index, plainName index = true
  fallback : ∀ fallback ∈ m.fallback, m.acceptsFallback fs fallback = true

lemma checked_of_build {fs : FileSystem} {m' : StaticMount} (h : buildMount fs m = .ok m') : Checked fs m := by
  rw [buildMount] at h
  split_ifs at h with hform hparameters hroot hindex hfallback
  refine ⟨by simpa using hroot, ?_, ?_⟩
  · intro index hmem
    rw [Option.mem_def] at hmem
    simpa [hmem] using hindex
  · intro fallback hmem
    rw [Option.mem_def] at hmem
    simpa [hmem] using hfallback

variable {fs : FileSystem}

/-- A fallback that is found is a file inside the root. -/
lemma fallback_inside (checked : Checked fs m) {fallback : String} (hfallback : m.fallback = some fallback)
    {location : List String}
    (h : fs.tree.walk fs.maxLinks [] (m.fallbackPath fallback).components false = some location) :
    m.root <+: location ∧ fs.tree.node location = some .file := by
  have haccepts := checked.fallback fallback hfallback
  have hresolved : fs.resolved (m.fallbackPath fallback) = location := realpath_of_walk h
  simp only [StaticMount.acceptsFallback, hresolved, Bool.and_eq_true, decide_eq_true_eq] at haccepts
  obtain ⟨⟨hroot, -⟩, hfile⟩ := haccepts
  have hreal : fs.tree.Real location := walk_real h (real_top fs.tree)
  rw [FileSystem.metadata, canonicalize_ofNames hreal, Option.bind_some] at hfile
  exact ⟨hroot, hfile⟩

lemma leads_fallback (checked : Checked fs m) {fallback : String} (hfallback : m.fallback = some fallback) :
    Leads fs m.root (m.fallbackPath fallback) := by
  intro rest location hrest hwalk
  refine (fallback_inside checked hfallback ?_).1
  rw [hrest, walk_append (walk_top (.inr checked.root)), walk_linkless hwalk]
  simp

/-- A request or an index is written with names alone. -/
lemma target_cases (checked : Checked fs m) {target : RawPath String} (h : m.Target decode target) :
    (∃ names, target = .ofNames (m.root ++ names)) ∨
      ∃ fallback, m.fallback = some fallback ∧ target = m.fallbackPath fallback := by
  cases h with
  | requested h => exact .inl ⟨_, candidate_eq (isName_of_requested h)⟩
  | @index parts index h hindex =>
    refine .inl ⟨parts ++ [index], ?_⟩
    rw [candidate_eq (isName_of_requested h), join_name (isName_of_plainName (checked.index _ hindex)),
      List.append_assoc]
  | fallback hfallback => exact .inr ⟨_, hfallback, rfl⟩

lemma leads_target (checked : Checked fs m) {target : RawPath String} (h : m.Target decode target) :
    Leads fs m.root target := by
  rcases target_cases checked h with ⟨names, rfl⟩ | ⟨fallback, hfallback, rfl⟩
  · exact leads_names names
  · exact leads_fallback checked hfallback

lemma exact_variant (checked : Checked fs m) {target original : RawPath String} {location : List String}
    (h : m.Target decode target) (hcontained : contained fs m.root target = some original)
    (hlocation : fs.canonicalize original = some location) (hfile : fs.tree.node location = some .file)
    (suffix : String) : Exact fs m.root (withSuffix original suffix) := by
  obtain ⟨⟨rest, hrest⟩, hleads, hslash⟩ :=
    leads_variant checked.root (leads_target checked h) hcontained hlocation hfile suffix
  exact exact_of_leads (.inr checked.root) hrest hleads hslash

/-! ## The fallback -/

/-- How a fallback may be spelled: so that it is not found as it is written, or below the root without a slash at the
end, or with one and then not below the root or through a link. -/
def Spelled (fs : FileSystem) (root : List String) (target : RawPath String) : Prop :=
  fs.tree.walk fs.maxLinks [] target.components false = none ∨
    (target.slash = false ∧ target.below? root ≠ none) ∨
    (target.slash = true ∧ (target.below? root = none ∨ fs.tree.walk 0 [] target.components false = none))

lemma contained_of_not_below {root : List String} {target : RawPath String} (h : target.below? root = none) :
    contained fs root target = none := by
  rw [contained, h]
  rfl

/-- The plain check of a path that leads to a file inside the root: a slash is all that it can refuse. -/
lemma resolvedInside_file {root location : List String} {target : RawPath String}
    (h : fs.tree.walk fs.maxLinks [] target.components false = some location) (hroot : root <+: location)
    (hfile : fs.tree.node location = some .file) :
    (resolvedInside fs root target).isSome = true ↔ target.slash = false := by
  rw [resolvedInside_isSome, FileSystem.canonicalize]
  cases hslash : target.slash with
  | false =>
    rw [h]
    simp [hroot]
  | true =>
    refine iff_of_false ?_ nofun
    rintro ⟨found, hfound, -⟩
    obtain ⟨hfound, hdir⟩ := walk_slash.mp hfound
    obtain rfl := Option.some.inj (h.symm.trans hfound)
    exact nomatch hfile.symm.trans hdir

lemma exact_fallback_iff {root : List String} {target : RawPath String} (hroot : fs.tree.node root = some .dir)
    (inside : ∀ location, fs.tree.walk fs.maxLinks [] target.components false = some location →
      root <+: location ∧ fs.tree.node location = some .file) :
    Exact fs root target ↔ Spelled fs root target := by
  have hreal : fs.tree.Real root := .inr hroot
  cases hfound : fs.tree.walk fs.maxLinks [] target.components false with
  | none =>
    -- neither check finds it
    have hnone : fs.canonicalize target = none := by
      rw [FileSystem.canonicalize]
      cases target.slash with
      | false => exact hfound
      | true =>
        rw [Option.eq_none_iff_forall_ne_some]
        intro location hlocation
        exact nomatch hfound.symm.trans (walk_slash.mp hlocation).1
    refine iff_of_true ?_ (.inl hfound)
    cases hbelow : target.below? root with
    | none =>
      have hcontained : contained fs root target = none := contained_of_not_below hbelow
      refine ⟨by simp [hcontained, resolvedInside, hnone], fun path hpath => ?_⟩
      rw [hcontained] at hpath
      exact nomatch hpath
    | some rest =>
      have hrest := below?_eq_some.mp hbelow
      refine exact_of_link hreal hrest ?_
      rw [Option.eq_none_iff_forall_ne_some]
      intro location hwalk
      rw [hrest, walk_append (walk_top hreal), walk_linkless hwalk] at hfound
      simp at hfound
  | some location =>
    obtain ⟨hinside, hfile⟩ := inside location hfound
    have hplain := resolvedInside_file hfound hinside hfile
    cases hbelow : target.below? root with
    | none =>
      have hcontained : contained fs root target = none := contained_of_not_below hbelow
      have hexact : Exact fs root target ↔ target.slash = true := by
        constructor
        · intro exact_
          by_contra hslash
          have haccepts := exact_.accepts.mpr (hplain.mpr (by simpa using hslash))
          rw [hcontained] at haccepts
          exact nomatch haccepts
        · intro hslash
          refine ⟨?_, fun path hpath => ?_⟩
          · rw [hcontained, hplain, hslash]
            simp
          · rw [hcontained] at hpath
            exact nomatch hpath
      rw [hexact]
      simp [Spelled, hfound, hbelow]
    | some rest =>
      have hrest := below?_eq_some.mp hbelow
      have hlinks : fs.tree.walk 0 [] target.components false = fs.tree.walk 0 root rest false := by
        rw [hrest, walk_append (walk_top hreal)]
      cases hwalk : fs.tree.walk 0 root rest false with
      | none =>
        refine iff_of_true (exact_of_link hreal hrest hwalk) ?_
        cases hslash : target.slash <;> simp [Spelled, hslash, hbelow, hlinks, hwalk]
      | some goal =>
        obtain rfl : goal = location := by
          rw [hrest, walk_append (walk_top hreal), walk_linkless hwalk] at hfound
          simpa using hfound
        have hnotdir : fs.tree.node goal ≠ some .dir := by
          rw [hfile]
          exact nofun
        rw [exact_linkless_iff hreal hrest hwalk]
        simp [Spelled, hfound, hbelow, hlinks, hwalk, hinside, hnotdir]

/-! ## What is sent -/

/-- The file is inside the root once links are followed. -/
def Inside (files : Files) (root : List String) (sent : RawPath String) : Prop :=
  ∃ location, files.canonicalize sent = some location ∧ root <+: location ∧
    files.tree.node location = some .file

/-- A variant that is sent is contained, and a file. -/
lemma variantFrom_spec {root location : List String} {original sent : RawPath String}
    {negotiate : List Encoding → Option Encoding} {fuel : ℕ} {offered : List Encoding} {encoding : Encoding}
    (h : variantFrom files root original location negotiate fuel offered = some (encoding, sent)) :
    contained files.toFileSystem root (withSuffix original encoding.suffix) = some sent ∧
      ∃ found, files.canonicalize sent = some found ∧ files.tree.node found = some .file := by
  induction fuel generalizing offered with
  | zero => exact nomatch h
  | succ fuel ih =>
    rw [variantFrom] at h
    obtain ⟨chosen, -, h⟩ := Option.bind_eq_some_iff.mp h
    simp only at h
    split at h
    case h_1 => exact ih h
    case h_2 resolved hresolved =>
      split at h
      case h_2 => exact ih h
      case h_1 found hfound =>
        split_ifs at h with hfile
        · obtain ⟨rfl, rfl⟩ := Prod.mk.inj (Option.some.inj h)
          exact ⟨hresolved, found, hfound, hfile.1⟩
        · exact ih h

lemma variant_spec {root location : List String} {original sent : RawPath String} {asked : Asked}
    {encoding : Encoding} (h : variant files root original location asked = some (encoding, sent)) :
    contained files.toFileSystem root (withSuffix original encoding.suffix) = some sent ∧
      ∃ found, files.canonicalize sent = some found ∧ files.tree.node found = some .file := by
  rw [variant] at h
  obtain ⟨-, h⟩ := Option.ite_none_left_eq_some.mp h
  obtain ⟨negotiate, -, h⟩ := Option.bind_eq_some_iff.mp h
  exact variantFrom_spec h

lemma send_inside (checked : Checked files.toFileSystem m) {target : RawPath String}
    (leads : Leads files.toFileSystem m.root target) {asked : Asked} {sent : RawPath String}
    {encoding : Option Encoding} (h : m.send files target asked = .file sent encoding) :
    Inside files m.root sent := by
  rw [StaticMount.send] at h
  split at h
  case h_1 => exact nomatch h
  case h_2 resolved hresolved =>
    split at h
    case h_1 => exact nomatch h
    case h_2 location hlocation =>
      by_cases hfile : files.tree.node location = some .file
      case neg =>
        rw [if_pos hfile] at h
        exact nomatch h
      rw [if_neg (not_not.mpr hfile)] at h
      generalize hchoice : (if m.precompressed then variant files m.root resolved location asked else none) = choice
        at h
      split at h
      case h_1 chosen other =>
        obtain ⟨rfl, -⟩ := FileOutcome.file.inj h
        obtain ⟨-, hvariant⟩ := Option.ite_none_right_eq_some.mp hchoice
        obtain ⟨hcontained, found, hfound, hkind⟩ := variant_spec hvariant
        obtain ⟨-, hleads, -⟩ := leads_variant checked.root leads hresolved hlocation hfile chosen.suffix
        exact ⟨found, hfound, inside_of_contained (.inr checked.root) hleads hcontained hfound, hkind⟩
      case h_2 =>
        obtain ⟨rfl, -⟩ := FileOutcome.file.inj h
        exact ⟨location, hlocation, inside_of_contained (.inr checked.root) leads hresolved hlocation, hfile⟩

lemma resolve_inside (checked : Checked files.toFileSystem m) {escape : String → String} {parts : List String}
    (requested : m.Requested decode parts) {trailingSlash : Bool} {query : Option String} {asked : Asked}
    {sent : RawPath String} {encoding : Option Encoding}
    (h : m.resolve files escape parts trailingSlash query asked = .file sent encoding) :
    Inside files m.root sent := by
  rw [StaticMount.resolve] at h
  split at h
  case h_1 =>
    split at h
    case h_1 => exact nomatch h
    case h_2 index hindex =>
      split_ifs at h
      exact send_inside checked (leads_target checked (.index requested hindex)) h
  case h_2 => exact send_inside checked (leads_target checked (.requested requested)) h
  case h_3 =>
    simp only at h
    split at h
    case h_1 fallback hfallback =>
      split_ifs at h
      exact send_inside checked (leads_fallback checked hfallback) h
    case h_2 => exact nomatch h

/-! ## The whole mount -/

/-- Nothing outside the root is sent, nor under a name that must be refused, and `contained` decides every target as
the plain check would. -/
structure Guarded (files : Files) (decode : String → Option String) (m : StaticMount) : Prop where
  inside : ∀ escape file path query asked sent encoding,
    m.serve files decode escape file path query asked = .file sent encoding → Inside files m.root sent
  named : ∀ escape raw path query asked sent encoding,
    m.serve files decode escape (some raw) path query asked = .file sent encoding →
      ∃ decoded, decode raw = some decoded ∧
        ∀ segment ∈ decoded.toList.splitOn '/', segment ≠ [] → refusedSegment m.dotfiles segment = false
  exact_ : ∀ target, m.Builds files.toFileSystem decode target → Exact files.toFileSystem m.root target

/-- **Nothing outside the mount.**  Every mount that `build_mount` accepts is guarded just when its fallback, if it
has one, is spelled in one of the ways of `Spelled`. -/
theorem mount_guarded_iff (files : Files) (decode : String → Option String) (m m' : StaticMount)
    (built : buildMount files.toFileSystem m = .ok m') :
    Guarded files decode m ↔
      ∀ fallback ∈ m.fallback, Spelled files.toFileSystem m.root (m.fallbackPath fallback) := by
  have checked := checked_of_build built
  have hfallback : ∀ fallback ∈ m.fallback, Exact files.toFileSystem m.root (m.fallbackPath fallback) ↔
      Spelled files.toFileSystem m.root (m.fallbackPath fallback) := fun fallback hmem =>
    exact_fallback_iff checked.root fun _ hwalk => fallback_inside checked hmem hwalk
  constructor
  · intro guarded fallback hmem
    exact (hfallback fallback hmem).mp (guarded.exact_ _ (.target (.fallback hmem)))
  · intro spelled
    refine ⟨?_, ?_, ?_⟩
    · intro escape file path query asked sent encoding h
      unfold StaticMount.serve at h
      split at h
      case h_1 =>
        split_ifs at h
        have hrequested : m.Requested decode [] := .inl rfl
        exact resolve_inside checked hrequested h
      case h_2 raw =>
        split at h
        case h_1 => exact nomatch h
        case h_2 parts hparts => exact resolve_inside checked (.inr ⟨raw, hparts⟩) h
    · intro escape raw path query asked sent encoding h
      simp only [StaticMount.serve] at h
      split at h
      case h_1 => exact nomatch h
      case h_2 parts hparts =>
        obtain ⟨decoded, hdecoded, hlet, -⟩ := segments_spec hparts
        exact ⟨decoded, hdecoded, hlet⟩
    · intro target hbuilds
      cases hbuilds with
      | target h =>
        rcases target_cases checked h with ⟨names, rfl⟩ | ⟨fallback, hmem, rfl⟩
        · exact exact_names (.inr checked.root) names
        · exact (hfallback fallback hmem).mpr (spelled fallback hmem)
      | variant h hcontained hlocation hfile encoding =>
        exact exact_variant checked h hcontained hlocation hfile encoding.suffix

end Targets

/-! ## A root by two names -/

/-- `/srv/www` with a page in it, and a link `/srv/site` to it. -/
def siteEntries : List (List String × Node String) :=
  [([], .dir), (["srv"], .dir), (["srv", "www"], .dir), (["srv", "www", "index.html"], .file),
    (["srv", "site"], .link (parsePath "www"))]

def siteTree : FileTree.Tree String where
  node location := siteEntries.lookup location
  top := rfl
  closed := by
    intro location name h
    have hmem : location ++ [name] ∈ siteEntries.map Prod.fst := by
      obtain ⟨node, hnode⟩ := Option.isSome_iff_exists.mp h
      obtain ⟨before, after, hentries, -⟩ := List.lookup_eq_some_iff.mp hnode
      simp [hentries]
    have hdrop : location = (location ++ [name]).dropLast := by simp
    simp only [siteEntries, List.map_cons, List.map_nil, List.mem_cons, List.append_eq_nil_iff, List.not_mem_nil,
      List.cons_ne_nil, and_false, false_or, or_false] at hmem
    rcases hmem with hmem | hmem | hmem | hmem <;> rw [hdrop, hmem] <;> rfl

def siteFiles : Files := ⟨⟨siteTree, 40⟩, fun _ _ => true⟩

/-- The site with a fallback. -/
def siteMount (fallback : String) : StaticMount := ⟨"/", ["srv", "www"], none, some fallback, false, false⟩

lemma site_built {fallback : String}
    (h : (siteMount fallback).acceptsFallback siteFiles.toFileSystem fallback = true) :
    buildMount siteFiles.toFileSystem (siteMount fallback) = .ok (siteMount fallback) := by
  have hroot : siteFiles.tree.node (siteMount fallback).root = some .dir := rfl
  have hindex : (siteMount fallback).index = none := rfl
  have hfallback : (siteMount fallback).fallback = some fallback := rfl
  have hurl : (siteMount fallback).urlPrefix = "/" := rfl
  simp [buildMount, hroot, hindex, hfallback, hurl, h]

/-- With `index.html` for its fallback the site is guarded. -/
theorem site_guarded : Guarded siteFiles some (siteMount "index.html") := by
  refine (mount_guarded_iff siteFiles some (siteMount "index.html") (siteMount "index.html")
    (site_built (by decide +kernel))).mpr ?_
  intro fallback hfallback
  obtain rfl := Option.some.inj hfallback
  exact .inr (.inl ⟨by decide +kernel, by decide +kernel⟩)

/-- With `/srv/site/index.html`, which is the same file, `build_mount` accepts the mount and `contained` refuses the
fallback. -/
theorem site_fallback_refused :
    buildMount siteFiles.toFileSystem (siteMount "/srv/site/index.html") = .ok (siteMount "/srv/site/index.html") ∧
      ¬ Guarded siteFiles some (siteMount "/srv/site/index.html") := by
  refine ⟨site_built (by decide +kernel), fun guarded => ?_⟩
  have hexact := guarded.exact_ _ (.target (.fallback rfl))
  have hcontained : (contained siteFiles.toFileSystem ["srv", "www"]
      ((siteMount "/srv/site/index.html").fallbackPath "/srv/site/index.html")).isSome = false := by decide +kernel
  have hinside : (resolvedInside siteFiles.toFileSystem ["srv", "www"]
      ((siteMount "/srv/site/index.html").fallbackPath "/srv/site/index.html")).isSome = true := by decide +kernel
  exact nomatch hcontained.symm.trans (hexact.accepts.mpr hinside)

end Oxbrook
