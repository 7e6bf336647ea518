import Oxbrook.Files.Containment
import Oxbrook.Foundation.Percent
import Oxbrook.Limits.Proxies
import Oxbrook.Routing.Router

/-!
# Redirects to a slash

`serve` redirects the bare prefix of a mount, and `resolve` a directory, to the same path with a slash at its end.  The
segments have been decoded by then; they are encoded again with the set `SEGMENT` of `src/files.rs` and put behind the
prefix, and what a client then asks for goes through the router and `segments` once more.

`redirected_iff` says that it arrives where it should, and that it stays on the site but for a mount whose prefix
begins with two slashes, which `build_mount` does not refuse.

The trees of the router are those of the `matchit` crate; `TreeOf` says what is used of them.
-/

namespace Oxbrook

/-! ## Percent-encoding -/

/-- `percent_decode_str(raw).decode_utf8()`. -/
def percentDecode (raw : String) : Option String := (Percent.decodeText raw.toList).map .ofList

/-- `SEGMENT`, by the bytes it leaves as they are. -/
def segmentSet : Percent.KeptSet where
  keeps b := decide (32 ≤ b ∧ b < 127) && ! [32, 34, 35, 60, 62, 63, 96, 123, 125, 37, 47].contains b
  ascii := by
    intro b hkept
    simp only [Bool.and_eq_true, decide_eq_true_eq] at hkept
    exact UInt8.lt_trans hkept.1.2 (by decide)
  mark := by decide

/-- `utf8_percent_encode(part, SEGMENT)`. -/
def escapeSegment (part : String) : String := .ofList (segmentSet.encode part.toList)

/-! ## The router -/

/-- The parameters that a pattern captures of a path it matches. -/
abbrev PathPattern := String → Option (String → Option String)

/-- `Mount::patterns`: each with whether it captures the file. -/
def StaticMount.patterns (m : StaticMount) : List (String × Bool) :=
  if m.urlPrefix = "/" then [("/", false), ("/{*file}", true)]
  else [(m.urlPrefix, false), (m.urlPrefix ++ "/", false), (m.urlPrefix ++ "/{*file}", true)]

/-- A pattern of a mount, which is literal but for a `{*file}` at its end: that stands for one character or more. -/
def captures (pattern : String × Bool) : PathPattern := fun path =>
  if pattern.2 then
    let stem := pattern.1.toList.take (pattern.1.toList.length - "{*file}".toList.length)
    let file := path.toList.drop stem.length
    if stem <+: path.toList ∧ file ≠ [] then some fun name => if name = "file" then some (.ofList file) else none
    else none
  else if path = pattern.1 then some fun _ => none
  else none

/-- What `Router::build` enters for the mounts, in order: the number of the mount, and a pattern of it. -/
def mountEntries (mounts : List StaticMount) : List (ℕ × String × Bool) :=
  mounts.zipIdx.flatMap fun (m, i) => m.patterns.map fun pattern => (i, pattern)

/-- The patterns of the tree for GET by their number: those of the routes, each with its method, and of the mounts. -/
def getPatterns (routes : List (String × PathPattern)) (mounts : List StaticMount) (j : ℕ) : Option PathPattern :=
  if j < routes.length then routes[j]?.bind fun route => if route.1 = "GET" then some route.2 else none
  else (mountEntries mounts)[j - routes.length]?.map fun entry => captures entry.2

/-- A tree of `matchit`: it finds a pattern that matches a path, if one of those it was given does. -/
structure TreeOf (tree : Matcher) (patterns : ℕ → Option PathPattern) : Prop where
  sound : ∀ path found, tree path = some found →
    ∃ pattern, patterns found.route = some pattern ∧ pattern path = some found.params
  complete : ∀ path j pattern, patterns j = some pattern → (pattern path).isSome → (tree path).isSome

/-- `Router::build`. -/
structure Router.Built (r : Router) (routes : List (String × PathPattern)) (mounts : List StaticMount) : Prop where
  ofRoutes : ∀ j < routes.length, (r.specs j).mount = none
  ofMounts : ∀ k entry, (mountEntries mounts)[k]? = some entry → (r.specs (routes.length + k)).mount = some entry.1
  get : mounts ≠ [] → ∃ tree, r.byMethod.lookup "GET" = some tree ∧ TreeOf tree (getPatterns routes mounts)

/-- No route, and no mount but number `i`, matches a path. -/
def Router.OnlyMount (r : Router) (routes : List (String × PathPattern)) (mounts : List StaticMount) (i : ℕ)
    (path : String) : Prop :=
  ∀ j pattern, getPatterns routes mounts j = some pattern → (pattern path).isSome → (r.specs j).mount = some i

/-! ## Requests and redirects -/

/-- A control character of ASCII. -/
def controlChar (c : Char) : Bool := c.toNat < 32 || c.toNat = 127

/-- The characters `hyper` accepts in the path of a request; a `?` ends it. -/
def pathChar (c : Char) : Bool := 32 < c.toNat && c ≠ '#' && c ≠ '<' && c ≠ '>' && c ≠ '?' && c ≠ '\x60'

/-- The characters of a query. -/
def queryChar (c : Char) : Bool := 32 < c.toNat && c ≠ '#'

/-- The path and the query of a request, as `hyper` has read them. -/
structure Requestable (path : String) (query : Option String) : Prop where
  path : ∀ c ∈ path.toList, pathChar c = true
  query : ∀ text ∈ query, ∀ c ∈ text.toList, queryChar c = true

/-- `redirect`: the `Location` that is sent. A text that is no header value is answered with a 404 instead. -/
def FileOutcome.location : FileOutcome → Option String
  | .redirect url => if (Percent.bytesOf url.toList).all headerByte then some url else none
  | _ => none

/-- What a client asks for when it follows a `Location` on the same site: the fragment is left out, and the first `?`
begins the query. -/
def followed (location : String) : String × Option String :=
  let reference := location.toList.takeWhile fun c => c ≠ '#'
  (.ofList (reference.takeWhile fun c => c ≠ '?'),
    match reference.dropWhile fun c => c ≠ '?' with
    | [] => none
    | _ :: query => some (.ofList query))

/-- A text that begins with the name of a scheme and a colon. -/
def HasScheme (text : List Char) : Prop :=
  ∃ scheme rest, text = scheme ++ ':' :: rest ∧ scheme ≠ [] ∧
    ∀ c ∈ scheme, c.isAlphanum = true ∨ c = '+' ∨ c = '-' ∨ c = '.'

/-- A `Location` that is a path of this site. -/
structure OnSite (location : String) : Prop where
  slash : location.toList.head? = some '/'
  single : ¬ ['/', '/'] <+: location.toList
  schemeless : ¬ HasScheme location.toList
  printable : ∀ c ∈ location.toList, controlChar c = false

/-- The segments that a request under a mount names. -/
def StaticMount.named (m : StaticMount) : Option String → Option (List String)
  | none => some []
  | some raw => segments percentDecode raw m.dotfiles

variable {F : Type*}

/-- A `Location` leads to the mount it comes from, to the same segments with a slash, with the same query, and to no
further redirect whatever the files and the headers of the second request. -/
structure Lands (r : Router) (d : Decoders F) (i : ℕ) (m : StaticMount) (parts : List String) (query : Option String)
    (location : String) : Prop where
  sameQuery : (followed location).2 = query
  requestable : Requestable (followed location).1 query
  arrives : ∃ found file, r.find d "GET" (followed location).1 (followed location).2 = .ok found ∧
    (r.specs found.route).mount = some i ∧ found.file = some file ∧
    segments percentDecode file m.dotfiles = some parts ∧ (file.isEmpty || file.endsWith "/") = true ∧
    ∀ files headers url, m.serve files percentDecode escapeSegment found.file (followed location).1 query headers ≠
      .redirect url

/-! ## Patterns -/

lemma endsWith_slash {s : String} : s.endsWith "/" = true ↔ ∃ text, s.toList = text ++ ['/'] := by
  have hiff : s.endsWith "/" = true ↔ "/".toList <:+ s.toList := by
    rw [String.endsWith, String.Slice.endsWith_string_iff, String.copy_toSlice]
  rw [hiff]
  constructor
  · rintro ⟨text, h⟩
    exact ⟨text, h.symm⟩
  · rintro ⟨text, h⟩
    exact ⟨text, h.symm⟩

lemma captures_literal {text path : String} {params : String → Option String}
    (h : captures (text, false) path = some params) : path = text ∧ params "file" = none := by
  rw [captures, if_neg Bool.false_ne_true] at h
  split_ifs at h with hpath
  obtain rfl := Option.some.inj h
  exact ⟨hpath, rfl⟩

lemma captures_file (stem : String) {path : String} {params : String → Option String}
    (h : captures (stem ++ "{*file}", true) path = some params) :
    ∃ file ≠ [], path.toList = stem.toList ++ file ∧ params "file" = some (.ofList file) := by
  have htake : (stem ++ "{*file}").toList.take ((stem ++ "{*file}").toList.length - "{*file}".toList.length) =
      stem.toList := by
    rw [String.toList_append, List.length_append, Nat.add_sub_cancel, List.take_left]
  simp only [captures, if_true, htake] at h
  split_ifs at h with hpath
  obtain ⟨⟨file, hfile⟩, hne⟩ := hpath
  obtain rfl := Option.some.inj h
  rw [← hfile, List.drop_left] at hne
  refine ⟨file, hne, hfile.symm, ?_⟩
  simp [← hfile]

lemma captures_literal_self (text : String) : (captures (text, false) text).isSome = true := by
  simp [captures]

lemma captures_file_append {stem path : String} {file : List Char} (hfile : file ≠ [])
    (hpath : path.toList = stem.toList ++ file) : (captures (stem ++ "{*file}", true) path).isSome = true := by
  have htake : (stem ++ "{*file}").toList.take ((stem ++ "{*file}").toList.length - "{*file}".toList.length) =
      stem.toList := by
    rw [String.toList_append, List.length_append, Nat.add_sub_cancel, List.take_left]
  simp only [captures, if_true, htake]
  rw [if_pos ⟨⟨file, hpath.symm⟩, by rwa [hpath, List.drop_left]⟩]
  rfl

/-! ## Mounts -/

namespace StaticMount

variable {m : StaticMount}

/-- What stands before the slash in the path of a file. -/
def stem (m : StaticMount) : List Char := if m.urlPrefix = "/" then [] else m.urlPrefix.toList

lemma stem_root (h : m.urlPrefix = "/") : m.stem = [] := if_pos h

lemma stem_under (h : m.urlPrefix ≠ "/") : m.stem = m.urlPrefix.toList := if_neg h

/-- A prefix as `build_mount` accepts it. -/
structure PlainPrefix (m : StaticMount) : Prop where
  starts : m.urlPrefix.toList.head? = some '/'
  ends : m.urlPrefix ≠ "/" → m.urlPrefix.toList.getLast? ≠ some '/'

lemma plainPrefix_of_build {fs : FileSystem} {m' : StaticMount} (h : buildMount fs m = .ok m') : m.PlainPrefix := by
  rw [buildMount] at h
  split_ifs at h with hform hparameters hroot hindex hfallback
  constructor
  · by_cases hslash : m.urlPrefix = "/"
    · rw [hslash]
      rfl
    · by_contra hstarts
      exact hform ⟨hslash, .inl hstarts⟩
  · intro hslash hends
    exact hform ⟨hslash, .inr hends⟩

/-- The paths that a mount matches, and the file each of its patterns captures. -/
lemma captures_cases {pattern : String × Bool} (hpattern : pattern ∈ m.patterns) {path : String}
    {params : String → Option String} (h : captures pattern path = some params) :
    (m.urlPrefix ≠ "/" ∧ path = m.urlPrefix ∧ params "file" = none) ∨
      (path.toList = m.stem ++ ['/'] ∧ params "file" = none) ∨
      ∃ file ≠ [], path.toList = m.stem ++ '/' :: file ∧ params "file" = some (.ofList file) := by
  rw [patterns] at hpattern
  split_ifs at hpattern with hroot
  · rw [stem_root hroot]
    simp only [List.mem_cons, List.not_mem_nil, or_false] at hpattern
    rcases hpattern with rfl | rfl
    · obtain ⟨rfl, hfile⟩ := captures_literal h
      exact .inr (.inl ⟨rfl, hfile⟩)
    · obtain ⟨file, hne, hpath, hfile⟩ := captures_file "/" h
      exact .inr (.inr ⟨file, hne, hpath, hfile⟩)
  · rw [stem_under hroot]
    simp only [List.mem_cons, List.not_mem_nil, or_false] at hpattern
    rcases hpattern with rfl | rfl | rfl
    · obtain ⟨hpath, hfile⟩ := captures_literal h
      exact .inl ⟨hroot, hpath, hfile⟩
    · obtain ⟨rfl, hfile⟩ := captures_literal h
      exact .inr (.inl ⟨String.toList_append, hfile⟩)
    · have hstem : m.urlPrefix ++ "/{*file}" = m.urlPrefix ++ "/" ++ "{*file}" := by
        rw [String.append_assoc]
        rfl
      rw [hstem] at h
      obtain ⟨file, hne, hpath, hfile⟩ := captures_file _ h
      refine .inr (.inr ⟨file, hne, ?_, hfile⟩)
      rw [hpath, String.toList_append, List.append_assoc]
      rfl

/-- Whatever follows the slash after the prefix, one of the patterns matches. -/
lemma exists_captures {path : String} {file : List Char} (h : path.toList = m.stem ++ '/' :: file) :
    ∃ pattern ∈ m.patterns, (captures pattern path).isSome = true := by
  have hmem : (m.urlPrefix = "/" ∨ m.urlPrefix ≠ "/") := em _
  by_cases hfile : file = []
  · obtain rfl : path = .ofList (m.stem ++ ['/']) := by
      rw [← String.toList_inj, h, hfile, String.toList_ofList]
    refine ⟨(.ofList (m.stem ++ ['/']), false), ?_, captures_literal_self _⟩
    rcases hmem with hroot | hroot
    · rw [patterns, if_pos hroot, stem_root hroot]
      exact List.mem_cons_self
    · rw [patterns, if_neg hroot, stem_under hroot, String.ofList_append, String.ofList_toList]
      exact List.mem_cons_of_mem _ List.mem_cons_self
  · rcases hmem with hroot | hroot
    · refine ⟨("/" ++ "{*file}", true), ?_, captures_file_append hfile ?_⟩
      · rw [patterns, if_pos hroot]
        exact List.mem_cons_of_mem _ List.mem_cons_self
      · rw [h, stem_root hroot]
        rfl
    · refine ⟨(m.urlPrefix ++ "/" ++ "{*file}", true), ?_, captures_file_append hfile ?_⟩
      · rw [patterns, if_neg hroot, String.append_assoc]
        exact List.mem_cons_of_mem _ (List.mem_cons_of_mem _ List.mem_cons_self)
      · rw [h, stem_under hroot, String.toList_append, List.append_assoc]
        rfl

end StaticMount

/-! ## Through the router -/

section Router

variable {r : Router} {routes : List (String × PathPattern)} {mounts : List StaticMount} {i : ℕ} {m : StaticMount}

lemma mem_mountEntries {entry : ℕ × String × Bool} :
    entry ∈ mountEntries mounts ↔ ∃ m, mounts[entry.1]? = some m ∧ entry.2 ∈ m.patterns := by
  obtain ⟨i, pattern⟩ := entry
  rw [mountEntries, List.mem_flatMap]
  constructor
  · rintro ⟨⟨m, j⟩, hmem, hentry⟩
    obtain ⟨pattern', hpattern, heq⟩ := List.mem_map.mp hentry
    obtain ⟨rfl, rfl⟩ := Prod.mk.inj heq
    exact ⟨m, List.mk_mem_zipIdx_iff_getElem?.mp hmem, hpattern⟩
  · rintro ⟨m, hm, hpattern⟩
    exact ⟨(m, i), List.mk_mem_zipIdx_iff_getElem?.mpr hm, List.mem_map.mpr ⟨pattern, hpattern, rfl⟩⟩

/-- The patterns that lead to a mount are its own. -/
lemma Router.Built.own_pattern (built : r.Built routes mounts) (hm : mounts[i]? = some m) {j : ℕ}
    {pattern : PathPattern} (hpattern : getPatterns routes mounts j = some pattern)
    (hj : (r.specs j).mount = some i) : ∃ own ∈ m.patterns, pattern = captures own := by
  rw [getPatterns] at hpattern
  split_ifs at hpattern with hlt
  · rw [built.ofRoutes j hlt] at hj
    exact absurd hj (by simp)
  · obtain ⟨⟨i', own⟩, hentry, rfl⟩ := Option.map_eq_some_iff.mp hpattern
    have hmount := built.ofMounts _ _ hentry
    rw [Nat.add_sub_cancel' (not_lt.mp hlt), hj, Option.some.injEq] at hmount
    obtain ⟨m', hm', hown⟩ := mem_mountEntries.mp (List.mem_of_getElem? hentry)
    rw [← hmount, hm, Option.some.injEq] at hm'
    exact ⟨own, hm' ▸ hown, rfl⟩

/-- The patterns of a mount are entered. -/
lemma exists_entered (routes : List (String × PathPattern)) (hm : mounts[i]? = some m) {own : String × Bool}
    (hown : own ∈ m.patterns) : ∃ j, getPatterns routes mounts j = some (captures own) := by
  have hentry : (i, own) ∈ mountEntries mounts := mem_mountEntries.mpr ⟨m, hm, hown⟩
  obtain ⟨k, hk⟩ := List.mem_iff_getElem?.mp hentry
  refine ⟨routes.length + k, ?_⟩
  rw [getPatterns, if_neg (by omega), Nat.add_sub_cancel_left, hk]
  rfl

lemma ne_nil_of_getElem? (hm : mounts[i]? = some m) : mounts ≠ [] := by
  rintro rfl
  exact absurd hm (by simp)

/-- The file of a path that leads to a mount. -/
lemma Router.Built.file_cases (built : r.Built routes mounts) (hm : mounts[i]? = some m) (plain : m.PlainPrefix)
    {found : Capture} {path : String} (hat : r.at_ "GET" path = some found)
    (hi : (r.specs found.route).mount = some i) :
    (m.urlPrefix ≠ "/" ∧ path = m.urlPrefix ∧ Router.mountedFile found path = none) ∨
      ∃ file, path.toList = m.stem ++ '/' :: file ∧ Router.mountedFile found path = some (.ofList file) := by
  obtain ⟨tree, htree, hof⟩ := built.get (ne_nil_of_getElem? hm)
  rw [Router.at_, htree, Option.bind_some] at hat
  obtain ⟨pattern, hpattern, hparams⟩ := hof.sound path found hat
  obtain ⟨own, hown, rfl⟩ := built.own_pattern hm hpattern hi
  rcases StaticMount.captures_cases hown hparams with ⟨hroot, hpath, hfile⟩ | ⟨hpath, hfile⟩ |
    ⟨file, -, hpath, hfile⟩
  · refine .inl ⟨hroot, hpath, ?_⟩
    have hends : path.endsWith "/" ≠ true := by
      intro hends
      obtain ⟨text, htext⟩ := endsWith_slash.mp hends
      apply plain.ends hroot
      rw [← hpath, htext, List.getLast?_concat]
    rw [Router.mountedFile, hfile]
    exact if_neg hends
  · refine .inr ⟨[], hpath, ?_⟩
    have hends : path.endsWith "/" = true := endsWith_slash.mpr ⟨_, hpath⟩
    rw [Router.mountedFile, hfile]
    exact if_pos hends
  · refine .inr ⟨file, hpath, ?_⟩
    rw [Router.mountedFile, hfile]

variable {F : Type*} {d : Decoders F}

/-- A path under the prefix that nothing else claims leads to the mount, with what follows the slash for its file. -/
lemma Router.Built.find_under (built : r.Built routes mounts) (hm : mounts[i]? = some m) (plain : m.PlainPrefix)
    {path : String} {file : List Char} (hpath : path.toList = m.stem ++ '/' :: file)
    (only : r.OnlyMount routes mounts i path) (query : Option String) :
    ∃ found, r.find d "GET" path query = .ok found ∧ (r.specs found.route).mount = some i ∧
      found.file = some (.ofList file) := by
  obtain ⟨tree, htree, hof⟩ := built.get (ne_nil_of_getElem? hm)
  obtain ⟨own, hown, hcaptures⟩ := StaticMount.exists_captures hpath
  obtain ⟨j, hj⟩ := exists_entered routes hm hown
  obtain ⟨found, hfound⟩ := Option.isSome_iff_exists.mp (hof.complete path j _ hj hcaptures)
  have hat : r.at_ "GET" path = some found := by rw [Router.at_, htree, Option.bind_some, hfound]
  obtain ⟨pattern, hpattern, hparams⟩ := hof.sound path found hfound
  have hi : (r.specs found.route).mount = some i := only found.route pattern hpattern (by rw [hparams]; rfl)
  refine ⟨⟨found.route, [], Router.mountedFile found path⟩, ?_, hi, ?_⟩
  · simp only [Router.find, hat, hi, Option.isSome_some, if_true]
  rcases built.file_cases hm plain hat hi with ⟨hroot, hbare, -⟩ | ⟨file', hpath', hfile⟩
  · rw [hbare, StaticMount.stem_under hroot] at hpath
    have hlength := congrArg List.length hpath
    simp at hlength
  · rw [hpath, List.append_right_inj, List.cons.injEq] at hpath'
    rw [hfile, hpath'.2]

lemma Router.Built.file_of_find (built : r.Built routes mounts) (hm : mounts[i]? = some m) (plain : m.PlainPrefix)
    {found : Matched F} {path : String} {query : Option String} (hfind : r.find d "GET" path query = .ok found)
    (hi : (r.specs found.route).mount = some i) :
    (m.urlPrefix ≠ "/" ∧ path = m.urlPrefix ∧ found.file = none) ∨
      ∃ file, path.toList = m.stem ++ '/' :: file ∧ found.file = some (.ofList file) := by
  rw [Router.find] at hfind
  split at hfind
  · exact absurd hfind (by simp)
  · rename_i capture hat
    split_ifs at hfind with hmount
    · obtain rfl := Except.ok.inj hfind
      exact built.file_cases hm plain hat hi
    · split at hfind
      · obtain rfl := Except.ok.inj hfind
        rw [hi] at hmount
        exact absurd rfl hmount
      · exact absurd hfind (by simp)

end Router

/-! ## The text of a redirect -/

/-- The segments as a redirect writes them, each with a slash behind it. -/
def written (parts : List String) : List Char := parts.flatMap fun part => (escapeSegment part).toList ++ ['/']

def queryText (query : Option String) : List Char := ((query.map fun query => "?" ++ query).getD "").toList

namespace StaticMount

variable {m : StaticMount} {files : Files} {headers : Asked}

lemma send_ne_redirect (target : FileTree.RawPath String) (url : String) :
    m.send files target headers ≠ .redirect url := by
  rw [send]
  split
  · simp
  · split
    · simp
    · split_ifs with hfile hprecompressed
      · simp
      · split <;> simp
      · simp

/-- The text of the segments, with a slash in front of each or behind it. -/
lemma foldl_escape (parts : List String) (url : String) :
    (parts.foldl (fun url part => url ++ "/" ++ escapeSegment part) url ++ "/").toList =
      url.toList ++ '/' :: written parts := by
  induction parts generalizing url with
  | nil => rw [List.foldl_nil, String.toList_append]; rfl
  | cons part parts ih =>
    rw [List.foldl_cons, ih, String.toList_append, String.toList_append]
    simp [written]

/-- A directory is redirected to the prefix, its segments and a slash, and only if the path had none. -/
lemma resolve_redirect {parts : List String} {slash : Bool} {query : Option String} {url : String}
    (h : m.resolve files escapeSegment parts slash query headers = .redirect url) :
    slash = false ∧ url.toList = m.stem ++ '/' :: written parts ++ queryText query := by
  have hwritten := foldl_escape parts ""
  rw [String.toList_append] at hwritten
  rw [resolve] at h
  dsimp only at h
  split at h
  · split at h
    · exact absurd h (by simp)
    · split_ifs at h with hslash hindex hroot
      · exact absurd h (send_ne_redirect _ url)
      · refine ⟨by simpa using hslash, ?_⟩
        obtain rfl := FileOutcome.redirect.inj h
        rw [stem_root hroot, List.nil_append, String.toList_append, String.toList_append, String.empty_append,
          hwritten]
        rfl
      · refine ⟨by simpa using hslash, ?_⟩
        obtain rfl := FileOutcome.redirect.inj h
        rw [stem_under hroot, String.toList_append, String.toList_append, String.toList_append,
          List.append_assoc m.urlPrefix.toList, hwritten]
        rfl
  · exact absurd h (send_ne_redirect _ url)
  · split at h
    · split_ifs at h with hpage
      exact absurd h (send_ne_redirect _ url)
    · exact absurd h (by simp)

/-- What a mount redirects to. -/
lemma serve_redirect {file : Option String} {path : String} {query : Option String} {url : String}
    (hfile : m.urlPrefix ≠ "/" ∧ path = m.urlPrefix ∧ file = none ∨ file ≠ none)
    (h : m.serve files percentDecode escapeSegment file path query headers = .redirect url) :
    ∃ parts, m.named file = some parts ∧ url.toList = m.stem ++ '/' :: written parts ++ queryText query := by
  rcases hfile with ⟨hroot, rfl, rfl⟩ | hfile
  · refine ⟨[], rfl, ?_⟩
    rw [serve, if_pos hroot] at h
    obtain rfl := FileOutcome.redirect.inj h
    rw [stem_under hroot, String.toList_append, String.toList_append]
    rfl
  · obtain ⟨raw, rfl⟩ := Option.ne_none_iff_exists'.mp hfile
    rw [serve] at h
    split at h
    · exact absurd h (by simp)
    · rename_i parts hparts
      exact ⟨parts, hparts, (resolve_redirect h).2⟩

/-- A path with a slash at its end is not redirected. -/
lemma serve_slash_ne_redirect {raw path : String} {query : Option String}
    (slash : (raw.isEmpty || raw.endsWith "/") = true) (url : String) :
    m.serve files percentDecode escapeSegment (some raw) path query headers ≠ .redirect url := by
  intro h
  rw [serve] at h
  split at h
  · exact absurd h (by simp)
  · rw [slash] at h
    exact absurd (resolve_redirect h).1 (by simp)

end StaticMount

/-! ## Reading a redirect back -/

section Text

variable {parts : List String} {part : String} {c : Char}

lemma pathChar_escape (h : c ∈ (escapeSegment part).toList) : pathChar c = true ∧ c ≠ '/' := by
  rw [escapeSegment, String.toList_ofList] at h
  rcases segmentSet.mem_encode h with ⟨b, hkept, rfl⟩ | rfl | ⟨n, hn, rfl⟩
  · have hall : ∀ b : BitVec 8, segmentSet.keeps ⟨b⟩ = true →
        pathChar (Char.ofUInt8 ⟨b⟩) = true ∧ Char.ofUInt8 ⟨b⟩ ≠ '/' := by decide
    exact hall b.toBitVec hkept
  · decide
  · have hall : ∀ n : Fin 16, pathChar (Percent.hexDigit n) = true ∧ Percent.hexDigit n ≠ '/' := by decide
    exact hall ⟨n, hn⟩

lemma pathChar_written (h : c ∈ written parts) : pathChar c = true := by
  rw [written, List.mem_flatMap] at h
  obtain ⟨part, -, hc⟩ := h
  rcases List.mem_append.mp hc with hc | hc
  · exact (pathChar_escape hc).1
  · rw [List.mem_singleton.mp hc]
    decide

lemma escapeSegment_ne_nil (h : IsName part) : (escapeSegment part).toList ≠ [] := by
  rw [escapeSegment, String.toList_ofList]
  exact segmentSet.encode_ne_nil h.1

/-- The segments written with a slash behind each are decoded to the segments, each with a slash behind it. -/
lemma percentDecode_written (parts : List String) :
    percentDecode (.ofList (written parts)) = some (.ofList (parts.flatMap fun part => part.toList ++ ['/'])) := by
  have hdecode : Percent.decode (Percent.bytesOf (written parts)) =
      Percent.bytesOf (parts.flatMap fun part => part.toList ++ ['/']) := by
    have hslash : Percent.bytesOf ['/'] = [47] := by decide
    rw [written]
    induction parts with
    | nil => rfl
    | cons part parts ih =>
      rw [List.flatMap_cons, List.flatMap_cons, List.append_assoc, List.append_assoc, Percent.bytesOf_append,
        Percent.bytesOf_append, Percent.bytesOf_append part.toList, Percent.bytesOf_append ['/'], hslash,
        escapeSegment, String.toList_ofList, segmentSet.decode_encode_append, List.singleton_append,
        Percent.decode_cons (by decide), ih, List.singleton_append]
  rw [percentDecode, String.toList_ofList, Percent.decodeText_of_bytes hdecode]
  rfl

/-- The pieces of a text of segments are the segments. -/
lemma splitOn_slashes (names : ∀ part ∈ parts, IsName part) :
    ((parts.flatMap fun part => part.toList ++ ['/']).splitOn '/').filter (fun segment => segment ≠ []) =
      parts.map String.toList := by
  induction parts with
  | nil => rfl
  | cons part parts ih =>
    obtain ⟨hpart, hparts⟩ := List.forall_mem_cons.mp names
    obtain ⟨hempty, -, -, hslash⟩ := hpart
    rw [List.flatMap_cons, List.append_assoc, List.singleton_append,
      List.splitOn_append_cons_self_of_not_mem hslash, List.filter_cons_of_pos (by simpa using hempty), ih hparts,
      List.map_cons]

/-- Segments that have been let through once. -/
structure TakenSegments (dotfiles : Bool) (parts : List String) : Prop where
  names : ∀ part ∈ parts, IsName part
  taken : ∀ part ∈ parts, refusedSegment dotfiles part.toList = false

lemma StaticMount.takenSegments_of_named {m : StaticMount} {file : Option String} (h : m.named file = some parts) :
    TakenSegments m.dotfiles parts := by
  cases file with
  | none =>
    obtain rfl := Option.some.inj h
    exact ⟨nofun, nofun⟩
  | some raw =>
    rw [named] at h
    obtain ⟨-, -, -, hnames⟩ := segments_spec h
    refine ⟨hnames, ?_⟩
    obtain ⟨decoded, -, h⟩ := Option.bind_eq_some_iff.mp h
    obtain ⟨hlet, rfl⟩ := mapM_guard h
    intro part hpart
    obtain ⟨segment, hsegment, rfl⟩ := List.mem_map.mp hpart
    rw [String.toList_ofList]
    exact hlet segment hsegment

lemma segments_written {dotfiles : Bool} (admitted : TakenSegments dotfiles parts) :
    segments percentDecode (.ofList (written parts)) dotfiles = some parts := by
  rw [segments, percentDecode_written, Option.bind_some, String.toList_ofList, splitOn_slashes admitted.names]
  have htaken := admitted.taken
  clear admitted
  induction parts with
  | nil => rfl
  | cons part parts ih =>
    obtain ⟨hpart, hparts⟩ := List.forall_mem_cons.mp htaken
    rw [List.map_cons, List.mapM_cons, ih hparts, hpart, String.ofList_toList]
    rfl

lemma written_slash (parts : List String) :
    ((String.ofList (written parts)).isEmpty || (String.ofList (written parts)).endsWith "/") = true := by
  rcases List.eq_nil_or_concat parts with rfl | ⟨before, last, rfl⟩
  · rfl
  · rw [Bool.or_eq_true]
    refine .inr (endsWith_slash.mpr ⟨written before ++ (escapeSegment last).toList, ?_⟩)
    simp [written]

/-- A redirect is asked for with the path and the query it was built of. -/
lemma followed_ofList {path : List Char} {query : Option String} (hpath : ∀ c ∈ path, pathChar c = true)
    (hquery : ∀ text ∈ query, ∀ c ∈ text.toList, queryChar c = true) :
    followed (.ofList (path ++ queryText query)) = (.ofList path, query) := by
  have hplain : ∀ c ∈ path, decide (c ≠ '?') = true := by
    intro c hc
    have hchar := hpath c hc
    simp only [pathChar, Bool.and_eq_true] at hchar
    exact hchar.1.2
  have hfragment : ∀ c ∈ path ++ queryText query, decide (c ≠ '#') = true := by
    intro c hc
    rcases List.mem_append.mp hc with hc | hc
    · have hchar := hpath c hc
      simp only [pathChar, Bool.and_eq_true] at hchar
      exact hchar.1.1.1.1.2
    · cases query with
      | none => exact absurd hc List.not_mem_nil
      | some text =>
        rw [queryText, Option.map_some, Option.getD_some, String.toList_append] at hc
        rcases List.mem_cons.mp hc with rfl | hc
        · decide
        · have hchar := hquery text rfl c hc
          simp only [queryChar, Bool.and_eq_true] at hchar
          exact hchar.2
  simp only [followed, String.toList_ofList, List.takeWhile_eq_self_iff.mpr hfragment]
  cases query with
  | none =>
    have hnone : queryText none = [] := rfl
    rw [hnone, List.append_nil, List.takeWhile_eq_self_iff.mpr hplain, List.dropWhile_eq_nil_iff.mpr hplain]
  | some text =>
    have hsome : queryText (some text) = '?' :: text.toList := String.toList_append
    rw [hsome, List.takeWhile_append_of_pos hplain, List.dropWhile_append_of_pos hplain,
      List.takeWhile_cons_of_neg (by decide), List.dropWhile_cons_of_neg (by decide), List.append_nil]
    simp only [String.ofList_toList]

end Text

/-! ## On the site -/

section OnSite

variable {m : StaticMount} {parts : List String} {query : Option String}

lemma pair_prefix_iff {c : Char} {text : List Char} : ['/', '/'] <+: '/' :: c :: text ↔ c = '/' := by
  constructor
  · rintro ⟨rest, h⟩
    exact (List.cons.inj (List.cons.inj h).2).1.symm
  · rintro rfl
    exact ⟨text, rfl⟩

/-- Only the prefix of a mount can put two slashes at the beginning of a redirect. -/
lemma single_slash_iff (plain : m.PlainPrefix) (names : ∀ part ∈ parts, IsName part) (query : Option String) :
    ¬ ['/', '/'] <+: m.stem ++ '/' :: written parts ++ queryText query ↔ ¬ ['/', '/'] <+: m.urlPrefix.toList := by
  rw [not_iff_not]
  by_cases hroot : m.urlPrefix = "/"
  · have hfree : ¬ ['/', '/'] <+: m.urlPrefix.toList := by
      rw [hroot]
      decide
    rw [StaticMount.stem_root hroot, List.nil_append, List.cons_append]
    refine iff_of_false ?_ hfree
    -- What follows the only slash is the first segment, or the query.
    rintro ⟨rest, h⟩
    have hsecond : (written parts ++ queryText query).head? = some '/' := by
      rw [← (List.cons.inj h).2]
      rfl
    cases parts with
    | nil =>
      cases query with
      | none => exact absurd hsecond (by decide)
      | some text =>
        have hsome : queryText (some text) = '?' :: text.toList := String.toList_append
        rw [hsome] at hsecond
        exact absurd (Option.some.inj hsecond) (by decide)
    | cons part parts =>
      obtain ⟨c, chars, hchars⟩ := List.exists_cons_of_ne_nil (escapeSegment_ne_nil (names part List.mem_cons_self))
      rw [written, List.flatMap_cons, hchars] at hsecond
      have hmem : c ∈ (escapeSegment part).toList := hchars ▸ List.mem_cons_self
      exact (pathChar_escape hmem).2 (Option.some.inj hsecond)
  · rw [StaticMount.stem_under hroot]
    -- A prefix that is more than the slash has its second character before the slash that is added.
    obtain ⟨chars, hchars⟩ : ∃ chars, m.urlPrefix.toList = '/' :: chars := by
      cases hlist : m.urlPrefix.toList with
      | nil => exact absurd (hlist ▸ plain.starts) (by simp)
      | cons c chars =>
        have hstarts := plain.starts
        rw [hlist, List.head?_cons, Option.some.injEq] at hstarts
        exact ⟨chars, by rw [hstarts]⟩
    cases chars with
    | nil => exact absurd (String.toList_inj.mp hchars) hroot
    | cons c chars =>
      rw [hchars, List.cons_append, List.cons_append, List.cons_append, List.cons_append, pair_prefix_iff,
        pair_prefix_iff]

lemma slash_first (plain : m.PlainPrefix) : (m.stem ++ '/' :: written parts ++ queryText query).head? = some '/' := by
  by_cases hroot : m.urlPrefix = "/"
  · rw [StaticMount.stem_root hroot]
    rfl
  · rw [StaticMount.stem_under hroot, List.append_assoc, List.head?_append, plain.starts]
    rfl

lemma not_hasScheme {text : List Char} (h : text.head? = some '/') : ¬ HasScheme text := by
  rintro ⟨scheme, rest, rfl, hne, hscheme⟩
  obtain ⟨c, scheme, rfl⟩ := List.exists_cons_of_ne_nil hne
  obtain rfl := Option.some.inj h
  have hslash := hscheme '/' List.mem_cons_self
  revert hslash
  decide

lemma lt_of_pathChar {c : Char} (h : pathChar c = true) : 32 < c.toNat := by
  simp only [pathChar, Bool.and_eq_true, decide_eq_true_eq] at h
  exact h.1.1.1.1.1

lemma lt_of_mem_queryText {c : Char} (hquery : ∀ text ∈ query, ∀ c ∈ text.toList, queryChar c = true)
    (h : c ∈ queryText query) : 32 < c.toNat := by
  cases query with
  | none => exact absurd h List.not_mem_nil
  | some text =>
    rw [queryText, Option.map_some, Option.getD_some, String.toList_append] at h
    rcases List.mem_cons.mp h with rfl | h
    · decide
    · have hchar := hquery text rfl c h
      simp only [queryChar, Bool.and_eq_true, decide_eq_true_eq] at hchar
      exact hchar.1

lemma FileOutcome.location_iff {outcome : FileOutcome} {text : String} : outcome.location = some text ↔
    outcome = .redirect text ∧ ∀ b ∈ Percent.bytesOf text.toList, headerByte b = true := by
  cases outcome with
  | notFound => exact iff_of_false (by simp [location]) (by simp)
  | file sent encoding => exact iff_of_false (by simp [location]) (by simp)
  | redirect url =>
    rw [location, redirect.injEq]
    constructor
    · intro h
      split_ifs at h with hvalue
      obtain rfl := Option.some.inj h
      exact ⟨rfl, List.all_eq_true.mp hvalue⟩
    · rintro ⟨rfl, hvalue⟩
      exact if_pos (List.all_eq_true.mpr hvalue)

/-- A text of printable characters that is a header value has no control character. -/
lemma printable_of_header {text : List Char} (hchars : ∀ c ∈ text, 32 < c.toNat)
    (hvalue : ∀ b ∈ Percent.bytesOf text, headerByte b = true) : ∀ c ∈ text, controlChar c = false := by
  intro c hc
  have hchar := hchars c hc
  have hdelete : c.toNat ≠ 127 := by
    intro h
    obtain rfl : c = '\x7f' := Char.toNat_inj.mp h
    have hbyte : (127 : UInt8) ∈ Percent.bytesOf text := List.mem_flatMap.mpr ⟨_, hc, by decide⟩
    exact absurd (hvalue 127 hbyte) (by decide)
  simp only [controlChar, Bool.or_eq_false_iff, decide_eq_false_iff_not]
  exact ⟨by omega, hdelete⟩

end OnSite

/-- A redirect of a mount is a path of this site, and leads back to the mount, if and only if the prefix of the mount
does not begin with two slashes. -/
theorem redirected_iff {r : Router} {routes : List (String × PathPattern)} {mounts : List StaticMount} {i : ℕ}
    {m : StaticMount} {fs : FileSystem} {d : Decoders F} {path : String} {query : Option String} {found : Matched F}
    {files : Files} {headers : Asked} {location : String} (built : r.Built routes mounts) (hm : mounts[i]? = some m)
    (accepted : buildMount fs m = .ok m) (request : Requestable path query)
    (hfound : r.find d "GET" path query = .ok found) (hi : (r.specs found.route).mount = some i)
    (hsent : (m.serve files percentDecode escapeSegment found.file path query headers).location = some location) :
    (OnSite location ∧ (r.OnlyMount routes mounts i (followed location).1 →
      ∃ parts, m.named found.file = some parts ∧ Lands r d i m parts query location)) ↔
      ¬ ['/', '/'] <+: m.urlPrefix.toList := by
  have plain := StaticMount.plainPrefix_of_build accepted
  obtain ⟨hredirect, hvalue⟩ := FileOutcome.location_iff.mp hsent
  have hfile := built.file_of_find hm plain hfound hi
  have hstem : ∀ c ∈ m.stem, pathChar c = true := by
    rcases hfile with ⟨hroot, rfl, -⟩ | ⟨file, hpath, -⟩
    · rw [StaticMount.stem_under hroot]
      exact request.path
    · intro c hc
      exact request.path c (hpath ▸ List.mem_append_left _ hc)
  obtain ⟨parts, hparts, htext⟩ : ∃ parts, m.named found.file = some parts ∧
      location.toList = m.stem ++ '/' :: written parts ++ queryText query := by
    apply StaticMount.serve_redirect _ hredirect
    rcases hfile with hbare | ⟨file, -, hsome⟩
    · exact .inl hbare
    · exact .inr (by simp [hsome])
  have admitted := StaticMount.takenSegments_of_named hparts
  have hpath : ∀ c ∈ m.stem ++ '/' :: written parts, pathChar c = true := by
    intro c hc
    rcases List.mem_append.mp hc with hc | hc
    · exact hstem c hc
    · rcases List.mem_cons.mp hc with rfl | hc
      · decide
      · exact pathChar_written hc
  have hfollowed : followed location = (.ofList (m.stem ++ '/' :: written parts), query) := by
    rw [← followed_ofList hpath request.query, ← htext, String.ofList_toList]
  have hlands : r.OnlyMount routes mounts i (followed location).1 →
      ∃ parts, m.named found.file = some parts ∧ Lands r d i m parts query location := by
    intro only
    rw [hfollowed] at only
    obtain ⟨again, hagain, hmount, hrest⟩ := built.find_under hm plain String.toList_ofList only query
    refine ⟨parts, hparts, ⟨by rw [hfollowed], ⟨?_, request.query⟩, ?_⟩⟩
    · rw [hfollowed, String.toList_ofList]
      exact hpath
    · rw [hfollowed]
      refine ⟨again, _, hagain, hmount, hrest, segments_written admitted, written_slash parts, ?_⟩
      intro files headers url
      rw [hrest]
      exact StaticMount.serve_slash_ne_redirect (written_slash parts) url
  have hprintable : ∀ c ∈ location.toList, controlChar c = false := by
    refine printable_of_header ?_ hvalue
    rw [htext]
    intro c hc
    rcases List.mem_append.mp hc with hc | hc
    · exact lt_of_pathChar (hpath c hc)
    · exact lt_of_mem_queryText request.query hc
  rw [← single_slash_iff plain admitted.names query, ← htext]
  constructor
  · intro h
    exact h.1.single
  · intro hsingle
    have hslash : location.toList.head? = some '/' := htext ▸ slash_first plain
    exact ⟨⟨hslash, hsingle, not_hasScheme hslash, hprintable⟩, hlands⟩

/-! ## One mount -/

/-- The first of the patterns that matches. -/
def firstMatch (patterns : ℕ → Option PathPattern) (count : ℕ) : Matcher := fun path =>
  (List.range count).findSome? fun j =>
    (patterns j).bind fun pattern => (pattern path).map fun params => ⟨j, params⟩

lemma treeOf_firstMatch {patterns : ℕ → Option PathPattern} {count : ℕ}
    (h : ∀ j, count ≤ j → patterns j = none) : TreeOf (firstMatch patterns count) patterns := by
  constructor
  · intro path found hfound
    obtain ⟨j, -, hj⟩ := List.exists_of_findSome?_eq_some hfound
    obtain ⟨pattern, hpattern, hj⟩ := Option.bind_eq_some_iff.mp hj
    obtain ⟨params, hparams, rfl⟩ := Option.map_eq_some_iff.mp hj
    exact ⟨pattern, hpattern, hparams⟩
  · intro path j pattern hpattern hmatches
    have hlt : j < count := by
      by_contra hle
      rw [h j (not_lt.mp hle)] at hpattern
      exact absurd hpattern (by simp)
    rw [firstMatch, List.findSome?_isSome_iff]
    refine ⟨j, List.mem_range.mpr hlt, ?_⟩
    rw [hpattern, Option.bind_some, Option.isSome_map]
    exact hmatches

/-- A router of one mount and no routes. -/
def mountRouter (m : StaticMount) : Router where
  byMethod := [("GET", firstMatch (getPatterns [] [m]) (mountEntries [m]).length)]
  specs _ := ⟨[], false, false, false, some 0⟩

lemma mountRouter_built (m : StaticMount) : (mountRouter m).Built [] [m] := by
  refine ⟨nofun, ?_, ?_⟩
  · intro k entry hentry
    obtain ⟨m', hm', -⟩ := mem_mountEntries.mp (List.mem_of_getElem? hentry)
    have hzero : entry.1 = 0 := by
      by_contra hne
      rw [List.getElem?_eq_none (by simp; omega)] at hm'
      exact absurd hm' (by simp)
    rw [hzero]
    rfl
  · intro hne
    refine ⟨_, rfl, treeOf_firstMatch ?_⟩
    intro j hj
    have hnone : (mountEntries [m])[j]? = none := List.getElem?_eq_none hj
    simp [getPatterns, hnone]

/-- The bare prefix is matched by the first pattern, and has no file. -/
lemma find_prefix {m : StaticMount} (hroot : m.urlPrefix ≠ "/") (plain : m.PlainPrefix) (d : Decoders F)
    (query : Option String) : (mountRouter m).find d "GET" m.urlPrefix query = .ok ⟨0, [], none⟩ := by
  have hat : (mountRouter m).at_ "GET" m.urlPrefix = some ⟨0, fun _ => none⟩ := by
    have hentries : mountEntries [m] = [(0, m.urlPrefix, false), (0, m.urlPrefix ++ "/", false),
        (0, m.urlPrefix ++ "/{*file}", true)] := by
      have hpatterns : m.patterns = [(m.urlPrefix, false), (m.urlPrefix ++ "/", false),
          (m.urlPrefix ++ "/{*file}", true)] := if_neg hroot
      simp [mountEntries, hpatterns]
    simp [Router.at_, mountRouter, firstMatch, hentries, getPatterns, captures, List.range_succ_eq_map]
  have hzero : [m][0]? = some m := rfl
  rcases (mountRouter_built m).file_cases hzero plain hat rfl with ⟨-, -, hfile⟩ | ⟨file, hpath, -⟩
  · simp only [Router.find, hat, hfile]
    rfl
  · rw [StaticMount.stem_under hroot] at hpath
    have hlength := congrArg List.length hpath
    simp at hlength

/-- The site of `siteFiles` under another prefix. -/
def sitePrefixed (urlPrefix : String) : StaticMount := ⟨urlPrefix, ["srv", "www"], none, none, false, false⟩

def plainAsked : Asked := ⟨false, none, false⟩

/-- No route of the site has parameters. -/
def siteDecoders : Decoders Unit where
  float _ := none
  isFinite _ := true
  uuid _ := none
  date _ := none
  offsetDateTime _ := none
  primitiveDateTime _ := none
  query _ := []
  percent raw := raw

lemma sitePrefixed_built (urlPrefix : String) (starts : urlPrefix.toList.head? = some '/')
    (ends : urlPrefix.toList.getLast? ≠ some '/') (plain : '{' ∉ urlPrefix.toList ∧ '}' ∉ urlPrefix.toList) :
    buildMount siteFiles.toFileSystem (sitePrefixed urlPrefix) = .ok (sitePrefixed urlPrefix) := by
  have hroot : siteFiles.tree.node (sitePrefixed urlPrefix).root = some .dir := rfl
  have hindex : (sitePrefixed urlPrefix).index = none := rfl
  have hfallback : (sitePrefixed urlPrefix).fallback = none := rfl
  have hurl : (sitePrefixed urlPrefix).urlPrefix = urlPrefix := rfl
  simp [buildMount, hroot, hindex, hfallback, hurl, starts, ends, plain.1, plain.2]

/-- `GET /docs?page=2`, where `/docs` is the prefix. -/
theorem redirected_docs : (OnSite "/docs/?page=2" ∧
    ((mountRouter (sitePrefixed "/docs")).OnlyMount [] [sitePrefixed "/docs"] 0 (followed "/docs/?page=2").1 →
      ∃ parts, (sitePrefixed "/docs").named none = some parts ∧
        Lands (mountRouter (sitePrefixed "/docs")) siteDecoders 0 (sitePrefixed "/docs") parts (some "page=2")
          "/docs/?page=2")) ↔
      ¬ ['/', '/'] <+: (sitePrefixed "/docs").urlPrefix.toList := by
  have accepted := sitePrefixed_built "/docs" (by decide) (by decide) (by decide)
  have hfound := find_prefix (by decide) (StaticMount.plainPrefix_of_build accepted) siteDecoders (some "page=2")
  have request : Requestable "/docs" (some "page=2") := by
    refine ⟨List.all_eq_true.mp (by decide), ?_⟩
    intro text htext
    obtain rfl := Option.some.inj htext
    exact List.all_eq_true.mp (by decide)
  have hsent : ((sitePrefixed "/docs").serve siteFiles percentDecode escapeSegment none "/docs" (some "page=2")
      plainAsked).location = some "/docs/?page=2" :=
    FileOutcome.location_iff.mpr ⟨rfl, List.all_eq_true.mp (by decide)⟩
  exact redirected_iff (mountRouter_built _) rfl accepted request hfound rfl hsent

/-- `GET //evil.example` under a mount of that prefix, which `build_mount` accepts, leads to another site. -/
theorem redirected_elsewhere :
    buildMount siteFiles.toFileSystem (sitePrefixed "//evil.example") = .ok (sitePrefixed "//evil.example") ∧
      Requestable "//evil.example" none ∧
      (mountRouter (sitePrefixed "//evil.example")).find siteDecoders "GET" "//evil.example" none =
        .ok ⟨0, [], none⟩ ∧
      ((sitePrefixed "//evil.example").serve siteFiles percentDecode escapeSegment none "//evil.example" none
        plainAsked).location = some "//evil.example/" ∧
      ¬ OnSite "//evil.example/" := by
  have accepted := sitePrefixed_built "//evil.example" (by decide) (by decide) (by decide)
  have hroot : (sitePrefixed "//evil.example").urlPrefix ≠ "/" := by decide
  refine ⟨accepted, ⟨List.all_eq_true.mp (by decide), nofun⟩, ?_, ?_, ?_⟩
  · exact find_prefix hroot (StaticMount.plainPrefix_of_build accepted) siteDecoders none
  · exact FileOutcome.location_iff.mpr ⟨rfl, List.all_eq_true.mp (by decide)⟩
  · intro onSite
    exact onSite.single (by decide)

end Oxbrook
