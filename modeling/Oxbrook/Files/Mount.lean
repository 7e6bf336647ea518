import Oxbrook.Foundation.FileTree

/-!
# Static files

`resolve` of `src/files.rs` and `build_mount` of `python/oxbrook/_files.py`: which file answers a request under a mount.
The path after the prefix is decoded and cut into segments, or refused; the segments are pushed on the root of the
mount; a directory stands for its index, and a page that does not exist for the fallback.  What is found must be
inside the root once links are followed, and may be sent in a precompressed variant that stands beside it.

The percent-decoding of a path is a parameter, and so is the negotiation of an encoding; the paths themselves are
texts, so that a segment `..` would be a step up if it came through.
-/

namespace Oxbrook

open FileTree

/-! ## Paths -/

/-- One piece of a path between slashes. -/
def pathComponent (piece : List Char) : Option (Component String) :=
  if piece = [] ∨ piece = ['.'] then none
  else if piece = ['.', '.'] then some .up
  else some (.name (.ofList piece))

/-- A text as a path. -/
def parsePath (text : String) : RawPath String :=
  let pieces := text.toList.splitOn '/'
  { absolute := decide (text.toList.head? = some '/')
    components := pieces.filterMap pathComponent
    slash := decide (pieces.getLast? = some [] ∨ pieces.getLast? = some ['.']) }

/-- A file tree, and how many links the operating system follows before it gives up. -/
structure FileSystem where
  tree : FileTree.Tree String
  maxLinks : ℕ

namespace FileSystem

variable (fs : FileSystem)

/-- `std::fs::canonicalize`. -/
def canonicalize (path : RawPath String) : Option (List String) :=
  fs.tree.walk fs.maxLinks [] path.components path.slash

/-- `std::fs::metadata`, which follows links, and what `File::open` opens. -/
def metadata (path : RawPath String) : Option (Node String) := (fs.canonicalize path).bind fs.tree.node

/-- `std::fs::symlink_metadata`, which does not follow a link at the end. -/
def symlinkMetadata (path : RawPath String) : Option (Node String) :=
  match path.components.getLast?, path.slash with
  | some (.name name), false =>
    (fs.tree.walk fs.maxLinks [] path.components.dropLast false).bind fun dir => fs.tree.node (dir ++ [name])
  | _, _ => fs.metadata path

/-- `Path.resolve()` of Python. -/
def resolved (path : RawPath String) : List String := fs.tree.realpath fs.maxLinks [] path.components

end FileSystem

/-! ## Mounts -/

structure StaticMount where
  urlPrefix : String
  root : List String
  index : Option String
  fallback : Option String
  dotfiles : Bool
  precompressed : Bool

/-- `_plain_name`. -/
def plainName (value : String) : Bool :=
  value ≠ "" && value ≠ "." && value ≠ ".." && '/' ∉ value.toList && '\\' ∉ value.toList

/-- The `ValueError`s of `build_mount`. -/
inductive MountError
  | prefixForm
  | prefixParameters
  | directory
  | index
  | fallback

def StaticMount.rootPath (m : StaticMount) : RawPath String := .ofNames m.root

/-- The path of the fallback: an absolute one stands for itself. -/
def StaticMount.fallbackPath (m : StaticMount) (fallback : String) : RawPath String :=
  m.rootPath.join (parsePath fallback)

/-- Whether `build_mount` takes a fallback for a file inside the root. -/
def StaticMount.acceptsFallback (m : StaticMount) (fs : FileSystem) (fallback : String) : Bool :=
  let candidate := fs.resolved (m.fallbackPath fallback)
  decide (m.root <+: candidate ∧ candidate ≠ m.root) &&
    decide (fs.metadata (.ofNames candidate) = some .file)

/-- `build_mount`, from the resolved directory on. -/
def buildMount (fs : FileSystem) (m : StaticMount) : Except MountError StaticMount :=
  if m.urlPrefix ≠ "/" ∧ (m.urlPrefix.toList.head? ≠ some '/' ∨ m.urlPrefix.toList.getLast? = some '/') then
    .error .prefixForm
  else if '{' ∈ m.urlPrefix.toList ∨ '}' ∈ m.urlPrefix.toList then .error .prefixParameters
  else if fs.tree.node m.root ≠ some .dir then .error .directory
  else if m.index.any fun index => ! plainName index then .error .index
  else if m.fallback.any fun fallback => ! m.acceptsFallback fs fallback then .error .fallback
  else .ok m

/-! ## Segments -/

def devices : List String :=
  ["con", "prn", "aux", "nul", "conin$", "conout$", "com1", "com2", "com3", "com4", "com5", "com6", "com7", "com8",
    "com9", "lpt1", "lpt2", "lpt3", "lpt4", "lpt5", "lpt6", "lpt7", "lpt8", "lpt9"]

/-- `windows_hazard`. -/
def windowsHazard (segment : List Char) : Bool :=
  segment.getLast? = some '.' || segment.getLast? = some ' ' ||
    devices.any fun device => (segment.takeWhile fun c => c ≠ '.').map Char.toLower = device.toList

/-- A segment that must be refused. -/
def refusedSegment (dotfiles : Bool) (segment : List Char) : Bool :=
  segment = ['.'] || segment = ['.', '.'] || (segment.any fun c => c = '\\' || c = '\x00' || c = ':') ||
    windowsHazard segment || (segment.head? = some '.' && ! dotfiles)

/-- `segments`: the requested path as segments, or that it must be refused. -/
def segments (decode : String → Option String) (raw : String) (dotfiles : Bool) : Option (List String) :=
  (decode raw).bind fun decoded =>
    ((decoded.toList.splitOn '/').filter fun segment => segment ≠ []).mapM fun segment =>
      if refusedSegment dotfiles segment then none else some (.ofList segment)

/-! ## Inside the root -/

/-- The loop of `contained`: one `lstat` for each component, and the canonical path once there is a link. -/
def containedFrom (fs : FileSystem) (root : List String) (target : RawPath String) (walked : List (Component String)) :
    List (Component String) → Option (RawPath String)
  | [] => some target
  | component :: rest =>
    match fs.symlinkMetadata ⟨true, walked ++ [component], false⟩ with
    | none => none
    | some (.link _) =>
      (fs.canonicalize target).bind fun resolved =>
        if root <+: resolved then some (.ofNames resolved) else none
    | some _ => containedFrom fs root target (walked ++ [component]) rest

/-- `contained`: the target, if it stays inside the root once links are followed. -/
def contained (fs : FileSystem) (root : List String) (target : RawPath String) : Option (RawPath String) :=
  (target.below? root).bind (containedFrom fs root target (root.map .name))

/-! ## Precompressed variants -/

inductive Encoding
  | brotli
  | gzip
  deriving DecidableEq

def Encoding.suffix : Encoding → String
  | brotli => ".br"
  | gzip => ".gz"

/-- A path with more text at its end. -/
def withSuffix (path : RawPath String) (suffix : String) : RawPath String :=
  if path.slash then ⟨path.absolute, path.components ++ [.name suffix], false⟩
  else match path.components.getLast? with
    | some (.name name) => ⟨path.absolute, path.components.dropLast ++ [.name (name ++ suffix)], false⟩
    | some .up => ⟨path.absolute, path.components.dropLast ++ [.name (".." ++ suffix)], false⟩
    | none => ⟨path.absolute, [.name suffix], false⟩

/-- What an answer depends on: whether there is a range, what the client makes of the encodings offered (`none` if
it sends no `Accept-Encoding`), and whether it wants a page. -/
structure Asked where
  range : Bool
  negotiate : Option (List Encoding → Option Encoding)
  wantsHtml : Bool

/-- What is given of the files: the tree, and which one is no older than another. -/
structure Files extends FileSystem where
  fresh : List String → List String → Bool

/-- The loop of `variant`: the encodings left are offered until one of them has a file. -/
def variantFrom (files : Files) (root : List String) (original : RawPath String) (location : List String)
    (negotiate : List Encoding → Option Encoding) : ℕ → List Encoding → Option (Encoding × RawPath String)
  | 0, _ => none
  | fuel + 1, offered => do
    let encoding ← negotiate offered
    let next := variantFrom files root original location negotiate fuel (offered.filter fun e => e ≠ encoding)
    match contained files.toFileSystem root (withSuffix original encoding.suffix) with
    | none => next
    | some resolved =>
      match files.canonicalize resolved with
      | some found =>
        if files.tree.node found = some .file ∧ files.fresh found location then some (encoding, resolved) else next
      | none => next

/-- `variant`. -/
def variant (files : Files) (root : List String) (original : RawPath String) (location : List String)
    (asked : Asked) : Option (Encoding × RawPath String) :=
  if asked.range then none
  else asked.negotiate.bind fun negotiate =>
    variantFrom files root original location negotiate 3 [.brotli, .gzip]

/-! ## Answers -/

inductive FileOutcome
  | notFound
  | redirect (url : String)
  | file (sent : RawPath String) (encoding : Option Encoding)

namespace StaticMount

variable (m : StaticMount)

/-- The root with the segments pushed on it. -/
def candidate (parts : List String) : RawPath String :=
  parts.foldl (fun path part => path.join (parsePath part)) m.rootPath

/-- The file that is opened for a target, or a variant of it. -/
def send (files : Files) (target : RawPath String) (asked : Asked) : FileOutcome :=
  match contained files.toFileSystem m.root target with
  | none => .notFound
  | some resolved =>
    match files.canonicalize resolved with
    | none => .notFound
    | some location =>
      if files.tree.node location ≠ some .file then .notFound
      else match if m.precompressed then variant files m.root resolved location asked else none with
        | some (encoding, sent) => .file sent (some encoding)
        | none => .file resolved none

/-- `resolve`; `escape` is the percent-encoding of a segment that goes back into a redirect. -/
def resolve (files : Files) (escape : String → String) (parts : List String) (trailingSlash : Bool)
    (query : Option String) (asked : Asked) : FileOutcome :=
  let candidate := m.candidate parts
  match files.metadata candidate with
  | some .dir =>
    match m.index with
    | none => .notFound
    | some index =>
      if trailingSlash then m.send files (candidate.join (parsePath index)) asked
      else if (files.metadata (candidate.join (parsePath index))).isNone then .notFound
      else
        let path := (if m.urlPrefix = "/" then "" else m.urlPrefix) ++ parts.foldl (fun url part => url ++ "/" ++ escape part) ""
        .redirect (path ++ "/" ++ (query.map fun query => "?" ++ query).getD "")
  | some _ => m.send files candidate asked
  | none =>
    let looksLikeAPage := (parts.getLast?.map fun last => decide ('.' ∉ last.toList)).getD true
    match m.fallback with
    | some fallback => if looksLikeAPage && asked.wantsHtml then m.send files (m.fallbackPath fallback) asked else .notFound
    | none => .notFound

/-- `serve`: `file` is the path after the prefix, and `none` for the prefix itself. -/
def serve (files : Files) (decode : String → Option String) (escape : String → String) (file : Option String)
    (path : String) (query : Option String) (asked : Asked) : FileOutcome :=
  match file with
  | none =>
    if m.urlPrefix ≠ "/" then .redirect (path ++ "/" ++ (query.map fun query => "?" ++ query).getD "")
    else m.resolve files escape [] true query asked
  | some raw =>
    match segments decode raw m.dotfiles with
    | none => .notFound
    | some parts => m.resolve files escape parts (raw.isEmpty || raw.endsWith "/") query asked

end StaticMount

end Oxbrook
