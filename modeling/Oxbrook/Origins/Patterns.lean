import Mathlib.Data.List.DropRight

/-!
# Configured origins

The list of origins of an application: what `CORS` takes into it, and what the CORS layer reads it as.  An entry
with a `*` is a pattern, and every other entry an origin as it stands, in lower case.
-/

namespace Oxbrook

abbrev Text := List Char

/-! ## Texts -/

/-- The white space of Unicode. -/
def whiteSpace (c : Char) : Bool :=
  (9 ≤ c.toNat && c.toNat ≤ 13) || (0x2000 ≤ c.toNat && c.toNat ≤ 0x200a) ||
    [0x20, 0x85, 0xa0, 0x1680, 0x2028, 0x2029, 0x202f, 0x205f, 0x3000].contains c.toNat

/-- `str::trim`, and `str.strip` on the text of a header.  On other texts the latter also takes the separators
`0x1c` to `0x1f`. -/
def strip (text : Text) : Text := (text.dropWhile whiteSpace).rdropWhile whiteSpace

/-- `to_ascii_lowercase`. -/
def lowercase (text : Text) : Text := text.map Char.toLower

/-- `split_once`, and the texts of `partition` if there is a separator. -/
def splitOnce (text sep : Text) : Option (Text × Text) := text.dropInfix? sep

/-- `rsplit_once`. -/
def rsplitOnce (text : Text) (sep : Char) : Option (Text × Text) :=
  (text.reverse.dropInfix? [sep]).map fun (after, before) => (before.reverse, after.reverse)

/-- `str.lower`.  Its table is that of Unicode; what is said of it here is that on ASCII it is
`to_ascii_lowercase`. -/
structure Lowering where
  lower : Text → Text
  ascii : ∀ text, (∀ c ∈ text, c.toNat < 128) → lower text = lowercase text

/-! ## Patterns -/

/-- `without_default_port`. -/
def withoutDefaultPort (authority : Text) (scheme : Option Text) : Text :=
  let lowered := lowercase (strip authority)
  let ports :=
    if scheme = some "https".toList ∨ scheme = some "wss".toList then [":443".toList]
    else if scheme = some "http".toList ∨ scheme = some "ws".toList then [":80".toList]
    else [":80".toList, ":443".toList]
  (ports.findSome? fun port => lowered.dropSuffix? port).getD lowered

/-- The host of an authority, and the port if there is one. -/
def hostAndPort (authority : Text) : Text × Option Text :=
  match rsplitOnce authority ':' with
  | some (host, port) => (host, some port)
  | none => (authority, none)

/-- An origin with one `*` in the first label of its host. -/
structure Pattern where
  scheme : Text
  before : Text
  after : Text
  rest : Text
  port : Option Text
  deriving DecidableEq

namespace Pattern

/-- `Pattern::parse`. -/
def parse (origin : Text) : Option Pattern := do
  let (scheme, authority) ← splitOnce (lowercase (strip origin)) "://".toList
  let (host, port) := hostAndPort (withoutDefaultPort authority (some scheme))
  let (first, rest) ← splitOnce host ['.']
  let (before, after) ← splitOnce first ['*']
  if '*' ∈ after ∨ '*' ∈ rest ∨ '.' ∉ rest then none
  else some { scheme, before, after, rest := '.' :: rest, port }

/-- What the `*` stands for. -/
def wild (c : Char) : Bool := c.isLower || c.isDigit || c = '-'

/-- `Pattern::matches`. -/
def matchesOrigin (pattern : Pattern) (origin : Text) : Bool :=
  match splitOnce origin "://".toList with
  | none => false
  | some (scheme, authority) =>
    let (host, port) := hostAndPort (withoutDefaultPort authority (some scheme))
    let middle := do
      let first ← host.dropSuffix? pattern.rest
      let later ← first.dropPrefix? pattern.before
      later.dropSuffix? pattern.after
    scheme = pattern.scheme && port = pattern.port && middle.any fun text => text ≠ [] && text.all wild

end Pattern

/-- `split`: the exact origins and the patterns. -/
def splitOrigins (origins : List Text) : List Text × List Pattern :=
  ((origins.filter fun origin => '*' ∉ origin).map lowercase,
    (origins.filter fun origin => '*' ∈ origin).filterMap Pattern.parse)

/-- The origins that are listed, as they stand or by a pattern. -/
def listed (origins : List Text × List Pattern) (origin : Text) : Bool :=
  origin ∈ origins.1 || origins.2.any fun pattern => pattern.matchesOrigin (lowercase origin)

/-! ## The configuration -/

section Configuration

variable (py : Lowering)

/-- `_WILD_LABEL`. -/
def wildLabel (label : Text) : Bool :=
  match splitOnce label ['*'] with
  | some (before, after) => before.all Pattern.wild && after.all Pattern.wild
  | none => false

/-- `_check_pattern`. -/
def checkPattern (value : Text) : Bool :=
  let (scheme, authority) := (splitOnce value "://".toList).getD (value, [])
  let host := if authority.count ':' = 1 then (hostAndPort authority).1 else authority
  match (py.lower host).splitOn '.' with
  | [] => false
  | first :: labels =>
    '*' ∉ scheme && wildLabel first && labels.all (fun label => '*' ∉ label && label ≠ []) && 2 ≤ labels.length

/-- `check_origin`. -/
def checkOrigin (value : Text) : Bool :=
  value = ['*'] || ((splitOnce value "://".toList).isSome && value.getLast? ≠ some '/' &&
    ('*' ∉ value || checkPattern py value))

/-- `CORS`, of which the origins are what the checks of an origin read. -/
structure Cors where
  allowOrigins : List Text
  checked : ∀ origin ∈ allowOrigins, checkOrigin py origin = true
  nonempty : allowOrigins ≠ []

variable {py}

/-- `Cors::allows`, of the layer built for the configuration. -/
def Cors.allows (cors : Cors py) (origin : Text) : Bool :=
  ['*'] ∈ cors.allowOrigins ||
    listed (splitOrigins (cors.allowOrigins.filter fun entry => entry ≠ ['*'])) origin

end Configuration

end Oxbrook
