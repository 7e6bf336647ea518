import Mathlib.Data.List.DropRight
import Oxbrook.Foundation.Numerals

/-!
# Where a reference leads

How a browser resolves a reference against the URL of a page, as far as it decides the site: the scheme, the host and
the port.  The basic parser of the URL standard strips and removes some characters, looks for a scheme, and then for an
authority, which a special scheme may have after any number of slashes of either kind.  The path, the query and the
fragment come after these and change none of them, so that a parser that has come to them has its result.

How a host is read is a parameter.  `resolve_path` is the case of a path: it stays on the site.
-/

namespace WebUrl

/-- How hosts are read: those of special schemes, which are domains and addresses, and those of others. -/
structure HostParser (H : Type) where
  domain : List Char → Option H
  plain : List Char → Option H
  empty : H

/-- A URL up to its path. -/
structure Site (H : Type) where
  scheme : List Char
  host : Option H
  port : Option ℕ
  deriving DecidableEq

/-- The special schemes with their default ports. -/
def special : List (List Char × Option ℕ) :=
  [("ftp".toList, some 21), ("file".toList, none), ("http".toList, some 80), ("https".toList, some 443),
    ("ws".toList, some 80), ("wss".toList, some 443)]

def isSpecial (scheme : List Char) : Bool := special.any fun entry => entry.1 = scheme

def isSlash (c : Char) : Bool := c = '/' || c = '\\'

/-! ## The text -/

/-- Control characters and spaces are stripped from both ends, and tabs and line breaks are removed. -/
def prepare (input : List Char) : List Char :=
  let stripped := (input.dropWhile fun c => c.toNat ≤ 32).rdropWhile fun c => c.toNat ≤ 32
  stripped.filter fun c => !(c = '\t' || c = '\n' || c = '\r')

/-- The scheme of an absolute URL, and what follows its colon. -/
def schemeOf (text : List Char) : Option (List Char × List Char) :=
  let name := text.takeWhile fun c => c.isAlphanum || c = '+' || c = '-' || c = '.'
  match text.drop name.length with
  | ':' :: rest => if (name.head?.any Char.isAlpha) then some (name.map Char.toLower, rest) else none
  | _ => none

/-! ## The authority -/

/-- The text before the first colon that is not within brackets, and the text after it. -/
def cutPort (inside : Bool) : List Char → List Char × Option (List Char)
  | [] => ([], none)
  | c :: rest =>
    if c = ':' ∧ inside = false then ([], some rest)
    else
      let cut := cutPort (if c = '[' then true else if c = ']' then false else inside) rest
      (c :: cut.1, cut.2)

/-- The port of a URL; nothing for the default one. -/
def readPort (scheme digits : List Char) : Option (Option ℕ) :=
  if digits = [] then some none
  else if digits.all Char.isDigit then
    (Numerals.readDigits 10 digits).bind fun port =>
      if port ≤ 65535 then some (if (scheme, some port) ∈ special then none else some port) else none
  else none

section Parser

variable {H : Type} (hosts : HostParser H)

/-- The authority state, and those of the host and of the port. -/
def authority (scheme text : List Char) : Option (Site H) :=
  let whole := text.takeWhile fun c => !(c = '/' || c = '?' || c = '#' || (isSpecial scheme && c = '\\'))
  let address := (whole.reverse.takeWhile (· ≠ '@')).reverse
  if '@' ∈ whole ∧ address = [] then none
  else
    let (name, port) := cutPort false address
    if name = [] ∧ (port.isSome ∨ isSpecial scheme) then none
    else do
      let host ← if isSpecial scheme then hosts.domain name else hosts.plain name
      let port ← readPort scheme (port.getD [])
      some ⟨scheme, some host, port⟩

/-- A drive letter of Windows. -/
def isDrive (text : List Char) : Bool :=
  match text with
  | [letter, mark] => letter.isAlpha && (mark = ':' || mark = '|')
  | _ => false

/-- The file states. -/
def file [DecidableEq H] (base : Site H) (text : List Char) : Option (Site H) :=
  let own : Site H := ⟨"file".toList, if base.scheme = "file".toList then base.host else some hosts.empty, none⟩
  match text with
  | first :: second :: rest =>
    if isSlash first && isSlash second then
      let name := rest.takeWhile fun c => !(isSlash c || c = '?' || c = '#')
      if name = [] ∨ isDrive name then some ⟨"file".toList, some hosts.empty, none⟩
      else (hosts.domain name).map fun host =>
        ⟨"file".toList, some (if hosts.domain "localhost".toList = some host then hosts.empty else host), none⟩
    else some own
  | _ => some own

/-! ## References -/

/-- The relative slash state. -/
def relativeSlash (base : Site H) (text : List Char) : Option (Site H) :=
  match text with
  | [] => some base
  | c :: rest =>
    if isSpecial base.scheme && isSlash c then authority hosts base.scheme (rest.dropWhile isSlash)
    else if c = '/' then authority hosts base.scheme rest
    else some base

/-- The relative state. -/
def relative (base : Site H) (text : List Char) : Option (Site H) :=
  match text with
  | [] => some base
  | c :: rest =>
    if c = '/' || (isSpecial base.scheme && c = '\\') then relativeSlash hosts base rest else some base

/-- What follows a scheme. -/
def afterScheme [DecidableEq H] (base : Site H) (scheme rest : List Char) : Option (Site H) :=
  if scheme = "file".toList then file hosts base rest
  else if isSpecial scheme then
    if scheme = base.scheme ∧ ¬ ("//".toList <+: rest) then relative hosts base rest
    else authority hosts scheme (rest.dropWhile isSlash)
  else if "//".toList <+: rest then authority hosts scheme (rest.drop 2)
  else some ⟨scheme, none, none⟩

/-- The basic URL parser, with the URL of a page as its base. -/
def resolve [DecidableEq H] (base : Site H) (input : List Char) : Option (Site H) :=
  let text := prepare input
  match schemeOf text with
  | some (scheme, rest) => afterScheme hosts base scheme rest
  | none => if base.scheme = "file".toList then file hosts base text else relative hosts base text

end Parser

/-! ## Paths -/

/-- Printable characters of ASCII are all left. -/
lemma prepare_eq_self {text : List Char} (printable : ∀ c ∈ text, 32 < c.toNat) : prepare text = text := by
  have hleft : (text.dropWhile fun c => decide (c.toNat ≤ 32)) = text := by
    cases text with
    | nil => rfl
    | cons c rest =>
      have hc := printable c (List.mem_cons_self ..)
      exact List.dropWhile_cons_of_neg (by simpa using hc)
  have hright : (text.rdropWhile fun c => decide (c.toNat ≤ 32)) = text := by
    rw [List.rdropWhile_eq_self_iff]
    intro hne
    have hlast := printable _ (List.getLast_mem hne)
    simpa using hlast
  unfold prepare
  dsimp only
  rw [hleft, hright, List.filter_eq_self]
  intro c hc
  have hbound := printable c hc
  have hne : ∀ d : Char, d.toNat ≤ 32 → c ≠ d := by
    rintro d hd rfl
    omega
  simp [hne '\t' (by decide), hne '\n' (by decide), hne '\r' (by decide)]

/-- **A path stays on the site.**  One slash and no other at its start, and nothing that a browser would strip. -/
theorem resolve_path {H : Type} [DecidableEq H] (hosts : HostParser H) {base : Site H} {rest : List Char}
    (web : base.scheme ≠ "file".toList) (printable : ∀ c ∈ '/' :: rest, 32 < c.toNat)
    (single : ∀ c ∈ rest.head?, isSlash c = false) : resolve hosts base ('/' :: rest) = some base := by
  have hscheme : schemeOf ('/' :: rest) = none := rfl
  unfold resolve
  dsimp only
  rw [prepare_eq_self printable, hscheme]
  dsimp only
  rw [if_neg web]
  cases rest with
  | nil => rfl
  | cons c rest =>
    have hc := single c rfl
    have hslash : c ≠ '/' := by
      rintro rfl
      cases hc
    simp [relative, relativeSlash, hc, hslash]

end WebUrl
