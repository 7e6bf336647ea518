import Mathlib.Data.BitVec
import Oxbrook.Foundation.Numerals

/-!
# Addresses as proxies write them

`parse` of `src/limit.rs`: an IP address, bare, with a port, or in brackets.  The readers are those of Rust's
`core::net`, which work on bytes from the left and put nothing back but what a failed reader took: an IPv4
address is four numbers without leading zeros; an IPv6 address is eight groups of hexadecimal digits, the last
two possibly written as an IPv4 address, with at most one `::` for a run of zeros.
-/

namespace Oxbrook

/-- `IpAddr`. -/
inductive IpAddr
  | v4 (addr : BitVec 32)
  | v6 (addr : BitVec 128)
  deriving DecidableEq

/-- A reader takes what it reads off the front, or fails. -/
abbrev AddrReader := StateT (List UInt8) Option

namespace AddrReader

/-- `to_digit`. -/
def digit (radix : ℕ) (b : UInt8) : Option ℕ :=
  (Numerals.valueOfDigit (Char.ofNat b.toNat)).filter (· < radix)

/-- `read_number`, of a type whose values are below `bound`. -/
def number (radix bound : ℕ) (maxDigits : Option ℕ) (zeroPrefix : Bool) : AddrReader ℕ := fun text =>
  let digits := text.takeWhile fun b => (digit radix b).isSome
  let value := digits.foldl (fun v b => v * radix + (digit radix b).getD 0) 0
  if digits = [] then none
  else if ∃ most ∈ maxDigits, most < digits.length then none
  else if bound ≤ value then none
  else if ! zeroPrefix && decide (digits.head? = some 48) && decide (1 < digits.length) then none
  else some (value, text.drop digits.length)

/-- `read_given_char`. -/
def given (c : Char) : AddrReader Unit
  | b :: text => if b.toNat = c.toNat then some ((), text) else none
  | [] => none

/-- `read_separator`: before every item but the first. -/
def separated {α : Type} (c : Char) (i : ℕ) (item : AddrReader α) : AddrReader α :=
  if i = 0 then item else do
    given c
    item

/-- `read_ipv4_addr`. -/
def ipv4 : AddrReader ℕ := do
  let a ← separated '.' 0 (number 10 256 (some 3) false)
  let b ← separated '.' 1 (number 10 256 (some 3) false)
  let c ← separated '.' 2 (number 10 256 (some 3) false)
  let d ← separated '.' 3 (number 10 256 (some 3) false)
  pure (((a * 256 + b) * 256 + c) * 256 + d)

/-- `read_groups`: the groups read, whether the last two were an IPv4 address, and what is left. -/
def groups (limit : ℕ) : ℕ → ℕ → List UInt8 → List ℕ × Bool × List UInt8
  | 0, _, text => ([], false, text)
  | left + 1, i, text =>
    match if i + 1 < limit then separated ':' i ipv4 text else none with
    | some (addr, rest) => ([addr / 65536, addr % 65536], true, rest)
    | none =>
      match separated ':' i (number 16 65536 (some 4) true) text with
      | some (group, rest) =>
        let (more, embedded, rest) := groups limit left (i + 1) rest
        (group :: more, embedded, rest)
      | none => ([], false, text)

/-- `read_ipv6_addr`. -/
def ipv6 : AddrReader ℕ := fun text =>
  let join := List.foldl (fun v g => v * 65536 + g) 0
  let (head, embedded, rest) := groups 8 8 0 text
  if head.length = 8 then some (join head, rest)
  else if embedded then none
  else do
    let (_, rest) ← given ':' rest
    let (_, rest) ← given ':' rest
    let limit := 8 - (head.length + 1)
    let (tail, _, rest) := groups limit limit 0 rest
    some (join (head ++ List.replicate (8 - tail.length - head.length) 0 ++ tail), rest)

/-- `read_ip_addr`. -/
def ipAddr : AddrReader IpAddr := fun text =>
  ((ipv4.run text).map fun (addr, rest) => (.v4 (BitVec.ofNat 32 addr), rest)).or
    ((ipv6.run text).map fun (addr, rest) => (.v6 (BitVec.ofNat 128 addr), rest))

/-- `read_port`. -/
def port : AddrReader ℕ := do
  given ':'
  number 10 65536 none true

/-- `read_scope_id`. -/
def scopeId : AddrReader ℕ := do
  given '%'
  number 10 (2 ^ 32) none true

/-- `read_socket_addr_v4` and `read_socket_addr_v6`, without what follows the address. -/
def socketAddr : AddrReader IpAddr := fun text =>
  let v4 : AddrReader IpAddr := do
    let addr ← ipv4
    let _ ← port
    pure (.v4 (BitVec.ofNat 32 addr))
  let v6 : AddrReader IpAddr := do
    given '['
    let addr ← ipv6
    let _ ← fun text => some ((scopeId.run text).getD (0, text))
    given ']'
    let _ ← port
    pure (.v6 (BitVec.ofNat 128 addr))
  (v4.run text).or (v6.run text)

/-- `parse_with`: all of the text. -/
def all {α : Type} (reader : AddrReader α) (text : List UInt8) : Option α :=
  (reader.run text).bind fun (a, rest) => if rest = [] then some a else none

end AddrReader

/-- `parse` of an entry. -/
def parseEntry (entry : List UInt8) : Option IpAddr :=
  ((AddrReader.ipAddr.all entry).or (AddrReader.socketAddr.all entry)).or
    (if entry.head? = some 91 then
      let inner := entry.tail
      if inner.getLast? = some 93 then AddrReader.ipAddr.all inner.dropLast else none
    else none)

/-- The bytes of a text in ASCII. -/
def ascii (text : String) : List UInt8 := text.toList.map fun c => UInt8.ofNat c.toNat

end Oxbrook
