import Oxbrook.Foundation.Delimited
import Oxbrook.Limits.Proxies

/-!
# Who shares a budget

`Limit::write_key`, `write_principal` and `Material` of `src/limit.rs`.  A limit is keyed on the values of a header,
on the client or on the caller that `auth=` found, and what identifies it is written, piece by piece, into a hasher:
a seeded one in memory, and for Redis one that keeps the bytes.

`Caller` says who is meant.  `keys_identify_callers` says that the bytes are equal for the same caller only.
-/

namespace Oxbrook

open Delimited

/-! ## What is written -/

/-- `Hasher`: `write`, on which the other methods rest. -/
structure KeyHasher (σ : Type*) where
  write : σ → List UInt8 → σ

namespace KeyHasher

variable {σ : Type*} (out : KeyHasher σ)

/-- `write_u8`. -/
def writeU8 (s : σ) (b : UInt8) : σ := out.write s [b]

/-- `Material`. -/
def material : KeyHasher (List UInt8) where
  write s bytes := s ++ bytes

end KeyHasher

/-- `as_bytes` of a text. -/
def utf8 (text : String) : List UInt8 := text.toByteArray.data.toList

lemma utf8_inj {a b : String} : utf8 a = utf8 b ↔ a = b := by
  rw [utf8, utf8, ← String.toByteArray_inj]
  constructor
  · intro h
    exact ByteArray.ext (Array.toList_inj.mp h)
  · intro h
    rw [h]

/-- The name of a scheme. -/
structure SchemeName where
  name : String
  noNul : 0 ∉ utf8 name

section Write

variable {σ : Type*} (out : KeyHasher σ)

/-- `Limit::write_key`, into any hasher. -/
def LimitKey.writeInto (key : LimitKey) (client : Option IpAddr) (headers : HeaderMap) (s : σ) : σ :=
  let byClient :=
    match client.map grouped with
    | some ip => out.write (out.writeU8 s 0) (octets ip)
    | none => out.writeU8 s 0
  match key with
  | .header name =>
    if headers.containsKey name then
      (headers.getAll name).foldl (fun s value => out.writeU8 (out.write s value.bytes) 0) (out.writeU8 s 1)
    else byClient
  | _ => byClient

/-- `write_principal`. -/
def writePrincipal (scheme : SchemeName) (subject : String) (s : σ) : σ :=
  out.write (out.writeU8 (out.write (out.writeU8 s 2) (utf8 scheme.name)) 0) (utf8 subject)

/-- What a request is keyed on under a limit: itself, or the caller that a gate found. -/
inductive Keyed
  | request (client : Option IpAddr) (headers : HeaderMap)
  | principal (scheme : SchemeName) (subject : String)

/-- `write_key` or `write_principal`. -/
def Keyed.writeInto (key : LimitKey) (s : σ) : Keyed → σ
  | .request client headers => key.writeInto out client headers s
  | .principal scheme subject => writePrincipal out scheme subject s

end Write

/-- `shared_key` and `shared_principal_key`. -/
def Keyed.sharedKey (key : LimitKey) (keyed : Keyed) : List UInt8 := keyed.writeInto .material key []

/-! ## Who is meant -/

/-- The clients that count as one: an IPv4 address, also where it is written as IPv6; the first half of an IPv6
address; those without an address. -/
inductive ClientGroup
  | ipv4 (addr : BitVec 32)
  | ipv6 (net : BitVec 64)
  | unknown
  deriving DecidableEq

def ClientGroup.of : Option IpAddr → ClientGroup
  | none => .unknown
  | some (.v4 addr) => .ipv4 addr
  | some (.v6 addr) =>
    match toIpv4Mapped addr with
    | some mapped => .ipv4 mapped
    | none => .ipv6 (addr.extractLsb' 64 64)

inductive Caller
  | headerValues (values : List (List UInt8))
  | client (group : ClientGroup)
  | principal (scheme subject : String)
  deriving DecidableEq

/-- The caller under a limit. -/
def Keyed.caller (key : LimitKey) : Keyed → Caller
  | .request client headers =>
    match key with
    | .header name =>
      if headers.containsKey name then .headerValues ((headers.getAll name).map HeaderValue.bytes)
      else .client (.of client)
    | _ => .client (.of client)
  | .principal scheme subject => .principal scheme.name subject

/-! ## Pieces -/

section Pieces

variable {σ : Type*} {out : KeyHasher σ} {key : LimitKey} {s : σ}

/-- The pieces that are written for a request or a caller. -/
def Keyed.pieces (key : LimitKey) : Keyed → List (List UInt8)
  | .request client headers =>
    let byClient := [0] :: (client.map fun ip => octets (grouped ip)).toList
    match key with
    | .header name =>
      if headers.containsKey name then
        [1] :: (headers.getAll name).flatMap fun value => [value.bytes, [0]]
      else byClient
    | _ => byClient
  | .principal scheme subject => [[2], utf8 scheme.name, [0], utf8 subject]

lemma flatten_values (values : List HeaderValue) :
    (values.flatMap fun value => [value.bytes, [0]]).flatten = values.flatMap fun value => value.bytes ++ [0] := by
  induction values with
  | nil => rfl
  | cons value values ih =>
    rw [List.flatMap_cons, List.flatMap_cons, List.flatten_append, ih]
    simp

lemma foldl_values (values : List HeaderValue) (s : σ) :
    values.foldl (fun s value => out.writeU8 (out.write s value.bytes) 0) s =
      (values.flatMap fun value => [value.bytes, [0]]).foldl out.write s := by
  induction values generalizing s with
  | nil => rfl
  | cons value values ih =>
    rw [List.foldl_cons, ih, List.flatMap_cons, List.foldl_append]
    rfl

/-- Every hasher is given the same pieces. -/
lemma Keyed.writeInto_eq (keyed : Keyed) : keyed.writeInto out key s = (keyed.pieces key).foldl out.write s := by
  cases keyed with
  | principal scheme subject => rfl
  | request client headers =>
    have hclient : (match client.map grouped with
        | some ip => out.write (out.writeU8 s 0) (octets ip)
        | none => out.writeU8 s 0) =
          ([0] :: (client.map fun ip => octets (grouped ip)).toList).foldl out.write s := by
      cases client <;> rfl
    cases key with
    | client => exact hclient
    | principal => exact hclient
    | header name =>
      simp only [Keyed.writeInto, LimitKey.writeInto, Keyed.pieces]
      split
      · exact foldl_values _ _
      · exact hclient

lemma Keyed.sharedKey_eq (key : LimitKey) (keyed : Keyed) : keyed.sharedKey key = (keyed.pieces key).flatten := by
  have hfold : (keyed.pieces key).foldl KeyHasher.material.write [] = [] ++ (keyed.pieces key).flatten :=
    streams_append.foldl_eq _ _
  rw [sharedKey, writeInto_eq, hfold, List.nil_append]

/-- The bytes of a request are those that `LimitKey.writeKey` gives. -/
lemma Keyed.sharedKey_request (client : Option IpAddr) (headers : HeaderMap) :
    (Keyed.request client headers).sharedKey key = key.writeKey client headers := by
  have hclient : ([0] :: (client.map fun ip => octets (grouped ip)).toList).flatten =
      0 :: ((client.map grouped).map octets).getD [] := by
    cases client <;> simp
  rw [sharedKey_eq]
  cases key with
  | client => exact hclient
  | principal => exact hclient
  | header name =>
    simp only [pieces, LimitKey.writeKey]
    split
    · rw [List.flatten_cons, flatten_values]
      rfl
    · exact hclient

end Pieces

/-! ## Addresses -/

/-- The bytes of a number, the highest first. -/
lemma bytes_inj {w : ℕ} {n : ℕ} (whole : w = 8 * n) {a b : BitVec w}
    (h : ((List.range n).map fun i => UInt8.ofNat (a >>> (8 * (n - 1 - i))).toNat) =
      (List.range n).map fun i => UInt8.ofNat (b >>> (8 * (n - 1 - i))).toNat) : a = b := by
  apply BitVec.eq_of_getLsbD_eq
  intro j hj
  -- bit `j` is a bit of byte `j / 8` from the right
  have hbyte := List.map_inj_left.mp h (n - 1 - j / 8) (List.mem_range.mpr (by omega))
  have hindex : n - 1 - (n - 1 - j / 8) = j / 8 := by omega
  rw [hindex] at hbyte
  have hmod : (a >>> (8 * (j / 8))).toNat % 2 ^ 8 = (b >>> (8 * (j / 8))).toNat % 2 ^ 8 := by
    have hnat := congrArg UInt8.toNat hbyte
    simpa using hnat
  have hbit := congrArg (fun n => n.testBit (j % 8)) hmod
  have hlow : j % 8 < 8 := Nat.mod_lt _ (by decide)
  have hsplit : 8 * (j / 8) + j % 8 = j := Nat.div_add_mod j 8
  simp only [Nat.testBit_mod_two_pow, hlow, decide_true, Bool.true_and, BitVec.testBit_toNat,
    BitVec.getLsbD_ushiftRight, hsplit] at hbit
  exact hbit

lemma length_octets (ip : IpAddr) : (octets ip).length = match ip with | .v4 _ => 4 | .v6 _ => 16 := by
  cases ip <;> simp [octets]

lemma octets_inj {a b : IpAddr} : octets a = octets b ↔ a = b := by
  constructor
  · intro h
    have hlength := congrArg List.length h
    rw [length_octets, length_octets] at hlength
    cases a with
    | v4 a =>
      cases b with
      | v4 b => exact congrArg IpAddr.v4 (bytes_inj (n := 4) rfl h)
      | v6 b =>
        have hlengths : 4 = 16 := hlength
        omega
    | v6 a =>
      cases b with
      | v4 b =>
        have hlengths : 16 = 4 := hlength
        omega
      | v6 b => exact congrArg IpAddr.v6 (bytes_inj (n := 16) rfl h)
  · exact congrArg octets

/-- The first half, with zeros behind it. -/
lemma firstHalf_inj {a b : BitVec 128} :
    a >>> 64 <<< 64 = b >>> 64 <<< 64 ↔ a.extractLsb' 64 64 = b.extractLsb' 64 64 := by
  constructor
  · intro h
    apply BitVec.eq_of_getLsbD_eq
    intro j hj
    have hbit := congrArg (fun v => v.getLsbD (64 + j)) h
    have hlow : ¬ 64 + j < 64 := by omega
    have hhigh : 64 + j < 128 := by omega
    have hback : 64 + (64 + j - 64) = 64 + j := by omega
    simpa [BitVec.getLsbD_shiftLeft, BitVec.getLsbD_ushiftRight, BitVec.getLsbD_extractLsb', hj, hlow, hhigh,
      hback] using hbit
  · intro h
    apply BitVec.eq_of_getLsbD_eq
    intro j hj
    by_cases hlow : j < 64
    · simp [hlow]
    · have hbit := congrArg (fun v => v.getLsbD (j - 64)) h
      have hsmall : j - 64 < 64 := by omega
      simpa [BitVec.getLsbD_shiftLeft, BitVec.getLsbD_ushiftRight, BitVec.getLsbD_extractLsb', hj, hlow,
        hsmall] using hbit

lemma grouped_inj {a b : IpAddr} : grouped a = grouped b ↔ ClientGroup.of (some a) = ClientGroup.of (some b) := by
  have hv6 : ∀ addr : BitVec 128, (toIpv4Mapped addr = none ∧
      grouped (.v6 addr) = .v6 (addr >>> 64 <<< 64) ∧
        ClientGroup.of (some (.v6 addr)) = .ipv6 (addr.extractLsb' 64 64)) ∨
      ∃ mapped, grouped (.v6 addr) = .v4 mapped ∧ ClientGroup.of (some (.v6 addr)) = .ipv4 mapped := by
    intro addr
    simp only [grouped, ClientGroup.of]
    cases toIpv4Mapped addr with
    | none => exact .inl ⟨rfl, rfl, rfl⟩
    | some mapped => exact .inr ⟨mapped, rfl, rfl⟩
  have hv4 : ∀ addr : BitVec 32, grouped (.v4 addr) = .v4 addr ∧
      ClientGroup.of (some (.v4 addr)) = .ipv4 addr := fun addr => ⟨rfl, rfl⟩
  -- either a mapped address, as an IPv4 address is, or the first half of another
  have hboth : ∀ ip : IpAddr, (∃ addr, grouped ip = .v4 addr ∧ ClientGroup.of (some ip) = .ipv4 addr) ∨
      ∃ addr : BitVec 128, grouped ip = .v6 (addr >>> 64 <<< 64) ∧
        ClientGroup.of (some ip) = .ipv6 (addr.extractLsb' 64 64) := by
    intro ip
    cases ip with
    | v4 addr => exact .inl ⟨addr, hv4 addr⟩
    | v6 addr =>
      obtain ⟨-, hnet⟩ | hmapped := hv6 addr
      · exact .inr ⟨addr, hnet⟩
      · exact .inl hmapped
  obtain ⟨x, hga, hoa⟩ | ⟨x, hga, hoa⟩ := hboth a <;> obtain ⟨y, hgb, hob⟩ | ⟨y, hgb, hob⟩ := hboth b <;>
    rw [hga, hoa, hgb, hob]
  · rw [IpAddr.v4.injEq, ClientGroup.ipv4.injEq]
  · exact ⟨nofun, nofun⟩
  · exact ⟨nofun, nofun⟩
  · rw [IpAddr.v6.injEq, ClientGroup.ipv6.injEq, firstHalf_inj]

/-- The bytes of the client. -/
def clientBytes (client : Option IpAddr) : List UInt8 := ((client.map grouped).map octets).getD []

lemma octets_ne_nil (ip : IpAddr) : octets ip ≠ [] := by
  cases ip <;> simp [octets]

/-- What is written for a client says its group. -/
lemma clientBytes_inj {a b : Option IpAddr} :
    clientBytes a = clientBytes b ↔ ClientGroup.of a = ClientGroup.of b := by
  have hsome : ∀ ip, ClientGroup.of (some ip) ≠ .unknown := by
    intro ip
    cases ip with
    | v4 addr => nofun
    | v6 addr =>
      simp only [ClientGroup.of]
      split <;> nofun
  cases a with
  | none =>
    cases b with
    | none => exact ⟨fun _ => rfl, fun _ => rfl⟩
    | some b => exact ⟨fun h => absurd h.symm (octets_ne_nil _), fun h => absurd h.symm (hsome b)⟩
  | some a =>
    cases b with
    | none => exact ⟨fun h => absurd h (octets_ne_nil _), fun h => absurd h (hsome a)⟩
    | some b => exact octets_inj.trans grouped_inj

/-! ## Keys -/

lemma HeaderValue.noNul (v : HeaderValue) : 0 ∉ v.bytes := fun h => absurd (v.valid 0 h) (by decide)

lemma values_inj {values values' : List HeaderValue} :
    (values.flatMap fun value => value.bytes ++ [0]) = (values'.flatMap fun value => value.bytes ++ [0]) ↔
      values.map HeaderValue.bytes = values'.map HeaderValue.bytes := by
  have hfree : ∀ values : List HeaderValue, ∀ w ∈ values.map HeaderValue.bytes, 0 ∉ w := by
    intro values w hw
    obtain ⟨value, -, rfl⟩ := List.mem_map.mp hw
    exact value.noNul
  rw [← flatMap_mark_inj (hfree values) (hfree values'), List.flatMap_map, List.flatMap_map]

lemma principal_inj {scheme scheme' : SchemeName} {subject subject' : String} :
    utf8 scheme.name ++ 0 :: utf8 subject = utf8 scheme'.name ++ 0 :: utf8 subject' ↔
      scheme.name = scheme'.name ∧ subject = subject' := by
  rw [append_mark_inj scheme.noNul scheme'.noNul, utf8_inj, utf8_inj]

/-- The bytes written, by the class of the key. -/
lemma Keyed.sharedKey_cases (key : LimitKey) (keyed : Keyed) :
    (∃ client, keyed.sharedKey key = 0 :: clientBytes client ∧ keyed.caller key = .client (.of client)) ∨
    (∃ values : List HeaderValue, keyed.sharedKey key = 1 :: (values.flatMap fun value => value.bytes ++ [0]) ∧
      keyed.caller key = .headerValues (values.map HeaderValue.bytes)) ∨
    ∃ (scheme : SchemeName) (subject : String), keyed.sharedKey key = 2 :: (utf8 scheme.name ++ 0 :: utf8 subject) ∧
      keyed.caller key = .principal scheme.name subject := by
  cases keyed with
  | principal scheme subject =>
    refine .inr (.inr ⟨scheme, subject, ?_, rfl⟩)
    rw [sharedKey_eq]
    simp [pieces]
  | request client headers =>
    rw [sharedKey_request]
    cases key with
    | client => exact .inl ⟨client, rfl, rfl⟩
    | principal => exact .inl ⟨client, rfl, rfl⟩
    | header name =>
      simp only [LimitKey.writeKey, caller]
      split
      · exact .inr (.inl ⟨headers.getAll name, rfl, rfl⟩)
      · exact .inl ⟨client, rfl, rfl⟩

/-- **Keys identify callers.**  Under any limit, the bytes written for two requests or callers are equal if and only
if the same caller is meant; and a hasher in memory is given, piece by piece, the bytes that are shared through
Redis. -/
theorem keys_identify_callers (key : LimitKey) (a b : Keyed) :
    (a.sharedKey key = b.sharedKey key ↔ a.caller key = b.caller key) ∧
      ∃ pieces : List (List UInt8), pieces.flatten = a.sharedKey key ∧
        ∀ {σ : Type} (out : KeyHasher σ) (s : σ), a.writeInto out key s = pieces.foldl out.write s := by
  refine ⟨?_, a.pieces key, (a.sharedKey_eq key).symm, fun out s => a.writeInto_eq⟩
  obtain ⟨x, hax, hac⟩ | ⟨x, hax, hac⟩ | ⟨x, xs, hax, hac⟩ := a.sharedKey_cases key <;>
    obtain ⟨y, hby, hbc⟩ | ⟨y, hby, hbc⟩ | ⟨y, ys, hby, hbc⟩ := b.sharedKey_cases key <;>
    rw [hax, hac, hby, hbc]
  -- the same class of key, with the same or another caller
  case inl.inl => rw [List.cons.injEq, Caller.client.injEq, clientBytes_inj, and_iff_right rfl]
  case inr.inl.inr.inl => rw [List.cons.injEq, Caller.headerValues.injEq, values_inj, and_iff_right rfl]
  case inr.inr.inr.inr => rw [List.cons.injEq, Caller.principal.injEq, principal_inj, and_iff_right rfl]
  -- two classes
  all_goals
    constructor
    · intro h
      exact absurd (List.cons.inj h).1 (by decide)
    · exact nofun

end Oxbrook
