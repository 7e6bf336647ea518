import Oxbrook.Limits.AddressText
import Oxbrook.Limits.Proxies

/-!
# Which networks are trusted

`proxies` of `python/oxbrook/_limits.py` takes networks as Python's `ipaddress` reads them and passes on the text of
each network address and its prefix length; `Proxies::build` of `src/limit.rs` reads the texts, and `trusts` compares
prefixes.  `trusts` takes an IPv4 address written as IPv6 for that IPv4 address, but a network written so stays a
network of IPv6, to which no address then belongs.
-/

namespace Oxbrook

/-! ## Networks of Python -/

/-- What `ip_network` reads: an address, whatever its host bits and zone, and the length of a prefix. -/
inductive PyNetwork
  | v4 (address : BitVec 32) (prefixlen : ℕ) (le : prefixlen ≤ 32)
  | v6 (address : BitVec 128) (zone : Option (List UInt8)) (prefixlen : ℕ) (le : prefixlen ≤ 128)

namespace PyNetwork

/-- `_ip_int_from_prefix`. -/
def netmask (width prefixlen : ℕ) : BitVec width := BitVec.allOnes width ^^^ BitVec.allOnes width >>> prefixlen

def prefixlen : PyNetwork → ℕ
  | v4 _ len _ => len
  | v6 _ _ len _ => len

/-- `network_address` of `ip_network(entry, strict=False)`. -/
def networkAddress : PyNetwork → IpAddr
  | v4 address len _ => .v4 (address &&& netmask 32 len)
  | v6 address _ len _ => .v6 (address &&& netmask 128 len)

/-- Its zone, which is lost with host bits. -/
def networkZone : PyNetwork → Option (List UInt8)
  | v4 .. => none
  | v6 address zone len _ => if address &&& netmask 128 len = address then zone else none

/-- `str(network.network_address)`. -/
def addressText (net : PyNetwork) : List UInt8 :=
  net.networkAddress.str ++ (net.networkZone.map fun zone => 37 :: zone).getD []

/-- `address in network`. -/
def contains (net : PyNetwork) (ip : IpAddr) : Bool :=
  match net.networkAddress, ip with
  | .v4 n, .v4 a => a &&& netmask 32 net.prefixlen = n
  | .v6 n, .v6 a => a &&& netmask 128 net.prefixlen = n
  | _, _ => false

end PyNetwork

/-- `App(trusted_proxies=...)`. -/
inductive TrustedProxies
  | unset
  | hops (n : ℤ)
  | networks (networks : List PyNetwork)

/-- `proxies`: the number of hops and the networks. -/
def TrustedProxies.proxies : TrustedProxies → Except String (ℕ × List (List UInt8 × ℕ))
  | unset => .ok (0, [])
  | hops n => if n < 1 then .error "trusted_proxies as a number must be at least 1" else .ok (n.toNat, [])
  | networks nets => .ok (0, nets.map fun net => (net.addressText, net.prefixlen))

namespace Proxies

/-- One network of `build`. -/
def readNetwork : List UInt8 × ℕ → Except (List UInt8) (IpAddr × ℕ)
  | (text, len) =>
    match AddrReader.ipAddr.all text with
    | some ip => .ok (ip, len)
    | .none => .error text

/-- `Proxies::build`; the error names the text that is no address. -/
def build : ℕ × List (List UInt8 × ℕ) → Except (List UInt8) Proxies
  | (n, nets) =>
    if 0 < n then .ok (.hops n)
    else if nets = [] then .ok .none
    else (nets.mapM readNetwork).map .networks

end Proxies

/-! ## Addresses that are the same -/

/-- An IPv4 address written as IPv6 is that IPv4 address. -/
def IpAddr.canonical : IpAddr → IpAddr
  | .v4 addr => .v4 addr
  | .v6 addr => ((toIpv4Mapped addr).map IpAddr.v4).getD (.v6 addr)

/-- The address belongs to a network, in one form or the other. -/
def PyNetwork.Covers (net : PyNetwork) (ip : IpAddr) : Prop :=
  ∃ form : IpAddr, form.canonical = ip.canonical ∧ net.contains form = true

/-- An IPv4 address that only networks of IPv6 cover. -/
def CoveredAsIpv6 (nets : List PyNetwork) (ip : IpAddr) : Prop :=
  ∃ addr, ip.canonical = .v4 addr ∧ (∃ net ∈ nets, net.Covers ip) ∧ ∀ net ∈ nets, net.contains (.v4 addr) = false

/-! ## Masks -/

section Masks

variable {width len : ℕ}

lemma getLsbD_netmask (width len : ℕ) {j : ℕ} (hj : j < width) :
    (PyNetwork.netmask width len).getLsbD j = decide (width ≤ len + j) := by
  rw [PyNetwork.netmask, BitVec.getLsbD_xor, BitVec.getLsbD_ushiftRight, BitVec.getLsbD_allOnes,
    BitVec.getLsbD_allOnes]
  by_cases hle : width ≤ len + j
  · simp [hj, hle]
  · have hlt : len + j < width := by omega
    simp [hj, hle, hlt]

/-- The mask built by shifts, also at the ends. -/
lemma prefixMask_eq_netmask (le : len ≤ width) : prefixMask width len = PyNetwork.netmask width len := by
  apply BitVec.eq_of_getLsbD_eq
  intro j hj
  rw [getLsbD_netmask width len hj, prefixMask]
  by_cases hpos : 0 < len
  · rw [if_pos ⟨hpos, le⟩, BitVec.getLsbD_shiftLeft, BitVec.getLsbD_allOnes]
    by_cases hle : width ≤ len + j
    · have hnot : ¬ j < width - len := by omega
      have hlt : j - (width - len) < width := by omega
      simp [hj, hle, hnot, hlt]
    · have hlt : j < width - len := by omega
      simp [hle, hlt]
  · have hnot : ¬ width ≤ len + j := by omega
    rw [if_neg fun h => hpos h.1]
    simp [hnot]

/-- A network address has no host bits. -/
lemma and_prefixMask_eq (le : len ≤ width) (n a : BitVec width) :
    (n &&& PyNetwork.netmask width len) &&& prefixMask width len = a &&& prefixMask width len ↔
      a &&& PyNetwork.netmask width len = n &&& PyNetwork.netmask width len := by
  rw [prefixMask_eq_netmask le, BitVec.and_assoc, BitVec.and_self]
  exact eq_comm

end Masks

/-! ## Reading -/

/-- A network is read as it is, unless it has kept its zone. -/
lemma readNetwork_addressText (net : PyNetwork) :
    Proxies.readNetwork (net.addressText, net.prefixlen) =
      if net.networkZone = none then .ok (net.networkAddress, net.prefixlen) else .error net.addressText := by
  cases hzone : net.networkZone with
  | none =>
    have htext : net.addressText = net.networkAddress.str := by
      rw [PyNetwork.addressText, hzone]
      exact List.append_nil _
    simp only [Proxies.readNetwork, htext, AddrReader.all_str, if_true]
  | some zone =>
    have htext : net.addressText = net.networkAddress.str ++ 37 :: zone := by
      rw [PyNetwork.addressText, hzone]
      rfl
    simp only [Proxies.readNetwork, htext, AddrReader.all_str_zone, reduceCtorEq, if_false]

/-- The server starts if no network has kept its zone, and then it has the networks that were given. -/
lemma mapM_readNetwork (entries : List PyNetwork) :
    ((∀ net ∈ entries, net.networkZone = none) ∧
      (entries.map fun net => (net.addressText, net.prefixlen)).mapM Proxies.readNetwork =
        .ok (entries.map fun net => (net.networkAddress, net.prefixlen))) ∨
    ∃ text, (entries.map fun net => (net.addressText, net.prefixlen)).mapM Proxies.readNetwork = .error text := by
  induction entries with
  | nil => exact .inl ⟨by simp, rfl⟩
  | cons net entries ih =>
    rw [List.map_cons, List.mapM_cons, readNetwork_addressText]
    by_cases hzone : net.networkZone = none
    · rw [if_pos hzone]
      obtain ⟨hzones, hrest⟩ | ⟨text, hrest⟩ := ih
      · rw [hrest]
        exact .inl ⟨List.forall_mem_cons.mpr ⟨hzone, hzones⟩, rfl⟩
      · rw [hrest]
        exact .inr ⟨text, rfl⟩
    · rw [if_neg hzone]
      exact .inr ⟨net.addressText, rfl⟩

lemma build_eq {entries : List PyNetwork} (hne : entries ≠ []) :
    Proxies.build (0, entries.map fun net => (net.addressText, net.prefixlen)) =
      ((entries.map fun net => (net.addressText, net.prefixlen)).mapM Proxies.readNetwork).map .networks := by
  have hmap : (entries.map fun net => (net.addressText, net.prefixlen)) ≠ [] := by simpa using hne
  rw [Proxies.build, if_neg (Nat.lt_irrefl 0), if_neg hmap]

lemma networks_of_build {entries : List PyNetwork} {nets : List (IpAddr × ℕ)}
    (built : Proxies.build (0, entries.map fun net => (net.addressText, net.prefixlen)) = .ok (.networks nets)) :
    nets = entries.map fun net => (net.networkAddress, net.prefixlen) := by
  obtain rfl | hne := eq_or_ne entries []
  · exact nomatch built
  · rw [build_eq hne] at built
    obtain ⟨-, hread⟩ | ⟨text, hread⟩ := mapM_readNetwork entries
    · rw [hread] at built
      exact (Proxies.networks.inj (Except.ok.inj built)).symm
    · rw [hread] at built
      exact nomatch built

lemma build_of_zoneless {entries : List PyNetwork} (hne : entries ≠ [])
    (zoneless : ∀ net ∈ entries, net.networkZone = none) :
    Proxies.build (0, entries.map fun net => (net.addressText, net.prefixlen)) =
      .ok (.networks (entries.map fun net => (net.networkAddress, net.prefixlen))) := by
  have hread : (entries.map fun net => (net.addressText, net.prefixlen)).mapM Proxies.readNetwork =
      .ok (entries.map fun net => (net.networkAddress, net.prefixlen)) := by
    clear hne
    induction entries with
    | nil => rfl
    | cons net entries ih =>
      obtain ⟨hzone, hzones⟩ := List.forall_mem_cons.mp zoneless
      rw [List.map_cons, List.mapM_cons, readNetwork_addressText, if_pos hzone, ih hzones]
      rfl
  rw [build_eq hne, hread]
  rfl

/-! ## Membership -/

/-- The comparison of a network with an address in its own form. -/
lemma trusts_eq (nets : List (IpAddr × ℕ)) (ip : IpAddr) :
    Proxies.trusts nets ip = nets.any fun p =>
      match p.1, ip.canonical with
      | .v4 n, .v4 a => decide (n &&& prefixMask 32 p.2 = a &&& prefixMask 32 p.2)
      | .v6 n, .v6 a => decide (n &&& prefixMask 128 p.2 = a &&& prefixMask 128 p.2)
      | _, _ => false := by
  cases ip <;> rfl

/-- `trusts` asks for a network that the address, as an IPv4 address if it is one, belongs to. -/
lemma trusts_iff (entries : List PyNetwork) (ip : IpAddr) :
    Proxies.trusts (entries.map fun net => (net.networkAddress, net.prefixlen)) ip = true ↔
      ∃ net ∈ entries, net.contains ip.canonical = true := by
  rw [trusts_eq, List.any_map, List.any_eq_true]
  refine exists_congr fun net => and_congr_right fun _ => ?_
  cases net with
  | v4 address len le =>
    cases ip.canonical with
    | v4 a =>
      simp only [Function.comp_apply, PyNetwork.networkAddress, PyNetwork.contains, PyNetwork.prefixlen,
        decide_eq_true_eq]
      exact (and_prefixMask_eq le address a).trans decide_eq_true_iff.symm
    | v6 a => simp [PyNetwork.networkAddress, PyNetwork.contains]
  | v6 address zone len le =>
    cases ip.canonical with
    | v4 a => simp [PyNetwork.networkAddress, PyNetwork.contains]
    | v6 a =>
      simp only [Function.comp_apply, PyNetwork.networkAddress, PyNetwork.contains, PyNetwork.prefixlen,
        decide_eq_true_eq]
      exact (and_prefixMask_eq le address a).trans decide_eq_true_iff.symm

lemma canonical_canonical (ip : IpAddr) : ip.canonical.canonical = ip.canonical := by
  cases ip with
  | v4 addr => rfl
  | v6 addr =>
    simp only [IpAddr.canonical]
    cases hmapped : toIpv4Mapped addr with
    | none =>
      change IpAddr.canonical (.v6 addr) = _
      simp [IpAddr.canonical, hmapped]
    | some mapped => rfl

lemma PyNetwork.covers_of_contains {net : PyNetwork} {ip : IpAddr} (h : net.contains ip.canonical = true) :
    net.Covers ip := ⟨ip.canonical, canonical_canonical ip, h⟩

/-- An address of IPv6 that is no IPv4 address has one form. -/
lemma PyNetwork.contains_of_covers {net : PyNetwork} {ip : IpAddr} {addr : BitVec 128}
    (hip : ip.canonical = .v6 addr) (h : net.Covers ip) : net.contains ip.canonical = true := by
  obtain ⟨form, hform, hcontains⟩ := h
  have hsame : form = ip.canonical := by
    rw [← hform]
    cases form with
    | v4 a => exact nomatch hform.trans hip
    | v6 a =>
      simp only [IpAddr.canonical] at hform ⊢
      cases hmapped : toIpv4Mapped a with
      | none => rfl
      | some mapped =>
        rw [hmapped] at hform
        exact nomatch hform.trans hip
  rwa [← hsame]

/-- **Trusted networks.**  For every list of networks of which a server is made, and every address: it is trusted
just if it belongs to one of them, if and only if it is not an IPv4 address that only networks of IPv6 cover. -/
theorem trusted_networks_iff {entries : List PyNetwork} {passed : ℕ × List (List UInt8 × ℕ)}
    {nets : List (IpAddr × ℕ)} (accepted : (TrustedProxies.networks entries).proxies = .ok passed)
    (built : Proxies.build passed = .ok (.networks nets)) (ip : IpAddr) :
    (Proxies.trusts nets ip = true ↔ ∃ net ∈ entries, net.Covers ip) ↔ ¬ CoveredAsIpv6 entries ip := by
  obtain rfl := Except.ok.inj accepted
  rw [networks_of_build built, trusts_iff]
  constructor
  · rintro h ⟨addr, hip, hcovers, hnone⟩
    obtain ⟨net, hnet, hcontains⟩ := h.mpr hcovers
    rw [hip, hnone net hnet] at hcontains
    exact nomatch hcontains
  · intro h
    constructor
    · rintro ⟨net, hnet, hcontains⟩
      exact ⟨net, hnet, PyNetwork.covers_of_contains hcontains⟩
    · intro hcovers
      cases hip : ip.canonical with
      | v6 addr =>
        obtain ⟨net, hnet, hnetCovers⟩ := hcovers
        exact ⟨net, hnet, hip ▸ PyNetwork.contains_of_covers hip hnetCovers⟩
      | v4 addr =>
        by_contra hnone
        refine h ⟨addr, hip, hcovers, fun net hnet => ?_⟩
        exact Bool.eq_false_of_not_eq_true fun hcontains => hnone ⟨net, hnet, hcontains⟩

/-- `10.0.0.0/8` holds `10.1.2.3`, also where that is written as IPv6. -/
theorem trusted_networks_ten :
    let entries := [PyNetwork.v4 0x0a000001 8 (by decide)]
    Proxies.trusts [(.v4 0x0a000000, 8)] (.v6 0xffff0a010203) = true ↔
      ∃ net ∈ entries, net.Covers (.v6 0xffff0a010203) := by
  intro entries
  have hbuilt := build_of_zoneless (show entries ≠ [] from List.cons_ne_nil _ _)
    (by simp [entries, PyNetwork.networkZone])
  refine (trusted_networks_iff rfl hbuilt _).mpr ?_
  rintro ⟨addr, hip, -, hnone⟩
  obtain rfl : addr = 0x0a010203 := IpAddr.v4.inj (hip.symm.trans (by decide +kernel))
  exact absurd (hnone _ (List.mem_singleton_self _)) (by decide +kernel)

/-- `::ffff:10.0.0.0/104` is accepted, and holds `::ffff:10.1.2.3` for Python, but no address is trusted for it. -/
theorem mapped_network_ignored :
    let entries := [PyNetwork.v6 0xffff0a000000 none 104 (by decide)]
    (∃ passed nets, (TrustedProxies.networks entries).proxies = .ok passed ∧
      Proxies.build passed = .ok (.networks nets) ∧ Proxies.trusts nets (.v6 0xffff0a010203) = false) ∧
    ∃ net ∈ entries, net.contains (.v6 0xffff0a010203) = true := by
  intro entries
  have hbuilt := build_of_zoneless (show entries ≠ [] from List.cons_ne_nil _ _)
    (by simp [entries, PyNetwork.networkZone])
  exact ⟨⟨_, _, rfl, hbuilt, by decide +kernel⟩, _, List.mem_singleton_self _, by decide +kernel⟩

end Oxbrook
