import Oxbrook.Foundation.OrderedDict
import Oxbrook.Mcp.Message

/-!
# Which key checks a token

`_parse`, `KeySet.find` and `_pick` of `python/oxbrook/_jwks.py`.  A provider publishes a key set, a JSON document that
nobody has checked.  `_parse` keeps the entries that may sign tokens, under their key ids, and of two entries with one
key id the first.  `find` picks by the key id of the token, or takes the only key if the token names none, and then
compares what the key is for with the algorithm of the token.

`get_of_parse` says what `_parse` keeps.  The rule for tokens without a key id counts what is left after that, and a
document with two keys of one key id leaves one; `key_meant_iff` says in which documents a key is given as a guess.
What makes a key of an entry is a parameter.
-/

namespace Oxbrook

open PyStr

/-! ## Algorithms -/

inductive KeyType
  | rsa
  | ec
  | okp
  deriving DecidableEq

def KeyType.name : KeyType → String
  | rsa => "RSA"
  | ec => "EC"
  | okp => "OKP"

/-- `COMPATIBLE`: the key type of an algorithm, and the curves where it matters. -/
def compatibleKinds : List (String × KeyType × Option (List String)) :=
  [("RS256", .rsa, none), ("RS384", .rsa, none), ("RS512", .rsa, none),
   ("PS256", .rsa, none), ("PS384", .rsa, none), ("PS512", .rsa, none),
   ("ES256", .ec, some ["P-256"]), ("ES384", .ec, some ["P-384"]), ("ES512", .ec, some ["P-521"]),
   ("ES256K", .ec, some ["secp256k1"]), ("EdDSA", .okp, some ["Ed25519", "Ed448"])]

def compatible (alg : PyStr) : Option (KeyType × Option (List String)) :=
  (compatibleKinds.find? fun row => lit row.1 = alg).map Prod.snd

/-- `_ASYMMETRIC` of `auth.py`. -/
def asymmetric : List String :=
  ["RS256", "RS384", "RS512", "PS256", "PS384", "PS512", "ES256", "ES256K", "ES384", "ES512", "EdDSA"]

lemma compatible_of_mem {alg : PyStr} (h : alg ∈ compatibleKinds.map fun row => lit row.1) :
    (compatible alg).isSome = true := by
  obtain ⟨row, hrow, rfl⟩ := List.mem_map.mp h
  unfold compatible
  rw [Option.isSome_map, List.find?_isSome]
  exact ⟨row, hrow, decide_eq_true rfl⟩

/-- What may be configured can be checked. -/
lemma compatible_of_asymmetric {alg : PyStr} (h : alg ∈ asymmetric.map lit) : (compatible alg).isSome = true := by
  have hall : ∀ name ∈ asymmetric, name ∈ compatibleKinds.map Prod.fst := by decide +kernel
  obtain ⟨name, hname, rfl⟩ := List.mem_map.mp h
  obtain ⟨row, hrow, rfl⟩ := List.mem_map.mp (hall name hname)
  exact compatible_of_mem (List.mem_map_of_mem hrow)

/-! ## The key set -/

/-- Why a fetch does not store what it got. -/
inductive KeySetError
  /-- `ValueError`: there is no list of keys. -/
  | notKeySet
  /-- `TypeError`: a list or an object was looked up among the algorithms. -/
  | unhashable
  | noAlgorithm
  deriving DecidableEq

variable {φ κ : Type}

/-- An entry of a key set, as the members of its object. -/
abbrev KeyEntry (φ : Type) := List (PyStr × JsonValue φ)

namespace KeyEntry

/-- `jwk.get(name)`. -/
def get (jwk : KeyEntry φ) (name : String) : JsonValue φ := (jwk.lookup (lit name)).getD .null

/-- `jwk.get("use", "sig") == "sig"`. -/
def forSigning (jwk : KeyEntry φ) : Bool :=
  match jwk.lookup (lit "use") with
  | none => true
  | some use => use.isText "sig"

def keyType (jwk : KeyEntry φ) : Option KeyType :=
  [KeyType.rsa, .ec, .okp].find? fun kty => (jwk.get "kty").isText kty.name

/-- `key_ops` is no list without `verify`. -/
def mayVerify (jwk : KeyEntry φ) : Bool :=
  match jwk.get "key_ops" with
  | .arr operations => operations.any fun operation => operation.isText "verify"
  | _ => true

/-- `alg is None or alg in COMPATIBLE`. -/
def admitsAlg (jwk : KeyEntry φ) : Except KeySetError Bool :=
  match jwk.get "alg" with
  | .null => .ok true
  | .str alg => .ok (compatible alg).isSome
  | .arr _ | .obj _ => .error .unhashable
  | _ => .ok false

/-- The key id, which may be absent, if it is a text. -/
def kid (jwk : KeyEntry φ) : Option (Option PyStr) :=
  match jwk.get "kid" with
  | .null => some none
  | .str kid => some (some kid)
  | _ => none

end KeyEntry

/-- A key as `_parse` keeps it. -/
structure SigningKey (φ κ : Type) where
  kty : KeyType
  crv : JsonValue φ
  alg : JsonValue φ
  key : κ

abbrev SigningKeys (φ κ : Type) := OrderedDict (Option PyStr) (SigningKey φ κ)

section
variable (construct : KeyEntry φ → Option κ)

/-- One round of `_parse`.  `construct` is `jwt.PyJWK(jwk).key`, or nothing where that raises. -/
def keepEntry (keys : SigningKeys φ κ) (jwk : KeyEntry φ) : Except KeySetError (SigningKeys φ κ) :=
  match jwk.keyType with
  | none => .ok keys
  | some kty =>
    if ! jwk.forSigning || ! jwk.mayVerify then .ok keys
    else do
      let admitted ← jwk.admitsAlg
      match admitted, jwk.kid with
      | true, some kid =>
        if kid ∈ keys.keys then .ok keys
        else match construct jwk with
          | none => .ok keys
          | some key => .ok (keys.set kid ⟨kty, jwk.get "crv", jwk.get "alg", key⟩)
      | _, _ => .ok keys

def asEntry : JsonValue φ → Option (KeyEntry φ)
  | .obj jwk => some jwk
  | _ => none

/-- The entries of a document; what is no object is passed over. -/
def publishedEntries : JsonValue φ → Option (List (KeyEntry φ))
  | .obj document =>
    match KeyEntry.get document "keys" with
    | .arr items => some (items.filterMap asEntry)
    | _ => none
  | _ => none

/-- `_parse`, but for the fingerprint. -/
def parseKeySet (document : JsonValue φ) : Except KeySetError (SigningKeys φ κ) :=
  match publishedEntries document with
  | some entries => entries.foldlM (keepEntry construct) .empty
  | none => .error .notKeySet

/-! ### What is kept -/

/-- An entry that is a usable signing key. -/
def KeyEntry.usable (jwk : KeyEntry φ) : Bool :=
  jwk.keyType.isSome && jwk.forSigning && jwk.mayVerify && decide (jwk.admitsAlg.toOption = some true) &&
    jwk.kid.isSome && (construct jwk).isSome

/-- The key of an entry. -/
def KeyEntry.signingKey (jwk : KeyEntry φ) : Option (SigningKey φ κ) := do
  let kty ← jwk.keyType
  let key ← construct jwk
  some ⟨kty, jwk.get "crv", jwk.get "alg", key⟩

/-- The usable signing keys of a document. -/
def usableEntries (document : JsonValue φ) : List (KeyEntry φ) :=
  ((publishedEntries document).getD []).filter (KeyEntry.usable construct)

variable {construct}

lemma KeyEntry.usable_iff {jwk : KeyEntry φ} : jwk.usable construct = true ↔
    ∃ kty kid key, jwk.keyType = some kty ∧ jwk.forSigning = true ∧ jwk.mayVerify = true ∧ jwk.admitsAlg = .ok true ∧
      jwk.kid = some kid ∧ construct jwk = some key := by
  unfold usable
  simp only [Bool.and_eq_true, decide_eq_true_eq, Option.isSome_iff_exists]
  constructor
  · rintro ⟨⟨⟨⟨⟨⟨kty, hkty⟩, hfor⟩, hmay⟩, halg⟩, ⟨kid, hkid⟩⟩, ⟨key, hkey⟩⟩
    refine ⟨kty, kid, key, hkty, hfor, hmay, ?_, hkid, hkey⟩
    cases hadmits : jwk.admitsAlg with
    | error e =>
      rw [hadmits] at halg
      cases halg
    | ok b =>
      rw [hadmits] at halg
      rw [Option.some.inj halg]
  · rintro ⟨kty, kid, key, hkty, hfor, hmay, halg, hkid, hkey⟩
    exact ⟨⟨⟨⟨⟨⟨kty, hkty⟩, hfor⟩, hmay⟩, by rw [halg]; rfl⟩, ⟨kid, hkid⟩⟩, ⟨key, hkey⟩⟩

/-- A usable entry is kept under its key id, unless there is one of that key id. -/
lemma keepEntry_of_usable (keys : SigningKeys φ κ) {jwk : KeyEntry φ} (h : jwk.usable construct = true) :
    ∃ kid sk, jwk.kid = some kid ∧ jwk.signingKey construct = some sk ∧
      keepEntry construct keys jwk = .ok (if kid ∈ keys.keys then keys else keys.set kid sk) := by
  obtain ⟨kty, kid, key, hkty, hfor, hmay, halg, hkid, hkey⟩ := KeyEntry.usable_iff.mp h
  refine ⟨kid, ⟨kty, jwk.get "crv", jwk.get "alg", key⟩, hkid, ?_, ?_⟩
  · unfold KeyEntry.signingKey
    rw [hkty, hkey]
    rfl
  · unfold keepEntry
    simp only [hkty, hfor, hmay, halg, hkid, hkey, Bool.not_true, Bool.or_self, Bool.false_eq_true, if_false]
    change (if kid ∈ keys.keys then _ else _) = _
    split <;> rfl

/-- An entry that is not usable is passed over. -/
lemma keepEntry_of_not_usable {keys keys' : SigningKeys φ κ} {jwk : KeyEntry φ} (h : ¬ jwk.usable construct = true)
    (hk : keepEntry construct keys jwk = .ok keys') : keys' = keys := by
  unfold keepEntry at hk
  cases hkty : jwk.keyType with
  | none =>
    rw [hkty] at hk
    exact (Except.ok.inj hk).symm
  | some kty =>
    simp only [hkty] at hk
    split at hk
    · exact (Except.ok.inj hk).symm
    · rename_i hfilters
      cases halg : jwk.admitsAlg with
      | error e =>
        rw [halg] at hk
        cases hk
      | ok admitted =>
        rw [halg] at hk
        change (match admitted, jwk.kid with | true, some kid => _ | _, _ => _) = _ at hk
        split at hk
        · rename_i kid hkid
          split at hk
          · exact (Except.ok.inj hk).symm
          · split at hk
            · exact (Except.ok.inj hk).symm
            · rename_i key hkey
              have hsign : jwk.forSigning = true ∧ jwk.mayVerify = true := by
                simpa using hfilters
              exact absurd (KeyEntry.usable_iff.mpr ⟨kty, kid, key, hkty, hsign.1, hsign.2, halg, hkid, hkey⟩) h
        · exact (Except.ok.inj hk).symm

/-- The first usable entry of a key id. -/
def firstOf (construct : KeyEntry φ → Option κ) (entries : List (KeyEntry φ)) (kid : Option PyStr) :
    Option (KeyEntry φ) :=
  (entries.filter (KeyEntry.usable construct)).find? fun jwk => decide (jwk.kid = some kid)

/-- What the loop of `_parse` has kept under a key id. -/
lemma get_of_foldlM {entries : List (KeyEntry φ)} {keys keys' : SigningKeys φ κ}
    (h : entries.foldlM (keepEntry construct) keys = .ok keys') (kid : Option PyStr) :
    keys'.get kid = (keys.get kid).or ((firstOf construct entries kid).bind (KeyEntry.signingKey construct)) := by
  induction entries generalizing keys with
  | nil =>
    cases h
    exact Option.or_none.symm
  | cons jwk rest ih =>
    rw [List.foldlM_cons] at h
    by_cases husable : jwk.usable construct = true
    · obtain ⟨own, sk, hown, hsk, hkeep⟩ := keepEntry_of_usable keys husable
      rw [hkeep] at h
      rw [ih h]
      unfold firstOf
      rw [List.filter_cons_of_pos husable]
      by_cases hkid : own = kid
      · subst hkid
        rw [List.find?_cons_of_pos (by simpa using hown)]
        change _ = (keys.get own).or (jwk.signingKey construct)
        rw [hsk]
        by_cases hmem : own ∈ keys.keys
        · rw [if_pos hmem]
          cases hget : keys.get own with
          | none => exact absurd hmem (OrderedDict.get_eq_none_iff.mp hget)
          | some held => rfl
        · rw [if_neg hmem, OrderedDict.get_set_self, OrderedDict.get_eq_none_iff.mpr hmem]
          rfl
      · rw [List.find?_cons_of_neg (by rw [hown]; simpa using hkid)]
        have hget : (if own ∈ keys.keys then keys else keys.set own sk).get kid = keys.get kid := by
          split
          · rfl
          · exact OrderedDict.get_set_ne (Ne.symm hkid)
        rw [hget]
    · rw [show firstOf construct (jwk :: rest) kid = firstOf construct rest kid by
        unfold firstOf; rw [List.filter_cons_of_neg husable]]
      cases hkeep : keepEntry construct keys jwk with
      | error e =>
        rw [hkeep] at h
        cases h
      | ok next =>
        obtain rfl := keepEntry_of_not_usable husable hkeep
        rw [hkeep] at h
        exact ih h

/-- What `_parse` keeps under a key id is the first usable entry with it. -/
theorem get_of_parse {document : JsonValue φ} {keys : SigningKeys φ κ}
    (h : parseKeySet construct document = .ok keys) (kid : Option PyStr) :
    keys.get kid = ((usableEntries construct document).find? fun jwk => decide (jwk.kid = some kid)).bind
      (KeyEntry.signingKey construct) := by
  unfold parseKeySet at h
  unfold usableEntries
  cases hentries : publishedEntries document with
  | none =>
    rw [hentries] at h
    cases h
  | some entries =>
    rw [hentries] at h
    exact get_of_foldlM h kid

end

/-! ## Finding a key -/

/-- `_discover`, as far as it goes about algorithms: those configured, or those advertised that can be checked. -/
def discoverAlgorithms (configured : Option (List PyStr)) (advertised : JsonValue φ) :
    Except KeySetError (List PyStr) :=
  match configured, advertised with
  | some algorithms, _ => .ok algorithms
  | none, .arr items =>
    if items.any fun item => ! item.hashable then .error .unhashable
    else
      let algorithms := items.filterMap fun
        | .str alg => if (compatible alg).isSome then some alg else none
        | _ => none
      if algorithms = [] then .error .noAlgorithm else .ok algorithms
  | none, _ => .ok (compatibleKinds.map fun row => lit row.1)

/-- A document that a fetch stored the keys of. -/
structure FetchedKeys (construct : KeyEntry φ → Option κ) where
  document : JsonValue φ
  keys : SigningKeys φ κ
  parsed : parseKeySet construct document = .ok keys
  nonempty : keys.items ≠ []

/-- How `_start` goes, and the fetch that is waited for. -/
inductive FetchOutcome (construct : KeyEntry φ → Option κ)
  | notStarted
  | failed
  | fetched (f : FetchedKeys construct)

/-- What a call of `find` meets: the configuration, what is advertised, `self.algorithms` as the call reads it, the keys
in hand, how the fetches go that it waits for, and the keys in hand after the second of them failed. -/
structure KeyWorld (φ κ : Type) where
  construct : KeyEntry φ → Option κ
  configured : Option (List PyStr)
  configured_asymmetric : ∀ algorithms ∈ configured, ∀ alg ∈ algorithms, alg ∈ asymmetric.map lit
  advertised : JsonValue φ
  algorithms : List PyStr
  algorithms_read : algorithms = configured.getD [] ∨ discoverAlgorithms configured advertised = .ok algorithms
  held : Option (FetchedKeys construct)
  first : FetchOutcome construct
  again : FetchOutcome construct
  afterwards : Option (FetchedKeys construct)

/-- What `find` raises. -/
inductive FindError (φ : Type)
  | unavailable
  | algorithmRefused (alg : PyStr)
  | noKey (kid : Option PyStr)
  | otherType (alg : PyStr) (kty : KeyType)
  | otherAlgorithm (alg : PyStr) (own : JsonValue φ)
  /-- `KeyError`: the algorithm is not in the table. -/
  | unknownAlgorithm
  /-- `TypeError`: the curve is a list or an object. -/
  | unhashable

/-- `_pick`. -/
def pickKey (keys : SigningKeys φ κ) : Option PyStr → Option (SigningKey φ κ)
  | none => if keys.items.length = 1 then keys.items.head?.map Prod.snd else none
  | some kid => keys.get (some kid)

/-- `crv not in curves`, or the `TypeError` that it is. -/
def curveMeets (curves : Option (List String)) (crv : JsonValue φ) : Except (FindError φ) Bool :=
  match curves with
  | none => .ok true
  | some names => if crv.hashable then .ok (names.any fun name => crv.isText name) else .error .unhashable

/-- The end of `find`: a key is used only with its own kind. -/
def checkKind (alg : PyStr) (entry : SigningKey φ κ) : Except (FindError φ) κ :=
  match compatible alg with
  | none => .error .unknownAlgorithm
  | some (wanted, curves) =>
    if entry.kty ≠ wanted then .error (.otherType alg entry.kty)
    else match curveMeets curves entry.crv with
      | .error e => .error e
      | .ok false => .error (.otherType alg entry.kty)
      | .ok true =>
        match entry.alg with
        | .null => .ok entry.key
        | .str own => if own = alg then .ok entry.key else .error (.otherAlgorithm alg (.str own))
        | own => .error (.otherAlgorithm alg own)

namespace KeyWorld

variable (w : KeyWorld φ κ)

/-- The keys in hand, or those waited for. -/
def current : Option (FetchedKeys w.construct) :=
  match w.held, w.first with
  | some held, _ => some held
  | none, .fetched f => some f
  | none, _ => none

/-- The entry for a token: a key id that is unknown is looked for again. -/
def entryFor (current : FetchedKeys w.construct) (kid : Option PyStr) : Option (SigningKey φ κ) :=
  match pickKey current.keys kid, kid with
  | none, some kid =>
    match w.again with
    | .notStarted => none
    | .fetched f => pickKey f.keys (some kid)
    | .failed => w.afterwards.bind fun f => pickKey f.keys (some kid)
  | entry, _ => entry

/-- `KeySet.find`. -/
def find (kid : Option PyStr) (alg : PyStr) : Except (FindError φ) κ :=
  match w.current with
  | none => .error .unavailable
  | some current =>
    if alg ∉ w.algorithms then .error (.algorithmRefused alg)
    else match w.entryFor current kid with
      | none => .error (.noKey kid)
      | some entry => checkKind alg entry

end KeyWorld

/-! ## What is promised -/

/-- The type and the curve of an entry suit an algorithm, and it names no other. -/
structure KeyEntry.Suits (jwk : KeyEntry φ) (alg : PyStr) : Prop where
  kind : ∃ kty curves, compatible alg = some (kty, curves) ∧ jwk.get "kty" = .str (lit kty.name) ∧
    ∀ names ∈ curves, ∃ name ∈ names, jwk.get "crv" = .str (lit name)
  own : jwk.get "alg" = .null ∨ jwk.get "alg" = .str alg

/-- An entry is a signing key that is meant for tokens with that key id and algorithm.  What is no list of operations
forbids none. -/
structure KeyEntry.MeantFor (jwk : KeyEntry φ) (kid : Option PyStr) (alg : PyStr) : Prop where
  use : ∀ use, jwk.lookup (lit "use") = some use → use = .str (lit "sig")
  operations : ∀ operations, jwk.get "key_ops" = .arr operations → .str (lit "verify") ∈ operations
  suits : jwk.Suits alg
  named : ∀ name, kid = some name → jwk.get "kid" = .str name

namespace KeyWorld

variable (w : KeyWorld φ κ)

/-- A public-key algorithm that is configured, or else advertised if the provider says which ones it uses. -/
def Accepted (alg : PyStr) : Prop :=
  (compatible alg).isSome = true ∧
    match w.configured, w.advertised with
    | some algorithms, _ => alg ∈ algorithms
    | none, .arr items => .str alg ∈ items
    | none, _ => True

/-- A document that `find` takes the keys of: the one in hand or waited for, or else, for an unknown key id, what is
there after looking again. -/
def InUse (kid : Option PyStr) (f : FetchedKeys w.construct) : Prop :=
  w.current = some f ∨ kid.isSome = true ∧ (w.again = .fetched f ∨ w.afterwards = some f)

/-- A key is meant for a token: it is made of a published entry that is, and the only usable one where the token names
no key id. -/
def Meant (kid : Option PyStr) (alg : PyStr) (key : κ) : Prop :=
  w.Accepted alg ∧ ∃ f, w.InUse kid f ∧ ∃ entries, publishedEntries f.document = some entries ∧ ∃ jwk ∈ entries,
    w.construct jwk = some key ∧ jwk.MeantFor kid alg ∧ (kid = none → usableEntries w.construct f.document = [jwk])

/-- The document of the keys in use has several usable keys, all of one key id, and the first of them suits an accepted
algorithm. -/
def Guesses : Prop :=
  ∃ f, w.current = some f ∧ 2 ≤ (usableEntries w.construct f.document).length ∧
    (∀ jwk ∈ usableEntries w.construct f.document, ∀ jwk' ∈ usableEntries w.construct f.document, jwk.kid = jwk'.kid) ∧
    ∃ jwk ∈ (usableEntries w.construct f.document).head?, ∃ alg ∈ w.algorithms, jwk.Suits alg

end KeyWorld

/-! ## Which entry a key is made of -/

namespace JsonValue

lemma isText_iff {value : JsonValue φ} {text : String} : value.isText text = true ↔ value = .str (lit text) := by
  cases value with
  | str s => simp [isText]
  | null | bool b | int n | float x | arr items | obj members => simp [isText]

end JsonValue

lemma isText_name (kty kty' : KeyType) :
    (JsonValue.str (lit kty.name) : JsonValue φ).isText kty'.name = decide (kty = kty') := by
  have hname : lit kty.name = lit kty'.name ↔ kty = kty' := by
    cases kty <;> cases kty' <;> decide +kernel
  unfold JsonValue.isText
  exact decide_eq_decide.mpr hname

lemma KeyEntry.keyType_eq_some {jwk : KeyEntry φ} {kty : KeyType} :
    jwk.keyType = some kty ↔ jwk.get "kty" = .str (lit kty.name) := by
  unfold keyType
  generalize jwk.get "kty" = value
  constructor
  · intro h
    have htext := List.find?_some h
    exact JsonValue.isText_iff.mp htext
  · rintro rfl
    simp only [isText_name]
    cases kty <;> rfl

section
variable {construct : KeyEntry φ → Option κ}

lemma mem_usableEntries {document : JsonValue φ} {jwk : KeyEntry φ} (h : jwk ∈ usableEntries construct document) :
    ∃ entries, publishedEntries document = some entries ∧ jwk ∈ entries ∧ jwk.usable construct = true := by
  unfold usableEntries at h
  obtain ⟨hmem, husable⟩ := List.mem_filter.mp h
  cases hentries : publishedEntries document with
  | none =>
    rw [hentries] at hmem
    cases hmem
  | some entries =>
    rw [hentries] at hmem
    exact ⟨entries, rfl, hmem, husable⟩

lemma signingKey_eq_some {jwk : KeyEntry φ} {entry : SigningKey φ κ} (h : jwk.signingKey construct = some entry) :
    jwk.get "kty" = .str (lit entry.kty.name) ∧ entry.crv = jwk.get "crv" ∧ entry.alg = jwk.get "alg" ∧
      construct jwk = some entry.key := by
  unfold KeyEntry.signingKey at h
  obtain ⟨kty, hkty, h⟩ := Option.bind_eq_some_iff.mp h
  obtain ⟨key, hkey, h⟩ := Option.bind_eq_some_iff.mp h
  obtain rfl := Option.some.inj h
  exact ⟨KeyEntry.keyType_eq_some.mp hkty, rfl, rfl, hkey⟩

lemma curveMeets_eq_ok {curves : Option (List String)} {crv : JsonValue φ} :
    curveMeets curves crv = .ok true ↔ ∀ names ∈ curves, ∃ name ∈ names, crv = .str (lit name) := by
  cases curves with
  | none => exact iff_of_true rfl nofun
  | some names =>
    constructor
    · intro h names' hnames
      obtain rfl := Option.some.inj hnames
      change (if crv.hashable then _ else _) = _ at h
      split at h
      · obtain ⟨name, hname, htext⟩ := List.any_eq_true.mp (Except.ok.inj h)
        exact ⟨name, hname, JsonValue.isText_iff.mp htext⟩
      · cases h
    · intro h
      obtain ⟨name, hname, rfl⟩ := h names rfl
      have hany : (names.any fun name' => (JsonValue.str (lit name) : JsonValue φ).isText name') = true :=
        List.any_eq_true.mpr ⟨name, hname, JsonValue.isText_iff.mpr rfl⟩
      exact congrArg Except.ok hany

/-- The check at the end of `find`, of a key as it is kept. -/
lemma checkKind_eq_ok {jwk : KeyEntry φ} {entry : SigningKey φ κ} (h : jwk.signingKey construct = some entry)
    {alg : PyStr} {key : κ} : checkKind alg entry = .ok key ↔ entry.key = key ∧ jwk.Suits alg := by
  obtain ⟨hkty, hcrv, halg, -⟩ := signingKey_eq_some h
  unfold checkKind
  constructor
  · intro hok
    split at hok
    · cases hok
    · rename_i wanted curves hkind
      split at hok
      · cases hok
      · rename_i hsame
        split at hok
        · cases hok
        · cases hok
        · rename_i hmet
          have hkinds : ∃ kty curves, compatible alg = some (kty, curves) ∧ jwk.get "kty" = .str (lit kty.name) ∧
              ∀ names ∈ curves, ∃ name ∈ names, jwk.get "crv" = .str (lit name) := by
            refine ⟨wanted, curves, hkind, ?_, ?_⟩
            · rw [hkty, not_not.mp hsame]
            · rw [← hcrv]
              exact curveMeets_eq_ok.mp hmet
          split at hok
          · rename_i hown
            exact ⟨Except.ok.inj hok, hkinds, .inl (halg ▸ hown)⟩
          · rename_i own hown
            split at hok
            · rename_i heq
              exact ⟨Except.ok.inj hok, hkinds, .inr (by rw [← halg, hown, heq])⟩
            · cases hok
          · cases hok
  · rintro ⟨rfl, ⟨kty, curves, hkind, hkty', hcurves⟩, hown⟩
    have hsame : entry.kty = kty :=
      Option.some.inj ((KeyEntry.keyType_eq_some.mpr hkty).symm.trans (KeyEntry.keyType_eq_some.mpr hkty'))
    have hmet : curveMeets curves entry.crv = .ok true := by
      rw [hcrv]
      exact curveMeets_eq_ok.mpr hcurves
    rw [hkind]
    dsimp only
    rw [if_neg (not_not.mpr hsame), hmet]
    dsimp only
    rcases hown with hown | hown
    · rw [halg, hown]
    · rw [halg, hown]
      exact if_pos rfl

/-- What a usable entry says of itself. -/
lemma meantFor_of_usable {jwk : KeyEntry φ} (h : jwk.usable construct = true) {kid : Option PyStr} {alg : PyStr}
    (suits : jwk.Suits alg) (named : ∀ name, kid = some name → jwk.kid = some (some name)) : jwk.MeantFor kid alg := by
  obtain ⟨kty, own, key, -, hfor, hmay, -, hown, -⟩ := KeyEntry.usable_iff.mp h
  constructor
  · intro use huse
    unfold KeyEntry.forSigning at hfor
    rw [huse] at hfor
    exact JsonValue.isText_iff.mp hfor
  · intro operations hoperations
    unfold KeyEntry.mayVerify at hmay
    rw [hoperations] at hmay
    obtain ⟨operation, hmem, htext⟩ := List.any_eq_true.mp hmay
    rw [← JsonValue.isText_iff.mp htext]
    exact hmem
  · exact suits
  · intro name hname
    have hkid := named name hname
    unfold KeyEntry.kid at hkid
    split at hkid
    · cases hkid
    · rename_i text heq
      rw [heq, Option.some.inj (Option.some.inj hkid)]
    · cases hkid

end

namespace KeyWorld

variable {w : KeyWorld φ κ}

/-- An algorithm in the set that `find` reads is accepted. -/
lemma accepted_of_mem {alg : PyStr} (h : alg ∈ w.algorithms) : w.Accepted alg := by
  have hsaid : ∀ algorithms, w.configured = some algorithms → alg ∈ algorithms → w.Accepted alg := by
    intro algorithms hconfigured hmem
    unfold Accepted
    rw [hconfigured]
    exact ⟨compatible_of_asymmetric (w.configured_asymmetric algorithms hconfigured alg hmem), hmem⟩
  cases hconfigured : w.configured with
  | some algorithms =>
    apply hsaid algorithms hconfigured
    rcases w.algorithms_read with hread | hread
    · rw [hread, hconfigured] at h
      exact h
    · rw [hconfigured] at hread
      rw [← Except.ok.inj hread] at h
      exact h
  | none =>
    have hread : discoverAlgorithms none w.advertised = .ok w.algorithms := by
      rcases w.algorithms_read with hread | hread
      · rw [hread, hconfigured] at h
        cases h
      · rw [hconfigured] at hread
        exact hread
    unfold Accepted
    rw [hconfigured]
    cases hadvertised : w.advertised with
    | arr items =>
      rw [hadvertised] at hread
      unfold discoverAlgorithms at hread
      dsimp only at hread
      split at hread
      · cases hread
      · split at hread
        · cases hread
        · rw [← Except.ok.inj hread] at h
          obtain ⟨item, hitem, heq⟩ := List.mem_filterMap.mp h
          split at heq
          · obtain ⟨hkind, heq⟩ := Option.ite_none_right_eq_some.mp heq
            obtain rfl := Option.some.inj heq
            exact ⟨hkind, hitem⟩
          · cases heq
    | null | bool b | int n | float x | str s | obj members =>
      rw [hadvertised] at hread
      rw [← Except.ok.inj hread] at h
      exact ⟨compatible_of_mem h, trivial⟩

/-- Every usable entry has a key id, and a key under it. -/
lemma exists_of_usable {f : FetchedKeys w.construct} {jwk : KeyEntry φ}
    (h : jwk ∈ usableEntries w.construct f.document) :
    ∃ kid, jwk.kid = some kid ∧ (f.keys.get kid).isSome = true := by
  obtain ⟨-, -, -, husable⟩ := mem_usableEntries h
  obtain ⟨kid, -, hkid, -, -⟩ := keepEntry_of_usable f.keys husable
  refine ⟨kid, hkid, ?_⟩
  rw [get_of_parse f.parsed kid]
  have hfound :
      ((usableEntries w.construct f.document).find? fun jwk => decide (jwk.kid = some kid)).isSome = true := by
    rw [List.find?_isSome]
    exact ⟨jwk, h, decide_eq_true hkid⟩
  obtain ⟨first, hfirst⟩ := Option.isSome_iff_exists.mp hfound
  obtain ⟨-, -, -, hfirst'⟩ := mem_usableEntries (List.mem_of_find?_eq_some hfirst)
  obtain ⟨-, sk, -, hsk, -⟩ := keepEntry_of_usable f.keys hfirst'
  rw [hfirst]
  exact Option.isSome_iff_exists.mpr ⟨sk, hsk⟩

/-- What is kept under a key id is the key of a usable entry with it. -/
lemma entry_of_get {f : FetchedKeys w.construct} {kid : Option PyStr} {entry : SigningKey φ κ}
    (h : f.keys.get kid = some entry) : ∃ jwk ∈ usableEntries w.construct f.document,
      jwk.signingKey w.construct = some entry ∧ jwk.kid = some kid := by
  rw [get_of_parse f.parsed] at h
  obtain ⟨jwk, hfind, hsign⟩ := Option.bind_eq_some_iff.mp h
  have hkid := List.find?_some hfind
  exact ⟨jwk, List.mem_of_find?_eq_some hfind, hsign, of_decide_eq_true hkid⟩

/-- A set of one: all usable entries have one key id, and the first of them is taken. -/
lemma pickKey_none_iff {f : FetchedKeys w.construct} {entry : SigningKey φ κ} :
    pickKey f.keys none = some entry ↔
      (∀ jwk ∈ usableEntries w.construct f.document, ∀ jwk' ∈ usableEntries w.construct f.document,
        jwk.kid = jwk'.kid) ∧
      ∃ jwk ∈ (usableEntries w.construct f.document).head?, jwk.signingKey w.construct = some entry := by
  have hpick : pickKey f.keys none = some entry ↔ ∃ kid, f.keys.items = [(kid, entry)] := by
    unfold pickKey
    constructor
    · intro h
      obtain ⟨hlength, h⟩ := Option.ite_none_right_eq_some.mp h
      obtain ⟨⟨kid, entry'⟩, hitems⟩ := List.length_eq_one_iff.mp hlength
      rw [hitems] at h
      obtain rfl := Option.some.inj h
      exact ⟨kid, hitems⟩
    · rintro ⟨kid, hitems⟩
      rw [hitems]
      rfl
  rw [hpick]
  constructor
  · rintro ⟨kid, hitems⟩
    obtain ⟨hget, hother⟩ := OrderedDict.items_eq_singleton_iff.mp hitems
    have hall : ∀ jwk ∈ usableEntries w.construct f.document, jwk.kid = some kid := by
      intro jwk hjwk
      obtain ⟨own, hown, hsome⟩ := exists_of_usable hjwk
      by_cases heq : own = kid
      · rw [hown, heq]
      · rw [hother own heq] at hsome
        cases hsome
    refine ⟨fun jwk hjwk jwk' hjwk' => (hall jwk hjwk).trans (hall jwk' hjwk').symm, ?_⟩
    rw [get_of_parse f.parsed] at hget
    obtain ⟨jwk, hfind, hsign⟩ := Option.bind_eq_some_iff.mp hget
    refine ⟨jwk, ?_, hsign⟩
    cases husable : usableEntries w.construct f.document with
    | nil =>
      rw [husable] at hfind
      cases hfind
    | cons first rest =>
      rw [husable, List.find?_cons_of_pos] at hfind
      · exact hfind
      · exact decide_eq_true (hall first (by rw [husable]; exact List.mem_cons_self))
  · rintro ⟨hsame, jwk, hhead, hsign⟩
    have hmem := List.mem_of_mem_head? hhead
    obtain ⟨kid, hkid, -⟩ := exists_of_usable hmem
    refine ⟨kid, OrderedDict.items_eq_singleton_iff.mpr ⟨?_, ?_⟩⟩
    · rw [get_of_parse f.parsed]
      cases husable : usableEntries w.construct f.document with
      | nil =>
        rw [husable] at hhead
        cases hhead
      | cons first rest =>
        rw [husable] at hhead
        obtain rfl := Option.some.inj hhead
        rw [List.find?_cons_of_pos (by simpa using hkid)]
        exact hsign
    · intro other hne
      cases hget : f.keys.get other with
      | none => rfl
      | some entry' =>
        obtain ⟨jwk', hmem', -, hother⟩ := entry_of_get hget
        have heq := hsame jwk hmem jwk' hmem'
        rw [hkid, hother] at heq
        exact absurd (Option.some.inj heq).symm hne

/-- Where the entry comes from that `find` checks. -/
lemma entryFor_cases {current : FetchedKeys w.construct} (hcurrent : w.current = some current) {kid : Option PyStr}
    {entry : SigningKey φ κ} (h : w.entryFor current kid = some entry) :
    (kid = none ∧ pickKey current.keys none = some entry) ∨
      ∃ name f, kid = some name ∧ w.InUse kid f ∧ f.keys.get (some name) = some entry := by
  cases kid with
  | none =>
    refine .inl ⟨rfl, ?_⟩
    unfold entryFor at h
    split at h
    · rename_i heq
      cases heq
    · exact h
  | some name =>
    refine .inr ⟨name, ?_⟩
    unfold entryFor at h
    cases hpick : pickKey current.keys (some name) with
    | some picked =>
      rw [hpick] at h
      obtain rfl := Option.some.inj h
      exact ⟨current, rfl, .inl hcurrent, hpick⟩
    | none =>
      rw [hpick] at h
      dsimp only at h
      split at h
      · cases h
      · rename_i f hagain
        exact ⟨f, rfl, .inr ⟨rfl, .inl hagain⟩, h⟩
      · obtain ⟨f, hafterwards, hget⟩ := Option.bind_eq_some_iff.mp h
        exact ⟨f, rfl, .inr ⟨rfl, .inr hafterwards⟩, hget⟩

/-- What it takes for `find` to return a key. -/
lemma find_eq_ok {kid : Option PyStr} {alg : PyStr} {key : κ} : w.find kid alg = .ok key ↔
    ∃ current entry, w.current = some current ∧ alg ∈ w.algorithms ∧ w.entryFor current kid = some entry ∧
      checkKind alg entry = .ok key := by
  unfold find
  constructor
  · intro h
    split at h
    · cases h
    · rename_i current hcurrent
      split at h
      · cases h
      · rename_i hmem
        split at h
        · cases h
        · rename_i entry hentry
          exact ⟨current, entry, hcurrent, not_not.mp hmem, hentry, h⟩
  · rintro ⟨current, entry, hcurrent, hmem, hentry, hcheck⟩
    rw [hcurrent]
    dsimp only
    rw [if_neg (not_not.mpr hmem), hentry]
    exact hcheck

/-- **When a token is only ever checked with a key that is meant for it.**  Unless the document in use has several
usable keys of one key id. -/
theorem key_meant_iff (w : KeyWorld φ κ) :
    (∀ kid alg key, w.find kid alg = .ok key → w.Meant kid alg key) ↔ ¬ w.Guesses := by
  constructor
  · rintro hmeant ⟨f, hcurrent, htwo, hsame, jwk, hhead, alg, halg, hsuits⟩
    obtain ⟨-, -, -, husable⟩ := mem_usableEntries (List.mem_of_mem_head? hhead)
    obtain ⟨-, entry, -, hsign, -⟩ := keepEntry_of_usable f.keys husable
    have hpick : pickKey f.keys none = some entry := pickKey_none_iff.mpr ⟨hsame, jwk, hhead, hsign⟩
    have hentry : w.entryFor f none = some entry := by
      unfold entryFor
      rw [hpick]
    have hfind : w.find none alg = .ok entry.key :=
      find_eq_ok.mpr ⟨f, entry, hcurrent, halg, hentry, (checkKind_eq_ok hsign).mpr ⟨rfl, hsuits⟩⟩
    obtain ⟨-, f', huse, -, -, only, -, -, -, honly⟩ := hmeant none alg entry.key hfind
    obtain hcurrent' | ⟨hnone, -⟩ := huse
    · obtain rfl := Option.some.inj (hcurrent.symm.trans hcurrent')
      rw [honly rfl] at htwo
      simp at htwo
    · cases hnone
  · intro hguesses kid alg key hfind
    obtain ⟨current, entry, hcurrent, halg, hentry, hcheck⟩ := find_eq_ok.mp hfind
    refine ⟨accepted_of_mem halg, ?_⟩
    obtain ⟨rfl, hpick⟩ | ⟨name, f, rfl, huse, hget⟩ := entryFor_cases hcurrent hentry
    · obtain ⟨hsame, jwk, hhead, hsign⟩ := pickKey_none_iff.mp hpick
      obtain ⟨entries, hentries, hmem, husable⟩ := mem_usableEntries (List.mem_of_mem_head? hhead)
      obtain ⟨rfl, hsuits⟩ := (checkKind_eq_ok hsign).mp hcheck
      obtain ⟨-, -, -, hkey⟩ := signingKey_eq_some hsign
      refine ⟨current, .inl hcurrent, entries, hentries, jwk, hmem, hkey, meantFor_of_usable husable hsuits nofun, ?_⟩
      intro _
      have hshort : ¬ 2 ≤ (usableEntries w.construct current.document).length := fun htwo =>
        hguesses ⟨current, hcurrent, htwo, hsame, jwk, hhead, alg, halg, hsuits⟩
      obtain ⟨rest, hrest⟩ := List.head?_eq_some_iff.mp hhead
      rw [hrest] at hshort ⊢
      have hnil : rest = [] := by
        rw [List.length_cons] at hshort
        exact List.length_eq_zero_iff.mp (by omega)
      rw [hnil]
    · obtain ⟨jwk, hjwk, hsign, hkid⟩ := entry_of_get hget
      obtain ⟨entries, hentries, hmem, husable⟩ := mem_usableEntries hjwk
      obtain ⟨rfl, hsuits⟩ := (checkKind_eq_ok hsign).mp hcheck
      obtain ⟨-, -, -, hkey⟩ := signingKey_eq_some hsign
      refine ⟨f, huse, entries, hentries, jwk, hmem, hkey, ?_, nofun⟩
      apply meantFor_of_usable husable hsuits
      intro name' hname
      rw [hkid, hname]

/-- Two keys that the provider gave no key id. -/
def twoWithoutId : JsonValue Unit :=
  let entry (n : ℤ) : JsonValue Unit := .obj [(lit "kty", .str (lit "RSA")), (lit "n", .int n)]
  .obj [(lit "keys", .arr [entry 1, entry 2])]

/-- The key of an entry is its modulus. -/
def modulus (jwk : KeyEntry Unit) : Option ℤ :=
  match jwk.get "n" with
  | .int n => some n
  | _ => none

/-- A provider with two keys, in hand. -/
def ofTwins : KeyWorld Unit ℤ where
  construct := modulus
  configured := none
  configured_asymmetric := nofun
  advertised := .null
  algorithms := compatibleKinds.map fun row => lit row.1
  algorithms_read := .inr rfl
  held := some ⟨twoWithoutId, ⟨[(none, ⟨.rsa, .null, .null, 1⟩)], List.nodup_singleton none⟩, rfl, nofun⟩
  first := .notStarted
  again := .notStarted
  afterwards := none

theorem guessed : ¬ ∀ kid alg key, ofTwins.find kid alg = .ok key → ofTwins.Meant kid alg key := by
  intro hmeant
  have hfind : ofTwins.find none (lit "RS256") = .ok 1 := rfl
  obtain ⟨-, f, huse, -, -, only, -, -, -, honly⟩ := hmeant none (lit "RS256") 1 hfind
  obtain hcurrent | ⟨hnone, -⟩ := huse
  · obtain rfl := Option.some.inj hcurrent
    have hlength : (usableEntries modulus twoWithoutId).length = 2 := rfl
    have hone : usableEntries modulus twoWithoutId = [only] := honly rfl
    rw [hone] at hlength
    cases hlength
  · cases hnone

end KeyWorld

end Oxbrook
