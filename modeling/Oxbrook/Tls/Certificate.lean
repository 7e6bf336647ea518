import Mathlib.Data.List.Basic
import Mathlib.Data.Nat.Notation
import Oxbrook.Foundation.Runs

/-!
# The certificate in use

`src/tls.rs`: the pair of files a server is started with, and the looks at them that pick up a
renewed pair.  The files are written at any time by others.  A look takes the stamps of both files,
compares them with those of the pair in use and of the last pair that failed to load, reads the
certificate, reads the key, makes a pair of them, and then replaces the pair in use and what it has
seen.  Each of these is a step of its own, and so is each write; looking at a file or reading it may
fail at any time, and what is read from a file that is written meanwhile may be anything.

The first look is `acceptor`, which has nothing to compare with and makes the certificate.  `watch`
starts a look only when the one before has come to its end.

`refresh_law` says what handshakes are given and when a look brings the files' pair into use.  What
stands in the way is a failure that was remembered under the stamps the files still have; as long as
no file is given a stamp it had before (`Anew`), it is the only thing that does.
-/

namespace Oxbrook

namespace Tls

open StepMachine

/-! ## Loading a pair -/

/-- What `rustls_pki_types` and `rustls` are asked for: the certificates in a PEM file, the private
key in one, and the pair of both if the key belongs to the first certificate. -/
structure TlsLibrary (δ κ γ : Type*) where
  certificates : List UInt8 → Except String (List δ)
  privateKey : List UInt8 → Except String κ
  fromDer : List δ → κ → Except String γ

variable {δ κ γ τ : Type*}

/-- The first half of `load`, on what reading the certificate came to. -/
def loadChain (lib : TlsLibrary δ κ γ) (cert : String) (certRead : Except String (List UInt8)) :
    Except String (List δ) :=
  ((certRead.bind lib.certificates).mapError fun e => s!"reading the certificate {cert}: {e}").bind
    fun chain => if chain.isEmpty then .error s!"no certificate found in {cert}" else .ok chain

/-- The second half of `load`, on what reading the key came to. -/
def loadKey (lib : TlsLibrary δ κ γ) (cert key : String) (chain : List δ)
    (keyRead : Except String (List UInt8)) : Except String γ :=
  ((keyRead.bind lib.privateKey).mapError fun e => s!"reading the key {key}: {e}").bind
    fun secret => (lib.fromDer chain secret).mapError
      fun e => s!"the key {key} does not fit the certificate {cert}: {e}"

/-- `load`. -/
def load (lib : TlsLibrary δ κ γ) (cert key : String)
    (certRead keyRead : Except String (List UInt8)) : Except String γ :=
  (loadChain lib cert certRead).bind fun chain => loadKey lib cert key chain keyRead

/-! ## Files and looks -/

/-- `Stamp`: a file's modification time and length, `none` if it could not be looked at. -/
abbrev Stamp (τ : Type*) := Option (τ × ℕ)

/-- `Stamps`: the certificate's stamp and the key's. -/
abbrev Stamps (τ : Type*) := Stamp τ × Stamp τ

/-- One of the two files, with the stamps it had before each write. -/
structure WatchedFile (τ : Type*) where
  content : List UInt8
  modified : τ
  past : List (τ × ℕ)

/-- `Seen`: the stamps of the pair in use, and of the last pair that failed to load. -/
structure Seen (τ : Type*) where
  used : Stamps τ
  failed : Option (Stamps τ)

/-- `Certificate`: the pair every new handshake gets, and what was seen of the files. -/
structure Certificate (τ γ : Type*) where
  current : γ
  seen : Seen τ

/-- Where `acceptor` or `refresh` stands. -/
inductive Look (τ δ γ : Type*)
  | rest
  | statted (cert : Stamp τ)
  | stamped (stamps : Stamps τ)
  -- the file is open, and had been written that many times when it was opened
  | readingCert (stamps : Stamps τ) (opened : ℕ)
  | readingKey (stamps : Stamps τ) (chain : List δ) (opened : ℕ)
  | loaded (stamps : Stamps τ) (result : Except String γ)
  -- `current` is replaced, `seen` is about to be
  | stored (stamps : Stamps τ)
  -- `acceptor` has returned an error
  | refused (message : String)

/-- The two files, the certificate once `acceptor` has made it, and the look under way. -/
structure TlsState (τ δ γ : Type*) where
  cert : WatchedFile τ
  key : WatchedFile τ
  certificate : Option (Certificate τ γ)
  look : Look τ δ γ

/-- One step: a write of one of the files, or a step of the look. -/
inductive TlsAction (τ : Type*)
  | writeCert (content : List UInt8) (modified : τ)
  | writeKey (content : List UInt8) (modified : τ)
  -- `readable` says whether the file's metadata could be had
  | statCert (readable : Bool)
  | statKey (readable : Bool)
  | compare
  | readCert (read : Except String (List UInt8))
  | readKey (read : Except String (List UInt8))
  | store
  | remember

namespace WatchedFile

/-- What `metadata` says of the file. -/
def stamp (f : WatchedFile τ) : τ × ℕ := (f.modified, f.content.length)

/-- The file after a write. -/
def write (f : WatchedFile τ) (content : List UInt8) (modified : τ) : WatchedFile τ where
  content := content
  modified := modified
  past := f.stamp :: f.past

/-- Reading a file that was opened after its `opened`-th write may come to `read`: a failure, what
the file holds, or anything if the file was written since. -/
def mayRead (f : WatchedFile τ) (opened : ℕ) : Except String (List UInt8) → Bool
  | .ok bytes => opened ≠ f.past.length ∨ bytes = f.content
  | .error _ => true

/-- A change of the content changes the stamp. -/
def tells [DecidableEq τ] (f : WatchedFile τ) (content : List UInt8) (modified : τ) : Bool :=
  content = f.content ∨ (f.write content modified).stamp ≠ f.stamp

end WatchedFile

/-- Whether `refresh` has nothing to do for these stamps. -/
def Seen.skips [DecidableEq τ] (seen : Seen τ) (stamps : Stamps τ) : Bool :=
  seen.used = stamps ∨ seen.failed = some stamps

/-- The pair the look's end leaves in use: `acceptor` makes the certificate or fails, `refresh`
replaces the pair or remembers the failure. -/
def TlsState.store (s : TlsState τ δ γ) (stamps : Stamps τ) (result : Except String γ) :
    TlsState τ δ γ :=
  match s.certificate, result with
  | none, .ok pair =>
    { s with certificate := some { current := pair, seen := { used := stamps, failed := none } },
             look := .rest }
  | none, .error message => { s with look := .refused message }
  | some c, .ok pair =>
    { s with certificate := some { c with current := pair }, look := .stored stamps }
  | some c, .error _ =>
    { s with certificate := some { c with seen := { c.seen with failed := some stamps } },
             look := .rest }

namespace TlsState

/-- A server about to be started. -/
def new (cert key : WatchedFile τ) : TlsState τ δ γ where
  cert := cert
  key := key
  certificate := none
  look := .rest

variable [DecidableEq τ]

/-- The step function, for a certificate and a key at the paths `cert` and `key`. -/
def step (lib : TlsLibrary δ κ γ) (cert key : String) (s : TlsState τ δ γ) :
    TlsAction τ → Option (TlsState τ δ γ)
  | .writeCert content modified =>
    if s.cert.tells content modified then some { s with cert := s.cert.write content modified }
    else none
  | .writeKey content modified =>
    if s.key.tells content modified then some { s with key := s.key.write content modified }
    else none
  | .statCert readable =>
    match s.look with
    | .rest => some { s with look := .statted (if readable then some s.cert.stamp else none) }
    | _ => none
  | .statKey readable =>
    match s.look with
    | .statted stamp =>
      some { s with look := .stamped (stamp, if readable then some s.key.stamp else none) }
    | _ => none
  | .compare =>
    match s.look with
    | .stamped stamps =>
      if s.certificate.any fun c => c.seen.skips stamps then some { s with look := .rest }
      else some { s with look := .readingCert stamps s.cert.past.length }
    | _ => none
  | .readCert read =>
    match s.look with
    | .readingCert stamps opened =>
      if s.cert.mayRead opened read then
        match loadChain lib cert read with
        | .ok chain => some { s with look := .readingKey stamps chain s.key.past.length }
        | .error e => some { s with look := .loaded stamps (.error e) }
      else none
    | _ => none
  | .readKey read =>
    match s.look with
    | .readingKey stamps chain opened =>
      if s.key.mayRead opened read then
        some { s with look := .loaded stamps (loadKey lib cert key chain read) }
      else none
    | _ => none
  | .store =>
    match s.look with
    | .loaded stamps result => some (s.store stamps result)
    | _ => none
  | .remember =>
    match s.look, s.certificate with
    | .stored stamps, some c =>
      some { s with
        certificate := some { c with seen := { used := stamps, failed := none } }
        look := .rest }
    | _, _ => none

/-- `Certificate::resolve`: what a handshake is given, once the server accepts any. -/
def resolve (s : TlsState τ δ γ) : Option γ := s.certificate.map Certificate.current

end TlsState

/-! ## What one step does -/

section Steps

variable [DecidableEq τ] {lib : TlsLibrary δ κ γ} {cert key : String} {s s' : TlsState τ δ γ}
  {a : TlsAction τ}

/-- What a step can do, case by case. -/
inductive Taken (lib : TlsLibrary δ κ γ) (cert key : String) (s : TlsState τ δ γ) :
    TlsAction τ → TlsState τ δ γ → Prop
  | writeCert {content modified} (h : s.cert.tells content modified = true) :
    Taken lib cert key s (.writeCert content modified)
      { s with cert := s.cert.write content modified }
  | writeKey {content modified} (h : s.key.tells content modified = true) :
    Taken lib cert key s (.writeKey content modified) { s with key := s.key.write content modified }
  | statCert {readable} (h : s.look = .rest) :
    Taken lib cert key s (.statCert readable)
      { s with look := .statted (if readable then some s.cert.stamp else none) }
  | statKey {readable stamp} (h : s.look = .statted stamp) :
    Taken lib cert key s (.statKey readable)
      { s with look := .stamped (stamp, if readable then some s.key.stamp else none) }
  | skip {stamps c} (h : s.look = .stamped stamps) (hc : s.certificate = some c)
      (skips : c.seen.skips stamps = true) :
    Taken lib cert key s .compare { s with look := .rest }
  | opened {stamps} (h : s.look = .stamped stamps)
      (skips : ∀ c, s.certificate = some c → c.seen.skips stamps = false) :
    Taken lib cert key s .compare { s with look := .readingCert stamps s.cert.past.length }
  | readCert {stamps opened read chain} (h : s.look = .readingCert stamps opened)
      (may : s.cert.mayRead opened read = true) (hchain : loadChain lib cert read = .ok chain) :
    Taken lib cert key s (.readCert read)
      { s with look := .readingKey stamps chain s.key.past.length }
  | lostCert {stamps opened read e} (h : s.look = .readingCert stamps opened)
      (may : s.cert.mayRead opened read = true) (hchain : loadChain lib cert read = .error e) :
    Taken lib cert key s (.readCert read) { s with look := .loaded stamps (.error e) }
  | readKey {stamps chain opened read} (h : s.look = .readingKey stamps chain opened)
      (may : s.key.mayRead opened read = true) :
    Taken lib cert key s (.readKey read)
      { s with look := .loaded stamps (loadKey lib cert key chain read) }
  | made {stamps pair} (h : s.look = .loaded stamps (.ok pair)) (hc : s.certificate = none) :
    Taken lib cert key s .store
      { s with certificate := some { current := pair, seen := { used := stamps, failed := none } },
               look := .rest }
  | refused {stamps message} (h : s.look = .loaded stamps (.error message))
      (hc : s.certificate = none) :
    Taken lib cert key s .store { s with look := .refused message }
  | replaced {stamps pair c} (h : s.look = .loaded stamps (.ok pair))
      (hc : s.certificate = some c) :
    Taken lib cert key s .store
      { s with certificate := some { c with current := pair }, look := .stored stamps }
  | failed {stamps message c} (h : s.look = .loaded stamps (.error message))
      (hc : s.certificate = some c) :
    Taken lib cert key s .store
      { s with certificate := some { c with seen := { c.seen with failed := some stamps } },
               look := .rest }
  | remember {stamps c} (h : s.look = .stored stamps) (hc : s.certificate = some c) :
    Taken lib cert key s .remember
      { s with certificate := some { c with seen := { used := stamps, failed := none } },
               look := .rest }

/-- Every step does one of these. -/
theorem taken_of_step (hs : s.step lib cert key a = some s') : Taken lib cert key s a s' := by
  cases a with
  | writeCert content modified =>
    obtain ⟨h, rfl⟩ := of_guard hs
    exact .writeCert h
  | writeKey content modified =>
    obtain ⟨h, rfl⟩ := of_guard hs
    exact .writeKey h
  | statCert readable =>
    simp only [TlsState.step] at hs
    split at hs <;> cases hs
    case h_1 h => exact .statCert h
  | statKey readable =>
    simp only [TlsState.step] at hs
    split at hs <;> cases hs
    case h_1 h => exact .statKey h
  | compare =>
    simp only [TlsState.step] at hs
    split at hs
    case h_2 => cases hs
    case h_1 stamps h =>
      split at hs <;> cases hs
      case isTrue skips =>
        obtain ⟨c, hc, skips⟩ := Option.any_eq_true _ _ |>.mp skips
        exact .skip h hc skips
      case isFalse skips =>
        apply Taken.opened h
        intro c hc
        simpa [hc] using skips
  | readCert read =>
    simp only [TlsState.step] at hs
    split at hs
    case h_2 => cases hs
    case h_1 stamps opened h =>
      obtain ⟨may, hs⟩ := Option.ite_none_right_eq_some.mp hs
      split at hs <;> cases hs
      case h_1 chain hchain => exact .readCert h may hchain
      case h_2 e hchain => exact .lostCert h may hchain
  | readKey read =>
    simp only [TlsState.step] at hs
    split at hs
    case h_2 => cases hs
    case h_1 stamps chain opened h =>
      obtain ⟨may, rfl⟩ := of_guard hs
      exact .readKey h may
  | store =>
    simp only [TlsState.step] at hs
    split at hs
    case h_2 => cases hs
    case h_1 stamps result h =>
      obtain rfl := Option.some.inj hs
      unfold TlsState.store
      split
      case h_1 pair hc => exact .made h hc
      case h_2 message hc => exact .refused h hc
      case h_3 c pair hc => exact .replaced h hc
      case h_4 c message hc => exact .failed h hc
  | remember =>
    simp only [TlsState.step] at hs
    split at hs <;> cases hs
    case h_1 stamps c h hc => exact .remember h hc

end Steps

/-! ## What a handshake is given -/

/-- A write of one of the files. -/
def TlsAction.writes : TlsAction τ → Bool
  | .writeCert _ _ | .writeKey _ _ => true
  | _ => false

/-- The look under way has come by a pair. -/
def TlsState.HasLoaded (s : TlsState τ δ γ) : Prop :=
  ∃ stamps pair, s.look = .loaded stamps (.ok pair)

section Handshakes

variable [DecidableEq τ] {lib : TlsLibrary δ κ γ} {cert key : String}
  {s₀ s s' : TlsState τ δ γ} {a : TlsAction τ}

/-- In the run from `s₀` to `s` the look under way read the certificate and found `chain`, and has
done nothing since. -/
def ChainRead (lib : TlsLibrary δ κ γ) (cert key : String) (s₀ s : TlsState τ δ γ)
    (chain : List δ) : Prop :=
  ∃ s₁ s₁' bytes, Reachable (TlsState.step lib cert key) s₀ s₁ ∧
    s₁.step lib cert key (.readCert (.ok bytes)) = some s₁' ∧
    loadChain lib cert (.ok bytes) = .ok chain ∧
    Reaches (TlsState.step lib cert key) (fun _ a => a.writes = true) s₁' s

/-- In the run from `s₀` to `s` a look read the certificate and then, as its next step, the key, and
the two made the pair. -/
def LoadedTogether (lib : TlsLibrary δ κ γ) (cert key : String) (s₀ s : TlsState τ δ γ)
    (pair : γ) : Prop :=
  ∃ s₁ s₁' s₂ s₂' certBytes keyBytes, Reachable (TlsState.step lib cert key) s₀ s₁ ∧
    s₁.step lib cert key (.readCert (.ok certBytes)) = some s₁' ∧
    Reaches (TlsState.step lib cert key) (fun _ a => a.writes = true) s₁' s₂ ∧
    s₂.step lib cert key (.readKey (.ok keyBytes)) = some s₂' ∧
    Reachable (TlsState.step lib cert key) s₂' s ∧
    load lib cert key (.ok certBytes) (.ok keyBytes) = .ok pair

/-- What the look holds and what is in use came about as it should. -/
structure Traced (lib : TlsLibrary δ κ γ) (cert key : String) (s₀ s : TlsState τ δ γ) : Prop where
  reached : Reachable (TlsState.step lib cert key) s₀ s
  chain : ∀ stamps chain opened, s.look = .readingKey stamps chain opened →
    ChainRead lib cert key s₀ s chain
  pair : ∀ stamps pair, s.look = .loaded stamps (.ok pair) → LoadedTogether lib cert key s₀ s pair
  current : ∀ pair, s.resolve = some pair → LoadedTogether lib cert key s₀ s pair

lemma LoadedTogether.next {pair : γ} (h : LoadedTogether lib cert key s₀ s pair)
    (hs : s.step lib cert key a = some s') : LoadedTogether lib cert key s₀ s' pair := by
  obtain ⟨s₁, s₁', s₂, s₂', b, b', reached, readCert, between, readKey, run, made⟩ := h
  exact ⟨s₁, s₁', s₂, s₂', b, b', reached, readCert, between, readKey, run.next a trivial hs, made⟩

lemma ChainRead.next {chain : List δ} (h : ChainRead lib cert key s₀ s chain)
    (ha : a.writes = true) (hs : s.step lib cert key a = some s') :
    ChainRead lib cert key s₀ s' chain := by
  obtain ⟨s₁, s₁', bytes, reached, readCert, hchain, run⟩ := h
  exact ⟨s₁, s₁', bytes, reached, readCert, hchain, run.next a ha hs⟩

/-- A chain is loaded from bytes that were read. -/
lemma exists_of_loadChain {read : Except String (List UInt8)} {chain : List δ}
    (h : loadChain lib cert read = .ok chain) : ∃ bytes, read = .ok bytes := by
  cases read with
  | ok bytes => exact ⟨bytes, rfl⟩
  | error e => cases h

/-- A pair is made with a key that was read. -/
lemma exists_of_loadKey {chain : List δ} {read : Except String (List UInt8)} {pair : γ}
    (h : loadKey lib cert key chain read = .ok pair) : ∃ bytes, read = .ok bytes := by
  cases read with
  | ok bytes => exact ⟨bytes, rfl⟩
  | error e => cases h

/-- Every step keeps the trace. -/
lemma Traced.step (h : Traced lib cert key s₀ s) (hs : s.step lib cert key a = some s') :
    Traced lib cert key s₀ s' := by
  have reached : Reachable (TlsState.step lib cert key) s₀ s' := h.reached.next a trivial hs
  have current : s'.resolve = s.resolve → ∀ pair, s'.resolve = some pair →
      LoadedTogether lib cert key s₀ s' pair := by
    intro same pair hpair
    exact (h.current pair (same ▸ hpair)).next hs
  cases taken_of_step hs with
  | writeCert htells | writeKey htells =>
    refine ⟨reached, ?_, ?_, current rfl⟩
    · intro stamps chain opened hlook
      exact (h.chain stamps chain opened hlook).next rfl hs
    · intro stamps pair hlook
      exact (h.pair stamps pair hlook).next hs
  | statCert hlook | statKey hlook | skip hlook | opened hlook | lostCert hlook =>
    exact ⟨reached, by simp, by simp, current rfl⟩
  | refused hlook | remember hlook hc =>
    refine ⟨reached, by simp, by simp, current ?_⟩
    simp_all [TlsState.resolve]
  | failed hlook hc =>
    refine ⟨reached, by simp, by simp, current ?_⟩
    simp [TlsState.resolve, hc]
  | readCert hlook may hchain =>
    refine ⟨reached, ?_, by simp, current rfl⟩
    intro stamps chain opened hlook'
    simp only [Look.readingKey.injEq] at hlook'
    obtain ⟨rfl, rfl, rfl⟩ := hlook'
    obtain ⟨bytes, rfl⟩ := exists_of_loadChain hchain
    exact ⟨s, _, bytes, h.reached, hs, hchain, .start⟩
  | @readKey stamps chain opened read hlook may =>
    refine ⟨reached, by simp, ?_, current rfl⟩
    intro stamps' pair hlook'
    simp only [Look.loaded.injEq] at hlook'
    obtain ⟨rfl, hpair⟩ := hlook'
    obtain ⟨keyBytes, rfl⟩ := exists_of_loadKey hpair
    obtain ⟨s₁, s₁', certBytes, before, readCert, hchain, run⟩ := h.chain _ _ _ hlook
    refine ⟨s₁, s₁', s, _, certBytes, keyBytes, before, readCert, run, hs, .start, ?_⟩
    rw [load, hchain]
    exact hpair
  | made hlook hc | replaced hlook hc =>
    refine ⟨reached, by simp, by simp, ?_⟩
    intro pair' hpair'
    obtain rfl := Option.some.inj hpair'
    exact (h.pair _ _ hlook).next hs

/-- Nothing has been read when a server is started. -/
lemma traced_new (certFile keyFile : WatchedFile τ) :
    Traced lib cert key (.new certFile keyFile : TlsState τ δ γ) (.new certFile keyFile) where
  reached := .start
  chain := by simp [TlsState.new]
  pair := by simp [TlsState.new]
  current := by simp [TlsState.new, TlsState.resolve]

/-- While no load has come by a pair, a step leaves what handshakes are given alone. -/
lemma resolve_stays_step (h : ¬ s.HasLoaded) (hs : s.step lib cert key a = some s') :
    s'.resolve = s.resolve := by
  cases taken_of_step hs with
  | made hlook | replaced hlook => exact absurd ⟨_, _, hlook⟩ h
  | failed hlook hc | remember hlook hc => simp [TlsState.resolve, hc]
  | writeCert | writeKey | statCert | statKey | skip | opened | readCert | lostCert | readKey
  | refused => rfl

end Handshakes

/-! ## A look at files nobody writes -/

/-- A step of a look that finds the files readable, while nobody writes them. -/
def TlsAction.calm : TlsAction τ → Bool
  | .writeCert _ _ | .writeKey _ _ => false
  | .statCert readable | .statKey readable => readable
  | .readCert read | .readKey read => read.isOk
  | .compare | .store | .remember => true

/-- The stamps of the two files. -/
def TlsState.stamps (s : TlsState τ δ γ) : Stamps τ := (some s.cert.stamp, some s.key.stamp)

/-- The files hold a valid pair. -/
def TlsState.Hold (lib : TlsLibrary δ κ γ) (cert key : String) (s : TlsState τ δ γ) (pair : γ) :
    Prop :=
  load lib cert key (.ok s.cert.content) (.ok s.key.content) = .ok pair

section Calm

variable [DecidableEq τ] {lib : TlsLibrary δ κ γ} {cert key : String}
  {s s' t t' : TlsState τ δ γ} {a : TlsAction τ} {c : Certificate τ γ} {pair : γ}

/-- From `s`, between two looks, to `s'`, where the next look has come to its end; all through it
the files were readable and nobody wrote them. -/
def AfterLook (lib : TlsLibrary δ κ γ) (cert key : String) (s s' : TlsState τ δ γ) : Prop :=
  s.look = .rest ∧ s'.look = .rest ∧
    ∃ s₁, s.step lib cert key (.statCert true) = some s₁ ∧
      Reaches (TlsState.step lib cert key) (fun t a => a.calm = true ∧ t.look ≠ .rest) s₁ s'

/-- Where a calm look from `s` stands at `t`: it has found what is there to be found, and it comes
to its end with what was in use or with the files' pair. -/
def OnTheWay (lib : TlsLibrary δ κ γ) (cert : String) (s : TlsState τ δ γ) (c : Certificate τ γ)
    (pair : γ) (t : TlsState τ δ γ) : Prop :=
  t.cert = s.cert ∧ t.key = s.key ∧
    match t.look with
    | .rest => t.resolve = some (if c.seen.skips s.stamps then c.current else pair)
    | .statted stamp => stamp = some s.cert.stamp ∧ t.certificate = some c
    | .stamped stamps => stamps = s.stamps ∧ t.certificate = some c
    | .readingCert stamps opened => stamps = s.stamps ∧ opened = s.cert.past.length ∧
        c.seen.skips s.stamps = false ∧ t.certificate = some c
    | .readingKey stamps chain opened => stamps = s.stamps ∧ opened = s.key.past.length ∧
        c.seen.skips s.stamps = false ∧ t.certificate = some c ∧
        loadChain lib cert (.ok s.cert.content) = .ok chain
    | .loaded stamps result => stamps = s.stamps ∧ c.seen.skips s.stamps = false ∧
        t.certificate = some c ∧ result = .ok pair
    | .stored stamps => stamps = s.stamps ∧ c.seen.skips s.stamps = false ∧ t.resolve = some pair
    | .refused _ => False

omit [DecidableEq τ] in
/-- Reading a file nobody has written since it was opened gives what it holds. -/
lemma read_eq {f : WatchedFile τ} {read : Except String (List UInt8)} (hread : read.isOk = true)
    (may : f.mayRead f.past.length read = true) : read = .ok f.content := by
  cases read with
  | ok bytes =>
    have same : bytes = f.content := by simpa [WatchedFile.mayRead] using may
    rw [same]
  | error e => cases hread

omit [DecidableEq τ] in
/-- The two halves of a load that comes by a pair. -/
lemma TlsState.Hold.loadChain (h : s.Hold lib cert key pair) :
    ∃ chain, loadChain lib cert (.ok s.cert.content) = .ok chain ∧
      loadKey lib cert key chain (.ok s.key.content) = .ok pair := by
  unfold TlsState.Hold load at h
  cases hchain : Tls.loadChain lib cert (.ok s.cert.content) with
  | error e =>
    rw [hchain] at h
    cases h
  | ok chain =>
    rw [hchain] at h
    exact ⟨chain, rfl, h⟩

/-- A calm step takes the look on. -/
lemma OnTheWay.step (h : OnTheWay lib cert s c pair t) (hold : s.Hold lib cert key pair)
    (ha : a.calm = true) (hrest : t.look ≠ .rest) (hs : t.step lib cert key a = some t') :
    OnTheWay lib cert s c pair t' := by
  obtain ⟨hcert, hkey, h⟩ := h
  obtain ⟨chain₀, hchain₀, hpair₀⟩ := hold.loadChain
  cases taken_of_step hs with
  | writeCert | writeKey => cases ha
  | statCert hlook => exact absurd hlook hrest
  | @statKey readable stamp hlook =>
    simp only [hlook] at h
    have hreadable : readable = true := ha
    refine ⟨hcert, hkey, ?_, h.2⟩
    rw [h.1, if_pos hreadable, hkey]
    rfl
  | skip hlook hc skips =>
    simp only [hlook] at h
    obtain ⟨rfl, hc'⟩ := h
    obtain rfl := Option.some.inj (hc.symm.trans hc')
    refine ⟨hcert, hkey, ?_⟩
    simp [TlsState.resolve, hc', skips]
  | opened hlook skips =>
    simp only [hlook] at h
    obtain ⟨rfl, hc'⟩ := h
    exact ⟨hcert, hkey, rfl, by rw [hcert], skips c hc', hc'⟩
  | @readCert stamps opened read chain hlook may hchain =>
    simp only [hlook] at h
    obtain ⟨rfl, rfl, skips, hc⟩ := h
    rw [← hcert] at may
    have hread := read_eq ha may
    rw [hread, hcert] at hchain
    exact ⟨hcert, hkey, rfl, by rw [hkey], skips, hc, hchain⟩
  | @lostCert stamps opened read e hlook may hchain =>
    simp only [hlook] at h
    obtain ⟨rfl, rfl, skips, hc⟩ := h
    rw [← hcert] at may
    rw [read_eq ha may, hcert, hchain₀] at hchain
    cases hchain
  | @readKey stamps chain opened read hlook may =>
    simp only [hlook] at h
    obtain ⟨rfl, rfl, skips, hc, hchain⟩ := h
    rw [← hkey] at may
    have hread := read_eq ha may
    obtain rfl : chain₀ = chain := Except.ok.inj (hchain₀.symm.trans hchain)
    refine ⟨hcert, hkey, rfl, skips, hc, ?_⟩
    rw [hread, hkey, hpair₀]
  | made hlook hc =>
    simp only [hlook] at h
    simp [h.2.2.1] at hc
  | refused hlook hc =>
    simp only [hlook] at h
    simp [h.2.2.1] at hc
  | replaced hlook hc =>
    simp only [hlook] at h
    obtain ⟨rfl, skips, -, hresult⟩ := h
    obtain rfl := Except.ok.inj hresult
    exact ⟨hcert, hkey, rfl, skips, rfl⟩
  | failed hlook hc =>
    simp only [hlook] at h
    cases h.2.2.2
  | remember hlook hc =>
    simp only [hlook] at h
    obtain ⟨rfl, skips, hresolve⟩ := h
    refine ⟨hcert, hkey, ?_⟩
    simp_all [TlsState.resolve]

/-- A calm look comes to its end with what was in use, if it is skipped, and else with the files'
pair. -/
lemma AfterLook.resolve (h : AfterLook lib cert key s s') (hc : s.certificate = some c)
    (hold : s.Hold lib cert key pair) :
    s'.resolve = some (if c.seen.skips s.stamps then c.current else pair) := by
  obtain ⟨hrest, hend, s₁, hs, run⟩ := h
  have began : OnTheWay lib cert s c pair s₁ := by
    simp only [TlsState.step, hrest] at hs
    obtain rfl := Option.some.inj hs
    exact ⟨rfl, rfl, rfl, hc⟩
  have ended : OnTheWay lib cert s c pair s' := by
    apply run.invariant began
    rintro t a t' ht ⟨ha, hne⟩ taken
    exact ht.step hold ha hne taken
  have final := ended.2.2
  rw [hend] at final
  exact final

/-- A calm look comes to its end. -/
lemma exists_afterLook (hrest : s.look = .rest) (hc : s.certificate = some c)
    (hold : s.Hold lib cert key pair) : ∃ s', AfterLook lib cert key s s' := by
  obtain ⟨chain, hchain, hpair⟩ := hold.loadChain
  let found : TlsState τ δ γ := { s with look := .statted (some s.cert.stamp) }
  let Run : TlsState τ δ γ → Prop :=
    Reaches (TlsState.step lib cert key) (fun t a => a.calm = true ∧ t.look ≠ .rest) found
  have began : s.step lib cert key (.statCert true) = some found := by
    simp [TlsState.step, hrest, found]
  have stamped : Run { s with look := .stamped s.stamps } :=
    Reaches.start.next (.statKey true) ⟨rfl, by simp [found]⟩ rfl
  by_cases skips : c.seen.skips s.stamps = true
  · have skipped : Run { s with look := .rest } :=
      stamped.next .compare ⟨rfl, by simp⟩ (by simp [TlsState.step, hc, skips])
    exact ⟨_, hrest, rfl, found, began, skipped⟩
  · have opened : Run { s with look := .readingCert s.stamps s.cert.past.length } :=
      stamped.next .compare ⟨rfl, by simp⟩ (by simp [TlsState.step, hc, skips])
    have read : Run { s with look := .readingKey s.stamps chain s.key.past.length } :=
      opened.next (.readCert (.ok s.cert.content)) ⟨rfl, by simp⟩
        (by simp [TlsState.step, WatchedFile.mayRead, hchain])
    have loaded : Run { s with look := .loaded s.stamps (.ok pair) } :=
      read.next (.readKey (.ok s.key.content)) ⟨rfl, by simp⟩
        (by simp [TlsState.step, WatchedFile.mayRead, hpair])
    have replaced :
        Run { s with certificate := some { c with current := pair }, look := .stored s.stamps } :=
      loaded.next .store ⟨rfl, by simp⟩ (by simp [TlsState.step, TlsState.store, hc])
    exact ⟨_, hrest, rfl, found, began, replaced.next .remember ⟨rfl, by simp⟩ rfl⟩

end Calm

/-! ## Stamps that are never used twice -/

section Stamps

/-- If `stamp`, taken of the file earlier in the run, is still the file's, then `P` holds of it. -/
def WatchedFile.Since (f : WatchedFile τ) (stamp : Stamp τ) (P : WatchedFile τ → Prop) : Prop :=
  (∀ t, stamp = some t → t ∈ f.stamp :: f.past) ∧ (stamp = some f.stamp → P f)

/-- A write that gives the file a stamp it never had. -/
def WatchedFile.Anew (f : WatchedFile τ) (content : List UInt8) (modified : τ) : Prop :=
  (f.write content modified).stamp ∉ f.stamp :: f.past

/-- Each write gives its file a stamp the file never had. -/
def Anew (s : TlsState τ δ γ) : TlsAction τ → Prop
  | .writeCert content modified => s.cert.Anew content modified
  | .writeKey content modified => s.key.Anew content modified
  | _ => True

instance [DecidableEq τ] (s : TlsState τ δ γ) : (a : TlsAction τ) → Decidable (Anew s a)
  | .writeCert _ _ | .writeKey _ _ => inferInstanceAs (Decidable (_ ∉ _))
  | .statCert _ | .statKey _ | .compare | .readCert _ | .readKey _ | .store | .remember =>
    inferInstanceAs (Decidable True)

/-- The pair was loaded from what the files hold, if their stamps are still those of that load. -/
def LoadedAt (lib : TlsLibrary δ κ γ) (cert key : String) (s : TlsState τ δ γ) (stamps : Stamps τ)
    (pair : γ) : Prop :=
  ∃ chain, s.cert.Since stamps.1 (fun f => loadChain lib cert (.ok f.content) = .ok chain) ∧
    s.key.Since stamps.2 (fun f => loadKey lib cert key chain (.ok f.content) = .ok pair)

/-- What the look holds was read under the stamps it holds, and the pair in use was loaded under the
stamps that are remembered for it. -/
structure Dated (lib : TlsLibrary δ κ γ) (cert key : String) (s : TlsState τ δ γ) : Prop where
  look : match s.look with
    | .rest | .refused _ => True
    | .statted stamp => s.cert.Since stamp fun _ => True
    | .stamped stamps => s.cert.Since stamps.1 (fun _ => True) ∧ s.key.Since stamps.2 fun _ => True
    | .readingCert stamps opened =>
      s.cert.Since stamps.1 (fun f => opened = f.past.length) ∧ s.key.Since stamps.2 fun _ => True
    | .readingKey stamps chain opened =>
      s.cert.Since stamps.1 (fun f => loadChain lib cert (.ok f.content) = .ok chain) ∧
        s.key.Since stamps.2 fun f => opened = f.past.length
    | .loaded stamps result => ∀ pair, result = .ok pair → LoadedAt lib cert key s stamps pair
    | .stored stamps => ∀ c, s.certificate = some c → LoadedAt lib cert key s stamps c.current
  used : (∀ stamps, s.look ≠ .stored stamps) → ∀ c, s.certificate = some c →
    LoadedAt lib cert key s c.seen.used c.current

variable {f : WatchedFile τ} {stamp : Stamp τ} {P Q : WatchedFile τ → Prop}

/-- A stamp that was just taken. -/
lemma WatchedFile.since_stat (readable : Bool) (h : P f) :
    f.Since (if readable then some f.stamp else none) P := by
  constructor
  · intro t ht
    cases readable with
    | true =>
      obtain rfl := Option.some.inj ht
      exact List.mem_cons_self
    | false => cases ht
  · intro _
    exact h

/-- What is known of a file as long as its stamp is the same. -/
lemma WatchedFile.Since.imp (h : f.Since stamp P) (hPQ : P f → Q f) : f.Since stamp Q :=
  ⟨h.1, fun same => hPQ (h.2 same)⟩

/-- A write under a new stamp leaves no earlier stamp the file's. -/
lemma WatchedFile.Since.write (h : f.Since stamp P) {content : List UInt8} {modified : τ}
    (new : f.Anew content modified) : (f.write content modified).Since stamp P := by
  constructor
  · intro t ht
    exact List.mem_cons_of_mem _ (h.1 t ht)
  · intro same
    exact absurd (h.1 _ same) new

variable {lib : TlsLibrary δ κ γ} {cert key : String} {s s' : TlsState τ δ γ} {a : TlsAction τ}

/-- A write of the certificate under a new stamp keeps everything dated as it was. -/
lemma Dated.writeCert (h : Dated lib cert key s) {content : List UInt8} {modified : τ}
    (new : s.cert.Anew content modified) :
    Dated lib cert key { s with cert := s.cert.write content modified } := by
  have later : ∀ stamps pair, LoadedAt lib cert key s stamps pair →
      LoadedAt lib cert key { s with cert := s.cert.write content modified } stamps pair := by
    rintro stamps pair ⟨chain, hcert, hkey⟩
    exact ⟨chain, hcert.write new, hkey⟩
  constructor
  · have hlook := h.look
    revert hlook
    cases s.look with
    | rest | refused => exact id
    | statted stamp => exact fun hcert => hcert.write new
    | stamped stamps | readingCert stamps opened | readingKey stamps chain opened =>
      exact fun ⟨hcert, hkey⟩ => ⟨hcert.write new, hkey⟩
    | loaded stamps result => exact fun hpair pair hresult => later _ _ (hpair pair hresult)
    | stored stamps => exact fun hpair c hc => later _ _ (hpair c hc)
  · intro hlook c hc
    exact later _ _ (h.used hlook c hc)

/-- A write of the key under a new stamp keeps everything dated as it was. -/
lemma Dated.writeKey (h : Dated lib cert key s) {content : List UInt8} {modified : τ}
    (new : s.key.Anew content modified) :
    Dated lib cert key { s with key := s.key.write content modified } := by
  have later : ∀ stamps pair, LoadedAt lib cert key s stamps pair →
      LoadedAt lib cert key { s with key := s.key.write content modified } stamps pair := by
    rintro stamps pair ⟨chain, hcert, hkey⟩
    exact ⟨chain, hcert, hkey.write new⟩
  constructor
  · have hlook := h.look
    revert hlook
    cases s.look with
    | rest | refused | statted stamp => exact id
    | stamped stamps | readingCert stamps opened | readingKey stamps chain opened =>
      exact fun ⟨hcert, hkey⟩ => ⟨hcert, hkey.write new⟩
    | loaded stamps result => exact fun hpair pair hresult => later _ _ (hpair pair hresult)
    | stored stamps => exact fun hpair c hc => later _ _ (hpair c hc)
  · intro hlook c hc
    exact later _ _ (h.used hlook c hc)

variable [DecidableEq τ]

/-- In a run in which no stamp is used twice, what was read stays dated. -/
lemma Dated.step (h : Dated lib cert key s) (new : Anew s a)
    (hs : s.step lib cert key a = some s') : Dated lib cert key s' := by
  have hlook := h.look
  have used : ∀ {look : Look τ δ γ}, s.look = look → (∀ stamps, look ≠ .stored stamps) →
      ∀ c, s.certificate = some c → LoadedAt lib cert key s c.seen.used c.current := by
    rintro look rfl hstored
    exact h.used hstored
  cases taken_of_step hs with
  | writeCert => exact h.writeCert new
  | writeKey => exact h.writeKey new
  | @statCert readable hrest =>
    exact ⟨s.cert.since_stat readable trivial, fun _ => used hrest (by simp)⟩
  | @statKey readable stamp hstatted =>
    rw [hstatted] at hlook
    exact ⟨⟨hlook, s.key.since_stat readable trivial⟩, fun _ => used hstatted (by simp)⟩
  | skip hstamped => exact ⟨trivial, fun _ => used hstamped (by simp)⟩
  | opened hstamped =>
    rw [hstamped] at hlook
    exact ⟨⟨hlook.1.imp fun _ => rfl, hlook.2⟩, fun _ => used hstamped (by simp)⟩
  | @readCert stamps opened read chain hreading may hchain =>
    rw [hreading] at hlook
    refine ⟨⟨hlook.1.imp ?_, hlook.2.imp fun _ => rfl⟩, fun _ => used hreading (by simp)⟩
    rintro rfl
    obtain ⟨bytes, rfl⟩ := exists_of_loadChain hchain
    rw [← read_eq rfl may]
    exact hchain
  | lostCert hreading =>
    refine ⟨?_, fun _ => used hreading (by simp)⟩
    intro pair hpair
    cases hpair
  | @readKey stamps chain opened read hreading may =>
    rw [hreading] at hlook
    refine ⟨?_, fun _ => used hreading (by simp)⟩
    intro pair hpair
    refine ⟨chain, hlook.1, hlook.2.imp ?_⟩
    rintro rfl
    obtain ⟨bytes, rfl⟩ := exists_of_loadKey hpair
    rw [← read_eq rfl may]
    exact hpair
  | made hloaded hc =>
    rw [hloaded] at hlook
    refine ⟨trivial, ?_⟩
    rintro - c hc'
    obtain rfl := Option.some.inj hc'
    exact hlook _ rfl
  | refused hloaded => exact ⟨trivial, fun _ => used hloaded (by simp)⟩
  | replaced hloaded hc =>
    rw [hloaded] at hlook
    constructor
    · intro c hc'
      obtain rfl := Option.some.inj hc'
      exact hlook _ rfl
    · intro hstored
      exact absurd rfl (hstored _)
  | @failed stamps message c hloaded hc =>
    refine ⟨trivial, ?_⟩
    rintro - c' hc'
    obtain rfl := Option.some.inj hc'
    exact used hloaded (by simp) c hc
  | @remember stamps c hstored hc =>
    rw [hstored] at hlook
    refine ⟨trivial, ?_⟩
    rintro - c' hc'
    obtain rfl := Option.some.inj hc'
    exact hlook c hc

/-- Where no stamp is used twice, the stamps remembered for the pair in use tell whether it is the
files' pair. -/
lemma current_of_used {certFile keyFile : WatchedFile τ} {c : Certificate τ γ} {pair : γ}
    (h : Reaches (TlsState.step lib cert key) Anew (.new certFile keyFile) s)
    (hrest : s.look = .rest) (hc : s.certificate = some c) (hold : s.Hold lib cert key pair)
    (hused : c.seen.used = s.stamps) : c.current = pair := by
  have dated : Dated lib cert key s := by
    refine h.invariant ⟨trivial, by simp [TlsState.new]⟩ ?_
    intro t a t' ht new taken
    exact ht.step new taken
  obtain ⟨chain, hcert, hkey⟩ := dated.used (by simp [hrest]) c hc
  rw [hused] at hcert hkey
  have hpair : s.Hold lib cert key c.current := by
    rw [TlsState.Hold, load, hcert.2 rfl]
    exact hkey.2 rfl
  exact Except.ok.inj (hpair.symm.trans hold)

end Stamps

/-! ## A renewed certificate is picked up -/

variable [DecidableEq τ]

/-- **When a renewed certificate is picked up.**  For any history of the two files in which a change
of content changes a file's stamp, and any failures to look at them or to read them: a handshake is
given a certificate and a key that were read by one look and fit each other; while no load has come
by a pair, what handshakes are given does not change; and a look at files that hold a valid pair, are
readable and are not written comes to its end, with the files' pair in use exactly if it is so
already or their stamps are neither those of the pair in use nor those remembered of a failure.
Where no file is given a stamp it had before, the stamps of the pair in use do not stand in the
way. -/
theorem refresh_law (lib : TlsLibrary δ κ γ) (cert key : String)
    (certFile keyFile : WatchedFile τ) :
    let s₀ : TlsState τ δ γ := .new certFile keyFile
    (∀ s pair, Reachable (TlsState.step lib cert key) s₀ s → s.resolve = some pair →
      LoadedTogether lib cert key s₀ s pair) ∧
    (∀ s s', Reachable (TlsState.step lib cert key) s₀ s →
      Reaches (TlsState.step lib cert key) (fun t _ => ¬ t.HasLoaded) s s' →
      s'.resolve = s.resolve) ∧
    (∀ s c pair, Reachable (TlsState.step lib cert key) s₀ s → s.look = .rest →
      s.certificate = some c → s.Hold lib cert key pair →
      (∃ s', AfterLook lib cert key s s') ∧ ∀ s', AfterLook lib cert key s s' →
        (s'.resolve = some pair ↔
          (c.seen.used ≠ s.stamps ∧ c.seen.failed ≠ some s.stamps) ∨ c.current = pair)) ∧
    (∀ s c pair, Reaches (TlsState.step lib cert key) Anew s₀ s → s.look = .rest →
      s.certificate = some c → s.Hold lib cert key pair → ∀ s', AfterLook lib cert key s s' →
        (s'.resolve = some pair ↔ c.seen.failed ≠ some s.stamps ∨ c.current = pair)) := by
  intro s₀
  have skipped : ∀ (s s' : TlsState τ δ γ) c pair, s.certificate = some c →
      s.Hold lib cert key pair → AfterLook lib cert key s s' → (s'.resolve = some pair ↔
        (c.seen.used ≠ s.stamps ∧ c.seen.failed ≠ some s.stamps) ∨ c.current = pair) := by
    intro s s' c pair hc hold after
    rw [after.resolve hc hold, Option.some.injEq]
    by_cases hused : c.seen.used = s.stamps
    · simp [Seen.skips, hused]
    · by_cases hfailed : c.seen.failed = some s.stamps
      · simp [Seen.skips, hfailed]
      · simp [Seen.skips, hused, hfailed]
  refine ⟨?_, ?_, ?_, ?_⟩
  · intro s pair reached hpair
    have traced : Traced lib cert key s₀ s :=
      reached.invariant (traced_new certFile keyFile) fun _ _ _ h taken => h.step taken
    exact traced.current pair hpair
  · intro s s' _ run
    refine run.invariant (I := fun t => t.resolve = s.resolve) rfl ?_
    intro t a t' same hload taken
    exact (resolve_stays_step hload taken).trans same
  · intro s c pair _ hrest hc hold
    exact ⟨exists_afterLook hrest hc hold, fun s' after => skipped s s' c pair hc hold after⟩
  · intro s c pair run hrest hc hold s' after
    rw [skipped s s' c pair hc hold after]
    constructor
    · rintro (⟨-, hfailed⟩ | same)
      · exact Or.inl hfailed
      · exact Or.inr same
    · rintro (hfailed | same)
      · by_cases hused : c.seen.used = s.stamps
        · exact Or.inr (current_of_used run hrest hc hold hused)
        · exact Or.inl ⟨hused, hfailed⟩
      · exact Or.inr same

/-- A library for files that hold a certificate or a key and nothing else, which belong together if
they are the same. -/
def sameBytes : TlsLibrary (List UInt8) (List UInt8) (List UInt8) where
  certificates := fun bytes => .ok [bytes]
  privateKey := fun bytes => .ok bytes
  fromDer := fun chain key =>
    if chain.head? = some key then .ok key else .error "keys may not be consistent"

/-- A server started with one pair, and another written over it. -/
def renewal : List (TlsAction ℕ) :=
  [.statCert true, .statKey true, .compare, .readCert (.ok [1]), .readKey (.ok [1]), .store,
    .writeCert [2] 8, .writeKey [2] 8]

/-- Where that leads, with what was remembered of failures. -/
def renewed (failed : Option (Stamps ℕ)) : TlsState ℕ (List UInt8) (List UInt8) where
  cert := ⟨[2], 8, [(7, 1)]⟩
  key := ⟨[2], 8, [(7, 1)]⟩
  certificate := some
    { current := [1], seen := { used := (some (7, 1), some (7, 1)), failed := failed } }
  look := .rest

/-- The renewed pair is in use after the next look. -/
theorem renewal_is_picked_up :
    Reachable (TlsState.step sameBytes "site.crt" "site.key") (.new ⟨[1], 7, []⟩ ⟨[1], 7, []⟩)
        (renewed none) ∧
      ∃ s', AfterLook sameBytes "site.crt" "site.key" (renewed none) s' ∧ s'.resolve = some [2] := by
  have run : Reachable (TlsState.step sameBytes "site.crt" "site.key")
      (.new ⟨[1], 7, []⟩ ⟨[1], 7, []⟩) (renewed none) :=
    Reachable.of_exec renewal rfl
  have law := (refresh_law sameBytes "site.crt" "site.key" ⟨[1], 7, []⟩ ⟨[1], 7, []⟩).2.2.1 _ _ [2]
    run rfl rfl rfl
  obtain ⟨⟨s', after⟩, exactly⟩ := law
  exact ⟨run, s', after, (exactly s' after).mpr (Or.inl (by decide))⟩

/-- A look finds the renewed certificate and cannot read it that moment; the failure is remembered
with the stamps, so the next look, which could read both files, does not try, and the old pair stays
in use. -/
theorem passing_failure_is_kept :
    ∃ s s' : TlsState ℕ (List UInt8) (List UInt8),
      Reaches (TlsState.step sameBytes "site.crt" "site.key") Anew
        (.new ⟨[1], 7, []⟩ ⟨[1], 7, []⟩) s ∧
      s.Hold sameBytes "site.crt" "site.key" [2] ∧
      AfterLook sameBytes "site.crt" "site.key" s s' ∧ s'.resolve = some [1] := by
  let failed : TlsState ℕ (List UInt8) (List UInt8) := renewed (some (some (8, 1), some (8, 1)))
  have run : Reaches (TlsState.step sameBytes "site.crt" "site.key") Anew
      (.new ⟨[1], 7, []⟩ ⟨[1], 7, []⟩) failed :=
    Reaches.of_exec (renewal ++ [.statCert true, .statKey true, .compare,
      .readCert (.error "Too many open files (os error 24)"), .store]) rfl
  have look : Reaches (TlsState.step sameBytes "site.crt" "site.key")
      (fun t a => a.calm = true ∧ t.look ≠ .rest)
      { failed with look := .statted (some (8, 1)) } failed :=
    (Reaches.start.next (.statKey true) ⟨rfl, by simp⟩ rfl).next .compare ⟨rfl, by simp⟩ rfl
  exact ⟨failed, failed, run, rfl, ⟨rfl, rfl, _, rfl, look⟩, rfl⟩

end Tls

end Oxbrook
