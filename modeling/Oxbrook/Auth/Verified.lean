import Oxbrook.Auth.Policy
import Oxbrook.Foundation.Doubles
import Oxbrook.Foundation.OrderedDict
import Oxbrook.Foundation.Runs

/-!
# Tokens that verified once

The cache of verified tokens in `_Signed` of `python/oxbrook/auth.py`, for a scheme whose key does not change.  Any
number of worker loops check tokens, each one at a time; what a loop does to the shared dictionary in one piece is
one step.  Verifying is PyJWT's; `PyJwt` has what is relied on.

A token is taken from the cache while `time.time() <= float(exp) + leeway`, and PyJWT refuses it as expired from
`int(exp) <= now - leeway` on.  Between the two lies at least one moment.  `cached_token_unexpired` says that a token
is taken from the cache after its time exactly in runs that look it up then, and that nothing else goes wrong.
-/

namespace Oxbrook

open StepMachine Doubles

/-! ## Numbers -/

/-- An `int` or a `float`. -/
inductive PyNumber
  | int (n : ℤ)
  | float (x : ℚ)

namespace PyNumber

/-- `float(x)`: an integer that is too large raises. -/
def toFloat : PyNumber → Option ℚ
  | int n => if |rounded n| < 2 ^ 1024 then some (rounded n) else none
  | float x => some x

/-- `int(x)`: towards zero. -/
def toInt : PyNumber → ℤ
  | int n => n
  | float x => if x < 0 then ⌈x⌉ else ⌊x⌋

end PyNumber

/-! ## State -/

/-- Why `jwt.decode` refuses. -/
inductive JwtError
  | expired
  | other
  deriving DecidableEq

/-- `jwt.decode` with the key and the options of the scheme, at a time.  The claims are those in the token, whenever
it is verified; once it verified, it is refused as expired from `int(exp) <= now - leeway` on. -/
structure PyJwt (τ γ : Type) where
  decode : τ → ℚ → Except JwtError γ
  exp : γ → PyNumber
  leeway : ℚ
  payload : ∀ {token time time' claims claims'}, decode token time = .ok claims →
    decode token time' = .ok claims' → claims = claims'
  expires : ∀ {token time later claims}, decode token time = .ok claims →
    (decode token later = .error .expired ↔ (exp claims).toInt ≤ rounded (later - leeway))

/-- A scheme.  `principal` is `_principal`, without one where it refuses the claims. -/
structure SignedScheme (τ γ : Type) extends PyJwt τ γ where
  principal : γ → Option Principal
  cacheSize : ℕ

/-- Where a loop stands in `check`, and in `_remember`. -/
inductive SignedPc (τ : Type)
  | idle
  | called (token : τ)
  | stale (token : τ)
  | missed (token : τ)
  | verified (token : τ) (time expiry : ℚ) (found : Principal)
  | dropping (token : τ) (time expiry : ℚ) (found : Principal) (oldest : List τ)

/-- A token that `check` accepted, and whether it was taken from the cache. -/
structure Acceptance (τ : Type) where
  token : τ
  time : ℚ
  cached : Bool
  found : Principal

/-- `cache` is `_verified`.  What verified and what was accepted is kept as history. -/
structure SignedState (τ : Type) where
  cache : OrderedDict τ (ℚ × Principal)
  loops : ℕ → SignedPc τ
  verified : List (τ × ℚ)
  accepted : List (Acceptance τ)

def SignedState.start (τ : Type) : SignedState τ := ⟨.empty, fun _ => .idle, [], []⟩

/-- The steps of a loop.  `raced` says that another loop changed the dictionary under the pass over its oldest
entries. -/
inductive SignedAct (τ : Type)
  | call (l : ℕ) (token : τ)
  | look (l : ℕ) (now : ℚ)
  | forget (l : ℕ)
  | decode (l : ℕ) (now : ℚ)
  | measure (l : ℕ) (raced : Bool)
  | drop (l : ℕ)
  deriving DecidableEq

/-- One loop alone, which changes nothing under its own pass. -/
def SignedAct.OnlyOn {τ : Type} (l : ℕ) : SignedAct τ → Prop
  | call k _ => k = l
  | look k _ => k = l
  | forget k => k = l
  | decode k _ => k = l
  | measure k raced => k = l ∧ raced = false
  | drop k => k = l

namespace SignedState

variable {τ : Type}

def setLoop (s : SignedState τ) (l : ℕ) (pc : SignedPc τ) : SignedState τ :=
  { s with loops := Function.update s.loops l pc }

/-- `check` returns. -/
def accept (s : SignedState τ) (l : ℕ) (acceptance : Acceptance τ) : SignedState τ :=
  { s with loops := Function.update s.loops l .idle, accepted := acceptance :: s.accepted }

end SignedState

namespace SignedScheme

variable {τ γ : Type} [DecidableEq τ] (w : SignedScheme τ γ)

/-- What follows `_claims` in `check`. -/
def verify (s : SignedState τ) (l : ℕ) (token : τ) (now : ℚ) : SignedState τ :=
  match w.decode token now with
  | .error _ => s.setLoop l .idle
  | .ok claims =>
    match w.principal claims with
    | none => s.setLoop l .idle
    | some found =>
      let s := { s with verified := (token, now) :: s.verified }
      if w.cacheSize = 0 then s.accept l ⟨token, now, false, found⟩
      else
        match (w.exp claims).toFloat with
        | none => s.setLoop l .idle
        | some exp => s.setLoop l (.verified token now (rounded (exp + w.leeway)) found)

/-- The entries that `_remember` drops. -/
def oldest (s : SignedState τ) (raced : Bool) : List τ :=
  if w.cacheSize ≤ s.cache.keys.length ∧ ¬ raced then s.cache.keys.take (max 1 (w.cacheSize / 4)) else []

def step (s : SignedState τ) : SignedAct τ → Option (SignedState τ)
  | .call l token =>
    match s.loops l with
    | .idle => some (s.setLoop l (.called token))
    | _ => none
  | .look l now =>
    match s.loops l with
    | .called token =>
      match s.cache.get token with
      | none => some (s.setLoop l (.missed token))
      | some (expiry, found) =>
        if now ≤ expiry then some (s.accept l ⟨token, now, true, found⟩)
        else some (s.setLoop l (.stale token))
    | _ => none
  | .forget l =>
    match s.loops l with
    | .stale token => some ({ s with cache := s.cache.erase token }.setLoop l (.missed token))
    | _ => none
  | .decode l now =>
    match s.loops l with
    | .missed token => some (w.verify s l token now)
    | _ => none
  | .measure l raced =>
    match s.loops l with
    | .verified token time expiry found =>
      some (s.setLoop l (.dropping token time expiry found (w.oldest s raced)))
    | _ => none
  | .drop l =>
    match s.loops l with
    | .dropping token time expiry found (key :: oldest) =>
      some ({ s with cache := s.cache.erase key }.setLoop l (.dropping token time expiry found oldest))
    | .dropping token time expiry found [] =>
      some ({ s with cache := s.cache.set token (expiry, found) }.accept l ⟨token, time, false, found⟩)
    | _ => none

/-- What a step comes to. -/
inductive Stepped (s : SignedState τ) : SignedAct τ → SignedState τ → Prop
  | call {l token} (idle : s.loops l = .idle) : Stepped s (.call l token) (s.setLoop l (.called token))
  | absent {l token now} (pc : s.loops l = .called token) (get : s.cache.get token = none) :
      Stepped s (.look l now) (s.setLoop l (.missed token))
  | hit {l token now expiry found} (pc : s.loops l = .called token) (get : s.cache.get token = some (expiry, found))
      (le : now ≤ expiry) : Stepped s (.look l now) (s.accept l ⟨token, now, true, found⟩)
  | past {l token now expiry found} (pc : s.loops l = .called token) (get : s.cache.get token = some (expiry, found))
      (lt : ¬ now ≤ expiry) : Stepped s (.look l now) (s.setLoop l (.stale token))
  | forget {l token} (pc : s.loops l = .stale token) :
      Stepped s (.forget l) ({ s with cache := s.cache.erase token }.setLoop l (.missed token))
  | decode {l token now} (pc : s.loops l = .missed token) : Stepped s (.decode l now) (w.verify s l token now)
  | measure {l raced token time expiry found} (pc : s.loops l = .verified token time expiry found) :
      Stepped s (.measure l raced) (s.setLoop l (.dropping token time expiry found (w.oldest s raced)))
  | drop {l token time expiry found key rest} (pc : s.loops l = .dropping token time expiry found (key :: rest)) :
      Stepped s (.drop l)
        ({ s with cache := s.cache.erase key }.setLoop l (.dropping token time expiry found rest))
  | remember {l token time expiry found} (pc : s.loops l = .dropping token time expiry found []) :
      Stepped s (.drop l)
        ({ s with cache := s.cache.set token (expiry, found) }.accept l ⟨token, time, false, found⟩)

/-! ## What is promised -/

/-- No token was taken from the cache that verifying would have refused as expired. -/
def Unexpired (s : SignedState τ) : Prop :=
  ∀ a ∈ s.accepted, a.cached = true → w.decode a.token a.time ≠ .error .expired

/-- The token has verified, and this is the principal that verifying gave. -/
def Gave (s : SignedState τ) (token : τ) (found : Principal) : Prop :=
  ∃ time claims, (token, time) ∈ s.verified ∧ w.decode token time = .ok claims ∧ w.principal claims = some found

/-- What was accepted had verified. -/
def OnlyVerified (s : SignedState τ) : Prop := ∀ a ∈ s.accepted, w.Gave s a.token a.found

/-- A token in the cache is looked up when PyJWT calls it expired and the cache does not. -/
def Late (s : SignedState τ) : SignedAct τ → Prop
  | .look l now => ∃ token time claims exp, s.loops l = .called token ∧ (s.cache.get token).isSome = true ∧
      w.decode token time = .ok claims ∧ (w.exp claims).toFloat = some exp ∧
      (w.exp claims).toInt ≤ rounded (now - w.leeway) ∧ now ≤ rounded (exp + w.leeway)
  | _ => False

/-! ## What holds in every run -/

/-- An entry is what verifying its token gave. -/
def Backed (s : SignedState τ) (token : τ) (expiry : ℚ) (found : Principal) : Prop :=
  ∃ time claims exp, (token, time) ∈ s.verified ∧ w.decode token time = .ok claims ∧
    w.principal claims = some found ∧ (w.exp claims).toFloat = some exp ∧ expiry = rounded (exp + w.leeway)

/-- What a loop is about to remember is backed. -/
def PcBacked (s : SignedState τ) : SignedPc τ → Prop
  | .verified token _ expiry found => w.Backed s token expiry found
  | .dropping token _ expiry found _ => w.Backed s token expiry found
  | _ => True

structure SignedInv (s : SignedState τ) : Prop where
  cache : ∀ token expiry found, s.cache.get token = some (expiry, found) → w.Backed s token expiry found
  loops : ∀ l, w.PcBacked s (s.loops l)
  accepted : w.OnlyVerified s

variable {w} {s s' : SignedState τ} {l : ℕ} {token : τ} {now expiry : ℚ} {found : Principal}

lemma stepped {a : SignedAct τ} (taken : w.step s a = some s') : w.Stepped s a s' := by
  cases a with
  | call l token =>
    simp only [step] at taken
    split at taken
    · cases taken
      exact .call ‹_›
    · cases taken
  | look l now =>
    simp only [step] at taken
    split at taken
    · split at taken
      · cases taken
        exact .absent ‹_› ‹_›
      · split at taken
        · cases taken
          exact .hit ‹_› ‹_› ‹_›
        · cases taken
          exact .past ‹_› ‹_› ‹_›
    · cases taken
  | forget l =>
    simp only [step] at taken
    split at taken
    · cases taken
      exact .forget ‹_›
    · cases taken
  | decode l now =>
    simp only [step] at taken
    split at taken
    · cases taken
      exact .decode ‹_›
    · cases taken
  | measure l raced =>
    simp only [step] at taken
    split at taken
    · cases taken
      exact .measure ‹_›
    · cases taken
  | drop l =>
    simp only [step] at taken
    split at taken
    · cases taken
      exact .drop ‹_›
    · cases taken
      exact .remember ‹_›
    · cases taken

omit [DecidableEq τ] in
lemma Backed.gave (h : w.Backed s token expiry found) : w.Gave s token found := by
  obtain ⟨time, claims, exp, hverified, hdecode, hprincipal, -, -⟩ := h
  exact ⟨time, claims, hverified, hdecode, hprincipal⟩

omit [DecidableEq τ] in
lemma Backed.mono (h : w.Backed s token expiry found) (le : s.verified ⊆ s'.verified) :
    w.Backed s' token expiry found := by
  obtain ⟨time, claims, exp, hverified, rest⟩ := h
  exact ⟨time, claims, exp, le hverified, rest⟩

omit [DecidableEq τ] in
lemma PcBacked.mono {pc : SignedPc τ} (h : w.PcBacked s pc) (le : s.verified ⊆ s'.verified) : w.PcBacked s' pc := by
  cases pc with
  | verified token time expiry found => exact Backed.mono h le
  | dropping token time expiry found oldest => exact Backed.mono h le
  | idle => trivial
  | called token => trivial
  | stale token => trivial
  | missed token => trivial

omit [DecidableEq τ] in
lemma Gave.mono (h : w.Gave s token found) (le : s.verified ⊆ s'.verified) : w.Gave s' token found := by
  obtain ⟨time, claims, hverified, rest⟩ := h
  exact ⟨time, claims, le hverified, rest⟩

namespace SignedInv

lemma start : w.SignedInv (.start τ) where
  cache token expiry found h := by cases h
  loops l := trivial
  accepted a h := by cases h

lemma backed (h : w.SignedInv s) {pc : SignedPc τ} (hpc : s.loops l = pc) : w.PcBacked s pc := by
  rw [← hpc]
  exact h.loops l

/-- A loop goes on. -/
lemma setLoop (h : w.SignedInv s) {pc : SignedPc τ} (hpc : w.PcBacked s pc) : w.SignedInv (s.setLoop l pc) where
  cache := h.cache
  loops k := by
    refine PcBacked.mono (s := s) ?_ (List.Subset.refl _)
    by_cases hk : k = l
    · subst hk
      simpa [SignedState.setLoop] using hpc
    · simpa [SignedState.setLoop, hk] using h.loops k
  accepted := h.accepted

/-- A loop returns with a token that has verified. -/
lemma accept (h : w.SignedInv s) {a : Acceptance τ} (gave : w.Gave s a.token a.found) :
    w.SignedInv (s.accept l a) where
  cache := h.cache
  loops := (h.setLoop (l := l) (show w.PcBacked s .idle from trivial)).loops
  accepted b hb := by
    obtain rfl | hb := List.mem_cons.mp hb
    · exact gave
    · exact h.accepted b hb

/-- The cache changes. -/
lemma recache (h : w.SignedInv s) {cache : OrderedDict τ (ℚ × Principal)}
    (hcache : ∀ token expiry found, cache.get token = some (expiry, found) → w.Backed s token expiry found) :
    w.SignedInv { s with cache } where
  cache := hcache
  loops := h.loops
  accepted := h.accepted

/-- A token verifies. -/
lemma record (h : w.SignedInv s) (entry : τ × ℚ) : w.SignedInv { s with verified := entry :: s.verified } where
  cache token expiry found hget := (h.cache token expiry found hget).mono (List.subset_cons_self ..)
  loops l := (h.loops l).mono (List.subset_cons_self ..)
  accepted a ha := (h.accepted a ha).mono (List.subset_cons_self ..)

lemma verify (h : w.SignedInv s) : w.SignedInv (w.verify s l token now) := by
  unfold SignedScheme.verify
  cases hdecode : w.decode token now with
  | error e => exact h.setLoop (by trivial)
  | ok claims =>
    dsimp only
    cases hprincipal : w.principal claims with
    | none => exact h.setLoop (by trivial)
    | some found =>
      have hnow : (token, now) ∈ (token, now) :: s.verified := List.mem_cons_self ..
      have hrecord := h.record (token, now)
      dsimp only
      by_cases hsize : w.cacheSize = 0
      · rw [if_pos hsize]
        exact hrecord.accept ⟨now, claims, hnow, hdecode, hprincipal⟩
      · rw [if_neg hsize]
        cases hexp : (w.exp claims).toFloat with
        | none => exact hrecord.setLoop (by trivial)
        | some exp => exact hrecord.setLoop ⟨now, claims, exp, hnow, hdecode, hprincipal, hexp, rfl⟩

/-- **Step.**  Every entry stays what verifying its token gave. -/
lemma step (h : w.SignedInv s) {a : SignedAct τ} (taken : w.step s a = some s') : w.SignedInv s' := by
  cases stepped taken with
  | call idle => exact h.setLoop (by trivial)
  | absent pc get => exact h.setLoop (by trivial)
  | hit pc get le => exact h.accept (h.cache _ _ _ get).gave
  | past pc get lt => exact h.setLoop (by trivial)
  | forget pc =>
    refine SignedInv.setLoop (h.recache ?_) (by trivial)
    intro token expiry found hget
    exact h.cache token expiry found (OrderedDict.get_of_get_erase hget)
  | decode pc => exact h.verify
  | measure pc =>
    have hbacked : w.Backed s _ _ _ := h.backed pc
    exact h.setLoop hbacked
  | drop pc =>
    have hbacked : w.Backed s _ _ _ := h.backed pc
    refine SignedInv.setLoop (h.recache ?_) hbacked
    intro token expiry found hget
    exact h.cache token expiry found (OrderedDict.get_of_get_erase hget)
  | remember pc =>
    have hbacked : w.Backed s _ _ _ := h.backed pc
    refine SignedInv.accept (h.recache ?_) hbacked.gave
    intro token expiry found hget
    obtain ⟨rfl, heq⟩ | hold := OrderedDict.get_of_get_set hget
    · cases heq
      exact hbacked
    · exact h.cache token expiry found hold

lemma of_reachable (h : Reachable w.step (.start τ) s) : w.SignedInv s :=
  h.invariant start fun _ _ _ hinv taken => hinv.step taken

end SignedInv

/-! ## Time -/

omit [DecidableEq τ] in
lemma verify_accepted : ∀ a ∈ (w.verify s l token now).accepted, a.cached = true → a ∈ s.accepted := by
  intro a ha hcached
  simp only [verify] at ha
  split at ha
  · exact ha
  · split at ha
    · exact ha
    · split at ha
      · obtain rfl | ha := List.mem_cons.mp ha
        · cases hcached
        · exact ha
      · split at ha
        · exact ha
        · exact ha

/-- What a step takes from the cache is taken in time, unless it is late. -/
lemma Unexpired.step (h : w.Unexpired s) (hinv : w.SignedInv s) {a : SignedAct τ} (hlate : ¬ w.Late s a)
    (taken : w.step s a = some s') : w.Unexpired s' := by
  cases stepped taken with
  | call idle => exact h
  | absent pc get => exact h
  | past pc get lt => exact h
  | forget pc => exact h
  | measure pc => exact h
  | drop pc => exact h
  | decode pc =>
    intro a ha hcached
    exact h a (verify_accepted a ha hcached) hcached
  | remember pc =>
    intro a ha hcached
    obtain rfl | ha := List.mem_cons.mp ha
    · cases hcached
    · exact h a ha hcached
  | @hit l token now expiry found pc get le =>
    intro a ha hcached
    obtain rfl | ha := List.mem_cons.mp ha
    · obtain ⟨time, claims, exp, -, hdecode, -, hexp, rfl⟩ := hinv.cache token expiry found get
      intro hexpired
      refine hlate ⟨token, time, claims, exp, pc, ?_, hdecode, hexp, (w.expires hdecode).mp hexpired, le⟩
      rw [get]
      rfl
    · exact h a ha hcached

/-- A late step takes a token from the cache that verifying refuses as expired. -/
lemma not_unexpired_of_late (hinv : w.SignedInv s) {a : SignedAct τ} (hlate : w.Late s a)
    (taken : w.step s a = some s') : ¬ w.Unexpired s' := by
  intro h
  cases a with
  | look l now =>
    obtain ⟨token, time, claims, exp, pc, hsome, hdecode, hexp, hexpired, hnow⟩ := hlate
    obtain ⟨⟨expiry, found⟩, hget⟩ := Option.isSome_iff_exists.mp hsome
    obtain ⟨time', claims', exp', -, hdecode', -, hexp', rfl⟩ := hinv.cache token expiry found hget
    obtain rfl := w.payload hdecode hdecode'
    rw [hexp] at hexp'
    cases hexp'
    have hs' : s' = s.accept l ⟨token, now, true, found⟩ := by
      simp only [step, pc, hget, if_pos hnow] at taken
      exact (Option.some.inj taken).symm
    subst hs'
    exact h ⟨token, now, true, found⟩ (List.mem_cons_self ..) rfl ((w.expires hdecode).mpr hexpired)
  | call l token => exact hlate
  | forget l => exact hlate
  | decode l now => exact hlate
  | measure l raced => exact hlate
  | drop l => exact hlate

/-! ## Size -/

/-- What a loop that is alone has room for. -/
def Room (w : SignedScheme τ γ) (cache : OrderedDict τ (ℚ × Principal)) : SignedPc τ → Prop
  | .verified _ _ _ _ => 0 < w.cacheSize
  | .dropping _ _ _ _ oldest => oldest <+: cache.keys ∧ cache.keys.length < w.cacheSize + oldest.length
  | _ => True

/-- Only loop `l` does anything, and the cache is not too large. -/
structure Alone (w : SignedScheme τ γ) (l : ℕ) (s : SignedState τ) : Prop where
  others : ∀ k, k ≠ l → s.loops k = .idle
  bounded : s.cache.keys.length ≤ w.cacheSize
  room : w.Room s.cache (s.loops l)

namespace Alone

omit [DecidableEq τ] in
lemma start : w.Alone l (.start τ) where
  others _ _ := rfl
  bounded := Nat.zero_le _
  room := trivial

omit [DecidableEq τ] in
/-- The loop goes on. -/
lemma setLoop (h : w.Alone l s) {pc : SignedPc τ} (room : w.Room s.cache pc) : w.Alone l (s.setLoop l pc) where
  others k hk := (Function.update_of_ne hk ..).trans (h.others k hk)
  bounded := h.bounded
  room := by simpa [SignedState.setLoop] using room

omit [DecidableEq τ] in
/-- The loop returns. -/
lemma accept (h : w.Alone l s) (a : Acceptance τ) : w.Alone l (s.accept l a) where
  others k hk := (Function.update_of_ne hk ..).trans (h.others k hk)
  bounded := h.bounded
  room := by simp [SignedState.accept, Room]

omit [DecidableEq τ] in
/-- The cache changes, and stays within its size. -/
lemma recache (h : w.Alone l s) {cache : OrderedDict τ (ℚ × Principal)} {pc : SignedPc τ}
    (bounded : cache.keys.length ≤ w.cacheSize) (room : w.Room cache pc) :
    w.Alone l ({ s with cache }.setLoop l pc) where
  others k hk := (Function.update_of_ne hk ..).trans (h.others k hk)
  bounded := bounded
  room := by simpa [SignedState.setLoop] using room

omit [DecidableEq τ] in
lemma has (h : w.Alone l s) {pc : SignedPc τ} (hpc : s.loops l = pc) : w.Room s.cache pc := by
  rw [← hpc]
  exact h.room

omit [DecidableEq τ] in
lemma verify (h : w.Alone l s) : w.Alone l (w.verify s l token now) := by
  have hrecord : w.Alone l { s with verified := (token, now) :: s.verified } := ⟨h.others, h.bounded, h.room⟩
  simp only [SignedScheme.verify]
  split
  · exact h.setLoop (by trivial)
  · split
    · exact h.setLoop (by trivial)
    · split
      · exact hrecord.accept _
      · split
        · exact hrecord.setLoop (by trivial)
        · rename_i hsize _ _ _
          exact hrecord.setLoop (Nat.pos_of_ne_zero hsize)

omit [DecidableEq τ] in
/-- What is dropped leaves room for one more. -/
lemma room_oldest (h : w.Alone l s) (pos : 0 < w.cacheSize) {time : ℚ} :
    w.Room s.cache (.dropping token time expiry found (w.oldest s false)) := by
  by_cases hfull : w.cacheSize ≤ s.cache.keys.length
  · rw [oldest, if_pos ⟨hfull, Bool.false_ne_true⟩]
    refine ⟨List.take_prefix .., ?_⟩
    have hbounded := h.bounded
    rw [List.length_take]
    omega
  · rw [oldest, if_neg fun hboth => hfull hboth.1]
    refine ⟨List.nil_prefix, ?_⟩
    rw [List.length_nil]
    omega

/-- **Step.**  A loop that is alone keeps the cache within its size. -/
lemma step (h : w.Alone l s) {a : SignedAct τ} (only : a.OnlyOn l) (taken : w.step s a = some s') :
    w.Alone l s' := by
  cases stepped taken with
  | call idle =>
    obtain rfl := only
    exact h.setLoop (by trivial)
  | absent pc get =>
    obtain rfl := only
    exact h.setLoop (by trivial)
  | hit pc get le =>
    obtain rfl := only
    exact h.accept _
  | past pc get lt =>
    obtain rfl := only
    exact h.setLoop (by trivial)
  | forget pc =>
    obtain rfl := only
    exact h.recache (OrderedDict.length_erase_le.trans h.bounded) (by trivial)
  | decode pc =>
    obtain rfl := only
    exact h.verify
  | measure pc =>
    obtain ⟨rfl, rfl⟩ := only
    exact h.setLoop (h.room_oldest (h.has pc))
  | @drop l token time expiry found key rest pc =>
    obtain rfl := only
    obtain ⟨⟨after, hkeys⟩, hlength⟩ := h.has pc
    have herase : (s.cache.erase key).keys = rest ++ after := OrderedDict.keys_erase_head hkeys.symm
    refine h.recache (OrderedDict.length_erase_le.trans h.bounded) ⟨⟨after, herase.symm⟩, ?_⟩
    rw [← hkeys] at hlength
    rw [herase]
    simp only [List.cons_append, List.length_cons, List.length_append] at hlength ⊢
    omega
  | remember pc =>
    obtain rfl := only
    obtain ⟨-, hlength⟩ := h.has pc
    rw [List.length_nil] at hlength
    refine ⟨fun k hk => (Function.update_of_ne hk ..).trans (h.others k hk), ?_, ?_⟩
    · exact OrderedDict.length_set_le.trans (by omega)
    · simp [SignedState.accept, Room]

lemma of_reaches (h : Reaches w.step (fun _ a => a.OnlyOn l) (.start τ) s) : w.Alone l s :=
  h.invariant start fun _ _ _ halone only taken => halone.step only taken

end Alone

/-! ## Runs -/

/-- **The cache does not outlive verification, but for late look-ups.**  In runs without them no token is taken from
the cache that verifying would refuse as expired, and each of them takes one.  In every run what is accepted has
verified and comes with the principal that verifying gave, and one loop keeps the cache within its size. -/
theorem cached_token_unexpired (w : SignedScheme τ γ) :
    (∀ s, Reaches w.step (fun s a => ¬ w.Late s a) (.start τ) s → w.Unexpired s) ∧
      (∀ s a s', Reachable w.step (.start τ) s → w.Late s a → w.step s a = some s' → ¬ w.Unexpired s') ∧
      (∀ s, Reachable w.step (.start τ) s → w.OnlyVerified s) ∧
      ∀ l s, Reaches w.step (fun _ a => a.OnlyOn l) (.start τ) s → s.cache.keys.length ≤ w.cacheSize := by
  refine ⟨?_, ?_, ?_, ?_⟩
  · intro s h
    have hboth : w.SignedInv s ∧ w.Unexpired s := by
      refine h.invariant (I := fun s => w.SignedInv s ∧ w.Unexpired s) ⟨.start, nofun⟩ ?_
      rintro s a s' ⟨hinv, hunexpired⟩ hlate taken
      exact ⟨hinv.step taken, hunexpired.step hinv hlate taken⟩
    exact hboth.2
  · intro s a s' h hlate taken
    exact not_unexpired_of_late (.of_reachable h) hlate taken
  · intro s h
    exact (SignedInv.of_reachable h).accepted
  · intro l s h
    exact (Alone.of_reaches h).bounded

/-- A token with `exp` 1000, and 60 seconds of leeway. -/
def thousand : SignedScheme Unit Unit where
  decode _ time := if 1000 ≤ rounded (time - 60) then .error .expired else .ok ()
  exp _ := .int 1000
  leeway := 60
  payload _ _ := rfl
  expires {_ _ later _} _ := by
    by_cases h : 1000 ≤ rounded (later - 60) <;> simp [h, PyNumber.toInt]
  principal _ := some
    { subject := "ada", scheme := "jwt", scopes := ∅, roles := ∅, claims := [], user := none, subject_ne := ada_ne_empty }
  cacheSize := 1

/-- The token is verified and remembered at 0, and looked up again. -/
def looksUpAgain (now : ℚ) : List (SignedAct Unit) :=
  [.call 0 (), .look 0 0, .decode 0 0, .measure 0 false, .drop 0, .call 0 (), .look 0 now]

/-- No look-up before 1060 is late. -/
lemma not_late_thousand {a : SignedAct Unit} (h : a ∈ looksUpAgain 1000) (s : SignedState Unit) :
    ¬ thousand.Late s a := by
  simp only [looksUpAgain, List.mem_cons, List.not_mem_nil, or_false] at h
  rcases h with rfl | rfl | rfl | rfl | rfl | rfl | rfl
  · exact id
  · rintro ⟨token, time, claims, exp, -, -, -, -, hexpired, -⟩
    exact absurd hexpired (show ¬ ((1000 : ℤ) : ℚ) ≤ rounded (0 - 60) by decide +kernel)
  · exact id
  · exact id
  · exact id
  · exact id
  · rintro ⟨token, time, claims, exp, -, -, -, -, hexpired, -⟩
    exact absurd hexpired (show ¬ ((1000 : ℤ) : ℚ) ≤ rounded (1000 - 60) by decide +kernel)

/-- At 1000 it is taken from the cache in time. -/
theorem unexpired_from_cache : ∃ s, Reaches thousand.step (fun s a => ¬ thousand.Late s a) (.start Unit) s ∧
    (s.accepted.any fun a => a.cached) = true ∧ thousand.Unexpired s := by
  have hrun : (exec thousand.step (fun _ a => a ∈ looksUpAgain 1000) (.start Unit) (looksUpAgain 1000)).any
      (fun s => s.accepted.any fun a => a.cached) = true := by
    decide +kernel
  obtain ⟨s, hs, hany⟩ := (Option.any_eq_true ..).mp hrun
  have hreaches := (Reaches.of_exec _ hs).mono fun s a h => not_late_thousand h s
  exact ⟨s, hreaches, hany, (cached_token_unexpired thousand).1 s hreaches⟩

/-- At 1060 it is taken from the cache, and verifying refuses it. -/
theorem expired_from_cache : ∃ s, Reachable thousand.step (.start Unit) s ∧ ¬ thousand.Unexpired s := by
  have hrun : (exec thousand.step (fun _ _ => True) (.start Unit) (looksUpAgain 1060)).any
      (fun s => s.accepted.any fun a => a.cached && decide (a.time = 1060)) = true := by
    decide +kernel
  have hexpired : thousand.decode () 1060 = .error .expired := by
    decide +kernel
  obtain ⟨s, hs, hany⟩ := (Option.any_eq_true ..).mp hrun
  refine ⟨s, Reachable.of_exec _ hs, ?_⟩
  intro h
  obtain ⟨a, ha, hcached⟩ := List.any_eq_true.mp hany
  rw [Bool.and_eq_true, decide_eq_true_iff] at hcached
  refine h a ha hcached.1 ?_
  rw [hcached.2]
  exact hexpired

end SignedScheme

end Oxbrook
