import Mathlib.Data.List.Basic
import Oxbrook.Foundation.Runs

/-!
# Keys that are withdrawn

`_Signed.check` of `python/oxbrook/auth.py` and `KeySet` of `python/oxbrook/_jwks.py`.  Any number of checks run on
worker loops; a fetch runs on a thread of a pool.  A check looks in the cache of verified tokens, and on a miss
finds the key of the token, verifies the token with it and remembers it.  A fetch stores the new keys under a
lock, and after that, if they changed, clears the cache.

Three histories are kept beside the state of the program: which keys are withdrawn, that is, lacking in a fetch
that has finished and not fetched again since; which keys were withdrawn when a check began; and which keys a
fetch lacks.  The docstring of `_Signed` says that a withdrawn key stops working at the refresh.  It need not:
a check that picked the key before may remember its token after the cache was cleared.
`withdrawn_key_stops` says in which runs it does.
-/

namespace Oxbrook

open StepMachine

/-! ## Key sets -/

/-- A signing key of a provider, as its document gives it. -/
structure Jwk (κ : Type) where
  kid : Option String
  key : κ
  text : String
  deriving DecidableEq

abbrev KeyTable (κ : Type) := List (Jwk κ)

namespace KeyTable

variable {κ : Type} [DecidableEq κ]

omit [DecidableEq κ] in
/-- `_pick`: a token without a key id is checked only against a set of one. -/
def pick (keys : KeyTable κ) : Option String → Option (Jwk κ)
  | none => if keys.length = 1 then keys.head? else none
  | some kid => keys.find? fun jwk => jwk.kid = some kid

def holds (keys : KeyTable κ) (k : κ) : Bool := keys.any fun jwk => jwk.key = k

/-- Two fetches with the same fingerprint. -/
def same (keys keys' : KeyTable κ) : Bool :=
  (keys.all fun jwk => jwk ∈ keys') && keys'.all fun jwk => jwk ∈ keys

omit [DecidableEq κ] in
lemma mem_of_pick {keys : KeyTable κ} {kid : Option String} {jwk : Jwk κ} (h : keys.pick kid = some jwk) :
    jwk ∈ keys := by
  cases kid with
  | none => exact List.mem_of_mem_head? (Option.ite_none_right_eq_some.mp h).2
  | some kid => exact List.mem_of_find?_eq_some h

lemma holds_iff {keys : KeyTable κ} {k : κ} : keys.holds k = true ↔ ∃ jwk ∈ keys, jwk.key = k := by
  simp [holds]

lemma holds_of_pick {keys : KeyTable κ} {kid : Option String} {jwk : Jwk κ} (h : keys.pick kid = some jwk) :
    keys.holds jwk.key = true := holds_iff.mpr ⟨jwk, mem_of_pick h, rfl⟩

/-- A key that is dropped changes the fingerprint. -/
lemma holds_of_same {keys keys' : KeyTable κ} (h : keys.same keys' = true) {k : κ}
    (hk : keys'.holds k = true) : keys.holds k = true := by
  obtain ⟨jwk, hmem, rfl⟩ := holds_iff.mp hk
  have hsub := List.all_eq_true.mp (Bool.and_eq_true_iff.mp h).2 jwk hmem
  exact holds_iff.mpr ⟨jwk, of_decide_eq_true hsub, rfl⟩

end KeyTable

/-! ## State -/

/-- A fetch on a thread of the pool.  It is `stored` between the lock and the end of its callback. -/
inductive FetchPc (κ : Type)
  | idle
  | running
  | stored (keys : KeyTable κ) (changed : Bool)
  | finished (keys : KeyTable κ)
  | failed

/-- A fetch that has brought nothing. -/
def FetchPc.Empty {κ : Type} : FetchPc κ → Prop
  | stored _ _ => False
  | finished _ => False
  | _ => True

/-- A fetch that has stored its keys and has its callback ahead of it: whether it clears the cache. -/
def FetchPc.toClear {κ : Type} : FetchPc κ → Option Bool
  | stored _ changed => some changed
  | _ => none

/-- Where a check stands.  `first` says whether it waits because there are no keys at all. -/
inductive CheckPc (κ τ : Type)
  | idle
  | missed (token : τ)
  | waiting (token : τ) (fetch : ℕ) (first : Bool)
  | picked (token : τ) (key : κ)
  | verified (token : τ) (key : κ) (expiry : ℕ)
  | accepted (token : τ) (key : κ)
  | refused

/-- The key a check is about to remember its token under. -/
def CheckPc.verifiedKey {κ τ : Type} : CheckPc κ τ → Option κ
  | verified _ key _ => some key
  | _ => none

/-- An entry of `_verified`, with the key it was verified with. -/
structure VerifiedToken (κ τ : Type) where
  token : τ
  expiry : ℕ
  key : κ

/-- What is given: the key id of a token, whether its algorithm is accepted, whether `find` takes a key for it,
what decoding says with a key (until when, or that it is refused), and the size of the cache. -/
structure TokenWorld (κ τ : Type) where
  kid : τ → Option String
  accepts : τ → Bool
  usable : Jwk κ → τ → Bool
  verify : κ → τ → Option ℕ
  cacheSize : ℕ

structure KeyState (κ τ : Type) where
  keys : Option (KeyTable κ)
  fetching : Option ℕ
  fetches : ℕ
  fetch : ℕ → FetchPc κ
  cache : List (VerifiedToken κ τ)
  check : ℕ → CheckPc κ τ
  withdrawn : κ → Bool
  lacking : ℕ → κ → Bool
  barred : ℕ → κ → Bool

def KeyState.start (κ τ : Type) : KeyState κ τ where
  keys := none
  fetching := none
  fetches := 0
  fetch _ := .idle
  cache := []
  check _ := .idle
  withdrawn _ := false
  lacking _ _ := false
  barred _ _ := false

/-- The atomic steps.  `spaced` says that the last fetch is long enough ago, `raced` that another loop changed the
cache while its oldest entries were dropped. -/
inductive KeyAct (κ τ : Type)
  | begin (c : ℕ) (token : τ) (now : ℕ)
  | find (c : ℕ) (spaced : Bool)
  | resume (c : ℕ) (spaced : Bool)
  | decode (c : ℕ)
  | remember (c : ℕ) (raced : Bool)
  | refresh (spaced : Bool)
  | store (f : ℕ) (keys : KeyTable κ)
  | fail (f : ℕ)
  | finish (f : ℕ)

namespace KeyState

variable {κ τ : Type} [DecidableEq κ] [DecidableEq τ]

/-- `_start`: the fetch in flight, or a new one. -/
def startFetch (s : KeyState κ τ) (spaced : Bool) : KeyState κ τ × Option ℕ :=
  match s.fetching with
  | some f => (s, some f)
  | none =>
    if spaced then
      ({ s with
          fetching := some s.fetches
          fetches := s.fetches + 1
          fetch := Function.update s.fetch s.fetches .running }, some s.fetches)
    else (s, none)

def setCheck (s : KeyState κ τ) (c : ℕ) (pc : CheckPc κ τ) : KeyState κ τ :=
  { s with check := Function.update s.check c pc }

/-- The end of `find`: the key, or that there is none. -/
def pickFrom (w : TokenWorld κ τ) (keys : KeyTable κ) (token : τ) : CheckPc κ τ :=
  match keys.pick (w.kid token) with
  | some jwk => if w.usable jwk token then .picked token jwk.key else .refused
  | none => .refused

/-- The rest of `find` once there are keys: a key id that is not among them may be worth another fetch. -/
def seek (s : KeyState κ τ) (w : TokenWorld κ τ) (c : ℕ) (token : τ) (keys : KeyTable κ) (spaced : Bool) :
    KeyState κ τ :=
  if ! w.accepts token then s.setCheck c .refused
  else match keys.pick (w.kid token), w.kid token with
    | none, some _ =>
      match s.startFetch spaced with
      | (s, some f) => s.setCheck c (.waiting token f false)
      | (s, none) => s.setCheck c .refused
    | _, _ => s.setCheck c (pickFrom w keys token)

/-- `_remember`. -/
def remembered (w : TokenWorld κ τ) (cache : List (VerifiedToken κ τ)) (entry : VerifiedToken κ τ)
    (raced : Bool) : List (VerifiedToken κ τ) :=
  let kept := if w.cacheSize ≤ cache.length ∧ ¬ raced then cache.drop (max 1 (w.cacheSize / 4)) else cache
  if kept.any fun e => e.token = entry.token then kept.map fun e => if e.token = entry.token then entry else e
  else kept ++ [entry]

/-- The keys of a fetch become the keys in hand.  None of them counts as withdrawn from here on. -/
def storeKeys (s : KeyState κ τ) (f : ℕ) (keys : KeyTable κ) : KeyState κ τ :=
  { s with
    keys := some keys
    fetching := none
    fetch := Function.update s.fetch f (.stored keys ((s.keys.map fun old => ! keys.same old).getD false))
    withdrawn := fun k => s.withdrawn k && ! keys.holds k
    lacking := fun g k => if g = f then ! keys.holds k else s.lacking g k && ! keys.holds k
    barred := fun c k => s.barred c k && ! keys.holds k }

/-- The end of a fetch: the callback, if the keys changed, and then its future completes. -/
def finishFetch (s : KeyState κ τ) (f : ℕ) (keys : KeyTable κ) (changed : Bool) : KeyState κ τ :=
  { s with
    cache := if changed then [] else s.cache
    fetch := Function.update s.fetch f (.finished keys)
    withdrawn := fun k => s.withdrawn k || s.lacking f k }

def step (w : TokenWorld κ τ) (s : KeyState κ τ) : KeyAct κ τ → Option (KeyState κ τ)
  | .begin c token now =>
    match s.check c with
    | .idle =>
      let s := { s with barred := Function.update s.barred c s.withdrawn }
      match s.cache.find? fun e => e.token = token with
      | some entry =>
        if now ≤ entry.expiry then some (s.setCheck c (.accepted token entry.key))
        else some ({ s with cache := s.cache.filter fun e => e.token ≠ token }.setCheck c (.missed token))
      | none => some (s.setCheck c (.missed token))
    | _ => none
  | .find c spaced =>
    match s.check c with
    | .missed token =>
      match s.keys with
      | none =>
        match s.startFetch spaced with
        | (s, some f) => some (s.setCheck c (.waiting token f true))
        | (s, none) => some (s.setCheck c .refused)
      | some keys => some (s.seek w c token keys spaced)
    | _ => none
  | .resume c spaced =>
    match s.check c with
    | .waiting token f first =>
      match s.fetch f with
      | .finished keys =>
        if first then some (s.seek w c token keys spaced)
        else some (s.setCheck c (pickFrom w keys token))
      | .failed =>
        if first then some (s.setCheck c .refused)
        else some (s.setCheck c (pickFrom w (s.keys.getD []) token))
      | _ => none
    | _ => none
  | .decode c =>
    match s.check c with
    | .picked token key =>
      match w.verify key token with
      | some expiry => some (s.setCheck c (.verified token key expiry))
      | none => some (s.setCheck c .refused)
    | _ => none
  | .remember c raced =>
    match s.check c with
    | .verified token key expiry =>
      if w.cacheSize = 0 then some (s.setCheck c (.accepted token key))
      else some ({ s with cache := remembered w s.cache ⟨token, expiry, key⟩ raced }.setCheck c
        (.accepted token key))
    | _ => none
  | .refresh spaced => some (s.startFetch spaced).1
  | .store f keys =>
    match s.fetch f with
    | .running => if keys = [] then none else some (s.storeKeys f keys)
    | _ => none
  | .fail f =>
    match s.fetch f with
    | .running => some { s with fetching := none, fetch := Function.update s.fetch f .failed }
    | _ => none
  | .finish f =>
    match s.fetch f with
    | .stored keys changed => some (s.finishFetch f keys changed)
    | _ => none

/-! ## What holds in every run -/

/-- The key is among the keys in hand. -/
def Held (s : KeyState κ τ) (k : κ) : Prop := ∃ keys, s.keys = some keys ∧ keys.holds k = true

/-- A fetch that lacks the key has changed the keys and has not cleared the cache yet. -/
def PendingFor (s : KeyState κ τ) (k : κ) : Prop :=
  ∃ f keys, s.fetch f = .stored keys true ∧ s.lacking f k = true

/-- A key that was fetched once is in hand, withdrawn, or about to be. -/
def Traced (s : KeyState κ τ) (k : κ) : Prop := s.Held k ∨ s.withdrawn k = true ∨ s.PendingFor k

/-- The keys a fetch has brought. -/
def Brought (s : KeyState κ τ) (f : ℕ) (keys : KeyTable κ) : Prop :=
  s.fetch f = .finished keys ∨ ∃ changed, s.fetch f = .stored keys changed

/-- No key a check goes by was withdrawn when it began. -/
def CheckFine (w : TokenWorld κ τ) (s : KeyState κ τ) (c : ℕ) : CheckPc κ τ → Prop
  | .waiting _ f _ => ∀ keys, s.Brought f keys → ∀ k, keys.holds k = true → s.barred c k = false
  | .picked _ k => s.barred c k = false ∧ s.Traced k
  | .verified token k _ => s.barred c k = false ∧ s.Traced k ∧ (w.verify k token).isSome = true
  | .accepted token k => s.barred c k = false ∧ (w.verify k token).isSome = true
  | _ => True

structure KeyInv (w : TokenWorld κ τ) (s : KeyState κ τ) : Prop where
  running : ∀ f, s.fetching = some f → s.fetch f = .running
  fresh : ∀ f, s.fetches ≤ f → s.fetch f = .idle
  withdrawn : ∀ k, s.withdrawn k = true → ¬ s.Held k
  lacking : ∀ f keys changed k, s.fetch f = .stored keys changed → s.lacking f k = true → ¬ s.Held k
  barred : ∀ c k, s.barred c k = true → ¬ s.Held k
  brought : ∀ f keys k, s.Brought f keys → keys.holds k = true → s.Traced k
  cache : ∀ e ∈ s.cache, s.withdrawn e.key = false ∧ (s.Held e.key ∨ s.PendingFor e.key) ∧
    (w.verify e.key e.token).isSome = true
  checks : ∀ c, CheckFine w s c (s.check c)

variable {w : TokenWorld κ τ} {s s' : KeyState κ τ}

omit [DecidableEq τ] in
/-- What a check goes by stays fine when no key is barred that was not, every key stays traced, and no fetch
brings a barred key. -/
lemma CheckFine.mono {c : ℕ} {pc : CheckPc κ τ} (h : CheckFine w s c pc)
    (barred : ∀ k, s.barred c k = false → s'.barred c k = false) (traced : ∀ k, s.Traced k → s'.Traced k)
    (brought : ∀ f keys k, s'.Brought f keys → keys.holds k = true →
      s.Brought f keys ∨ s'.barred c k = false) : CheckFine w s' c pc := by
  cases pc with
  | waiting token f first =>
    intro keys hf k hk
    obtain hold | hnew := brought f keys k hf hk
    · exact barred k (h keys hold k hk)
    · exact hnew
  | picked token k => exact ⟨barred k h.1, traced k h.2⟩
  | verified token k expiry => exact ⟨barred k h.1, traced k h.2.1, h.2.2⟩
  | accepted token k => exact ⟨barred k h.1, h.2⟩
  | idle => trivial
  | missed token => trivial
  | refused => trivial

omit [DecidableEq τ] in
lemma keyInv_start : KeyInv w (start κ τ) where
  running := nofun
  fresh _ _ := rfl
  withdrawn := nofun
  lacking := nofun
  barred := nofun
  brought := by
    rintro f keys k (h | ⟨changed, h⟩) <;> exact nomatch h
  cache := nofun
  checks _ := trivial

omit [DecidableEq τ] in
lemma KeyInv.setCheck (h : KeyInv w s) {c : ℕ} {pc : CheckPc κ τ} (fine : CheckFine w s c pc) :
    KeyInv w (s.setCheck c pc) where
  running := h.running
  fresh := h.fresh
  withdrawn := h.withdrawn
  lacking := h.lacking
  barred := h.barred
  brought := h.brought
  cache := h.cache
  checks d := by
    by_cases hd : d = c
    · subst hd
      simp only [KeyState.setCheck, Function.update_self]
      cases pc <;> exact fine
    · simp only [KeyState.setCheck, Function.update_of_ne hd]
      have hfine := h.checks d
      cases hpc : s.check d <;> rw [hpc] at hfine <;> exact hfine

omit [DecidableEq τ] in
/-- A fetch that starts or fails changes no key. -/
lemma KeyInv.replaceFetch (h : KeyInv w s) {f : ℕ} {pc : FetchPc κ} (old : (s.fetch f).Empty) (new : pc.Empty)
    {fetching : Option ℕ} {fetches : ℕ}
    (running : ∀ g, fetching = some g → Function.update s.fetch f pc g = .running)
    (fresh : ∀ g, fetches ≤ g → Function.update s.fetch f pc g = .idle) :
    KeyInv w { s with fetching, fetches, fetch := Function.update s.fetch f pc } := by
  set s' : KeyState κ τ := { s with fetching, fetches, fetch := Function.update s.fetch f pc } with hs'
  have hfetch : ∀ g, ¬ (s'.fetch g).Empty → s'.fetch g = s.fetch g := by
    intro g hg
    refine Function.update_of_ne (fun hgf => hg ?_) _ _
    subst hgf
    simpa only [hs', Function.update_self] using new
  have hkept : ∀ g, ¬ (s.fetch g).Empty → s'.fetch g = s.fetch g := by
    intro g hg
    refine Function.update_of_ne (fun hgf => hg ?_) _ _
    subst hgf
    exact old
  have hstored : ∀ g keys changed, s'.fetch g = .stored keys changed → s.fetch g = .stored keys changed := by
    intro g keys changed hg
    rw [← hfetch g (by simp [hg, FetchPc.Empty]), hg]
  have hbrought : ∀ g keys, s'.Brought g keys → s.Brought g keys := by
    rintro g keys (hg | ⟨changed, hg⟩)
    · exact .inl (by rw [← hfetch g (by simp [hg, FetchPc.Empty]), hg])
    · exact .inr ⟨changed, hstored g keys changed hg⟩
  have hpending : ∀ k, s.PendingFor k → s'.PendingFor k := by
    rintro k ⟨g, keys, hg, hlacking⟩
    exact ⟨g, keys, by rw [hkept g (by simp [hg, FetchPc.Empty]), hg], hlacking⟩
  have htraced : ∀ k, s.Traced k → s'.Traced k := fun k => Or.imp id (Or.imp id (hpending k))
  exact {
    running := running
    fresh := fresh
    withdrawn := h.withdrawn
    lacking := fun g keys changed k hg => h.lacking g keys changed k (hstored g keys changed hg)
    barred := h.barred
    brought := fun g keys k hg hk => htraced k (h.brought g keys k (hbrought g keys hg) hk)
    cache := fun e he => by
      obtain ⟨hnot, hcovered, hverify⟩ := h.cache e he
      exact ⟨hnot, hcovered.imp id (hpending _), hverify⟩
    checks := fun c => (h.checks c).mono (fun _ hk => hk) htraced fun g keys _ hg _ => .inl (hbrought g keys hg) }

omit [DecidableEq τ] in
lemma KeyInv.startFetch (h : KeyInv w s) (spaced : Bool) :
    KeyInv w (s.startFetch spaced).1 ∧
      ∀ f, (s.startFetch spaced).2 = some f → (s.startFetch spaced).1.fetch f = .running := by
  rw [KeyState.startFetch]
  cases hfetching : s.fetching with
  | some f =>
    refine ⟨h, fun g hg => ?_⟩
    obtain rfl := Option.some.inj hg
    exact h.running _ hfetching
  | none =>
    cases spaced with
    | false => exact ⟨h, nofun⟩
    | true =>
      have hold : s.fetch s.fetches = .idle := h.fresh _ (Nat.le_refl _)
      have hnew : (FetchPc.running : FetchPc κ).Empty := trivial
      refine ⟨h.replaceFetch (by simp [hold, FetchPc.Empty]) hnew ?_ ?_, ?_⟩
      · intro g hg
        obtain rfl := Option.some.inj hg
        exact Function.update_self _ _ _
      · intro g hg
        rw [Function.update_of_ne (by omega)]
        exact h.fresh g (by omega)
      · intro g hg
        obtain rfl := Option.some.inj hg
        exact Function.update_self _ _ _

omit [DecidableEq τ] in
lemma checkFine_pickFrom {c : ℕ} {token : τ} {keys : KeyTable κ}
    (h : ∀ k, keys.holds k = true → s.barred c k = false ∧ s.Traced k) :
    CheckFine w s c (pickFrom w keys token) := by
  rw [pickFrom]
  cases hpick : keys.pick (w.kid token) with
  | none => trivial
  | some jwk =>
    simp only
    split
    · exact h jwk.key (KeyTable.holds_of_pick hpick)
    · trivial

omit [DecidableEq τ] in
lemma KeyInv.waitFor (h : KeyInv w s) (c : ℕ) (token : τ) (spaced first : Bool) :
    KeyInv w (match s.startFetch spaced with
      | (s, some f) => s.setCheck c (.waiting token f first)
      | (s, none) => s.setCheck c .refused) := by
  obtain ⟨hnext, hrunning⟩ := h.startFetch spaced
  split
  case h_1 t f heq =>
    rw [heq] at hnext hrunning
    refine hnext.setCheck ?_
    rintro keys' (hf | ⟨changed, hf⟩)
    · exact nomatch (hrunning f rfl).symm.trans hf
    · exact nomatch (hrunning f rfl).symm.trans hf
  case h_2 t heq =>
    rw [heq] at hnext
    exact hnext.setCheck trivial

omit [DecidableEq τ] in
lemma KeyInv.seek (h : KeyInv w s) {c : ℕ} {token : τ} {keys : KeyTable κ} (spaced : Bool)
    (fine : ∀ k, keys.holds k = true → s.barred c k = false ∧ s.Traced k) :
    KeyInv w (s.seek w c token keys spaced) := by
  rw [KeyState.seek]
  split
  · exact h.setCheck trivial
  · split
    · exact h.waitFor c token spaced false
    · exact h.setCheck (checkFine_pickFrom fine)

omit [DecidableEq τ] in
/-- A key in hand was not withdrawn when a check began. -/
lemma KeyInv.inHand (h : KeyInv w s) {keys : KeyTable κ} (hkeys : s.keys = some keys) (c : ℕ) {k : κ}
    (hk : keys.holds k = true) : s.barred c k = false ∧ s.Traced k := by
  have hheld : s.Held k := ⟨keys, hkeys, hk⟩
  exact ⟨eq_false_of_ne_true fun hbarred => h.barred c k hbarred hheld, .inl hheld⟩

omit [DecidableEq κ] in
/-- A remembered token is in the cache, and nothing else is new. -/
lemma mem_remembered {cache : List (VerifiedToken κ τ)} {entry e : VerifiedToken κ τ} {raced : Bool}
    (he : e ∈ remembered w cache entry raced) : e = entry ∨ e ∈ cache := by
  rw [remembered] at he
  generalize hk : (if w.cacheSize ≤ cache.length ∧ ¬ raced then cache.drop (max 1 (w.cacheSize / 4)) else cache)
    = kept at he
  have hkept : ∀ e ∈ kept, e ∈ cache := by
    intro e he
    rw [← hk] at he
    by_cases hfull : w.cacheSize ≤ cache.length ∧ ¬ raced
    · rw [if_pos hfull] at he
      exact List.mem_of_mem_drop he
    · rwa [if_neg hfull] at he
  split at he
  · obtain ⟨e', he', rfl⟩ := List.mem_map.mp he
    split
    · exact .inl rfl
    · exact .inr (hkept e' he')
  · obtain he | he := List.mem_append.mp he
    · exact .inr (hkept e he)
    · exact .inl (List.mem_singleton.mp he)

/-! ## Each step -/

omit [DecidableEq κ] [DecidableEq τ] in
/-- In which states a step may be taken for a withdrawn key to stop working: a check does not remember a token
under a key that is withdrawn by then, and a fetch that found the keys unchanged does not finish before one that
changed them has cleared the cache. -/
def Permitted (s : KeyState κ τ) : KeyAct κ τ → Prop
  | .remember c _ => ∀ k ∈ (s.check c).verifiedKey, s.withdrawn k = false
  | .finish f => (s.fetch f).toClear = some false → ∀ g < s.fetches, (s.fetch g).toClear ≠ some true
  | _ => True

instance (s : KeyState κ τ) : (a : KeyAct κ τ) → Decidable (s.Permitted a)
  | .remember c _ => inferInstanceAs (Decidable (∀ k ∈ (s.check c).verifiedKey, s.withdrawn k = false))
  | .finish f => inferInstanceAs
      (Decidable ((s.fetch f).toClear = some false → ∀ g < s.fetches, (s.fetch g).toClear ≠ some true))
  | .begin _ _ _ | .find _ _ | .resume _ _ | .decode _ | .refresh _ | .store _ _ | .fail _ => .isTrue trivial

lemma KeyInv.begin (h : KeyInv w s) {c : ℕ} {token : τ} {now : ℕ}
    (taken : step w s (.begin c token now) = some s') : KeyInv w s' := by
  simp only [step] at taken
  split at taken
  case h_2 => exact nomatch taken
  case h_1 hidle =>
    -- the check begins: from here on it may not go by a key that is withdrawn now
    have hbegun : KeyInv w { s with barred := Function.update s.barred c s.withdrawn } := {
      running := h.running
      fresh := h.fresh
      withdrawn := h.withdrawn
      lacking := h.lacking
      barred := fun d k hk => by
        by_cases hd : d = c
        · subst hd
          simp only [Function.update_self] at hk
          exact h.withdrawn k hk
        · simp only [Function.update_of_ne hd] at hk
          exact h.barred d k hk
      brought := h.brought
      cache := h.cache
      checks := fun d => by
        by_cases hd : d = c
        · subst hd
          simp only [hidle]
          trivial
        · refine (h.checks d).mono (fun k hk => ?_) (fun _ hk => hk) fun _ _ _ hg _ => .inl hg
          simpa only [Function.update_of_ne hd] using hk }
    split at taken
    case h_2 =>
      obtain rfl := Option.some.inj taken
      exact hbegun.setCheck trivial
    case h_1 entry hentry =>
      split at taken
      · obtain rfl := Option.some.inj taken
        obtain ⟨hnot, -, hverify⟩ := h.cache entry (List.mem_of_find?_eq_some hentry)
        have htoken : entry.token = token := by simpa using List.find?_some hentry
        refine hbegun.setCheck ⟨?_, htoken ▸ hverify⟩
        simpa only [Function.update_self] using hnot
      · obtain rfl := Option.some.inj taken
        have hpopped : KeyInv w { s with
            barred := Function.update s.barred c s.withdrawn
            cache := s.cache.filter fun e => e.token ≠ token } :=
          { hbegun with cache := fun e he => hbegun.cache e (List.mem_of_mem_filter he) }
        exact hpopped.setCheck trivial

lemma KeyInv.find (h : KeyInv w s) {c : ℕ} {spaced : Bool}
    (taken : step w s (.find c spaced) = some s') : KeyInv w s' := by
  simp only [step] at taken
  split at taken
  case h_2 => exact nomatch taken
  case h_1 token hpc =>
    split at taken
    case h_1 hkeys =>
      have hnext := h.waitFor c token spaced true
      split at taken <;> obtain rfl := Option.some.inj taken <;> simpa only [*] using hnext
    case h_2 keys hkeys =>
      obtain rfl := Option.some.inj taken
      exact h.seek spaced fun k hk => h.inHand hkeys c hk

lemma KeyInv.resume (h : KeyInv w s) {c : ℕ} {spaced : Bool}
    (taken : step w s (.resume c spaced) = some s') : KeyInv w s' := by
  simp only [step] at taken
  split at taken
  case h_2 => exact nomatch taken
  case h_1 token f first hpc =>
    have hfine : CheckFine w s c (.waiting token f first) := hpc ▸ h.checks c
    split at taken
    case h_1 keys hf =>
      have hbrought : s.Brought f keys := .inl hf
      have hkeys : ∀ k, keys.holds k = true → s.barred c k = false ∧ s.Traced k :=
        fun k hk => ⟨hfine keys hbrought k hk, h.brought f keys k hbrought hk⟩
      split at taken <;> obtain rfl := Option.some.inj taken
      · exact h.seek spaced hkeys
      · exact h.setCheck (checkFine_pickFrom hkeys)
    case h_2 hf =>
      split at taken <;> obtain rfl := Option.some.inj taken
      · exact h.setCheck trivial
      · refine h.setCheck (checkFine_pickFrom fun k hk => ?_)
        cases hkeys : s.keys with
        | none =>
          rw [hkeys] at hk
          exact nomatch hk
        | some keys =>
          rw [hkeys] at hk
          exact h.inHand hkeys c hk
    case h_3 => exact nomatch taken

lemma KeyInv.decode (h : KeyInv w s) {c : ℕ} (taken : step w s (.decode c) = some s') : KeyInv w s' := by
  simp only [step] at taken
  split at taken
  case h_2 => exact nomatch taken
  case h_1 token k hpc =>
    have hfine : CheckFine w s c (.picked token k) := hpc ▸ h.checks c
    split at taken <;> obtain rfl := Option.some.inj taken
    case h_1 expiry hverify => exact h.setCheck ⟨hfine.1, hfine.2, by rw [hverify]; rfl⟩
    case h_2 => exact h.setCheck trivial

lemma KeyInv.remember (h : KeyInv w s) {c : ℕ} {raced : Bool} (permitted : s.Permitted (.remember c raced))
    (taken : step w s (.remember c raced) = some s') : KeyInv w s' := by
  simp only [step] at taken
  split at taken
  case h_2 => exact nomatch taken
  case h_1 token k expiry hpc =>
    obtain ⟨hbarred, htraced, hverify⟩ : CheckFine w s c (.verified token k expiry) := hpc ▸ h.checks c
    have hnot : s.withdrawn k = false := permitted k (by rw [hpc]; rfl)
    split at taken <;> obtain rfl := Option.some.inj taken
    · exact h.setCheck ⟨hbarred, hverify⟩
    · have hcovered : s.Held k ∨ s.PendingFor k := by
        rcases htraced with hheld | hwithdrawn | hpending
        · exact .inl hheld
        · exact nomatch hnot.symm.trans hwithdrawn
        · exact .inr hpending
      have hnext : KeyInv w { s with cache := remembered w s.cache ⟨token, expiry, k⟩ raced } := { h with
        cache := fun e he => by
          rcases mem_remembered he with rfl | he
          · exact ⟨hnot, hcovered, hverify⟩
          · exact h.cache e he
        checks := fun d =>
          (h.checks d).mono (fun _ hk => hk) (fun _ hk => hk) fun _ _ _ hg _ => .inl hg }
      exact hnext.setCheck ⟨hbarred, hverify⟩

lemma KeyInv.fail (h : KeyInv w s) {f : ℕ} (taken : step w s (.fail f) = some s') : KeyInv w s' := by
  simp only [step] at taken
  split at taken
  case h_2 => exact nomatch taken
  case h_1 hf =>
    obtain rfl := Option.some.inj taken
    have hnew : (FetchPc.failed : FetchPc κ).Empty := trivial
    refine h.replaceFetch (by simp [hf, FetchPc.Empty]) hnew nofun fun g hg => ?_
    by_cases hgf : g = f
    · subst hgf
      exact nomatch (h.fresh g hg).symm.trans hf
    · rw [Function.update_of_ne hgf]
      exact h.fresh g hg

/-! ### A fetch stores its keys -/

section Store

variable {f : ℕ} {keys : KeyTable κ}

omit [DecidableEq τ]

lemma held_storeKeys {k : κ} : (s.storeKeys f keys).Held k ↔ keys.holds k = true := by
  constructor
  · rintro ⟨keys', hkeys', hk⟩
    obtain rfl := Option.some.inj hkeys'
    exact hk
  · intro hk
    exact ⟨keys, rfl, hk⟩

/-- What is recorded against the keys that a fetch brings is taken back. -/
lemma not_held_storeKeys {b : Bool} {k : κ} (h : (b && ! keys.holds k) = true) :
    ¬ (s.storeKeys f keys).Held k := by
  intro hk
  rw [held_storeKeys.mp hk] at h
  simp at h

lemma fetch_storeKeys_self : (s.storeKeys f keys).fetch f =
    .stored keys ((s.keys.map fun old => ! keys.same old).getD false) := Function.update_self _ _ _

lemma fetch_storeKeys_of_ne {g : ℕ} (hg : g ≠ f) : (s.storeKeys f keys).fetch g = s.fetch g :=
  Function.update_of_ne hg _ _

lemma PendingFor.storeKeys {k : κ} (h : s.PendingFor k) (hf : s.fetch f = .running) :
    (s.storeKeys f keys).Held k ∨ (s.storeKeys f keys).PendingFor k := by
  obtain ⟨g, keys', hg, hlacking⟩ := h
  have hgf : g ≠ f := by
    rintro rfl
    exact nomatch hf.symm.trans hg
  by_cases hk : keys.holds k = true
  · exact .inl (held_storeKeys.mpr hk)
  · refine .inr ⟨g, keys', (fetch_storeKeys_of_ne hgf).trans hg, ?_⟩
    simp only [KeyState.storeKeys, if_neg hgf, hlacking, Bool.true_and, Bool.not_eq_true', eq_false_of_ne_true hk]

/-- A key that is dropped changes the keys, so the cache will be cleared. -/
lemma Held.storeKeys {k : κ} (h : s.Held k) :
    (s.storeKeys f keys).Held k ∨ (s.storeKeys f keys).PendingFor k := by
  obtain ⟨old, hold, hk⟩ := h
  by_cases hnew : keys.holds k = true
  · exact .inl (held_storeKeys.mpr hnew)
  · have hdiffers : keys.same old = false :=
      eq_false_of_ne_true fun hsame => hnew (KeyTable.holds_of_same hsame hk)
    refine .inr ⟨f, keys, ?_, ?_⟩
    · rw [fetch_storeKeys_self, hold]
      simp [hdiffers]
    · simp only [KeyState.storeKeys, if_true, Bool.not_eq_true', eq_false_of_ne_true hnew]

lemma Traced.storeKeys {k : κ} (h : s.Traced k) (hf : s.fetch f = .running) :
    (s.storeKeys f keys).Traced k := by
  rcases h with hk | hk | hk
  · exact hk.storeKeys.imp id .inr
  · by_cases hnew : keys.holds k = true
    · exact .inl (held_storeKeys.mpr hnew)
    · refine .inr (.inl ?_)
      simp only [KeyState.storeKeys, hk, Bool.true_and, Bool.not_eq_true', eq_false_of_ne_true hnew]
  · exact (hk.storeKeys hf).imp id .inr

lemma Brought.of_storeKeys {g : ℕ} {keys' : KeyTable κ} (h : (s.storeKeys f keys).Brought g keys') :
    keys' = keys ∨ s.Brought g keys' := by
  by_cases hg : g = f
  · subst hg
    rcases h with h | ⟨changed, h⟩
    · exact nomatch fetch_storeKeys_self.symm.trans h
    · exact .inl (FetchPc.stored.inj (fetch_storeKeys_self.symm.trans h)).1.symm
  · rw [Brought, fetch_storeKeys_of_ne hg] at h
    exact .inr h

lemma KeyInv.storeKeys (h : KeyInv w s) (hf : s.fetch f = .running) : KeyInv w (s.storeKeys f keys) where
  running := nofun
  fresh g hg := by
    have hgf : g ≠ f := by
      rintro rfl
      exact nomatch hf.symm.trans (h.fresh g hg)
    exact (fetch_storeKeys_of_ne hgf).trans (h.fresh g hg)
  withdrawn _ hk := not_held_storeKeys hk
  lacking g _ _ k _ hk := by
    by_cases hg : g = f
    · simp only [KeyState.storeKeys, if_pos hg] at hk
      exact not_held_storeKeys (b := true) hk
    · simp only [KeyState.storeKeys, if_neg hg] at hk
      exact not_held_storeKeys hk
  barred _ _ hk := not_held_storeKeys hk
  brought g keys' k hg hk := by
    rcases hg.of_storeKeys with rfl | hold
    · exact .inl (held_storeKeys.mpr hk)
    · exact (h.brought g keys' k hold hk).storeKeys hf
  cache e he := by
    obtain ⟨hnot, hcovered, hverify⟩ := h.cache e he
    refine ⟨?_, hcovered.elim Held.storeKeys fun hk => hk.storeKeys hf, hverify⟩
    simp only [KeyState.storeKeys, hnot, Bool.false_and]
  checks c := by
    refine (h.checks c).mono ?_ (fun k hk => hk.storeKeys hf) ?_
    · intro k hk
      simp only [KeyState.storeKeys, hk, Bool.false_and]
    · intro g keys' k hg hk
      rcases hg.of_storeKeys with rfl | hold
      · refine .inr ?_
        simp only [KeyState.storeKeys, hk, Bool.not_true, Bool.and_false]
      · exact .inl hold

end Store

/-! ### A fetch finishes -/

section Finish

variable {f : ℕ} {keys : KeyTable κ} {changed : Bool}

omit [DecidableEq τ]

lemma Traced.finishFetch {k : κ} (h : s.Traced k) (hf : s.fetch f = .stored keys changed) :
    (s.finishFetch f keys changed).Traced k := by
  rcases h with hk | hk | ⟨g, keys', hg, hlacking⟩
  · exact .inl hk
  · refine .inr (.inl ?_)
    simp only [KeyState.finishFetch, hk, Bool.true_or]
  · by_cases hgf : g = f
    · subst hgf
      refine .inr (.inl ?_)
      simp only [KeyState.finishFetch, hlacking, Bool.or_true]
    · exact .inr (.inr ⟨g, keys', (Function.update_of_ne hgf _ _).trans hg, hlacking⟩)

omit [DecidableEq κ] in
lemma Brought.of_finishFetch {g : ℕ} {keys' : KeyTable κ} (hf : s.fetch f = .stored keys changed)
    (h : (s.finishFetch f keys changed).Brought g keys') : s.Brought g keys' := by
  by_cases hg : g = f
  · subst hg
    simp only [Brought, KeyState.finishFetch, Function.update_self] at h
    rcases h with h | ⟨_, h⟩
    · obtain rfl := FetchPc.finished.inj h
      exact .inr ⟨changed, hf⟩
    · exact nomatch h
  · simpa only [Brought, KeyState.finishFetch, Function.update_of_ne hg] using h

lemma KeyInv.finishFetch (h : KeyInv w s) (hf : s.fetch f = .stored keys changed)
    (alone : changed = false → ∀ g keys', s.fetch g ≠ .stored keys' true) :
    KeyInv w (s.finishFetch f keys changed) where
  running g hg := by
    have hgf : g ≠ f := by
      rintro rfl
      exact nomatch hf.symm.trans (h.running g hg)
    exact (Function.update_of_ne hgf _ _).trans (h.running g hg)
  fresh g hg := by
    have hgf : g ≠ f := by
      rintro rfl
      exact nomatch hf.symm.trans (h.fresh g hg)
    exact (Function.update_of_ne hgf _ _).trans (h.fresh g hg)
  withdrawn k hk := by
    rcases Bool.or_eq_true_iff.mp hk with hk | hk
    · exact h.withdrawn k hk
    · exact h.lacking f keys changed k hf hk
  lacking g keys' changed' k hg hk := by
    by_cases hgf : g = f
    · subst hgf
      exact h.lacking g keys changed k hf hk
    · exact h.lacking g keys' changed' k ((Function.update_of_ne hgf _ _).symm.trans hg) hk
  barred := h.barred
  brought g keys' k hg hk := (h.brought g keys' k (hg.of_finishFetch hf) hk).finishFetch hf
  cache e he := by
    cases changed with
    | true => exact nomatch he
    | false =>
      obtain ⟨hnot, hcovered, hverify⟩ := h.cache e he
      -- no other fetch is about to clear the cache, so the key of the entry is in hand
      have hheld : s.Held e.key := by
        rcases hcovered with hheld | ⟨g, keys', hg, -⟩
        · exact hheld
        · exact absurd hg (alone rfl g keys')
      refine ⟨?_, .inl hheld, hverify⟩
      simp only [KeyState.finishFetch, hnot, Bool.false_or]
      exact eq_false_of_ne_true fun hlacking => h.lacking f keys false e.key hf hlacking hheld
  checks c := (h.checks c).mono (fun _ hk => hk) (fun _ hk => hk.finishFetch hf)
    fun _ _ _ hg _ => .inl (hg.of_finishFetch hf)

end Finish

lemma KeyInv.finish (h : KeyInv w s) {f : ℕ} (permitted : s.Permitted (.finish f))
    (taken : step w s (.finish f) = some s') : KeyInv w s' := by
  simp only [step] at taken
  split at taken
  case h_2 => exact nomatch taken
  case h_1 keys changed hf =>
    obtain rfl := Option.some.inj taken
    refine h.finishFetch hf ?_
    rintro rfl g keys' hg
    have hlt : g < s.fetches := by
      by_contra hge
      exact nomatch (h.fresh g (Nat.le_of_not_lt hge)).symm.trans hg
    refine permitted ?_ g hlt ?_
    · rw [hf]
      rfl
    · rw [hg]
      rfl

/-- Every permitted step keeps the invariant. -/
lemma KeyInv.step (h : KeyInv w s) {a : KeyAct κ τ} (permitted : s.Permitted a)
    (taken : step w s a = some s') : KeyInv w s' := by
  cases a with
  | begin c token now => exact h.begin taken
  | find c spaced => exact h.find taken
  | resume c spaced => exact h.resume taken
  | decode c => exact h.decode taken
  | remember c raced => exact h.remember permitted taken
  | refresh spaced =>
    obtain rfl := Option.some.inj taken
    exact (h.startFetch spaced).1
  | store f keys =>
    simp only [KeyState.step] at taken
    split at taken
    case h_2 => exact nomatch taken
    case h_1 hf =>
      obtain rfl := Option.some.inj (Option.ite_none_left_eq_some.mp taken).2
      exact h.storeKeys hf
  | fail f => exact h.fail taken
  | finish f => exact h.finish permitted taken

lemma keyInv_of_reaches (h : Reaches (step w) Permitted (start κ τ) s) : KeyInv w s :=
  h.invariant keyInv_start fun _ _ _ hs permitted taken => hs.step permitted taken

/-- **A withdrawn key stops working.**  In every run whose steps are permitted, no entry of the cache was verified
with a key that is withdrawn, and a check that began after a key was withdrawn accepts no token that only this key
verifies. -/
theorem withdrawn_key_stops (h : Reaches (step w) Permitted (start κ τ) s) :
    (∀ e ∈ s.cache, s.withdrawn e.key = false) ∧
      ∀ c token k, s.barred c k = true → (∀ k', (w.verify k' token).isSome = true → k' = k) →
        ∀ k', s.check c ≠ .accepted token k' := by
  have inv := keyInv_of_reaches h
  constructor
  · intro e he
    exact (inv.cache e he).1
  · intro c token k hbarred honly k' hpc
    obtain ⟨hnot, hverify⟩ : CheckFine w s c (.accepted token k') := hpc ▸ inv.checks c
    obtain rfl := honly k' hverify
    exact nomatch hnot.symm.trans hbarred

end KeyState

/-! ## A check across the refresh -/

/-- Keys `1` and `2` with the key id they have; a token names the key that signed it. -/
def twoKeys : TokenWorld ℕ ℕ where
  kid token := some (if token = 1 then "a" else "b")
  accepts _ := true
  usable _ _ := true
  verify key token := if key = token then some 100 else none
  cacheSize := 4

lemma twoKeys_only {k : ℕ} (h : (twoKeys.verify k 1).isSome = true) : k = 1 := by
  by_contra hne
  simp [twoKeys, hne] at h

namespace KeyState

/-- The key `1` is fetched, a check picks it, verifies its token and remembers it, the key `2` is fetched in its
place, and another check begins. -/
def rotation : List (KeyAct ℕ ℕ) :=
  [.begin 0 1 0, .find 0 true, .store 0 [⟨some "a", 1, "1"⟩], .finish 0, .resume 0 true, .decode 0,
    .remember 0 false, .refresh true, .store 1 [⟨some "b", 2, "2"⟩], .finish 1, .begin 1 1 0]

/-- The same, but the first check remembers its token after the refresh. -/
def straddling : List (KeyAct ℕ ℕ) :=
  [.begin 0 1 0, .find 0 true, .store 0 [⟨some "a", 1, "1"⟩], .finish 0, .resume 0 true, .decode 0,
    .refresh true, .store 1 [⟨some "b", 2, "2"⟩], .finish 1, .remember 0 false, .begin 1 1 0]

/-- The key `1` is withdrawn, its token is in the cache, and a check that began since has accepted it. -/
theorem straddling_check_keeps_key : ∃ s, Reachable (step twoKeys) (start ℕ ℕ) s ∧
    (¬ ∀ e ∈ s.cache, s.withdrawn e.key = false) ∧ s.barred 1 1 = true ∧
      (∀ k', (twoKeys.verify k' 1).isSome = true → k' = 1) ∧ s.check 1 = .accepted 1 1 := by
  refine ⟨_, Reachable.of_exec straddling rfl, ?_, rfl, fun _ => twoKeys_only, rfl⟩
  intro h
  exact nomatch h ⟨1, 100, 1⟩ (List.mem_singleton.mpr rfl)

/-- In the orderly rotation the second check has to look for a key. -/
theorem rotation_stops_key : ∃ s, Reaches (step twoKeys) Permitted (start ℕ ℕ) s ∧ s.withdrawn 1 = true ∧
    (∀ e ∈ s.cache, s.withdrawn e.key = false) ∧ ∀ k', s.check 1 ≠ .accepted 1 k' := by
  obtain ⟨s, hrun⟩ : ∃ s, exec (step twoKeys) Permitted (start ℕ ℕ) rotation = some s := ⟨_, rfl⟩
  have hreached : Reaches (step twoKeys) Permitted (start ℕ ℕ) s := Reaches.of_exec rotation hrun
  have hstop := withdrawn_key_stops hreached
  obtain rfl := Option.some.inj hrun
  exact ⟨_, hreached, rfl, hstop.1, hstop.2 1 1 1 rfl fun _ => twoKeys_only⟩

end KeyState

end Oxbrook
