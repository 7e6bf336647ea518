import Mathlib.Algebra.Group.Nat.Defs
import Mathlib.Data.List.AList
import Oxbrook.Foundation.CellRate

/-!
# The limiter kept in memory

`Limit::spend` of `src/limit.rs`.  The times are kept in 64 shards, by the top bits of the key.  A shard is
swept when an insert finds it grown past a threshold: every time that has passed is dropped, and the threshold
is set to twice what is left.  The arithmetic is that of `u64`: the sum of a time and an interval wraps, and the
tolerance, `burst` intervals, saturates.

`limit_enforces_rate` compares the limiter with the one that never forgets, for every interval and burst, and
bounds what it allows as long as no sum wraps.  `RateLimit` passes at most a day for the interval and at most
100,000 for the burst, which keeps the sums below `2 ^ 64` nanoseconds for centuries.
-/

namespace Oxbrook

open CellRate

/-! ## Arithmetic of `u64` -/

/-- `a + b`. -/
def wrappingAdd (a b : ℕ) : ℕ := (a + b) % 2 ^ 64

/-- `a - b`. -/
def wrappingSub (a b : ℕ) : ℕ := (a + (2 ^ 64 - b)) % 2 ^ 64

/-- `a.saturating_mul(b)`. -/
def saturatingMul (a b : ℕ) : ℕ := min (a * b) (2 ^ 64 - 1)

lemma wrappingAdd_of_lt {a b : ℕ} (h : a + b < 2 ^ 64) : wrappingAdd a b = a + b := Nat.mod_eq_of_lt h

lemma wrappingSub_of_le {a b : ℕ} (le : b ≤ a) (lt : a < 2 ^ 64) : wrappingSub a b = a - b := by
  have hsum : a + (2 ^ 64 - b) = a - b + 2 ^ 64 := by omega
  rw [wrappingSub, hsum, Nat.add_mod_right, Nat.mod_eq_of_lt (by omega)]

/-! ## Times kept by key -/

/-- `HashMap<u64, u64>`: at most one time for a key.  The order of the entries is not used. -/
abbrev SpentMap (κ : Type*) := AList fun _ : κ => ℕ

namespace SpentMap

variable {κ : Type*}

def len (m : SpentMap κ) : ℕ := m.entries.length

/-- `retain`, by the time. -/
def retain (m : SpentMap κ) (keep : ℕ → Bool) : SpentMap κ where
  entries := m.entries.filter fun e => keep e.2
  nodupKeys := m.nodupKeys.sublist List.filter_sublist

variable [DecidableEq κ]

/-- `get(..).copied()`. -/
def get (m : SpentMap κ) (k : κ) : Option ℕ := m.lookup k

lemma get_insert (m : SpentMap κ) (k : κ) (v : ℕ) :
    (get (m.insert k v) : κ → Option ℕ) = Function.update (get m) k (some v) := by
  funext j
  by_cases hj : j = k
  · rw [hj, Function.update_self]
    exact AList.lookup_insert m
  · rw [Function.update_of_ne hj]
    exact AList.lookup_insert_ne hj

lemma get_retain (m : SpentMap κ) (keep : ℕ → Bool) (k : κ) :
    (m.retain keep).get k = (m.get k).filter keep := by
  ext v
  have hmem : (m.retain keep).get k = some v ↔ ⟨k, v⟩ ∈ (m.retain keep).entries := AList.mem_lookup_iff
  have hold : m.get k = some v ↔ ⟨k, v⟩ ∈ m.entries := AList.mem_lookup_iff
  rw [hmem, Option.filter_eq_some_iff, hold]
  exact List.mem_filter

/-- Dropping the times that have passed is forgetting them. -/
lemma forgets_retain (m : SpentMap κ) (now : ℕ) :
    Forgets now m.get (m.retain fun spent => now < spent).get := by
  intro k
  rw [get_retain]
  cases hv : m.get k with
  | none => exact .inl rfl
  | some v =>
    by_cases hlater : now < v
    · exact .inl (by simp [hlater])
    · refine .inr ⟨by simpa using hlater, fun w hw => ?_⟩
      have hw : v = w := Option.some.inj hw
      omega

end SpentMap

/-! ## Shards -/

/-- `SWEEP_FLOOR`. -/
def sweepFloor : ℕ := 64

structure Shard where
  spent : SpentMap (BitVec 64)
  sweepAt : ℕ

/-- Keep a time, and sweep when there are too many. -/
def Shard.store (shard : Shard) (key : BitVec 64) (next now : ℕ) : Shard :=
  let spent : SpentMap (BitVec 64) := shard.spent.insert key next
  if shard.sweepAt ≤ spent.len then
    let kept := spent.retain fun spent => now < spent
    { spent := kept, sweepAt := max (kept.len * 2) sweepFloor }
  else { shard with spent }

lemma Shard.forgets_store (shard : Shard) (key : BitVec 64) (next now : ℕ) :
    Forgets now (Function.update shard.spent.get key (some next)) (shard.store key next now).spent.get := by
  rw [← SpentMap.get_insert]
  by_cases hsweep : shard.sweepAt ≤ SpentMap.len (shard.spent.insert key next)
  · simp only [store, if_pos hsweep]
    exact SpentMap.forgets_retain _ now
  · simp only [store, if_neg hsweep]
    exact Forgets.refl now _

/-- `SHARDS` of them. -/
abbrev Shards := Fin 64 → Shard

/-- The top six bits of the key. -/
def shardOf (key : BitVec 64) : Fin 64 :=
  ⟨key.toNat >>> 58, by rw [Nat.shiftRight_eq_div_pow]; have := key.isLt; omega⟩

namespace Shards

def new : Shards := fun _ => { spent := ∅, sweepAt := sweepFloor }

/-- The time kept for a key. -/
def get (shards : Shards) (key : BitVec 64) : Option ℕ := (shards (shardOf key)).spent.get key

lemma get_new : new.get = fun _ => none := rfl

/-- A sweep of one shard forgets nothing of another. -/
lemma forgets_store (shards : Shards) (key : BitVec 64) (next now : ℕ) :
    Forgets now (Function.update shards.get key (some next))
      (Shards.get (Function.update shards (shardOf key) ((shards (shardOf key)).store key next now))) := by
  intro k
  by_cases hshard : shardOf k = shardOf key
  · have hold : Function.update shards.get key (some next) k =
        Function.update (shards (shardOf key)).spent.get key (some next) k := by
      by_cases hk : k = key
      · rw [hk, Function.update_self, Function.update_self]
      · rw [Function.update_of_ne hk, Function.update_of_ne hk, get, hshard]
    rw [hold, get, hshard, Function.update_self]
    exact Shard.forgets_store _ key next now k
  · have hk : k ≠ key := fun h => hshard (h ▸ rfl)
    rw [get, Function.update_of_ne hshard, Function.update_of_ne hk]
    exact .inl rfl

end Shards

/-! ## The limiter -/

/-- One call of `spend`: the hash of what the request is keyed on, and the nanoseconds since the start. -/
structure SpendCall where
  key : BitVec 64
  now : BitVec 64

/-- The time of a call, as a number. -/
def SpendCall.time (c : SpendCall) : ℕ := c.now.toNat

/-- What never changes of a limit. -/
structure Limit where
  interval : ℕ
  tolerance : ℕ

namespace Limit

def new (interval burst : ℕ) : Limit where
  interval := max interval 1
  tolerance := saturatingMul (max interval 1) (max burst 1)

/-- `Limit::spend`. -/
def spend (l : Limit) (shards : Shards) (c : SpendCall) : Shards × Except ℕ Unit :=
  let now := c.time
  let shard := shards (shardOf c.key)
  let spent := max ((shard.spent.get c.key).getD now) now
  let next := wrappingAdd spent l.interval
  if l.tolerance < wrappingSub next now then
    (shards, .error (wrappingSub (wrappingSub next l.tolerance) now))
  else
    (Function.update shards (shardOf c.key) (shard.store c.key next now), .ok ())

/-- The rule by which it decides. -/
def rule (l : Limit) : Rule ℕ := fun spent now =>
  if l.tolerance < wrappingSub (wrappingAdd spent l.interval) now then
    .error (wrappingSub (wrappingSub (wrappingAdd spent l.interval) l.tolerance) now)
  else .ok (wrappingAdd spent l.interval)

lemma spend_of_ok {l : Limit} {shards : Shards} {c : SpendCall} {next : ℕ}
    (ok : l.rule (effective (shards.get c.key) c.time) c.time = .ok next) :
    l.spend shards c = (Function.update shards (shardOf c.key)
      ((shards (shardOf c.key)).store c.key next c.time), .ok ()) := by
  simp only [rule] at ok
  split at ok
  · exact nomatch ok
  · obtain rfl := Except.ok.inj ok
    exact if_neg ‹_›

lemma spend_of_error {l : Limit} {shards : Shards} {c : SpendCall} {wait : ℕ}
    (error : l.rule (effective (shards.get c.key) c.time) c.time = .error wait) :
    l.spend shards c = (shards, .error wait) := by
  simp only [rule] at error
  split at error
  · obtain rfl := Except.error.inj error
    exact if_pos ‹_›
  · exact nomatch error

/-- A limit answers by its rule, and forgets only times that have passed. -/
lemma forgetful (l : Limit) :
    Forgetful (fun _ => True) l.rule SpendCall.key SpendCall.time Shards.get l.spend where
  sound _ _ _ := trivial
  allowed shards c next _ ok := by
    rw [spend_of_ok ok]
    exact ⟨rfl, Shards.forgets_store shards c.key next c.time⟩
  refused shards c wait _ error := by
    rw [spend_of_error error]
    exact ⟨rfl, Forgets.refl _ _⟩

/-- A refused call changes nothing. -/
lemma spend_refused {l : Limit} {shards : Shards} {c : SpendCall} {wait : ℕ}
    (refused : (l.spend shards c).2 = .error wait) : (l.spend shards c).1 = shards := by
  cases hrule : l.rule (effective (shards.get c.key) c.time) c.time with
  | ok next =>
    rw [spend_of_ok hrule] at refused
    exact nomatch refused
  | error wait =>
    rw [spend_of_error hrule]

/-- Below `2 ^ 64` the rule is the algorithm's. -/
lemma rule_eq_gcra {interval burst spent now : ℕ} (pos : 1 ≤ interval) (some : 1 ≤ burst)
    (room : now + (burst + 1) * interval < 2 ^ 64) (le : now ≤ spent)
    (near : spent ≤ now + burst * interval) :
    (new interval burst).rule spent now = gcra interval (burst * interval) spent now := by
  rw [Nat.succ_mul] at room
  have htolerance : (new interval burst).tolerance = burst * interval := by
    simp only [new, saturatingMul, max_eq_left pos, max_eq_left some]
    rw [Nat.mul_comm]
    omega
  have hinterval : (new interval burst).interval = interval := max_eq_left pos
  have hnext : wrappingAdd spent interval = spent + interval := wrappingAdd_of_lt (by omega)
  have hahead : wrappingSub (spent + interval) now = spent + interval - now :=
    wrappingSub_of_le (by omega) (by omega)
  simp only [rule, gcra, htolerance, hinterval, hnext, hahead]
  by_cases hover : burst * interval < spent + interval - now
  · have hless : wrappingSub (spent + interval) (burst * interval) = spent + interval - burst * interval :=
      wrappingSub_of_le (by omega) (by omega)
    rw [if_pos hover, if_pos hover, hless, wrappingSub_of_le (by omega) (by omega)]
  · rw [if_neg hover, if_neg hover]

end Limit

section Rate

variable {interval burst : ℕ} {calls : List SpendCall}

/-- The answers are those of the limiter that never forgets. -/
lemma spend_answers_eq (l : Limit) (sorted : calls.Pairwise fun c d => c.time ≤ d.time) :
    answers l.spend Shards.new calls =
      answers (serve l.rule SpendCall.key SpendCall.time) (fun _ => none) calls :=
  l.forgetful.answers_eq calls trivial (Forgets.refl 0 _) sorted fun _ _ => Nat.zero_le _

/-- And, while no sum wraps, those of the algorithm. -/
lemma spend_answers_eq_gcra (pos : 1 ≤ interval) (some : 1 ≤ burst)
    (sorted : calls.Pairwise fun c d => c.time ≤ d.time)
    (room : ∀ c ∈ calls, c.time + (burst + 1) * interval < 2 ^ 64) :
    answers (Limit.new interval burst).spend Shards.new calls =
      answers (serve (gcra interval (burst * interval)) SpendCall.key SpendCall.time) (fun _ => none)
        calls := by
  rw [spend_answers_eq _ sorted]
  refine answers_eq_of_rule (t := 0) calls ?_ sorted (fun _ _ => Nat.zero_le _) ?_
  · intro k v hv
    exact nomatch hv
  · intro c hc spent hle hnear
    exact Limit.rule_eq_gcra pos some (room c hc) hle hnear

/-- **The limiter enforces the rate.**  Whatever the interval and the burst, the answers are those of the
limiter that never forgets, with the same arithmetic; the calls of a key are answered as if there were no
others; and a refused call changes nothing.  While no sum wraps, the answers are those of the algorithm with
unbounded numbers, at most `burst + W / interval` calls of a key are allowed in a window of length `W`, and a
key none of whose calls was allowed in the `burst` intervals before `t` is allowed its next `burst` calls. -/
theorem limit_enforces_rate (pos : 1 ≤ interval) (some : 1 ≤ burst) (calls : List SpendCall)
    (sorted : calls.Pairwise fun c d => c.time ≤ d.time) :
    let l := Limit.new interval burst
    let got := answers l.spend Shards.new calls
    got = answers (serve l.rule SpendCall.key SpendCall.time) (fun _ => none) calls ∧
    (∀ k, (calls.zip got).filter (fun p => decide (p.1.key = k)) =
      (calls.filter fun c => decide (c.key = k)).zip
        (answers l.spend Shards.new (calls.filter fun c => decide (c.key = k)))) ∧
    (∀ shards c wait, (l.spend shards c).2 = .error wait → (l.spend shards c).1 = shards) ∧
    ((∀ c ∈ calls, c.time + (burst + 1) * interval < 2 ^ 64) →
      got = answers (serve (gcra interval (burst * interval)) SpendCall.key SpendCall.time)
        (fun _ => none) calls ∧
      (∀ k a W, allowedIn SpendCall.key SpendCall.time k a W calls got ≤ burst + W / interval) ∧
      ∀ k t done more, calls = done ++ more →
        (∀ p ∈ done.zip got, p.1.key = k → Allowed p.2 → p.1.time + burst * interval ≤ t) →
        (∀ c ∈ more, t ≤ c.time) → more.countP (fun c => decide (c.key = k)) ≤ burst →
        ∀ p ∈ more.zip (got.drop done.length), p.1.key = k → Allowed p.2) := by
  intro l got
  have hreference := spend_answers_eq l sorted
  refine ⟨hreference, ?_, fun shards c wait => Limit.spend_refused, ?_⟩
  · intro k
    rw [spend_answers_eq l (sorted.sublist List.filter_sublist)]
    simp only [got, hreference]
    exact answers_filter _ _ _ k calls rfl
  · intro room
    have hgot : got = _ := spend_answers_eq_gcra pos some sorted room
    refine ⟨hgot, ?_, ?_⟩
    · intro k a W
      rw [hgot]
      exact allowed_in_window pos k a W calls _
    · rintro k t done more rfl idle later few
      rw [answers_append] at hgot
      rw [hgot] at idle ⊢
      rw [List.drop_left' (length_answers done _)]
      refine burst_allowed (n := 0) k more ?_ (List.pairwise_append.mp sorted).2.1 later (by omega)
      intro v hv
      obtain hnone | ⟨p, hp, hkey, hallowed, hle⟩ := exists_allowed_of_spent k done hv
      · exact nomatch hnone
      · have hearly := idle p (mem_zip_append hp) hkey hallowed
        omega

/-- Five calls of one key and one of another: a burst of 3, a refusal, and one more after an interval. -/
theorem limit_enforces_rate_small :
    let calls : List SpendCall := [⟨1, 0⟩, ⟨1, 0⟩, ⟨2, 0⟩, ⟨1, 0⟩, ⟨1, 5⟩, ⟨1, 10⟩]
    let got := answers (Limit.new 10 3).spend Shards.new calls
    got = [.ok (), .ok (), .ok (), .ok (), .error 5, .ok ()] ∧
      allowedIn SpendCall.key SpendCall.time 1 0 10 calls got ≤ 3 + 10 / 10 := by
  intro calls got
  refine ⟨by decide +kernel, ?_⟩
  have hrate := @limit_enforces_rate 10 3 (by decide) (by decide) calls
    (by decide +kernel)
  exact (hrate.2.2.2 (by decide +kernel)).2.1 1 0 10

/-- With an interval of `2 ^ 63` and a burst of 2 the tolerance saturates and the second sum wraps to 0: three
calls of one key are allowed in a window of length 0. -/
theorem wrapped_sum_allows_third :
    let calls : List SpendCall := [⟨1, 0⟩, ⟨1, 0⟩, ⟨1, 0⟩]
    (calls.Pairwise fun c d => c.time ≤ d.time) ∧
      ¬ allowedIn SpendCall.key SpendCall.time 1 0 0 calls
        (answers (Limit.new (2 ^ 63) 2).spend Shards.new calls) ≤ 2 + 0 / 2 ^ 63 := by
  intro calls
  exact ⟨by decide +kernel, by decide +kernel⟩

end Rate

end Oxbrook
