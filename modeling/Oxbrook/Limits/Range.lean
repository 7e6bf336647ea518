import Oxbrook.Limits.Waits

/-!
# The numbers of a limit

`_MAX_BURST` and `_MAX_COUNT` of `python/oxbrook/_limits.py` bound what `RateLimit` accepts.  They keep the numbers
of `Limit::spend` in the range of `u64` for any uptime below `2 ^ 62` nanoseconds: a time that is kept is at most a
tolerance after a call.

They were not chosen for the script in Redis, whose numbers are doubles of microseconds.  One request a day with a
burst of 78,187 or more lets a key be spent so far ahead that the sum passes `2 ^ 53`; `numbers_in_range_iff` says
that no other limit does.
-/

namespace Oxbrook

open CellRate

/-! ## In memory -/

namespace Limit

/-- No addition or subtraction of `spend` leaves the range of `u64`. -/
def NoOverflow (l : Limit) (shards : Shards) (c : SpendCall) : Prop :=
  let next := effective (shards.get c.key) c.time + l.interval
  next < 2 ^ 64 ∧ c.time ≤ next ∧
    (l.tolerance < next - c.time → l.tolerance ≤ next ∧ c.time ≤ next - l.tolerance)

/-- The times kept are at most a tolerance after some time below `bound`. -/
def WithinOf (l : Limit) (bound : ℕ) (shards : Shards) : Prop :=
  ∀ k v, shards.get k = some v → v < bound + l.tolerance

variable {l : Limit} {bound : ℕ} {shards : Shards} {c : SpendCall}

lemma WithinOf.effective_lt (h : l.WithinOf bound shards) (time : c.time < bound) :
    effective (shards.get c.key) c.time < bound + l.tolerance := by
  cases hv : shards.get c.key with
  | none =>
    rw [effective, Option.getD_none, Nat.max_self]
    omega
  | some v =>
    have hlt := h c.key v hv
    rw [effective, Option.getD_some]
    omega

lemma WithinOf.noOverflow (h : l.WithinOf bound shards) (time : c.time < bound)
    (room : bound + l.tolerance + l.interval ≤ 2 ^ 64) : l.NoOverflow shards c := by
  have hlt := h.effective_lt time
  have hle := le_effective (shards.get c.key) c.time
  simp only [NoOverflow]
  omega

/-- A time that `spend` keeps is within the tolerance of the call. -/
lemma WithinOf.spend (h : l.WithinOf bound shards) (time : c.time < bound)
    (room : bound + l.tolerance + l.interval ≤ 2 ^ 64) : l.WithinOf bound (l.spend shards c).1 := by
  have hlt := h.effective_lt time
  have hle := le_effective (shards.get c.key) c.time
  intro k v hv
  cases hrule : l.rule (effective (shards.get c.key) c.time) c.time with
  | ok next =>
    have hnext : next < bound + l.tolerance := by
      simp only [rule] at hrule
      split at hrule
      · cases hrule
      · rename_i hwithin
        obtain rfl := Except.ok.inj hrule
        rw [wrappingAdd_of_lt (by omega)] at hwithin ⊢
        rw [wrappingSub_of_le (by omega) (by omega)] at hwithin
        omega
    rw [spend_of_ok hrule] at hv
    obtain hsame | ⟨hnone, -⟩ := Shards.forgets_store shards c.key next c.time k
    · rw [hsame] at hv
      by_cases hk : k = c.key
      · rw [hk, Function.update_self] at hv
        exact (Option.some.inj hv).symm.trans_lt hnext
      · rw [Function.update_of_ne hk] at hv
        exact h k v hv
    · rw [hnone] at hv
      cases hv
  | error wait =>
    rw [spend_of_error hrule] at hv
    exact h k v hv

lemma WithinOf.after (h : l.WithinOf bound shards) (room : bound + l.tolerance + l.interval ≤ 2 ^ 64)
    (calls : List SpendCall) (times : ∀ d ∈ calls, d.time < bound) :
    l.WithinOf bound (CellRate.after l.spend shards calls) := by
  induction calls generalizing shards with
  | nil => exact h
  | cons d calls ih =>
    have hd : d.time < bound := times d (List.mem_cons_self ..)
    exact ih (h.spend hd room) fun e he => times e (List.mem_cons_of_mem _ he)

/-- The tolerance of a limit that `RateLimit` makes is not saturated. -/
lemma tolerance_new (r : RateLimit) : (new r.interval r.burst).tolerance = r.burst * r.interval := by
  have hle := r.tolerance_le
  have hmul : r.interval * r.burst = r.burst * r.interval := Nat.mul_comm _ _
  have hpos := r.interval_pos
  have hinterval : max r.interval 1 = r.interval := by omega
  simp only [new, saturatingMul, hinterval, max_eq_left r.burst_pos, hmul]
  omega

lemma interval_new (r : RateLimit) : (new r.interval r.burst).interval = r.interval := by
  have hpos := r.interval_pos
  simp only [new]
  omega

/-- No overflow, after any calls. -/
lemma noOverflow_new (r : RateLimit) (done : List SpendCall) (times : ∀ d ∈ done, d.time < 2 ^ 62)
    {c : SpendCall} (time : c.time < 2 ^ 62) :
    let l := new r.interval r.burst
    l.NoOverflow (CellRate.after l.spend Shards.new done) c := by
  intro l
  have hroom : 2 ^ 62 + l.tolerance + l.interval ≤ 2 ^ 64 := by
    have htolerance : l.tolerance = r.burst * r.interval := tolerance_new r
    have hinterval : l.interval = r.interval := interval_new r
    have hle := r.tolerance_le
    have hlong := r.interval_le
    omega
  have hnew : l.WithinOf (2 ^ 62) Shards.new := nofun
  exact (hnew.after hroom done times).noOverflow time hroom

end Limit

/-! ## In Redis -/

namespace Shared

/-- The numbers that the script forms, each before it is rounded, and the expiry in milliseconds. -/
def numbers (num : ℕ → ℕ) (sh : Shared) (store : RedisStore) (c : ScriptCall) : List ℤ :=
  let seconds := c.time / 1000000 * 1000000
  let now := nowOf num c.time
  let spent := effective ((store.expire c).get c.key) now
  let nxt := num (spent + sh.interval)
  [(sh.interval : ℤ), (sh.tolerance : ℤ), (seconds : ℤ), ((num seconds + c.time % 1000000 : ℕ) : ℤ), (spent : ℤ),
      ((spent + sh.interval : ℕ) : ℤ), (nxt : ℤ) - now] ++
    if sh.tolerance < num (nxt - now) then [(nxt : ℤ) - sh.tolerance, (num (nxt - sh.tolerance) : ℤ) - now]
    else [⌈Doubles.nearest (num (nxt - now) / (1000 : ℕ))⌉]

/-- All of them are whole numbers that a double holds. -/
def Exact (sh : Shared) (store : RedisStore) (c : ScriptCall) : Prop :=
  ∀ n ∈ sh.numbers luaNumber store c, 0 ≤ n ∧ n < 2 ^ 53

/-- Rounding the quotient does not change the expiry. -/
lemma ceil_milliseconds {n : ℕ} (h : n < 2 ^ 53) : ⌈Doubles.nearest (n / (1000 : ℕ))⌉ = milliseconds n :=
  Doubles.ceil_nearest_div (k := 44) (by decide) (by omega) (by decide) (by decide)

variable {sh : Shared} {store : RedisStore} {c : ScriptCall}

/-- The sum decides. -/
lemma exact_iff (h : sh.Accepted) (time : c.time < 2 ^ 53) :
    sh.Exact store c ↔ effective ((store.expire c).get c.key) c.time + sh.interval < 2 ^ 53 := by
  have hnow : nowOf luaNumber c.time = c.time := nowOf_of_exact fun n hn => luaNumber_of_lt (hn.trans_lt time)
  have hle := le_effective ((store.expire c).get c.key) c.time
  constructor
  · intro exact
    have hsum := (exact (effective ((store.expire c).get c.key) c.time + sh.interval : ℕ) (by
      simp only [numbers, hnow]
      simp)).2
    exact_mod_cast hsum
  · intro hsum
    have hinterval := h.interval_le
    have htolerance := h.tolerance_lt
    have hnum : ∀ n ≤ effective ((store.expire c).get c.key) c.time + sh.interval, luaNumber n = n :=
      fun n hn => luaNumber_of_lt (hn.trans_lt hsum)
    have hahead := hnum (effective ((store.expire c).get c.key) c.time + sh.interval - c.time) (by omega)
    have hseconds := hnum (c.time / 1000000 * 1000000) (by omega)
    have hmilliseconds := ceil_milliseconds
      (n := effective ((store.expire c).get c.key) c.time + sh.interval - c.time) (by omega)
    rw [milliseconds] at hmilliseconds
    intro n hn
    simp only [numbers, hnow, hnum _ le_rfl, hahead, hseconds, hmilliseconds] at hn
    split at hn
    · have hless := hnum (effective ((store.expire c).get c.key) c.time + sh.interval - sh.tolerance) (by omega)
      rw [hless] at hn
      simp only [List.cons_append, List.nil_append, List.mem_cons, List.not_mem_nil, or_false] at hn
      omega
    · simp only [List.cons_append, List.nil_append, List.mem_cons, List.not_mem_nil, or_false] at hn
      omega

/-- What Redis lets go leaves no time. -/
lemma get_expire_eq_or (store : RedisStore) (c : ScriptCall) (k : BitVec 64) :
    (store.expire c).get k = store.get k ∨ (store.expire c).get k = none := by
  simp only [RedisStore.get, RedisStore.expire]
  cases store k with
  | none => exact .inl rfl
  | some e =>
    rw [Option.filter_some]
    split
    · exact .inl rfl
    · exact .inr rfl

/-- The times kept are at most a tolerance after some time below `bound`. -/
def WithinOf (sh : Shared) (bound : ℕ) (store : RedisStore) : Prop :=
  ∀ k v, store.get k = some v → v < bound + sh.tolerance

variable {bound : ℕ}

lemma WithinOf.expire (h : sh.WithinOf bound store) (c : ScriptCall) : sh.WithinOf bound (store.expire c) := by
  intro k v hv
  obtain hsame | hnone := get_expire_eq_or store c k
  · exact h k v (hsame ▸ hv)
  · rw [hnone] at hv
    exact nomatch hv

lemma WithinOf.take (h : sh.WithinOf bound store) (haccepted : sh.Accepted) (time : c.time < bound)
    (room : bound + sh.interval ≤ 2 ^ 53) : sh.WithinOf bound (sh.take luaNumber store c).1 := by
  have htimely : sh.Timely c := by
    rw [Timely]
    omega
  rw [take_eq htimely]
  split
  · rename_i next hok
    have hnext := next_le haccepted hok
    intro k v hv
    rw [RedisStore.get_set] at hv
    by_cases hk : k = c.key
    · rw [hk, Function.update_self] at hv
      obtain rfl := Option.some.inj hv
      omega
    · rw [Function.update_of_ne hk] at hv
      exact h.expire c k v hv
  · exact h.expire c

lemma WithinOf.after (h : sh.WithinOf bound store) (haccepted : sh.Accepted)
    (room : bound + sh.interval ≤ 2 ^ 53) (calls : List ScriptCall) (times : ∀ d ∈ calls, d.time < bound) :
    sh.WithinOf bound (CellRate.after (sh.take luaNumber) store calls) := by
  induction calls generalizing store with
  | nil => exact h
  | cons d calls ih =>
    have hd : d.time < bound := times d (List.mem_cons_self ..)
    exact ih (h.take haccepted hd room) fun e he => times e (List.mem_cons_of_mem _ he)

/-- With room for the tolerance and an interval all numbers are exact. -/
lemma exact_of_room (haccepted : sh.Accepted) (room : bound + sh.tolerance + sh.interval ≤ 2 ^ 53)
    (done : List ScriptCall) (times : ∀ d ∈ done, d.time < bound) (time : c.time < bound) :
    sh.Exact (CellRate.after (sh.take luaNumber) RedisStore.empty done) c := by
  have hnew : sh.WithinOf bound RedisStore.empty := nofun
  have hwithin := (hnew.after haccepted (by omega) done times).expire c
  rw [exact_iff haccepted (by omega)]
  cases hv : ((CellRate.after (sh.take luaNumber) RedisStore.empty done).expire c).get c.key with
  | none =>
    rw [effective, Option.getD_none, Nat.max_self]
    omega
  | some v =>
    have hlt := hwithin c.key v hv
    rw [effective, Option.getD_some]
    omega

lemma expire_of_stays (stays : c.gone = fun _ => false) (store : RedisStore) : store.expire c = store := by
  funext k
  simp only [RedisStore.expire, stays, Bool.false_and, Bool.not_false]
  cases store k with
  | none => rfl
  | some e => rfl

/-- One more call of the same key at the same time. -/
lemma effective_take (h : sh.Accepted) {m : ℕ} (stays : c.gone = fun _ => false)
    (spent : effective (store.get c.key) c.time = c.time + m * sh.interval)
    (within : (m + 1) * sh.interval ≤ sh.tolerance) (exact : c.time + (m + 1) * sh.interval < 2 ^ 53) :
    effective ((sh.take luaNumber store c).1.get c.key) c.time = c.time + (m + 1) * sh.interval := by
  have hexpire := expire_of_stays stays store
  rw [Nat.succ_mul] at within exact ⊢
  have htimely : sh.Timely c := by
    rw [Timely]
    omega
  have hsum : luaNumber (c.time + m * sh.interval + sh.interval) = c.time + m * sh.interval + sh.interval :=
    luaNumber_of_lt (by omega)
  have hkeeps : sh.Keeps (c.time + m * sh.interval) := by
    rw [Keeps]
    omega
  have hrule := rule_cases h hkeeps (t := c.time)
  rw [hsum, if_neg (by omega)] at hrule
  rw [take_eq htimely, hexpire, spent, hrule]
  simp only [RedisStore.get_set, Function.update_self, effective, Option.getD_some]
  omega

/-- Calls of one key at one time spend its budget. -/
lemma effective_replicate (h : sh.Accepted) (stays : c.gone = fun _ => false) (n : ℕ)
    (within : n * sh.interval ≤ sh.tolerance) (exact : c.time + n * sh.interval < 2 ^ 53) :
    effective ((CellRate.after (sh.take luaNumber) RedisStore.empty (List.replicate n c)).get c.key) c.time =
      c.time + n * sh.interval := by
  suffices hfrom : ∀ (n m : ℕ) (store : RedisStore),
      effective (store.get c.key) c.time = c.time + m * sh.interval →
        (m + n) * sh.interval ≤ sh.tolerance → c.time + (m + n) * sh.interval < 2 ^ 53 →
          effective ((CellRate.after (sh.take luaNumber) store (List.replicate n c)).get c.key) c.time =
            c.time + (m + n) * sh.interval by
    have hempty : effective (RedisStore.empty.get c.key) c.time = c.time + 0 * sh.interval := by
      rw [Nat.zero_mul]
      exact Nat.max_self _
    have hall := hfrom n 0 RedisStore.empty hempty
    rw [Nat.zero_add] at hall
    exact hall within exact
  intro n
  induction n with
  | zero =>
    intro m store spent _ _
    exact spent
  | succ n ih =>
    intro m store spent within exact
    have hmul : (m + (n + 1)) * sh.interval = (m + 1) * sh.interval + n * sh.interval := by
      rw [← Nat.add_mul]
      congr 1
      omega
    have hnext := effective_take h stays spent (by omega) (by omega)
    have hmore := ih (m + 1) _ hnext
    have hsame : m + 1 + n = m + (n + 1) := by omega
    rw [hsame] at hmore
    exact hmore within exact

/-- Where there is no room, a key can be spent so far ahead that the sum is no longer exact. -/
lemma not_exact_of_no_room (h : sh.Accepted) (burst : ℕ) {t : ℕ} (tolerance : sh.tolerance = burst * sh.interval)
    (timely : t + sh.interval < 2 ^ 53) (full : 2 ^ 53 ≤ t + sh.tolerance + sh.interval) :
    ∃ done c, (∀ d ∈ done, d.time = t) ∧ c.time = t ∧
      ¬ sh.Exact (CellRate.after (sh.take luaNumber) RedisStore.empty done) c := by
  -- as many calls as keep the time exact
  obtain ⟨n, hn⟩ : ∃ n, n = (2 ^ 53 - 1 - t) / sh.interval := ⟨_, rfl⟩
  have hpos := h.interval_pos
  have hdown : n * sh.interval ≤ 2 ^ 53 - 1 - t := by
    rw [hn]
    exact Nat.div_mul_le_self _ _
  have hup : 2 ^ 53 - 1 - t < n * sh.interval + sh.interval := by
    rw [hn]
    exact Nat.lt_div_mul_add hpos
  have hwithin : n * sh.interval ≤ sh.tolerance := by
    have hburst : n ≤ burst := by
      by_contra hmore
      have hle : (burst + 1) * sh.interval ≤ n * sh.interval := Nat.mul_le_mul_right _ (by omega)
      rw [Nat.succ_mul] at hle
      omega
    rw [tolerance]
    exact Nat.mul_le_mul_right _ hburst
  let c : ScriptCall := ⟨0, t, fun _ => false⟩
  refine ⟨List.replicate n c, c, ?_, rfl, ?_⟩
  · intro d hd
    rw [List.eq_of_mem_replicate hd]
  · have hspent : effective ((CellRate.after (sh.take luaNumber) RedisStore.empty (List.replicate n c)).get c.key)
        c.time = c.time + n * sh.interval := effective_replicate h rfl n hwithin (by change t + _ < _; omega)
    rw [exact_iff h (by change t < _; omega), expire_of_stays rfl, hspent]
    change ¬ t + n * sh.interval + sh.interval < 2 ^ 53
    omega

end Shared

/-! ## Which limits -/

/-- Microseconds of an interval. -/
lemma Shared.interval_le (r : RateLimit) :
    (r.unit = .day ∧ r.count = 1 ∧ r.interval = 86400000000000) ∨
      (Shared.new r.interval r.burst).interval ≤ 43200000000 := by
  have hcount := r.count_pos
  have hlong : r.interval ≤ 43200000000000 ∨ r.unit = .day ∧ r.count = 1 ∧ r.interval = 86400000000000 := by
    obtain hone | hmore := hcount.eq_or_lt
    · cases hunit : r.unit with
      | day => exact .inr ⟨rfl, hone.symm, by rw [RateLimit.interval, hunit, ← hone]; decide⟩
      | second | minute | hour =>
        refine .inl ?_
        rw [RateLimit.interval, hunit, ← hone]
        decide
    · refine .inl ?_
      have hunit : r.unit.seconds ≤ 86400 := by cases r.unit <;> decide
      calc r.interval ≤ r.unit.seconds * 1000000000 / 2 := Nat.div_le_div_left hmore (by decide)
        _ ≤ 43200000000000 := by omega
  obtain hle | hday := hlong
  · refine .inr ?_
    simp only [Shared.new]
    omega
  · exact .inl hday

/-- **The numbers of a limit stay in range.**  The tolerance is not saturated and, for every uptime below `2 ^ 62`
nanoseconds and whatever calls came before, no sum or difference of `spend` overflows; and, while the clock of
Redis tells less than `2 ^ 51` microseconds, every number of the script is a whole number below `2 ^ 53`: if and
only if the limit is not of one request a day with a burst above 78,186. -/
theorem numbers_in_range_iff (r : RateLimit) :
    ((Limit.new r.interval r.burst).tolerance = r.burst * r.interval ∧
      (∀ done (c : SpendCall), (∀ d ∈ done, d.time < 2 ^ 62) → c.time < 2 ^ 62 →
        (Limit.new r.interval r.burst).NoOverflow
          (after (Limit.new r.interval r.burst).spend Shards.new done) c) ∧
      ∀ done (c : ScriptCall), (∀ d ∈ done, d.time < 2 ^ 51) → c.time < 2 ^ 51 →
        (Shared.new r.interval r.burst).Exact
          (after ((Shared.new r.interval r.burst).take luaNumber) RedisStore.empty done) c) ↔
      (r.unit = .day → r.count = 1 → r.burst ≤ 78186) := by
  have haccepted := Shared.accepted r
  have htolerance : (Shared.new r.interval r.burst).tolerance =
      r.burst * (Shared.new r.interval r.burst).interval := Nat.mul_comm _ _
  have hburst : r.burst ≤ 100000 := r.burst_le
  constructor
  · rintro ⟨-, -, exact⟩ hday hone
    by_contra hmore
    have hmicros : (Shared.new r.interval r.burst).interval = 86400000000 := by
      rw [RateLimit.interval, hday, hone]
      rfl
    have hfull : 2 ^ 53 ≤ (2 ^ 51 - 1) + (Shared.new r.interval r.burst).tolerance +
        (Shared.new r.interval r.burst).interval := by
      rw [htolerance, hmicros]
      omega
    obtain ⟨done, c, hdone, hc, hnot⟩ := Shared.not_exact_of_no_room (t := 2 ^ 51 - 1) haccepted r.burst htolerance
      (by rw [hmicros]; decide) hfull
    refine hnot (exact done c (fun d hd => ?_) ?_)
    · rw [hdone d hd]
      decide
    · rw [hc]
      decide
  · intro hfew
    refine ⟨Limit.tolerance_new r, ?_, ?_⟩
    · intro done c times time
      exact Limit.noOverflow_new r done times time
    · intro done c times time
      refine Shared.exact_of_room haccepted ?_ done times time
      rw [htolerance]
      obtain ⟨hday, hone, hinterval⟩ | hshort := Shared.interval_le r
      · have hmicros : (Shared.new r.interval r.burst).interval = 86400000000 := by
          rw [hinterval]
          rfl
        have hle := hfew hday hone
        rw [hmicros]
        omega
      · have hmul : r.burst * (Shared.new r.interval r.burst).interval ≤ 100000 * 43200000000 :=
          Nat.mul_le_mul hburst hshort
        omega

/-- One request a day, with the largest burst: spent at the first moment of 2026, in microseconds, the key of a
client makes the script form a number that no double holds. -/
theorem daily_burst_out_of_range :
    let r : RateLimit := ⟨1, .day, 100000, by decide, by decide, by decide, by decide⟩
    ∃ done c, (∀ d ∈ done, d.time = 1767225600000000) ∧ c.time = 1767225600000000 ∧
      ¬ (Shared.new r.interval r.burst).Exact
        (after ((Shared.new r.interval r.burst).take luaNumber) RedisStore.empty done) c := by
  intro r
  exact Shared.not_exact_of_no_room (t := 1767225600000000) (Shared.accepted r) 100000
    (by decide +kernel) (by decide +kernel) (by decide +kernel)

end Oxbrook
