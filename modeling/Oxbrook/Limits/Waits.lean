import Oxbrook.Foundation.Doubles
import Oxbrook.Limits.Shared
import Oxbrook.Routing.Head

/-!
# What a refused client is told

`Limit::spend` of `src/limit.rs` and the script in Redis both say how long a client they refuse has to wait, and the
two `refused` put it in `Retry-After` in whole seconds.  In memory the wait is exact for every interval and burst,
also where a sum wraps: a call whose sum wraps so far that the difference does is allowed, so a refusal is always
counted from a time not yet reached.

In Redis the sum is a double.  It may be rounded, once a time plus the tolerance passes `2 ^ 53`; but the script
rounds the same sum each time it sees the same key, and all else it computes from it is exact while the clock itself
is.
-/

namespace Oxbrook

open CellRate

/-! ## In memory -/

section Memory

variable {interval burst : ℕ}

namespace Limit

variable (burst) in
lemma interval_le_tolerance (small : interval < 2 ^ 64) :
    (new interval burst).interval ≤ (new interval burst).tolerance := by
  have hmul : max interval 1 * 1 ≤ max interval 1 * max burst 1 := Nat.mul_le_mul_left _ (le_max_right _ _)
  simp only [new, saturatingMul]
  omega

variable (burst) in
lemma interval_lt (small : interval < 2 ^ 64) :
    0 < (new interval burst).interval ∧ (new interval burst).interval < 2 ^ 64 := by
  simp only [new]
  omega

/-- A time not before the call, with all the numbers in the range of `u64`. -/
lemma rule_cases {l : Limit} {v t : ℕ} (pos : 0 < l.interval) (le : l.interval ≤ l.tolerance)
    (hi : l.interval < 2 ^ 64) (hv : v < 2 ^ 64) (hvt : t ≤ v) :
    if l.tolerance < v - t + l.interval ∧ v - t + l.interval < 2 ^ 64 then
      l.rule v t = .error (v - t + l.interval - l.tolerance)
    else ∃ next, l.rule v t = .ok next := by
  have hahead : wrappingSub (wrappingAdd v l.interval) t = (v - t + l.interval) % 2 ^ 64 := by
    simp only [wrappingSub, wrappingAdd]
    omega
  by_cases hover : l.tolerance < v - t + l.interval ∧ v - t + l.interval < 2 ^ 64
  · have hwait : wrappingSub (wrappingSub (wrappingAdd v l.interval) l.tolerance) t =
        v - t + l.interval - l.tolerance := by
      simp only [wrappingSub, wrappingAdd]
      omega
    rw [if_pos hover, rule, hahead, Nat.mod_eq_of_lt hover.2, if_pos hover.1, hwait]
  · have hwithin : ¬ l.tolerance < (v - t + l.interval) % 2 ^ 64 := by omega
    rw [if_neg hover, rule, hahead, if_neg hwithin]
    exact ⟨_, rfl⟩

/-- The waits of every limit are exact, whatever the times. -/
lemma honest (small : interval < 2 ^ 64) :
    HonestRule (new interval burst).rule (· < 2 ^ 64) (· < 2 ^ 64) where
  fresh t ht := by
    obtain ⟨hpos, hi⟩ := interval_lt burst small
    have hle := interval_le_tolerance burst small
    have hcases := rule_cases hpos hle hi ht le_rfl
    rwa [if_neg (by omega)] at hcases
  early v t u wait hv ht hu htu refused hlt := by
    obtain ⟨hpos, hi⟩ := interval_lt burst small
    have hle := interval_le_tolerance burst small
    have hcases := rule_cases hpos hle hi (v := max v t) (by omega) (le_max_right v t)
    split_ifs at hcases with hover
    · rw [hcases] at refused
      have hwait := Except.error.inj refused
      have huv : u < v := by omega
      have hlater := rule_cases hpos hle hi (v := max v u) (by omega) (le_max_right v u)
      rw [if_pos (by omega)] at hlater
      refine ⟨huv, hlater.trans ?_⟩
      congr 1
      omega
    · obtain ⟨next, hnext⟩ := hcases
      rw [hnext] at refused
      exact nomatch refused
  late v t u wait hv ht hu refused hle' := by
    obtain ⟨hpos, hi⟩ := interval_lt burst small
    have hle := interval_le_tolerance burst small
    have hcases := rule_cases hpos hle hi (v := max v t) (by omega) (le_max_right v t)
    split_ifs at hcases with hover
    · rw [hcases] at refused
      have hwait := Except.error.inj refused
      have hlater := rule_cases hpos hle hi (v := max v u) (by omega) (le_max_right v u)
      rwa [if_neg (by omega)] at hlater
    · obtain ⟨next, hnext⟩ := hcases
      rw [hnext] at refused
      exact nomatch refused

end Limit

/-- The times a limit keeps are numbers of 64 bits. -/
def Shards.Fits (shards : Shards) : Prop := ∀ k v, shards.get k = some v → v < 2 ^ 64

lemma Shards.fits_new : Shards.new.Fits := nofun

lemma Shards.Fits.spend {shards : Shards} (h : shards.Fits) (l : Limit) (c : SpendCall) :
    (l.spend shards c).1.Fits := by
  intro k v hv
  cases hrule : l.rule (effective (shards.get c.key) c.time) c.time with
  | ok next =>
    have hnext : next < 2 ^ 64 := by
      simp only [Limit.rule] at hrule
      split at hrule
      · cases hrule
      · obtain rfl := Except.ok.inj hrule
        exact Nat.mod_lt _ (by decide)
    rw [Limit.spend_of_ok hrule] at hv
    obtain hsame | ⟨hnone, -⟩ := Shards.forgets_store shards c.key next c.time k
    · rw [hsame] at hv
      by_cases hk : k = c.key
      · rw [hk, Function.update_self] at hv
        exact (Option.some.inj hv).symm.trans_lt hnext
      · rw [Function.update_of_ne hk] at hv
        exact h k v hv
    · rw [hnone] at hv
      cases hv
  | error wait =>
    rw [Limit.spend_of_error hrule] at hv
    exact h k v hv

lemma Shards.Fits.after {shards : Shards} (h : shards.Fits) (l : Limit) (calls : List SpendCall) :
    (CellRate.after l.spend shards calls).Fits := by
  induction calls generalizing shards with
  | nil => exact h
  | cons c calls ih => exact ih (h.spend l c)

/-- The wait of a refused call is exact, after any calls. -/
lemma Limit.spend_waitExact (small : interval < 2 ^ 64) (done : List SpendCall) {c : SpendCall} {wait : ℕ}
    (refused : ((new interval burst).spend (after (new interval burst).spend Shards.new done) c).2 = .error wait) :
    WaitExact SpendCall.key SpendCall.time (new interval burst).spend (fun _ => True)
      (after (new interval burst).spend Shards.new done) c wait :=
  (new interval burst).forgetful.answersBy.waitExact (honest small) (fun c _ => c.now.isLt) trivial trivial
    (fun v hv => Shards.fits_new.after _ done c.key v hv) refused

end Memory

/-! ## Rounded sums -/

lemma luaNumber_le_succ {n : ℕ} (h : n < 2 ^ 54) : luaNumber n ≤ n + 1 := by
  obtain hlt | hge := Nat.lt_or_ge n (2 ^ 53)
  · rw [luaNumber_of_lt hlt]
    exact Nat.le_succ n
  · have hlog : n.log2 = 53 := Nat.le_antisymm
      (Nat.le_of_lt_succ ((Nat.log2_lt (by omega)).mpr h)) ((Nat.le_log2 (by omega)).mpr hge)
    simp only [luaNumber, hlog]
    split <;> omega

lemma luaNumber_of_le {n : ℕ} (h : n ≤ 2 ^ 53) : luaNumber n = n := by
  obtain hlt | rfl := h.lt_or_eq
  · exact luaNumber_of_lt hlt
  · decide +kernel

/-- From `2 ^ 53` on there is nothing below it to round to. -/
lemma le_luaNumber {n : ℕ} (h : 2 ^ 53 ≤ n) : 2 ^ 53 ≤ luaNumber n := by
  have hn : n ≠ 0 := by omega
  have hlog : 53 ≤ n.log2 := (Nat.le_log2 hn).mpr h
  obtain ⟨e, he⟩ := Nat.exists_eq_add_of_le hlog
  have hulp : n.log2 + 1 - 53 = e + 1 := by omega
  have hself : 2 ^ 52 * 2 ^ (e + 1) ≤ n := by
    have hpow : 2 ^ 52 * 2 ^ (e + 1) = 2 ^ n.log2 := by
      rw [← Nat.pow_add, he]
      congr 1
      omega
    rw [hpow]
    exact Nat.log2_self_le hn
  have hquotient : 2 ^ 52 ≤ n / 2 ^ (e + 1) := (Nat.le_div_iff_mul_le (by positivity)).mpr hself
  have htwo : 2 ≤ 2 ^ (e + 1) := by
    rw [Nat.pow_succ]
    have hone : 1 ≤ 2 ^ e := Nat.one_le_two_pow
    omega
  have hdown : 2 ^ 53 ≤ n / 2 ^ (e + 1) * 2 ^ (e + 1) :=
    calc 2 ^ 53 = 2 ^ 52 * 2 := by decide
      _ ≤ n / 2 ^ (e + 1) * 2 ^ (e + 1) := Nat.mul_le_mul hquotient htwo
  simp only [luaNumber, hulp]
  split
  · rw [Nat.succ_mul]
    omega
  · exact hdown

/-- Rounding does not hide that a tolerance is passed. -/
lemma lt_luaNumber_iff {tolerance n : ℕ} (h : tolerance < 2 ^ 53) : tolerance < luaNumber n ↔ tolerance < n := by
  obtain hlt | hge := Nat.lt_or_ge n (2 ^ 53)
  · rw [luaNumber_of_lt hlt]
  · have hle := le_luaNumber hge
    constructor <;> omega

/-! ## In Redis -/

namespace Shared

/-- The rule the script decides by. -/
def rule (num : ℕ → ℕ) (sh : Shared) : Rule ℕ := fun spent now =>
  if sh.tolerance < num (num (spent + sh.interval) - now) then
    .error (num (num (num (spent + sh.interval) - sh.tolerance) - now))
  else .ok (num (spent + sh.interval))

/-- The numbers `RateLimit` passes, in microseconds. -/
structure Accepted (sh : Shared) : Prop where
  interval_pos : 0 < sh.interval
  interval_le : sh.interval ≤ sh.tolerance
  tolerance_lt : sh.tolerance < 2 ^ 53

lemma accepted (r : RateLimit) : (new r.interval r.burst).Accepted where
  interval_pos := by
    simp only [new]
    omega
  interval_le := by
    simp only [new]
    exact Nat.le_mul_of_pos_right _ r.burst_pos
  tolerance_lt := by
    have hinterval := r.interval_le
    have hmicros : max 1 (r.interval / 1000) ≤ 86400 * 1000000 := by omega
    simp only [new]
    calc max 1 (r.interval / 1000) * r.burst ≤ 86400 * 1000000 * 100000 := Nat.mul_le_mul hmicros r.burst_le
      _ < 2 ^ 53 := by decide

variable {sh : Shared} {store : RedisStore} {c : ScriptCall}

/-- The clock of a call tells a double, also an interval later. -/
def Timely (sh : Shared) (c : ScriptCall) : Prop := c.time + sh.interval < 2 ^ 53

instance : DecidablePred sh.Timely := fun c => inferInstanceAs (Decidable (c.time + sh.interval < 2 ^ 53))

/-- A time that can be kept. -/
def Keeps (sh : Shared) (v : ℕ) : Prop := v + sh.interval < 2 ^ 53 + sh.tolerance

/-- The rounded sum, and what is computed from it. -/
lemma Keeps.sum_le (h : sh.Accepted) {v : ℕ} (hv : sh.Keeps v) :
    luaNumber (v + sh.interval) ≤ v + sh.interval + 1 ∧
      luaNumber (luaNumber (v + sh.interval) - sh.tolerance) = luaNumber (v + sh.interval) - sh.tolerance := by
  have htolerance := h.tolerance_lt
  rw [Keeps] at hv
  have hle : luaNumber (v + sh.interval) ≤ v + sh.interval + 1 := luaNumber_le_succ (by omega)
  exact ⟨hle, luaNumber_of_le (by omega)⟩

/-- The rule at a time not before the call. -/
lemma rule_cases (h : sh.Accepted) {v t : ℕ} (hv : sh.Keeps v) :
    if t + sh.tolerance < luaNumber (v + sh.interval) then
      sh.rule luaNumber v t = .error (luaNumber (v + sh.interval) - sh.tolerance - t)
    else sh.rule luaNumber v t = .ok (luaNumber (v + sh.interval)) := by
  have htolerance := h.tolerance_lt
  obtain ⟨hle, hless⟩ := hv.sum_le h
  rw [Keeps] at hv
  by_cases hover : t + sh.tolerance < luaNumber (v + sh.interval)
  · have hwait := luaNumber_of_le (n := luaNumber (v + sh.interval) - sh.tolerance - t) (by omega)
    have hrefuses := (lt_luaNumber_iff (n := luaNumber (v + sh.interval) - t) htolerance).mpr (by omega)
    rw [if_pos hover, rule, if_pos hrefuses, hless, hwait]
  · have hallows := (lt_luaNumber_iff (n := luaNumber (v + sh.interval) - t) htolerance).not.mpr (by omega)
    rw [if_neg hover, rule, if_neg hallows]

/-- The waits of the script are exact, while its clock is. -/
lemma honest (h : sh.Accepted) :
    HonestRule (sh.rule luaNumber) sh.Keeps fun t => t + sh.interval < 2 ^ 53 := by
  have hle := h.interval_le
  have hfresh : ∀ t, t + sh.interval < 2 ^ 53 → ∃ next, sh.rule luaNumber t t = .ok next := by
    intro t ht
    have hkeeps : sh.Keeps t := by
      rw [Keeps]
      omega
    have hcases := rule_cases h hkeeps (t := t)
    rw [luaNumber_of_lt ht, if_neg (by omega)] at hcases
    exact ⟨_, hcases⟩
  -- a refused time is ahead of the call
  have hahead : ∀ v t wait, sh.Keeps v → t + sh.interval < 2 ^ 53 →
      sh.rule luaNumber (max v t) t = .error wait →
        max v t = v ∧ t + sh.tolerance + wait = luaNumber (v + sh.interval) := by
    intro v t wait hv ht refused
    obtain hvt | htv := Nat.le_total v t
    · obtain ⟨next, hnext⟩ := hfresh t ht
      rw [Nat.max_eq_right hvt, hnext] at refused
      exact nomatch refused
    · rw [Nat.max_eq_left htv] at refused
      have hcases := rule_cases h hv (t := t)
      split_ifs at hcases with hover
      · rw [hcases] at refused
        have hwait := Except.error.inj refused
        exact ⟨Nat.max_eq_left htv, by omega⟩
      · rw [hcases] at refused
        exact nomatch refused
  constructor
  · exact hfresh
  · intro v t u wait hv ht hu htu refused hlt
    obtain ⟨-, hwait⟩ := hahead v t wait hv ht refused
    obtain ⟨hsum, -⟩ := hv.sum_le h
    have huv : u < v := by
      by_contra hvu
      have hexact : luaNumber (v + sh.interval) = v + sh.interval := luaNumber_of_lt (by omega)
      omega
    have hcases := rule_cases h hv (t := u)
    rw [if_pos (by omega)] at hcases
    rw [Nat.max_eq_left huv.le]
    refine ⟨huv, hcases.trans ?_⟩
    congr 1
    omega
  · intro v t u wait hv ht hu refused hover
    obtain ⟨-, hwait⟩ := hahead v t wait hv ht refused
    obtain hvu | huv := Nat.le_total v u
    · rw [Nat.max_eq_right hvu]
      exact hfresh u hu
    · have hcases := rule_cases h hv (t := u)
      rw [if_neg (by omega)] at hcases
      rw [Nat.max_eq_left huv]
      exact ⟨_, hcases⟩

/-- The keys of a store go no earlier than their times, and these can be kept. -/
def Reached (sh : Shared) (store : RedisStore) : Prop :=
  store.Sound ∧ ∀ k v, store.get k = some v → sh.Keeps v

lemma reached_empty : sh.Reached RedisStore.empty := ⟨RedisStore.sound_empty, nofun⟩

/-- The script, while its clock is exact. -/
lemma take_eq (timely : sh.Timely c) :
    sh.take luaNumber store c =
      match sh.rule luaNumber (effective ((store.expire c).get c.key) c.time) c.time with
      | .ok next =>
        ((store.expire c).set c.key (formatted next) c.time (milliseconds (luaNumber (next - c.time))), .ok ())
      | .error wait => (store.expire c, .error wait) := by
  have hnow : nowOf luaNumber c.time = c.time := by
    refine nowOf_of_exact fun n hn => luaNumber_of_lt ?_
    rw [Timely] at timely
    omega
  rw [take, script, hnow]
  simp only [scriptAt, ite_lt_eq_effective, rule]
  by_cases hover : sh.tolerance <
      luaNumber (luaNumber (effective ((store.expire c).get c.key) c.time + sh.interval) - c.time)
  · simp only [if_pos hover, Int.toNat_natCast]
    rw [if_neg (Int.not_lt.mpr (Int.natCast_nonneg _))]
  · simp only [if_neg hover]
    rfl

/-- A time the script keeps is within the tolerance of the call. -/
lemma next_le (h : sh.Accepted) {spent next : ℕ} (ok : sh.rule luaNumber spent c.time = .ok next) :
    next ≤ c.time + sh.tolerance := by
  simp only [rule] at ok
  split at ok
  · exact nomatch ok
  · rename_i hwithin
    obtain rfl := Except.ok.inj ok
    rw [lt_luaNumber_iff h.tolerance_lt] at hwithin
    omega

lemma get_expire (hs : store.Sound) (c : ScriptCall) (k : BitVec 64) :
    Kept c.time (store.get k) ((store.expire c).get k) := hs.forgets_expire c k

/-- What the script does to the times. -/
lemma answersBy (h : sh.Accepted) :
    AnswersBy sh.Timely sh.Reached (sh.rule luaNumber) ScriptCall.key ScriptCall.time RedisStore.get
      (sh.take luaNumber) where
  sound store c hs hc := by
    have hexpire : sh.Reached (store.expire c) := by
      refine ⟨hs.1.expire c, fun k v hv => ?_⟩
      obtain hsame | ⟨hnone, -⟩ := get_expire hs.1 c k
      · exact hs.2 k v (hsame ▸ hv)
      · rw [hnone] at hv
        exact nomatch hv
    rw [take_eq hc]
    split
    · rename_i next hok
      have hnext := next_le h hok
      have htolerance := h.tolerance_lt
      refine ⟨hexpire.1.set c.key ?_, ?_⟩
      · have hexact := luaNumber_of_lt (n := next - c.time) (by omega)
        have hle := le_milliseconds (luaNumber (next - c.time))
        omega
      · intro k v hv
        rw [RedisStore.get_set] at hv
        by_cases hk : k = c.key
        · rw [hk, Function.update_self] at hv
          obtain rfl := Option.some.inj hv
          rw [Timely] at hc
          rw [Keeps]
          omega
        · rw [Function.update_of_ne hk] at hv
          exact hexpire.2 k v hv
    · exact hexpire
  answer store c hs hc := by
    have heffective := (hs.1.forgets_expire c).effective_eq le_rfl c.key
    rw [take_eq hc, ← heffective]
    split <;> rename_i hrule <;> rw [hrule] <;> rfl
  kept store c k hs hc := by
    rw [take_eq hc]
    split
    · intro idle
      have hk : k ≠ c.key := fun hk => idle hk.symm trivial
      rw [RedisStore.get_set, Function.update_of_ne hk]
      exact get_expire hs.1 c k
    · exact fun _ => get_expire hs.1 c k

/-- After any calls. -/
lemma reached_after (h : sh.Accepted) (done : List ScriptCall) (timely : ∀ d ∈ done, sh.Timely d)
    {store : RedisStore} (hs : sh.Reached store) : sh.Reached (after (sh.take luaNumber) store done) := by
  induction done generalizing store with
  | nil => exact hs
  | cons d done ih =>
    have hd : sh.Timely d := timely d (List.mem_cons_self ..)
    exact ih (fun e he => timely e (List.mem_cons_of_mem _ he)) ((answersBy h).sound store d hs hd)

/-- The wait of a refused call is exact, after any calls. -/
lemma take_waitExact (h : sh.Accepted) {done : List ScriptCall} (timely : ∀ d ∈ done, sh.Timely d)
    (hc : sh.Timely c) {wait : ℕ}
    (refused : (sh.take luaNumber (after (sh.take luaNumber) RedisStore.empty done) c).2 = .error wait) :
    WaitExact ScriptCall.key ScriptCall.time (sh.take luaNumber) sh.Timely
      (after (sh.take luaNumber) RedisStore.empty done) c wait := by
  have hreached := reached_after h done timely reached_empty
  exact (answersBy h).waitExact (honest h) (fun _ hc => hc) hreached hc (hreached.2 c.key) refused

end Shared

/-! ## Whole seconds -/

/-- The header tells a number of seconds that is enough, and by less than a second, unless it is one. -/
def TellsSeconds (headers : Headers) (unit wait : ℕ) : Prop :=
  ∃ seconds : ℕ, headers.lookup "retry-after" = some (toString seconds) ∧ wait ≤ seconds * unit ∧
    (seconds * unit < wait + unit ∨ seconds = 1)

lemma Server.refused_tells (wait : ℕ) : TellsSeconds (Server.refused wait).headers 1000000000 wait := by
  refine ⟨max 1 ((wait + 999999999) / 1000000000), rfl, ?_, ?_⟩ <;> omega

/-- What `refused` of `python/oxbrook/_limits.py` raises. -/
structure LimitError where
  status : ℕ
  detail : String
  headers : Headers

namespace Shared

/-- `wait / 1_000_000`. -/
def seconds (wait : ℕ) : ℚ := Doubles.nearest (wait / (1000000 : ℕ))

/-- `refused` of `python/oxbrook/_limits.py`. -/
def refused (wait : ℚ) : LimitError where
  status := 429
  detail := "rate limit exceeded"
  headers := [("retry-after", toString (max 1 ⌈wait⌉)), ("x-oxbrook-limited", "1")]

lemma refused_tells {wait : ℕ} (small : wait ≤ 2 ^ 53) :
    TellsSeconds (refused (seconds wait)).headers 1000000 wait := by
  have hceil : ⌈seconds wait⌉ = ((wait + 999999) / 1000000 : ℕ) :=
    Doubles.ceil_nearest_div (k := 34) (by decide) (by omega) (by decide) (by decide)
  have hmax : max 1 ⌈seconds wait⌉ = ((max 1 ((wait + 999999) / 1000000) : ℕ) : ℤ) := by
    rw [hceil]
    push_cast
    rfl
  refine ⟨max 1 ((wait + 999999) / 1000000), ?_, ?_, ?_⟩
  · simp only [refused, hmax]
    rfl
  · omega
  · omega

variable {sh : Shared} {store : RedisStore} {c : ScriptCall}

lemma wait_le (h : sh.Accepted) (hs : sh.Reached store) (hc : sh.Timely c) {wait : ℕ}
    (refused : (sh.take luaNumber store c).2 = .error wait) : wait ≤ 2 ^ 53 := by
  have hkeeps : sh.Keeps (effective (store.get c.key) c.time) := by
    have hnow : sh.Keeps c.time := by
      rw [Timely] at hc
      rw [Keeps]
      omega
    cases hv : store.get c.key with
    | none => rwa [effective, Option.getD_none, Nat.max_self]
    | some v =>
      have hkept := hs.2 c.key v hv
      simp only [Keeps, effective, Option.getD_some] at hkept hnow ⊢
      omega
  rw [(answersBy h).answer store c hs hc] at refused
  obtain ⟨hsum, -⟩ := hkeeps.sum_le h
  have hcases := rule_cases h hkeeps (t := c.time)
  rw [Keeps] at hkeeps
  split_ifs at hcases
  · rw [hcases] at refused
    have hwait := Except.error.inj refused
    omega
  · rw [hcases] at refused
    cases refused

end Shared

/-! ## Both -/

/-- **A refused client that waits as told is served.**  In memory, for every interval and burst, and whatever calls
came before: a wait is exact, and the seconds told are enough.  In Redis, for every limit that `RateLimit` accepts,
the same holds of calls at which the clock tells less than `2 ^ 53` microseconds less an interval. -/
theorem served_after_wait (interval burst : ℕ) (small : interval < 2 ^ 64) (r : RateLimit) :
    (let l := Limit.new interval burst
      ∀ done c wait, (l.spend (after l.spend Shards.new done) c).2 = .error wait →
        WaitExact SpendCall.key SpendCall.time l.spend (fun _ => True) (after l.spend Shards.new done) c wait ∧
          TellsSeconds (Server.refused wait).headers 1000000000 wait) ∧
    (let sh := Shared.new r.interval r.burst
      ∀ done c wait, (∀ d ∈ done, sh.Timely d) → sh.Timely c →
        (sh.take luaNumber (after (sh.take luaNumber) RedisStore.empty done) c).2 = .error wait →
          WaitExact ScriptCall.key ScriptCall.time (sh.take luaNumber) sh.Timely
            (after (sh.take luaNumber) RedisStore.empty done) c wait ∧
          TellsSeconds (Shared.refused (Shared.seconds wait)).headers 1000000 wait) := by
  constructor
  · intro l done c wait refused
    exact ⟨Limit.spend_waitExact small done refused, Server.refused_tells wait⟩
  · intro sh done c wait hdone hc refused
    have haccepted : sh.Accepted := Shared.accepted r
    have hreached := Shared.reached_after haccepted done hdone Shared.reached_empty
    exact ⟨Shared.take_waitExact haccepted hdone hc refused,
      Shared.refused_tells (Shared.wait_le haccepted hreached hc refused)⟩

/-- One a second with a burst of one: half a second later the wait is half a second, to the nanosecond and to the
microsecond. -/
theorem served_after_wait_half :
    let r : RateLimit := ⟨1, .second, 1, by decide, by decide, by decide, by decide⟩
    let l := Limit.new 1000000000 1
    let sh := Shared.new r.interval r.burst
    WaitExact SpendCall.key SpendCall.time l.spend (fun _ => True) (after l.spend Shards.new [⟨7, 5⟩])
        ⟨7, 500000005⟩ 500000000 ∧
      WaitExact ScriptCall.key ScriptCall.time (sh.take luaNumber) sh.Timely
        (after (sh.take luaNumber) RedisStore.empty [⟨7, 5, fun _ => false⟩]) ⟨7, 500005, fun _ => true⟩ 500000 := by
  intro r l sh
  have hserved := served_after_wait 1000000000 1 (by decide) r
  constructor
  · exact (hserved.1 [⟨7, 5⟩] ⟨7, 500000005⟩ 500000000 (by decide +kernel)).1
  · have htimely : ∀ d ∈ [(⟨7, 5, fun _ => false⟩ : ScriptCall)], sh.Timely d := by decide +kernel
    exact (hserved.2 _ ⟨7, 500005, fun _ => true⟩ 500000 htimely (by decide +kernel) (by decide +kernel)).1

/-- At `2 ^ 53 + 2` microseconds a limit of one each microsecond refuses a key without a time, and tells it to wait
two microseconds; but one later it is allowed. -/
theorem rounded_clock_misleads :
    let r : RateLimit := ⟨1000000, .second, 1, by decide, by decide, by decide, by decide⟩
    let sh := Shared.new r.interval r.burst
    let c : ScriptCall := ⟨7, 2 ^ 53 + 2, fun _ => false⟩
    (sh.take luaNumber RedisStore.empty c).2 = .error 2 ∧
      ¬ WaitExact ScriptCall.key ScriptCall.time (sh.take luaNumber) (fun _ => True) RedisStore.empty c 2 := by
  intro r sh c
  refine ⟨by decide +kernel, fun exact => ?_⟩
  have hagain := exact [] ⟨7, 2 ^ 53 + 3, fun _ => false⟩ (by simp) trivial rfl (by decide) (by simp [Idle])
  revert hagain
  decide +kernel

end Oxbrook
