import Oxbrook.Foundation.Numerals
import Oxbrook.Limits.Limit

/-!
# The limiter kept in Redis

The `_GCRA` script and `Shared.take` of `python/oxbrook/_limits.py`.  The script counts in microseconds of the
time Redis keeps, stores the time of a key as a decimal string and lets the key expire, in whole milliseconds,
once the time has passed.  A key set with `PX p` stays for at least `p` milliseconds; when it goes after that is
up to Redis, and here up to the call.

Numbers of the script are doubles.  `luaNumber` rounds as they do, and below `2 ^ 53` it rounds nothing.
`shared_decides_as_limit` compares the script with `Limit::spend` for what `RateLimit` accepts: the same
decisions and the same waits, as long as the script forms no number from `2 ^ 53` on.
-/

namespace Oxbrook

open CellRate

/-! ## What `RateLimit` accepts -/

inductive RateUnit
  | second
  | minute
  | hour
  | day

/-- `_UNITS`. -/
def RateUnit.seconds : RateUnit → ℕ
  | .second => 1
  | .minute => 60
  | .hour => 3600
  | .day => 86400

/-- `_MAX_BURST`. -/
def maxBurst : ℕ := 100000

/-- `_MAX_COUNT`. -/
def maxCount : ℕ := 1000000

structure RateLimit where
  count : ℕ
  unit : RateUnit
  burst : ℕ
  count_pos : 1 ≤ count
  count_le : count ≤ maxCount
  burst_pos : 1 ≤ burst
  burst_le : burst ≤ maxBurst

namespace RateLimit

/-- `RateLimit(f"{count}/{unit}", burst=burst)`. -/
def new (count : ℕ) (unit : RateUnit) (burst : Option ℕ) : Except String RateLimit :=
  if hcount : 1 ≤ count ∧ count ≤ maxCount then
    let burst := burst.getD (min count maxBurst)
    if hburst : 1 ≤ burst ∧ burst ≤ maxBurst then
      .ok { count, unit, burst, count_pos := hcount.1, count_le := hcount.2, burst_pos := hburst.1,
            burst_le := hburst.2 }
    else .error s!"burst must be a whole number from 1 to {maxBurst}, not {burst}"
  else .error s!"the count in a rate must be from 1 to {maxCount}, not {count}"

/-- Nanoseconds between two requests. -/
def interval (r : RateLimit) : ℕ := r.unit.seconds * 1000000000 / r.count

lemma interval_pos (r : RateLimit) : 1000 ≤ r.interval := by
  rw [interval, Nat.le_div_iff_mul_le r.count_pos]
  have hcount : r.count ≤ 1000000 := r.count_le
  have hunit : 1 ≤ r.unit.seconds := by cases r.unit <;> decide
  omega

lemma interval_le (r : RateLimit) : r.interval ≤ 86400 * 1000000000 := by
  have hunit : r.unit.seconds ≤ 86400 := by cases r.unit <;> decide
  calc r.interval ≤ r.unit.seconds * 1000000000 := Nat.div_le_self _ _
    _ ≤ 86400 * 1000000000 := Nat.mul_le_mul_right _ hunit

/-- Burst intervals of the longest period. -/
lemma tolerance_le (r : RateLimit) : r.burst * r.interval ≤ 100000 * (86400 * 1000000000) :=
  Nat.mul_le_mul r.burst_le r.interval_le

end RateLimit

/-! ## Numbers of the script -/

/-- The double nearest to `n`, of two the one with the even significand. -/
def luaNumber (n : ℕ) : ℕ :=
  let ulp := 2 ^ (n.log2 + 1 - 53)
  let rest := n % ulp
  if ulp < 2 * rest ∨ 2 * rest = ulp ∧ n / ulp % 2 = 1 then (n / ulp + 1) * ulp else n / ulp * ulp

lemma luaNumber_of_lt {n : ℕ} (h : n < 2 ^ 53) : luaNumber n = n := by
  have hulp : n.log2 + 1 - 53 = 0 := by
    by_cases hn : n = 0
    · rw [hn]
      decide
    · have hlog := (Nat.log2_lt hn).mpr h
      omega
  simp [luaNumber, hulp, Nat.mod_one]

/-! ## Keys with a time to live -/

/-- `tonumber`, of a text of decimal digits. -/
def tonumber (text : List Char) : Option ℕ :=
  if text = [] then none else Numerals.readDigits 10 text

/-- `string.format('%.0f', n)`. -/
def formatted (n : ℕ) : List Char := Nat.toDigits 10 n

lemma tonumber_formatted (n : ℕ) : tonumber (formatted n) = some n := by
  rw [tonumber, formatted, if_neg Nat.toDigits_ne_nil]
  exact Numerals.readDigits_toDigits (by decide) (by decide) n

/-- A string, and the time in microseconds before which its key does not go. -/
structure SharedEntry where
  value : List Char
  expires : ℕ

abbrev RedisStore := BitVec 64 → Option SharedEntry

/-- One run of the script: the key, the time Redis tells, and the keys that Redis lets go if it may. -/
structure ScriptCall where
  key : BitVec 64
  time : ℕ
  gone : BitVec 64 → Bool

namespace RedisStore

def empty : RedisStore := fun _ => none

def expire (store : RedisStore) (c : ScriptCall) : RedisStore := fun k =>
  (store k).filter fun e => ! (c.gone k && decide (e.expires ≤ c.time))

/-- `SET key value PX px` at time `now`. -/
def set (store : RedisStore) (key : BitVec 64) (value : List Char) (now px : ℕ) : RedisStore :=
  Function.update store key (some { value, expires := now + 1000 * px })

/-- `tonumber(redis.call('GET', key))`. -/
def get (store : RedisStore) (key : BitVec 64) : Option ℕ := (store key).bind fun e => tonumber e.value

/-- No time is after the moment its key may go. -/
def Sound (store : RedisStore) : Prop :=
  ∀ k e v, store k = some e → tonumber e.value = some v → v ≤ e.expires

lemma get_empty : empty.get = fun _ => none := rfl

lemma sound_empty : empty.Sound := nofun

variable {store : RedisStore}

lemma Sound.expire (h : store.Sound) (c : ScriptCall) : (store.expire c).Sound := by
  intro k e v he hv
  exact h k e v (Option.filter_eq_some_iff.mp he).1 hv

/-- What Redis lets go has passed. -/
lemma Sound.forgets_expire (h : store.Sound) (c : ScriptCall) :
    Forgets c.time store.get (store.expire c).get := by
  intro k
  simp only [get, RedisStore.expire]
  cases he : store k with
  | none => exact .inl rfl
  | some e =>
    by_cases hgone : (c.gone k && decide (e.expires ≤ c.time)) = true
    · refine .inr ⟨by rw [Option.filter_some, hgone]; rfl, fun v hv => ?_⟩
      exact (h k e v he hv).trans (of_decide_eq_true (Bool.and_eq_true_iff.mp hgone).2)
    · exact .inl (by rw [Option.filter_some, Bool.eq_false_of_not_eq_true hgone]; rfl)

lemma Sound.set (h : store.Sound) (key : BitVec 64) {next now px : ℕ} (late : next ≤ now + 1000 * px) :
    (store.set key (formatted next) now px).Sound := by
  intro k e v he hv
  by_cases hk : k = key
  · rw [hk, RedisStore.set, Function.update_self] at he
    obtain rfl := Option.some.inj he
    rw [tonumber_formatted] at hv
    exact (Option.some.inj hv).symm.trans_le late
  · rw [RedisStore.set, Function.update_of_ne hk] at he
    exact h k e v he hv

lemma get_set (key : BitVec 64) (next now px : ℕ) :
    (store.set key (formatted next) now px).get = Function.update store.get key (some next) := by
  funext k
  by_cases hk : k = key
  · rw [hk, get, set, Function.update_self, Function.update_self, Option.bind_some, tonumber_formatted]
  · rw [get, set, Function.update_of_ne hk, Function.update_of_ne hk, get]

end RedisStore

/-! ## The script -/

lemma ite_lt_eq_effective (entry : Option ℕ) (now : ℕ) :
    (if entry.getD now < now then now else entry.getD now) = effective entry now := by
  rw [effective]
  split <;> omega

/-- What never changes of a limit kept in Redis, in microseconds. -/
structure Shared where
  interval : ℕ
  tolerance : ℕ

namespace Shared

def new (intervalNs burst : ℕ) : Shared where
  interval := max 1 (intervalNs / 1000)
  tolerance := max 1 (intervalNs / 1000) * burst

/-- An interval of whole microseconds. -/
lemma new_of_whole {q : ℕ} (pos : 0 < q) (burst : ℕ) :
    new (1000 * q) burst = { interval := q, tolerance := burst * q } := by
  have hmax : max 1 (1000 * q / 1000) = q := by omega
  rw [new, hmax, Nat.mul_comm]

/-- `tonumber(t[1]) * 1000000 + tonumber(t[2])`, where `TIME` tells seconds and microseconds. -/
def nowOf (num : ℕ → ℕ) (time : ℕ) : ℕ := num (num (time / 1000000 * 1000000) + time % 1000000)

lemma nowOf_of_exact {num : ℕ → ℕ} {time : ℕ} (exact : ∀ n ≤ time, num n = n) : nowOf num time = time := by
  rw [nowOf, exact _ (Nat.div_mul_le_self _ _), Nat.div_add_mod']
  exact exact time le_rfl

/-- `math.ceil(n / 1000)`.  The quotient by 1000 of a number below `2 ^ 53` is off by less than a thousandth, and
not at all when it is whole, so the rounding of doubles does not show. -/
def milliseconds (n : ℕ) : ℕ := (n + 999) / 1000

lemma le_milliseconds (n : ℕ) : n ≤ 1000 * milliseconds n := by
  rw [milliseconds]
  omega

/-- `_GCRA` from its third line on, with numbers rounded by `num`. -/
def scriptAt (num : ℕ → ℕ) (sh : Shared) (store : RedisStore) (c : ScriptCall) (now : ℕ) : RedisStore × ℤ :=
  let spent := (store.get c.key).getD now
  let spent := if spent < now then now else spent
  let nxt := num (spent + sh.interval)
  if sh.tolerance < num (nxt - now) then
    (store, num (num (nxt - sh.tolerance) - now))
  else
    (store.set c.key (formatted nxt) c.time (milliseconds (num (nxt - now))), -1)

/-- `_GCRA`. -/
def script (num : ℕ → ℕ) (sh : Shared) (store : RedisStore) (c : ScriptCall) : RedisStore × ℤ :=
  sh.scriptAt num (store.expire c) c (nowOf num c.time)

/-- `Shared.take` where Redis answers. -/
def take (num : ℕ → ℕ) (sh : Shared) (store : RedisStore) (c : ScriptCall) :
    RedisStore × Except ℕ Unit :=
  let (store, wait) := sh.script num store c
  (store, if wait < 0 then .ok () else .error wait.toNat)

variable {sh : Shared} {store : RedisStore} {c : ScriptCall}

/-- Without rounding the script decides by the algorithm. -/
lemma take_id (sh : Shared) (store : RedisStore) (c : ScriptCall) :
    sh.take id store c =
      match gcra sh.interval sh.tolerance (effective ((store.expire c).get c.key) c.time) c.time with
      | .ok next => ((store.expire c).set c.key (formatted next) c.time (milliseconds (next - c.time)), .ok ())
      | .error wait => (store.expire c, .error wait) := by
  have hnow : nowOf id c.time = c.time := nowOf_of_exact fun _ _ => rfl
  rw [take, script, hnow]
  simp only [scriptAt, id, ite_lt_eq_effective, gcra]
  by_cases hover :
      sh.tolerance < effective ((store.expire c).get c.key) c.time + sh.interval - c.time
  · simp only [if_pos hover, Int.toNat_natCast]
    rw [if_neg (Int.not_lt.mpr (Int.natCast_nonneg _))]
  · simp only [if_neg hover]
    rfl

/-- Nor does it round while the sum it forms is below `2 ^ 53`. -/
lemma take_luaNumber
    (exact : effective ((store.expire c).get c.key) c.time + sh.interval < 2 ^ 53) :
    sh.take luaNumber store c = sh.take id store c := by
  have hle := le_effective ((store.expire c).get c.key) c.time
  have hnum : ∀ n ≤ effective ((store.expire c).get c.key) c.time + sh.interval, luaNumber n = n :=
    fun n hn => luaNumber_of_lt (hn.trans_lt exact)
  have hnow : nowOf luaNumber c.time = c.time := nowOf_of_exact fun n hn => hnum n (by omega)
  have hsame : nowOf id c.time = c.time := nowOf_of_exact fun _ _ => rfl
  have hahead := hnum (effective ((store.expire c).get c.key) c.time + sh.interval - c.time) (by omega)
  have hless := hnum (effective ((store.expire c).get c.key) c.time + sh.interval - sh.tolerance)
    (by omega)
  have hwait := hnum (effective ((store.expire c).get c.key) c.time + sh.interval - sh.tolerance - c.time)
    (by omega)
  have hscript : sh.scriptAt luaNumber (store.expire c) c c.time = sh.scriptAt id (store.expire c) c c.time := by
    simp only [scriptAt, id, ite_lt_eq_effective, hnum _ le_rfl, hahead, hless, hwait]
  rw [take, take, script, script, hnow, hsame, hscript]

/-- The script forgets only times that have passed. -/
lemma forgetful (sh : Shared) :
    Forgetful RedisStore.Sound (gcra sh.interval sh.tolerance) ScriptCall.key ScriptCall.time
      RedisStore.get (sh.take id) where
  sound store c hs := by
    rw [take_id]
    split
    · refine (hs.expire c).set c.key ?_
      have hle := le_milliseconds (‹ℕ› - c.time)
      omega
    · exact hs.expire c
  allowed store c next hs ok := by
    have hforgets := hs.forgets_expire c
    rw [← hforgets.effective_eq le_rfl] at ok
    rw [take_id, ok]
    refine ⟨rfl, ?_⟩
    rw [RedisStore.get_set]
    exact hforgets.update _ _
  refused store c wait hs error := by
    have hforgets := hs.forgets_expire c
    rw [← hforgets.effective_eq le_rfl] at error
    rw [take_id, error]
    exact ⟨rfl, hforgets⟩

/-- The script forms no number from `2 ^ 53` on: the largest is the time it would keep. -/
inductive InRange (sh : Shared) : RedisStore → List ScriptCall → Prop
  | nil (store : RedisStore) : InRange sh store []
  | cons {store : RedisStore} {c : ScriptCall} {calls : List ScriptCall}
      (exact : effective ((store.expire c).get c.key) c.time + sh.interval < 2 ^ 53)
      (rest : InRange sh (sh.take luaNumber store c).1 calls) : InRange sh store (c :: calls)

variable {calls : List ScriptCall}

lemma InRange.answers_eq (h : InRange sh store calls) :
    answers (sh.take luaNumber) store calls = answers (sh.take id) store calls := by
  induction h with
  | nil => rw [answers, answers]
  | cons exact _ ih => rw [answers, answers, ← take_luaNumber exact, ih]

lemma InRange.time_lt (h : InRange sh store calls) : ∀ c ∈ calls, c.time < 2 ^ 53 := by
  induction h with
  | nil => simp
  | @cons store c _ exact _ ih =>
    intro d hd
    obtain rfl | hd := List.mem_cons.mp hd
    · have hle := le_effective ((store.expire d).get d.key) d.time
      omega
    · exact ih d hd

end Shared

/-! ## The two limiters -/

/-- The same request to a process that counts nanoseconds from `start`. -/
def ScriptCall.spendCall (start : ℕ) (c : ScriptCall) : SpendCall where
  key := c.key
  now := BitVec.ofNat 64 (1000 * (c.time - start))

lemma ScriptCall.time_spendCall {c : ScriptCall} (h : c.time < 2 ^ 53) (start : ℕ) :
    (c.spendCall start).time = 1000 * (c.time - start) := by
  rw [spendCall, SpendCall.time, BitVec.toNat_ofNat]
  exact Nat.mod_eq_of_lt (by omega)

/-- **Redis decides as the process does.**  For every rate and burst that `RateLimit` accepts with an interval of
whole microseconds, every list of requests at times that do not go back, and whichever keys Redis lets go of
those it may: the answers of the script are those of `Limit::spend`, microseconds for nanoseconds. -/
theorem shared_decides_as_limit (r : RateLimit) (whole : r.interval % 1000 = 0) (start : ℕ)
    (calls : List ScriptCall) (sorted : calls.Pairwise fun c d => c.time ≤ d.time)
    (later : ∀ c ∈ calls, start ≤ c.time)
    (exact : (Shared.new r.interval r.burst).InRange RedisStore.empty calls) :
    answers (Limit.new r.interval r.burst).spend Shards.new (calls.map (ScriptCall.spendCall start)) =
      (answers ((Shared.new r.interval r.burst).take luaNumber) RedisStore.empty calls).map
        (Except.mapError fun wait => 1000 * wait) := by
  obtain ⟨q, hq⟩ := Nat.dvd_of_mod_eq_zero whole
  have hpos := r.interval_pos
  have htolerance := r.tolerance_le
  have hnew : Shared.new r.interval r.burst = { interval := q, tolerance := r.burst * q } := by
    rw [hq]
    exact Shared.new_of_whole (by omega) r.burst
  rw [hnew] at exact ⊢
  have hlt := exact.time_lt
  have hsorted : (calls.map (ScriptCall.spendCall start)).Pairwise fun c d => c.time ≤ d.time := by
    refine List.pairwise_map.mpr (sorted.imp_of_mem fun {c d} hc hd hle => ?_)
    rw [ScriptCall.time_spendCall (hlt c hc), ScriptCall.time_spendCall (hlt d hd)]
    omega
  have hroom : ∀ c ∈ calls.map (ScriptCall.spendCall start),
      c.time + (r.burst + 1) * r.interval < 2 ^ 64 := by
    intro c hc
    obtain ⟨d, hd, rfl⟩ := List.mem_map.mp hc
    have htime := hlt d hd
    have hlong := r.interval_le
    have hmul : (r.burst + 1) * r.interval = r.burst * r.interval + r.interval := Nat.succ_mul _ _
    rw [ScriptCall.time_spendCall htime, hmul]
    omega
  calc answers (Limit.new r.interval r.burst).spend Shards.new (calls.map (ScriptCall.spendCall start))
      = answers (serve (gcra r.interval (r.burst * r.interval)) SpendCall.key SpendCall.time)
          (fun _ => none) (calls.map (ScriptCall.spendCall start)) :=
        spend_answers_eq_gcra (by omega) r.burst_pos hsorted hroom
    _ = answers (serve (gcra (1000 * q) (1000 * (r.burst * q))) ScriptCall.key
          fun c => 1000 * (c.time - start)) (fun _ => none) calls := by
        rw [answers_map, hq, Nat.mul_left_comm]
        refine answers_congr calls (fun c hc times => ?_) _
        have hkey : (c.spendCall start).key = c.key := rfl
        simp only [serve, ScriptCall.time_spendCall (hlt c hc), hkey]
    _ = (answers (serve (gcra q (r.burst * q)) ScriptCall.key ScriptCall.time) (fun _ => none) calls).map
          (Except.mapError fun wait => 1000 * wait) :=
        have late : ∀ k v, (fun _ => none : BitVec 64 → Option ℕ) k = some v → start ≤ v := nofun
        answers_rescale (by decide) calls late later
    _ = (answers (Shared.take luaNumber ⟨q, r.burst * q⟩) RedisStore.empty calls).map
          (Except.mapError fun wait => 1000 * wait) := by
        rw [exact.answers_eq, (Shared.forgetful ⟨q, r.burst * q⟩).answers_eq calls RedisStore.sound_empty
          (Forgets.refl 0 _) sorted fun _ _ => Nat.zero_le _, RedisStore.get_empty]

/-- Two a second with a burst of 2: the third request waits, and half a second later the key may already be
gone. -/
theorem shared_decides_as_limit_small :
    let r : RateLimit := ⟨2, .second, 2, by decide, by decide, by decide, by decide⟩
    let calls : List ScriptCall :=
      [⟨7, 1000, fun _ => false⟩, ⟨7, 1001, fun _ => false⟩, ⟨7, 1001, fun _ => true⟩, ⟨7, 2000001, fun _ => true⟩]
    answers (Limit.new r.interval r.burst).spend Shards.new (calls.map (ScriptCall.spendCall 1000)) =
      [.ok (), .ok (), .error 499999000, .ok ()] := by
  intro r calls
  rw [shared_decides_as_limit r (by decide) 1000 calls (by decide) (by decide)
    (.cons (by decide) (.cons (by decide) (.cons (by decide +kernel) (.cons (by decide +kernel) (.nil _)))))]
  decide +kernel

-- From `2 ^ 53` on the sum is rounded: at one a second, the second request is a microsecond early.
example :
    let calls : List ScriptCall :=
      [⟨7, 2 ^ 53 - 999999, fun _ => false⟩, ⟨7, 2 ^ 53, fun _ => false⟩]
    answers (Shared.take luaNumber ⟨1000000, 1000000⟩) RedisStore.empty calls = [.ok (), .ok ()] ∧
      answers (Shared.take id ⟨1000000, 1000000⟩) RedisStore.empty calls = [.ok (), .error 1] := by
  decide +kernel

end Oxbrook
