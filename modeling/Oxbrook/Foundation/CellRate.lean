import Mathlib.Data.List.Sort
import Mathlib.Logic.Function.Basic

/-!
# The generic cell rate algorithm

A limiter keeps, for each key, the time at which the budget of the key is next fully spent.  A call at time
`now` looks at the larger of that time and `now`, and a rule decides from the two whether it is allowed, and
then what the new time is, or how long to wait.  `serve` is the limiter that never forgets a time.

A time that has passed decides nothing, so an implementation may forget it whenever it likes:
`Forgetful.answers_eq` says that one that forgets nothing else gives the same answers, for calls at times that
do not go back.

The rule of the algorithm proper is `gcra`: add one interval, and allow what stays within the tolerance of
`now`.  With a tolerance of `burst` intervals, at most `burst + W / interval` calls of a key are allowed in any
window of length `W` (`allowed_in_window`), and a key whose time has passed is allowed `burst` calls whatever
happens to the others (`burst_allowed`).

A call that is refused is told how long to wait.  `AnswersBy.waitExact` says for which rules this is exact, to the
moment, while nothing of the key is spent.
-/

namespace CellRate

variable {α κ σ ω : Type*}

/-- What a rule says: the time to keep, or how long to wait. -/
abbrev Rule (ω : Type*) := ℕ → ℕ → Except ω ℕ

/-- The time a call looks at. -/
def effective (entry : Option ℕ) (now : ℕ) : ℕ := max (entry.getD now) now

lemma le_effective (entry : Option ℕ) (now : ℕ) : now ≤ effective entry now := le_max_right _ _

/-- Whether a call was allowed. -/
def Allowed : Except ω Unit → Prop
  | .ok _ => True
  | .error _ => False

instance : DecidablePred (Allowed : Except ω Unit → Prop)
  | .ok _ => isTrue trivial
  | .error _ => isFalse id

section Serve

variable [DecidableEq κ] (rule : Rule ω) (key : α → κ) (now : α → ℕ)

/-- One call of the limiter that never forgets. -/
def serve (times : κ → Option ℕ) (c : α) : (κ → Option ℕ) × Except ω Unit :=
  match rule (effective (times (key c)) (now c)) (now c) with
  | .ok next => (Function.update times (key c) (some next), .ok ())
  | .error wait => (times, .error wait)

/-- The answers to a list of calls. -/
def answers (step : σ → α → σ × Except ω Unit) : σ → List α → List (Except ω Unit)
  | _, [] => []
  | s, c :: calls => (step s c).2 :: answers step (step s c).1 calls

/-- The state after a list of calls. -/
def after (step : σ → α → σ × Except ω Unit) : σ → List α → σ
  | s, [] => s
  | s, c :: calls => after step (step s c).1 calls

variable {step : σ → α → σ × Except ω Unit}

omit [DecidableEq κ] in
lemma length_answers (calls : List α) (s : σ) : (answers step s calls).length = calls.length := by
  induction calls generalizing s with
  | nil => rfl
  | cons c calls ih => rw [answers, List.length_cons, List.length_cons, ih]

omit [DecidableEq κ] in
lemma answers_congr {step' : σ → α → σ × Except ω Unit} (calls : List α)
    (same : ∀ c ∈ calls, ∀ s, step s c = step' s c) (s : σ) :
    answers step s calls = answers step' s calls := by
  induction calls generalizing s with
  | nil => rfl
  | cons c calls ih =>
    have hrest : ∀ d ∈ calls, ∀ s, step s d = step' s d := fun d hd => same d (List.mem_cons_of_mem _ hd)
    rw [answers, answers, same c (List.mem_cons_self ..), ih hrest]

omit [DecidableEq κ] in
/-- Calls given in another form. -/
lemma answers_map {β : Type*} (f : β → α) (calls : List β) (s : σ) :
    answers step s (calls.map f) = answers (fun s c => step s (f c)) s calls := by
  induction calls generalizing s with
  | nil => rfl
  | cons c calls ih => rw [List.map_cons, answers, answers, ih]

omit [DecidableEq κ] in
/-- Later calls are answered from the state the earlier ones leave. -/
lemma answers_append (calls more : List α) (s : σ) :
    answers step s (calls ++ more) = answers step s calls ++ answers step (after step s calls) more := by
  induction calls generalizing s with
  | nil => rfl
  | cons c calls ih => rw [List.cons_append, answers, answers, after, ih, List.cons_append]

omit [DecidableEq κ] in
lemma mem_zip_append {calls : List α} {s : σ} {more : List (Except ω Unit)} {p : α × Except ω Unit}
    (hp : p ∈ calls.zip (answers step s calls)) : p ∈ calls.zip (answers step s calls ++ more) := by
  have hzip : (calls ++ []).zip (answers step s calls ++ more) = calls.zip (answers step s calls) :=
    (List.zip_append (length_answers calls s).symm).trans (by simp)
  rw [List.append_nil] at hzip
  rwa [hzip]

/-- The calls of one key are answered as if there were no others. -/
lemma answers_filter (k : κ) (calls : List α) {times times' : κ → Option ℕ} (same : times k = times' k) :
    (calls.zip (answers (serve rule key now) times calls)).filter (fun p => decide (key p.1 = k)) =
      (calls.filter fun c => decide (key c = k)).zip
        (answers (serve rule key now) times' (calls.filter fun c => decide (key c = k))) := by
  induction calls generalizing times times' with
  | nil => rfl
  | cons c calls ih =>
    rw [answers, List.zip_cons_cons]
    by_cases hk : key c = k
    · subst hk
      have hserve : (serve rule key now times c).2 = (serve rule key now times' c).2 ∧
          (serve rule key now times c).1 (key c) = (serve rule key now times' c).1 (key c) := by
        simp only [serve, same]
        split <;> simp [same]
      rw [List.filter_cons_of_pos (by simp), List.filter_cons_of_pos (by simp), answers,
        List.zip_cons_cons, hserve.1, ih hserve.2]
    · have hkept : (serve rule key now times c).1 k = times k := by
        simp only [serve]
        split
        · exact Function.update_of_ne (Ne.symm hk) _ _
        · rfl
      rw [List.filter_cons_of_neg (by simpa using hk), List.filter_cons_of_neg (by simpa using hk),
        ih (hkept.trans same)]

end Serve

/-! ## Forgetting -/

/-- `g` is `f` with some times forgotten that are not after `now`. -/
def Forgets (now : ℕ) (f g : κ → Option ℕ) : Prop :=
  ∀ k, g k = f k ∨ g k = none ∧ ∀ v, f k = some v → v ≤ now

namespace Forgets

variable {t u : ℕ} {f g h : κ → Option ℕ}

lemma refl (t : ℕ) (f : κ → Option ℕ) : Forgets t f f := fun _ => .inl rfl

lemma mono (hf : Forgets t f g) (le : t ≤ u) : Forgets u f g := fun k =>
  (hf k).imp id fun hk => ⟨hk.1, fun v hv => (hk.2 v hv).trans le⟩

lemma trans (hf : Forgets t f g) (hg : Forgets t g h) : Forgets t f h := by
  intro k
  obtain hk | ⟨hk, hpast⟩ := hg k
  · rw [hk]
    exact hf k
  · refine .inr ⟨hk, fun v hv => ?_⟩
    obtain hsame | ⟨-, hold⟩ := hf k
    · exact hpast v (hsame.trans hv)
    · exact hold v hv

lemma update [DecidableEq κ] (hf : Forgets t f g) (k : κ) (v : Option ℕ) :
    Forgets t (Function.update f k v) (Function.update g k v) := by
  intro j
  by_cases hj : j = k
  · exact .inl (by rw [hj, Function.update_self, Function.update_self])
  · rw [Function.update_of_ne hj, Function.update_of_ne hj]
    exact hf j

/-- A call looks at the same time. -/
lemma effective_eq (hf : Forgets t f g) (le : t ≤ u) (k : κ) :
    effective (g k) u = effective (f k) u := by
  obtain hk | ⟨hk, hpast⟩ := hf k
  · rw [hk]
  · rw [hk]
    cases hv : f k with
    | none => rfl
    | some v =>
      have hle : v ≤ u := (hpast v hv).trans le
      simp [effective, hle]

end Forgets

/-- In sound states an implementation answers by the rule, keeps the new time of a call it allows, and forgets
only times that are not after the call. -/
structure Forgetful [DecidableEq κ] (Sound : σ → Prop) (rule : Rule ω) (key : α → κ) (now : α → ℕ)
    (get : σ → κ → Option ℕ) (step : σ → α → σ × Except ω Unit) : Prop where
  sound : ∀ s c, Sound s → Sound (step s c).1
  allowed : ∀ s c next, Sound s → rule (effective (get s (key c)) (now c)) (now c) = .ok next →
    (step s c).2 = .ok () ∧
      Forgets (now c) (Function.update (get s) (key c) (some next)) (get (step s c).1)
  refused : ∀ s c wait, Sound s → rule (effective (get s (key c)) (now c)) (now c) = .error wait →
    (step s c).2 = .error wait ∧ Forgets (now c) (get s) (get (step s c).1)

section Forgetful

variable [DecidableEq κ] {Sound : σ → Prop} {rule : Rule ω} {key : α → κ} {now : α → ℕ}
  {get : σ → κ → Option ℕ} {step : σ → α → σ × Except ω Unit}

/-- One call of both limiters. -/
lemma Forgetful.step_eq (h : Forgetful Sound rule key now get step) {s : σ} (hs : Sound s)
    {times : κ → Option ℕ} {t : ℕ} (same : Forgets t times (get s)) (c : α) (le : t ≤ now c) :
    (step s c).2 = (serve rule key now times c).2 ∧
      Forgets (now c) (serve rule key now times c).1 (get (step s c).1) := by
  have heffective := same.effective_eq le (key c)
  cases hrule : rule (effective (get s (key c)) (now c)) (now c) with
  | ok next =>
    obtain ⟨hanswer, hforgets⟩ := h.allowed s c next hs hrule
    rw [heffective] at hrule
    have hserve : serve rule key now times c =
        (Function.update times (key c) (some next), .ok ()) := by simp [serve, hrule]
    rw [hserve, hanswer]
    exact ⟨rfl, ((same.mono le).update _ _).trans hforgets⟩
  | error wait =>
    obtain ⟨hanswer, hforgets⟩ := h.refused s c wait hs hrule
    rw [heffective] at hrule
    have hserve : serve rule key now times c = (times, .error wait) := by simp [serve, hrule]
    rw [hserve, hanswer]
    exact ⟨rfl, (same.mono le).trans hforgets⟩

/-- **Forgetting is safe.**  For calls at times that do not go back, the answers are those of the limiter that
never forgets. -/
theorem Forgetful.answers_eq (h : Forgetful Sound rule key now get step) (calls : List α) {s : σ}
    (hs : Sound s) {times : κ → Option ℕ} {t : ℕ} (same : Forgets t times (get s))
    (sorted : calls.Pairwise fun c d => now c ≤ now d) (later : ∀ c ∈ calls, t ≤ now c) :
    answers step s calls = answers (serve rule key now) times calls := by
  induction calls generalizing s times t with
  | nil => rfl
  | cons c calls ih =>
    obtain ⟨hhead, hrest⟩ := List.pairwise_cons.mp sorted
    obtain ⟨hanswer, hforgets⟩ := h.step_eq hs same c (later c (List.mem_cons_self ..))
    rw [answers, answers, hanswer, ih (h.sound s c hs) hforgets hrest hhead]

end Forgetful

/-! ## The algorithm -/

/-- Add one interval, and allow what stays within the tolerance. -/
def gcra (interval tolerance : ℕ) : Rule ℕ := fun spent now =>
  if tolerance < spent + interval - now then .error (spent + interval - tolerance - now)
  else .ok (spent + interval)

/-- How many calls of key `k` in the window from `a` to `a + W` were allowed. -/
def allowedIn [DecidableEq κ] (key : α → κ) (now : α → ℕ) (k : κ) (a W : ℕ) (calls : List α)
    (answers : List (Except ω Unit)) : ℕ :=
  (calls.zip answers).countP fun p =>
    decide (key p.1 = k ∧ a ≤ now p.1 ∧ now p.1 ≤ a + W ∧ Allowed p.2)

section Gcra

variable [DecidableEq κ] {key : α → κ} {now : α → ℕ} {interval tolerance burst : ℕ}
variable {times : κ → Option ℕ}

variable (key now interval tolerance) in
/-- The two things a call can do. -/
lemma serve_cases (times : κ → Option ℕ) (c : α) :
    ((serve (gcra interval tolerance) key now times c).1 =
      Function.update times (key c) (some (effective (times (key c)) (now c) + interval)) ∧
      (serve (gcra interval tolerance) key now times c).2 = .ok () ∧
      effective (times (key c)) (now c) + interval ≤ now c + tolerance) ∨
    (∃ wait, (serve (gcra interval tolerance) key now times c).1 = times ∧
      (serve (gcra interval tolerance) key now times c).2 = .error wait ∧
      now c + tolerance < effective (times (key c)) (now c) + interval) := by
  have hle := le_effective (times (key c)) (now c)
  by_cases hover : tolerance < effective (times (key c)) (now c) + interval - now c
  · refine .inr ⟨effective (times (key c)) (now c) + interval - tolerance - now c, ?_, ?_, by omega⟩
    all_goals simp only [serve, gcra, if_pos hover]
  · refine .inl ⟨?_, ?_, by omega⟩
    all_goals simp only [serve, gcra, if_neg hover]

/-- The calls of a window allowed so far have each pushed the time of the key on by an interval. -/
def Pushed (interval burst a W n : ℕ) (entry : Option ℕ) : Prop :=
  (n = 0 ∨ ∃ v, entry = some v ∧ a + n * interval ≤ v) ∧ n ≤ burst + W / interval

lemma Pushed.allow (pos : 0 < interval) {a W n t : ℕ} {entry : Option ℕ}
    (h : Pushed interval burst a W n entry)
    (fits : effective entry t + interval ≤ t + burst * interval) (start : a ≤ t) (stop : t ≤ a + W) :
    Pushed interval burst a W (n + 1) (some (effective entry t + interval)) := by
  have hpushed : a + (n + 1) * interval ≤ effective entry t + interval := by
    obtain rfl | ⟨v, rfl, hv⟩ := h.1
    · have hle := le_effective entry t
      omega
    · have hle : v ≤ effective (some v) t := le_max_left _ _
      rw [Nat.succ_mul]
      omega
  refine ⟨.inr ⟨_, rfl, hpushed⟩, ?_⟩
  have hmul : (n + 1) * interval ≤ W + burst * interval := by omega
  calc n + 1 ≤ (W + burst * interval) / interval := (Nat.le_div_iff_mul_le pos).mpr hmul
    _ = burst + W / interval := by rw [Nat.add_mul_div_right _ _ pos, Nat.add_comm]

lemma Pushed.later {a W n t : ℕ} {entry : Option ℕ} (h : Pushed interval burst a W n entry) :
    Pushed interval burst a W n (some (effective entry t + interval)) := by
  refine ⟨h.1.imp id ?_, h.2⟩
  rintro ⟨v, rfl, hv⟩
  have hle : v ≤ effective (some v) t := le_max_left _ _
  exact ⟨_, rfl, by omega⟩

variable (key now) in
lemma allowedIn_cons (k : κ) (a W : ℕ) (c : α) (calls : List α) (r : Except ω Unit)
    (rest : List (Except ω Unit)) :
    allowedIn key now k a W (c :: calls) (r :: rest) = allowedIn key now k a W calls rest +
      if key c = k ∧ a ≤ now c ∧ now c ≤ a + W ∧ Allowed r then 1 else 0 := by
  simp [allowedIn, List.countP_cons]

/-- **Windows.**  At most `burst + W / interval` calls of a key are allowed in a window of length `W`. -/
theorem allowed_in_window (pos : 0 < interval) (k : κ) (a W : ℕ) (calls : List α)
    (times : κ → Option ℕ) :
    allowedIn key now k a W calls
      (answers (serve (gcra interval (burst * interval)) key now) times calls) ≤
        burst + W / interval := by
  -- the induction counts on from the `n` calls allowed before
  suffices h : ∀ n, Pushed interval burst a W n (times k) →
      n + allowedIn key now k a W calls
        (answers (serve (gcra interval (burst * interval)) key now) times calls) ≤
          burst + W / interval by
    simpa using h 0 ⟨.inl rfl, Nat.zero_le _⟩
  induction calls generalizing times with
  | nil =>
    intro n hn
    exact hn.2
  | cons c calls ih =>
    intro n hn
    obtain ⟨htimes, hanswer, hfits⟩ | ⟨wait, htimes, hanswer, -⟩ :=
      serve_cases key now interval (burst * interval) times c
    · rw [answers, htimes, hanswer, allowedIn_cons]
      by_cases hk : key c = k
      · subst hk
        have hnew : (Function.update times (key c)
            (some (effective (times (key c)) (now c) + interval))) (key c) =
              some (effective (times (key c)) (now c) + interval) := Function.update_self _ _ _
        by_cases hin : a ≤ now c ∧ now c ≤ a + W
        · have hcount := ih _ (n + 1) (hnew ▸ hn.allow pos hfits hin.1 hin.2)
          simp only [hin, Allowed, and_self, if_true]
          omega
        · have hcount := ih _ n (hnew ▸ hn.later)
          have hout : ¬ (key c = key c ∧ a ≤ now c ∧ now c ≤ a + W ∧ Allowed (.ok () : Except ℕ Unit)) :=
            fun h => hin ⟨h.2.1, h.2.2.1⟩
          rw [if_neg hout]
          exact hcount
      · have hother : Function.update times (key c)
            (some (effective (times (key c)) (now c) + interval)) k = times k :=
          Function.update_of_ne (Ne.symm hk) _ _
        rw [if_neg fun h => hk h.1]
        exact ih _ n (hother ▸ hn)
    · rw [answers, htimes, hanswer, allowedIn_cons, if_neg fun h => h.2.2.2]
      exact ih times n hn

/-- A key whose time has passed is allowed `burst` calls: each pushes its time on by one interval, and `n`
intervals are within the tolerance. -/
theorem burst_allowed (k : κ) (calls : List α) {n t : ℕ} {times : κ → Option ℕ}
    (spent : ∀ v, times k = some v → v ≤ t + n * interval)
    (sorted : calls.Pairwise fun c d => now c ≤ now d) (later : ∀ c ∈ calls, t ≤ now c)
    (few : n + calls.countP (fun c => decide (key c = k)) ≤ burst) :
    ∀ p ∈ calls.zip (answers (serve (gcra interval (burst * interval)) key now) times calls),
      key p.1 = k → Allowed p.2 := by
  induction calls generalizing n t times with
  | nil => simp [answers]
  | cons c calls ih =>
    obtain ⟨hhead, hrest⟩ := List.pairwise_cons.mp sorted
    have hc : t ≤ now c := later c (List.mem_cons_self ..)
    rw [answers, List.zip_cons_cons]
    by_cases hk : key c = k
    · have hcount : (c :: calls).countP (fun c => decide (key c = k)) =
          calls.countP (fun c => decide (key c = k)) + 1 := List.countP_cons_of_pos (by simpa using hk)
      have heffective : effective (times (key c)) (now c) ≤ now c + n * interval := by
        cases hv : times (key c) with
        | none => simp [effective]
        | some v =>
          have hle := spent v (hk ▸ hv)
          simp only [effective, Option.getD_some]
          omega
      have hroom : (n + 1) * interval ≤ burst * interval := Nat.mul_le_mul_right _ (by omega)
      rw [Nat.succ_mul] at hroom
      obtain ⟨htimes, hanswer, -⟩ | ⟨wait, -, -, hover⟩ :=
        serve_cases key now interval (burst * interval) times c
      · rw [htimes, hanswer]
        rintro p (_ | hp)
        · exact fun _ => trivial
        · refine ih (n := n + 1) (t := now c) ?_ hrest hhead (by omega) p ‹_›
          intro v hv
          rw [← hk, Function.update_self] at hv
          have hnext := Option.some.inj hv
          rw [Nat.succ_mul]
          omega
      · omega
    · have hcount : (c :: calls).countP (fun c => decide (key c = k)) =
          calls.countP (fun c => decide (key c = k)) := List.countP_cons_of_neg (by simpa using hk)
      have hkept : (serve (gcra interval (burst * interval)) key now times c).1 k = times k := by
        obtain ⟨htimes, -⟩ | ⟨wait, htimes, -⟩ := serve_cases key now interval (burst * interval) times c
        · rw [htimes]
          exact Function.update_of_ne (Ne.symm hk) _ _
        · rw [htimes]
      rintro p (_ | hp)
      · exact fun hp => absurd hp hk
      · refine ih (n := n) (t := now c) ?_ hrest hhead (by omega) p ‹_›
        intro v hv
        have hle := spent v (hkept ▸ hv)
        omega

/-- The time of a key is within the tolerance of a call that was allowed. -/
theorem exists_allowed_of_spent (k : κ) (calls : List α) {times : κ → Option ℕ} {v : ℕ}
    (spent : after (serve (gcra interval tolerance) key now) times calls k = some v) :
    times k = some v ∨ ∃ p ∈ calls.zip (answers (serve (gcra interval tolerance) key now) times calls),
      key p.1 = k ∧ Allowed p.2 ∧ v ≤ now p.1 + tolerance := by
  induction calls generalizing times with
  | nil => exact .inl spent
  | cons c calls ih =>
    rw [answers, List.zip_cons_cons]
    obtain hv | ⟨p, hp, hkey, hallowed, hle⟩ := ih spent
    · obtain ⟨htimes, hanswer, hfits⟩ | ⟨wait, htimes, -, -⟩ :=
        serve_cases key now interval tolerance times c
      · rw [htimes] at hv
        by_cases hk : key c = k
        · subst hk
          refine .inr ⟨_, List.mem_cons_self .., rfl, ?_, ?_⟩
          · rw [hanswer]
            trivial
          · rw [Function.update_self] at hv
            exact (Option.some.inj hv).symm.trans_le hfits
        · rw [Function.update_of_ne (Ne.symm hk)] at hv
          exact .inl hv
      · rw [htimes] at hv
        exact .inl hv
    · exact .inr ⟨p, List.mem_cons_of_mem _ hp, hkey, hallowed, hle⟩

/-- A rule that agrees with the algorithm on times within the tolerance of `now` gives the same answers. -/
theorem answers_eq_of_rule {rule : Rule ℕ} (calls : List α) {times : κ → Option ℕ} {t : ℕ}
    (near : ∀ k v, times k = some v → v ≤ t + tolerance)
    (sorted : calls.Pairwise fun c d => now c ≤ now d) (later : ∀ c ∈ calls, t ≤ now c)
    (agree : ∀ c ∈ calls, ∀ spent, now c ≤ spent → spent ≤ now c + tolerance →
      rule spent (now c) = gcra interval tolerance spent (now c)) :
    answers (serve rule key now) times calls =
      answers (serve (gcra interval tolerance) key now) times calls := by
  induction calls generalizing times t with
  | nil => rfl
  | cons c calls ih =>
    obtain ⟨hhead, hrest⟩ := List.pairwise_cons.mp sorted
    have hc : t ≤ now c := later c (List.mem_cons_self ..)
    have heffective : effective (times (key c)) (now c) ≤ now c + tolerance := by
      cases hv : times (key c) with
      | none => simp [effective]
      | some v =>
        have hle := near _ v hv
        simp only [effective, Option.getD_some]
        omega
    have hserve : serve rule key now times c = serve (gcra interval tolerance) key now times c := by
      have hrule := agree c (List.mem_cons_self ..) _ (le_effective _ _) heffective
      simp only [serve, hrule]
    rw [answers, answers, hserve]
    refine congrArg _ (ih (t := now c) ?_ hrest hhead fun d hd => agree d (List.mem_cons_of_mem _ hd))
    intro k v hv
    obtain ⟨htimes, -, hfits⟩ | ⟨wait, htimes, -, -⟩ := serve_cases key now interval tolerance times c
    · rw [htimes] at hv
      by_cases hk : k = key c
      · rw [hk, Function.update_self] at hv
        exact (Option.some.inj hv).symm.trans_le hfits
      · rw [Function.update_of_ne hk] at hv
        have hle := near k v hv
        omega
    · rw [htimes] at hv
      have hle := near k v hv
      omega

variable (interval tolerance) in
/-- The rule in another unit of time, counted from another moment. -/
lemma gcra_rescale {m start spent t : ℕ} (pos : 0 < m) (le : start ≤ t) (near : t ≤ spent) :
    gcra (m * interval) (m * tolerance) (m * (spent - start)) (m * (t - start)) =
      ((gcra interval tolerance spent t).map fun next => m * (next - start)).mapError fun wait => m * wait := by
  have hahead : m * (spent - start) + m * interval - m * (t - start) = m * (spent + interval - t) := by
    rw [← Nat.mul_add, ← Nat.mul_sub]
    congr 1
    omega
  simp only [gcra, hahead, Nat.mul_lt_mul_left pos]
  by_cases hover : tolerance < spent + interval - t
  · have hwait : m * (spent - start) + m * interval - m * tolerance - m * (t - start) =
        m * (spent + interval - tolerance - t) := by
      rw [← Nat.mul_add, ← Nat.mul_sub, ← Nat.mul_sub]
      congr 1
      omega
    rw [if_pos hover, if_pos hover, hwait]
    rfl
  · have hnext : m * (spent - start) + m * interval = m * (spent + interval - start) := by
      rw [← Nat.mul_add]
      congr 1
      omega
    rw [if_neg hover, if_neg hover, hnext]
    rfl

lemma effective_rescale {m start t : ℕ} (entry : Option ℕ) (late : ∀ v, entry = some v → start ≤ v)
    (le : start ≤ t) :
    effective (entry.map fun v => m * (v - start)) (m * (t - start)) = m * (effective entry t - start) := by
  cases hv : entry with
  | none => simp [effective]
  | some v =>
    have hstart := late v hv
    have hmax : max (v - start) (t - start) = max v t - start := by omega
    simp only [effective, Option.map_some, Option.getD_some, Nat.mul_max_mul_left, hmax]

/-- **The unit of time does not matter**, nor the moment it counts from. -/
theorem answers_rescale {m start : ℕ} (pos : 0 < m) (calls : List α) {times : κ → Option ℕ}
    (late : ∀ k v, times k = some v → start ≤ v) (later : ∀ c ∈ calls, start ≤ now c) :
    answers (serve (gcra (m * interval) (m * tolerance)) key fun c => m * (now c - start))
        (fun k => (times k).map fun v => m * (v - start)) calls =
      (answers (serve (gcra interval tolerance) key now) times calls).map
        (Except.mapError fun wait => m * wait) := by
  induction calls generalizing times with
  | nil => rfl
  | cons c calls ih =>
    have hc : start ≤ now c := later c (List.mem_cons_self ..)
    have hrest : ∀ d ∈ calls, start ≤ now d := fun d hd => later d (List.mem_cons_of_mem _ hd)
    have hle : now c ≤ effective (times (key c)) (now c) := le_effective _ _
    have hrule := gcra_rescale interval tolerance pos hc hle
    rw [← effective_rescale _ (late (key c)) hc] at hrule
    rw [answers, answers, List.map_cons]
    cases hgcra : gcra interval tolerance (effective (times (key c)) (now c)) (now c) with
    | ok next =>
      have hnext : start ≤ next := by
        simp only [gcra] at hgcra
        split at hgcra
        · exact nomatch hgcra
        · obtain rfl := Except.ok.inj hgcra
          omega
      rw [hgcra] at hrule
      have hlate : ∀ k v, Function.update times (key c) (some next) k = some v → start ≤ v := by
        intro k v hv
        by_cases hk : k = key c
        · rw [hk, Function.update_self] at hv
          exact hnext.trans_eq (Option.some.inj hv)
        · rw [Function.update_of_ne hk] at hv
          exact late k v hv
      have hupdate : Function.update (fun k => (times k).map fun v => m * (v - start)) (key c)
          (some (m * (next - start))) =
            fun k => (Function.update times (key c) (some next) k).map fun v => m * (v - start) := by
        funext k
        by_cases hk : k = key c
        · rw [hk, Function.update_self, Function.update_self, Option.map_some]
        · rw [Function.update_of_ne hk, Function.update_of_ne hk]
      have hscaled := ih hlate hrest
      rw [← hupdate] at hscaled
      simp only [serve, hrule, hgcra, Except.map, Except.mapError]
      rw [hscaled]
    | error wait =>
      rw [hgcra] at hrule
      simp only [serve, hrule, hgcra, Except.map, Except.mapError]
      rw [ih late hrest]

end Gcra

/-! ## Waiting -/

/-- `new` is `old`, unless forgotten when it was not after `now`. -/
def Kept (now : ℕ) (old new : Option ℕ) : Prop := new = old ∨ new = none ∧ ∀ v, old = some v → v ≤ now

lemma Kept.refl (t : ℕ) (entry : Option ℕ) : Kept t entry entry := .inl rfl

lemma Kept.trans {t u : ℕ} {a b c : Option ℕ} (hab : Kept t a b) (hbc : Kept u b c) (le : t ≤ u) : Kept u a c := by
  obtain rfl | ⟨rfl, hpast⟩ := hab
  · exact hbc
  · have hnone : c = none := by
      obtain rfl | ⟨rfl, -⟩ := hbc <;> rfl
    exact .inr ⟨hnone, fun v hv => (hpast v hv).trans le⟩

/-- A rule whose waits are exact, for the times it is used with: it allows a key whose time has passed, and once
it has refused a time it counts down. -/
structure HonestRule (rule : Rule ℕ) (Time Now : ℕ → Prop) : Prop where
  fresh : ∀ t, Now t → ∃ next, rule t t = .ok next
  early : ∀ v t u wait, Time v → Now t → Now u → t ≤ u → rule (max v t) t = .error wait → u < t + wait →
    u < v ∧ rule (max v u) u = .error (t + wait - u)
  late : ∀ v t u wait, Time v → Now t → Now u → rule (max v t) t = .error wait → t + wait ≤ u →
    ∃ next, rule (max v u) u = .ok next

/-- For calls that are `Good`, an implementation answers by the rule, and unless it allows a call of a key it
forgets of the key only a time that is not after the call. -/
structure AnswersBy (Good : α → Prop) (Sound : σ → Prop) (rule : Rule ℕ) (key : α → κ) (now : α → ℕ)
    (get : σ → κ → Option ℕ) (step : σ → α → σ × Except ℕ Unit) : Prop where
  sound : ∀ s c, Sound s → Good c → Sound (step s c).1
  answer : ∀ s c, Sound s → Good c →
    (step s c).2 = (rule (effective (get s (key c)) (now c)) (now c)).map fun _ => ()
  kept : ∀ s c k, Sound s → Good c → (key c = k → ¬ Allowed (step s c).2) →
    Kept (now c) (get s k) (get (step s c).1 k)

lemma Forgetful.answersBy [DecidableEq κ] {Sound : σ → Prop} {rule : Rule ℕ} {key : α → κ} {now : α → ℕ}
    {get : σ → κ → Option ℕ} {step : σ → α → σ × Except ℕ Unit}
    (h : Forgetful Sound rule key now get step) :
    AnswersBy (fun _ => True) Sound rule key now get step where
  sound s c hs _ := h.sound s c hs
  answer s c hs _ := by
    cases hrule : rule (effective (get s (key c)) (now c)) (now c) with
    | ok next =>
      rw [(h.allowed s c next hs hrule).1]
      rfl
    | error wait =>
      rw [(h.refused s c wait hs hrule).1]
      rfl
  kept s c k hs _ := by
    intro idle
    cases hrule : rule (effective (get s (key c)) (now c)) (now c) with
    | ok next =>
      obtain ⟨hanswer, hforgets⟩ := h.allowed s c next hs hrule
      have hk : k ≠ key c := by
        intro hk
        rw [hanswer] at idle
        exact idle hk.symm trivial
      have hkept := hforgets k
      rwa [Function.update_of_ne hk] at hkept
    | error wait => exact (h.refused s c wait hs hrule).2 k

section Waiting

variable (key : α → κ) (now : α → ℕ) (step : σ → α → σ × Except ℕ Unit)

/-- Calls up to `t`, none of which is allowed of key `k`. -/
def Idle (s : σ) (k : κ) (t : ℕ) (between : List α) : Prop :=
  ∀ p ∈ between.zip (answers step s between), now p.1 ≤ t ∧ (key p.1 = k → ¬ Allowed p.2)

/-- After a call that was refused with `wait`: while the key is idle, its next call is allowed from the end of the
wait on, and before is refused with what is left of it. -/
def WaitExact (Good : α → Prop) (s : σ) (c : α) (wait : ℕ) : Prop :=
  ∀ between c', (∀ d ∈ between, Good d) → Good c' → key c' = key c → now c ≤ now c' →
    Idle key now step (step s c).1 (key c) (now c') between →
      (step (after step (step s c).1 between) c').2 =
        if now c + wait ≤ now c' then .ok () else .error (now c + wait - now c')

variable {key now step} {Good : α → Prop} {Sound : σ → Prop} {rule : Rule ℕ} {get : σ → κ → Option ℕ}

/-- Over a list of calls. -/
lemma AnswersBy.kept_after (h : AnswersBy Good Sound rule key now get step) {k : κ} {t : ℕ} (between : List α)
    {s : σ} (hs : Sound s) (good : ∀ d ∈ between, Good d) (idle : Idle key now step s k t between) :
    Sound (after step s between) ∧ Kept t (get s k) (get (after step s between) k) := by
  induction between generalizing s with
  | nil => exact ⟨hs, .refl _ _⟩
  | cons d between ih =>
    have hd : Good d := good d (List.mem_cons_self ..)
    rw [Idle, answers, List.zip_cons_cons, List.forall_mem_cons] at idle
    obtain ⟨⟨htime, hrefused⟩, hrest⟩ := idle
    have hkept := h.kept s d k hs hd hrefused
    obtain ⟨hsound, hafter⟩ := ih (h.sound s d hs hd) (fun e he => good e (List.mem_cons_of_mem _ he)) hrest
    refine ⟨hsound, ?_⟩
    have hlater : Kept t (get s k) (get (step s d).1 k) := by
      obtain hsame | ⟨hnone, hpast⟩ := hkept
      · exact .inl hsame
      · exact .inr ⟨hnone, fun v hv => (hpast v hv).trans htime⟩
    exact hlater.trans hafter le_rfl

/-- **Waits are exact**, of whatever answers by a rule whose waits are. -/
theorem AnswersBy.waitExact (h : AnswersBy Good Sound rule key now get step) {Time Now : ℕ → Prop}
    (honest : HonestRule rule Time Now) (clock : ∀ c, Good c → Now (now c)) {s : σ} (hs : Sound s)
    {c : α} (hc : Good c) (time : ∀ v, get s (key c) = some v → Time v) {wait : ℕ}
    (refused : (step s c).2 = .error wait) : WaitExact key now step Good s c wait := by
  intro between c' good hc' hkey hle idle
  have hanswer := h.answer s c hs hc
  have hidle : key c = key c → ¬ Allowed (step s c).2 := by
    rw [refused]
    exact fun _ => id
  have hkept := h.kept s c (key c) hs hc hidle
  obtain ⟨hsound, hafter⟩ := h.kept_after between (h.sound s c hs hc) good idle
  have hstill : Kept (now c') (get s (key c)) (get (after step (step s c).1 between) (key c)) :=
    hkept.trans hafter hle
  rw [h.answer _ c' hsound hc', hkey]
  cases hentry : get s (key c) with
  | none =>
    -- a key without a time is not refused
    obtain ⟨next, hnext⟩ := honest.fresh (now c) (clock c hc)
    have heffective : effective none (now c) = now c := max_self _
    rw [refused, hentry, heffective, hnext] at hanswer
    exact nomatch hanswer
  | some v =>
    have hrule : rule (max v (now c)) (now c) = .error wait := by
      rw [refused, hentry] at hanswer
      cases hr : rule (effective (some v) (now c)) (now c) with
      | ok next =>
        rw [hr] at hanswer
        exact nomatch hanswer
      | error wait' =>
        rw [hr] at hanswer
        obtain rfl := Except.error.inj hanswer
        exact hr
    have hv : Time v := time v hentry
    rw [hentry] at hstill
    obtain hsame | ⟨hnone, hpast⟩ := hstill
    · rw [hsame]
      change (rule (max v (now c')) (now c')).map _ = _
      by_cases hover : now c + wait ≤ now c'
      · obtain ⟨next, hnext⟩ := honest.late v _ _ wait hv (clock c hc) (clock c' hc') hrule hover
        rw [hnext, if_pos hover]
        rfl
      · obtain ⟨-, hearly⟩ := honest.early v _ _ wait hv (clock c hc) (clock c' hc') hle hrule (by omega)
        rw [hearly, if_neg hover]
        rfl
    · -- the time was forgotten, so it has passed, and the wait with it
      have hover : now c + wait ≤ now c' := by
        by_contra hover
        obtain ⟨hlt, -⟩ := honest.early v _ _ wait hv (clock c hc) (clock c' hc') hle hrule (by omega)
        have hle' := hpast v rfl
        omega
      obtain ⟨next, hnext⟩ := honest.fresh (now c') (clock c' hc')
      have heffective : effective none (now c') = now c' := max_self _
      rw [hnone, heffective, hnext, if_pos hover]
      rfl

end Waiting

end CellRate
