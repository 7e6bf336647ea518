import Oxbrook.Mcp.Tidy

/-!
# Sessions do not leak

`sessions_sound` says when the sessions of a process keep to their limit and leave nothing behind: in the runs all of
whose steps are `Guarded`.
-/

namespace Oxbrook

open StepMachine

variable {ι υ : Type} {idle limit : ℕ}

namespace RegistryState

/-! ## What is asked of the sessions -/

/-- No request has the session in hand, and its pumps have nothing left to do. -/
def Finished (s : RegistryState ι υ) (x : ℕ) : Prop :=
  (∀ i, x ∉ (s.ops i).sessions) ∧ ∀ k, (x, k) ∈ s.pumps → k ∉ s.closed

/-- Nothing that was opened for the session is open. -/
def Released (s : RegistryState ι υ) (x : ℕ) : Prop :=
  (∀ k uri, ¬ s.IsOpen k x uri) ∧ (∀ k, (x, k) ∉ s.pumps) ∧ ∀ c, ¬ s.ChannelOpen c x

/-- The registry keeps to its limit; a session has one open subscription for a uri; an expiry takes no session with an
open stream; and a session that is off the registry and out of every hand has nothing open. -/
structure Sound [DecidableEq ι] [DecidableEq υ] (idle limit : ℕ) (s : RegistryState ι υ) : Prop where
  within : s.live.length ≤ limit
  single : ∀ k k' x uri, s.IsOpen k x uri → s.IsOpen k' x uri → k = k'
  unexpired : ∀ i s', s.step idle limit (.step i) = some s' → ∀ x ∈ s.live, x ∉ s'.live → ¬ s.Streaming x
  released : ∀ x < s.made, x ∉ s.live → s.Finished x → s.Released x

instance (pc : RequestPc υ) (x : ℕ) : Decidable (pc.Judged x) :=
  match pc with
  | .judging y _ expired => inferInstanceAs (Decidable (expired = true ∧ y = x))
  | .sweeping _ dead => inferInstanceAs (Decidable (x ∈ dead))
  | .idle | .creating | .fetched _ _ | .absent _ _ | .subscribed _ _ _ | .stored _ _ | .popped _ _ _ | .opening _ _
  | .streaming _ _ | .closing _ _ _ _ => inferInstanceAs (Decidable False)

variable [DecidableEq υ]

instance (pc : RequestPc υ) (x : ℕ) (uri : υ) : Decidable (pc.InHand x uri) :=
  match pc with
  | .subscribed x' uri' _ | .popped x' uri' _ => inferInstanceAs (Decidable (x' = x ∧ uri' = uri))
  | .judging _ _ _ | .sweeping _ _ | .idle | .creating | .fetched _ _ | .absent _ _ | .stored _ _ | .opening _ _
  | .streaming _ _ | .closing _ _ _ _ => inferInstanceAs (Decidable False)

instance [Fintype ι] (s : RegistryState ι υ) (pc : RequestPc υ) : Decidable (s.GuardedAt pc) :=
  match pc with
  | .fetched x .stream => inferInstanceAs (Decidable (s.channel x = none → x ∈ s.live))
  | .absent x uri =>
    inferInstanceAs (Decidable (x ∈ s.live ∧ (s.feeds x).get uri = none ∧ ∀ j, ¬ (s.ops j).InHand x uri))
  | .subscribed x _ _ => inferInstanceAs (Decidable (x ∈ s.live))
  | .opening x _ => inferInstanceAs (Decidable (∀ j, ¬ (s.ops j).Judged x))
  | .judging _ _ _ | .sweeping _ _ | .idle | .creating | .fetched _ (.follow _) | .fetched _ (.unfollow _)
  | .fetched _ .other | .stored _ _ | .popped _ _ _ | .streaming _ _ | .closing _ _ _ _ =>
    inferInstanceAs (Decidable True)

instance [Fintype ι] (s : RegistryState ι υ) (a : RegistryAction ι υ) : Decidable (s.Guarded a) :=
  match a with
  | .step i => inferInstanceAs (Decidable (s.GuardedAt (s.ops i)))
  | .tick _ | .create _ | .get _ _ _ | .delete _ _ | .refuse _ | .endPump _ _ => inferInstanceAs (Decidable True)

/-! ## The registry in a run -/

variable [DecidableEq ι] {s s' : RegistryState ι υ}

lemma attend_live (s : RegistryState ι υ) (i : ι) (x : ℕ) (errand : Errand υ) :
    (s.attend i x errand).live = s.live := by
  cases errand with
  | follow uri => rfl
  | unfollow uri =>
    rw [attend]
    split <;> rfl
  | stream =>
    rw [attend]
    split <;> rfl
  | other => rfl

omit [DecidableEq υ] in
lemma closeStep_live (s : RegistryState ι υ) (i : ι) (x : ℕ) (rest : List ℕ) (creates : Bool) (at' : ClosePc) :
    (s.closeStep i x rest creates at').live = s.live := by
  cases at' with
  | entering => rfl
  | copied channel feeds => rfl
  | closing channel feeds =>
    cases feeds with
    | cons k feeds => rfl
    | nil => cases channel <;> rfl

/-- A request leaves the registry as it is, takes sessions from it that it found expired, or enters one while there is
room. -/
lemma advance_live {i : ι} (taken : s.advance idle limit i (s.ops i) = some s') :
    s'.live = s.live ∨ (∃ dead : List ℕ, (∀ x ∈ dead, (s.ops i).Judged x) ∧ s'.live = s.live.filter (· ∉ dead)) ∨
      s.live.length < limit ∧ s'.live = s.live ++ [s.made] := by
  cases hpc : s.ops i with rw [hpc] at taken
  | idle => cases taken
  | sweeping todo dead =>
    cases todo with
    | nil =>
      cases taken
      exact .inr (.inl ⟨dead, fun _ hx => hx, rfl⟩)
    | cons x todo =>
      cases taken
      exact .inl rfl
  | creating =>
    simp only [advance] at taken
    split at taken
    · cases taken
    · split at taken
      · cases taken
        exact .inl rfl
      next hroom =>
        cases taken
        exact .inr (.inr ⟨Nat.lt_of_not_le hroom, rfl⟩)
  | judging x errand verdict =>
    cases verdict with
    | true =>
      cases taken
      refine .inr (.inl ⟨[x], fun y hy => ?_, rfl⟩)
      rw [List.mem_singleton.mp hy]
      exact ⟨rfl, rfl⟩
    | false =>
      cases taken
      exact .inl rfl
  | fetched x errand =>
    cases taken
    exact .inl (attend_live s i x errand)
  | closing x at' rest creates =>
    cases taken
    exact .inl (closeStep_live s i x rest creates at')
  | absent | subscribed | stored | popped | opening | streaming =>
    cases taken
    exact .inl rfl

/-- The registry keeps to its limit, whatever the interleaving. -/
lemma within_step {a : RegistryAction ι υ} (h : s.live.length ≤ limit) (taken : s.step idle limit a = some s') :
    s'.live.length ≤ limit := by
  have hfilter : ∀ dead : List ℕ, (s.live.filter (· ∉ dead)).length ≤ limit :=
    fun dead => (List.length_filter_le _ _).trans h
  cases a with
  | tick d =>
    cases taken
    exact h
  | create i =>
    simp only [step] at taken
    split at taken
    · cases taken
      exact h
    · cases taken
  | get i x errand =>
    simp only [step] at taken
    split at taken
    · split at taken
      · cases taken
        exact h
      · cases taken
        exact h
    · cases taken
  | delete i x =>
    simp only [step] at taken
    split at taken
    · split at taken
      · cases taken
        exact hfilter [x]
      · cases taken
        exact h
    · cases taken
  | refuse i =>
    simp only [step] at taken
    split at taken
    · cases taken
      exact h
    · cases taken
  | step i =>
    obtain hlive | ⟨dead, -, hlive⟩ | ⟨hroom, hlive⟩ := advance_live taken
    · rwa [hlive]
    · rw [hlive]
      exact hfilter dead
    · rw [hlive, List.length_append]
      exact hroom
  | endPump x k =>
    obtain ⟨-, rfl⟩ := of_guard taken
    exact h

namespace Tidy

/-- The session that an expiry takes was found expired, and has no open stream. -/
lemma unexpired (h : s.Tidy) {i : ι} (taken : s.step idle limit (.step i) = some s') {x : ℕ} (hlive : x ∈ s.live)
    (hgone : x ∉ s'.live) : ¬ s.Streaming x := by
  obtain hsame | ⟨dead, hjudged, hfilter⟩ | ⟨-, happend⟩ := advance_live taken
  · rw [hsame] at hgone
    exact absurd hlive hgone
  · have hdead : x ∈ dead := by
      rw [hfilter] at hgone
      by_contra hnot
      exact hgone (List.mem_filter.mpr ⟨hlive, by simpa using hnot⟩)
    exact h.channels.judged i x (hjudged x hdead) hlive
  · rw [happend] at hgone
    exact absurd (List.mem_append_left _ hlive) hgone

omit [DecidableEq ι] in
/-- A session that is off the registry and out of every hand has nothing open. -/
lemma released (h : s.Tidy) {x : ℕ} (hmade : x < s.made) (hlive : x ∉ s.live) (hfinished : s.Finished x) :
    s.Released x := by
  obtain ⟨hhands, hpumps⟩ := hfinished
  obtain ⟨hchannel, hfeeds⟩ := h.shut.emptied x hmade hlive fun i hx => hhands i (closings_subset_sessions _ hx)
  have hclosed : ∀ k uri, ¬ s.IsOpen k x uri := by
    intro k uri hopen
    obtain hget | ⟨i, hi⟩ := h.feeds.held k x uri hopen
    · rw [hfeeds uri] at hget
      cases hget
    · exact hhands i (mem_sessions_of_hasFeed hi)
  refine ⟨hclosed, fun k hk => ?_, fun c hc => ?_⟩
  · obtain ⟨uri, hsub⟩ := h.feeds.pumped x k hk
    exact hclosed k uri ⟨hsub, hpumps k hk⟩
  · obtain hwith | ⟨i, hi⟩ := h.channels.held c x hc
    · rw [hchannel] at hwith
      cases hwith
    · exact hhands i (mem_sessions_of_hasChannel hi)

end Tidy

/-! ## What a run keeps -/

/-- **Sessions do not leak**, in a run in which whatever is opened for a session is opened while it is in the registry
and as the request found it. -/
theorem sessions_sound (run : Reaches (step idle limit) Guarded new s) : s.Sound idle limit := by
  have tidy : s.Tidy := run.invariant tidy_new fun _ _ _ h guarded taken => h.step guarded taken
  refine ⟨?_, tidy.feeds.single, fun i s' taken x hlive hgone => tidy.unexpired taken hlive hgone,
    fun x hmade hlive hfinished => tidy.released hmade hlive hfinished⟩
  exact run.invariant (Nat.zero_le _) fun _ _ _ h _ taken => within_step h taken

/-- A client that follows a topic, listens, and ends its session. -/
def fullLife : List (RegistryAction (Fin 3) Unit) :=
  [.create 0, .step 0, .step 0, .get 1 0 (.follow ()), .step 1, .step 1, .step 1, .step 1, .step 1, .get 2 0 .stream,
    .step 2, .step 2, .step 2, .delete 0 0, .step 0, .step 0, .step 0, .step 0, .step 2, .endPump 0 0]

theorem fullLife_sound :
    ∃ s : RegistryState (Fin 3) Unit, Reaches (step 300 512) Guarded new s ∧ s.live = [] ∧ s.subs = [(0, ())] ∧ s.channels = [0] ∧
      s.Sound 300 512 := by
  have run : Reaches (step 300 512) Guarded new (_ : RegistryState (Fin 3) Unit) := Reaches.of_exec fullLife rfl
  exact ⟨_, run, rfl, rfl, rfl, sessions_sound run⟩

/-- A subscribe whose permission is checked while the session is deleted: it opens a subscription for the closed
session, and nobody closes it. -/
def followAfterDelete : List (RegistryAction (Fin 3) Unit) :=
  [.create 0, .step 0, .step 0, .get 1 0 (.follow ()), .step 1, .delete 2 0, .step 2, .step 2, .step 2, .step 1, .step 1,
    .step 1, .step 1]

/-- Two subscribes on two loops that both find the uri absent. -/
def followTwice : List (RegistryAction (Fin 3) Unit) :=
  [.create 0, .step 0, .step 0, .get 1 0 (.follow ()), .step 1, .get 2 0 (.follow ()), .step 2, .step 1, .step 2, .step 1,
    .step 2]

/-- A stream that is opened between the verdict of an expiry and the deletion. -/
def streamAfterVerdict : List (RegistryAction (Fin 3) Unit) :=
  [.create 0, .step 0, .step 0, .get 1 0 .stream, .step 1, .step 1, .tick 301, .get 2 0 .other, .step 1]

/-- Only the limit holds in every run. -/
theorem sessions_leak :
    (∃ s : RegistryState (Fin 3) Unit, Reachable (step 300 512) new s ∧ (∀ i, s.ops i = .idle) ∧ s.live = [] ∧
      s.IsOpen 0 0 () ∧ (0, 0) ∈ s.pumps ∧ ¬ s.Sound 300 512) ∧
    (∃ s : RegistryState (Fin 3) Unit, Reachable (step 300 512) new s ∧ s.live = [0] ∧ s.IsOpen 0 0 () ∧
      s.IsOpen 1 0 () ∧ ¬ s.Sound 300 512) ∧
    ∃ s : RegistryState (Fin 3) Unit, Reachable (step 300 512) new s ∧ s.live = [0] ∧ s.Streaming 0 ∧
      ¬ s.Sound 300 512 := by
  have hidle : ∀ {s : RegistryState (Fin 3) Unit}, s.ops 0 = .idle → s.ops 1 = .idle → s.ops 2 = .idle →
      ∀ i, s.ops i = .idle := by
    intro s h0 h1 h2 i
    match i with
    | 0 => exact h0
    | 1 => exact h1
    | 2 => exact h2
  refine ⟨⟨_, Reachable.of_exec followAfterDelete rfl, hidle rfl rfl rfl, rfl, ⟨rfl, nofun⟩, List.mem_cons_self, ?_⟩,
    ⟨_, Reachable.of_exec followTwice rfl, rfl, ⟨rfl, nofun⟩, ⟨rfl, nofun⟩, ?_⟩,
    ⟨_, Reachable.of_exec streamAfterVerdict rfl, rfl, ⟨1, 0, rfl, List.mem_cons_self⟩, ?_⟩⟩
  · intro h
    refine (h.released 0 Nat.one_pos nofun ⟨fun i => ?_, nofun⟩).1 0 () ⟨rfl, nofun⟩
    match i with
    | 0 => exact nofun
    | 1 => exact nofun
    | 2 => exact nofun
  · intro h
    cases h.single 0 1 0 () ⟨rfl, nofun⟩ ⟨rfl, nofun⟩
  · intro h
    exact h.unexpired 2 _ rfl 0 List.mem_cons_self nofun ⟨1, 0, rfl, List.mem_cons_self⟩

end RegistryState

end Oxbrook
