import Oxbrook.Mcp.Registry

/-!
# In whose hands things are

What was opened for a session is with the session, or in the hands of a request that will store it or close it; and a
session that has left the registry and is closed keeps nothing.  That is so as long as the steps are `Guarded`: a
session is still in the registry, and still as the request found it, when something is opened for it.

Each group of facts has a `move`, which says what a step of one request must do to keep it, and a `keep` for the steps
that do not concern it.
-/

namespace Oxbrook

open StepMachine

variable {ι υ : Type} {idle limit : ℕ}

namespace RequestPc

/-- The sessions that a request has in hand. -/
def sessions : RequestPc υ → List ℕ
  | .idle | .creating => []
  | .sweeping todo dead => todo ++ dead
  | .judging x _ _ | .fetched x _ | .absent x _ | .subscribed x _ _ | .stored x _ | .popped x _ _ | .opening x _
  | .streaming x _ => [x]
  | .closing x _ rest _ => x :: rest

/-- The sessions that it took from the registry and has not closed yet. -/
def closings : RequestPc υ → List ℕ
  | .closing x _ rest _ => x :: rest
  | _ => []

/-- The request found the session expired, and will take it from the registry. -/
def Judged : RequestPc υ → ℕ → Prop
  | .judging y _ expired, x => expired = true ∧ y = x
  | .sweeping _ dead, x => x ∈ dead
  | _, _ => False

/-- The request holds the subscription of a feed that is not, or no longer, with its session. -/
def HasFeed : RequestPc υ → ℕ → υ → ℕ → Prop
  | .subscribed x' uri' k', x, uri, k => x' = x ∧ uri' = uri ∧ k' = k
  | .popped x' uri' k', x, uri, k => x' = x ∧ uri' = uri ∧ k' = k
  | .closing x' (.copied _ feeds) _ _, x, _, k => x' = x ∧ k ∈ feeds
  | .closing x' (.closing _ feeds) _ _, x, _, k => x' = x ∧ k ∈ feeds
  | _, _, _, _ => False

/-- The request holds a subscription that it opened, and has not begun to pump. -/
def Owns : RequestPc υ → ℕ → ℕ → Prop
  | .subscribed x' _ k', x, k => x' = x ∧ k' = k
  | .stored x' k', x, k => x' = x ∧ k' = k
  | _, _, _ => False

/-- The request holds a channel that it will close. -/
def HasChannel : RequestPc υ → ℕ → ℕ → Prop
  | .closing x' (.copied channel _) _ _, x, c => x' = x ∧ channel = some c
  | .closing x' (.closing channel _) _ _, x, c => x' = x ∧ channel = some c
  | _, _, _ => False

/-- The request has the channel that its stream is on, or will be on. -/
def OnChannel : RequestPc υ → ℕ → ℕ → Prop
  | .opening x' c', x, c => x' = x ∧ c' = c
  | .streaming x' c', x, c => x' = x ∧ c' = c
  | _, _, _ => False

/-- Between `topic.subscribe()` and its store, or between the pop of a feed and its close. -/
def InHand : RequestPc υ → ℕ → υ → Prop
  | .subscribed x' uri' _, x, uri => x' = x ∧ uri' = uri
  | .popped x' uri' _, x, uri => x' = x ∧ uri' = uri
  | _, _, _ => False

/-- The request has nothing in hand that was opened for a session, no session to close, and no stream. -/
structure HoldsNothing (pc : RequestPc υ) : Prop where
  closings : pc.closings = []
  owns : ∀ x k, ¬ pc.Owns x k
  hasFeed : ∀ x uri k, ¬ pc.HasFeed x uri k
  hasChannel : ∀ x c, ¬ pc.HasChannel x c
  streaming : ∀ x c, pc ≠ .streaming x c

/-- The request is at an operation that leaves nothing of a session in its hands. -/
def Outside : RequestPc υ → Prop
  | .idle | .sweeping _ _ | .creating | .judging _ _ _ | .fetched _ _ | .absent _ _ | .opening _ _ => True
  | _ => False

lemma Outside.holdsNothing {pc : RequestPc υ} (h : pc.Outside) : pc.HoldsNothing := by
  cases pc with
  | idle | sweeping | creating | judging | fetched | absent | opening =>
    exact ⟨rfl, nofun, nofun, nofun, nofun⟩
  | subscribed | stored | popped | streaming | closing => exact h.elim

end RequestPc

namespace RegistryState

/-! ## What is open, and who opens it -/

/-- The subscription `k`, opened for the session and the uri, is open. -/
def IsOpen (s : RegistryState ι υ) (k x : ℕ) (uri : υ) : Prop := s.subs[k]? = some (x, uri) ∧ k ∉ s.closed

/-- The channel `c`, made for the session, is open. -/
def ChannelOpen (s : RegistryState ι υ) (c x : ℕ) : Prop := s.channels[c]? = some x ∧ c ∉ s.ended

/-- The session has an open GET stream. -/
def Streaming (s : RegistryState ι υ) (x : ℕ) : Prop := ∃ i c, s.ops i = .streaming x c ∧ i ∈ s.attached c

/-- The step of a request does not go wrong: what it opens is for a session that is still in the registry.  A
subscription is opened where there is none, in the session or in another hand, and a stream on a session that no expiry
has settled upon. -/
def GuardedAt [DecidableEq υ] (s : RegistryState ι υ) : RequestPc υ → Prop
  | .fetched x .stream => s.channel x = none → x ∈ s.live
  | .absent x uri => x ∈ s.live ∧ (s.feeds x).get uri = none ∧ ∀ j, ¬ (s.ops j).InHand x uri
  | .subscribed x _ _ => x ∈ s.live
  | .opening x _ => ∀ j, ¬ (s.ops j).Judged x
  | _ => True

def Guarded [DecidableEq υ] (s : RegistryState ι υ) : RegistryAction ι υ → Prop
  | .step i => s.GuardedAt (s.ops i)
  | _ => True

/-! ## The beginning of a close -/

lemma closeNext_sessions (creates : Bool) (dead : List ℕ) :
    (closeNext creates dead : RequestPc υ).sessions = dead := by
  cases dead with
  | nil => cases creates <;> rfl
  | cons x rest => rfl

lemma closeNext_closings (creates : Bool) (dead : List ℕ) :
    (closeNext creates dead : RequestPc υ).closings = dead := by
  cases dead with
  | nil => cases creates <;> rfl
  | cons x rest => rfl

/-- A request at the beginning of a close, or past the last one, has nothing in hand but sessions. -/
lemma closeNext_cases (creates : Bool) (dead : List ℕ) :
    (closeNext creates dead : RequestPc υ) = .idle ∨ (closeNext creates dead : RequestPc υ) = .creating ∨
      ∃ x rest, (closeNext creates dead : RequestPc υ) = .closing x .entering rest creates := by
  cases dead with
  | nil =>
    cases creates
    · exact .inl rfl
    · exact .inr (.inl rfl)
  | cons x rest => exact .inr (.inr ⟨x, rest, rfl⟩)

lemma closeNext_not_owns (creates : Bool) (dead : List ℕ) (x k : ℕ) :
    ¬ (closeNext creates dead : RequestPc υ).Owns x k := by
  obtain h | h | ⟨_, _, h⟩ := closeNext_cases (υ := υ) creates dead <;> rw [h] <;> exact id

lemma closeNext_not_onChannel (creates : Bool) (dead : List ℕ) (x c : ℕ) :
    ¬ (closeNext creates dead : RequestPc υ).OnChannel x c := by
  obtain h | h | ⟨_, _, h⟩ := closeNext_cases (υ := υ) creates dead <;> rw [h] <;> exact id

lemma closeNext_not_judged (creates : Bool) (dead : List ℕ) (x : ℕ) :
    ¬ (closeNext creates dead : RequestPc υ).Judged x := by
  obtain h | h | ⟨_, _, h⟩ := closeNext_cases (υ := υ) creates dead <;> rw [h] <;> exact id

lemma closeNext_ne_streaming (creates : Bool) (dead : List ℕ) (x c : ℕ) :
    (closeNext creates dead : RequestPc υ) ≠ .streaming x c := by
  intro h
  exact closeNext_not_onChannel (υ := υ) creates dead x c (by rw [h]; exact ⟨rfl, rfl⟩)

/-! ## The registry -/

/-- Sessions in the registry and in hand were made, and those that are being closed are off the registry. -/
structure Listed (s : RegistryState ι υ) : Prop where
  known : ∀ x ∈ s.live, x < s.made
  sessions : ∀ i, ∀ x ∈ (s.ops i).sessions, x < s.made
  closings : ∀ i, ∀ x ∈ (s.ops i).closings, x ∉ s.live

lemma closings_subset_sessions (pc : RequestPc υ) : pc.closings ⊆ pc.sessions := by
  cases pc with
  | closing => exact List.Subset.refl _
  | _ => exact List.nil_subset _

lemma mem_sessions_of_onChannel {pc : RequestPc υ} {x c : ℕ} (h : pc.OnChannel x c) : x ∈ pc.sessions := by
  cases pc with
  | opening y d => exact h.1 ▸ List.mem_singleton_self _
  | streaming y d => exact h.1 ▸ List.mem_singleton_self _
  | _ => exact h.elim

lemma mem_sessions_of_judged {pc : RequestPc υ} {x : ℕ} (h : pc.Judged x) : x ∈ pc.sessions := by
  cases pc with
  | judging y errand expired => exact h.2 ▸ List.mem_singleton_self _
  | sweeping todo dead => exact List.mem_append_right _ h
  | _ => exact h.elim

lemma mem_sessions_of_hasFeed {pc : RequestPc υ} {x k : ℕ} {uri : υ} (h : pc.HasFeed x uri k) : x ∈ pc.sessions := by
  cases pc with
  | subscribed y u k' => exact h.1 ▸ List.mem_singleton_self _
  | popped y u k' => exact h.1 ▸ List.mem_singleton_self _
  | closing y at' rest creates =>
    cases at' with
    | entering => exact h.elim
    | copied channel feeds => exact h.1 ▸ List.mem_cons_self
    | closing channel feeds => exact h.1 ▸ List.mem_cons_self
  | _ => exact h.elim

lemma mem_sessions_of_hasChannel {pc : RequestPc υ} {x c : ℕ} (h : pc.HasChannel x c) : x ∈ pc.sessions := by
  cases pc with
  | closing y at' rest creates =>
    cases at' with
    | entering => exact h.elim
    | copied channel feeds => exact h.1 ▸ List.mem_cons_self
    | closing channel feeds => exact h.1 ▸ List.mem_cons_self
  | _ => exact h.elim

variable [DecidableEq ι]

/-- The state of one request changes. -/
lemma ops_cases {s s' : RegistryState ι υ} {i : ι} {pc : RequestPc υ} (hops : s'.ops = Function.update s.ops i pc)
    (j : ι) : (j = i ∧ s'.ops j = pc) ∨ (j ≠ i ∧ s'.ops j = s.ops j) := by
  by_cases hj : j = i
  · exact .inl ⟨hj, by rw [hops, hj, Function.update_self]⟩
  · exact .inr ⟨hj, by rw [hops, Function.update_of_ne hj]⟩

namespace Listed

variable {s s' : RegistryState ι υ} {i : ι} {pc : RequestPc υ}

/-- A request goes on with sessions that were made, and closes those that are off the registry.  Only a new session
enters the registry. -/
lemma move (h : s.Listed) (hops : s'.ops = Function.update s.ops i pc) (hmade : s.made ≤ s'.made)
    (hlive : ∀ x ∈ s'.live, x ∈ s.live ∨ s.made ≤ x ∧ x < s'.made) (hsessions : ∀ x ∈ pc.sessions, x < s.made)
    (hclosings : ∀ x ∈ pc.closings, x ∉ s'.live) : s'.Listed := by
  refine ⟨fun x hx => ?_, fun j x hx => ?_, fun j x hx => ?_⟩
  · obtain hx | ⟨-, hx⟩ := hlive x hx
    · exact (h.known x hx).trans_le hmade
    · exact hx
  · obtain ⟨-, hj⟩ | ⟨-, hj⟩ := ops_cases hops j
    · exact (hsessions x (hj ▸ hx)).trans_le hmade
    · exact (h.sessions j x (hj ▸ hx)).trans_le hmade
  · obtain ⟨-, hj⟩ | ⟨-, hj⟩ := ops_cases hops j
    · exact hclosings x (hj ▸ hx)
    · intro hx'
      rw [hj] at hx
      obtain hx' | ⟨hge, -⟩ := hlive x hx'
      · exact h.closings j x hx hx'
      · exact absurd (h.sessions j x (closings_subset_sessions _ hx)) hge.not_gt

/-- A request goes on with sessions that it had in hand before, and none to close but those it was closing. -/
lemma keep (h : s.Listed) (hops : s'.ops = Function.update s.ops i pc) (hmade : s'.made = s.made)
    (hlive : s'.live = s.live) (hsessions : pc.sessions ⊆ (s.ops i).sessions)
    (hclosings : pc.closings ⊆ (s.ops i).closings) : s'.Listed := by
  refine h.move hops hmade.ge (fun x hx => .inl (hlive ▸ hx)) (fun x hx => h.sessions i x (hsessions hx)) ?_
  intro x hx
  rw [hlive]
  exact h.closings i x (hclosings hx)

/-- Sessions that were made leave the registry, and are closed. -/
lemma unlist (h : s.Listed) {dead : List ℕ} {creates : Bool} (hdead : ∀ x ∈ dead, x < s.made) :
    ((s.unlist dead).goto i (closeNext creates dead)).Listed := by
  refine h.move rfl (Nat.le_refl _) (fun _ hx => .inl (List.mem_of_mem_filter hx)) ?_ ?_
  · rw [closeNext_sessions]
    exact hdead
  · rw [closeNext_closings]
    intro x hx hlive
    have hlive : x ∈ s.live.filter (· ∉ dead) := hlive
    simp [hx] at hlive

lemma attend [DecidableEq υ] (h : s.Listed) {x : ℕ} {errand : Errand υ} (hpc : s.ops i = .fetched x errand) :
    (s.attend i x errand).Listed := by
  have hkeep : ∀ {t : RegistryState ι υ} {pc : RequestPc υ}, t.ops = Function.update s.ops i pc → t.made = s.made →
      t.live = s.live → pc.sessions ⊆ [x] → pc.closings = [] → t.Listed := by
    intro t pc hops hmade hlive hsessions hclosings
    refine h.keep hops hmade hlive ?_ ?_
    · rw [hpc]
      exact hsessions
    · rw [hclosings]
      exact List.nil_subset _
  cases errand with
  | follow uri =>
    rw [RegistryState.attend]
    split
    · exact hkeep rfl rfl rfl (List.nil_subset _) rfl
    · exact hkeep rfl rfl rfl (List.Subset.refl _) rfl
  | unfollow uri =>
    rw [RegistryState.attend]
    split
    · exact hkeep rfl rfl rfl (List.nil_subset _) rfl
    · exact hkeep rfl rfl rfl (List.Subset.refl _) rfl
  | stream =>
    rw [RegistryState.attend]
    split
    · exact hkeep rfl rfl rfl (List.Subset.refl _) rfl
    · exact hkeep rfl rfl rfl (List.Subset.refl _) rfl
  | other => exact hkeep rfl rfl rfl (List.nil_subset _) rfl

lemma closeStep [DecidableEq υ] (h : s.Listed) {x : ℕ} {at' : ClosePc} {rest : List ℕ} {creates : Bool}
    (hpc : s.ops i = .closing x at' rest creates) : (s.closeStep i x rest creates at').Listed := by
  have hstay : ∀ {t : RegistryState ι υ} {pc : RequestPc υ}, t.ops = Function.update s.ops i pc → t.made = s.made →
      t.live = s.live → pc.sessions ⊆ x :: rest → pc.closings ⊆ x :: rest → t.Listed := by
    intro t pc hops hmade hlive hsessions hclosings
    exact h.keep hops hmade hlive (by rw [hpc]; exact hsessions) (by rw [hpc]; exact hclosings)
  have hnext : ∀ {t : RegistryState ι υ}, t.ops = Function.update s.ops i (closeNext creates rest) →
      t.made = s.made → t.live = s.live → t.Listed := by
    intro t hops hmade hlive
    refine hstay hops hmade hlive ?_ ?_
    · rw [closeNext_sessions]
      exact List.subset_cons_self _ _
    · rw [closeNext_closings]
      exact List.subset_cons_self _ _
  cases at' with
  | entering => exact hstay rfl rfl rfl (List.Subset.refl _) (List.Subset.refl _)
  | copied channel feeds => exact hstay rfl rfl rfl (List.Subset.refl _) (List.Subset.refl _)
  | closing channel feeds =>
    cases feeds with
    | cons k feeds => exact hstay rfl rfl rfl (List.Subset.refl _) (List.Subset.refl _)
    | nil =>
      cases channel with
      | none => exact hnext rfl rfl rfl
      | some c => exact hnext rfl rfl rfl

lemma advance [DecidableEq υ] (h : s.Listed) (taken : s.advance idle limit i (s.ops i) = some s') : s'.Listed := by
  have hmine := h.sessions i
  cases hpc : s.ops i with rw [hpc] at taken hmine
  | idle => cases taken
  | sweeping todo dead =>
    cases todo with
    | nil =>
      cases taken
      exact h.unlist hmine
    | cons x todo =>
      cases taken
      refine h.keep rfl rfl rfl ?_ (List.nil_subset _)
      rw [hpc]
      intro y hy
      simp only [RequestPc.sessions, List.mem_append] at hy ⊢
      split at hy
      · simp only [List.mem_append, List.mem_singleton] at hy
        simp only [List.mem_cons]
        tauto
      · simp only [List.mem_cons]
        tauto
  | creating =>
    simp only [RegistryState.advance] at taken
    split at taken
    · cases taken
    · split at taken
      · cases taken
        exact h.keep rfl rfl rfl (List.nil_subset _) (List.nil_subset _)
      · cases taken
        refine h.move rfl (Nat.le_succ _) (fun x hx => ?_) (fun _ hx => absurd hx List.not_mem_nil)
          fun _ hx => absurd hx List.not_mem_nil
        obtain hx | hx := List.mem_append.mp hx
        · exact .inl hx
        · rw [List.mem_singleton.mp hx]
          exact .inr ⟨Nat.le_refl _, Nat.lt_succ_self _⟩
  | judging x errand verdict =>
    cases verdict with
    | true =>
      cases taken
      exact h.unlist hmine
    | false =>
      cases taken
      exact h.keep rfl rfl rfl (by rw [hpc]; exact List.Subset.refl _) (List.nil_subset _)
  | fetched x errand =>
    cases taken
    exact h.attend hpc
  | absent x uri =>
    cases taken
    exact h.keep rfl rfl rfl (by rw [hpc]; exact List.Subset.refl _) (List.nil_subset _)
  | subscribed x uri k =>
    cases taken
    exact h.keep rfl rfl rfl (by rw [hpc]; exact List.Subset.refl _) (List.nil_subset _)
  | stored x k =>
    cases taken
    exact h.keep rfl rfl rfl (List.nil_subset _) (List.nil_subset _)
  | popped x uri k =>
    cases taken
    exact h.keep rfl rfl rfl (List.nil_subset _) (List.nil_subset _)
  | opening x c =>
    cases taken
    exact h.keep rfl rfl rfl (by rw [hpc]; exact List.Subset.refl _) (List.nil_subset _)
  | streaming x c =>
    cases taken
    exact h.keep rfl rfl rfl (List.nil_subset _) (List.nil_subset _)
  | closing x at' rest creates =>
    cases taken
    exact h.closeStep hpc

end Listed

/-! ## What is closed -/

/-- The session has no channel and no feeds. -/
def Emptied (s : RegistryState ι υ) [DecidableEq υ] (x : ℕ) : Prop :=
  s.channel x = none ∧ ∀ uri, (s.feeds x).get uri = none

variable [DecidableEq υ]

/-- What `Session.close` has done so far: past the copy, the session has no feed that was not copied, and past the
assignments it has none. -/
def Staged (s : RegistryState ι υ) : RequestPc υ → Prop
  | .closing x (.copied _ feeds) _ _ => s.channel x = none ∧ ∀ uri k, (s.feeds x).get uri = some k → k ∈ feeds
  | .closing x (.closing _ _) _ _ => s.Emptied x
  | _ => True

structure Shut (s : RegistryState ι υ) : Prop where
  staged : ∀ i, s.Staged (s.ops i)
  emptied : ∀ x < s.made, x ∉ s.live → (∀ i, x ∉ (s.ops i).closings) → s.Emptied x

/-- No channel and no feed were added to the session. -/
def NothingAdded (s s' : RegistryState ι υ) (x : ℕ) : Prop :=
  (s.channel x = none → s'.channel x = none) ∧ ∀ uri k, (s'.feeds x).get uri = some k → (s.feeds x).get uri = some k

omit [DecidableEq ι] in
lemma nothingAdded_of_eq {s s' : RegistryState ι υ} (hchannel : s'.channel = s.channel) (hfeeds : s'.feeds = s.feeds)
    (x : ℕ) : s.NothingAdded s' x := by
  constructor
  · intro h
    rw [hchannel, h]
  · intro uri k h
    rw [← hfeeds, h]

omit [DecidableEq ι] in
lemma Emptied.mono {s s' : RegistryState ι υ} {x : ℕ} (h : s.Emptied x) (hadded : s.NothingAdded s' x) :
    s'.Emptied x := by
  refine ⟨hadded.1 h.1, fun uri => ?_⟩
  cases hget : (s'.feeds x).get uri with
  | none => rfl
  | some k =>
    have hold := hadded.2 uri k hget
    rw [h.2 uri] at hold
    cases hold

omit [DecidableEq ι] in
lemma Staged.mono {s s' : RegistryState ι υ} {pc : RequestPc υ} (h : s.Staged pc)
    (hadded : ∀ x ∈ pc.closings, s.NothingAdded s' x) : s'.Staged pc := by
  cases pc with
  | closing x at' rest creates =>
    have hx := hadded x List.mem_cons_self
    cases at' with
    | entering => trivial
    | copied channel feeds => exact ⟨hx.1 h.1, fun uri k hget => h.2 uri k (hx.2 uri k hget)⟩
    | closing channel feeds => exact Emptied.mono h hx
  | _ => trivial

omit [DecidableEq ι] in
lemma staged_of_closings_eq_nil {s : RegistryState ι υ} {pc : RequestPc υ} (h : pc.closings = []) : s.Staged pc := by
  cases pc with
  | closing => cases h
  | _ => trivial

omit [DecidableEq ι] in
lemma staged_closeNext (s : RegistryState ι υ) (creates : Bool) (dead : List ℕ) : s.Staged (closeNext creates dead) := by
  obtain h | h | ⟨_, _, h⟩ := closeNext_cases (υ := υ) creates dead <;> rw [h] <;> trivial

namespace Shut

variable {s s' : RegistryState ι υ} {i : ι} {pc : RequestPc υ}

/-- Nothing is added to the sessions off the registry, and those that nobody closes any more have been emptied. -/
lemma move (h : s.Shut) (l : s.Listed) (hops : s'.ops = Function.update s.ops i pc)
    (hadded : ∀ x ∉ s.live, s.NothingAdded s' x) (hstaged : s'.Staged pc)
    (hretired : ∀ x < s'.made, x ∉ s'.live → x ∉ pc.closings →
      (x < s.made ∧ x ∉ s.live ∧ x ∉ (s.ops i).closings) ∨ s'.Emptied x) : s'.Shut := by
  refine ⟨fun j => ?_, fun x hmade hlive hclosings => ?_⟩
  · obtain ⟨-, hj⟩ | ⟨-, hj⟩ := ops_cases hops j
    · rw [hj]
      exact hstaged
    · rw [hj]
      exact (h.staged j).mono fun x hx => hadded x (l.closings j x hx)
  · have hmine : x ∉ pc.closings := by
      have := hclosings i
      rwa [hops, Function.update_self] at this
    obtain ⟨hmade, hlive, hold⟩ | hemptied := hretired x hmade hlive hmine
    · refine (h.emptied x hmade hlive fun j => ?_).mono (hadded x hlive)
      obtain ⟨rfl, -⟩ | ⟨-, hj⟩ := ops_cases hops j
      · exact hold
      · rw [← hj]
        exact hclosings j
    · exact hemptied

/-- The channels and feeds are as they were, and so is the registry. -/
lemma keep (h : s.Shut) (l : s.Listed) (hops : s'.ops = Function.update s.ops i pc) (hmade : s'.made = s.made)
    (hlive : s'.live = s.live) (hadded : ∀ x ∉ s.live, s.NothingAdded s' x) (hstaged : s'.Staged pc)
    (hclosings : (s.ops i).closings ⊆ pc.closings) : s'.Shut := by
  refine h.move l hops hadded hstaged fun x hx hout hmine => .inl ⟨hmade ▸ hx, hlive ▸ hout, fun hold => ?_⟩
  exact hmine (hclosings hold)

end Shut

/-! ## The subscriptions -/

/-- Every open subscription is with its session or in a hand, and there is one for a session and a uri. -/
structure FeedsHeld (s : RegistryState ι υ) : Prop where
  held : ∀ k x uri, s.IsOpen k x uri → (s.feeds x).get uri = some k ∨ ∃ i, (s.ops i).HasFeed x uri k
  reserved : ∀ i x uri k, s.ops i = .subscribed x uri k →
    (s.feeds x).get uri = none ∧ ∀ j k', s.ops j = .subscribed x uri k' → j = i
  owned : ∀ i x k, (s.ops i).Owns x k → ∃ uri, s.subs[k]? = some (x, uri)
  pumped : ∀ x k, (x, k) ∈ s.pumps → ∃ uri, s.subs[k]? = some (x, uri)
  single : ∀ k k' x uri, s.IsOpen k x uri → s.IsOpen k' x uri → k = k'

namespace FeedsHeld

variable {s s' : RegistryState ι υ} {i : ι} {pc : RequestPc υ}

/-- A step that opens and stores nothing, and passes what it had in hand on. -/
lemma move (h : s.FeedsHeld) (hops : s'.ops = Function.update s.ops i pc) (hsubs : s'.subs = s.subs)
    (hclosed : s.closed ⊆ s'.closed) (hpumps : ∀ x k, (x, k) ∈ s'.pumps → (x, k) ∈ s.pumps ∨ (s.ops i).Owns x k)
    (hfeeds : ∀ x uri, (s.feeds x).get uri = none → (s'.feeds x).get uri = none) (howns : ∀ x k, ¬ pc.Owns x k)
    (hheld : ∀ k x uri, s'.IsOpen k x uri → (s.feeds x).get uri = some k ∨ (s.ops i).HasFeed x uri k →
      (s'.feeds x).get uri = some k ∨ pc.HasFeed x uri k) : s'.FeedsHeld := by
  have hopen : ∀ k x uri, s'.IsOpen k x uri → s.IsOpen k x uri := by
    rintro k x uri ⟨hk, hnot⟩
    rw [hsubs] at hk
    exact ⟨hk, fun hk' => hnot (hclosed hk')⟩
  have hi : s'.ops i = pc := by rw [hops, Function.update_self]
  have hnot : ∀ x uri k, pc ≠ .subscribed x uri k := by
    rintro x uri k rfl
    exact howns x k ⟨rfl, rfl⟩
  refine ⟨fun k x uri hk => ?_, fun j x uri k hj => ?_, fun j x k hj => ?_, fun x k hk => ?_, fun k k' x uri hk hk' => ?_⟩
  · have hpass : (s.feeds x).get uri = some k ∨ (s.ops i).HasFeed x uri k →
        (s'.feeds x).get uri = some k ∨ ∃ j, (s'.ops j).HasFeed x uri k := by
      intro hhad
      obtain hget | hhas := hheld k x uri hk hhad
      · exact .inl hget
      · exact .inr ⟨i, by rwa [hi]⟩
    obtain hget | ⟨j, hj⟩ := h.held k x uri (hopen k x uri hk)
    · exact hpass (.inl hget)
    · obtain ⟨rfl, -⟩ | ⟨-, hsame⟩ := ops_cases hops j
      · exact hpass (.inr hj)
      · exact .inr ⟨j, by rwa [hsame]⟩
  · obtain ⟨-, hpc⟩ | ⟨-, hsame⟩ := ops_cases hops j
    · exact absurd (hpc.symm.trans hj) (hnot x uri k)
    · obtain ⟨hnone, honly⟩ := h.reserved j x uri k (hsame.symm.trans hj)
      refine ⟨hfeeds x uri hnone, fun j' k' hj' => ?_⟩
      obtain ⟨-, hpc⟩ | ⟨-, hsame'⟩ := ops_cases hops j'
      · exact absurd (hpc.symm.trans hj') (hnot x uri k')
      · exact honly j' k' (hsame'.symm.trans hj')
  · rw [hsubs]
    obtain ⟨-, hpc⟩ | ⟨-, hsame⟩ := ops_cases hops j
    · rw [hpc] at hj
      exact absurd hj (howns x k)
    · rw [hsame] at hj
      exact h.owned j x k hj
  · rw [hsubs]
    obtain hk | hk := hpumps x k hk
    · exact h.pumped x k hk
    · exact h.owned i x k hk
  · exact h.single k k' x uri (hopen k x uri hk) (hopen k' x uri hk')

/-- A step that has nothing to do with feeds. -/
lemma keep (h : s.FeedsHeld) (hops : s'.ops = Function.update s.ops i pc) (hsubs : s'.subs = s.subs)
    (hclosed : s'.closed = s.closed) (hpumps : s'.pumps = s.pumps) (hfeeds : s'.feeds = s.feeds)
    (howns : ∀ x k, ¬ pc.Owns x k) (hhas : ∀ x uri k, (s.ops i).HasFeed x uri k → pc.HasFeed x uri k) :
    s'.FeedsHeld := by
  refine h.move hops hsubs (hclosed ▸ List.Subset.refl _) (fun x k hk => .inl (hpumps ▸ hk)) ?_ howns ?_
  · intro x uri hnone
    rwa [hfeeds]
  · rintro k x uri - (hget | hmine)
    · exact .inl (by rwa [hfeeds])
    · exact .inr (hhas x uri k hmine)

omit [DecidableEq ι] in
/-- Where a subscription is to be opened, there is none. -/
lemma none_open (h : s.FeedsHeld) (l : s.Listed) {x : ℕ} {uri : υ} (guard : s.GuardedAt (.absent x uri)) (k : ℕ) :
    ¬ s.IsOpen k x uri := by
  obtain ⟨hlive, hnone, hhands⟩ := guard
  intro hk
  obtain hget | ⟨j, hj⟩ := h.held k x uri hk
  · rw [hnone] at hget
    cases hget
  · cases hop : s.ops j with rw [hop] at hj
    | subscribed x' uri' k' => exact hhands j (by rw [hop]; exact ⟨hj.1, hj.2.1⟩)
    | popped x' uri' k' => exact hhands j (by rw [hop]; exact ⟨hj.1, hj.2.1⟩)
    | closing x' at' rest creates =>
      -- whoever closes a session has taken it from the registry
      have hout : x' ∉ s.live := l.closings j x' (by rw [hop]; exact List.mem_cons_self)
      cases at' with
      | entering => exact hj
      | copied channel feeds => exact hout (hj.1 ▸ hlive)
      | closing channel feeds => exact hout (hj.1 ▸ hlive)
    | _ => exact hj

/-- `topic.subscribe()`. -/
lemma subscribe (h : s.FeedsHeld) (l : s.Listed) {x : ℕ} {uri : υ} (hpc : s.ops i = .absent x uri)
    (guard : s.GuardedAt (.absent x uri)) (hops : s'.ops = Function.update s.ops i (.subscribed x uri s.subs.length))
    (hsubs : s'.subs = s.subs ++ [(x, uri)]) (hclosed : s'.closed = s.closed) (hpumps : s'.pumps = s.pumps)
    (hfeeds : s'.feeds = s.feeds) : s'.FeedsHeld := by
  have hi : s'.ops i = .subscribed x uri s.subs.length := by rw [hops, Function.update_self]
  have hhands : ∀ j k, s.ops j ≠ .subscribed x uri k := by
    intro j k hj
    exact guard.2.2 j (by rw [hj]; exact ⟨rfl, rfl⟩)
  have hgrown : ∀ {k y : ℕ}, (∃ u, s.subs[k]? = some (y, u)) → ∃ u, s'.subs[k]? = some (y, u) := by
    rintro k y ⟨u, hk⟩
    refine ⟨u, ?_⟩
    rw [hsubs, List.getElem?_append_left (List.getElem?_eq_some_iff.mp hk).1, hk]
  have hcases : ∀ {k y u}, s'.IsOpen k y u → s.IsOpen k y u ∨ k = s.subs.length ∧ y = x ∧ u = uri := by
    rintro k y u ⟨hk, hnot⟩
    rw [hsubs, List.getElem?_append] at hk
    rw [hclosed] at hnot
    split at hk
    · exact .inl ⟨hk, hnot⟩
    · obtain ⟨hlt, heq⟩ := List.getElem?_eq_some_iff.mp hk
      simp only [List.length_singleton] at hlt
      simp only [List.getElem_singleton, Prod.mk.injEq] at heq
      exact .inr ⟨by omega, heq.1.symm, heq.2.symm⟩
  refine ⟨fun k y u hk => ?_, fun j y u k hj => ?_, fun j y k hj => ?_, fun y k hk => ?_, fun k k' y u hk hk' => ?_⟩
  · obtain hk | ⟨rfl, rfl, rfl⟩ := hcases hk
    · obtain hget | ⟨j, hj⟩ := h.held k y u hk
      · exact .inl (by rwa [hfeeds])
      · obtain ⟨rfl, -⟩ | ⟨-, hsame⟩ := ops_cases hops j
        · rw [hpc] at hj
          exact hj.elim
        · exact .inr ⟨j, by rwa [hsame]⟩
    · exact .inr ⟨i, by rw [hi]; exact ⟨rfl, rfl, rfl⟩⟩
  · rw [hfeeds]
    obtain ⟨rfl, -⟩ | ⟨-, hsame⟩ := ops_cases hops j
    · obtain ⟨rfl, rfl, rfl⟩ : x = y ∧ uri = u ∧ _ = k := by simpa using hi.symm.trans hj
      refine ⟨guard.2.1, fun j' k' hj' => ?_⟩
      obtain ⟨rfl, -⟩ | ⟨-, hsame'⟩ := ops_cases hops j'
      · rfl
      · exact absurd (hsame'.symm.trans hj') (hhands j' k')
    · have hj := hsame.symm.trans hj
      obtain ⟨hnone, honly⟩ := h.reserved j y u k hj
      refine ⟨hnone, fun j' k' hj' => ?_⟩
      obtain ⟨rfl, -⟩ | ⟨-, hsame'⟩ := ops_cases hops j'
      · obtain ⟨rfl, rfl, -⟩ : x = y ∧ uri = u ∧ _ = k' := by simpa using hi.symm.trans hj'
        exact absurd hj (hhands j k)
      · exact honly j' k' (hsame'.symm.trans hj')
  · obtain ⟨-, hmine⟩ | ⟨-, hsame⟩ := ops_cases hops j
    · rw [hmine] at hj
      obtain ⟨rfl, rfl⟩ := hj
      exact ⟨uri, by rw [hsubs, List.getElem?_concat_length]⟩
    · exact hgrown (h.owned j y k (hsame ▸ hj))
  · rw [hpumps] at hk
    exact hgrown (h.pumped y k hk)
  · obtain hk | ⟨rfl, rfl, rfl⟩ := hcases hk
    · obtain hk' | ⟨rfl, rfl, rfl⟩ := hcases hk'
      · exact h.single k k' y u hk hk'
      · exact absurd hk (h.none_open l guard k)
    · obtain hk' | ⟨rfl, -, -⟩ := hcases hk'
      · exact absurd hk' (h.none_open l guard k')
      · rfl

/-- `session.feeds[uri] = feed`. -/
lemma store (h : s.FeedsHeld) {x k : ℕ} {uri : υ} (hpc : s.ops i = .subscribed x uri k)
    (hops : s'.ops = Function.update s.ops i (.stored x k)) (hsubs : s'.subs = s.subs) (hclosed : s'.closed = s.closed)
    (hpumps : s'.pumps = s.pumps) (hfeeds : s'.feeds = Function.update s.feeds x ((s.feeds x).set uri k)) :
    s'.FeedsHeld := by
  obtain ⟨hnone, honly⟩ := h.reserved i x uri k hpc
  have hself : (s'.feeds x).get uri = some k := by rw [hfeeds, Function.update_self, OrderedDict.get_set_self]
  have hother : ∀ {y u}, ¬ (y = x ∧ u = uri) → (s'.feeds y).get u = (s.feeds y).get u := by
    intro y u hne
    rw [hfeeds]
    by_cases hy : y = x
    · subst hy
      rw [Function.update_self, OrderedDict.get_set_ne fun hu => hne ⟨rfl, hu⟩]
    · rw [Function.update_of_ne hy]
  have hopen : ∀ {k' y u}, s'.IsOpen k' y u → s.IsOpen k' y u := by
    rintro k' y u ⟨hk, hnot⟩
    exact ⟨hsubs ▸ hk, hclosed ▸ hnot⟩
  refine ⟨fun k' y u hk => ?_, fun j y u k' hj => ?_, fun j y k' hj => ?_, fun y k' hk => ?_,
    fun k' k'' y u hk hk' => h.single k' k'' y u (hopen hk) (hopen hk')⟩
  · obtain hget | ⟨j, hj⟩ := h.held k' y u (hopen hk)
    · by_cases hsame : y = x ∧ u = uri
      · rw [hsame.1, hsame.2, hnone] at hget
        cases hget
      · exact .inl (by rwa [hother hsame])
    · obtain ⟨rfl, -⟩ | ⟨-, hsame⟩ := ops_cases hops j
      · rw [hpc] at hj
        obtain ⟨rfl, rfl, rfl⟩ := hj
        exact .inl hself
      · exact .inr ⟨j, by rwa [hsame]⟩
  · have hback : ∀ {j k'}, s'.ops j = .subscribed y u k' → j ≠ i ∧ s.ops j = .subscribed y u k' := by
      intro j k' hj
      obtain ⟨-, hmine⟩ | ⟨hne, hsame⟩ := ops_cases hops j
      · cases hmine.symm.trans hj
      · exact ⟨hne, hsame.symm.trans hj⟩
    obtain ⟨hne, hj⟩ := hback hj
    obtain ⟨hnone', honly'⟩ := h.reserved j y u k' hj
    refine ⟨?_, fun j' k'' hj' => honly' j' k'' (hback hj').2⟩
    by_cases hsame : y = x ∧ u = uri
    · obtain ⟨rfl, rfl⟩ := hsame
      exact absurd (honly j k' hj) hne
    · rwa [hother hsame]
  · rw [hsubs]
    obtain ⟨-, hmine⟩ | ⟨-, hsame⟩ := ops_cases hops j
    · rw [hmine] at hj
      obtain ⟨rfl, rfl⟩ := hj
      exact h.owned i x k (by rw [hpc]; exact ⟨rfl, rfl⟩)
    · exact h.owned j y k' (hsame ▸ hj)
  · rw [hsubs]
    exact h.pumped y k' (hpumps ▸ hk)

end FeedsHeld

/-! ## The channels -/

/-- Every open channel is with its session or in a hand; the streams of a session in the registry are on its channel;
and a session that was found expired has no open stream. -/
structure ChannelsHeld (s : RegistryState ι υ) : Prop where
  held : ∀ c x, s.ChannelOpen c x → s.channel x = some c ∨ ∃ i, (s.ops i).HasChannel x c
  reached : ∀ i x c, (s.ops i).OnChannel x c → x ∈ s.live → s.channel x = some c
  judged : ∀ i x, (s.ops i).Judged x → x ∈ s.live → ¬ s.Streaming x

omit [DecidableEq ι] [DecidableEq υ] in
/-- The streams of a session in the registry keep it from being found expired. -/
lemma ChannelsHeld.not_streaming_of_expired {s : RegistryState ι υ} (h : s.ChannelsHeld) {x : ℕ} (hlive : x ∈ s.live)
    (hexpired : s.expired idle x = true) : ¬ s.Streaming x := by
  rintro ⟨i, c, hi, hattached⟩
  have hchannel := h.reached i x c (by rw [hi]; exact ⟨rfl, rfl⟩) hlive
  have hlistening : s.listening x = true := by
    have hne : s.attached c ≠ [] := List.ne_nil_of_mem hattached
    simp [listening, hchannel, hne]
  rw [expired, hlistening] at hexpired
  cases hexpired

namespace ChannelsHeld

variable {s s' : RegistryState ι υ} {i : ι} {pc : RequestPc υ}

omit [DecidableEq υ] in
/-- The streams that are open after the step of a request that opens none. -/
lemma streaming_of_streaming {x : ℕ} (h : s'.Streaming x) (hops : s'.ops = Function.update s.ops i pc)
    (hpc : ∀ x c, pc ≠ .streaming x c) (hattached : ∀ c, s'.attached c ⊆ s.attached c) : s.Streaming x := by
  obtain ⟨j, c, hj, hc⟩ := h
  obtain ⟨-, hmine⟩ | ⟨-, hsame⟩ := ops_cases hops j
  · exact absurd (hmine.symm.trans hj) (hpc x c)
  · exact ⟨j, c, hsame.symm.trans hj, hattached c hc⟩

omit [DecidableEq υ] in
/-- A step after which every channel is where it was or in the hand of the request, and which opens a stream on no
session that was found expired. -/
lemma move (h : s.ChannelsHeld) (l : s.Listed) (hops : s'.ops = Function.update s.ops i pc)
    (hlive : ∀ x ∈ s'.live, x ∈ s.live ∨ s.made ≤ x)
    (hheld : ∀ c x, s'.ChannelOpen c x → (s.ChannelOpen c x ∧
        (s.channel x = some c ∨ (s.ops i).HasChannel x c → s'.channel x = some c ∨ pc.HasChannel x c)) ∨
      s'.channel x = some c)
    (hchannel : ∀ x c, x ∈ s.live → s.channel x = some c → s'.channel x = some c)
    (hreached : ∀ x c, pc.OnChannel x c → x ∈ s'.live → s'.channel x = some c)
    (hjudged : ∀ x, pc.Judged x → x ∈ s'.live → ¬ s'.Streaming x)
    (hstreaming : ∀ j x, (s.ops j).Judged x → s'.Streaming x → s.Streaming x) : s'.ChannelsHeld := by
  have hi : s'.ops i = pc := by rw [hops, Function.update_self]
  refine ⟨fun c x hc => ?_, fun j x c hj hx => ?_, fun j x hj hx => ?_⟩
  · obtain ⟨hc, hpass⟩ | hwith := hheld c x hc
    · have hpass' : s.channel x = some c ∨ (s.ops i).HasChannel x c →
          s'.channel x = some c ∨ ∃ j, (s'.ops j).HasChannel x c := by
        intro hhad
        obtain hwith | hhas := hpass hhad
        · exact .inl hwith
        · exact .inr ⟨i, by rwa [hi]⟩
      obtain hwith | ⟨j, hj⟩ := h.held c x hc
      · exact hpass' (.inl hwith)
      · obtain ⟨rfl, -⟩ | ⟨-, hsame⟩ := ops_cases hops j
        · exact hpass' (.inr hj)
        · exact .inr ⟨j, by rwa [hsame]⟩
    · exact .inl hwith
  · obtain ⟨-, hmine⟩ | ⟨-, hsame⟩ := ops_cases hops j
    · exact hreached x c (hmine ▸ hj) hx
    · rw [hsame] at hj
      obtain hx | hge := hlive x hx
      · exact hchannel x c hx (h.reached j x c hj hx)
      · exact absurd (l.sessions j x (mem_sessions_of_onChannel hj)) hge.not_gt
  · obtain ⟨-, hmine⟩ | ⟨-, hsame⟩ := ops_cases hops j
    · exact hjudged x (hmine ▸ hj) hx
    · rw [hsame] at hj
      obtain hx | hge := hlive x hx
      · exact fun hstream => h.judged j x hj hx (hstreaming j x hj hstream)
      · exact absurd (l.sessions j x (mem_sessions_of_judged hj)) hge.not_gt

omit [DecidableEq υ] in
/-- A step that has nothing to do with channels, and ends streams at most. -/
lemma keep (h : s.ChannelsHeld) (l : s.Listed) (hops : s'.ops = Function.update s.ops i pc) (hlive : s'.live = s.live)
    (hchannels : s'.channels = s.channels) (hended : s'.ended = s.ended) (hchannel : s'.channel = s.channel)
    (hattached : ∀ c, s'.attached c ⊆ s.attached c) (hhas : ∀ x c, (s.ops i).HasChannel x c → pc.HasChannel x c)
    (hpc : ∀ x c, pc ≠ .streaming x c) (hreached : ∀ x c, pc.OnChannel x c → x ∈ s.live → s.channel x = some c)
    (hjudged : ∀ x, pc.Judged x → x ∈ s.live → ¬ s.Streaming x) : s'.ChannelsHeld := by
  have hstreaming : ∀ x, s'.Streaming x → s.Streaming x := fun x hx => streaming_of_streaming hx hops hpc hattached
  refine h.move l hops (fun x hx => .inl (hlive ▸ hx)) (fun c x hc => .inl ⟨?_, ?_⟩) ?_ ?_ ?_
    fun _ x _ hx => hstreaming x hx
  · rw [ChannelOpen, hchannels, hended] at hc
    exact hc
  · rw [hchannel]
    exact Or.imp_right (hhas x c)
  · intro x c _ hc
    rwa [hchannel]
  · intro x c hon hx
    rw [hchannel]
    exact hreached x c hon (hlive ▸ hx)
  · intro x hj hx hstream
    exact hjudged x hj (hlive ▸ hx) (hstreaming x hstream)

end ChannelsHeld

end RegistryState

end Oxbrook
