import Oxbrook.Events.Delivery

/-!
# Subscriptions of a finished stream

What the pump leaves registered with the topics.  It closes a subscription that it streams, but only in the
`finally` of its loop, which a response refused by `start_stream` never enters.  A generator has no `close`, so that
it ends only by itself, or by the read that is outstanding when the pump ends: this one is cancelled, and the
generator is told of it when the loop comes to it.
-/

namespace Oxbrook

open StepMachine

variable {α ρ ε κ : Type*} {p : SsePump α ρ ε κ} {s t : SseState (SseItem α ρ) κ} {a : SseAction}

namespace SsePump

/-! ## What is registered -/

/-- A generator holds nothing before it is run and after its end. -/
structure Registered (p : SsePump α ρ ε κ) (s : SseState (SseItem α ρ) κ) : Prop where
  cancelling : s.pc ≠ .done → s.cancelling = false
  ready : s.pc = .ready → s.read = .idle
  begun : s.ended = true → s.begun = true
  released : p.kind.hasClose = false → s.begun = false ∨ s.ended = true → s.registered = []

lemma registered_new : p.Registered p.new := by
  refine ⟨fun _ => rfl, fun _ => rfl, fun h => absurd h Bool.noConfusion, ?_⟩
  intro hclose _
  simp [new, hclose]

/-- The end of the pump closes what it can. -/
lemma Registered.finish (h : p.Registered s) : p.Registered (p.finish s) := by
  refine ⟨fun hpc => absurd rfl hpc, fun hpc => absurd hpc nofun, h.begun, ?_⟩
  intro hclose hheld
  simp only [SsePump.finish, hclose]
  exact h.released hclose hheld

/-- A step of the pump that touches no subscription. -/
lemma Registered.move (h : p.Registered s) {pc : SsePc} {read : PendingRead (SseItem α ρ)}
    {sent : List (Option ByteArray)} (hpc : s.pc ≠ .done) (hready : pc ≠ .ready) :
    p.Registered { s with pc := pc, read := read, sent := sent } :=
  ⟨fun _ => h.cancelling hpc, fun hpc' => absurd hpc' hready, h.begun, h.released⟩

lemma Registered.idle (h : p.Registered s) : p.Registered { s with read := .idle } :=
  ⟨h.cancelling, fun _ => rfl, h.begun, h.released⟩

lemma Registered.sendChunk (h : p.Registered s) (hpc : s.pc ≠ .done) (chunk : ByteArray) (result : ChunkResult) :
    p.Registered (p.sendChunk s chunk result) := by
  cases result with
  | sent => exact h.move hpc nofun
  | full =>
    apply h.move hpc
    split
    · nofun
    · nofun
  | closed => exact h.finish

lemma Registered.sendPing (h : p.Registered s) (hpc : s.pc ≠ .done) (result : ChunkResult) :
    p.Registered (p.sendPing s result) := by
  cases result with
  | sent => exact h.move hpc nofun
  | full => exact h.move hpc nofun
  | closed => exact h.finish

lemma Registered.handle (h : p.Registered s) (hpc : s.pc ≠ .done) (y : Yielded (SseItem α ρ))
    (result : ChunkResult) : p.Registered (p.handle s y result) := by
  rw [SsePump.handle]
  split
  · exact h.idle.sendChunk hpc _ _
  · exact h.idle.finish

lemma Registered.step (h : p.Registered s) (taken : p.step s a = some t) : p.Registered t := by
  cases a with
  | accept =>
    obtain ⟨hpc, rfl⟩ := of_guard taken
    exact h.move (by simp [hpc]) (by simp)
  | refuse =>
    obtain ⟨hpc, rfl⟩ := of_guard taken
    exact h.move (by simp [hpc]) (by simp)
  | start =>
    obtain ⟨hpc, rfl⟩ := of_guard taken
    exact h.move (by simp [hpc]) (by simp)
  | begin =>
    obtain ⟨⟨-, hbegun, -⟩, rfl⟩ := of_guard taken
    have hended : s.ended ≠ true := by
      intro hended
      exact absurd (hbegun.symm.trans (h.begun hended)) Bool.noConfusion
    refine ⟨h.cancelling, h.ready, fun _ => rfl, fun _ hheld => ?_⟩
    exact absurd (hheld.resolve_left Bool.noConfusion) hended
  | answer =>
    obtain ⟨⟨hread, hbegun, -⟩, rfl⟩ := of_guard taken
    have hready : s.pc ≠ .ready := by
      intro hpc
      rw [h.ready hpc] at hread
      exact absurd hread Bool.noConfusion
    rw [answered]
    split
    · exact ⟨h.cancelling, fun hpc => absurd hpc hready, fun _ => hbegun, fun _ _ => rfl⟩
    · exact ⟨h.cancelling, fun hpc => absurd hpc hready, h.begun, h.released⟩
  | leave =>
    obtain rfl := Option.some.inj taken
    exact ⟨h.cancelling, h.ready, h.begun, h.released⟩
  | drop n =>
    obtain rfl := Option.some.inj taken
    refine ⟨h.cancelling, h.ready, h.begun, fun hclose hheld => ?_⟩
    simp only [h.released hclose hheld, List.eraseIdx_nil]
  | resume result =>
    obtain ⟨hpc, taken⟩ := Option.ite_none_right_eq_some.mp taken
    rw [SsePump.resumed] at taken
    split at taken
    · obtain rfl := Option.some.inj taken
      exact h.finish
    · split at taken
      · obtain rfl := Option.some.inj taken
        exact h.handle (by simp [hpc]) _ _
      · cases taken
  | timeout result =>
    obtain ⟨⟨hpc, -⟩, rfl⟩ := of_guard taken
    exact h.sendPing (by simp [hpc]) _
  | retry result =>
    cases hpc : s.pc with
    | room chunk =>
      simp only [SsePump.step, hpc] at taken
      obtain rfl := Option.some.inj taken
      exact h.sendChunk (by simp [hpc]) _ _
    | ready | top | waiting | done => simp [SsePump.step, hpc] at taken
  | cancel =>
    obtain rfl := finish_of_cancel taken
    exact h.finish
  | unwind =>
    obtain ⟨⟨hpc, -⟩, rfl⟩ := of_guard taken
    rw [unwound]
    split
    · exact ⟨fun _ => rfl, fun _ => rfl, h.begun, h.released⟩
    next hrun =>
      have hbegun : s.begun = true := by simpa using (Bool.or_eq_false_iff.mp (eq_false_of_ne_true hrun)).2
      exact ⟨fun _ => rfl, fun _ => rfl, fun _ => hbegun, fun _ _ => rfl⟩

/-! ## The end -/

/-- After the loop has come to the read that was cancelled. -/
def settle (p : SsePump α ρ ε κ) (s : SseState (SseItem α ρ) κ) : SseState (SseItem α ρ) κ :=
  if s.cancelling then p.unwound s else s

/-- The parts of a state that say what is registered. -/
def SameHoldings (s t : SseState (SseItem α ρ) κ) : Prop :=
  t.registered = s.registered ∧ t.cancelling = s.cancelling ∧ t.begun = s.begun

lemma sameHoldings_sendChunk {chunk : ByteArray} {result : ChunkResult}
    (hdone : (p.sendChunk s chunk result).pc = .done) : SameHoldings (p.finish s) (p.sendChunk s chunk result) := by
  cases result with
  | sent => cases hdone
  | full =>
    exfalso
    simp only [sendChunk] at hdone
    split at hdone
    · cases hdone
    · cases hdone
  | closed => exact ⟨rfl, rfl, rfl⟩

/-- Every end but a refusal is that of the `finally`. -/
lemma sameHoldings_of_done (taken : p.step s a = some t) (hpc : s.pc ≠ .done) (hdone : t.pc = .done)
    (ha : a ≠ .refuse) : SameHoldings (p.finish s) t := by
  cases a with
  | refuse => exact absurd rfl ha
  | accept | start =>
    obtain ⟨-, rfl⟩ := of_guard taken
    cases hdone
  | begin =>
    obtain ⟨-, rfl⟩ := of_guard taken
    exact absurd hdone hpc
  | answer =>
    obtain ⟨-, rfl⟩ := of_guard taken
    obtain ⟨ended, registered, hframe⟩ := answered_frame (p := p) s
    rw [hframe] at hdone
    exact absurd hdone hpc
  | leave | drop =>
    obtain rfl := Option.some.inj taken
    exact absurd hdone hpc
  | resume result =>
    obtain ⟨-, taken⟩ := Option.ite_none_right_eq_some.mp taken
    rw [SsePump.resumed] at taken
    split at taken
    · obtain rfl := Option.some.inj taken
      exact ⟨rfl, rfl, rfl⟩
    · split at taken
      next y hread =>
        obtain rfl := Option.some.inj taken
        -- The read was answered, so that there is nothing to cancel in either.
        have hidle : SameHoldings (p.finish s) (p.finish { s with read := .idle }) :=
          ⟨rfl, by simp [SsePump.finish, hread, PendingRead.isOutstanding], rfl⟩
        rw [SsePump.handle] at hdone ⊢
        split at hdone
        · obtain ⟨hregistered, hcancelling, hbegun⟩ := sameHoldings_sendChunk hdone
          exact ⟨hregistered.trans hidle.1, hcancelling.trans hidle.2.1, hbegun.trans hidle.2.2⟩
        · exact hidle
      next => cases taken
  | timeout result =>
    obtain ⟨-, rfl⟩ := of_guard taken
    cases result with
    | sent | full => cases hdone
    | closed => exact ⟨rfl, rfl, rfl⟩
  | retry result =>
    cases hroom : s.pc with
    | room chunk =>
      simp only [SsePump.step, hroom] at taken
      obtain rfl := Option.some.inj taken
      exact sameHoldings_sendChunk hdone
    | ready | top | waiting | done => simp [SsePump.step, hroom] at taken
  | cancel =>
    obtain rfl := finish_of_cancel taken
    exact ⟨rfl, rfl, rfl⟩
  | unwind =>
    obtain ⟨⟨hpc', -⟩, -⟩ := of_guard taken
    exact absurd hpc' hpc

lemma settle_of_cancelling (hcancelling : t.cancelling = true) (hclose : p.kind.hasClose = false)
    (hbegun : t.begun = true) : (p.settle t).registered = [] := by
  simp [settle, hcancelling, unwound, hclose, hbegun, closed]

lemma registered_settle (hheld : t.registered = []) : (p.settle t).registered = [] := by
  rw [settle, unwound]
  split
  · split
    · exact hheld
    · rfl
  · exact hheld

lemma settle_of_not_cancelling (hcancelling : t.cancelling = false) : p.settle t = t := by
  rw [settle, if_neg (by rw [hcancelling]; nofun)]

/-- The last step leaves nothing registered. -/
def Releases (p : SsePump α ρ ε κ) (s : SseState (SseItem α ρ) κ) (a : SseAction) : Prop :=
  p.kind.hasClose = true ∧ a ≠ .refuse ∨ p.kind.hasClose = false ∧ (s.begun = false ∨ s.ended = true) ∨
    s.registered = []

/-- Of a generator nothing is closed by the pump itself. -/
lemma Registered.releases_iff (h : p.Registered s) (hclose : p.kind.hasClose = false) :
    p.Releases s a ↔ s.registered = [] := by
  constructor
  · rintro (⟨hclose', -⟩ | ⟨-, hheld⟩ | hregistered)
    · exact absurd (hclose.symm.trans hclose') Bool.noConfusion
    · exact h.released hclose hheld
    · exact hregistered
  · intro hregistered
    exact .inr (.inr hregistered)

/-- The `finally` of the pump, at its end. -/
lemma Registered.finish_released_iff (h : p.Registered s) (ha : a ≠ .refuse) :
    (p.finish s).registered = [] ↔ p.Releases s a := by
  cases hclose : p.kind.hasClose with
  | true =>
    constructor
    · exact fun _ => .inl ⟨hclose, ha⟩
    · exact fun _ => by simp [SsePump.finish, hclose]
  | false =>
    rw [h.releases_iff hclose]
    simp [SsePump.finish, hclose]

/-- **What a finished stream holds.**  When the pump ends nothing is registered exactly if it streamed a subscription
and was not refused, if its generator was never run or has ended by itself, or if the topics have closed everything.
Once the loop has come to a read that was cancelled, nothing is registered either if a read of the generator was
outstanding at the end. -/
theorem finished_stream_released_iff (run : Reachable p.step p.new s) (taken : p.step s a = some t)
    (hpc : s.pc ≠ .done) (hdone : t.pc = .done) :
    (t.registered = [] ↔ p.Releases s a) ∧
      ((p.settle t).registered = [] ↔ p.Releases s a ∨ p.kind.hasClose = false ∧ s.read = .outstanding) := by
  have h : p.Registered s := run.invariant registered_new fun _ _ _ h taken => h.step taken
  by_cases ha : a = .refuse
  · obtain rfl := ha
    obtain ⟨hready, rfl⟩ := of_guard taken
    have hsettle : p.settle { s with pc := .done } = { s with pc := .done } :=
      settle_of_not_cancelling (h.cancelling hpc)
    have hread : s.read ≠ .outstanding := by
      rw [h.ready hready]
      nofun
    have hreleases : s.registered = [] ↔ p.Releases s .refuse := by
      constructor
      · exact fun hregistered => .inr (.inr hregistered)
      · rintro (⟨-, hrefuse⟩ | ⟨hclose, hheld⟩ | hregistered)
        · exact absurd rfl hrefuse
        · exact h.released hclose hheld
        · exact hregistered
    rw [hsettle]
    refine ⟨hreleases, hreleases.trans ?_⟩
    constructor
    · exact .inl
    · exact fun hreleases => hreleases.resolve_right fun hout => hread hout.2
  · obtain ⟨hregistered, hcancelling, hbegun⟩ := sameHoldings_of_done taken hpc hdone ha
    have hreleases : t.registered = [] ↔ p.Releases s a := by
      rw [hregistered]
      exact h.finish_released_iff ha
    refine ⟨hreleases, ?_⟩
    constructor
    · intro hsettled
      by_cases hout : s.read = .outstanding
      · cases hclose : p.kind.hasClose with
        | true => exact .inl (.inl ⟨hclose, ha⟩)
        | false => exact .inr ⟨rfl, hout⟩
      · have hquiet : t.cancelling = false := by
          rw [hcancelling]
          apply eq_false_of_ne_true
          exact fun hout' => hout (PendingRead.isOutstanding_iff.mp hout')
        rw [settle_of_not_cancelling hquiet] at hsettled
        exact .inl (hreleases.mp hsettled)
    · rintro (hreleased | ⟨hclose, hout⟩)
      · exact registered_settle (hreleases.mpr hreleased)
      · cases hrun : s.begun with
        | true =>
          apply settle_of_cancelling _ hclose (hbegun.trans hrun)
          rw [hcancelling]
          exact PendingRead.isOutstanding_iff.mpr hout
        | false =>
          apply registered_settle
          exact hreleases.mpr (.inr (.inl ⟨hclose, .inl hrun⟩))

/-- The same items, from the channel of a session. -/
def greetingsChannel : SsePump PyStr ℤ Unit Unit := { greetings with kind := .channel () }

/-- The client is gone when the first item is sent. -/
theorem greetings_released :
    ∃ s t, Reachable greetings.step greetings.new s ∧ greetings.step s (.resume .closed) = some t ∧
      t.pc = .done ∧ t.registered = [] := by
  have hrun : ((exec greetings.step (fun _ _ => True) greetings.new [.accept, .start, .answer]).bind fun s =>
      (greetings.step s (.resume .closed)).map fun t => (s.pc, t.pc)) = some (.waiting, .done) := by decide +kernel
  obtain ⟨s, hexec, hlast⟩ := Option.bind_eq_some_iff.mp hrun
  obtain ⟨t, taken, hpcs⟩ := Option.map_eq_some_iff.mp hlast
  obtain ⟨hpc, hdone⟩ := Prod.mk.inj hpcs
  have hreachable := Reachable.of_exec _ hexec
  refine ⟨s, t, hreachable, taken, hdone, ?_⟩
  exact (finished_stream_released_iff hreachable taken (by rw [hpc]; nofun) hdone).1.mpr (.inl ⟨rfl, nofun⟩)

/-- A subscription stays registered when the response is refused, and that of a channel when the client is gone at
the first item. -/
theorem finished_streams_hold :
    (∃ t, greetings.step greetings.new .refuse = some t ∧ t.pc = .done ∧ t.registered = [()] ∧
      (greetings.settle t).registered = [()]) ∧
    ∃ s t, Reachable greetingsChannel.step greetingsChannel.new s ∧
      greetingsChannel.step s (.resume .closed) = some t ∧ t.pc = .done ∧ t.registered = [()] ∧
      (greetingsChannel.settle t).registered = [()] := by
  refine ⟨⟨_, rfl, rfl, rfl, rfl⟩, ?_⟩
  have hrun : ((exec greetingsChannel.step (fun _ _ => True) greetingsChannel.new
      [.accept, .start, .begin, .answer]).bind fun s => (greetingsChannel.step s (.resume .closed)).map fun t =>
        (t.pc, t.registered, (greetingsChannel.settle t).registered)) = some (.done, [()], [()]) := by
    decide +kernel
  obtain ⟨s, hexec, hlast⟩ := Option.bind_eq_some_iff.mp hrun
  obtain ⟨t, taken, ht⟩ := Option.map_eq_some_iff.mp hlast
  obtain ⟨hdone, ht⟩ := Prod.mk.inj ht
  obtain ⟨hregistered, hsettled⟩ := Prod.mk.inj ht
  exact ⟨s, t, Reachable.of_exec _ hexec, taken, hdone, hregistered, hsettled⟩

end SsePump

end Oxbrook
