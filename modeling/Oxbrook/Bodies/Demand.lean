import Oxbrook.Bodies.Agreement

/-!
# Back-pressure on a body

The pump waits for demand in two places: before its first read, and while more than `highWater` bytes
sit between it and the handler.  The handler waits on a callback, installed by `notify` after a `poll`
that found nothing, or by `collect`.  Demand is one stored permit, given by an empty `poll`, by a `poll`
that takes the count of bytes across the high water, and by `collect`.

`body_never_deadlocks` is that the two never wait for each other.  Three facts carry it.  Before its
first read a pump without a permit has not been asked (`Unasked`).  A pump at or on its way to the
throttle without a permit is held by bytes that are there, or the handler is about to give a permit
(`Held`).  And a callback that waits while there is something to take is about to be woken, unless the
body is collected whole (`Announced`).
-/

namespace Oxbrook

open StepMachine

variable {κ : Type*}

/-! ## A handler that reads a body -/

/-- How a handler reads: it calls when none of its callbacks waits, and asks to be notified only after a
`poll` that was told PENDING.  The pump is being polled, so its future is not dropped. -/
def Reading (s : BodyState κ) : BodyAction κ → Prop
  | .notify _ => s.waiters = [] ∧ s.answers.getLast? = some .pollPending
  | .poll | .take | .collect _ => s.waiters = []
  | .drop => False
  | _ => True

instance (s : BodyState κ) : (a : BodyAction κ) → Decidable (Reading s a)
  | .notify _ => inferInstanceAs (Decidable (_ ∧ _))
  | .poll | .take | .collect _ => inferInstanceAs (Decidable (s.waiters = []))
  | .drop => .isFalse id
  | .pump | .timeout | .discard | .handler => .isTrue trivial

/-- The pump waits on `demand`, and no permit is stored. -/
def BodyState.Starved (s : BodyState κ) : Prop :=
  (s.pump = .waiting ∨ s.pump = .throttled) ∧ s.permit = false

/-- The handler waits on its callback, and nothing has scheduled it. -/
def BodyState.Waits (s : BodyState κ) : Prop := s.handler = .idle ∧ s.waiters ≠ []

/-- The pump is past its wait, and goes on by itself. -/
def PumpPc.Runs : PumpPc → Prop
  | .unpolled | .waiting | .throttled | .gone => False
  | _ => True

/-- The handler is about to store a permit. -/
def HandlerPc.Permitting : HandlerPc κ → Prop
  | .relieved _ crossed => crossed = true
  | .collecting _ | .collectDemand => True
  | _ => False

/-- The handler is inside `collect`. -/
def HandlerPc.Collecting : HandlerPc κ → Prop
  | .collecting _ | .collectDemand | .collectCheck => True
  | _ => False

/-! ## The invariant -/

/-- Before its first read, a pump without a permit has not been asked. -/
def Unasked (s : BodyState κ) : Prop :=
  s.pump = .unpolled ∨ s.pump = .waiting → s.queueOf = [] ∧
    (s.permit = true ∨
      (Answer.pollPending ∉ s.answers ∧ (s.waiters = [] ∨ s.handler = .collectDemand)))

/-- A pump at or on its way to the throttle has a permit, is about to be given one, or is held by the
bytes that are buffered. -/
def Held (s : BodyState κ) : Prop :=
  s.pump = .loadWhole ∨ s.pump = .loadDiscard ∨ s.pump = .throttled →
    s.permit = true ∨ s.handler.Permitting ∨
      (highWater < s.buffered ∧ (s.pump = .loadWhole ∨ s.whole = false))

/-- A callback that waits while there is something to take is about to be woken, unless the body is
collected whole. -/
def Announced (s : BodyState κ) : Prop :=
  s.waiters ≠ [] → s.whole = false → s.chunks ≠ [] → s.handler = .idle →
    ∃ chunk, s.pump = .announcing chunk ∨ s.pump = .waking chunk

/-- The invariant of a body that is read. -/
structure Demanded (s : BodyState κ) : Prop where
  marked : Marked s
  bytes : s.buffered ≤ (dataOf s.queueOf).length + s.adding
  unasked : Unasked s
  held : Held s
  announced : Announced s
  -- a handler that is reading has no callback waiting
  waits : s.waiters ≠ [] → s.handler = .idle ∨ s.handler.Checking
  whole : s.handler.Collecting → s.whole = true
  gone : s.pump = .gone → s.finished = true

section Pump

variable {args : PumpArgs} {s s' : BodyState κ}

/-- A step of the pump and the bytes it has buffered. -/
lemma PumpMove.bytes (move : PumpMove args s s')
    (h : s.buffered ≤ (dataOf s.queueOf).length + s.adding) :
    s'.buffered ≤ (dataOf s'.queueOf).length + s'.adding := by
  cases move
  case push bytes hpc => simpa [BodyState.adding, BodyState.queueOf, BodyState.inHand, hpc] using h
  case append chunk hpc =>
    cases chunk <;> simp [BodyState.adding, BodyState.queueOf, BodyState.inHand, hpc, dataOf] at h ⊢ <;>
      omega
  case finish m hpc hmarker =>
    cases m with
    | data bytes => exact absurd hmarker id
    | ended | failed failure =>
      simpa [BodyState.adding, BodyState.queueOf, BodyState.inHand, hpc] using h
  case quiet chunk hpc _ _ | wake chunk hpc =>
    cases chunk <;> simpa [BodyState.adding, BodyState.queueOf, BodyState.inHand, hpc,
      BodyState.afterPush] using h
  all_goals simp_all [BodyState.adding, BodyState.queueOf, BodyState.inHand]

lemma Unasked.pumpMove (h : Unasked s) (move : PumpMove args s s') : Unasked s' := by
  cases move
  case begin hpc => exact fun _ => h (.inl hpc)
  case quiet chunk _ _ _ | wake chunk _ =>
    intro hpc
    cases chunk <;> simp [BodyState.afterPush] at hpc
  all_goals exact fun hpc => absurd hpc (by simp)

lemma Held.pumpMove (h : Held s) (move : PumpMove args s s') : Held s' := by
  cases move
  case above hpc hbuffered => exact fun _ => .inr (.inr ⟨hbuffered, .inl rfl⟩)
  case notWhole hpc hwhole =>
    intro _
    rcases h (.inl hpc) with hpermit | hhandler | ⟨hbuffered, -⟩
    · exact .inl hpermit
    · exact .inr (.inl hhandler)
    · exact .inr (.inr ⟨hbuffered, .inr hwhole⟩)
  case throttle hpc hdiscard =>
    intro _
    rcases h (.inr (.inl hpc)) with hpermit | hhandler | ⟨hbuffered, hplace⟩
    · exact .inl hpermit
    · exact .inr (.inl hhandler)
    · rw [hpc] at hplace
      exact .inr (.inr ⟨hbuffered, .inr (hplace.resolve_left (by simp))⟩)
  case quiet chunk _ _ _ | wake chunk _ =>
    intro hpc
    cases chunk <;> simp [BodyState.afterPush] at hpc
  all_goals exact fun hpc => absurd hpc (by simp)

lemma Announced.pumpMove (h : Announced s) (move : PumpMove args s s') : Announced s' := by
  intro hwaiters hwhole hchunks hidle
  cases move
  case append chunk _ => exact ⟨chunk, .inl rfl⟩
  case announce chunk _ _ => exact ⟨chunk, .inr rfl⟩
  case wake => exact absurd rfl hwaiters
  case quiet hset _ => exact absurd (hset.symm.trans hwhole) (by decide)
  all_goals
    obtain ⟨chunk, hpump⟩ := h hwaiters hwhole hchunks hidle
    simp_all

end Pump

section Handler

variable {args : PumpArgs} {s s' : BodyState κ} {a : BodyAction κ}

/-- A step of the handler and the bytes the pump has buffered. -/
lemma HandlerMove.bytes (move : HandlerMove s s')
    (h : s.buffered ≤ (dataOf s.queueOf).length + s.adding) :
    s'.buffered ≤ (dataOf s'.queueOf).length + s'.adding := by
  cases move
  case relieve bytes hpc =>
    simp only [BodyState.adding, BodyState.queueOf, BodyState.inHand, hpc] at h ⊢
    simp at h ⊢
    omega
  case ended hpc | failed hpc =>
    simpa [BodyState.adding, BodyState.queueOf, BodyState.inHand, hpc, BodyState.answer, dataOf] using h
  case take hpc =>
    have hqueue : s.queueOf = s.chunks := by simp [BodyState.queueOf, BodyState.inHand, hpc]
    have hadding : s.takeStep.adding = s.adding := rfl
    have hbuffered : s.takeStep.buffered = s.buffered - (dataOf s.chunks).length := rfl
    rw [hqueue] at h
    rw [hbuffered, hadding]
    omega
  all_goals simp_all [BodyState.adding, BodyState.queueOf, BodyState.inHand, BodyState.answer]

/-- A step of the handler before the pump's first read. -/
lemma Unasked.handlerMove (h : Unasked s) (marked : Marked s) (move : HandlerMove s s') :
    Unasked s' := by
  intro hpump
  have hbefore : s.pump = .unpolled ∨ s.pump = .waiting := by
    cases move <;> exact hpump
  obtain ⟨hqueue, hasked⟩ := h hbefore
  have hunfinished : s.finished = false := by
    have hok := marked.markerOk
    have hnone : s.marker = none := by
      rcases hbefore with hpc | hpc <;> simpa [PumpPc.MarkerOk, hpc] using hok
    simp [marked.finished, hnone]
  have hquiet : s.handler ≠ .collectDemand →
      s.permit = true ∨ (Answer.pollPending ∉ s.answers ∧ s.waiters = []) := by
    intro hne
    rcases hasked with hpermit | ⟨hnot, hwaiters | hpc⟩
    · exact .inl hpermit
    · exact .inr ⟨hnot, hwaiters⟩
    · exact absurd hpc hne
  cases move
  case nothing hfinished => exact absurd (hfinished.symm.trans hunfinished) (by decide)
  case take hpc => exact absurd ((marked.taking hpc).symm.trans hunfinished) (by decide)
  case collectWake hfinished => exact absurd (hfinished.symm.trans hunfinished) (by decide)
  case relieve hpc | ended hpc | failed hpc =>
    simp [BodyState.queueOf, BodyState.inHand, hpc] at hqueue
  case notifyWake hpc hchunks => simp [BodyState.queueOf, BodyState.inHand, hpc, hchunks] at hqueue
  case demand hpc | collectDemand hpc =>
    refine ⟨?_, .inl rfl⟩
    simpa [BodyState.queueOf, BodyState.inHand, BodyState.answer, hpc] using hqueue
  case data bytes crossed hpc =>
    refine ⟨by simpa [BodyState.queueOf, BodyState.inHand, BodyState.answer, hpc] using hqueue, ?_⟩
    rcases hquiet (by simp [hpc]) with hpermit | ⟨hnot, hwaiters⟩
    · exact .inl (by simp [BodyState.answer, hpermit])
    · exact .inr ⟨by simpa [BodyState.answer] using hnot, .inl hwaiters⟩
  case install callback hpc =>
    refine ⟨by simpa [BodyState.queueOf, BodyState.inHand, hpc] using hqueue, ?_⟩
    rcases hquiet (by simp [hpc]) with hpermit | ⟨hnot, -⟩
    · exact .inl hpermit
    · exact .inr ⟨hnot, .inr rfl⟩
  case wanting hpc _ | collectWait hpc _ | notifyWait hpc _ =>
    refine ⟨by simpa [BodyState.queueOf, BodyState.inHand, hpc] using hqueue, ?_⟩
    rcases hquiet (by simp [hpc]) with hpermit | ⟨hnot, hwaiters⟩
    · exact .inl hpermit
    · exact .inr ⟨hnot, .inl hwaiters⟩

/-- A step of the handler while the pump is at or on its way to the throttle. -/
lemma Held.handlerMove (h : Held s) (marked : Marked s) (move : HandlerMove s s') : Held s' := by
  intro hpump
  have hsame : s'.pump = s.pump := by cases move <;> rfl
  have hbefore : s.pump = .loadWhole ∨ s.pump = .loadDiscard ∨ s.pump = .throttled := hsame ▸ hpump
  have hunfinished : s.finished = false := by
    have hok := marked.markerOk
    have hnone : s.marker = none := by
      rcases hbefore with hpc | hpc | hpc <;> simpa [PumpPc.MarkerOk, hpc] using hok
    simp [marked.finished, hnone]
  have hheld := h hbefore
  cases move
  case take hpc => exact absurd ((marked.taking hpc).symm.trans hunfinished) (by decide)
  case demand | collectDemand => exact .inl rfl
  case install => exact .inr (.inl trivial)
  case data bytes crossed hpc =>
    rcases hheld with hpermit | hhandler | hbuffered
    · exact .inl (by simp [BodyState.answer, hpermit])
    · rw [hpc] at hhandler
      exact .inl (by simp [BodyState.answer, show crossed = true from hhandler])
    · exact .inr (.inr hbuffered)
  case relieve bytes hpc =>
    rcases hheld with hpermit | hhandler | ⟨hbuffered, hplace⟩
    · exact .inl hpermit
    · rw [hpc] at hhandler
      exact absurd hhandler id
    · by_cases hcrossed : s.buffered - bytes.length ≤ highWater
      · exact .inr (.inl (decide_eq_true ⟨hbuffered, hcrossed⟩))
      · exact .inr (.inr ⟨Nat.lt_of_not_le hcrossed, hplace⟩)
  case nothing hpc _ | wanting hpc _ | ended hpc | failed hpc | collectWake hpc _ | collectWait hpc _ |
      notifyWake hpc _ | notifyWait hpc _ =>
    rcases hheld with hpermit | hhandler | hbuffered
    · exact .inl hpermit
    · rw [hpc] at hhandler
      exact absurd hhandler id
    · exact .inr (.inr hbuffered)

/-- A call that ends without waking leaves a callback behind only if there is nothing to take. -/
lemma Demanded.announced_handlerMove (h : Demanded s) (move : HandlerMove s s') : Announced s' := by
  intro hwaiters hwhole hchunks hidle
  cases move
  case collectWake | notifyWake => exact absurd rfl hwaiters
  case notifyWait hnone => exact absurd hnone hchunks
  case collectWait hpc _ =>
    have hset := h.whole (by rw [hpc]; trivial)
    exact absurd (hset.symm.trans hwhole) (by decide)
  case wanting | relieve | install | collectDemand => cases hidle
  case nothing hpc _ | ended hpc | failed hpc | demand hpc | data hpc | take hpc =>
    have hplace := h.waits hwaiters
    rw [hpc] at hplace
    rcases hplace with hplace | hplace
    · cases hplace
    · exact absurd hplace id

/-- A step of the handler inside a call. -/
lemma Demanded.handlerMove (h : Demanded s) (move : HandlerMove s s') : Demanded s' := by
  refine ⟨h.marked.handlerMove move, move.bytes h.bytes, h.unasked.handlerMove h.marked move,
    h.held.handlerMove h.marked move, h.announced_handlerMove move, ?_, ?_, ?_⟩
  · intro hwaiters
    cases move
    case collectWake | notifyWake => exact absurd rfl hwaiters
    case collectWait | notifyWait => exact .inl rfl
    case install | collectDemand => exact .inr trivial
    case nothing | ended | failed | demand | data | take => exact .inl rfl
    case wanting hpc _ | relieve hpc =>
      have hplace := h.waits hwaiters
      rw [hpc] at hplace
      rcases hplace with hplace | hplace
      · cases hplace
      · exact absurd hplace id
  · intro hcollecting
    cases move
    case install hpc | collectDemand hpc => exact h.whole (by rw [hpc]; trivial)
    all_goals exact absurd hcollecting id
  · intro hgone
    have hsame : s'.pump = s.pump ∧ s'.finished = s.finished := by cases move <;> exact ⟨rfl, rfl⟩
    rw [hsame.2]
    exact h.gone (hsame.1 ▸ hgone)

/-- A call of the handler begins. -/
lemma Demanded.call (h : Demanded s) (hidle : s.handler = .idle)
    (hpump : s'.pump = s.pump) (hmarked : Marked s') (hbuffered : s'.buffered = s.buffered)
    (hqueue : s'.queueOf = s.queueOf) (hpermit : s'.permit = s.permit)
    (hanswers : Answer.pollPending ∈ s'.answers → Answer.pollPending ∈ s.answers)
    (hwaiters : s'.waiters = []) (hfinished : s'.finished = s.finished)
    (hwhole : s'.whole = s.whole ∨ (s'.whole = true ∧ ∃ callback, s'.handler = .collecting callback))
    (hcollecting : s'.handler.Collecting → s'.whole = true) : Demanded s' := by
  have hadding : s'.adding = s.adding := by
    unfold BodyState.adding
    rw [hpump]
  refine ⟨hmarked, ?_, ?_, ?_, ?_, ?_, hcollecting, ?_⟩
  · rw [hbuffered, hqueue, hadding]
    exact h.bytes
  · intro hpc
    rw [hpump] at hpc
    obtain ⟨hempty, hasked⟩ := h.unasked hpc
    rw [hqueue, hpermit]
    refine ⟨hempty, ?_⟩
    rcases hasked with hset | ⟨hnot, -⟩
    · exact .inl hset
    · exact .inr ⟨fun hmem => hnot (hanswers hmem), .inl hwaiters⟩
  · intro hpc
    rw [hpump] at hpc
    rw [hpermit, hbuffered, hpump]
    rcases h.held hpc with hset | hpermitting | ⟨hover, hplace⟩
    · exact .inl hset
    · rw [hidle] at hpermitting
      exact absurd hpermitting id
    · rcases hwhole with hwhole | ⟨-, callback, hhandler⟩
      · rw [hwhole]
        exact .inr (.inr ⟨hover, hplace⟩)
      · rw [hhandler]
        exact .inr (.inl trivial)
  · exact fun hsome => absurd hwaiters hsome
  · exact fun hsome => absurd hwaiters hsome
  · rw [hpump, hfinished]
    exact h.gone

/-- `notify` begins, after a `poll` that was told PENDING. -/
lemma Demanded.notify (h : Demanded s) (hidle : s.handler = .idle)
    (hpending : Answer.pollPending ∈ s.answers) (callback : κ)
    (hmarked : Marked { s with waiters := s.waiters ++ [callback], handler := .notifying }) :
    Demanded { s with waiters := s.waiters ++ [callback], handler := .notifying } := by
  have hqueue : ({ s with waiters := s.waiters ++ [callback], handler := .notifying } :
      BodyState κ).queueOf = s.queueOf := by
    simp [BodyState.queueOf, BodyState.inHand, hidle]
  refine ⟨hmarked, ?_, ?_, ?_, ?_, fun _ => .inr trivial, fun hcollecting => absurd hcollecting id,
    h.gone⟩
  · rw [hqueue]
    exact h.bytes
  · intro hpc
    obtain ⟨hempty, hset | ⟨hnot, -⟩⟩ := h.unasked hpc
    · exact ⟨hqueue.trans hempty, .inl hset⟩
    · exact absurd hpending hnot
  · intro hpc
    rcases h.held hpc with hset | hpermitting | hover
    · exact .inl hset
    · rw [hidle] at hpermitting
      exact absurd hpermitting id
    · exact .inr (.inr hover)
  · rintro _ _ _ ⟨⟩

/-- A step of a body that is read. -/
lemma Demanded.step (h : Demanded s) (hok : Reading s a) (hs : s.step args a = some s') :
    Demanded s' := by
  have hmarked := h.marked.step hs
  cases bodyMove_of_step hs with
  | pump move =>
    obtain ⟨hhandler, -⟩ := move.frame
    have hwaiters : s'.waiters = s.waiters ∨ s'.waiters = [] := by
      cases move <;> first | exact .inl rfl | exact .inr rfl
    have hwhole : s'.whole = s.whole := by cases move <;> rfl
    refine ⟨hmarked, move.bytes h.bytes, h.unasked.pumpMove move, h.held.pumpMove move,
      h.announced.pumpMove move, ?_, ?_, fun hgone => ?_⟩
    · intro hsome
      rw [hhandler]
      rcases hwaiters with hwaiters | hwaiters
      · exact h.waits (hwaiters ▸ hsome)
      · exact absurd hwaiters hsome
    · rw [hhandler, hwhole]
      exact h.whole
    · rcases (BodyMove.pump move).gone hgone with hfinished | ⟨hbefore, hfinished⟩ | ⟨hdrop, -⟩
      · exact hfinished
      · exact hfinished.trans (h.gone hbefore)
      · cases hdrop
  | handler move => exact h.handlerMove move
  | timeout hidle hpc =>
    refine ⟨hmarked, ?_, nofun, nofun, ?_, h.waits, h.whole, nofun⟩
    · simpa [BodyState.adding, hpc, BodyState.queueOf, BodyState.inHand] using h.bytes
    · intro hwaiters hwhole hchunks hidle
      obtain ⟨chunk, hpump⟩ := h.announced hwaiters hwhole hchunks hidle
      simp [hpc] at hpump
  | dropUnpolled | drop => exact absurd hok id
  | discard =>
    exact ⟨hmarked, h.bytes, fun hpc => ⟨(h.unasked hpc).1, .inl rfl⟩, fun _ => .inl rfl, h.announced,
      h.waits, h.whole, h.gone⟩
  | poll hidle =>
    refine h.call hidle rfl hmarked rfl ?_ rfl id hok rfl (.inl rfl) (fun hpc => absurd hpc id)
    cases hchunks : s.chunks <;> simp [BodyState.queueOf, BodyState.inHand, hidle, hchunks]
  | take hidle hfinished =>
    refine h.call hidle rfl hmarked rfl ?_ rfl id hok rfl (.inl rfl) (fun hpc => absurd hpc id)
    simp [BodyState.queueOf, BodyState.inHand, hidle]
  | takePending hidle hfinished =>
    refine h.call hidle rfl hmarked rfl ?_ rfl ?_ hok rfl (.inl rfl) (fun hpc => absurd hpc id)
    · simp [BodyState.queueOf, BodyState.inHand, BodyState.answer, hidle]
    · simp [BodyState.answer]
  | collect callback hidle =>
    refine h.call hidle rfl hmarked rfl ?_ rfl id hok rfl (.inr ⟨rfl, callback, rfl⟩) (fun _ => rfl)
    simp [BodyState.queueOf, BodyState.inHand, hidle]
  | notify callback hidle => exact h.notify hidle (List.mem_of_getLast? hok.2) callback hmarked

end Handler

/-! ## No deadlock -/

section Run

variable {args : PumpArgs} {s : BodyState κ}

lemma demanded_new (args : PumpArgs) : Demanded (BodyState.new args : BodyState κ) where
  marked := marked_new args
  bytes := Nat.zero_le _
  unasked _ := ⟨rfl, .inr ⟨by simp [BodyState.new], .inl rfl⟩⟩
  held hpc := by simp [BodyState.new] at hpc
  announced h := absurd rfl h
  waits h := absurd rfl h
  whole h := absurd h id
  gone h := by cases h

/-- Between two calls, a pump held at the throttle without a permit is held by data that is there. -/
lemma Demanded.data_of_throttled (h : Demanded s) (hpump : s.pump = .throttled)
    (hpermit : s.permit = false) (hidle : s.handler = .idle) :
    s.chunks ≠ [] ∧ s.whole = false := by
  rcases h.held (.inr (.inr hpump)) with hset | hpermitting | ⟨hover, hplace⟩
  · exact absurd (hset.symm.trans hpermit) (by decide)
  · rw [hidle] at hpermitting
    exact absurd hpermitting id
  · rw [hpump] at hplace
    refine ⟨?_, hplace.resolve_left (by simp)⟩
    intro hchunks
    have hbytes := h.bytes
    simp [BodyState.queueOf, BodyState.inHand, BodyState.adding, hidle, hchunks, hpump] at hbytes
    simp [hbytes] at hover

/-- **Back-pressure cannot deadlock.**  In every run of the pump and of a handler that reads, whatever
the sizes of the frames, the pump never waits for demand without a permit while the handler waits on a
callback that nothing has scheduled; and after a `poll` that was told PENDING on an empty queue of an
unfinished body, a permit is stored or the pump is past its wait. -/
theorem body_never_deadlocks (args : PumpArgs)
    (run : Reaches (BodyState.step args) Reading (BodyState.new args) s) :
    ¬ (s.Starved ∧ s.Waits ∧ s.finished = false) ∧
    (s.handler = .idle → s.answers.getLast? = some .pollPending → s.chunks = [] →
      s.finished = false → s.permit = true ∨ s.pump.Runs) := by
  have h : Demanded s := run.invariant (demanded_new args) fun _ _ _ h hok hs => h.step hok hs
  constructor
  · rintro ⟨⟨hpump | hpump, hpermit⟩, ⟨hidle, hwaiters⟩, -⟩
    · obtain ⟨-, hset | ⟨-, hnone | hpc⟩⟩ := h.unasked (.inr hpump)
      · exact absurd (hset.symm.trans hpermit) (by decide)
      · exact hwaiters hnone
      · cases hidle.symm.trans hpc
    · obtain ⟨hchunks, hwhole⟩ := h.data_of_throttled hpump hpermit hidle
      obtain ⟨chunk, hannounced⟩ := h.announced hwaiters hwhole hchunks hidle
      simp [hpump] at hannounced
  · intro hidle hlast hchunks hunfinished
    by_cases hpermit : s.permit = true
    · exact .inl hpermit
    · refine .inr ?_
      rw [Bool.not_eq_true] at hpermit
      have hpending : Answer.pollPending ∈ s.answers := List.mem_of_getLast? hlast
      have hasked (hpc : s.pump = .unpolled ∨ s.pump = .waiting) : False := by
        obtain ⟨-, hset | ⟨hnot, -⟩⟩ := h.unasked hpc
        · exact absurd (hset.symm.trans hpermit) (by decide)
        · exact hnot hpending
      match hpump : s.pump with
      | .unpolled => exact absurd (.inl hpump) hasked
      | .waiting => exact absurd (.inr hpump) hasked
      | .throttled => exact absurd hchunks (h.data_of_throttled hpump hpermit hidle).1
      | .gone => exact absurd ((h.gone hpump).symm.trans hunfinished) (by decide)
      | .demanded | .lingering _ | .loadBuffered | .loadWhole | .loadDiscard | .checkDiscard | .reading |
          .pushing _ | .appending _ | .announcing _ | .waking _ | .returned => trivial

end Run

/-- The handler polls before anything was read, is told to wait and waits. -/
theorem body_never_deadlocks_firstRead :
    ∃ s : BodyState Unit,
      Reaches (BodyState.step cleanUpload) Reading (BodyState.new cleanUpload) s ∧ s.Waits ∧
        ¬ s.Starved ∧ (s.permit = true ∨ s.pump.Runs) := by
  have run : Reaches (BodyState.step cleanUpload) Reading (BodyState.new cleanUpload)
      (_ : BodyState Unit) :=
    Reaches.of_exec [.pump, .poll, .handler, .handler, .notify (), .handler] rfl
  have hfree := body_never_deadlocks cleanUpload run
  refine ⟨_, run, ⟨rfl, List.cons_ne_nil _ _⟩, ?_, hfree.2 rfl rfl rfl rfl⟩
  exact fun hstarved => hfree.1 ⟨hstarved, ⟨rfl, List.cons_ne_nil _ _⟩, rfl⟩

end Oxbrook
