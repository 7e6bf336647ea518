import Oxbrook.Bodies.Truncation

/-!
# The transitions of a body

What a step of a streamed body can do, one constructor a transition, with the state it leads to
written out.  The invariants of the following modules are proved by cases on it.  The first of them,
`Marked`, says where the marker of a body is in any run, the one of `Bodies/Truncation` included.
-/

namespace Oxbrook

open StepMachine

variable {κ : Type*}

/-- The handler is inside a call that wakes the callbacks it finds before it returns, if the body has
ended. -/
def HandlerPc.Checking : HandlerPc κ → Prop
  | .collectDemand | .collectCheck | .notifying => True
  | _ => False

/-- A step of the pump. -/
inductive PumpMove (args : PumpArgs) (s : BodyState κ) : BodyState κ → Prop
  | begin (hpc : s.pump = .unpolled) : PumpMove args s { s with pump := .waiting }
  | demanded (hpc : s.pump = .waiting) (hpermit : s.permit = true) :
      PumpMove args s { s with permit := false, pump := .demanded }
  | discarded (hpc : s.pump = .demanded) (hdiscard : s.discard = true) :
      PumpMove args s { s with pump := .lingering none }
  | declared (hpc : s.pump = .demanded) (hdiscard : s.discard = false)
      (hover : args.declaredLength.any (args.maxBody < ·) = true) :
      PumpMove args s { s with pump := .lingering (some (.tooLarge args.maxBody)) }
  | enter (hpc : s.pump = .demanded) (hdiscard : s.discard = false)
      (hover : args.declaredLength.any (args.maxBody < ·) = false) :
      PumpMove args s { s with pump := .loadBuffered }
  | lingered (hpc : s.pump = .lingering none) : PumpMove args s { s with pump := .returned }
  | refuse (failure : Failure) (hpc : s.pump = .lingering (some failure)) :
      PumpMove args s { s with pump := .pushing (.failed failure) }
  | above (hpc : s.pump = .loadBuffered) (hbuffered : highWater < s.buffered) :
      PumpMove args s { s with pump := .loadWhole }
  | below (hpc : s.pump = .loadBuffered) (hbuffered : s.buffered ≤ highWater) :
      PumpMove args s { s with pump := .checkDiscard }
  | whole (hpc : s.pump = .loadWhole) (hwhole : s.whole = true) :
      PumpMove args s { s with pump := .checkDiscard }
  | notWhole (hpc : s.pump = .loadWhole) (hwhole : s.whole = false) :
      PumpMove args s { s with pump := .loadDiscard }
  | discarding (hpc : s.pump = .loadDiscard) (hdiscard : s.discard = true) :
      PumpMove args s { s with pump := .checkDiscard }
  | throttle (hpc : s.pump = .loadDiscard) (hdiscard : s.discard = false) :
      PumpMove args s { s with pump := .throttled }
  | resume (hpc : s.pump = .throttled) (hpermit : s.permit = true) :
      PumpMove args s { s with permit := false, pump := .loadBuffered }
  | stop (hpc : s.pump = .checkDiscard) (hdiscard : s.discard = true) :
      PumpMove args s { s with pump := .lingering none }
  | read (hpc : s.pump = .checkDiscard) (hdiscard : s.discard = false) :
      PumpMove args s { s with pump := .reading }
  | ended (hpc : s.pump = .reading) (hframes : s.frames = []) :
      PumpMove args s { s with pump := .pushing .ended }
  | broken (rest : List Frame) (hpc : s.pump = .reading) (hframes : s.frames = .error :: rest) :
      PumpMove args s { s with pump := .pushing (.failed .incomplete) }
  | trailers (rest : List Frame) (hpc : s.pump = .reading) (hframes : s.frames = .trailers :: rest) :
      PumpMove args s { s with frames := rest, pump := .loadBuffered }
  | tooLarge (bytes : Bytes) (rest : List Frame) (hpc : s.pump = .reading)
      (hframes : s.frames = .data bytes :: rest) (hover : args.maxBody < s.total + bytes.length) :
      PumpMove args s { s with
        frames := rest, total := s.total + bytes.length
        pump := .lingering (some (.tooLarge args.maxBody)) }
  | empty (rest : List Frame) (hpc : s.pump = .reading) (hframes : s.frames = .data [] :: rest)
      (hwithin : s.total ≤ args.maxBody) :
      PumpMove args s { s with frames := rest, pump := .loadBuffered }
  | data (bytes : Bytes) (rest : List Frame) (hpc : s.pump = .reading)
      (hframes : s.frames = .data bytes :: rest) (hwithin : s.total + bytes.length ≤ args.maxBody)
      (hbytes : bytes ≠ []) :
      PumpMove args s { s with
        frames := rest, total := s.total + bytes.length, pump := .pushing (.data bytes) }
  | push (bytes : Bytes) (hpc : s.pump = .pushing (.data bytes)) :
      PumpMove args s { s with
        buffered := s.buffered + bytes.length, pump := .appending (.data bytes) }
  | finish (m : Chunk) (hpc : s.pump = .pushing m) (hmarker : m.IsMarker) :
      PumpMove args s { s with finished := true, marker := some m, pump := .appending m }
  | append (chunk : Chunk) (hpc : s.pump = .appending chunk) :
      PumpMove args s { s with
        chunks := s.chunks ++ [chunk], sent := s.sent ++ dataOf [chunk]
        pump := .announcing chunk }
  | quiet (chunk : Chunk) (hpc : s.pump = .announcing chunk) (hwhole : s.whole = true)
      (hfinished : s.finished = false) :
      PumpMove args s { s with pump := BodyState.afterPush chunk }
  | announce (chunk : Chunk) (hpc : s.pump = .announcing chunk)
      (hwake : s.whole = false ∨ s.finished = true) :
      PumpMove args s { s with pump := .waking chunk }
  | wake (chunk : Chunk) (hpc : s.pump = .waking chunk) :
      PumpMove args s { s with
        woken := s.woken ++ s.waiters, waiters := [], pump := BodyState.afterPush chunk }
  | gone (hpc : s.pump = .returned) (hfinished : s.finished = true) :
      PumpMove args s { s with pump := .gone }
  | abandon (hpc : s.pump = .returned) (hfinished : s.finished = false) :
      PumpMove args s { s with pump := .pushing (.failed .incomplete) }

/-- A step of the handler inside a call. -/
inductive HandlerMove (s : BodyState κ) : BodyState κ → Prop
  | nothing (hpc : s.handler = .polled none) (hfinished : s.finished = true) :
      HandlerMove s (s.answer .pollPending)
  | wanting (hpc : s.handler = .polled none) (hfinished : s.finished = false) :
      HandlerMove s { s with handler := .demanding }
  | relieve (bytes : Bytes) (hpc : s.handler = .polled (some (.data bytes))) :
      HandlerMove s { s with
        buffered := s.buffered - bytes.length
        handler := .relieved bytes
          (decide (highWater < s.buffered ∧ s.buffered - bytes.length ≤ highWater)) }
  | ended (hpc : s.handler = .polled (some .ended)) :
      HandlerMove s ({ s with chunks := .ended :: s.chunks }.answer .pollEnd)
  | failed (failure : Failure) (hpc : s.handler = .polled (some (.failed failure))) :
      HandlerMove s ({ s with chunks := .failed failure :: s.chunks }.answer
        (.pollFailed (describe failure).1 (describe failure).2))
  | demand (hpc : s.handler = .demanding) :
      HandlerMove s ({ s with permit := true }.answer .pollPending)
  | data (bytes : Bytes) (crossed : Bool) (hpc : s.handler = .relieved bytes crossed) :
      HandlerMove s ({ s with permit := s.permit || crossed, polled := s.polled ++ bytes }.answer
        (.pollData bytes))
  | take (hpc : s.handler = .taking) : HandlerMove s s.takeStep
  | install (callback : κ) (hpc : s.handler = .collecting callback) :
      HandlerMove s { s with waiters := s.waiters ++ [callback], handler := .collectDemand }
  | collectDemand (hpc : s.handler = .collectDemand) :
      HandlerMove s { s with permit := true, handler := .collectCheck }
  | collectWake (hpc : s.handler = .collectCheck) (hfinished : s.finished = true) :
      HandlerMove s { s with woken := s.woken ++ s.waiters, waiters := [], handler := .idle }
  | collectWait (hpc : s.handler = .collectCheck) (hfinished : s.finished = false) :
      HandlerMove s { s with handler := .idle }
  | notifyWake (hpc : s.handler = .notifying) (hchunks : s.chunks ≠ []) :
      HandlerMove s { s with woken := s.woken ++ s.waiters, waiters := [], handler := .idle }
  | notifyWait (hpc : s.handler = .notifying) (hchunks : s.chunks = []) :
      HandlerMove s { s with handler := .idle }

/-- A step of a body. -/
inductive BodyMove (args : PumpArgs) (s : BodyState κ) : BodyAction κ → BodyState κ → Prop
  | pump {s' : BodyState κ} (move : PumpMove args s s') : BodyMove args s .pump s'
  | timeout (hidle : args.idle = true) (hpc : s.pump = .reading) :
      BodyMove args s .timeout { s with pump := .pushing (.failed .idle) }
  | dropUnpolled (hpc : s.pump = .unpolled) : BodyMove args s .drop { s with pump := .gone }
  | drop (hpc : s.pump = .waiting ∨ s.pump = .throttled ∨ s.pump = .reading ∨
        ∃ refusal, s.pump = .lingering refusal) :
      BodyMove args s .drop { s with pump := .returned }
  | discard : BodyMove args s .discard { s with discard := true, permit := true }
  | poll (hidle : s.handler = .idle) :
      BodyMove args s .poll { s with chunks := s.chunks.tail, handler := .polled s.chunks.head? }
  | take (hidle : s.handler = .idle) (hfinished : s.finished = true) :
      BodyMove args s .take { s with handler := .taking }
  | takePending (hidle : s.handler = .idle) (hfinished : s.finished = false) :
      BodyMove args s .take (s.answer .takePending)
  | collect (callback : κ) (hidle : s.handler = .idle) :
      BodyMove args s (.collect callback) { s with whole := true, handler := .collecting callback }
  | notify (callback : κ) (hidle : s.handler = .idle) :
      BodyMove args s (.notify callback)
        { s with waiters := s.waiters ++ [callback], handler := .notifying }
  | handler {s' : BodyState κ} (move : HandlerMove s s') : BodyMove args s .handler s'

section

variable {args : PumpArgs} {s s' : BodyState κ} {a : BodyAction κ}

/-- The next frame, or the end of the body. -/
lemma pumpMove_of_frameStep (hpc : s.pump = .reading) : PumpMove args s (s.frameStep args) := by
  unfold BodyState.frameStep
  split
  case h_1 hframes => exact .ended hpc hframes
  case h_2 rest hframes => exact .broken rest hpc hframes
  case h_3 rest hframes => exact .trailers rest hpc hframes
  case h_4 bytes rest hframes =>
    dsimp only
    split
    case isTrue hover => exact .tooLarge bytes rest hpc hframes hover
    case isFalse hwithin =>
      rw [Nat.not_lt] at hwithin
      split
      case isTrue hempty =>
        obtain rfl : bytes = [] := by simpa using hempty
        exact .empty rest hpc hframes hwithin
      case isFalse hbytes =>
        refine .data bytes rest hpc hframes hwithin ?_
        simpa using hbytes

/-- What a step of the pump does. -/
theorem pumpMove_of_step (hs : s.pumpStep args = some s') : PumpMove args s s' := by
  unfold BodyState.pumpStep at hs
  split at hs
  case h_1 hpc =>
    rw [← Option.some.inj hs]
    exact .begin hpc
  case h_2 hpc =>
    obtain ⟨hpermit, rfl⟩ := of_guard hs
    exact .demanded hpc hpermit
  case h_3 hpc =>
    split at hs
    case isTrue hdiscard =>
      rw [← Option.some.inj hs]
      exact .discarded hpc hdiscard
    case isFalse hdiscard =>
      rw [Bool.not_eq_true] at hdiscard
      split at hs
      case isTrue hover =>
        rw [← Option.some.inj hs]
        exact .declared hpc hdiscard hover
      case isFalse hover =>
        rw [← Option.some.inj hs]
        exact .enter hpc hdiscard (by simpa using hover)
  case h_4 hpc =>
    rw [← Option.some.inj hs]
    exact .lingered hpc
  case h_5 failure hpc =>
    rw [← Option.some.inj hs]
    exact .refuse failure hpc
  case h_6 hpc =>
    rw [← Option.some.inj hs]
    split
    case isTrue hbuffered => exact .above hpc hbuffered
    case isFalse hbuffered => exact .below hpc (Nat.le_of_not_lt hbuffered)
  case h_7 hpc =>
    rw [← Option.some.inj hs]
    split
    case isTrue hwhole => exact .whole hpc hwhole
    case isFalse hwhole => exact .notWhole hpc (by simpa using hwhole)
  case h_8 hpc =>
    rw [← Option.some.inj hs]
    split
    case isTrue hdiscard => exact .discarding hpc hdiscard
    case isFalse hdiscard => exact .throttle hpc (by simpa using hdiscard)
  case h_9 hpc =>
    obtain ⟨hpermit, rfl⟩ := of_guard hs
    exact .resume hpc hpermit
  case h_10 hpc =>
    rw [← Option.some.inj hs]
    split
    case isTrue hdiscard => exact .stop hpc hdiscard
    case isFalse hdiscard => exact .read hpc (by simpa using hdiscard)
  case h_11 hpc =>
    rw [← Option.some.inj hs]
    exact pumpMove_of_frameStep hpc
  case h_12 chunk hpc =>
    rw [← Option.some.inj hs]
    match chunk with
    | .data bytes => exact .push bytes hpc
    | .ended => exact .finish .ended hpc trivial
    | .failed failure => exact .finish (.failed failure) hpc trivial
  case h_13 chunk hpc =>
    rw [← Option.some.inj hs]
    exact .append chunk hpc
  case h_14 chunk hpc =>
    rw [← Option.some.inj hs]
    by_cases hquiet : s.whole = true ∧ s.finished = false
    · rw [if_pos (by simpa using hquiet)]
      exact .quiet chunk hpc hquiet.1 hquiet.2
    · rw [if_neg (by simpa using hquiet)]
      refine .announce chunk hpc ?_
      rw [not_and_or, Bool.not_eq_true, Bool.not_eq_false] at hquiet
      exact hquiet
  case h_15 chunk hpc =>
    rw [← Option.some.inj hs]
    exact .wake chunk hpc
  case h_16 hpc =>
    rw [← Option.some.inj hs]
    split
    case isTrue hfinished => exact .gone hpc hfinished
    case isFalse hfinished => exact .abandon hpc (by simpa using hfinished)
  case h_17 => cases hs

/-- What a step of the handler inside a call does. -/
theorem handlerMove_of_step (hs : s.handlerStep = some s') : HandlerMove s s' := by
  unfold BodyState.handlerStep at hs
  split at hs
  case h_1 => cases hs
  case h_2 chunk hpc =>
    rw [← Option.some.inj hs]
    match chunk with
    | none =>
      unfold BodyState.pollStep
      dsimp only
      split
      case isTrue hfinished => exact .nothing hpc hfinished
      case isFalse hfinished => exact .wanting hpc (by simpa using hfinished)
    | some (.data bytes) => exact .relieve bytes hpc
    | some .ended => exact .ended hpc
    | some (.failed failure) => exact .failed failure hpc
  case h_3 hpc =>
    rw [← Option.some.inj hs]
    exact .demand hpc
  case h_4 bytes crossed hpc =>
    rw [← Option.some.inj hs]
    exact .data bytes crossed hpc
  case h_5 hpc =>
    rw [← Option.some.inj hs]
    exact .take hpc
  case h_6 callback hpc =>
    rw [← Option.some.inj hs]
    exact .install callback hpc
  case h_7 hpc =>
    rw [← Option.some.inj hs]
    exact .collectDemand hpc
  case h_8 hpc =>
    rw [← Option.some.inj hs]
    by_cases hfinished : s.finished = true
    · rw [if_pos hfinished]
      exact .collectWake hpc hfinished
    · rw [if_neg hfinished]
      exact .collectWait hpc (by simpa using hfinished)
  case h_9 hpc =>
    rw [← Option.some.inj hs]
    by_cases hchunks : s.chunks = []
    · rw [if_pos (by simpa using hchunks)]
      exact .notifyWait hpc hchunks
    · rw [if_neg (by simpa using hchunks)]
      exact .notifyWake hpc hchunks

/-- What a step of a body does. -/
theorem bodyMove_of_step (hs : s.step args a = some s') : BodyMove args s a s' := by
  cases a with
  | pump => exact .pump (pumpMove_of_step hs)
  | timeout =>
    obtain ⟨⟨hidle, hpc⟩, rfl⟩ := of_guard hs
    exact .timeout hidle hpc
  | drop =>
    simp only [BodyState.step, BodyState.dropStep] at hs
    split at hs
    case h_1 hpc =>
      rw [← Option.some.inj hs]
      exact .dropUnpolled hpc
    case h_2 hpc =>
      rw [← Option.some.inj hs]
      exact .drop (.inl hpc)
    case h_3 hpc =>
      rw [← Option.some.inj hs]
      exact .drop (.inr (.inl hpc))
    case h_4 hpc =>
      rw [← Option.some.inj hs]
      exact .drop (.inr (.inr (.inl hpc)))
    case h_5 refusal hpc =>
      rw [← Option.some.inj hs]
      exact .drop (.inr (.inr (.inr ⟨refusal, hpc⟩)))
    case h_6 => cases hs
  | discard =>
    rw [← Option.some.inj hs]
    exact .discard
  | poll =>
    obtain ⟨hidle, rfl⟩ := of_guard hs
    exact .poll (handler_eq_idle hidle)
  | take =>
    obtain ⟨hidle, rfl⟩ := of_guard hs
    split
    case isTrue hfinished => exact .take (handler_eq_idle hidle) hfinished
    case isFalse hfinished =>
      exact .takePending (handler_eq_idle hidle) (by simpa using hfinished)
  | collect callback =>
    obtain ⟨hidle, rfl⟩ := of_guard hs
    exact .collect callback (handler_eq_idle hidle)
  | notify callback =>
    obtain ⟨hidle, rfl⟩ := of_guard hs
    exact .notify callback (handler_eq_idle hidle)
  | handler => exact .handler (handlerMove_of_step hs)

/-- The pump is gone only once it has told how the body ended, or was never polled. -/
lemma BodyMove.gone (move : BodyMove args s a s')
    (hgone : s'.pump = .gone) :
    s'.finished = true ∨ (s.pump = .gone ∧ s'.finished = s.finished) ∨
      (a = .drop ∧ s.pump = .unpolled) := by
  cases move with
  | pump move =>
    cases move
    case gone hfinished => exact .inl hfinished
    case quiet chunk _ _ _ | wake chunk _ => cases chunk <;> cases hgone
    all_goals cases hgone
  | handler move =>
    obtain ⟨hpump, hfinished⟩ : s'.pump = s.pump ∧ s'.finished = s.finished := by
      cases move <;> exact ⟨rfl, rfl⟩
    exact .inr (.inl ⟨hpump ▸ hgone, hfinished⟩)
  | dropUnpolled hpc => exact .inr (.inr ⟨rfl, hpc⟩)
  | timeout | drop => cases hgone
  | discard | poll | take | takePending | collect | notify => exact .inr (.inl ⟨hgone, rfl⟩)

/-- A pump that was polled stays so, and one that is gone stays gone. -/
lemma BodyMove.pump_kept (move : BodyMove args s a s') :
    (s'.pump = .unpolled → s.pump = .unpolled) ∧ (s.pump = .gone → s'.pump = .gone) := by
  cases move with
  | pump move =>
    cases move
    case quiet chunk hpc _ _ | wake chunk hpc =>
      cases chunk <;> exact ⟨nofun, fun h => nomatch hpc.symm.trans h⟩
    all_goals
      refine ⟨nofun, fun h => ?_⟩
      simp_all
  | handler move =>
    have hpump : s'.pump = s.pump := by cases move <;> rfl
    rw [hpump]
    exact ⟨id, id⟩
  | timeout _ hpc | dropUnpolled hpc => exact ⟨nofun, fun h => nomatch hpc.symm.trans h⟩
  | drop hpc =>
    refine ⟨nofun, fun h => ?_⟩
    rcases hpc with hpc | hpc | hpc | ⟨refusal, hpc⟩ <;> cases hpc.symm.trans h
  | discard | poll | take | takePending | collect | notify => exact ⟨id, id⟩

end

/-! ## The marker of a body -/

/-- Where the marker of a body is, in any run. -/
structure Marked (s : BodyState κ) : Prop where
  markerOk : s.pump.MarkerOk s.marker
  finished : s.finished = s.marker.isSome
  queued : ∀ m, s.marker = some m → m.IsMarker ∧ (s.pump = .appending m ∨ m ∈ s.queueOf)
  only : ∀ c ∈ s.queueOf, c.IsMarker → s.marker = some c
  taking : s.handler = .taking → s.finished = true

section Marked

variable {args : PumpArgs} {s s' : BodyState κ} {a : BodyAction κ}

lemma marked_new (args : PumpArgs) : Marked (BodyState.new args : BodyState κ) where
  markerOk := rfl
  finished := rfl
  queued m hm := by cases hm
  only c hc := by simp [BodyState.new, BodyState.queueOf, BodyState.inHand] at hc
  taking h := by cases h

/-- The pump moves on, and pushes nothing. -/
lemma Marked.move (h : Marked s) (happending : ∀ m, s.pump ≠ .appending m)
    (hok : s'.pump.MarkerOk s.marker) (hmarker : s'.marker = s.marker)
    (hfinished : s'.finished = s.finished) (hchunks : s'.chunks = s.chunks)
    (hhandler : s'.handler = s.handler) : Marked s' := by
  have hqueue : s'.queueOf = s.queueOf := by
    unfold BodyState.queueOf BodyState.inHand
    rw [hchunks, hhandler]
  refine ⟨by rw [hmarker]; exact hok, by rw [hfinished, hmarker]; exact h.finished, ?_, ?_, ?_⟩
  · intro m hm
    rw [hmarker] at hm
    rw [hqueue]
    exact ⟨(h.queued m hm).1, .inr ((h.queued m hm).2.resolve_left (happending m))⟩
  · rw [hqueue, hmarker]
    exact h.only
  · rw [hhandler, hfinished]
    exact h.taking

/-- After a push the pump goes on with its loop, or is done. -/
lemma markerOk_afterPush {marker : Option Chunk} {chunk : Chunk}
    (h : (PumpPc.announcing chunk).MarkerOk marker) :
    (BodyState.afterPush chunk).MarkerOk marker := by
  cases chunk with
  | data bytes => exact h
  | ended | failed failure => trivial

/-- The marker of a push that is under way. -/
lemma Marked.marker_of_appending (h : Marked s) {chunk : Chunk} (hpc : s.pump = .appending chunk)
    (hmarker : chunk.IsMarker) : s.marker = some chunk := by
  have hok := h.markerOk
  rw [hpc] at hok
  cases chunk with
  | data bytes => exact absurd hmarker id
  | ended | failed failure => exact hok

/-- A step of the pump. -/
lemma Marked.pumpMove (h : Marked s) (move : PumpMove args s s') : Marked s' := by
  have hok := h.markerOk
  cases move
  case finish m hpc hmarker =>
    have hnone : s.marker = none := by simpa [PumpPc.MarkerOk, hpc] using hok
    refine ⟨?_, rfl, ?_, ?_, fun _ => rfl⟩
    · cases m with
      | data bytes => exact absurd hmarker id
      | ended | failed failure => rfl
    · intro m' hm'
      rw [← Option.some.inj hm']
      exact ⟨hmarker, .inl rfl⟩
    · intro c hc hcm
      rw [h.only c hc hcm] at hnone
      cases hnone
  case append chunk hpc =>
    have hqueue : ({ s with
        chunks := s.chunks ++ [chunk], sent := s.sent ++ dataOf [chunk]
        pump := .announcing chunk } : BodyState κ).queueOf = s.queueOf ++ [chunk] := by
      simp [BodyState.queueOf, BodyState.inHand]
    refine ⟨?_, h.finished, ?_, ?_, h.taking⟩
    · rw [hpc] at hok
      cases chunk <;> exact hok
    · intro m hm
      rw [hqueue]
      refine ⟨(h.queued m hm).1, .inr (List.mem_append.mpr ?_)⟩
      rcases (h.queued m hm).2 with happ | hmem
      · rw [hpc] at happ
        exact .inr (List.mem_singleton.mpr (PumpPc.appending.inj happ).symm)
      · exact .inl hmem
    · rw [hqueue]
      intro c hc hcm
      rcases List.mem_append.mp hc with hc | hc
      · exact h.only c hc hcm
      · rw [List.mem_singleton.mp hc] at hcm ⊢
        exact h.marker_of_appending hpc hcm
  case announce chunk hpc _ =>
    refine h.move (by simp [hpc]) ?_ rfl rfl rfl rfl
    rw [hpc] at hok
    cases chunk <;> exact hok
  case quiet chunk hpc _ _ =>
    refine h.move (by simp [hpc]) (markerOk_afterPush ?_) rfl rfl rfl rfl
    rw [hpc] at hok
    exact hok
  case wake chunk hpc =>
    refine h.move (by simp [hpc]) (markerOk_afterPush ?_) rfl rfl rfl rfl
    rw [hpc] at hok
    cases chunk <;> exact hok
  case gone hpc _ => exact h.move (by simp [hpc]) trivial rfl rfl rfl rfl
  case lingered hpc => exact h.move (by simp [hpc]) trivial rfl rfl rfl rfl
  case abandon hpc hfinished =>
    have hnone : s.marker = none := by simpa [h.finished] using hfinished
    exact h.move (by simp [hpc]) hnone rfl rfl rfl rfl
  case begin hpc | discarded hpc _ | declared hpc _ _ | enter hpc _ _ | refuse hpc | demanded hpc _ |
      above hpc _ | below hpc _ | whole hpc _ | notWhole hpc _ | discarding hpc _ | throttle hpc _ |
      resume hpc _ | stop hpc _ | read hpc _ | ended hpc _ | broken hpc _ | trailers hpc _ |
      tooLarge hpc _ _ | empty hpc _ _ | data hpc _ _ _ | push hpc =>
    have hnone : s.marker = none := by simpa [PumpPc.MarkerOk, hpc] using hok
    exact h.move (by simp [hpc]) hnone rfl rfl rfl rfl

/-- `take` leaves the markers it finds. -/
lemma mem_takeLoop {m : Chunk} {chunks : List Chunk} (honly : ∀ c ∈ chunks, c.IsMarker → c = m)
    (hm : m.IsMarker) (hmem : m ∈ chunks) (whole : Bytes) :
    m ∈ (BodyState.takeLoop chunks whole).2 := by
  induction chunks generalizing whole with
  | nil => cases hmem
  | cons c chunks ih =>
    have hrest : ∀ c ∈ chunks, c.IsMarker → c = m := fun c hc => honly c (List.mem_cons_of_mem _ hc)
    cases c with
    | data bytes =>
      rw [BodyState.takeLoop]
      refine ih hrest ?_ _
      rcases List.mem_cons.mp hmem with rfl | hmem
      · exact absurd hm id
      · exact hmem
    | ended | failed failure =>
      rw [BodyState.takeLoop, ← honly _ List.mem_cons_self trivial]
      exact List.mem_cons_self

/-- And it leaves nothing that was not there. -/
lemma takeLoop_subset (chunks : List Chunk) (whole : Bytes) :
    ∀ c ∈ (BodyState.takeLoop chunks whole).2, c ∈ chunks := by
  induction chunks generalizing whole with
  | nil => exact fun c hc => hc
  | cons c chunks ih =>
    cases c with
    | data bytes => exact fun c hc => List.mem_cons_of_mem _ (ih _ c hc)
    | ended | failed failure => exact fun c hc => hc

/-- The handler's side moves, and leaves the markers of the queue as they were. -/
lemma Marked.handler (h : Marked s) (hpump : s'.pump = s.pump) (hmarker : s'.marker = s.marker)
    (hfinished : s'.finished = s.finished)
    (hqueue : ∀ c : Chunk, c.IsMarker → (c ∈ s'.queueOf ↔ c ∈ s.queueOf))
    (htaking : s'.handler = .taking → s.finished = true) : Marked s' where
  markerOk := by
    rw [hpump, hmarker]
    exact h.markerOk
  finished := by
    rw [hfinished, hmarker]
    exact h.finished
  queued m hm := by
    rw [hmarker] at hm
    obtain ⟨hm', hplace⟩ := h.queued m hm
    rw [hpump, hqueue m hm']
    exact ⟨hm', hplace⟩
  only c hc hcm := by
    rw [hmarker]
    exact h.only c ((hqueue c hcm).mp hc) hcm
  taking ht := by
    rw [hfinished]
    exact htaking ht

/-- A step of the handler inside a call. -/
lemma Marked.handlerMove (h : Marked s) (move : HandlerMove s s') : Marked s' := by
  cases move
  case take hpc =>
    refine h.handler rfl rfl rfl ?_ (by rintro ⟨⟩)
    intro c hcm
    have hqueue : s.queueOf = s.chunks := by simp [BodyState.queueOf, BodyState.inHand, hpc]
    change c ∈ (BodyState.takeLoop s.chunks []).2 ↔ c ∈ s.queueOf
    rw [hqueue]
    constructor
    · exact takeLoop_subset _ _ c
    · intro hc
      refine mem_takeLoop ?_ hcm hc []
      intro d hd hdm
      have hdmarker := h.only d (hqueue ▸ hd) hdm
      have hcmarker := h.only c (hqueue ▸ hc) hcm
      exact Option.some.inj (hdmarker.symm.trans hcmarker)
  case relieve bytes hpc =>
    refine h.handler rfl rfl rfl ?_ (by rintro ⟨⟩)
    intro c hcm
    have hne : c ≠ .data bytes := by
      rintro rfl
      exact hcm
    simp [BodyState.queueOf, BodyState.inHand, hpc, hne]
  case nothing hpc _ | wanting hpc _ | ended hpc | failed hpc | demand hpc | data hpc | install hpc |
      collectDemand hpc | collectWake hpc _ | collectWait hpc _ | notifyWake hpc _ | notifyWait hpc _ =>
    refine h.handler rfl rfl rfl ?_ (by rintro ⟨⟩)
    intro c hcm
    simp [BodyState.queueOf, BodyState.inHand, BodyState.answer, hpc]

/-- A step of a body. -/
lemma Marked.step (h : Marked s) (hs : s.step args a = some s') : Marked s' := by
  cases bodyMove_of_step hs with
  | pump move => exact h.pumpMove move
  | handler move => exact h.handlerMove move
  | timeout _ hpc =>
    have hnone : s.marker = none := by simpa [PumpPc.MarkerOk, hpc] using h.markerOk
    exact h.move (by simp [hpc]) hnone rfl rfl rfl rfl
  | dropUnpolled hpc => exact h.move (by simp [hpc]) trivial rfl rfl rfl rfl
  | drop hpc =>
    refine h.move ?_ trivial rfl rfl rfl rfl
    rcases hpc with hpc | hpc | hpc | ⟨refusal, hpc⟩ <;> simp [hpc]
  | discard => exact ⟨h.markerOk, h.finished, h.queued, h.only, h.taking⟩
  | poll hidle =>
    refine h.handler rfl rfl rfl ?_ (by rintro ⟨⟩)
    intro c hcm
    cases hchunks : s.chunks <;> simp [BodyState.queueOf, BodyState.inHand, hidle, hchunks]
  | take hidle hfinished =>
    refine h.handler rfl rfl rfl ?_ (fun _ => hfinished)
    intro c hcm
    simp [BodyState.queueOf, BodyState.inHand, hidle]
  | takePending hidle _ | collect callback hidle | notify callback hidle =>
    refine h.handler rfl rfl rfl ?_ (by rintro ⟨⟩)
    intro c hcm
    simp [BodyState.queueOf, BodyState.inHand, BodyState.answer, hidle]

/-- Once the pump is done with a finished body, the marker is in the queue. -/
lemma Marked.mem_queueOf (marked : Marked s) (hfinished : s.finished = true)
    (hpc : s.pump = .returned ∨ s.pump = .gone) : ∃ m : Chunk, m.IsMarker ∧ m ∈ s.queueOf := by
  cases hm : s.marker with
  | none =>
    rw [marked.finished, hm] at hfinished
    cases hfinished
  | some m =>
    obtain ⟨hmarker, happending | hmem⟩ := marked.queued m hm
    · rw [happending] at hpc
      simp at hpc
    · exact ⟨m, hmarker, hmem⟩

end Marked

end Oxbrook
