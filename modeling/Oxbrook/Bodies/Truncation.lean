import Oxbrook.Bodies.Pump

/-!
# When a truncated body is presented as a complete one

`push` sets `finished` before it appends the marker, and `take` looks at `finished` before it takes
the lock.  A `take` that runs its pop loop between the two finds a finished body without a marker,
which the source answers as the end.  For a body that ended this is right, since all its data is in
the queue by then; for a body that failed it is a truncated body presented as complete
(`take_presents_failed_body`).

That is the only way it can happen: in a run in which no `take` pops between the store of `finished`
and the append of a failure marker, an END answer means that the marker is `End` and that the handler
has been given the whole body (`end_only_for_complete_body`).
-/

namespace Oxbrook

open StepMachine

variable {κ : Type*}

/-- A chunk that ends the body. -/
def Chunk.IsMarker : Chunk → Prop
  | .data _ => False
  | _ => True

namespace BodyState

/-- The chunk `poll` has popped and not yet dealt with. -/
def inHand (s : BodyState κ) : List Chunk :=
  match s.handler with
  | .polled (some chunk) => [chunk]
  | _ => []

/-- The data `poll` has taken out and is about to return. -/
def returning (s : BodyState κ) : Bytes :=
  match s.handler with
  | .relieved bytes _ => bytes
  | _ => []

/-- The queue, with the chunk in the handler's hand still in front. -/
def queueOf (s : BodyState κ) : List Chunk := s.inHand ++ s.chunks

/-- The data the pump has read and not yet appended. -/
def carried (s : BodyState κ) : Bytes :=
  match s.pump with
  | .pushing (.data bytes) | .appending (.data bytes) => bytes
  | _ => []

/-- Some answer told the handler that the body is complete. -/
def SaidEnd (s : BodyState κ) : Prop := ∃ a ∈ s.answers, a.IsEnd

end BodyState

/-- The marker the pump has started to push agrees with where the pump is. -/
def PumpPc.MarkerOk (marker : Option Chunk) : PumpPc → Prop
  | .appending (.data _) | .announcing (.data _) | .waking (.data _) => marker = none
  | .appending chunk | .announcing chunk | .waking chunk => marker = some chunk
  | .returned | .gone => True
  | _ => marker = none

/-- The pump has neither refused the body nor begun to push its marker. -/
def PumpPc.InLoop : PumpPc → Prop
  | .lingering _ | .returned | .gone => False
  | .pushing chunk | .appending chunk | .announcing chunk | .waking chunk => ¬ chunk.IsMarker
  | _ => True

/-- The invariant of a body. -/
structure BodyInv (args : PumpArgs) (s : BodyState κ) : Prop where
  markerOk : s.pump.MarkerOk s.marker
  unmarked : s.marker = none → s.finished = false ∧ ∀ c ∈ s.queueOf, ¬ c.IsMarker
  -- a marker is on its way to the queue, or the last chunk of it
  marked : ∀ m, s.marker = some m → s.finished = true ∧ m.IsMarker ∧
    if s.pump = .appending m then ∀ c ∈ s.queueOf, ¬ c.IsMarker
    else ∃ pieces, s.queueOf = pieces ++ [m] ∧ ∀ c ∈ pieces, ¬ c.IsMarker
  -- what the pump has appended is what it has read
  read : s.pump.InLoop → ∃ consumed, args.frames = consumed ++ s.frames ∧
    Frame.error ∉ consumed ∧ bodyOf consumed = s.sent ++ s.carried
  complete : s.pump = .pushing .ended ∨ s.marker = some .ended →
    s.sent = bodyOf args.frames ∧ Frame.error ∉ args.frames
  -- unless the body failed, everything appended is queued or has been given out
  accounted : (∀ failure, s.marker ≠ some (.failed failure)) →
    (s.taken = [] ∧ s.polled ++ s.returning ++ dataOf s.queueOf = s.sent) ∨
    (s.marker = some .ended ∧ s.returning = [] ∧ dataOf s.queueOf = [] ∧
      s.polled ++ s.taken = s.sent)
  saidEnd : s.SaidEnd → s.marker = some .ended

/-! ## The queue and the pop loop of `take` -/

/-- The data of two stretches of the queue. -/
@[simp] lemma dataOf_append (l₁ l₂ : List Chunk) : dataOf (l₁ ++ l₂) = dataOf l₁ ++ dataOf l₂ := by
  simp [dataOf]

/-- The data of an empty queue. -/
@[simp] lemma dataOf_nil : dataOf [] = [] := rfl

/-- The data of a queue that starts with data. -/
@[simp] lemma dataOf_cons_data (bytes : Bytes) (l : List Chunk) :
    dataOf (.data bytes :: l) = bytes ++ dataOf l := by
  simp [dataOf]

/-- A marker has no data. -/
lemma dataOf_cons_of_isMarker {m : Chunk} (hm : m.IsMarker) (l : List Chunk) :
    dataOf (m :: l) = dataOf l := by
  cases m <;> simp_all [dataOf, Chunk.IsMarker]

/-- The frames read so far and one more. -/
lemma bodyOf_append (l₁ l₂ : List Frame) : bodyOf (l₁ ++ l₂) = bodyOf l₁ ++ bodyOf l₂ := by
  simp [bodyOf]

/-- The pop loop runs through data and collects it. -/
lemma takeLoop_append {pieces : List Chunk} (h : ∀ c ∈ pieces, ¬ c.IsMarker) (rest : List Chunk)
    (whole : Bytes) : BodyState.takeLoop (pieces ++ rest) whole =
      BodyState.takeLoop rest (whole ++ dataOf pieces) := by
  induction pieces generalizing whole with
  | nil => simp
  | cons c pieces ih =>
    have hpieces : ∀ c ∈ pieces, ¬ c.IsMarker := fun c hc => h c (List.mem_cons_of_mem _ hc)
    cases c with
    | data bytes =>
      rw [List.cons_append, BodyState.takeLoop, ih hpieces, dataOf_cons_data, List.append_assoc]
    | ended => exact absurd trivial (h .ended (by simp))
    | failed failure => exact absurd trivial (h (.failed failure) (by simp))

/-- Without a marker the pop loop answers END with what is there: the branch the source calls
impossible. -/
lemma takeLoop_of_no_marker {pieces : List Chunk} (h : ∀ c ∈ pieces, ¬ c.IsMarker) :
    BodyState.takeLoop pieces [] = (.takeEnd (dataOf pieces), []) := by
  have hloop := takeLoop_append h [] []
  rwa [List.append_nil, List.nil_append] at hloop

/-- `take` is past its load of `finished`. -/
def HandlerPc.isTaking : HandlerPc κ → Bool
  | .taking => true
  | _ => false

/-- `push` has stored `finished` for a failure and not yet appended its marker. -/
def PumpPc.isFailing : PumpPc → Bool
  | .appending (.failed _) => true
  | _ => false

/-- No `take` pops between the store of `finished` and the append of a failure marker. -/
def NoTakeBeforeFailure (s : BodyState κ) : BodyAction κ → Prop
  | .handler => ¬ (s.handler.isTaking = true ∧ s.pump.isFailing = true)
  | _ => True

instance (s : BodyState κ) : (a : BodyAction κ) → Decidable (NoTakeBeforeFailure s a)
  | .handler => inferInstanceAs (Decidable (¬ (_ ∧ _)))
  | .pump | .timeout | .drop | .discard | .poll | .take | .collect _ | .notify _ => .isTrue trivial

/-- A `take` that pops meets no failure whose marker is still on its way. -/
lemma NoTakeBeforeFailure.pump_ne {s : BodyState κ} (h : NoTakeBeforeFailure s .handler)
    (hpc : s.handler = .taking) (failure : Failure) : s.pump ≠ .appending (.failed failure) :=
  fun hpump => h ⟨by rw [hpc]; rfl, by rw [hpump]; rfl⟩

/-! ## The pump keeps the invariant -/

section Pump

variable {args : PumpArgs} {s s' : BodyState κ}

/-- Before the marker, a step that only moves the pump to a place where it carries nothing new. -/
lemma BodyInv.move (h : BodyInv args s) (hm : s.marker = none) {pc : PumpPc} (permit : Bool)
    (hpc : pc.MarkerOk none) (hloop : pc.InLoop → s.pump.InLoop)
    (hcarried : pc.InLoop → { s with permit := permit, pump := pc }.carried = s.carried)
    (hended : pc ≠ .pushing .ended) : BodyInv args { s with permit := permit, pump := pc } where
  markerOk := hm ▸ hpc
  unmarked := h.unmarked
  marked m hsome := absurd (hm.symm.trans hsome) (by simp)
  read hin := by
    obtain ⟨consumed, hframes, herror, hbody⟩ := h.read (hloop hin)
    exact ⟨consumed, hframes, herror, by rw [hbody, hcarried hin]⟩
  complete hc := by
    rcases hc with hc | hc
    · exact absurd hc hended
    · exact absurd (hm.symm.trans hc) (by simp)
  accounted := h.accounted
  saidEnd := h.saidEnd

/-- Once the marker is in the queue, a step that only moves the pump on and hands over
callbacks. -/
lemma BodyInv.settle (h : BodyInv args s) {m : Chunk} (hm : s.marker = some m)
    (hnot : s.pump ≠ .appending m) {pc : PumpPc} (waiters woken : List κ)
    (hpc : pc.MarkerOk (some m)) (hloop : ¬ pc.InLoop) (hpc' : pc ≠ .appending m) :
    BodyInv args { s with waiters := waiters, woken := woken, pump := pc } where
  markerOk := hm ▸ hpc
  unmarked hnone := absurd (hm.symm.trans hnone) (by simp)
  marked m' hm' := by
    obtain rfl : m = m' := Option.some.inj (hm.symm.trans hm')
    obtain ⟨hf, hmark, hqueue⟩ := h.marked m hm
    rw [if_neg hnot] at hqueue
    refine ⟨hf, hmark, ?_⟩
    rw [if_neg hpc']
    exact hqueue
  read hin := absurd hin hloop
  complete hc := by
    rcases hc with hc | hc
    · obtain rfl : pc = .pushing .ended := hc
      exact absurd hpc (by simp [PumpPc.MarkerOk])
    · exact h.complete (Or.inr hc)
  accounted := h.accounted
  saidEnd := h.saidEnd

/-- The next frame, or the end of the body, is in the pump's hand. -/
lemma bodyInv_frameStep (h : BodyInv args s) (hpump : s.pump = .reading) :
    BodyInv args (s.frameStep args) := by
  have hm : s.marker = none := by simpa [PumpPc.MarkerOk, hpump] using h.markerOk
  obtain ⟨consumed, hframes, herror, hbody⟩ := h.read (by simp [hpump, PumpPc.InLoop])
  have hsent : bodyOf consumed = s.sent := by simpa [BodyState.carried, hpump] using hbody
  -- the invariant once a frame that is no error has been consumed
  have hnext : ∀ (frame : Frame) (rest : List Frame) (total : ℕ) (pc : PumpPc),
      s.frames = frame :: rest → frame ≠ .error → pc.MarkerOk none → pc ≠ .pushing .ended →
      (pc.InLoop → bodyOf [frame] =
        { s with frames := rest, total := total, pump := pc }.carried) →
      BodyInv args { s with frames := rest, total := total, pump := pc } := by
    intro frame rest total pc hcons hne hpc hended hcarried
    refine ⟨hm ▸ hpc, h.unmarked, fun m hsome => absurd (hm.symm.trans hsome) (by simp),
      fun hin => ⟨consumed ++ [frame], by simp [hframes, hcons], ?_, ?_⟩, fun hc => ?_,
      h.accounted, h.saidEnd⟩
    · simpa [herror] using fun he => hne he.symm
    · rw [bodyOf_append, hsent, hcarried hin]
    · rcases hc with hc | hc
      · exact absurd hc hended
      · exact absurd (hm.symm.trans hc) (by simp)
  unfold BodyState.frameStep
  split
  case h_1 hnil =>
    have hall : consumed = args.frames := by simp [hframes, hnil]
    refine ⟨hm, h.unmarked, fun m hsome => absurd (hm.symm.trans hsome) (by simp),
      fun hin => absurd trivial hin, fun _ => ⟨?_, hall ▸ herror⟩, h.accounted, h.saidEnd⟩
    rw [← hall]
    exact hsent.symm
  case h_2 =>
    exact h.move hm s.permit rfl (by simp [PumpPc.InLoop, Chunk.IsMarker]) (by simp [PumpPc.InLoop, Chunk.IsMarker]) (by simp)
  case h_3 rest hcons =>
    exact hnext .trailers rest s.total .loadBuffered hcons (by simp) rfl (by simp)
      (by simp [bodyOf, BodyState.carried])
  case h_4 bytes rest hcons =>
    dsimp only
    split
    · exact hnext (.data bytes) rest _ _ hcons (by simp) rfl (by simp) (by simp [PumpPc.InLoop])
    · split
      · rename_i hempty
        have hnil : bytes = [] := by simpa using hempty
        exact hnext (.data bytes) rest _ _ hcons (by simp) rfl (by simp)
          (by simp [bodyOf, BodyState.carried, hnil])
      · exact hnext (.data bytes) rest _ _ hcons (by simp) rfl (by simp)
          (by simp [bodyOf, BodyState.carried])

/-- The first step of `push`. -/
lemma bodyInv_pushStep (h : BodyInv args s) {chunk : Chunk} (hpump : s.pump = .pushing chunk) :
    BodyInv args (s.pushStep chunk) := by
  have hm : s.marker = none := by simpa [PumpPc.MarkerOk, hpump] using h.markerOk
  obtain ⟨-, hdata⟩ := h.unmarked hm
  have hnotend : ¬ s.SaidEnd := fun hend => absurd (hm.symm.trans (h.saidEnd hend)) (by simp)
  have hacc := (h.accounted (by simp [hm])).resolve_right (by simp [hm])
  cases chunk with
  | data bytes =>
    refine ⟨hm, h.unmarked, fun m hsome => absurd (hm.symm.trans hsome) (by simp), fun _ => ?_,
      fun hc => absurd hc (by simp [BodyState.pushStep, hm]), fun _ => Or.inl hacc, h.saidEnd⟩
    obtain ⟨consumed, hframes, herror, hbody⟩ := h.read (by simp [hpump, PumpPc.InLoop, Chunk.IsMarker])
    exact ⟨consumed, hframes, herror, by simpa [BodyState.carried, BodyState.pushStep, hpump] using hbody⟩
  | ended =>
    refine ⟨rfl, fun hnone => absurd hnone (by simp [BodyState.pushStep]), fun m hsome => ?_,
      fun hin => absurd trivial hin, fun _ => h.complete (Or.inl hpump), fun _ => Or.inl hacc,
      fun hend => absurd hend hnotend⟩
    obtain rfl : .ended = m := Option.some.inj hsome
    refine ⟨rfl, trivial, ?_⟩
    rw [if_pos (show (s.pushStep .ended).pump = .appending .ended from rfl)]
    exact hdata
  | failed failure =>
    refine ⟨rfl, fun hnone => absurd hnone (by simp [BodyState.pushStep]), fun m hsome => ?_,
      fun hin => absurd trivial hin,
      fun hc => absurd hc (by simp [BodyState.pushStep]),
      fun hok => absurd rfl (hok failure), fun hend => absurd hend hnotend⟩
    obtain rfl : .failed failure = m := Option.some.inj hsome
    refine ⟨rfl, trivial, ?_⟩
    rw [if_pos (show (s.pushStep (.failed failure)).pump = .appending (.failed failure) from rfl)]
    exact hdata

/-- The append of `push`. -/
lemma bodyInv_append (h : BodyInv args s) {chunk : Chunk} (hpump : s.pump = .appending chunk) :
    BodyInv args { s with
      chunks := s.chunks ++ [chunk], sent := s.sent ++ dataOf [chunk],
      pump := .announcing chunk } := by
  have hqueue : ({ s with
      chunks := s.chunks ++ [chunk], sent := s.sent ++ dataOf [chunk],
      pump := .announcing chunk } : BodyState κ).queueOf = s.queueOf ++ [chunk] := by
    simp [BodyState.queueOf, BodyState.inHand]
  by_cases hmark : chunk.IsMarker
  · have hm : s.marker = some chunk := by
      cases chunk <;>
        first | exact absurd hmark id | simpa [PumpPc.MarkerOk, hpump] using h.markerOk
    obtain ⟨hf, -, hdata⟩ := h.marked chunk hm
    rw [if_pos hpump] at hdata
    have hnil : dataOf [chunk] = [] := by rw [dataOf_cons_of_isMarker hmark, dataOf_nil]
    refine ⟨?_, fun hnone => absurd (hm.symm.trans hnone) (by simp), fun m hsome => ?_,
      fun hin => ?_, fun hc => ?_, fun hok => ?_, h.saidEnd⟩
    · cases chunk <;> first | exact absurd hmark id | exact hm
    · obtain rfl : chunk = m := Option.some.inj (hm.symm.trans hsome)
      exact ⟨hf, hmark, by rw [if_neg (by simp)]; exact ⟨s.queueOf, hqueue, hdata⟩⟩
    · exact absurd hmark hin
    · rw [hnil, List.append_nil]
      exact h.complete (Or.inr (hc.resolve_left (by simp)))
    · rw [hqueue, dataOf_append, hnil, List.append_nil, List.append_nil]
      exact h.accounted hok
  · obtain ⟨bytes, rfl⟩ : ∃ bytes, chunk = .data bytes := by
      cases chunk <;> simp_all [Chunk.IsMarker]
    have hm : s.marker = none := by simpa [PumpPc.MarkerOk, hpump] using h.markerOk
    obtain ⟨hf, hdata⟩ := h.unmarked hm
    refine ⟨hm, fun _ => ⟨hf, ?_⟩, fun m hsome => absurd (hm.symm.trans hsome) (by simp),
      fun _ => ?_, fun hc => absurd hc (by simp [hm]), fun hok => Or.inl ?_, h.saidEnd⟩
    · rw [hqueue]
      intro c hc
      rcases List.mem_append.mp hc with hc | hc
      · exact hdata c hc
      · rwa [List.mem_singleton.mp hc]
    · obtain ⟨consumed, hframes, herror, hbody⟩ := h.read (by simp [hpump, PumpPc.InLoop, Chunk.IsMarker])
      refine ⟨consumed, hframes, herror, ?_⟩
      simpa [BodyState.carried, hpump, dataOf] using hbody
    · obtain ⟨htaken, hsent⟩ := (h.accounted hok).resolve_right (by simp [hm])
      rw [hqueue, dataOf_append, ← hsent]
      exact ⟨htaken, by simp [BodyState.returning]⟩

/-- The end of `push`: the pump goes on, with or without waking the callbacks. -/
lemma bodyInv_afterPush (h : BodyInv args s) {chunk : Chunk} {pc : PumpPc} (waiters woken : List κ)
    (hpump : s.pump = .announcing chunk ∨ s.pump = .waking chunk)
    (hpc : pc = .waking chunk ∨ pc = BodyState.afterPush chunk) :
    BodyInv args { s with waiters := waiters, woken := woken, pump := pc } := by
  cases chunk with
  | data bytes =>
    have hm : s.marker = none := by
      rcases hpump with hpump | hpump <;> simpa [PumpPc.MarkerOk, hpump] using h.markerOk
    have hin : s.pump.InLoop := by
      rcases hpump with hpump | hpump <;> simp [hpump, PumpPc.InLoop, Chunk.IsMarker]
    have hcarried : s.carried = [] := by
      rcases hpump with hpump | hpump <;> simp [BodyState.carried, hpump]
    have hmoved : BodyInv args { s with pump := pc } := by
      rcases hpc with rfl | rfl <;>
        exact h.move hm s.permit rfl (fun _ => hin) (fun _ => by rw [hcarried]; rfl)
          (by simp [BodyState.afterPush])
    exact ⟨hmoved.markerOk, hmoved.unmarked, hmoved.marked, hmoved.read, hmoved.complete,
      hmoved.accounted, hmoved.saidEnd⟩
  | ended =>
    have hm : s.marker = some .ended := by
      rcases hpump with hpump | hpump <;> simpa [PumpPc.MarkerOk, hpump] using h.markerOk
    have hnot : s.pump ≠ .appending .ended := by rcases hpump with hpump | hpump <;> simp [hpump]
    rcases hpc with rfl | rfl
    · exact h.settle hm hnot waiters woken rfl (fun hin => hin trivial) (by simp)
    · exact h.settle hm hnot waiters woken trivial id (by simp [BodyState.afterPush])
  | failed failure =>
    have hm : s.marker = some (.failed failure) := by
      rcases hpump with hpump | hpump <;> simpa [PumpPc.MarkerOk, hpump] using h.markerOk
    have hnot : s.pump ≠ .appending (.failed failure) := by
      rcases hpump with hpump | hpump <;> simp [hpump]
    rcases hpc with rfl | rfl
    · exact h.settle hm hnot waiters woken rfl (fun hin => hin trivial) (by simp)
    · exact h.settle hm hnot waiters woken trivial id (by simp [BodyState.afterPush])

/-- The guard is dropped: a body that has not finished gets its failure. -/
lemma bodyInv_returned (h : BodyInv args s) (hpump : s.pump = .returned) :
    BodyInv args { s with
      pump := if s.finished then .gone else .pushing (.failed .incomplete) } := by
  by_cases hm : s.marker = none
  · rw [if_neg (by simp [(h.unmarked hm).1])]
    have hmoved : BodyInv args { s with permit := s.permit, pump := .pushing (.failed .incomplete) } :=
      h.move hm s.permit rfl (fun hin => absurd trivial hin) (fun hin => absurd trivial hin) (by simp)
    exact hmoved
  · obtain ⟨m, hm⟩ := Option.ne_none_iff_exists'.mp hm
    rw [if_pos (h.marked m hm).1]
    have hsettled : BodyInv args { s with waiters := s.waiters, woken := s.woken, pump := .gone } :=
      h.settle hm (by simp [hpump]) s.waiters s.woken trivial id (by simp)
    exact hsettled

/-- Every step of the pump keeps the invariant. -/
lemma bodyInv_pumpStep (h : BodyInv args s) (hs : s.pumpStep args = some s') : BodyInv args s' := by
  unfold BodyState.pumpStep at hs
  split at hs
  case h_1 hpump =>
    cases hs
    have hm : s.marker = none := by simpa [PumpPc.MarkerOk, hpump] using h.markerOk
    exact h.move hm s.permit rfl (by simp [hpump, PumpPc.InLoop])
      (by simp [BodyState.carried, hpump]) (by simp)
  case h_2 hpump =>
    have hm : s.marker = none := by simpa [PumpPc.MarkerOk, hpump] using h.markerOk
    obtain ⟨-, rfl⟩ := of_guard hs
    exact h.move hm false rfl (by simp [hpump, PumpPc.InLoop])
      (by simp [BodyState.carried, hpump]) (by simp)
  case h_3 hpump =>
    have hm : s.marker = none := by simpa [PumpPc.MarkerOk, hpump] using h.markerOk
    split at hs
    · cases hs
      exact h.move hm s.permit rfl (by simp [PumpPc.InLoop, Chunk.IsMarker]) (by simp [PumpPc.InLoop]) (by simp)
    · split at hs <;> cases hs
      · exact h.move hm s.permit rfl (by simp [PumpPc.InLoop, Chunk.IsMarker]) (by simp [PumpPc.InLoop]) (by simp)
      · exact h.move hm s.permit rfl (by simp [hpump, PumpPc.InLoop])
          (by simp [BodyState.carried, hpump]) (by simp)
  case h_4 hpump =>
    cases hs
    have hm : s.marker = none := by simpa [PumpPc.MarkerOk, hpump] using h.markerOk
    exact h.move hm s.permit trivial (by simp [PumpPc.InLoop, Chunk.IsMarker]) (by simp [PumpPc.InLoop]) (by simp)
  case h_5 failure hpump =>
    cases hs
    have hm : s.marker = none := by simpa [PumpPc.MarkerOk, hpump] using h.markerOk
    exact h.move hm s.permit rfl (by simp [PumpPc.InLoop, Chunk.IsMarker]) (by simp [PumpPc.InLoop, Chunk.IsMarker]) (by simp)
  case h_9 hpump =>
    have hm : s.marker = none := by simpa [PumpPc.MarkerOk, hpump] using h.markerOk
    obtain ⟨-, rfl⟩ := of_guard hs
    exact h.move hm false rfl (by simp [hpump, PumpPc.InLoop])
      (by simp [BodyState.carried, hpump]) (by simp)
  case h_11 hpump =>
    cases hs
    exact bodyInv_frameStep h hpump
  case h_12 chunk hpump =>
    cases hs
    exact bodyInv_pushStep h hpump
  case h_13 chunk hpump =>
    cases hs
    exact bodyInv_append h hpump
  case h_14 chunk hpump =>
    cases hs
    split
    · exact bodyInv_afterPush h s.waiters s.woken (Or.inl hpump) (Or.inr rfl)
    · exact bodyInv_afterPush h s.waiters s.woken (Or.inl hpump) (Or.inl rfl)
  case h_15 chunk hpump =>
    cases hs
    exact bodyInv_afterPush h _ _ (Or.inr hpump) (Or.inr rfl)
  case h_16 hpump =>
    cases hs
    exact bodyInv_returned h hpump
  case h_17 => cases hs
  all_goals
    rename_i hpump
    cases hs
    have hm : s.marker = none := by simpa [PumpPc.MarkerOk, hpump] using h.markerOk
    split <;> exact h.move hm s.permit rfl (by simp [hpump, PumpPc.InLoop])
      (by simp [BodyState.carried, hpump, PumpPc.InLoop]) (by simp)

/-- Dropping the pump's future at an await sends it to the drop of its guard. -/
lemma bodyInv_dropStep (h : BodyInv args s) (hs : s.dropStep = some s') : BodyInv args s' := by
  unfold BodyState.dropStep at hs
  split at hs
  case h_6 => cases hs
  all_goals
    rename_i hpump
    cases hs
    have hm : s.marker = none := by simpa [PumpPc.MarkerOk, hpump] using h.markerOk
    exact h.move hm s.permit trivial (by simp [PumpPc.InLoop]) (by simp [PumpPc.InLoop]) (by simp)

end Pump

/-! ## The handler keeps the invariant -/

section Handler

variable {args : PumpArgs} {s s' : BodyState κ}

/-- A step of the handler that leaves the queue and what it has given out alone, and does not answer
END. -/
lemma BodyInv.handler (h : BodyInv args s) (hchunks : s'.queueOf = s.queueOf)
    (hreturning : s'.returning = s.returning) (hpump : s'.pump = s.pump)
    (hmarker : s'.marker = s.marker) (hfinished : s'.finished = s.finished)
    (hframes : s'.frames = s.frames) (hsent : s'.sent = s.sent) (hpolled : s'.polled = s.polled)
    (htaken : s'.taken = s.taken) (hend : s'.SaidEnd → s.marker = some .ended) : BodyInv args s' := by
  have hcarried : s'.carried = s.carried := by rw [BodyState.carried, BodyState.carried, hpump]
  refine ⟨?_, ?_, ?_, ?_, ?_, ?_, ?_⟩
  · rw [hpump, hmarker]
    exact h.markerOk
  · rw [hmarker, hfinished, hchunks]
    exact h.unmarked
  · rw [hmarker, hfinished, hpump, hchunks]
    exact h.marked
  · rw [hpump, hframes, hsent, hcarried]
    exact h.read
  · rw [hpump, hmarker, hsent]
    exact h.complete
  · rw [hmarker, htaken, hpolled, hreturning, hchunks, hsent]
    exact h.accounted
  · rw [hmarker]
    exact hend

/-- Answers that are no END change nothing about whether END was said. -/
lemma saidEnd_answer {a : Answer} (ha : ¬ a.IsEnd) (h : (s.answer a).SaidEnd) : s.SaidEnd := by
  obtain ⟨x, hx, hend⟩ := h
  rcases List.mem_append.mp hx with hx | hx
  · exact ⟨x, hx, hend⟩
  · rw [List.mem_singleton.mp hx] at hend
    exact absurd hend ha

/-- The pop of `poll` moves the first chunk into the handler's hand. -/
lemma bodyInv_poll (h : BodyInv args s) (hs : s.step args .poll = some s') : BodyInv args s' := by
  obtain ⟨hidle, rfl⟩ := of_guard hs
  have hpc : s.handler = .idle := by
    cases hp : s.handler <;> simp_all [HandlerPc.isIdle]
  refine h.handler ?_ ?_ rfl rfl rfl rfl rfl rfl rfl h.saidEnd
  · cases hq : s.chunks <;> simp [BodyState.queueOf, BodyState.inHand, hq, hpc]
  · simp [BodyState.returning, hpc]

/-- The marker `poll` finds is put back, and the answer is END only for the end. -/
lemma bodyInv_pollMarker (h : BodyInv args s) {m : Chunk} {a : Answer} (hm : m.IsMarker)
    (hpc : s.handler = .polled (some m)) (hend : a.IsEnd → m = .ended) :
    BodyInv args ({ s with chunks := m :: s.chunks }.answer a) := by
  have hqueue : s.queueOf = m :: s.chunks := by simp [BodyState.queueOf, BodyState.inHand, hpc]
  have hmem : m ∈ s.queueOf := by simp [hqueue]
  refine h.handler ?_ ?_ rfl rfl rfl rfl rfl rfl rfl fun hsaid => ?_
  · rw [hqueue]
    rfl
  · simp [BodyState.returning, BodyState.answer, hpc]
  · by_cases ha : a.IsEnd
    · -- the chunk in hand is the marker of the body
      cases hmark : s.marker with
      | none => exact absurd hm ((h.unmarked hmark).2 m hmem)
      | some m' =>
        obtain ⟨-, -, hpieces⟩ := h.marked m' hmark
        have hmm : m = m' := by
          split at hpieces
          · exact absurd hm (hpieces m hmem)
          · obtain ⟨pieces, hq, hdata⟩ := hpieces
            rw [hq] at hmem
            rcases List.mem_append.mp hmem with hin | hin
            · exact absurd hm (hdata m hin)
            · exact List.mem_singleton.mp hin
        rw [← hmm, hend ha]
    · exact h.saidEnd (saidEnd_answer (s := { s with chunks := m :: s.chunks }) ha hsaid)

/-- `poll` deals with the chunk it popped. -/
lemma bodyInv_pollStep (h : BodyInv args s) {popped : Option Chunk}
    (hpc : s.handler = .polled popped) : BodyInv args (s.pollStep popped) := by
  match popped with
  | none =>
    rw [BodyState.pollStep]
    split
    · refine h.handler ?_ ?_ rfl rfl rfl rfl rfl rfl rfl
        (fun hend => h.saidEnd (saidEnd_answer (by simp [Answer.IsEnd]) hend))
      · simp [BodyState.queueOf, BodyState.inHand, BodyState.answer, hpc]
      · simp [BodyState.returning, BodyState.answer, hpc]
    · refine h.handler ?_ ?_ rfl rfl rfl rfl rfl rfl rfl h.saidEnd
      · simp [BodyState.queueOf, BodyState.inHand, hpc]
      · simp [BodyState.returning, hpc]
  | some (.data bytes) =>
    have hqueue : s.queueOf = .data bytes :: s.chunks := by
      simp [BodyState.queueOf, BodyState.inHand, hpc]
    have hret : s.returning = [] := by simp [BodyState.returning, hpc]
    refine ⟨h.markerOk, fun hnone => ⟨(h.unmarked hnone).1, fun c hc => ?_⟩, fun m hm => ?_, h.read,
      h.complete, fun hok => ?_, h.saidEnd⟩
    · exact (h.unmarked hnone).2 c (by rw [hqueue]; exact List.mem_cons_of_mem _ hc)
    · obtain ⟨hf, hmark, hpieces⟩ := h.marked m hm
      refine ⟨hf, hmark, ?_⟩
      change if s.pump = .appending m then ∀ c ∈ s.chunks, ¬ c.IsMarker
        else ∃ pieces, s.chunks = pieces ++ [m] ∧ ∀ c ∈ pieces, ¬ c.IsMarker
      rw [hqueue] at hpieces
      by_cases happending : s.pump = .appending m
      · rw [if_pos happending] at hpieces ⊢
        exact fun c hc => hpieces c (List.mem_cons_of_mem _ hc)
      · rw [if_neg happending] at hpieces ⊢
        obtain ⟨pieces, hq, hdata⟩ := hpieces
        cases pieces with
        | nil =>
          obtain ⟨rfl, -⟩ := List.cons.inj hq
          exact absurd hmark id
        | cons c pieces =>
          obtain ⟨-, hrest⟩ := List.cons.inj hq
          exact ⟨pieces, hrest, fun c hc => hdata c (List.mem_cons_of_mem _ hc)⟩
    · have hacc := h.accounted hok
      rw [hqueue, dataOf_cons_data, hret] at hacc
      rcases hacc with ⟨htaken, hsent⟩ | ⟨hm, -, hnil, hsent⟩
      · exact Or.inl ⟨htaken, by
          simpa [BodyState.pollStep, BodyState.returning, BodyState.queueOf, BodyState.inHand]
            using hsent⟩
      · obtain ⟨hbytes, hrest⟩ := List.append_eq_nil_iff.mp hnil
        exact Or.inr ⟨hm, hbytes, hrest, hsent⟩
  | some .ended => exact bodyInv_pollMarker h trivial hpc (fun _ => rfl)
  | some (.failed failure) => exact bodyInv_pollMarker h trivial hpc (fun ha => absurd ha id)

/-- `take` runs its pop loop.  Unless a failure marker is just then on its way to the queue, it
answers END only for a body that has ended, with all the data not yet given out. -/
lemma bodyInv_takeStep (h : BodyInv args s) (hpc : s.handler = .taking)
    (hfinished : s.finished = true) (hok : ∀ failure, s.pump ≠ .appending (.failed failure)) :
    BodyInv args s.takeStep ∧ ∀ bytes, s.takeStep.answers = s.answers ++ [.takeEnd bytes] →
      s.marker = some .ended ∧ s.polled ++ s.taken ++ bytes = s.sent := by
  have hqueue : s.queueOf = s.chunks := by simp [BodyState.queueOf, BodyState.inHand, hpc]
  have hret : s.returning = [] := by simp [BodyState.returning, hpc]
  have hsome : s.marker ≠ none := fun hnone => by simp [(h.unmarked hnone).1] at hfinished
  obtain ⟨m, hm⟩ := Option.ne_none_iff_exists'.mp hsome
  obtain ⟨-, hmark, hpieces⟩ := h.marked m hm
  rw [hqueue] at hpieces
  cases m with
  | data bytes => exact absurd hmark id
  | failed failure =>
    rw [if_neg (hok failure)] at hpieces
    obtain ⟨pieces, hq, hdata⟩ := hpieces
    have hloop : BodyState.takeLoop s.chunks [] =
        (.takeFailed (describe failure).1 (describe failure).2, [.failed failure]) := by
      rw [hq, takeLoop_append hdata]
      rfl
    constructor
    · refine ⟨h.markerOk, fun hnone => absurd (hm.symm.trans hnone) (by simp), fun m' hm' => ?_,
        h.read, h.complete, fun hnot => absurd hm (hnot failure), fun hsaid => ?_⟩
      · obtain rfl : .failed failure = m' := Option.some.inj (hm.symm.trans hm')
        refine ⟨hfinished, trivial, ?_⟩
        rw [if_neg (show s.takeStep.pump ≠ .appending (.failed failure) from hok failure)]
        exact ⟨[], by simp [BodyState.takeStep, hloop, BodyState.queueOf, BodyState.inHand,
          BodyState.answer], by simp⟩
      · refine h.saidEnd (saidEnd_answer (a := .takeFailed (describe failure).1
          (describe failure).2) (by simp [Answer.IsEnd]) ?_)
        simpa [BodyState.takeStep, hloop, BodyState.SaidEnd, BodyState.answer] using hsaid
    · intro bytes hans
      simp [BodyState.takeStep, hloop, BodyState.answer] at hans
  | ended =>
    -- the marker is the last chunk, or the store of `finished` is all `push` has done so far
    obtain ⟨pieces, left, hloop, hdata, hleft⟩ : ∃ pieces left,
        BodyState.takeLoop s.chunks [] = (.takeEnd (dataOf pieces), left) ∧
          dataOf s.chunks = dataOf pieces ∧
          if s.pump = .appending .ended then left = [] else left = [.ended] := by
      by_cases hpump : s.pump = .appending .ended
      · rw [if_pos hpump] at hpieces
        exact ⟨s.chunks, [], takeLoop_of_no_marker hpieces, rfl, by rw [if_pos hpump]⟩
      · rw [if_neg hpump] at hpieces
        obtain ⟨pieces, hq, hnone⟩ := hpieces
        refine ⟨pieces, [.ended], ?_, by simp [hq, dataOf], by rw [if_neg hpump]⟩
        rw [hq, takeLoop_append hnone]
        rfl
    have hstep : s.takeStep = ({ s with
        chunks := left, buffered := s.buffered - (dataOf s.chunks).length,
        taken := s.taken ++ dataOf pieces }.answer (.takeEnd (dataOf pieces))) := by
      simp [BodyState.takeStep, hloop, BodyState.takenBytes]
    have hleftdata : dataOf left = [] := by
      split at hleft <;> subst hleft <;> rfl
    have hgiven : s.polled ++ s.taken ++ dataOf pieces = s.sent := by
      have hacc := h.accounted (by simp [hm])
      rw [hqueue, hdata, hret] at hacc
      rcases hacc with ⟨htaken, hsent⟩ | ⟨-, -, hnil, hsent⟩
      · simpa [htaken] using hsent
      · simpa [hnil] using hsent
    have hqueue' : s.takeStep.queueOf = left := by
      simp [hstep, BodyState.queueOf, BodyState.inHand, BodyState.answer]
    constructor
    · refine ⟨hstep ▸ h.markerOk, fun hnone => ?_, fun m' hm' => ?_, hstep ▸ h.read,
        hstep ▸ h.complete, fun _ => Or.inr ⟨?_, ?_, ?_, ?_⟩, fun _ => ?_⟩
      · rw [hstep] at hnone
        exact absurd (hm.symm.trans hnone) (by simp)
      · rw [hqueue', hstep]
        obtain rfl : .ended = m' := Option.some.inj (hm.symm.trans (by rwa [hstep] at hm'))
        refine ⟨hfinished, trivial, ?_⟩
        change if s.pump = .appending .ended then _ else _
        by_cases hpump : s.pump = .appending .ended
        · rw [if_pos hpump] at hleft ⊢
          simp [hleft]
        · rw [if_neg hpump] at hleft ⊢
          exact ⟨[], by simp [hleft], by simp⟩
      · rw [hstep]
        exact hm
      · rw [hstep]
        rfl
      · rw [hqueue', hleftdata]
      · rw [hstep]
        simpa [BodyState.answer] using hgiven
      · rw [hstep]
        exact hm
    · intro bytes hans
      have hbytes : dataOf pieces = bytes := by
        simpa [hstep, BodyState.answer] using hans
      exact ⟨hm, hbytes ▸ hgiven⟩

/-- Every step of the handler keeps the invariant, unless it is the pop loop of a `take` that races
with a failure. -/
lemma bodyInv_handlerStep (h : BodyInv args s) (hfinished : s.handler = .taking → s.finished = true)
    (hok : NoTakeBeforeFailure s .handler) (hs : s.handlerStep = some s') : BodyInv args s' := by
  unfold BodyState.handlerStep at hs
  split at hs
  case h_1 => cases hs
  case h_2 popped hpc =>
    cases hs
    exact bodyInv_pollStep h hpc
  case h_3 hpc =>
    cases hs
    refine h.handler ?_ ?_ rfl rfl rfl rfl rfl rfl rfl
      (fun hend => h.saidEnd (saidEnd_answer (by simp [Answer.IsEnd]) hend))
    · simp [BodyState.queueOf, BodyState.inHand, BodyState.answer, hpc]
    · simp [BodyState.returning, BodyState.answer, hpc]
  case h_4 bytes crossed hpc =>
    cases hs
    have hqueue : s.queueOf = s.chunks := by simp [BodyState.queueOf, BodyState.inHand, hpc]
    have hret : s.returning = bytes := by simp [BodyState.returning, hpc]
    refine ⟨h.markerOk, fun hnone => ?_, fun m hm => ?_, h.read, h.complete, fun hnot => ?_,
      fun hend => h.saidEnd (saidEnd_answer (by simp [Answer.IsEnd]) hend)⟩
    · have hun := h.unmarked hnone
      rw [hqueue] at hun
      exact hun
    · have hma := h.marked m hm
      rw [hqueue] at hma
      exact hma
    · have hacc := h.accounted hnot
      rw [hqueue, hret] at hacc
      rcases hacc with ⟨htaken, hsent⟩ | ⟨hm, hnil, hdata, hsent⟩
      · exact Or.inl ⟨htaken, by
          simpa [BodyState.answer, BodyState.returning, BodyState.queueOf, BodyState.inHand]
            using hsent⟩
      · exact Or.inr ⟨hm, rfl, hdata, by simpa [BodyState.answer, hnil] using hsent⟩
  case h_5 hpc =>
    cases hs
    exact (bodyInv_takeStep h hpc (hfinished hpc) (hok.pump_ne hpc)).1
  case h_6 callback hpc =>
    cases hs
    refine h.handler ?_ ?_ rfl rfl rfl rfl rfl rfl rfl h.saidEnd
    · simp [BodyState.queueOf, BodyState.inHand, hpc]
    · simp [BodyState.returning, hpc]
  case h_7 hpc =>
    cases hs
    refine h.handler ?_ ?_ rfl rfl rfl rfl rfl rfl rfl h.saidEnd
    · simp [BodyState.queueOf, BodyState.inHand, hpc]
    · simp [BodyState.returning, hpc]
  case h_8 hpc =>
    cases hs
    split <;> refine h.handler ?_ ?_ rfl rfl rfl rfl rfl rfl rfl h.saidEnd <;>
      simp [BodyState.queueOf, BodyState.inHand, BodyState.returning, BodyState.wake, hpc]
  case h_9 hpc =>
    cases hs
    split <;> refine h.handler ?_ ?_ rfl rfl rfl rfl rfl rfl rfl h.saidEnd <;>
      simp [BodyState.queueOf, BodyState.inHand, BodyState.returning, BodyState.wake, hpc]

end Handler

/-! ## Every run -/

section Runs

variable {args : PumpArgs} {s s' : BodyState κ}

/-- A call that starts while the handler is between calls finds nothing in its hand. -/
lemma handler_eq_idle {pc : HandlerPc κ} (h : pc.isIdle = true) : pc = .idle := by
  cases pc <;> simp_all [HandlerPc.isIdle]

/-- The pump never touches the handler and never takes `finished` back. -/
lemma pumpStep_frame (hs : s.pumpStep args = some s') :
    s'.handler = s.handler ∧ (s.finished = true → s'.finished = true) := by
  unfold BodyState.pumpStep at hs
  split at hs
  case h_2 | h_9 =>
    obtain ⟨-, rfl⟩ := of_guard hs
    exact ⟨rfl, id⟩
  case h_3 =>
    split at hs
    · cases hs
      exact ⟨rfl, id⟩
    · split at hs <;> cases hs <;> exact ⟨rfl, id⟩
  case h_11 =>
    cases hs
    unfold BodyState.frameStep
    split
    case h_4 =>
      dsimp only
      split
      · exact ⟨rfl, id⟩
      · split <;> exact ⟨rfl, id⟩
    all_goals exact ⟨rfl, id⟩
  case h_12 chunk _ =>
    cases hs
    cases chunk with
    | data bytes => exact ⟨rfl, id⟩
    | ended => exact ⟨rfl, fun _ => rfl⟩
    | failed failure => exact ⟨rfl, fun _ => rfl⟩
  case h_17 => cases hs
  all_goals
    cases hs
    exact ⟨rfl, id⟩

/-- A `take` that is past its load has seen `finished` set. -/
lemma taking_finished_step (a : BodyAction κ) (h : s.handler = .taking → s.finished = true)
    (hs : s.step args a = some s') : s'.handler = .taking → s'.finished = true := by
  intro htaking
  cases a with
  | pump =>
    obtain ⟨hhandler, hfinished⟩ := pumpStep_frame hs
    exact hfinished (h (hhandler ▸ htaking))
  | timeout =>
    obtain ⟨-, rfl⟩ := of_guard hs
    exact h htaking
  | drop =>
    simp only [BodyState.step, BodyState.dropStep] at hs
    split at hs <;> cases hs <;> exact h htaking
  | discard =>
    cases hs
    exact h htaking
  | poll =>
    obtain ⟨-, rfl⟩ := of_guard hs
    cases htaking
  | take =>
    obtain ⟨-, rfl⟩ := of_guard hs
    split at htaking
    · rename_i hfinished
      rw [if_pos hfinished]
      exact hfinished
    · cases htaking
  | collect callback =>
    obtain ⟨-, rfl⟩ := of_guard hs
    cases htaking
  | notify callback =>
    obtain ⟨-, rfl⟩ := of_guard hs
    cases htaking
  | handler =>
    exfalso
    simp only [BodyState.step, BodyState.handlerStep] at hs
    split at hs
    case h_2 popped _ =>
      cases hs
      match popped with
      | none =>
        rw [BodyState.pollStep] at htaking
        split at htaking <;> cases htaking
      | some (.data bytes) => cases htaking
      | some .ended => cases htaking
      | some (.failed failure) => cases htaking
    all_goals
      cases hs
      try cases htaking

/-- Every step keeps the invariant, unless it is the pop loop of a `take` that races with a
failure. -/
lemma bodyInv_step (a : BodyAction κ) (h : BodyInv args s)
    (hfinished : s.handler = .taking → s.finished = true) (hok : NoTakeBeforeFailure s a)
    (hs : s.step args a = some s') : BodyInv args s' := by
  cases a with
  | pump => exact bodyInv_pumpStep h hs
  | timeout =>
    obtain ⟨⟨-, hpump⟩, rfl⟩ := of_guard hs
    have hm : s.marker = none := by simpa [PumpPc.MarkerOk, hpump] using h.markerOk
    exact h.move hm s.permit rfl (fun hin => absurd trivial hin) (fun hin => absurd trivial hin)
      (by simp)
  | drop => exact bodyInv_dropStep h hs
  | discard =>
    cases hs
    exact h.handler rfl rfl rfl rfl rfl rfl rfl rfl rfl h.saidEnd
  | poll => exact bodyInv_poll h hs
  | take =>
    obtain ⟨hidle, rfl⟩ := of_guard hs
    have hpc := handler_eq_idle hidle
    split
    · refine h.handler ?_ ?_ rfl rfl rfl rfl rfl rfl rfl h.saidEnd
      · simp [BodyState.queueOf, BodyState.inHand, hpc]
      · simp [BodyState.returning, hpc]
    · refine h.handler ?_ ?_ rfl rfl rfl rfl rfl rfl rfl
        (fun hend => h.saidEnd (saidEnd_answer (by simp [Answer.IsEnd]) hend))
      · simp [BodyState.queueOf, BodyState.inHand, BodyState.answer, hpc]
      · simp [BodyState.returning, BodyState.answer, hpc]
  | collect callback =>
    obtain ⟨hidle, rfl⟩ := of_guard hs
    have hpc := handler_eq_idle hidle
    refine h.handler ?_ ?_ rfl rfl rfl rfl rfl rfl rfl h.saidEnd
    · simp [BodyState.queueOf, BodyState.inHand, hpc]
    · simp [BodyState.returning, hpc]
  | notify callback =>
    obtain ⟨hidle, rfl⟩ := of_guard hs
    have hpc := handler_eq_idle hidle
    refine h.handler ?_ ?_ rfl rfl rfl rfl rfl rfl rfl h.saidEnd
    · simp [BodyState.queueOf, BodyState.inHand, hpc]
    · simp [BodyState.returning, hpc]
  | handler => exact bodyInv_handlerStep h hfinished hok hs

/-- Only the pop loop of `take` answers END with bytes. -/
lemma taking_of_takeEnd {a : BodyAction κ} {bytes : Bytes} (hs : s.step args a = some s')
    (hans : s'.answers = s.answers ++ [.takeEnd bytes]) :
    a = .handler ∧ s.handler = .taking ∧ s' = s.takeStep := by
  have hlast : s'.answers.getLast? = some (.takeEnd bytes) := by simp [hans]
  have hne : s'.answers ≠ s.answers := by simp [hans]
  cases a with
  | pump =>
    refine absurd ?_ hne
    simp only [BodyState.step, BodyState.pumpStep, BodyState.frameStep, BodyState.pushStep,
      BodyState.wake] at hs
    repeat' split at hs
    all_goals first | (cases hs; rfl) | cases hs
  | timeout =>
    obtain ⟨-, rfl⟩ := of_guard hs
    exact absurd rfl hne
  | drop =>
    simp only [BodyState.step, BodyState.dropStep] at hs
    split at hs <;> cases hs <;> exact absurd rfl hne
  | discard =>
    cases hs
    exact absurd rfl hne
  | poll =>
    obtain ⟨-, rfl⟩ := of_guard hs
    exact absurd rfl hne
  | take =>
    obtain ⟨-, rfl⟩ := of_guard hs
    by_cases hf : s.finished = true
    · rw [if_pos hf] at hne
      exact absurd rfl hne
    · rw [if_neg hf] at hlast
      simp [BodyState.answer] at hlast
  | collect callback =>
    obtain ⟨-, rfl⟩ := of_guard hs
    exact absurd rfl hne
  | notify callback =>
    obtain ⟨-, rfl⟩ := of_guard hs
    exact absurd rfl hne
  | handler =>
    simp only [BodyState.step, BodyState.handlerStep] at hs
    split at hs
    case h_1 => cases hs
    case h_2 popped _ =>
      cases hs
      exfalso
      match popped with
      | none =>
        rw [BodyState.pollStep] at hlast hne
        split at hlast
        · simp [BodyState.answer] at hlast
        · rename_i hf
          rw [if_neg hf] at hne
          exact hne rfl
      | some (.data _) => exact hne rfl
      | some .ended => simp [BodyState.pollStep, BodyState.answer] at hlast
      | some (.failed _) => simp [BodyState.pollStep, BodyState.answer] at hlast
    case h_5 hpc =>
      cases hs
      exact ⟨rfl, hpc, rfl⟩
    case h_8 | h_9 =>
      cases hs
      split at hne <;> exact absurd rfl hne
    all_goals
      cases hs
      first | exact absurd rfl hne | simp [BodyState.answer] at hlast

end Runs

/-- A body of which nothing has been asked satisfies the invariant. -/
lemma bodyInv_new (args : PumpArgs) : BodyInv args (BodyState.new args : BodyState κ) where
  markerOk := rfl
  unmarked _ := ⟨rfl, by simp [BodyState.new, BodyState.queueOf, BodyState.inHand]⟩
  marked m hm := by simp [BodyState.new] at hm
  read _ := ⟨[], by simp [BodyState.new], by simp, rfl⟩
  complete hc := by simp [BodyState.new] at hc
  accounted _ := Or.inl ⟨rfl, rfl⟩
  saidEnd hend := by
    obtain ⟨a, ha, -⟩ := hend
    simp [BodyState.new] at ha

/-- What a step from `s` to `s'` promises: an END answer of `take` comes with the marker `End` and
with all the data of the body that was not already given out, and once the body has failed no
answer, and so no `read_body`, presents it as complete. -/
def EndMeansComplete (args : PumpArgs) (s s' : BodyState κ) : Prop :=
  (∀ bytes, s'.answers = s.answers ++ [.takeEnd bytes] →
    s'.marker = some .ended ∧ s.polled ++ s.taken ++ bytes = bodyOf args.frames) ∧
  ∀ failure, s'.marker = some (.failed failure) →
    ∀ a ∈ s'.answers, ¬ a.IsEnd ∧ ∀ body, readBody a ≠ .returned body

/-- **A truncated body is presented as a complete one only by the race.**  In every run in which no
`take` pops its queue between the store of `finished` and the append of a failure marker, for every
frame sequence and every failure, END means that the body is complete. -/
theorem end_only_for_complete_body (args : PumpArgs) {s s' : BodyState κ} {a : BodyAction κ}
    (h : Reaches (BodyState.step args) NoTakeBeforeFailure (BodyState.new args) s)
    (hok : NoTakeBeforeFailure s a) (hs : s.step args a = some s') :
    EndMeansComplete args s s' := by
  have hinv : BodyInv args s ∧ (s.handler = .taking → s.finished = true) := by
    refine h.invariant (I := fun s => BodyInv args s ∧ (s.handler = .taking → s.finished = true))
      ⟨bodyInv_new args, by simp [BodyState.new]⟩ ?_
    intro s a s' hI permitted taken
    exact ⟨bodyInv_step a hI.1 hI.2 permitted taken, taking_finished_step a hI.2 taken⟩
  have hinv' : BodyInv args s' := bodyInv_step a hinv.1 hinv.2 hok hs
  refine ⟨fun bytes hans => ?_, fun failure hfailed x hx => ?_⟩
  · obtain ⟨rfl, hpc, rfl⟩ := taking_of_takeEnd hs hans
    obtain ⟨hm, hgiven⟩ :=
      (bodyInv_takeStep hinv.1 hpc (hinv.2 hpc) (hok.pump_ne hpc)).2 bytes hans
    exact ⟨hm, hgiven.trans (hinv.1.complete (Or.inr hm)).1⟩
  · have hnot : ¬ x.IsEnd := fun hend =>
      absurd (hfailed.symm.trans (hinv'.saidEnd ⟨x, hx, hend⟩)) (by simp)
    refine ⟨hnot, fun body hbody => ?_⟩
    cases x <;> simp_all [readBody, Answer.IsEnd]

/-! ## The race -/

/-- A client sends two bytes and its connection breaks. -/
def brokenUpload : PumpArgs where
  frames := [.data [1, 2], .error]
  declaredLength := none
  maxBody := 10
  idle := true

/-- The handler collects the body while the pump reads the data and what follows it, stores
`finished`, and is interrupted before it appends the marker. -/
def raceToTake : List (BodyAction Unit) :=
  [.pump, .collect (), .handler, .handler, .handler] ++ List.replicate 12 .pump ++ [.take]

/-- At that point the pop loop of `take` answers END with the two bytes: a truncated body presented
as complete, and `read_body` returns it. -/
theorem take_presents_failed_body :
    ∃ s s' : BodyState Unit, Reachable (BodyState.step brokenUpload) (BodyState.new brokenUpload) s ∧
      s.step brokenUpload .handler = some s' ∧
      s'.marker = some (.failed .incomplete) ∧ s'.answers = [.takeEnd [1, 2]] ∧
      readBody (.takeEnd [1, 2]) = .returned [1, 2] ∧ ¬ EndMeansComplete brokenUpload s s' := by
  refine ⟨_, _, Reachable.of_exec raceToTake rfl, rfl, rfl, rfl, rfl, fun h => ?_⟩
  exact absurd (h.1 [1, 2] rfl).1 (by decide)

/-- A client sends two bytes and ends its body. -/
def cleanUpload : PumpArgs := { brokenUpload with frames := [.data [1, 2]] }

/-- The same race with the end of a body is harmless: END comes with all of it. -/
theorem end_only_for_complete_body_cleanUpload :
    ∃ s s' : BodyState Unit,
      Reaches (BodyState.step cleanUpload) NoTakeBeforeFailure (BodyState.new cleanUpload) s ∧
        s.step cleanUpload .handler = some s' ∧ s'.answers = [.takeEnd [1, 2]] ∧
        EndMeansComplete cleanUpload s s' := by
  have run : Reaches (BodyState.step cleanUpload) NoTakeBeforeFailure (BodyState.new cleanUpload)
      (_ : BodyState Unit) := Reaches.of_exec raceToTake rfl
  exact ⟨_, _, run, rfl, rfl, end_only_for_complete_body cleanUpload (a := .handler) run
    (fun hrace => by cases hrace.2) rfl⟩

end Oxbrook
