import Oxbrook.Bodies.Moves

/-!
# The streamed, the deferred and the collected body

An ordinary route collects its body before a worker is woken (`collect_bounded`); a streaming or a
deferring one reads it through the pump, a chunk at a time with `poll` or whole with `take`.  The three
loops check the limit in different places, and one of them refuses a declared length without reading.

`bodies_agree` compares them along every schedule of the pump and of the handler's calls.  The one
schedule it leaves out is that of `Bodies/Truncation`: a `take` that pops between the store of
`finished` and the append of a failure answers END for a body that `collect_bounded` refuses
(`take_accepts_refused_body`).
-/

namespace Oxbrook

open StepMachine

variable {κ : Type*}

/-! ## Collecting a body -/

/-- `collect_bounded`, with what has been collected so far. -/
def collectBounded (limit : ℕ) : List Frame → Bytes → Except Failure Bytes
  | [], collected => .ok collected
  | .error :: _, _ => .error .incomplete
  | .trailers :: rest, collected => collectBounded limit rest collected
  | .data bytes :: rest, collected =>
    if limit < collected.length + bytes.length then .error (.tooLarge limit)
    else collectBounded limit rest (collected ++ bytes)

/-- Of frames without an error, `collect_bounded` returns the data, or refuses it as too large. -/
lemma collectBounded_eq {limit : ℕ} {frames : List Frame} (h : Frame.error ∉ frames)
    (collected : Bytes) (hwithin : collected.length ≤ limit) :
    collectBounded limit frames collected =
      if limit < collected.length + (bodyOf frames).length then .error (.tooLarge limit)
      else .ok (collected ++ bodyOf frames) := by
  induction frames generalizing collected with
  | nil =>
    rw [if_neg (by simp [bodyOf]; exact hwithin)]
    simp [collectBounded, bodyOf]
  | cons frame frames ih =>
    have hrest : Frame.error ∉ frames := fun hmem => h (List.mem_cons_of_mem _ hmem)
    cases frame with
    | error => exact absurd List.mem_cons_self h
    | trailers =>
      rw [collectBounded, ih hrest collected hwithin]
      rfl
    | data bytes =>
      have hbody : bodyOf (.data bytes :: frames) = bytes ++ bodyOf frames := by simp [bodyOf]
      rw [collectBounded, hbody, List.length_append]
      by_cases hover : limit < collected.length + bytes.length
      · rw [if_pos hover, if_pos (by omega)]
      · rw [if_neg hover, ih hrest _ (by simpa using hover), List.length_append, List.append_assoc,
          Nat.add_assoc]

/-! ## What the two sides of a body have in common -/

/-- What an answer reports of a body that did not arrive. -/
def Answer.report : Answer → Option (ℕ × String)
  | .pollFailed status detail | .takeFailed status detail => some (status, detail)
  | _ => none

namespace BodyState

/-- The bytes the pump has added to `buffered` and not yet appended. -/
def adding (s : BodyState κ) : ℕ :=
  match s.pump with
  | .appending (.data bytes) => bytes.length
  | _ => 0

end BodyState

/-- What holds along a run without the race, beside the invariant of the queue. -/
structure Agreeing (args : PumpArgs) (s : BodyState κ) : Prop where
  inv : BodyInv args s
  taking : s.handler = .taking → s.finished = true
  buffered : s.buffered = (dataOf s.queueOf).length + s.adding
  drained : s.SaidEnd → s.returning = [] ∧ dataOf s.queueOf = []
  failures : ∀ a ∈ s.answers, ∀ report, a.report = some report →
    ∃ failure, s.marker = some (.failed failure) ∧ describe failure = report

section Steps

variable {args : PumpArgs} {s s' : BodyState κ} {a : BodyAction κ}

/-- The pump leaves the handler, and what it was told, alone. -/
lemma PumpMove.frame (move : PumpMove args s s') :
    s'.handler = s.handler ∧ s'.answers = s.answers := by
  cases move <;> exact ⟨rfl, rfl⟩

/-- A step of the pump and the bytes between it and the handler. -/
lemma PumpMove.buffered (move : PumpMove args s s')
    (h : s.buffered = (dataOf s.queueOf).length + s.adding) :
    s'.buffered = (dataOf s'.queueOf).length + s'.adding := by
  cases move
  case push bytes hpc => simpa [BodyState.adding, BodyState.queueOf, BodyState.inHand, hpc] using h
  case append chunk hpc =>
    cases chunk <;> simp [BodyState.adding, BodyState.queueOf, BodyState.inHand, hpc, dataOf] at h ⊢ <;>
      omega
  case finish m hpc hmarker =>
    cases m with
    | data bytes => exact absurd hmarker id
    | ended | failed failure =>
      simpa [BodyState.adding, BodyState.queueOf, BodyState.inHand, hpc] using h
  case quiet chunk hpc _ _ =>
    cases chunk <;> simpa [BodyState.adding, BodyState.queueOf, BodyState.inHand, hpc,
      BodyState.afterPush] using h
  case wake chunk hpc =>
    cases chunk <;> simpa [BodyState.adding, BodyState.queueOf, BodyState.inHand, hpc,
      BodyState.afterPush] using h
  all_goals simp_all [BodyState.adding, BodyState.queueOf, BodyState.inHand]

/-- Once a marker was pushed, the pump adds nothing more. -/
lemma BodyInv.adding_eq (inv : BodyInv args s) {m : Chunk} (hm : s.marker = some m) :
    s.adding = 0 := by
  have hok := inv.markerOk
  unfold BodyState.adding
  split
  case h_1 bytes hpc =>
    rw [hpc, hm] at hok
    cases hok
  case h_2 => rfl

/-- What `take` does once `finished` is set: it empties the queue of its data, and answers with the
marker, or with END while the marker is on its way. -/
lemma takeStep_spec (inv : BodyInv args s) (hpc : s.handler = .taking)
    (hfinished : s.finished = true) : ∃ m, s.marker = some m ∧ m.IsMarker ∧
      dataOf s.takeStep.queueOf = [] ∧ s.takeStep.buffered = s.buffered - (dataOf s.queueOf).length ∧
      ((s.pump = .appending m ∧ s.takeStep.answers = s.answers ++ [.takeEnd (dataOf s.queueOf)]) ∨
        s.takeStep.answers = s.answers ++ [match m with
          | .failed failure => .takeFailed (describe failure).1 (describe failure).2
          | _ => .takeEnd (dataOf s.queueOf)]) := by
  have hqueue : s.queueOf = s.chunks := by simp [BodyState.queueOf, BodyState.inHand, hpc]
  cases hm : s.marker with
  | none => simp [(inv.unmarked hm).1] at hfinished
  | some m =>
    obtain ⟨-, hmarker, hlast⟩ := inv.marked m hm
    refine ⟨m, rfl, hmarker, ?_⟩
    by_cases happending : s.pump = .appending m
    · rw [if_pos happending, hqueue] at hlast
      have hloop := takeLoop_of_no_marker hlast
      refine ⟨?_, ?_, .inl ⟨happending, ?_⟩⟩
      · simp [BodyState.takeStep, hloop, BodyState.answer, BodyState.queueOf, BodyState.inHand]
      · simp [BodyState.takeStep, BodyState.answer, hqueue]
      · simp [BodyState.takeStep, hloop, BodyState.answer, hqueue]
    · rw [if_neg happending] at hlast
      obtain ⟨pieces, hpieces, hdata⟩ := hlast
      have hchunks : s.chunks = pieces ++ [m] := hqueue.symm.trans hpieces
      have hloop := takeLoop_append hdata [m] []
      have hsame : dataOf s.queueOf = dataOf pieces := by
        rw [hpieces, dataOf_append, dataOf_cons_of_isMarker hmarker, dataOf_nil, List.append_nil]
      rw [hsame, List.nil_append] at *
      cases m with
      | data bytes => exact absurd hmarker id
      | ended | failed failure =>
        rw [BodyState.takeLoop] at hloop
        refine ⟨?_, ?_, .inr ?_⟩
        · simp [BodyState.takeStep, hchunks, hloop, BodyState.answer, BodyState.queueOf,
            BodyState.inHand, dataOf]
        · simp [BodyState.takeStep, hchunks, BodyState.answer, dataOf]
        · simp [BodyState.takeStep, hchunks, hloop, BodyState.answer]

/-- A step of the handler and the bytes between it and the pump. -/
lemma HandlerMove.buffered (move : HandlerMove s s') (inv : BodyInv args s)
    (taking : s.handler = .taking → s.finished = true)
    (h : s.buffered = (dataOf s.queueOf).length + s.adding) :
    s'.buffered = (dataOf s'.queueOf).length + s'.adding := by
  cases move
  case relieve bytes hpc =>
    simp only [BodyState.adding, BodyState.queueOf, BodyState.inHand, hpc] at h ⊢
    simp at h ⊢
    omega
  case ended hpc =>
    simpa [BodyState.adding, BodyState.queueOf, BodyState.inHand, hpc, BodyState.answer, dataOf] using h
  case failed failure hpc =>
    simpa [BodyState.adding, BodyState.queueOf, BodyState.inHand, hpc, BodyState.answer, dataOf] using h
  case take hpc =>
    obtain ⟨m, hm, -, hdata, hbuffered, -⟩ := takeStep_spec inv hpc (taking hpc)
    have hadding := inv.adding_eq hm
    have hadding' : s.takeStep.adding = s.adding := rfl
    rw [hbuffered, hdata, hadding', hadding, h, hadding]
    simp
  all_goals simp_all [BodyState.adding, BodyState.queueOf, BodyState.inHand, BodyState.answer]

/-- A marker in the handler's hand is the one that was pushed, and the queue behind it is empty. -/
lemma BodyInv.marker_of_polled (inv : BodyInv args s) {m : Chunk}
    (hpc : s.handler = .polled (some m)) (hmarker : m.IsMarker) :
    s.marker = some m ∧ s.chunks = [] := by
  have hqueue : s.queueOf = m :: s.chunks := by simp [BodyState.queueOf, BodyState.inHand, hpc]
  cases hm : s.marker with
  | none =>
    have hdata := (inv.unmarked hm).2 m
    rw [hqueue] at hdata
    exact absurd hmarker (hdata List.mem_cons_self)
  | some m' =>
    obtain ⟨-, -, hlast⟩ := inv.marked m' hm
    split at hlast
    · rw [hqueue] at hlast
      exact absurd hmarker (hlast m List.mem_cons_self)
    · obtain ⟨pieces, hpieces, hdata⟩ := hlast
      cases pieces with
      | nil =>
        obtain ⟨rfl, hchunks⟩ := List.cons.inj (hqueue.symm.trans hpieces)
        exact ⟨rfl, hchunks⟩
      | cons c pieces =>
        obtain ⟨rfl, -⟩ := List.cons.inj (hqueue.symm.trans hpieces)
        exact absurd hmarker (hdata m List.mem_cons_self)

/-- A step of the pump takes no data back to the queue once the handler was told END. -/
lemma PumpMove.drained (move : PumpMove args s s') (inv : BodyInv args s)
    (h : s.SaidEnd → s.returning = [] ∧ dataOf s.queueOf = []) (hsaid : s'.SaidEnd) :
    s'.returning = [] ∧ dataOf s'.queueOf = [] := by
  obtain ⟨hhandler, hanswers⟩ := move.frame
  have hbefore : s.SaidEnd := by
    unfold BodyState.SaidEnd at hsaid ⊢
    rwa [hanswers] at hsaid
  have hm := inv.saidEnd hbefore
  obtain ⟨hreturning, hdata⟩ := h hbefore
  have hreturning' : s'.returning = [] := by
    unfold BodyState.returning at hreturning ⊢
    rwa [hhandler]
  refine ⟨hreturning', ?_⟩
  cases move
  case append chunk hpc =>
    have hok := inv.markerOk
    rw [hpc, hm] at hok
    cases chunk with
    | data bytes | failed failure => cases hok
    | ended =>
      change dataOf (s.inHand ++ (s.chunks ++ [.ended])) = []
      rw [← List.append_assoc, dataOf_append, show dataOf (s.inHand ++ s.chunks) = [] from hdata]
      rfl
  all_goals exact hdata

/-- A step of the handler and the data left once it was told END. -/
lemma HandlerMove.drained (move : HandlerMove s s') (inv : BodyInv args s)
    (taking : s.handler = .taking → s.finished = true)
    (h : s.SaidEnd → s.returning = [] ∧ dataOf s.queueOf = []) (hsaid : s'.SaidEnd) :
    s'.returning = [] ∧ dataOf s'.queueOf = [] := by
  have hother {a : Answer} (ha : ¬ a.IsEnd) (hsaid : ∃ x ∈ s.answers ++ [a], x.IsEnd) : s.SaidEnd := by
    obtain ⟨x, hx, hend⟩ := hsaid
    rcases List.mem_append.mp hx with hx | hx
    · exact ⟨x, hx, hend⟩
    · rw [List.mem_singleton.mp hx] at hend
      exact absurd hend ha
  cases move
  case ended hpc =>
    obtain ⟨-, hchunks⟩ := inv.marker_of_polled hpc trivial
    refine ⟨rfl, ?_⟩
    simp [BodyState.queueOf, BodyState.inHand, BodyState.answer, hchunks, dataOf]
  case take hpc =>
    obtain ⟨-, -, -, hdata, -, -⟩ := takeStep_spec inv hpc (taking hpc)
    exact ⟨rfl, hdata⟩
  case failed failure hpc =>
    obtain ⟨hreturning, hdata⟩ := h (hother id hsaid)
    refine ⟨rfl, ?_⟩
    simpa [BodyState.queueOf, BodyState.inHand, hpc, BodyState.answer] using hdata
  case nothing hpc _ | demand hpc | data hpc =>
    obtain ⟨hreturning, hdata⟩ := h (hother id hsaid)
    refine ⟨rfl, ?_⟩
    simpa [BodyState.queueOf, BodyState.inHand, hpc, BodyState.answer] using hdata
  case relieve bytes hpc =>
    obtain ⟨-, hdata⟩ := h hsaid
    simpa [BodyState.queueOf, BodyState.inHand, BodyState.returning, hpc] using hdata
  all_goals
    obtain ⟨hreturning, hdata⟩ := h hsaid
    simp_all [BodyState.queueOf, BodyState.inHand, BodyState.returning]

/-- A step of the handler and the failures it was told of. -/
lemma HandlerMove.failures (move : HandlerMove s s') (inv : BodyInv args s)
    (taking : s.handler = .taking → s.finished = true)
    (h : ∀ a ∈ s.answers, ∀ report, a.report = some report →
      ∃ failure, s.marker = some (.failed failure) ∧ describe failure = report) :
    ∀ a ∈ s'.answers, ∀ report, a.report = some report →
      ∃ failure, s'.marker = some (.failed failure) ∧ describe failure = report := by
  have hone {x : Answer} (hx : ∀ report, x.report = some report →
      ∃ failure, s.marker = some (.failed failure) ∧ describe failure = report) :
      ∀ a ∈ s.answers ++ [x], ∀ report, a.report = some report →
        ∃ failure, s.marker = some (.failed failure) ∧ describe failure = report := by
    intro a ha
    rcases List.mem_append.mp ha with ha | ha
    · exact h a ha
    · rw [List.mem_singleton.mp ha]
      exact hx
  cases move
  case failed failure hpc =>
    obtain ⟨hm, -⟩ := inv.marker_of_polled hpc trivial
    exact hone fun report hreport => ⟨failure, hm, Option.some.inj hreport⟩
  case take hpc =>
    obtain ⟨m, hm, -, -, -, ⟨-, hanswer⟩ | hanswer⟩ := takeStep_spec inv hpc (taking hpc)
    · rw [hanswer]
      exact hone fun report hreport => nomatch hreport
    · rw [hanswer]
      refine hone fun report hreport => ?_
      match m with
      | .data bytes | .ended => cases hreport
      | .failed failure => exact ⟨failure, hm, Option.some.inj hreport⟩
  case nothing | demand | data | ended => exact hone fun report hreport => nomatch hreport
  all_goals exact h

/-- The other steps change neither what is queued nor what was pushed: a call of the handler begins,
the idle timer fires, or the pump is dropped or told to discard. -/
lemma BodyMove.frame (move : BodyMove args s a s') :
    PumpMove args s s' ∨ HandlerMove s s' ∨
      (s'.buffered = s.buffered ∧ s'.queueOf = s.queueOf ∧ s'.adding = s.adding ∧
        s'.returning = s.returning ∧ s'.marker = s.marker ∧
        (s'.answers = s.answers ∨ s'.answers = s.answers ++ [.takePending])) := by
  cases move
  case pump move => exact .inl move
  case handler move => exact .inr (.inl move)
  case timeout _ hpc =>
    exact .inr (.inr ⟨rfl, rfl, by simp [BodyState.adding, hpc], rfl, rfl, .inl rfl⟩)
  case dropUnpolled hpc =>
    exact .inr (.inr ⟨rfl, rfl, by simp [BodyState.adding, hpc], rfl, rfl, .inl rfl⟩)
  case drop hpc =>
    refine .inr (.inr ⟨rfl, rfl, ?_, rfl, rfl, .inl rfl⟩)
    rcases hpc with hpc | hpc | hpc | ⟨refusal, hpc⟩ <;> simp [BodyState.adding, hpc]
  case discard => exact .inr (.inr ⟨rfl, rfl, rfl, rfl, rfl, .inl rfl⟩)
  case poll hidle =>
    refine .inr (.inr ⟨rfl, ?_, rfl, ?_, rfl, .inl rfl⟩)
    · cases hchunks : s.chunks <;> simp [BodyState.queueOf, BodyState.inHand, hidle, hchunks]
    · simp [BodyState.returning, hidle]
  case take hidle _ =>
    refine .inr (.inr ⟨rfl, ?_, rfl, ?_, rfl, .inl rfl⟩)
    · simp [BodyState.queueOf, BodyState.inHand, hidle]
    · simp [BodyState.returning, hidle]
  case takePending hidle _ =>
    refine .inr (.inr ⟨rfl, ?_, rfl, ?_, rfl, .inr rfl⟩)
    · simp [BodyState.queueOf, BodyState.inHand, BodyState.answer, hidle]
    · simp [BodyState.returning, BodyState.answer, hidle]
  case collect callback hidle =>
    refine .inr (.inr ⟨rfl, ?_, rfl, ?_, rfl, .inl rfl⟩)
    · simp [BodyState.queueOf, BodyState.inHand, hidle]
    · simp [BodyState.returning, hidle]
  case notify callback hidle =>
    refine .inr (.inr ⟨rfl, ?_, rfl, ?_, rfl, .inl rfl⟩)
    · simp [BodyState.queueOf, BodyState.inHand, hidle]
    · simp [BodyState.returning, hidle]

/-- The marker that was pushed stays the one. -/
lemma PumpMove.marker (move : PumpMove args s s') (inv : BodyInv args s) {m : Chunk}
    (hm : s.marker = some m) : s'.marker = some m := by
  cases move
  case finish m' hpc hmarker =>
    have hok := inv.markerOk
    rw [hpc, hm] at hok
    cases hok
  all_goals exact hm

/-- A step keeps the agreement of the two sides. -/
lemma Agreeing.step (h : Agreeing args s) (hok : NoTakeBeforeFailure s a)
    (hs : s.step args a = some s') : Agreeing args s' := by
  have hinv := bodyInv_step a h.inv h.taking hok hs
  have htaking := taking_finished_step a h.taking hs
  rcases (bodyMove_of_step hs).frame with
    move | move | ⟨hbuffered, hqueue, hadding, hreturning, hmarker, hanswers⟩
  · refine ⟨hinv, htaking, move.buffered h.buffered, move.drained h.inv h.drained, ?_⟩
    rw [move.frame.2]
    intro a ha report hreport
    obtain ⟨failure, hm, hdescribe⟩ := h.failures a ha report hreport
    exact ⟨failure, move.marker h.inv hm, hdescribe⟩
  · exact ⟨hinv, htaking, move.buffered h.inv h.taking h.buffered,
      move.drained h.inv h.taking h.drained, move.failures h.inv h.taking h.failures⟩
  · have hmem {x : Answer} (hx : x ∈ s'.answers) : x ∈ s.answers ∨ x = .takePending := by
      rcases hanswers with hanswers | hanswers
      · exact .inl (hanswers ▸ hx)
      · rw [hanswers] at hx
        simpa using hx
    refine ⟨hinv, htaking, ?_, fun hsaid => ?_, fun x hx report hreport => ?_⟩
    · rw [hbuffered, hqueue, hadding]
      exact h.buffered
    · obtain ⟨x, hx, hend⟩ := hsaid
      rw [hreturning, hqueue]
      rcases hmem hx with hx | rfl
      · exact h.drained ⟨x, hx, hend⟩
      · exact absurd hend id
    · rw [hmarker]
      rcases hmem hx with hx | rfl
      · exact h.failures x hx report hreport
      · cases hreport

lemma agreeing_new (args : PumpArgs) : Agreeing args (BodyState.new args : BodyState κ) where
  inv := bodyInv_new args
  taking := by simp [BodyState.new]
  buffered := by
    simp [BodyState.new, BodyState.queueOf, BodyState.inHand, BodyState.adding]
  drained := by
    rintro ⟨a, ha, -⟩
    simp [BodyState.new] at ha
  failures := by simp [BodyState.new]

end Steps

/-! ## The limit -/

/-- Nothing cuts the pump off: neither the idle timer nor the end of the request. -/
def BodyAction.Uncut : BodyAction κ → Prop
  | .timeout | .drop | .discard => False
  | _ => True

instance : (a : BodyAction κ) → Decidable a.Uncut
  | .timeout | .drop | .discard => .isFalse id
  | .pump | .poll | .take | .collect _ | .notify _ | .handler => .isTrue trivial

/-- Only the pump and the handler's calls are scheduled, and no `take` pops before the marker of a
failure is there. -/
def Scheduled (s : BodyState κ) (a : BodyAction κ) : Prop := a.Uncut ∧ NoTakeBeforeFailure s a

instance (s : BodyState κ) (a : BodyAction κ) : Decidable (Scheduled s a) :=
  inferInstanceAs (Decidable (_ ∧ _))

/-- The declared length, if there is one, is that of the body. -/
def PumpArgs.DeclaredTrue (args : PumpArgs) : Prop :=
  ∀ length, args.declaredLength = some length → length = (bodyOf args.frames).length

/-- How the pump stands to the limit, in a run in which nothing cuts it off. -/
structure Limited (args : PumpArgs) (s : BodyState κ) : Prop where
  kept : s.discard = false
  read : s.pump.InLoop → ∃ consumed, args.frames = consumed ++ s.frames ∧
    s.total = (bodyOf consumed).length ∧ s.total ≤ args.maxBody
  within : s.pump = .pushing .ended ∨ s.marker = some .ended →
    (bodyOf args.frames).length ≤ args.maxBody
  refused : ∀ failure, s.pump = .lingering (some failure) ∨ s.pump = .pushing (.failed failure) ∨
      s.marker = some (.failed failure) →
    failure = .tooLarge args.maxBody ∧ args.maxBody < (bodyOf args.frames).length
  lingers : s.pump ≠ .lingering none
  settled : s.pump = .returned ∨ s.pump = .gone → s.finished = true

section Limit

variable {args : PumpArgs} {s s' : BodyState κ} {a : BodyAction κ}

lemma limited_new (args : PumpArgs) : Limited args (BodyState.new args : BodyState κ) where
  kept := rfl
  read _ := ⟨[], rfl, rfl, Nat.zero_le _⟩
  within h := by simp [BodyState.new] at h
  refused failure h := by simp [BodyState.new] at h
  lingers := by simp [BodyState.new]
  settled h := by simp [BodyState.new] at h

/-- The handler does not touch the pump's side of a body. -/
lemma HandlerMove.pumpSide (move : HandlerMove s s') :
    s'.pump = s.pump ∧ s'.marker = s.marker ∧ s'.frames = s.frames ∧ s'.total = s.total ∧
      s'.discard = s.discard ∧ s'.finished = s.finished := by
  cases move <;> exact ⟨rfl, rfl, rfl, rfl, rfl, rfl⟩

/-- The pump is past its loop once it has a marker. -/
lemma BodyInv.finished_of_pc (inv : BodyInv args s) {m : Chunk}
    (hpc : s.pump = .announcing m ∨ s.pump = .waking m) (hmarker : m.IsMarker) :
    s.finished = true := by
  have hm : s.marker = some m := by
    have hok := inv.markerOk
    cases m with
    | data bytes => exact absurd hmarker id
    | ended | failed failure =>
      rcases hpc with hpc | hpc <;> simpa [PumpPc.MarkerOk, hpc] using hok
  exact (inv.marked m hm).1

/-- The pump neither refuses the body nor is about to push its marker. -/
def PumpPc.Undecided : PumpPc → Prop
  | .lingering _ => False
  | .pushing chunk => ¬ chunk.IsMarker
  | _ => True

/-- A step of the pump that decides nothing about the body. -/
lemma Limited.move (h : Limited args s) (hmarker : s'.marker = s.marker)
    (hdiscard : s'.discard = s.discard) (hpc : s'.pump.Undecided)
    (hloop : s'.pump.InLoop → s.pump.InLoop ∧ s'.frames = s.frames ∧ s'.total = s.total)
    (hsettled : s'.pump = .returned ∨ s'.pump = .gone → s'.finished = true) : Limited args s' where
  kept := hdiscard.trans h.kept
  read hin := by
    obtain ⟨hbefore, hframes, htotal⟩ := hloop hin
    rw [hframes, htotal]
    exact h.read hbefore
  within hc := by
    rcases hc with hc | hc
    · rw [hc] at hpc
      exact absurd trivial hpc
    · exact h.within (.inr (hmarker ▸ hc))
  refused failure hc := by
    rcases hc with hc | hc | hc
    · rw [hc] at hpc
      exact absurd hpc id
    · rw [hc] at hpc
      exact absurd trivial hpc
    · exact h.refused failure (.inr (.inr (hmarker ▸ hc)))
  lingers hc := by
    rw [hc] at hpc
    exact hpc
  settled := hsettled

/-- The pump has read one more frame, within the limit. -/
lemma Limited.readFrame (h : Limited args s) (hin : s.pump.InLoop) {frame : Frame} {rest : List Frame}
    (hframes : s.frames = frame :: rest) {total : ℕ}
    (htotal : total = s.total + (bodyOf [frame]).length) (hwithin : total ≤ args.maxBody) {pc : PumpPc}
    (hpc : pc.InLoop) (hundecided : pc.Undecided) :
    Limited args { s with frames := rest, total := total, pump := pc } where
  kept := h.kept
  read _ := by
    obtain ⟨consumed, hall, hsum, -⟩ := h.read hin
    refine ⟨consumed ++ [frame], by simp [hall, hframes], ?_, hwithin⟩
    rw [bodyOf_append, List.length_append, ← hsum]
    exact htotal
  within hc := by
    rcases hc with rfl | hc
    · exact absurd trivial hundecided
    · exact h.within (.inr hc)
  refused failure hc := by
    rcases hc with rfl | rfl | hc
    · exact absurd hundecided id
    · exact absurd trivial hundecided
    · exact h.refused failure (.inr (.inr hc))
  lingers := by
    rintro rfl
    exact hundecided
  settled hc := by
    rcases hc with rfl | rfl <;> exact absurd hpc id

/-- The pump refuses the body as too large. -/
lemma Limited.refuse (h : Limited args s) (hover : args.maxBody < (bodyOf args.frames).length)
    (frames : List Frame) (total : ℕ) {pc : PumpPc}
    (hpc : pc = .lingering (some (.tooLarge args.maxBody)) ∨
      pc = .pushing (.failed (.tooLarge args.maxBody))) :
    Limited args { s with frames := frames, total := total, pump := pc } where
  kept := h.kept
  read hin := by rcases hpc with rfl | rfl <;> exact absurd hin (by simp [PumpPc.InLoop, Chunk.IsMarker])
  within hc := by
    rcases hc with hc | hc
    · rcases hpc with rfl | rfl <;> cases hc
    · exact h.within (.inr hc)
  refused failure hc := by
    refine ⟨?_, hover⟩
    rcases hc with hc | hc | hc
    · rcases hpc with rfl | rfl
      · exact (Option.some.inj (PumpPc.lingering.inj hc)).symm
      · cases hc
    · rcases hpc with rfl | rfl
      · cases hc
      · exact (Chunk.failed.inj (PumpPc.pushing.inj hc)).symm
    · exact (h.refused failure (.inr (.inr hc))).1
  lingers := by rcases hpc with rfl | rfl <;> simp
  settled hc := by rcases hpc with rfl | rfl <;> simp at hc

/-- A step of the pump. -/
lemma Limited.pumpMove (h : Limited args s) (inv : BodyInv args s) (herror : Frame.error ∉ args.frames)
    (hdeclared : args.DeclaredTrue) (move : PumpMove args s s') : Limited args s' := by
  cases move
  case discarded hpc hdiscard => simp [h.kept] at hdiscard
  case stop hpc hdiscard => simp [h.kept] at hdiscard
  case lingered hpc => exact absurd hpc h.lingers
  case declared hpc hdiscard hover =>
    refine h.refuse ?_ s.frames s.total (.inl rfl)
    cases hlength : args.declaredLength with
    | none => simp [hlength] at hover
    | some length =>
      rw [← hdeclared length hlength]
      simpa [hlength] using hover
  case refuse failure hpc =>
    obtain ⟨rfl, hover⟩ := h.refused failure (.inl hpc)
    exact h.refuse hover s.frames s.total (.inr rfl)
  case ended hpc hframes =>
    obtain ⟨consumed, hall, hsum, hwithin⟩ := h.read (by rw [hpc]; trivial)
    have hbody : (bodyOf args.frames).length ≤ args.maxBody := by
      rw [hall, hframes, List.append_nil, ← hsum]
      exact hwithin
    refine ⟨h.kept, fun hin => absurd trivial hin, fun _ => hbody, fun failure hc => ?_, by simp,
      by simp⟩
    rcases hc with hc | hc | hc
    · cases hc
    · cases hc
    · exact h.refused failure (.inr (.inr hc))
  case broken rest hpc hframes =>
    obtain ⟨consumed, hall, -, -⟩ := h.read (by rw [hpc]; trivial)
    exact absurd (by simp [hall, hframes]) herror
  case trailers rest hpc hframes =>
    obtain ⟨-, -, -, hwithin⟩ := h.read (by rw [hpc]; trivial)
    exact h.readFrame (by rw [hpc]; trivial) hframes rfl hwithin trivial trivial
  case empty rest hpc hframes hwithin =>
    exact h.readFrame (by rw [hpc]; trivial) hframes rfl hwithin trivial trivial
  case data bytes rest hpc hframes hwithin hbytes =>
    exact h.readFrame (by rw [hpc]; trivial) hframes (by simp [bodyOf]) hwithin id id
  case tooLarge bytes rest hpc hframes hover =>
    obtain ⟨consumed, hall, hsum, -⟩ := h.read (by rw [hpc]; trivial)
    refine h.refuse ?_ rest (s.total + bytes.length) (.inl rfl)
    rw [hall, hframes, bodyOf_append, List.length_append, ← hsum]
    simp only [bodyOf, List.flatMap_cons, List.length_append]
    omega
  case finish m hpc hmarker =>
    refine ⟨h.kept, fun hin => absurd hmarker hin, fun hc => ?_, fun failure hc => ?_, by simp,
      by simp⟩
    · obtain rfl : m = .ended := by simpa using hc
      exact h.within (.inl hpc)
    · obtain rfl : m = .failed failure := by simpa using hc
      exact h.refused failure (.inr (.inl hpc))
  case push bytes hpc =>
    exact h.move rfl rfl trivial (fun _ => ⟨by rw [hpc]; exact id, rfl, rfl⟩) (by simp)
  case append chunk hpc =>
    exact h.move rfl rfl trivial (fun hin => ⟨by rw [hpc]; exact hin, rfl, rfl⟩) (by simp)
  case quiet chunk hpc _ hfinished =>
    cases chunk with
    | data bytes =>
      exact h.move rfl rfl trivial (fun _ => ⟨by rw [hpc]; exact id, rfl, rfl⟩)
        (by simp [BodyState.afterPush])
    | ended | failed failure => simp [inv.finished_of_pc (.inl hpc) trivial] at hfinished
  case announce chunk hpc _ =>
    exact h.move rfl rfl trivial (fun hin => ⟨by rw [hpc]; exact hin, rfl, rfl⟩) (by simp)
  case wake chunk hpc =>
    cases chunk with
    | data bytes =>
      exact h.move rfl rfl trivial (fun _ => ⟨by rw [hpc]; exact id, rfl, rfl⟩)
        (by simp [BodyState.afterPush])
    | ended | failed failure =>
      exact h.move rfl rfl trivial (fun hin => absurd hin id) fun _ =>
        inv.finished_of_pc (.inr hpc) trivial
  case gone hpc hfinished => exact h.move rfl rfl trivial (fun hin => absurd hin id) fun _ => hfinished
  case abandon hpc hfinished => simp [h.settled (.inl hpc)] at hfinished
  case begin hpc | enter hpc _ _ | demanded hpc _ | above hpc _ | below hpc _ | whole hpc _ |
      notWhole hpc _ | discarding hpc _ | throttle hpc _ | resume hpc _ | read hpc _ =>
    exact h.move rfl rfl trivial (fun _ => ⟨by rw [hpc]; trivial, rfl, rfl⟩) (by simp)

/-- A step of a run in which nothing cuts the pump off. -/
lemma Limited.step (h : Limited args s) (inv : BodyInv args s) (herror : Frame.error ∉ args.frames)
    (hdeclared : args.DeclaredTrue) (hok : a.Uncut) (hs : s.step args a = some s') :
    Limited args s' := by
  cases bodyMove_of_step hs with
  | pump move => exact h.pumpMove inv herror hdeclared move
  | timeout | dropUnpolled | drop | discard => exact absurd hok id
  | poll | take | takePending | collect | notify =>
    exact ⟨h.kept, h.read, h.within, h.refused, h.lingers, h.settled⟩
  | handler move =>
    obtain ⟨hpump, hmarker, hframes, htotal, hdiscard, hfinished⟩ := move.pumpSide
    refine ⟨hdiscard.trans h.kept, ?_, ?_, ?_, ?_, ?_⟩
    · rw [hpump, hframes, htotal]
      exact h.read
    · rw [hpump, hmarker]
      exact h.within
    · rw [hpump, hmarker]
      exact h.refused
    · rw [hpump]
      exact h.lingers
    · rw [hpump, hfinished]
      exact h.settled

end Limit

/-! ## The marker -/

/-- An answer read off the marker of a body. -/
def Answer.Tells (m : Chunk) : Answer → Prop
  | .pollEnd => m = .ended
  | .takeEnd bytes => m = .ended ∧ bytes = []
  | .pollFailed status detail | .takeFailed status detail =>
    ∃ failure, m = .failed failure ∧ describe failure = (status, detail)
  | _ => False

/-- The handler has nothing in its hand but the marker. -/
def HandlerPc.Settled (m : Chunk) : HandlerPc κ → Prop
  | .polled chunk => chunk = some m
  | .demanding | .relieved _ _ => False
  | _ => True

/-- The marker is all that is left of a body. -/
structure Sticky (m : Chunk) (s : BodyState κ) : Prop where
  queue : s.queueOf = [m]
  finished : s.finished = true
  pump : (s.pump = .announcing m ∨ s.pump = .waking m) ∨ s.pump = .returned ∨ s.pump = .gone
  handler : s.handler.Settled m

section Marker

variable {args : PumpArgs} {s s' : BodyState κ} {a : BodyAction κ} {m : Chunk}

lemma Sticky.pumpMove (h : Sticky m s) (hm : m.IsMarker) (move : PumpMove args s s') :
    Sticky m s' := by
  have hafter : BodyState.afterPush m = .returned := by
    cases m with
    | data bytes => exact absurd hm id
    | ended | failed failure => rfl
  have hpump := h.pump
  cases move
  case quiet hfinished => simp [h.finished] at hfinished
  case announce chunk hpc _ =>
    obtain rfl : chunk = m := by simpa [hpc] using hpump
    exact ⟨h.queue, h.finished, .inl (.inr rfl), h.handler⟩
  case wake chunk hpc =>
    obtain rfl : chunk = m := by simpa [hpc] using hpump
    exact ⟨h.queue, h.finished, .inr (.inl hafter), h.handler⟩
  case gone => exact ⟨h.queue, h.finished, .inr (.inr rfl), h.handler⟩
  case abandon hfinished => simp [h.finished] at hfinished
  all_goals simp_all

/-- A step of the handler reads the marker, or answers nothing. -/
lemma Sticky.handlerMove (h : Sticky m s) (hm : m.IsMarker) (move : HandlerMove s s') :
    Sticky m s' ∧ (s'.answers = s.answers ∨ ∃ x, s'.answers = s.answers ++ [x] ∧ x.Tells m) := by
  have hsettled := h.handler
  have hqueue := h.queue
  cases move
  case nothing hpc _ | wanting hpc _ | demand hpc | data hpc =>
    simp [hpc, HandlerPc.Settled] at hsettled
  case relieve bytes hpc =>
    obtain rfl : .data bytes = m := by simpa [hpc, HandlerPc.Settled] using hsettled
    exact absurd hm id
  case ended hpc =>
    obtain rfl : .ended = m := by simpa [hpc, HandlerPc.Settled] using hsettled
    have hchunks : s.chunks = [] := by
      simpa [BodyState.queueOf, BodyState.inHand, hpc] using hqueue
    refine ⟨⟨?_, h.finished, h.pump, trivial⟩, .inr ⟨.pollEnd, rfl, rfl⟩⟩
    simp [BodyState.queueOf, BodyState.inHand, BodyState.answer, hchunks]
  case failed failure hpc =>
    obtain rfl : .failed failure = m := by simpa [hpc, HandlerPc.Settled] using hsettled
    have hchunks : s.chunks = [] := by
      simpa [BodyState.queueOf, BodyState.inHand, hpc] using hqueue
    refine ⟨⟨?_, h.finished, h.pump, trivial⟩, .inr ⟨_, rfl, failure, rfl, rfl⟩⟩
    simp [BodyState.queueOf, BodyState.inHand, BodyState.answer, hchunks]
  case take hpc =>
    have hchunks : s.chunks = [m] := by
      simpa [BodyState.queueOf, BodyState.inHand, hpc] using hqueue
    cases m with
    | data bytes => exact absurd hm id
    | ended =>
      refine ⟨⟨?_, h.finished, h.pump, trivial⟩, .inr ⟨.takeEnd [], ?_, rfl, rfl⟩⟩
      · simp [BodyState.takeStep, BodyState.takeLoop, hchunks, BodyState.queueOf, BodyState.inHand,
          BodyState.answer]
      · simp [BodyState.takeStep, BodyState.takeLoop, hchunks, BodyState.answer]
    | failed failure =>
      refine ⟨⟨?_, h.finished, h.pump, trivial⟩,
        .inr ⟨.takeFailed (describe failure).1 (describe failure).2, ?_, failure, rfl, rfl⟩⟩
      · simp [BodyState.takeStep, BodyState.takeLoop, hchunks, BodyState.queueOf, BodyState.inHand,
          BodyState.answer]
      · simp [BodyState.takeStep, BodyState.takeLoop, hchunks, BodyState.answer]
  case install callback hpc | collectDemand hpc | collectWake hpc _ | collectWait hpc _ |
      notifyWake hpc _ | notifyWait hpc _ =>
    refine ⟨⟨?_, h.finished, h.pump, trivial⟩, .inl rfl⟩
    simpa [BodyState.queueOf, BodyState.inHand, hpc] using hqueue

/-- Once the marker is all that is left, it stays, and every answer tells it. -/
lemma Sticky.step (h : Sticky m s) (hm : m.IsMarker) (hs : s.step args a = some s') :
    Sticky m s' ∧ (s'.answers = s.answers ∨ ∃ x, s'.answers = s.answers ++ [x] ∧ x.Tells m) := by
  have hqueue := h.queue
  have hpump := h.pump
  cases bodyMove_of_step hs with
  | pump move => exact ⟨h.pumpMove hm move, .inl move.frame.2⟩
  | handler move => exact h.handlerMove hm move
  | timeout _ hpc | dropUnpolled hpc => simp [hpc] at hpump
  | drop hpc => rcases hpc with hpc | hpc | hpc | ⟨refusal, hpc⟩ <;> simp [hpc] at hpump
  | discard => exact ⟨⟨h.queue, h.finished, h.pump, h.handler⟩, .inl rfl⟩
  | poll hidle =>
    have hchunks : s.chunks = [m] := by
      simpa [BodyState.queueOf, BodyState.inHand, hidle] using hqueue
    refine ⟨⟨?_, h.finished, h.pump, ?_⟩, .inl rfl⟩
    · simp [BodyState.queueOf, BodyState.inHand, hchunks]
    · simp [hchunks, HandlerPc.Settled]
  | takePending hidle hfinished => simp [h.finished] at hfinished
  | take hidle _ | collect callback hidle | notify callback hidle =>
    refine ⟨⟨?_, h.finished, h.pump, trivial⟩, .inl rfl⟩
    simpa [BodyState.queueOf, BodyState.inHand, hidle] using hqueue

/-- A marker that is all that is left is told by every later answer. -/
lemma Sticky.run (h : Sticky m s) (hm : m.IsMarker) {ok : BodyState κ → BodyAction κ → Prop}
    (run : Reaches (BodyState.step args) ok s s') :
    ∃ later, s'.answers = s.answers ++ later ∧ ∀ x ∈ later, x.Tells m := by
  have hinv : Sticky m s' ∧ ∃ later, s'.answers = s.answers ++ later ∧ ∀ x ∈ later, x.Tells m := by
    refine run.invariant (I := fun t => Sticky m t ∧ ∃ later, t.answers = s.answers ++ later ∧
      ∀ x ∈ later, x.Tells m) ⟨h, [], by simp⟩ ?_
    rintro t a t' ⟨hsticky, later, hlater, htells⟩ - taken
    obtain ⟨hnext, hanswers | ⟨x, hanswers, hx⟩⟩ := hsticky.step hm taken
    · exact ⟨hnext, later, hanswers.trans hlater, htells⟩
    · refine ⟨hnext, later ++ [x], ?_, ?_⟩
      · rw [hanswers, hlater, List.append_assoc]
      · intro y hy
        rcases List.mem_append.mp hy with hy | hy
        · exact htells y hy
        · rw [List.mem_singleton.mp hy]
          exact hx
  exact hinv.2

/-- Between two calls, a queue of nothing but the marker. -/
lemma BodyInv.sticky (inv : BodyInv args s) (hm : m.IsMarker) (hidle : s.handler = .idle)
    (hqueue : s.queueOf = [m]) : Sticky m s := by
  have hmem : m ∈ s.queueOf := by
    rw [hqueue]
    exact List.mem_singleton_self m
  cases hmarker : s.marker with
  | none => exact absurd hm ((inv.unmarked hmarker).2 m hmem)
  | some m' =>
    obtain ⟨hfinished, -, hlast⟩ := inv.marked m' hmarker
    have hnot : s.pump ≠ .appending m' := by
      intro hpc
      rw [if_pos hpc] at hlast
      exact hlast m hmem hm
    rw [if_neg hnot] at hlast
    obtain ⟨pieces, hpieces, -⟩ := hlast
    obtain rfl : m = m' := by
      have hsame := hqueue.symm.trans hpieces
      cases pieces with
      | nil => simpa using hsame
      | cons c pieces => simp at hsame
    have hok := inv.markerOk
    rw [hmarker] at hok
    refine ⟨hqueue, hfinished, ?_, by rw [hidle]; trivial⟩
    match hpump : s.pump with
    | .appending (.data _) | .announcing (.data _) | .waking (.data _) => simp [hpump, PumpPc.MarkerOk] at hok
    | .appending .ended | .appending (.failed _) =>
      rw [hpump] at hok hnot
      exact absurd (congrArg PumpPc.appending (Option.some.inj hok).symm) hnot
    | .announcing .ended | .announcing (.failed _) =>
      rw [hpump] at hok
      exact .inl (.inl (congrArg PumpPc.announcing (Option.some.inj hok).symm))
    | .waking .ended | .waking (.failed _) =>
      rw [hpump] at hok
      exact .inl (.inr (congrArg PumpPc.waking (Option.some.inj hok).symm))
    | .returned => exact .inr (.inl rfl)
    | .gone => exact .inr (.inr rfl)
    | .unpolled | .waiting | .demanded | .lingering _ | .loadBuffered | .loadWhole | .loadDiscard |
        .throttled | .checkDiscard | .reading | .pushing _ => simp [hpump, PumpPc.MarkerOk] at hok

end Marker

/-! ## One body -/

/-- The outcomes of the three ways to read a body, in a state of the two that go through the pump. -/
structure SameBody (args : PumpArgs) (s : BodyState κ) : Prop where
  -- END: the chunks of `poll` and then the bytes of `take` are what `collect_bounded` returns
  whole : s.SaidEnd → collectBounded args.maxBody args.frames [] = .ok (s.polled ++ s.taken)
  -- a failure is a refusal, of a body that `collect_bounded` refuses too
  refused : ∀ a ∈ s.answers, ∀ report, a.report = some report →
    report = describe (.tooLarge args.maxBody) ∧
      collectBounded args.maxBody args.frames [] = .error (.tooLarge args.maxBody)
  -- and once the pump is done, the marker it left says which it is
  decided : s.pump = .gone →
    (s.marker = some .ended ∧ ∃ body, collectBounded args.maxBody args.frames [] = .ok body) ∨
    (s.marker = some (.failed (.tooLarge args.maxBody)) ∧
      collectBounded args.maxBody args.frames [] = .error (.tooLarge args.maxBody))

section

variable {args : PumpArgs} {s s' : BodyState κ}

lemma Agreeing.run (run : Reaches (BodyState.step args) Scheduled (BodyState.new args) s) :
    Agreeing args s :=
  run.invariant (agreeing_new args) fun _ _ _ h hok hs => h.step hok.2 hs

lemma Limited.run (herror : Frame.error ∉ args.frames) (hdeclared : args.DeclaredTrue)
    (run : Reaches (BodyState.step args) Scheduled (BodyState.new args) s) : Limited args s := by
  have hinv : Agreeing args s ∧ Limited args s := by
    refine run.invariant (I := fun s => Agreeing args s ∧ Limited args s)
      ⟨agreeing_new args, limited_new args⟩ ?_
    intro s a s' h hok hs
    exact ⟨h.1.step hok.2 hs, h.2.step h.1.inv herror hdeclared hok.1 hs⟩
  exact hinv.2

/-- What the two sides know of the limit makes them one body. -/
lemma Limited.sameBody (herror : Frame.error ∉ args.frames) (hagree : Agreeing args s)
    (h : Limited args s) : SameBody args s := by
  have hcollect := collectBounded_eq herror [] (Nat.zero_le args.maxBody)
  rw [List.length_nil, Nat.zero_add, List.nil_append] at hcollect
  have hok (hwithin : (bodyOf args.frames).length ≤ args.maxBody) :
      collectBounded args.maxBody args.frames [] = .ok (bodyOf args.frames) := by
    rw [hcollect, if_neg (Nat.not_lt.mpr hwithin)]
  have hfail (hover : args.maxBody < (bodyOf args.frames).length) :
      collectBounded args.maxBody args.frames [] = .error (.tooLarge args.maxBody) := by
    rw [hcollect, if_pos hover]
  refine ⟨fun hsaid => ?_, fun a ha report hreport => ?_, fun hgone => ?_⟩
  · have hm := hagree.inv.saidEnd hsaid
    have hsent := (hagree.inv.complete (.inr hm)).1
    obtain ⟨hreturning, hdata⟩ := hagree.drained hsaid
    have hgiven : s.polled ++ s.taken = bodyOf args.frames := by
      rcases hagree.inv.accounted (by simp [hm]) with ⟨htaken, hall⟩ | ⟨-, -, -, hall⟩
      · rw [hreturning, hdata, List.append_nil, List.append_nil] at hall
        rw [htaken, List.append_nil, hall, hsent]
      · rw [hall, hsent]
    rw [hgiven]
    exact hok (h.within (.inr hm))
  · obtain ⟨failure, hm, rfl⟩ := hagree.failures a ha report hreport
    obtain ⟨rfl, hover⟩ := h.refused failure (.inr (.inr hm))
    exact ⟨rfl, hfail hover⟩
  · have hfinished := h.settled (.inr hgone)
    cases hm : s.marker with
    | none => simp [(hagree.inv.unmarked hm).1] at hfinished
    | some m =>
      cases m with
      | data bytes => exact absurd (hagree.inv.marked _ hm).2.1 id
      | ended => exact .inl ⟨rfl, _, hok (h.within (.inr hm))⟩
      | failed failure =>
        obtain ⟨rfl, hover⟩ := h.refused failure (.inr (.inr hm))
        exact .inr ⟨rfl, hfail hover⟩

/-- **One body, however it is read.**  In every run of the pump and of the handler's calls in which no
`take` pops between the store of `finished` and the append of a failure marker: a body whose frames end
without an error is given out, or refused as too large, as `collect_bounded` does; a marker that is all
that is left is told by every later answer; and `buffered` counts the bytes queued (with the chunk
`poll` is accounting for) and those about to be appended, so that it never goes below what is
subtracted. -/
theorem bodies_agree (args : PumpArgs)
    (run : Reaches (BodyState.step args) Scheduled (BodyState.new args) s) :
    (Frame.error ∉ args.frames → args.DeclaredTrue → SameBody args s) ∧
    (∀ m : Chunk, m.IsMarker → s.handler = .idle → s.queueOf = [m] →
      ∀ s', Reaches (BodyState.step args) Scheduled s s' →
        ∃ later, s'.answers = s.answers ++ later ∧ ∀ a ∈ later, a.Tells m) ∧
    s.buffered = (dataOf s.queueOf).length + s.adding ∧
    (∀ bytes, s.handler = .polled (some (.data bytes)) → bytes.length ≤ s.buffered) ∧
    (s.handler = .taking → (dataOf s.chunks).length ≤ s.buffered) := by
  have hagree := Agreeing.run run
  refine ⟨fun herror hdeclared => ?_, fun m hm hidle hqueue s' later => ?_, hagree.buffered,
    fun bytes hpc => ?_, fun hpc => ?_⟩
  · exact (Limited.run herror hdeclared run).sameBody herror hagree
  · exact (hagree.inv.sticky hm hidle hqueue).run hm later
  · rw [hagree.buffered]
    simp [BodyState.queueOf, BodyState.inHand, hpc]
    omega
  · rw [hagree.buffered]
    simp [BodyState.queueOf, BodyState.inHand, hpc]

end

/-- A body of four bytes, with a limit of two. -/
def longUpload : PumpArgs where
  frames := [.data [1, 2], .data [3, 4], .trailers]
  declaredLength := some 4
  maxBody := 4
  idle := false

/-- The pump and a handler that polls and collects, to the end of the body. -/
def pollAndCollect : List (BodyAction Unit) :=
  [.pump, .poll, .handler, .handler] ++ List.replicate 9 .pump ++ [.poll, .handler, .handler] ++
    [.collect (), .handler, .handler, .handler] ++ List.replicate 17 .pump ++ [.take, .handler]

/-- Half of it polled and the rest taken. -/
theorem bodies_agree_halves :
    ∃ s : BodyState Unit,
      Reaches (BodyState.step longUpload) Scheduled (BodyState.new longUpload) s ∧
        s.polled = [1, 2] ∧ s.taken = [3, 4] ∧ SameBody longUpload s := by
  have run : Reaches (BodyState.step longUpload) Scheduled (BodyState.new longUpload)
      (_ : BodyState Unit) := Reaches.of_exec pollAndCollect rfl
  exact ⟨_, run, rfl, rfl, (bodies_agree longUpload run).1 (by decide)
    (fun length hlength => (Option.some.inj hlength).symm)⟩

/-- The same body with a limit of two. -/
def overlongUpload : PumpArgs := { longUpload with declaredLength := none, maxBody := 2 }

/-- The handler collects while the pump finds the body too large, stores `finished`, and is interrupted
before it appends the refusal. -/
def raceToRefused : List (BodyAction Unit) :=
  [.pump, .collect (), .handler, .handler, .handler] ++ List.replicate 13 .pump ++ [.take, .handler]

/-- `take` then answers END with the part that was within the limit, of a body that `collect_bounded`
refuses. -/
theorem take_accepts_refused_body :
    ∃ s : BodyState Unit,
      Reaches (BodyState.step overlongUpload) (fun _ a => a.Uncut) (BodyState.new overlongUpload) s ∧
        s.answers = [.takeEnd [1, 2]] ∧
        collectBounded overlongUpload.maxBody overlongUpload.frames [] = .error (.tooLarge 2) ∧
        ¬ SameBody overlongUpload s := by
  have hnot : ∀ s : BodyState Unit, s.answers = [.takeEnd [1, 2]] → ¬ SameBody overlongUpload s := by
    intro s hanswers h
    have hwhole := h.whole ⟨.takeEnd [1, 2], by simp [hanswers], trivial⟩
    simp [overlongUpload, longUpload, collectBounded] at hwhole
  exact ⟨_, Reaches.of_exec raceToRefused rfl, rfl, rfl, hnot _ rfl⟩

end Oxbrook
