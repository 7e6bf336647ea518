import Oxbrook.Foundation.Tally
import Oxbrook.Sockets.Bridge

/-!
# Closing a WebSocket

Each callback given to `on_close` is in one place at a time: in `close_waiters`, in the hands of a call of
`mark_closed`, with the loop, or run.  Whoever pushes a callback looks at the flag once more afterwards, so
none is left in `close_waiters` once the socket's own `mark_closed` and the `on_close` are done.  Together
with the invariant of the reader this gives the contract of the bridge, `socket_bridge`.
-/

namespace Oxbrook

open StepMachine

variable {κ : Type*}

/-- A call of `mark_closed` that has not taken `close_waiters`. -/
def MarkPc.Ahead : MarkPc κ → Prop
  | .handing _ | .over => False
  | _ => True

/-- A call of `on_close` has handed its callback over: it waits, is on its way, or has run. -/
def OnClosePc.registered : OnClosePc → ℕ
  | .idle | .testing | .pushing => 0
  | _ => 1

/-- It is on the point of giving its callback to the loop. -/
def OnClosePc.inHand : OnClosePc → ℕ
  | .direct => 1
  | _ => 0

variable [DecidableEq κ]

/-- How often a call of `mark_closed` has a callback in hand. -/
def MarkPc.handed (k : κ) : MarkPc κ → ℕ
  | .handing rest => rest.count k
  | _ => 0

/-- How often a callback is on its way to the loop or with it. -/
def Bridge.pending [Fintype κ] (s : Bridge κ) (k : κ) : ℕ :=
  tally (fun _ => MarkPc.handed k) s.marks + s.wakeups.count (.close k) + s.soon.count (.close k) +
    (s.calls k).inHand

/-- The invariant of the closing side. -/
structure Bridge.Closing [Fintype κ] (s : Bridge κ) : Prop where
  once : ∀ k, s.closeWaiters.count k + s.pending k + s.ran k = (s.calls k).registered
  early : s.closed = false → ∀ k, s.pending k + s.ran k = 0
  awaited : ∀ k ∈ s.closeWaiters, (s.marks none).Ahead ∨ s.calls k = .rechecking ∨
    s.calls k = .marking ∧ (s.marks (some k)).Ahead

namespace Bridge

variable [Fintype κ] {s t : Bridge κ}

theorem closing_new : (new : Bridge κ).Closing := by
  constructor <;> simp [new, pending, tally, MarkPc.handed, OnClosePc.registered, OnClosePc.inHand]

/-- A step that moves no callback of `on_close`. -/
lemma Closing.congr (h : s.Closing) (waiters : t.closeWaiters = s.closeWaiters)
    (pending : ∀ k, t.pending k = s.pending k) (ran : t.ran = s.ran) (calls : t.calls = s.calls)
    (closed : t.closed = false → s.closed = false)
    (marks : ∀ j, (s.marks j).Ahead → (t.marks j).Ahead) : t.Closing where
  once k := by rw [waiters, pending, ran, calls]; exact h.once k
  early hopen k := by rw [pending, ran]; exact h.early (closed hopen) k
  awaited k hk := by
    rw [calls]
    exact (h.awaited k (waiters ▸ hk)).imp (marks none) (Or.imp id fun hmark => ⟨hmark.1, marks _ hmark.2⟩)

/-- The same when nothing that `pending` counts is touched. -/
lemma Closing.same (h : s.Closing) (waiters : t.closeWaiters = s.closeWaiters)
    (wakeups : ∀ k, t.wakeups.count (.close k) = s.wakeups.count (.close k))
    (soon : ∀ k, t.soon.count (.close k) = s.soon.count (.close k)) (ran : t.ran = s.ran)
    (calls : t.calls = s.calls) (closed : t.closed = s.closed) (marks : t.marks = s.marks) : t.Closing :=
  h.congr waiters (fun k => by rw [Bridge.pending, marks, wakeups, soon, calls]; rfl) ran calls
    (fun hopen => closed ▸ hopen) fun j hj => by rw [marks]; exact hj

/-- A call of `mark_closed` moves. -/
lemma pending_setMark (j : Option κ) (pc : MarkPc κ) (k : κ) :
    (s.setMark j pc).pending k + (s.marks j).handed k = s.pending k + pc.handed k := by
  have hsum := tally_update (fun _ => MarkPc.handed k) s.marks j pc
  simp only [pending, setMark]
  omega

/-- A call of `mark_closed` moves with no callback in hand. -/
lemma Closing.mark (h : s.Closing) (j : Option κ) (pc : MarkPc κ) (before : ∀ k, (s.marks j).handed k = 0)
    (after : ∀ k, pc.handed k = 0) (ahead : (s.marks j).Ahead → pc.Ahead) : (s.setMark j pc).Closing := by
  refine h.congr rfl (fun k => ?_) rfl rfl id fun i hi => ?_
  · have hmark := pending_setMark (s := s) j pc k
    rw [before, after] at hmark
    exact hmark
  · by_cases hij : i = j
    · subst hij
      simpa [setMark] using ahead hi
    · simpa [setMark, hij] using hi

/-- A call of `on_close` moves: what is to be shown is about its own callback. -/
lemma Closing.call (h : s.Closing) (k : κ) (ran : t.ran = s.ran) (closed : t.closed = s.closed)
    (others : ∀ j, j ≠ k → t.closeWaiters.count j = s.closeWaiters.count j ∧ t.pending j = s.pending j ∧
      t.calls j = s.calls j)
    (marks : ∀ j, (s.marks j).Ahead → (t.marks j).Ahead)
    (once : t.closeWaiters.count k + t.pending k + s.ran k = (t.calls k).registered)
    (early : s.closed = false → t.pending k = s.pending k)
    (awaited : k ∈ t.closeWaiters → (t.marks none).Ahead ∨ t.calls k = .rechecking ∨
      t.calls k = .marking ∧ (t.marks (some k)).Ahead) : t.Closing := by
  refine ⟨fun j => ?_, fun hopen j => ?_, fun j hj => ?_⟩
  · rw [ran]
    by_cases hjk : j = k
    · rw [hjk]
      exact once
    · obtain ⟨hwaiters, hpending, hcalls⟩ := others j hjk
      rw [hwaiters, hpending, hcalls]
      exact h.once j
  · rw [closed] at hopen
    rw [ran]
    have hpending : t.pending j = s.pending j := by
      by_cases hjk : j = k
      · rw [hjk]
        exact early hopen
      · exact (others j hjk).2.1
    rw [hpending]
    exact h.early hopen j
  · by_cases hjk : j = k
    · rw [hjk] at hj ⊢
      exact awaited hj
    · obtain ⟨hwaiters, -, hcalls⟩ := others j hjk
      have hmem : j ∈ s.closeWaiters := by
        rw [← List.count_pos_iff, ← hwaiters]
        exact List.count_pos_iff.mpr hj
      rw [hcalls]
      exact (h.awaited j hmem).imp (marks none) (Or.imp id fun hmark => ⟨hmark.1, marks _ hmark.2⟩)

omit [Fintype κ] in
lemma count_close_of_ne {j k : κ} (h : j ≠ k) (l : List (SocketCallback κ)) :
    (l ++ [SocketCallback.close k]).count (SocketCallback.close j) =
      l.count (SocketCallback.close j) := by
  have hcount : [SocketCallback.close k].count (SocketCallback.close j) = 0 :=
    List.count_eq_zero.mpr (by simpa using h)
  rw [List.count_append, hcount, Nat.add_zero]

omit [Fintype κ] in
lemma count_close_self (k : κ) (l : List (SocketCallback κ)) :
    (l ++ [SocketCallback.close k]).count (SocketCallback.close k) =
      l.count (SocketCallback.close k) + 1 := by
  rw [List.count_append, List.count_singleton_self]

lemma pending_setCall_of_ne {j k : κ} (h : j ≠ k) (pc : OnClosePc) :
    (s.setCall k pc).pending j = s.pending j := by
  simp only [pending, setCall, Function.update_of_ne h]

lemma pending_setCall (k : κ) (pc : OnClosePc) :
    (s.setCall k pc).pending k + (s.calls k).inHand = s.pending k + pc.inHand := by
  simp only [pending, setCall, Function.update_self]
  omega

/-- A call of `on_close` moves without touching what is shared. -/
lemma Closing.moveCall (h : s.Closing) (k : κ) (pc : OnClosePc)
    (registered : pc.registered + (s.calls k).inHand = (s.calls k).registered + pc.inHand)
    (closed : s.closed = false → pc.inHand = (s.calls k).inHand)
    (awaited : k ∈ s.closeWaiters → (s.marks none).Ahead ∨ pc = .rechecking) :
    (s.setCall k pc).Closing := by
  have hpending := pending_setCall (s := s) k pc
  have honce := h.once k
  refine h.call k rfl rfl (fun j hj => ⟨rfl, pending_setCall_of_ne hj pc, ?_⟩) (fun _ => id) ?_ ?_ ?_
  · exact Function.update_of_ne hj _ _
  · simp only [Bridge.setCall, Function.update_self] at hpending ⊢
    omega
  · intro hopen
    have hsame := closed hopen
    omega
  · intro hk
    refine (awaited hk).imp id fun hpc => .inl ?_
    rw [← hpc]
    exact Function.update_self _ _ _

/-- `on_close` keeps the invariant. -/
theorem Closing.registerStep (h : s.Closing) (marking : s.Marking) {k : κ}
    (taken : s.registerStep k = some t) : t.Closing := by
  have honce := h.once k
  have hwaits := h.awaited k
  unfold Bridge.registerStep at taken
  split at taken
  case h_1 hcall =>
    simp only [hcall, reduceCtorEq, false_and, or_false] at hwaits
    by_cases hclosed : s.closed = true
    · rw [if_pos hclosed] at taken
      cases taken
      exact h.moveCall k .direct (by rw [hcall]; rfl) (by simp [hclosed]) fun hk => .inl (hwaits hk)
    · rw [if_neg hclosed] at taken
      cases taken
      exact h.moveCall k .pushing (by rw [hcall]; rfl) (by simp [hcall, OnClosePc.inHand])
        fun hk => .inl (hwaits hk)
  case h_2 hcall =>
    cases taken
    simp only [hcall, reduceCtorEq, false_and, or_false] at hwaits
    have hsame : (setCall { s with soon := s.soon ++ [.close k] } k .done).pending k =
        s.pending k := by
      simp only [pending, setCall, Function.update_self, count_close_self, hcall, OnClosePc.inHand]
      omega
    refine h.call k rfl rfl (fun j hj => ⟨rfl, ?_, Function.update_of_ne hj _ _⟩) (fun _ => id) ?_
      (fun _ => hsame) fun hk => .inl (hwaits hk)
    · rw [pending_setCall_of_ne hj]
      simp only [pending, count_close_of_ne hj]
    · rw [hsame]
      simpa [setCall, hcall, OnClosePc.registered] using honce
  case h_3 hcall =>
    cases taken
    have hsame : (setCall { s with closeWaiters := s.closeWaiters ++ [k] } k .rechecking).pending k =
        s.pending k := by
      simp only [pending, setCall, Function.update_self, hcall, OnClosePc.inHand]
    refine h.call k rfl rfl (fun j hj => ⟨?_, ?_, Function.update_of_ne hj _ _⟩) (fun _ => id) ?_
      (fun _ => hsame) fun _ => .inr (.inl (Function.update_self _ _ _))
    · have hcount : [k].count j = 0 := List.count_eq_zero.mpr (by simpa using hj)
      simp [setCall, hcount]
    · rw [pending_setCall_of_ne hj]
      rfl
    · rw [hsame]
      simp only [hcall, OnClosePc.registered] at honce
      simp only [setCall, Function.update_self, List.count_append, List.count_singleton_self,
        OnClosePc.registered]
      omega
  case h_4 hcall =>
    split at taken
    case isTrue hclosed =>
      cases taken
      have habsent : s.marks (some k) = .absent := by
        by_contra hpresent
        cases hcall.symm.trans (marking.others k hpresent).2
      have hmark : ∀ j, (s.setMark (some k) .storing).pending j = s.pending j := by
        intro j
        have hpending := pending_setMark (s := s) (some k) .storing j
        rw [habsent] at hpending
        exact hpending
      have hsame := pending_setCall (s := s.setMark (some k) .storing) k .marking
      have hcall' : (s.setMark (some k) .storing).calls k = .rechecking := hcall
      rw [hmark, hcall'] at hsame
      refine h.call k rfl rfl (fun j hj => ⟨rfl, ?_, Function.update_of_ne hj _ _⟩) (fun j hj => ?_) ?_
        (fun _ => hsame) fun hk => .inr (.inr ⟨Function.update_self _ _ _, ?_⟩)
      · rw [pending_setCall_of_ne hj, hmark]
      · by_cases hjk : j = some k
        · subst hjk
          simp [setCall, setMark, MarkPc.Ahead]
        · simpa [setCall, setMark, hjk] using hj
      · simp only [OnClosePc.inHand, Nat.add_zero] at hsame
        rw [hsame]
        simpa [setCall, setMark, hcall, OnClosePc.registered] using honce
      · simp [setCall, setMark, MarkPc.Ahead]
    case isFalse hopen =>
      cases taken
      -- the flag is still clear, so the task has not taken the list
      have hahead : (s.marks none).Ahead := by
        have hstored := mt marking.stored.mpr hopen
        revert hstored
        cases s.marks none <;> simp [MarkPc.Stored, MarkPc.Ahead]
      exact h.moveCall k .done (by rw [hcall]; rfl) (by simp [hcall, OnClosePc.inHand])
        fun _ => .inl hahead
  all_goals cases taken

/-- The loop runs a callback. -/
lemma Closing.run (h : s.Closing) (t : Bridge κ) (c : SocketCallback κ)
    (waiters : t.closeWaiters = s.closeWaiters) (ran : t.ran = s.ran) (calls : t.calls = s.calls)
    (closed : t.closed = s.closed) (marks : t.marks = s.marks)
    (pending : ∀ k, t.pending k + [c].count (.close k) = s.pending k) : (t.run c).Closing := by
  have hpending : ∀ k, (t.run c).pending k = t.pending k := by
    intro k
    cases c <;> rfl
  cases c with
  | resolve f =>
    refine h.congr waiters (fun k => ?_) ran calls (fun hopen => closed ▸ hopen) fun j hj => ?_
    · rw [hpending, ← pending k]
      simp
    · rw [run_marks, marks]
      exact hj
  | close k =>
    have hran : ∀ j, (t.run (.close k)).ran j = s.ran j + [SocketCallback.close k].count (.close j) := by
      intro j
      by_cases hjk : j = k
      · subst hjk
        simp [Bridge.run, ran]
      · have hcount : [SocketCallback.close k].count (.close j) = 0 :=
          List.count_eq_zero.mpr (by simpa using hjk)
        simp [Bridge.run, ran, hjk, hcount]
    refine ⟨fun j => ?_, fun hopen j => ?_, fun j hj => ?_⟩
    · have honce := h.once j
      rw [← pending j] at honce
      rw [hpending, hran, run_calls, calls, show (t.run (.close k)).closeWaiters = s.closeWaiters from waiters]
      omega
    · have hearly := h.early (closed ▸ hopen) k
      rw [← pending k, List.count_singleton_self] at hearly
      omega
    · rw [run_marks, run_calls, marks, calls]
      exact h.awaited j (waiters ▸ hj)

/-- `mark_closed` keeps the invariant. -/
theorem Closing.markStep (h : s.Closing) (marking : s.Marking) {j : Option κ}
    (taken : s.markStep j = some t) : t.Closing := by
  unfold Bridge.markStep at taken
  split at taken
  case h_1 hmark =>
    cases taken
    have hmoved := h.mark j .waking (by simp [hmark, MarkPc.handed]) (fun _ => rfl) fun _ => trivial
    exact ⟨hmoved.once, nofun, hmoved.awaited⟩
  case h_2 hmark =>
    split at taken
    case h_1 =>
      cases taken
      exact h.mark j .taking (by simp [hmark, MarkPc.handed]) (fun _ => rfl) fun _ => trivial
    case h_2 f hwaiter =>
      cases taken
      have hsame : Closing { s with waiter := none } :=
        h.same rfl (fun _ => rfl) (fun _ => rfl) rfl rfl rfl rfl
      exact hsame.mark j (.scheduling f) (by simp [hmark, MarkPc.handed]) (fun _ => rfl) fun _ => trivial
  case h_3 f hmark =>
    cases taken
    rw [schedule_of_bound s _ (marking.bound_of_mark (j := j) (by simp [hmark]))]
    have hsame : Closing { s with wakeups := s.wakeups ++ [.resolve f] } :=
      h.same rfl (fun _ => by simp) (fun _ => rfl) rfl rfl rfl rfl
    exact hsame.mark j .taking (by simp [hmark, MarkPc.handed]) (fun _ => rfl) fun _ => trivial
  case h_4 hmark =>
    cases taken
    have hclosed := marking.closed_of_stored (j := j) (by rw [hmark]; trivial)
    have hpending : ∀ k, (setMark { s with closeWaiters := [] } j (.handing s.closeWaiters)).pending k =
        s.pending k + s.closeWaiters.count k := by
      intro k
      have hmoved := pending_setMark (s := s) j (.handing s.closeWaiters) k
      rw [hmark] at hmoved
      exact hmoved
    refine ⟨fun k => ?_, fun hopen => ?_, nofun⟩
    · rw [hpending]
      have honce := h.once k
      simp only [setMark, List.count_nil]
      omega
    · cases hclosed.symm.trans hopen
  case h_5 k rest hmark =>
    cases taken
    rw [schedule_of_bound s _ (marking.bound_of_mark (j := j) (by simp [hmark]))]
    refine h.congr rfl (fun i => ?_) rfl rfl id fun i hi => ?_
    · have hmoved := pending_setMark (s := { s with wakeups := s.wakeups ++ [.close k] }) j
        (.handing rest) i
      have hhanded : (s.marks j).handed i = [k].count i + rest.count i := by
        rw [hmark, MarkPc.handed, ← List.count_append]
        rfl
      have hscheduled : Bridge.pending { s with wakeups := s.wakeups ++ [.close k] } i =
          s.pending i + [k].count i := by
        by_cases hik : i = k
        · subst hik
          simp only [pending, count_close_self, List.count_singleton_self]
          omega
        · have hcount : [k].count i = 0 := List.count_eq_zero.mpr (by simpa using hik)
          simp only [pending, count_close_of_ne hik, hcount, Nat.add_zero]
      rw [hscheduled, MarkPc.handed] at hmoved
      simp only at hmoved
      omega
    · by_cases hij : i = j
      · rw [hij, hmark] at hi
        exact hi.elim
      · simpa [setMark, hij] using hi
  case h_6 hmark =>
    cases taken
    refine h.mark j .over (by simp [hmark, MarkPc.handed]) (fun _ => rfl) fun hahead => ?_
    rw [hmark] at hahead
    exact hahead
  all_goals cases taken

omit [Fintype κ] in
/-- What `receive` leaves to the closing side, but for the callback of its future. -/
lemma readStep_closing (taken : s.readStep = some t) :
    t.closeWaiters = s.closeWaiters ∧ t.wakeups = s.wakeups ∧ t.ran = s.ran ∧
      ∀ k, t.soon.count (.close k) = s.soon.count (.close k) := by
  unfold readStep at taken
  grind

/-- Every step keeps the invariant. -/
theorem Closing.step (h : s.Closing) (marking : s.Marking) {a : BridgeAction κ}
    (taken : s.step a = some t) : t.Closing := by
  cases a with
  | bind =>
    obtain ⟨-, rfl⟩ := of_guard taken
    exact h.same rfl (fun _ => rfl) (fun _ => rfl) rfl rfl rfl rfl
  | frame m =>
    obtain ⟨-, rfl⟩ := of_guard taken
    exact h.same rfl (fun _ => rfl) (fun _ => rfl) rfl rfl rfl rfl
  | close =>
    obtain ⟨⟨-, hidle⟩, rfl⟩ := of_guard taken
    have habsent : s.marks none = .absent := by simpa [hidle] using marking.closing
    have hsame : Closing { s with task := .closing } :=
      h.same rfl (fun _ => rfl) (fun _ => rfl) rfl rfl rfl rfl
    exact hsame.mark none .storing (by simp [habsent, MarkPc.handed]) (fun _ => rfl) fun _ => trivial
  | task =>
    simp only [Bridge.step, taskStep] at taken
    split at taken
    case h_1 =>
      split at taken
      all_goals
        cases taken
        exact h.same rfl (fun _ => rfl) (fun _ => rfl) rfl rfl rfl rfl
    case h_2 f htask =>
      cases taken
      have hbound : s.bound = true := by
        by_contra hfalse
        cases htask.symm.trans (marking.bound (by simpa using hfalse))
      rw [schedule_of_bound s _ hbound]
      exact h.same rfl (fun _ => by simp) (fun _ => rfl) rfl rfl rfl rfl
    all_goals cases taken
  | mark j => exact h.markStep marking taken
  | receive =>
    obtain ⟨-, rfl⟩ := of_guard taken
    exact h.same rfl (fun _ => rfl) (fun _ => rfl) rfl rfl rfl rfl
  | read =>
    obtain ⟨hmarks, hclosed, -, -, hcalls⟩ := readStep_frame taken
    obtain ⟨hwaiters, hwakeups, hran, hsoon⟩ := readStep_closing taken
    exact h.same hwaiters (fun _ => by rw [hwakeups]) hsoon hran hcalls hclosed hmarks
  | cancel =>
    simp only [Bridge.step] at taken
    split at taken
    · cases taken
      exact h.same rfl (fun _ => rfl) (fun _ => rfl) rfl rfl rfl rfl
    · cases taken
  | onClose k =>
    obtain ⟨hidle, rfl⟩ := of_guard taken
    refine h.moveCall k .testing (by rw [hidle]; rfl) (by simp [hidle, OnClosePc.inHand]) fun hk => ?_
    have hwaits := h.awaited k hk
    simpa [hidle] using hwaits
  | register k => exact h.registerStep marking taken
  | runWakeup =>
    simp only [Bridge.step] at taken
    split at taken
    case h_1 => cases taken
    case h_2 c rest hwakeups =>
      cases taken
      refine h.run { s with wakeups := rest } c rfl rfl rfl rfl rfl fun k => ?_
      have hcount : s.wakeups.count (.close k) = [c].count (.close k) + rest.count (.close k) := by
        rw [hwakeups, ← List.count_append]
        rfl
      simp only [pending, hcount]
      omega
  | runSoon =>
    simp only [Bridge.step] at taken
    split at taken
    case h_1 => cases taken
    case h_2 c rest hsoon =>
      cases taken
      refine h.run { s with soon := rest } c rfl rfl rfl rfl rfl fun k => ?_
      have hcount : s.soon.count (.close k) = [c].count (.close k) + rest.count (.close k) := by
        rw [hsoon, ← List.count_append]
        rfl
      simp only [pending, hcount]
      omega

end Bridge

/-! ## The contract -/

/-- A resolve of the future is scheduled. -/
def Bridge.Scheduled (s : Bridge κ) (f : ℕ) : Prop := .resolve f ∈ s.wakeups ∨ .resolve f ∈ s.soon

/-- A `deliver` or `mark_closed` that is under way has the callback of the future in hand, or is at the step
that takes it from the slot. -/
def Bridge.Waking (s : Bridge κ) (f : ℕ) : Prop :=
  s.task = .scheduling f ∨ (∃ j, s.marks j = .scheduling f) ∨
    s.waiter = some f ∧ (s.task = .waking ∨ s.marks none = .waking)

/-- The socket's `mark_closed` and every other that was begun are over, and the loop has nothing left to
run. -/
def Bridge.Quiet (s : Bridge κ) : Prop :=
  s.marks none = .over ∧ (∀ k, s.calls k = .marking → s.marks (some k) = .over) ∧ s.wakeups = [] ∧
    s.soon = []

namespace Bridge

variable {s : Bridge κ}

omit [DecidableEq κ] in
/-- What was returned and what is queued is what was delivered. -/
lemma Receiving.queued (h : s.Receiving) :
    ∃ rest, s.delivered = s.returned.reduceOption ++ rest ∧ s.incoming = rest.map .message := by
  obtain ⟨received, rest, hdelivered, hreceived, hrest⟩ := List.map_eq_append_iff.mp h.order
  have hinjective : Function.Injective SocketFrame.message := fun m m' hm => by simpa using hm
  have hsame : received = s.returned.reduceOption := List.map_injective_iff.mpr hinjective hreceived
  exact ⟨rest, by rw [hdelivered, hsame], hrest.symm⟩

omit [DecidableEq κ] in
/-- No call waits for what has come, unless its future is about to be resolved. -/
lemma Receiving.not_asleep (h : s.Receiving) {f : ℕ} (waits : s.reader = .awaiting f)
    (unresolved : s.resolved = false) (ready : s.incoming ≠ [] ∨ s.closed = true) :
    s.Scheduled f ∨ s.Waking f := by
  obtain hslot | htask | hmark | hwakeups | hsoon | hcalling :=
    h.kept f (by rw [waits]; rfl) unresolved
  · refine .inr (.inr (.inr ⟨hslot, ?_⟩))
    obtain hframe | hclosed := ready
    · exact .inl ((h.frames f (.inr waits) hslot).resolve_left hframe)
    · exact .inr ((h.flag f waits hslot).resolve_left (by simp [hclosed]))
  · exact .inr (.inl htask)
  · exact .inr (.inr (.inl hmark))
  · exact .inl (.inl hwakeups)
  · exact .inl (.inr hsoon)
  · cases waits.symm.trans hcalling

/-- When all is quiet, the callback of every `on_close` that returned has run. -/
lemma Closing.ran_of_quiet [Fintype κ] (h : s.Closing) (marking : s.Marking) (quiet : s.Quiet) {k : κ}
    (returned : s.calls k = .done ∨ s.calls k = .marking) : s.ran k = 1 := by
  obtain ⟨hover, hothers, hwakeups, hsoon⟩ := quiet
  have hhanded : ∀ j, (s.marks j).handed k = 0 := by
    intro j
    cases j with
    | none => rw [hover]; rfl
    | some i =>
      by_cases hpresent : s.marks (some i) = .absent
      · rw [hpresent]
        rfl
      · rw [hothers i (marking.others i hpresent).2]
        rfl
  have hpending : s.pending k = 0 := by
    have hhand : (s.calls k).inHand = 0 := by
      obtain hcall | hcall := returned <;> rw [hcall] <;> rfl
    simp [pending, tally, hhanded, hwakeups, hsoon, hhand]
  have hwaiters : s.closeWaiters.count k = 0 := by
    refine List.count_eq_zero.mpr fun hk => ?_
    obtain hahead | hcall | ⟨hcall, hahead⟩ := h.awaited k hk
    · rw [hover] at hahead
      exact hahead
    · obtain hreturned | hreturned := returned <;> cases hcall.symm.trans hreturned
    · rw [hothers k hcall] at hahead
      exact hahead
  have honce := h.once k
  have hregistered : (s.calls k).registered = 1 := by
    obtain hcall | hcall := returned <;> rw [hcall] <;> rfl
  omega

end Bridge

section Run

variable [Fintype κ] {s : Bridge κ}

/-- **The bridge of a WebSocket.**  In every interleaving, the completed calls of `receive` have returned the
delivered frames in order, and what they have not returned is queued; `None` is only returned once the
socket closed and everything delivered was received; a call that waits while a frame is queued or the socket
is closed has its resolve scheduled, or a `deliver` or `mark_closed` that is under way is about to schedule
it; and a callback of `on_close` runs at most once, only after the close, and has run when all is quiet. -/
theorem socket_bridge (run : Reachable Bridge.step Bridge.new s) :
    (∃ rest, s.delivered = s.returned.reduceOption ++ rest ∧ s.incoming = rest.map .message) ∧
    (none ∈ s.returned → s.closed = true ∧ s.returned.reduceOption = s.delivered) ∧
    (∀ f, s.reader = .awaiting f → s.resolved = false → s.incoming ≠ [] ∨ s.closed = true →
      s.Scheduled f ∨ s.Waking f) ∧
    (∀ k, s.ran k ≤ 1 ∧ (0 < s.ran k → s.closed = true) ∧
      (s.Quiet → s.calls k = .done ∨ s.calls k = .marking → s.ran k = 1)) := by
  obtain ⟨hmarking, hreceiving, hclosing⟩ : s.Marking ∧ s.Receiving ∧ s.Closing := by
    refine Reachable.invariant (I := fun s => s.Marking ∧ s.Receiving ∧ s.Closing) run
      ⟨Bridge.marking_new, Bridge.receiving_new, Bridge.closing_new⟩ ?_
    intro u a v hu taken
    exact ⟨hu.1.step taken, hu.2.1.step hu.1 taken, hu.2.2.step hu.1 taken⟩
  refine ⟨hreceiving.queued, fun hnone => ?_, fun f => hreceiving.not_asleep, fun k => ⟨?_, ?_, ?_⟩⟩
  · obtain ⟨hclosed, hempty⟩ := hreceiving.ended hnone
    obtain ⟨rest, hdelivered, hrest⟩ := hreceiving.queued
    have hnil : rest = [] := by simpa [hempty] using hrest.symm
    rw [hnil, List.append_nil] at hdelivered
    exact ⟨hclosed, hdelivered.symm⟩
  · have honce := hclosing.once k
    have hone : (s.calls k).registered ≤ 1 := by cases s.calls k <;> simp [OnClosePc.registered]
    omega
  · intro hran
    by_contra hopen
    have hearly := hclosing.early (by simpa using hopen) k
    omega
  · exact fun hquiet hreturned => hclosing.ran_of_quiet hmarking hquiet hreturned

end Run

/-- A call waits, is cancelled and leaves its callback in the slot; a frame comes and wakes nobody; the next
call finds it, and the one after finds the socket closed. -/
theorem socket_bridge_cancelled :
    ∃ s : Bridge Unit, Reachable Bridge.step Bridge.new s ∧ s.Quiet ∧
      s.returned = [some (.text "a"), none] ∧ s.ran () = 1 ∧ s.ran () ≤ 1 := by
  have run : Reachable Bridge.step Bridge.new (_ : Bridge Unit) :=
    Reachable.of_exec [.receive, .read, .read, .read, .read, .read, .cancel, .bind, .frame (.text "a"),
      .task, .task, .runWakeup, .receive, .read, .close, .mark none, .mark none, .mark none, .mark none,
      .onClose (), .register (), .register (), .runSoon, .receive, .read, .read, .read] rfl
  exact ⟨_, run, ⟨rfl, (fun _ hcall => by cases hcall), rfl, rfl⟩, rfl, rfl,
    ((socket_bridge run).2.2.2 ()).1⟩

/-- Between the push of a frame and the take of the slot, a call waits while a frame is queued and nothing is
scheduled. -/
theorem waits_with_frame_queued :
    ∃ s : Bridge Unit, Reachable Bridge.step Bridge.new s ∧ s.reader = .awaiting 0 ∧ s.resolved = false ∧
      s.incoming ≠ [] ∧ ¬ s.Scheduled 0 := by
  have run : Reachable Bridge.step Bridge.new (_ : Bridge Unit) :=
    Reachable.of_exec [.bind, .receive, .read, .read, .read, .read, .read, .frame (.text "a")] rfl
  refine ⟨_, run, rfl, rfl, List.cons_ne_nil _ _, ?_⟩
  rintro (hwakeups | hsoon)
  · cases hwakeups
  · cases hsoon

end Oxbrook
