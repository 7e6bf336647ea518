import Oxbrook.Streams.Replay

/-!
# Resumed subscriptions over whole runs

Every step of every party keeps the two sides of a resumed subscription, so long as the stream is
not trimmed past its reader and nothing was dropped.  What follows is that the replay hands over to
live delivery with nothing missed and nothing repeated.
-/

namespace Oxbrook

open StepMachine

variable {ι α κ τ : Type*} [LinearOrder ι] [OrderBot ι]

namespace TopicState

variable {s s' : TopicState ι α κ τ} {k : κ} {since A : ι} [DecidableEq κ]

/-! ## Whole runs -/

omit [DecidableEq κ] in
/-- A step on this side of the tail: the stream and the tail stay as they are. -/
lemma Resumed.of_sub (h : s.Resumed k) (hlog : s'.log = s.log) (htrimmed : s'.trimmed = s.trimmed)
    (htail : s'.tail = s.tail) (hsubs : k ∈ s'.subs → k ∈ s.subs)
    (hopened : (s'.sub k).opened = (s.sub k).opened)
    (hdropped : (s'.sub k).dropped = 0 → (s.sub k).dropped = 0)
    (hsides : ∀ since A, s.ReaderSide (s.sub k) since A → s.TailSide k (s.sub k) A →
      ∃ B, s.ReaderSide (s'.sub k) since B ∧ s.TailSide k (s'.sub k) B) : s'.Resumed k := by
  intro since hk ho hd
  obtain ⟨A, hr, ht⟩ := h since (hsubs hk) (hopened ▸ ho) (hdropped hd)
  obtain ⟨B, hr', ht'⟩ := hsides since A hr ht
  exact ⟨B, hr'.congr hlog htrimmed fun hp => by rwa [htail], ht'.congr hlog htrimmed htail⟩

omit [DecidableEq κ] in
/-- A step that does not touch the subscription. -/
lemma Resumed.congr (h : s.Resumed k) (hlog : s'.log = s.log) (htrimmed : s'.trimmed = s.trimmed)
    (htail : s'.tail = s.tail) (hsubs : k ∈ s'.subs → k ∈ s.subs) (hsub : s'.sub k = s.sub k) :
    s'.Resumed k :=
  h.of_sub hlog htrimmed htail hsubs (by rw [hsub]) (by rw [hsub]; exact id) fun since A hr ht => by
    rw [hsub]
    exact ⟨A, hr, ht⟩

omit [DecidableEq κ] in
/-- The tail moves while it has no position. -/
lemma Resumed.of_none (h : s.Resumed k) (hlog : s'.log = s.log) (htrimmed : s'.trimmed = s.trimmed)
    (hsubs : s'.subs = s.subs) (hsub : s'.sub k = s.sub k) (hnone : s.tail.position = none)
    (hnone' : s'.tail.position = none) : s'.Resumed k := by
  intro since hk ho hd
  rw [hsub] at ho hd ⊢
  obtain ⟨A, hr, ht⟩ := h since (hsubs ▸ hk) ho hd
  have hnot {p : ι} {stage : Stage ι α κ} {batch : List (Entry ι α)}
      (hat : s'.tail = .running p stage batch) : False := by
    rw [hat] at hnone'
    cases hnone'
  refine ⟨A, hr.congr hlog htrimmed (by simp [hnone]), ht.isOpen, fun _ => ht.waiting hnone,
    ht.startKnown.congr hlog, ht.fedKnown.congr hlog, ht.sorted, ?_, ?_, ?_, ?_, ?_, ?_⟩
  · rw [hlog]
    exact ht.bounded
  · rw [hlog]
    exact ht.buffered
  · intro p stage batch hat
    exact (hnot hat).elim
  · intro p stage batch hat
    exact (hnot hat).elim
  · intro p stage batch hat
    exact (hnot hat).elim
  · intro p e after rest batch hat
    exact (hnot hat).elim

omit [DecidableEq κ] in
lemma Resumed.append (h : s.Resumed k) (hs : s.Following) {e : Entry ι α}
    (hmay : s.mayAppend e.id = true) :
    ({ s with log := s.log ++ [e] } : TopicState ι α κ τ).Resumed k := by
  intro since hk ho hd
  obtain ⟨A, hr, ht⟩ := h since hk ho hd
  exact ⟨A, hr.append hs hmay, ht.append hmay⟩

variable [DecidableEq τ]

omit [DecidableEq κ] [DecidableEq τ] in
/-- A subscription opened with `since=<id>` starts its replay there. -/
lemma sides_new (hs : s.Following) {maxsize : ℕ} (hmaxsize : 0 < maxsize) (policy : Policy)
    (hkept : ∀ e ∈ s.log.take s.trimmed, e.id ≤ since) (hremaining : k ∉ s.tail.remaining) :
    s.ReaderSide (.new s.name maxsize hmaxsize policy (.since since) s.reached)
        since since ∧
      s.TailSide k (.new s.name maxsize hmaxsize policy (.since since) s.reached)
        since := by
  obtain ⟨hknown, hspec⟩ := reached_spec hs
  constructor
  · refine ⟨rfl, rfl, rfl, le_rfl, .inl rfl, (between_self _ _ _).symm, hkept, ahead_nil s _,
      fun h => absurd rfl h, ?_, ?_, ?_⟩
    · intro live hat
      cases hat
    · intro live page hat
      cases hat
    · intro hreplaying
      cases hreplaying
  · refine ⟨rfl, fun _ => rfl, hknown, hknown, List.Pairwise.nil, ?_, ?_, ?_, ?_, ?_, ?_⟩
    · intro item hitem
      cases hitem
    · intro e _ hstart hfed
      exact absurd hstart (not_lt.mpr hfed)
    · intro p stage batch hat
      exact (hspec p stage batch hat).1
    · intro p stage batch hat
      exact (hspec p stage batch hat).2.1
    · intro p stage batch hat e he _
      exact (hspec p stage batch hat).2.2 e he
    · intro p e after rest batch hat
      rw [hat] at hremaining
      exact absurd List.mem_cons_self hremaining

omit [OrderBot ι] [DecidableEq κ] [DecidableEq τ] in
lemma feed_opened (sub : DurableSubscription ι α τ) (e : Entry ι α) (after : Option ι) :
    (sub.feed e after).2.opened = sub.opened := by
  obtain ⟨core, fed, offered, hfeed, -⟩ := sub.feed_cases e after
  rw [hfeed]

omit [OrderBot ι] [DecidableEq κ] [DecidableEq τ] in
lemma le_feed_dropped (sub : DurableSubscription ι α τ) (e : Entry ι α) (after : Option ι) :
    sub.dropped ≤ (sub.feed e after).2.dropped := by
  obtain ⟨core, fed, offered, hfeed, hcases⟩ := sub.feed_cases e after
  rw [hfeed]
  rcases hcases with ⟨-, rfl, -⟩ | ⟨-, -, -, rfl, -⟩ | ⟨-, -, -, ⟨-, rfl, -⟩ | ⟨rfl, -⟩ | ⟨rfl, -⟩⟩
  · exact le_rfl
  · exact le_rfl
  · exact Nat.le_succ _
  · exact Nat.le_succ _
  · exact le_rfl

omit [DecidableEq τ] in
/-- What a step of the tail keeps of a subscription. -/
lemma tailMove_sub (move : s.TailMove s') (k : κ) : s'.subs = s.subs ∧
    (s'.sub k).opened = (s.sub k).opened ∧ (s.sub k).dropped ≤ (s'.sub k).dropped := by
  cases move with
  | @offer p e after j rest batch hat _ =>
    refine ⟨rfl, ?_⟩
    by_cases hjk : k = j
    · subst hjk
      rw [setSub_self]
      exact ⟨feed_opened _ _ _, le_feed_dropped _ _ _⟩
    · rw [setSub_of_ne hjk]
      exact ⟨rfl, le_rfl⟩
  | @raise p e after j rest batch hat _ =>
    refine ⟨rfl, ?_⟩
    by_cases hjk : k = j
    · subst hjk
      rw [setSub_self]
      exact ⟨feed_opened _ _ _, le_feed_dropped _ _ _⟩
    · rw [setSub_of_ne hjk]
      exact ⟨rfl, le_rfl⟩
  | _ => exact ⟨rfl, rfl, le_rfl⟩

/-- The stream is not trimmed past the reader of `k`: neither by trimming what it has yet to read,
nor by its asking for a position that is trimmed already. -/
def NotTrimmedPast (k : κ) (s : TopicState ι α κ τ) : TopicAction ι α κ τ → Prop
  | .trim n => ∀ A ∈ (s.sub k).after, ∀ e ∈ s.log.take n, e.id ≤ A
  | .subscribe j (.since ident) _ _ => j = k → ∀ e ∈ s.log.take s.trimmed, e.id ≤ ident
  | _ => True

instance (k : κ) (s : TopicState ι α κ τ) (a : TopicAction ι α κ τ) :
    Decidable (NotTrimmedPast k s a) := by
  unfold NotTrimmedPast
  split <;> infer_instance

lemma Resumed.emitMove (h : s.Resumed k) (hs : s.Following) {t : τ} (move : s.EmitMove t s') :
    s'.Resumed k := by
  -- an `emit` hands its entry to plain subscriptions only
  have hplain (j : κ) (sub : DurableSubscription ι α τ) (hids : (s.sub j).ids = false)
      (hopened : sub.opened = (s.sub j).opened) (hdropped : (s.sub j).dropped ≤ sub.dropped) :
      (s.setSub j sub).Resumed k := by
    by_cases hjk : k = j
    · subst hjk
      refine h.of_sub rfl rfl rfl id (by rw [setSub_self, hopened]) ?_ ?_
      · rw [setSub_self]
        intro hd
        omega
      · intro since A hr _
        exact absurd (hr.ids.symm.trans hids) (by decide)
    · exact h.congr rfl rfl rfl id (setSub_of_ne hjk _ _)
  have hemit {s : TopicState ι α κ τ} (h : s.Resumed k) (pc : EmitPc ι α κ) :
      (s.setEmit t pc).Resumed k := h.congr rfl rfl rfl id rfl
  cases move with
  | snapshot _ => exact hemit h _
  | done _ => exact hemit h _
  | skip _ _ => exact hemit h _
  | @hand e j rest pc _ hids _ =>
    refine hemit (hplain j ((s.sub j).hand e).2 hids rfl ?_) _
    rcases (s.sub j).put_cases ⟨e, .emit⟩ with ⟨-, hp⟩ | ⟨-, -, hp⟩ | ⟨-, -, ⟨-, hp⟩ | ⟨-, hp⟩ |
      ⟨-, hp⟩ | ⟨-, hp⟩⟩ <;> simp [DurableSubscription.hand, hp, Subscription.enter]
  | returned _ => exact hemit h _
  | @entered e j rest pc hat _ _ _ =>
    exact hemit (hplain j { s.sub j with toSubscription := (s.sub j).enter ⟨e, .emit⟩ }
      (hs.waiting t e j rest hat) rfl le_rfl) _
  | @queued e j rest hat => exact hplain j _ (hs.waiting t e j rest hat) rfl le_rfl

omit [DecidableEq τ] in
/-- A change of the subscription that neither the reader nor the tail looks at. -/
lemma Resumed.setSub (h : s.Resumed k) (j : κ) (sub : DurableSubscription ι α τ)
    (hopened : sub.opened = (s.sub j).opened) (hdropped : sub.dropped = (s.sub j).dropped)
    (hsides : ∀ since A, s.ReaderSide (s.sub j) since A → s.TailSide j (s.sub j) A →
      ∃ B, s.ReaderSide sub since B ∧ s.TailSide j sub B) : (s.setSub j sub).Resumed k := by
  by_cases hjk : k = j
  · subst hjk
    refine h.of_sub rfl rfl rfl id ?_ ?_ ?_ <;> rw [setSub_self]
    · exact hopened
    · rw [hdropped]
      exact id
    · exact hsides
  · exact h.congr rfl rfl rfl id (setSub_of_ne hjk _ _)

/-- Every step keeps the invariant of a resumed subscription. -/
theorem Resumed.step {a : TopicAction ι α κ τ} (h : s.Resumed k) (hs : s.Following)
    (hok : NotTrimmedPast k s a) (taken : s.step a = some s') : s'.Resumed k := by
  cases a with
  | append ident value =>
    obtain ⟨hmay, rfl⟩ := of_guard taken
    exact h.append (e := ⟨ident, value, false⟩) hs hmay
  | publish t ident value =>
    simp only [TopicState.step] at taken
    split at taken
    case h_1 =>
      obtain ⟨hmay, rfl⟩ := of_guard taken
      exact (h.append (e := ⟨ident, value, true⟩) hs hmay).congr rfl rfl rfl id rfl
    · cases taken
  | trim n =>
    obtain ⟨⟨hle, -⟩, rfl⟩ := of_guard taken
    intro since hk ho hd
    obtain ⟨A, hr, ht⟩ := h since hk ho hd
    exact ⟨A, hr.trim hle (hok A hr.after), ht.trim hle⟩
  | subscribe j opened maxsize policy =>
    simp only [TopicState.step] at taken
    split at taken
    case isTrue hnew =>
      cases taken
      by_cases hjk : k = j
      · subst hjk
        intro since _ ho _
        rw [setSub_self] at ho ⊢
        obtain rfl : opened = .since since := ho
        have hremaining : k ∉ s.tail.remaining := fun hk => hnew.1 (hs.remaining.2 k hk)
        obtain ⟨hr, ht⟩ := sides_new (k := k) hs hnew.2 policy (hok rfl) hremaining
        exact ⟨since, hr.congr rfl rfl id, ht.congr rfl rfl rfl⟩
      · refine h.congr rfl rfl rfl (fun hk => ?_) (setSub_of_ne hjk _ _)
        rcases List.mem_append.mp hk with hk | hk
        · exact hk
        · exact absurd (List.mem_singleton.mp hk) hjk
    · cases taken
  | ensureTail j =>
    obtain ⟨-, rfl⟩ := of_guard taken
    have hensured : ({ s with tail := s.tail.ensure } : TopicState ι α κ τ).Resumed k := by
      cases htail : s.tail with
      | absent =>
        exact h.of_none rfl rfl rfl rfl (by simp [htail, Tail.position]) rfl
      | _ => exact h.congr rfl rfl htail.symm id rfl
    refine hensured.setSub j _ rfl rfl fun since A hr ht => ⟨A, ?_, ?_⟩
    · exact ⟨hr.ids, hr.after, hr.opened, hr.since_le, hr.cursor, hr.yielded, hr.kept, hr.backlog,
        hr.reading, hr.paging, hr.paged, hr.handover⟩
    · exact ht.setBuffer le_rfl ht.isOpen (List.Sublist.refl _) (fun _ h _ => h) rfl rfl
  | closeLoop j =>
    obtain ⟨-, rfl⟩ := of_guard taken
    refine h.setSub j _ rfl rfl fun since A hr ht => ⟨A, ?_, ?_⟩
    · exact ⟨hr.ids, hr.after, hr.opened, hr.since_le, hr.cursor, hr.yielded, hr.kept, hr.backlog,
        hr.reading, hr.paging, hr.paged, hr.handover⟩
    · exact ht.setBuffer le_rfl ht.isOpen (List.Sublist.refl _) (fun _ h _ => h) rfl rfl
  | tail =>
    have move := tailStep_move taken
    obtain ⟨hsubs, hopened, hdropped⟩ := tailMove_sub move k
    intro since hk ho hd
    rw [hsubs] at hk
    obtain ⟨A, hr, ht⟩ := h since hk (hopened ▸ ho) (by omega)
    exact ⟨A, sides_tailMove hs hk hr ht move hd⟩
  | tailFails =>
    rcases tailFailsStep_cases taken with ⟨p, hat, rfl⟩ | ⟨p, batch, hat, rfl⟩
    · exact h.of_none rfl rfl rfl rfl (by simp [hat, Tail.position]) rfl
    · intro since hk ho hd
      obtain ⟨A, hr, ht⟩ := h since hk ho hd
      refine ⟨A, hr.congr rfl rfl fun _ => rfl,
        ht.setTail rfl rfl rfl (ht.reached _ _ _ hat) ?_ ?_ ?_⟩
      · intro b hb hpb
        exact ht.next _ _ _ hat b (hb.imp id fun h => by cases h) hpb
      · intro b hb
        cases hb
      · intro b after rest hloaded
        cases hloaded
  | emit t => exact h.emitMove hs (emitStep_move taken)
  | reader j =>
    obtain ⟨-, rfl⟩ := of_guard taken
    obtain ⟨sub, hp, -, hopened, hdropped, -⟩ := s.readerStep_kept j
    rw [hp]
    refine h.setSub j sub hopened hdropped fun since A hr ht => ?_
    have hsides := sides_readerStep hs hr ht
    rwa [hp, setSub_self] at hsides
  | readerFails j =>
    obtain ⟨-, rfl⟩ := of_guard taken
    refine h.setSub j _ rfl rfl fun since A hr ht => ⟨A, ?_, ?_⟩
    · refine ⟨hr.ids, hr.after, hr.opened, hr.since_le, hr.cursor, hr.yielded, hr.kept, hr.backlog,
        fun h => absurd rfl h, ?_, ?_, hr.handover⟩
      · intro live hat
        cases hat
      · intro live page hat
        cases hat
    · exact ht.setBuffer le_rfl ht.isOpen (List.Sublist.refl _) (fun _ h _ => h) rfl rfl

omit [DecidableEq κ] [DecidableEq τ] in
lemma resumed_new (name : String) (k : κ) : (new name : TopicState ι α κ τ).Resumed k := by
  intro since hk
  cases hk

/-! ## The hand-over -/

/-- The replay can still give the entry: it is in the stream, after the newest id read, and in the
backlog or after it. -/
def CanReplay (s : TopicState ι α κ τ) (k : κ) (e : Entry ι α) : Prop :=
  (s.sub k).replaying = true ∧ e ∈ s.present ∧ (∃ A, (s.sub k).after = some A ∧ A < e.id) ∧
    (e ∈ (s.sub k).backlog ∨ ∀ b ∈ (s.sub k).backlog, b.id < e.id)

/-- The tail is still to offer the entry to `k`: it is in the stream, after the tail's position, and
the tail is not handing out a later one, or this one with `k` behind it. -/
def ToOffer (s : TopicState ι α κ τ) (k : κ) (e : Entry ι α) : Prop :=
  ∃ p stage batch, s.tail = .running p stage batch ∧ e ∈ s.present ∧ p < e.id ∧
    ∀ current ∈ stage.current, current.id < e.id ∨ (e = current ∧ k ∈ stage.remaining)

omit [DecidableEq κ] [DecidableEq τ] in
/-- An entry the reader is not past can still be given to it. -/
lemma exists_path (hs : s.Following) (hr : s.ReaderSide (s.sub k) since A)
    (ht : s.TailSide k (s.sub k) A) {e : Entry ι α} (he : e ∈ s.log) (hA : A < e.id) :
    s.CanReplay k e ∨ (∃ item ∈ (s.sub k).buffer, item.entry = e) ∨ s.ToOffer k e := by
  have hpresent := hr.mem_present he hA
  cases hreplaying : (s.sub k).replaying with
  | true =>
    exact .inl ⟨hreplaying, hpresent, ⟨A, hr.after, hA⟩, hr.backlog.complete e hpresent hA⟩
  | false =>
    obtain ⟨hposition, hstart, -⟩ := hr.handover hreplaying
    right
    by_cases hfed : e.id ≤ (s.sub k).fed
    · exact .inl (ht.buffered e he (hstart.trans_lt hA) hfed hA)
    · right
      cases htail : s.tail with
      | running p stage batch =>
        have hp : p < e.id := (ht.reached _ _ _ htail).trans_lt (not_le.mp hfed)
        refine ⟨p, stage, batch, htail, hpresent, hp, ?_⟩
        intro current hcurrent
        have hahead := hs.ahead _ _ _ htail
        have hle : current.id ≤ e.id := by
          rcases hahead.complete e hpresent hp with hmem | hall
          · cases stage <;> simp only [Stage.current, List.mem_singleton] at hcurrent hahead hmem
            · cases hcurrent
            · subst hcurrent
              exact hahead.le_of_present hpresent hp
            · subst hcurrent
              exact hahead.le_of_present hpresent hp
            · cases hcurrent
          · exact (hall current (List.mem_append_left _ hcurrent)).le
        rcases hle.lt_or_eq with hlt | heq
        · exact .inl hlt
        · right
          have hmem : current ∈ s.log := hahead.mem current (List.mem_append_left _ hcurrent)
          have hsame : e = current := hs.sorted.eq_of_key_eq he hmem heq.symm
          refine ⟨hsame, ?_⟩
          by_contra hrest
          exact hfed (heq ▸ ht.current _ _ _ htail current hcurrent hrest)
      | _ => simp [htail, Tail.position] at hposition

end TopicState

open TopicState

variable [DecidableEq κ] [DecidableEq τ]

/-- **The replay hands over to live delivery.**  In every run in which the stream is not trimmed past
the reader of `k`: as long as nothing was dropped, the ids yielded are a prefix of the ids of the
stream after `since`, which increase strictly; and every later entry can still be given, by the
replay, from the buffer, or by the tail. -/
theorem replay_hands_over (name : String) (k : κ) (since : ι) {s : TopicState ι α κ τ}
    (run : Reaches step (NotTrimmedPast k) (new name) s) (registered : k ∈ s.subs)
    (opened : (s.sub k).opened = .since since) (kept : (s.sub k).dropped = 0) :
    ((s.sub k).yielded.map fun item => item.entry.id) <+:
        (s.log.filter fun e => decide (since < e.id)).map Entry.id ∧
      Ascending Entry.id s.log ∧
      ∀ e ∈ s.log, since < e.id → (∃ item ∈ (s.sub k).yielded, item.entry = e) ∨
        s.CanReplay k e ∨ (∃ item ∈ (s.sub k).buffer, item.entry = e) ∨ s.ToOffer k e := by
  have hinv : s.Following ∧ s.Resumed k :=
    run.invariant (I := fun s => s.Following ∧ s.Resumed k)
      ⟨following_new name, resumed_new name k⟩
      fun _ _ _ hI permitted taken => ⟨hI.1.step taken, hI.2.step hI.1 permitted taken⟩
  obtain ⟨hs, hresumed⟩ := hinv
  obtain ⟨A, hr, ht⟩ := hresumed since registered opened kept
  refine ⟨?_, hs.sorted, ?_⟩
  · have hprefix := (between_prefix_filter hs.sorted since A).map Entry.id
    rwa [← hr.yielded, List.map_map] at hprefix
  · intro e he hsince
    rcases le_or_gt e.id A with hA | hA
    · left
      have hmem : e ∈ (s.sub k).yielded.map Item.entry := by
        rw [hr.yielded]
        exact mem_between.mpr ⟨he, hsince, hA⟩
      obtain ⟨item, hitem, hentry⟩ := List.mem_map.mp hmem
      exact ⟨item, hitem, hentry⟩
    · exact .inr (exists_path hs hr ht he hA)

/-- An entry is appended while the replay reads, and reaches the reader by the replay and the
buffer. -/
theorem replay_hands_over_overlap :
    ∃ s : TopicState StreamId ℕ (Fin 1) (Fin 1),
      ((s.sub 0).yielded.map fun item => item.entry.id) = [toLex (1, 0), toLex (2, 0)] ∧
      ((s.sub 0).yielded.map fun item => item.entry.id) <+:
        (s.log.filter fun e => decide (toLex (0, 0) < e.id)).map Entry.id :=
  ⟨_, rfl, (replay_hands_over "orders" 0 (toLex (0, 0)) (Reaches.of_exec
    [.append (toLex (1, 0)) 10, .subscribe 0 (.since (toLex (0, 0))) 8 .dropOldest, .ensureTail 0,
      .reader 0, .reader 0, .reader 0, .reader 0, .tail, .append (toLex (2, 0)) 20, .tail, .tail,
      .tail, .tail, .tail, .tail, .reader 0, .reader 0, .reader 0, .reader 0] rfl)
    (by decide) rfl rfl).1⟩

end Oxbrook
