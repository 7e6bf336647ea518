import Oxbrook.Streams.Tail

/-!
# From the replay to live delivery

A subscription opened with `since=<id>` first pages through the stream and then reads what the tail
put into its buffer.  The two overlap: the tail delivers while the replay reads.  With `A` the newest
id read (`_after`), the invariant has two sides.

* The reader has yielded exactly the entries after `since` and up to `A`, and its backlog holds the
  next ones (`ReaderSide`).  It leaves the replay only when the ids from which on the tail feeds it
  start at or before `A`; sampling `_live` before the page is read is what gives this.
* Every entry that the tail owed the subscription, that is those after `start` and up to `fed`, is in
  the buffer unless the reader is past it, in order; and the tail goes on from `fed` (`TailSide`).

Nothing is assumed about the fan-out: it may raise and be repeated.
-/

namespace Oxbrook

open StepMachine

variable {ι α κ τ : Type*} [LinearOrder ι] [OrderBot ι]

namespace TopicState

/-! ## The two sides of the invariant -/

/-- What the reader has read and what it will read next. -/
structure ReaderSide (s : TopicState ι α κ τ) (sub : DurableSubscription ι α τ) (since A : ι) :
    Prop where
  ids : sub.ids = true
  after : sub.after = some A
  opened : sub.opened = .since since
  since_le : since ≤ A
  cursor : A = since ∨ ∃ e ∈ s.log, e.id = A
  yielded : sub.yielded.map Item.entry = between Entry.id since A s.log
  kept : ∀ e ∈ s.log.take s.trimmed, e.id ≤ A
  backlog : s.Ahead A sub.backlog
  reading : sub.reader ≠ .idle → sub.backlog = [] ∧ sub.replaying = true
  paging : ∀ live, sub.reader = .paging live → live = true → s.tail.position.isSome = true
  paged : ∀ live page, sub.reader = .paged live page → s.Ahead A page ∧
    (live = true → page = [] → s.tail.position.isSome = true ∧ sub.start ≤ A)
  handover : sub.replaying = false →
    s.tail.position.isSome = true ∧ sub.start ≤ A ∧ sub.backlog = []

/-- What the tail has put into the buffer and what it is still to put there. -/
structure TailSide (s : TopicState ι α κ τ) (k : κ) (sub : DurableSubscription ι α τ) (A : ι) :
    Prop where
  isOpen : sub.closed = false
  waiting : s.tail.position = none → sub.buffer = []
  startKnown : s.Known sub.start
  fedKnown : s.Known sub.fed
  sorted : sub.buffer.Pairwise fun a b => a.entry.id ≤ b.entry.id
  bounded : ∀ item ∈ sub.buffer, item.entry ∈ s.log ∧ item.entry.id ≤ sub.fed
  buffered : ∀ e ∈ s.log, sub.start < e.id → e.id ≤ sub.fed → A < e.id →
    ∃ item ∈ sub.buffer, item.entry = e
  reached : ∀ p stage batch, s.tail = .running p stage batch → p ≤ sub.fed
  next : ∀ p stage batch, s.tail = .running p stage batch →
    ∀ e, e ∈ s.present ∨ e ∈ stage.current ++ batch → p < e.id → sub.fed ≤ e.id
  current : ∀ p stage batch, s.tail = .running p stage batch →
    ∀ e ∈ stage.current, k ∉ stage.remaining → e.id ≤ sub.fed
  loaded : ∀ p e after rest batch, s.tail = .running p (.loaded e after k rest) batch →
    ∃ a, after = some a ∧ a ≤ A

/-- The invariant for one subscription, while nothing was dropped. -/
def Resumed (s : TopicState ι α κ τ) (k : κ) : Prop :=
  ∀ since, k ∈ s.subs → (s.sub k).opened = .since since → (s.sub k).dropped = 0 →
    ∃ A, s.ReaderSide (s.sub k) since A ∧ s.TailSide k (s.sub k) A

variable {s s' : TopicState ι α κ τ} {k : κ} {sub sub' : DurableSubscription ι α τ} {since A : ι}

omit [OrderBot ι] in
lemma ReaderSide.congr (h : s.ReaderSide sub since A) (hlog : s'.log = s.log)
    (htrimmed : s'.trimmed = s.trimmed)
    (hposition : s.tail.position.isSome = true → s'.tail.position.isSome = true) :
    s'.ReaderSide sub since A := by
  refine ⟨h.ids, h.after, h.opened, h.since_le, ?_, ?_, ?_, h.backlog.congr hlog htrimmed,
    h.reading, ?_, ?_, ?_⟩
  · rw [hlog]
    exact h.cursor
  · rw [hlog]
    exact h.yielded
  · rw [hlog, htrimmed]
    exact h.kept
  · intro live hat hlive
    exact hposition (h.paging live hat hlive)
  · intro live page hat
    obtain ⟨hahead, hstart⟩ := h.paged live page hat
    refine ⟨hahead.congr hlog htrimmed, fun hlive hpage => ?_⟩
    exact ⟨hposition (hstart hlive hpage).1, (hstart hlive hpage).2⟩
  · intro hreplaying
    obtain ⟨hp, hrest⟩ := h.handover hreplaying
    exact ⟨hposition hp, hrest⟩

lemma TailSide.congr (h : s.TailSide k sub A) (hlog : s'.log = s.log)
    (htrimmed : s'.trimmed = s.trimmed) (htail : s'.tail = s.tail) : s'.TailSide k sub A := by
  have hpresent : s'.present = s.present := by rw [present, present, hlog, htrimmed]
  refine ⟨h.isOpen, ?_, h.startKnown.congr hlog, h.fedKnown.congr hlog, h.sorted, ?_, ?_, ?_, ?_, ?_,
    ?_⟩
  · rw [htail]
    exact h.waiting
  · rw [hlog]
    exact h.bounded
  · rw [hlog]
    exact h.buffered
  · rw [htail]
    exact h.reached
  · rw [htail, hpresent]
    exact h.next
  · rw [htail]
    exact h.current
  · rw [htail]
    exact h.loaded

/-! ## The stream grows and is trimmed -/

omit [OrderBot ι] in
/-- What the reader has not read is still in the stream. -/
lemma ReaderSide.mem_present (h : s.ReaderSide sub since A) {e : Entry ι α} (he : e ∈ s.log)
    (hA : A < e.id) : e ∈ s.present := by
  rw [← List.take_append_drop s.trimmed s.log] at he
  rcases List.mem_append.mp he with he | he
  · exact absurd (h.kept e he) (not_le.mpr hA)
  · exact he

lemma ReaderSide.append (h : s.ReaderSide sub since A) (hs : s.Following) {e : Entry ι α}
    (hmay : s.mayAppend e.id = true) :
    ({ s with log := s.log ++ [e] } : TopicState ι α κ τ).ReaderSide sub since A := by
  obtain ⟨-, hnew⟩ := mayAppend_iff.mp hmay
  refine ⟨h.ids, h.after, h.opened, h.since_le, ?_, ?_, ?_, h.backlog.append hnew, h.reading,
    h.paging, ?_, h.handover⟩
  · rcases h.cursor with hc | ⟨b, hb, hc⟩
    · exact .inl hc
    · exact .inr ⟨b, List.mem_append_left _ hb, hc⟩
  · rw [h.yielded, between_append_of_lt]
    rcases h.cursor with rfl | ⟨b, hb, rfl⟩
    · exact le_or_gt _ _
    · exact .inr (hnew b hb)
  · intro b hb
    rw [List.take_append_of_le_length hs.trimmed] at hb
    exact h.kept b hb
  · intro live page hat
    obtain ⟨hahead, hlive⟩ := h.paged live page hat
    exact ⟨hahead.append hnew, hlive⟩

lemma TailSide.append (h : s.TailSide k sub A) {e : Entry ι α} (hmay : s.mayAppend e.id = true) :
    ({ s with log := s.log ++ [e] } : TopicState ι α κ τ).TailSide k sub A := by
  obtain ⟨hpos, hnew⟩ := mayAppend_iff.mp hmay
  have hfed : sub.fed < e.id := by
    rcases h.fedKnown with hbot | ⟨b, hb, hfed⟩
    · rw [hbot]
      exact hpos
    · rw [← hfed]
      exact hnew b hb
  refine ⟨h.isOpen, h.waiting, h.startKnown.append, h.fedKnown.append, h.sorted, ?_, ?_, h.reached,
    ?_, h.current, h.loaded⟩
  · intro item hitem
    obtain ⟨hmem, hle⟩ := h.bounded item hitem
    exact ⟨List.mem_append_left _ hmem, hle⟩
  · intro b hb hstart hle hA
    rcases List.mem_append.mp hb with hb | hb
    · exact h.buffered b hb hstart hle hA
    · rw [List.mem_singleton.mp hb] at hle
      exact absurd hfed (not_lt.mpr hle)
  · intro p stage batch hat b hb hp
    rcases hb with hb | hb
    · rcases mem_present_append hb with hb | rfl
      · exact h.next p stage batch hat b (.inl hb) hp
      · exact hfed.le
    · exact h.next p stage batch hat b (.inr hb) hp

omit [OrderBot ι] in
lemma ReaderSide.trim (h : s.ReaderSide sub since A) {n : ℕ} (hn : s.trimmed ≤ n)
    (hkept : ∀ e ∈ s.log.take n, e.id ≤ A) :
    ({ s with trimmed := n } : TopicState ι α κ τ).ReaderSide sub since A := by
  refine ⟨h.ids, h.after, h.opened, h.since_le, h.cursor, h.yielded, hkept, h.backlog.trim hn,
    h.reading, h.paging, ?_, h.handover⟩
  intro live page hat
  obtain ⟨hahead, hlive⟩ := h.paged live page hat
  exact ⟨hahead.trim hn, hlive⟩

lemma TailSide.trim (h : s.TailSide k sub A) {n : ℕ} (hn : s.trimmed ≤ n) :
    ({ s with trimmed := n } : TopicState ι α κ τ).TailSide k sub A := by
  refine ⟨h.isOpen, h.waiting, h.startKnown, h.fedKnown, h.sorted, h.bounded, h.buffered, h.reached,
    ?_, h.current, h.loaded⟩
  intro p stage batch hat e he hp
  refine h.next p stage batch hat e (he.imp (fun he => ?_) id) hp
  exact (List.drop_sublist_drop_left _ hn).mem he

/-! ## The reader -/

/-- The reader moves on to the next entry the stream has after `A`. -/
lemma ReaderSide.between_next (h : s.ReaderSide sub since A) (hs : s.Following) {e : Entry ι α}
    (he : e ∈ s.log) (hA : A < e.id) (hnext : ∀ b ∈ s.log, A < b.id → e.id ≤ b.id) :
    sub.yielded.map Item.entry ++ [e] = between Entry.id since e.id s.log := by
  rw [h.yielded, between_advance hs.sorted he h.since_le hA hnext]

/-- The reader takes the next message of the replay. -/
lemma ReaderSide.replayNext (h : s.ReaderSide sub since A) (hs : s.Following) {e : Entry ι α}
    {rest : List (Entry ι α)} (hidle : sub.reader = .idle) (hreplaying : sub.replaying = true)
    (hbacklog : sub.backlog = e :: rest) :
    s.ReaderSide (sub.replayNext e rest) since e.id := by
  have hahead := h.backlog
  rw [hbacklog] at hahead
  have he : e ∈ s.log := hahead.mem e List.mem_cons_self
  have hA : A < e.id := hahead.after e List.mem_cons_self
  have hyielded := h.between_next hs he hA fun b hb hAb =>
    hahead.le_of_present (h.mem_present hb hAb) hAb
  refine ⟨h.ids, ?_, h.opened, h.since_le.trans hA.le, .inr ⟨e, he, rfl⟩, ?_,
    fun b hb => (h.kept b hb).trans hA.le, hahead.advance, fun hr => absurd hidle hr, ?_, ?_, ?_⟩
  · simp [DurableSubscription.replayNext, DurableSubscription.yield, h.ids]
  · simpa [DurableSubscription.replayNext, DurableSubscription.yield] using hyielded
  · intro live hat
    exact absurd (hidle.symm.trans hat) (by simp)
  · intro live page hat
    exact absurd (hidle.symm.trans hat) (by simp)
  · intro hr
    exact absurd (hreplaying.symm.trans hr) (by simp)

/-- Replacing the buffer by one that keeps what the reader has yet to read, in order. -/
lemma TailSide.setBuffer (h : s.TailSide k sub A) {B : ι} (hAB : A ≤ B)
    (hopen : sub'.closed = false) (hsub : sub'.buffer.Sublist sub.buffer)
    (hkeep : ∀ item ∈ sub.buffer, B < item.entry.id → item ∈ sub'.buffer)
    (hstart : sub'.start = sub.start) (hfed : sub'.fed = sub.fed) : s.TailSide k sub' B := by
  refine ⟨hopen, ?_, ?_, ?_, h.sorted.sublist hsub, ?_, ?_, ?_, ?_, ?_, ?_⟩
  · intro hnone
    rw [h.waiting hnone] at hsub
    exact List.sublist_nil.mp hsub
  · rw [hstart]
    exact h.startKnown
  · rw [hfed]
    exact h.fedKnown
  · rw [hfed]
    intro item hitem
    exact h.bounded item (hsub.mem hitem)
  · rw [hstart, hfed]
    intro e he hs hf hB
    obtain ⟨item, hitem, rfl⟩ := h.buffered e he hs hf (hAB.trans_lt hB)
    exact ⟨item, hkeep item hitem hB, rfl⟩
  · rw [hfed]
    exact h.reached
  · rw [hfed]
    exact h.next
  · rw [hfed]
    exact h.current
  · intro p e after rest batch hat
    obtain ⟨a, ha, hle⟩ := h.loaded p e after rest batch hat
    exact ⟨a, ha, hle.trans hAB⟩

/-- The reader asks for a page of the history: if it is empty and the tail was live before, the tail
feeds the subscription from `A` or earlier. -/
lemma ReaderSide.page (h : s.ReaderSide sub since A) (hs : s.Following)
    (hstart : s.Known sub.start) {live : Bool} (hat : sub.reader = .paging live) :
    s.ReaderSide { sub with reader := .paged live (s.entriesAfter A replayPage) } since A := by
  refine ⟨h.ids, h.after, h.opened, h.since_le, h.cursor, h.yielded, h.kept, h.backlog,
    fun _ => h.reading (by simp [hat]), ?_, ?_, h.handover⟩
  · intro live' hat'
    cases hat'
  · intro live' page hat'
    cases hat'
    refine ⟨ahead_entriesAfter hs.sorted _ _, fun hlive hpage => ⟨h.paging live hat hlive, ?_⟩⟩
    by_contra hlt
    -- `start` is the id of an entry the page would have begun with
    rcases hstart with hbot | ⟨e, he, hid⟩
    · rw [hbot] at hlt
      exact hlt bot_le
    · have hA : A < e.id := hid ▸ not_le.mp hlt
      have hmem : e ∈ s.present.filter fun b => decide (A < b.id) :=
        List.mem_filter.mpr ⟨h.mem_present he hA, by simpa using hA⟩
      rw [entriesAfter, List.take_eq_nil_iff] at hpage
      rcases hpage with hzero | hnil
      · cases hzero
      · rw [hnil] at hmem
        cases hmem

omit [OrderBot ι] in
/-- The reader takes in a page. -/
lemma ReaderSide.absorb (h : s.ReaderSide sub since A) {live : Bool} {page : List (Entry ι α)}
    (hat : sub.reader = .paged live page) : s.ReaderSide (sub.absorb live page) since A := by
  obtain ⟨hahead, hlive⟩ := h.paged live page hat
  obtain ⟨hbacklog, hreplaying⟩ := h.reading (by simp [hat])
  cases page with
  | nil =>
    cases live with
    | false =>
      refine ⟨h.ids, h.after, h.opened, h.since_le, h.cursor, h.yielded, h.kept, h.backlog,
        fun hr => absurd rfl hr, ?_, ?_, h.handover⟩
      · intro live hat'
        cases hat'
      · intro live page hat'
        cases hat'
    | true =>
      obtain ⟨hposition, hstart⟩ := hlive rfl rfl
      refine ⟨h.ids, h.after, h.opened, h.since_le, h.cursor, h.yielded, h.kept, h.backlog,
        fun hr => absurd rfl hr, ?_, ?_, fun _ => ⟨hposition, hstart, hbacklog⟩⟩
      · intro live hat'
        cases hat'
      · intro live page hat'
        cases hat'
  | cons e rest =>
    refine ⟨h.ids, h.after, h.opened, h.since_le, h.cursor, h.yielded, h.kept, ?_,
      fun hr => absurd rfl hr, ?_, ?_, ?_⟩
    · simpa [DurableSubscription.absorb, hbacklog] using hahead
    · intro live hat'
      cases hat'
    · intro live page hat'
      cases hat'
    · intro hr
      exact absurd (hreplaying.symm.trans hr) (by simp)

/-- The tail's side of a page being taken in: the buffer is pruned when the replay ends. -/
lemma TailSide.absorb (h : s.TailSide k sub A) (hafter : sub.after = some A) (live : Bool)
    (page : List (Entry ι α)) : s.TailSide k (sub.absorb live page) A := by
  have hsame (sub' : DurableSubscription ι α τ) (hcore : sub'.toSubscription = sub.toSubscription)
      (hstart : sub'.start = sub.start) (hfed : sub'.fed = sub.fed) : s.TailSide k sub' A :=
    h.setBuffer le_rfl (hcore ▸ h.isOpen) (hcore ▸ List.Sublist.refl _)
      (fun item hitem _ => hcore ▸ hitem) hstart hfed
  unfold DurableSubscription.absorb
  split_ifs
  · refine h.setBuffer le_rfl h.isOpen List.filter_sublist ?_ rfl rfl
    intro item hitem hA
    refine List.mem_filter.mpr ⟨hitem, ?_⟩
    simpa [hafter] using hA
  · exact hsame _ rfl rfl rfl
  · exact hsame _ rfl rfl rfl

/-- The reader takes the first item of the buffer.  If it is past the item already, the item goes;
otherwise the item is the next entry the stream has after `A`. -/
lemma sides_next (hs : s.Following) (hr : s.ReaderSide sub since A) (ht : s.TailSide k sub A)
    (hidle : sub.reader = .idle) (hlive : sub.replaying = false) :
    ∃ B, s.ReaderSide sub.next since B ∧ s.TailSide k sub.next B := by
  obtain ⟨hposition, hstart, hbacklog⟩ := hr.handover hlive
  rcases sub.next_cases with ⟨item, buffer, hbuffer, -, hread, hp⟩ |
    ⟨item, buffer, hbuffer, hread, hp⟩ | ⟨hbuffer, getter, hp⟩ <;> rw [hp]
  · refine ⟨A, ⟨hr.ids, hr.after, hr.opened, hr.since_le, hr.cursor, hr.yielded, hr.kept,
      hr.backlog, hr.reading, hr.paging, hr.paged, hr.handover⟩,
      ht.setBuffer le_rfl ht.isOpen ?_ ?_ rfl rfl⟩
    · rw [hbuffer]
      exact List.sublist_cons_self _ _
    · intro other hother hA
      rw [hbuffer] at hother
      rcases List.mem_cons.mp hother with rfl | hother
      · obtain ⟨read, hafter, hle⟩ := hread
        rw [hr.after] at hafter
        cases hafter
        exact absurd hA (not_lt.mpr hle)
      · exact hother
  · have hA : A < item.entry.id := by
      by_contra hle
      exact hread hr.ids ⟨A, hr.after, not_lt.mp hle⟩
    obtain ⟨he, hfed⟩ := ht.bounded item (by simp [hbuffer])
    have hsorted := ht.sorted
    rw [hbuffer] at hsorted
    have hnext : ∀ b ∈ s.log, A < b.id → item.entry.id ≤ b.id := by
      intro b hb hAb
      by_cases hbfed : b.id ≤ sub.fed
      · obtain ⟨other, hother, rfl⟩ := ht.buffered b hb (hstart.trans_lt hAb) hbfed hAb
        rw [hbuffer] at hother
        rcases List.mem_cons.mp hother with rfl | hother
        · exact le_rfl
        · exact (List.pairwise_cons.mp hsorted).1 other hother
      · exact hfed.trans (not_le.mp hbfed).le
    have hyielded := hr.between_next hs he hA hnext
    refine ⟨item.entry.id, ?_, ht.setBuffer hA.le ht.isOpen ?_ ?_ rfl rfl⟩
    · refine ⟨hr.ids, by simp [hr.ids], hr.opened, hr.since_le.trans hA.le, .inr ⟨_, he, rfl⟩, ?_,
        fun b hb => (hr.kept b hb).trans hA.le, ?_, fun h => absurd hidle h, ?_, ?_,
        fun _ => ⟨hposition, hstart.trans hA.le, hbacklog⟩⟩
      · simpa using hyielded
      · simp only [hbacklog]
        exact ahead_nil s _
      · intro live hat
        exact absurd (hidle.symm.trans hat) (by simp)
      · intro live page hat
        exact absurd (hidle.symm.trans hat) (by simp)
    · rw [hbuffer]
      exact List.sublist_cons_self _ _
    · intro other hother hB
      rw [hbuffer] at hother
      rcases List.mem_cons.mp hother with rfl | hother
      · exact absurd hB (lt_irrefl _)
      · exact hother
  · exact ⟨A, ⟨hr.ids, hr.after, hr.opened, hr.since_le, hr.cursor, hr.yielded, hr.kept,
      hr.backlog, hr.reading, hr.paging, hr.paged, hr.handover⟩,
      ht.setBuffer le_rfl ht.isOpen (List.Sublist.refl _) (fun _ h _ => h) rfl rfl⟩

variable [DecidableEq κ]

/-- Every step of the reader keeps both sides. -/
lemma sides_readerStep (hs : s.Following) (hr : s.ReaderSide (s.sub k) since A)
    (ht : s.TailSide k (s.sub k) A) :
    ∃ B, s.ReaderSide ((s.readerStep k).sub k) since B ∧
      s.TailSide k ((s.readerStep k).sub k) B := by
  have hsame {B : ι} (hAB : A ≤ B) {sub : DurableSubscription ι α τ}
      (hcore : sub.toSubscription = (s.sub k).toSubscription)
      (hstart : sub.start = (s.sub k).start) (hfed : sub.fed = (s.sub k).fed) :
      s.TailSide k sub B :=
    ht.setBuffer hAB (hcore ▸ ht.isOpen) (hcore ▸ List.Sublist.refl _)
      (fun item hitem _ => hcore ▸ hitem) hstart hfed
  obtain ⟨sub, hp, hcases⟩ := s.readerStep_cases k
  rw [hp, setSub_self]
  rcases hcases with ⟨live, hat, rfl⟩ | ⟨live, page, hat, rfl⟩ |
    ⟨e, rest, hat, hreplaying, hbacklog, rfl⟩ | ⟨hat, hreplaying, hbacklog, rfl⟩ |
    ⟨hat, hreplaying, rfl⟩
  · refine ⟨A, ?_, hsame le_rfl rfl rfl rfl⟩
    have hpage := hr.page hs ht.startKnown hat
    rw [hr.after, Option.getD_some]
    exact hpage
  · exact ⟨A, hr.absorb hat, ht.absorb hr.after live page⟩
  · have hahead := hr.backlog
    rw [hbacklog] at hahead
    exact ⟨e.id, hr.replayNext hs hat hreplaying hbacklog,
      hsame (hahead.after e List.mem_cons_self).le rfl rfl rfl⟩
  · refine ⟨A, ?_, hsame le_rfl rfl rfl rfl⟩
    refine ⟨hr.ids, hr.after, hr.opened, hr.since_le, hr.cursor, hr.yielded, hr.kept,
      hr.backlog, fun _ => ⟨hbacklog, hreplaying⟩, ?_, ?_, hr.handover⟩
    · intro live hlive hl
      cases hlive
      exact hs.live.mp hl
    · intro live page hpaged
      cases hpaged
  · exact sides_next hs hr ht hat hreplaying

/-! ## The tail -/

omit [DecidableEq κ] in
/-- A move of the tail that leaves the subscription alone. -/
lemma TailSide.setTail (h : s.TailSide k sub A) {p : ι} {stage : Stage ι α κ}
    {batch : List (Entry ι α)} (hlog : s'.log = s.log) (htrimmed : s'.trimmed = s.trimmed)
    (htail : s'.tail = .running p stage batch) (hreached : p ≤ sub.fed)
    (hnext : ∀ e, e ∈ s.present ∨ e ∈ stage.current ++ batch → p < e.id → sub.fed ≤ e.id)
    (hcurrent : ∀ e ∈ stage.current, k ∉ stage.remaining → e.id ≤ sub.fed)
    (hloaded : ∀ e after rest, stage = .loaded e after k rest → ∃ a, after = some a ∧ a ≤ A) :
    s'.TailSide k sub A := by
  have hpresent : s'.present = s.present := by rw [present, present, hlog, htrimmed]
  refine ⟨h.isOpen, ?_, h.startKnown.congr hlog, h.fedKnown.congr hlog, h.sorted, ?_, ?_, ?_, ?_, ?_,
    ?_⟩
  · intro hnone
    rw [htail] at hnone
    cases hnone
  · rw [hlog]
    exact h.bounded
  · rw [hlog]
    exact h.buffered
  · intro p' stage' batch' hat
    cases htail.symm.trans hat
    exact hreached
  · intro p' stage' batch' hat
    cases htail.symm.trans hat
    rw [hpresent]
    exact hnext
  · intro p' stage' batch' hat
    cases htail.symm.trans hat
    exact hcurrent
  · intro p' e after rest batch' hat
    cases htail.symm.trans hat
    exact hloaded e after rest rfl

omit [DecidableEq κ] in
/-- The tail offers the subscription an entry, and nothing is dropped. -/
lemma TailSide.feed (ht : s.TailSide k sub A) (hr : s.ReaderSide sub since A) (hs : s.Following)
    {p : ι} {e : Entry ι α} {after : Option ι} {rest : List κ} {batch : List (Entry ι α)}
    (hat : s.tail = .running p (.loaded e after k rest) batch)
    (hdropped : (sub.feed e after).2.dropped = 0) (hlog : s'.log = s.log)
    (htrimmed : s'.trimmed = s.trimmed)
    (htail : (sub.raises (sub.feed e after).1 = false ∧
        s'.tail = .running p (.fanning e rest) batch) ∨ s'.tail = .running p .broken []) :
    s'.TailSide k (sub.feed e after).2 A := by
  have hahead : s.Ahead p (e :: batch) := hs.ahead _ _ _ hat
  have he : e ∈ s.log := hahead.mem e List.mem_cons_self
  have hp : p < e.id := hahead.after e List.mem_cons_self
  have hfed : sub.fed ≤ e.id := ht.next _ _ _ hat e (.inr List.mem_cons_self) hp
  obtain ⟨a, rfl, haA⟩ := ht.loaded _ _ _ _ _ hat
  -- what comes after the entry in the stream and in the batch
  have hlater : ∀ b, b ∈ s.present ∨ b ∈ [e] ++ batch → p < b.id → e.id ≤ b.id := by
    intro b hb hpb
    rcases hb with hb | hb
    · exact hahead.le_of_present hb hpb
    · rcases List.mem_cons.mp hb with rfl | hb
      · exact le_rfl
      · exact ((List.pairwise_cons.mp hahead.ascending).1 b hb).le
  -- the cases in which the subscription is up to date with the entry
  have hmove (sub' : DurableSubscription ι α τ) (hside : s.TailSide k sub' A)
      (hfed' : sub'.fed = e.id) : s'.TailSide k sub' A := by
    rcases htail with ⟨-, htail⟩ | htail
    · refine hside.setTail hlog htrimmed htail (hfed' ▸ hp.le) (hfed' ▸ hlater) ?_ ?_
      · intro b hb _
        rw [List.mem_singleton.mp hb, hfed']
      · intro b after rest hloaded
        cases hloaded
    · refine hside.setTail hlog htrimmed htail (hfed' ▸ hp.le) ?_ ?_ ?_
      · intro b hb
        rw [hfed']
        exact hlater b (hb.imp id fun h => by cases h)
      · intro b hb
        cases hb
      · intro b after rest hloaded
        cases hloaded
  have hcurrent : ∀ b ∈ (Stage.loaded e (some a) k rest).current,
      k ∉ (Stage.loaded e (some a) k rest).remaining → b.id ≤ e.id := by
    intro b hb _
    rw [List.mem_singleton.mp hb]
  have hnext : ∀ b, b ∈ s.present ∨ b ∈ (Stage.loaded e (some a) k rest).current ++ batch →
      p < b.id → e.id ≤ b.id := hlater
  obtain ⟨core, fed, offered, hfeed, hcases⟩ := sub.feed_cases e (some a)
  rw [hfeed] at hdropped ⊢
  rcases hcases with ⟨hread, rfl, rfl, -⟩ | ⟨hread, hopen, -, rfl, rfl, -⟩ |
    ⟨-, -, -, ⟨-, rfl, -, -⟩ | ⟨rfl, -, -⟩ | ⟨rfl, rfl, -, hrefused⟩⟩
  · have heA : e.id ≤ A := by
      rcases hread with ⟨read, hread, hle⟩ | hclosed
      · cases hread
        exact hle.trans haA
      · exact absurd (ht.isOpen.symm.trans hclosed) (by decide)
    refine hmove _ ⟨ht.isOpen, ht.waiting, ht.startKnown, .inr ⟨e, he, rfl⟩, ht.sorted, ?_, ?_, ?_,
      ?_, ?_, ht.loaded⟩ rfl
    · intro item hitem
      obtain ⟨hmem, hle⟩ := ht.bounded item hitem
      exact ⟨hmem, hle.trans hfed⟩
    · intro b hb _ hbe hA
      exact absurd (hbe.trans heA) (not_le.mpr hA)
    · intro p' stage batch' hat'
      cases hat.symm.trans hat'
      exact hp.le
    · intro p' stage batch' hat'
      cases hat.symm.trans hat'
      exact hnext
    · intro p' stage batch' hat'
      cases hat.symm.trans hat'
      exact hcurrent
  · refine hmove _ ⟨hopen, ?_, ht.startKnown, .inr ⟨e, he, rfl⟩, ?_, ?_, ?_, ?_, ?_, ?_, ht.loaded⟩
      rfl
    · intro hnone
      rw [hat] at hnone
      cases hnone
    · refine List.pairwise_append.mpr ⟨ht.sorted, List.pairwise_singleton _ _, ?_⟩
      intro item hitem other hother
      rw [List.mem_singleton.mp hother]
      exact (ht.bounded item hitem).2.trans hfed
    · intro item hitem
      rcases List.mem_append.mp hitem with hitem | hitem
      · obtain ⟨hmem, hle⟩ := ht.bounded item hitem
        exact ⟨hmem, hle.trans hfed⟩
      · rw [List.mem_singleton.mp hitem]
        exact ⟨he, le_rfl⟩
    · intro b hb hstart hbe hA
      by_cases hbfed : b.id ≤ sub.fed
      · obtain ⟨item, hitem, hbitem⟩ := ht.buffered b hb hstart hbfed hA
        exact ⟨item, List.mem_append_left _ hitem, hbitem⟩
      · -- the tail has gone up to `fed` already, so this is the entry itself
        have hpb : p < b.id := (ht.reached _ _ _ hat).trans_lt (not_le.mp hbfed)
        have heb : e.id ≤ b.id := hahead.le_of_present (hr.mem_present hb hA) hpb
        have hbeq : b = e := hs.sorted.eq_of_key_eq hb he (le_antisymm hbe heb)
        exact ⟨⟨e, .tail⟩, List.mem_append_right _ (List.mem_singleton_self _), hbeq.symm⟩
    · intro p' stage batch' hat'
      cases hat.symm.trans hat'
      exact hp.le
    · intro p' stage batch' hat'
      cases hat.symm.trans hat'
      exact hnext
    · intro p' stage batch' hat'
      cases hat.symm.trans hat'
      exact hcurrent
  · exact absurd hdropped (Nat.succ_ne_zero _)
  · exact absurd hdropped (Nat.succ_ne_zero _)
  · rcases htail with ⟨hraises, -⟩ | htail
    · rw [hrefused] at hraises
      cases hraises
    · have hside : s.TailSide k { sub with offered := offered } A :=
        ht.setBuffer le_rfl ht.isOpen (List.Sublist.refl _) (fun _ h _ => h) rfl rfl
      refine hside.setTail hlog htrimmed htail (ht.reached _ _ _ hat) ?_ ?_ ?_
      · intro b hb hpb
        exact ht.next _ _ _ hat b (hb.imp id fun h => by cases h) hpb
      · intro b hb
        cases hb
      · intro b after rest hloaded
        cases hloaded

omit [OrderBot ι] [DecidableEq κ] in
/-- The reader's side does not mind what the tail puts into the buffer. -/
lemma ReaderSide.feed (h : s.ReaderSide sub since A) (e : Entry ι α) (after : Option ι) :
    s.ReaderSide (sub.feed e after).2 since A := by
  obtain ⟨core, fed, offered, hfeed, -⟩ := sub.feed_cases e after
  rw [hfeed]
  exact ⟨h.ids, h.after, h.opened, h.since_le, h.cursor, h.yielded, h.kept, h.backlog, h.reading,
    h.paging, h.paged, h.handover⟩

omit [DecidableEq κ] in
/-- The tail gets its position while the subscription is registered. -/
lemma sides_goLive (hr : s.ReaderSide sub since A) (ht : s.TailSide k sub A) (hs : s.Following)
    {p : ι} (hat : s.tail = .asked p) (hlog : s'.log = s.log) (htrimmed : s'.trimmed = s.trimmed)
    (htail : s'.tail = .running p .reading []) :
    s'.ReaderSide { sub with start := p, fed := p } since A ∧
      s'.TailSide k { sub with start := p, fed := p } A := by
  have hnone : s.tail.position = none := by rw [hat]; rfl
  have hbuffer : sub.buffer = [] := ht.waiting hnone
  have hknown : s'.Known p := (hs.answered p hat).congr hlog
  have hnotlive : ¬ s.tail.position.isSome = true := by simp [hnone]
  constructor
  · have hr' : s'.ReaderSide sub since A := hr.congr hlog htrimmed fun h => absurd h hnotlive
    refine ⟨hr'.ids, hr'.after, hr'.opened, hr'.since_le, hr'.cursor, hr'.yielded, hr'.kept,
      hr'.backlog, hr'.reading, hr'.paging, ?_, fun hreplaying => ?_⟩
    · intro live page hpaged
      refine ⟨(hr'.paged live page hpaged).1, fun hlive hpage => ?_⟩
      exact absurd ((hr.paged live page hpaged).2 hlive hpage).1 hnotlive
    · exact absurd (hr.handover hreplaying).1 hnotlive
  · refine ⟨ht.isOpen, fun _ => hbuffer, hknown, hknown, ?_, ?_, ?_, ?_, ?_, ?_, ?_⟩
    · rw [hbuffer]
      exact List.Pairwise.nil
    · intro item hitem
      rw [hbuffer] at hitem
      cases hitem
    · intro e _ hstart hfed
      exact absurd hstart (not_lt.mpr hfed)
    · intro q stage batch hat'
      cases htail.symm.trans hat'
      exact le_rfl
    · intro q stage batch hat' e _ hq
      cases htail.symm.trans hat'
      exact hq.le
    · intro q stage batch hat' e he
      cases htail.symm.trans hat'
      cases he
    · intro q e after rest batch hat'
      cases htail.symm.trans hat'

/-- Every step of the tail keeps both sides, as long as nothing is dropped. -/
lemma sides_tailMove (hs : s.Following) (hk : k ∈ s.subs) (hr : s.ReaderSide (s.sub k) since A)
    (ht : s.TailSide k (s.sub k) A) (move : s.TailMove s') (hdropped : (s'.sub k).dropped = 0) :
    s'.ReaderSide (s'.sub k) since A ∧ s'.TailSide k (s'.sub k) A := by
  cases move with
  | ask hat =>
    have hnone : s.tail.position = none := by rw [hat]; rfl
    refine ⟨hr.congr rfl rfl (by simp [hnone]), ?_⟩
    refine ⟨ht.isOpen, fun _ => ht.waiting hnone, ht.startKnown.congr rfl, ht.fedKnown.congr rfl,
      ht.sorted, ht.bounded, ht.buffered, ?_, ?_, ?_, ?_⟩ <;> intro p <;> intros <;> contradiction
  | goLive hat => exact sides_goLive hr ht hs hat rfl rfl rfl
  | @fetch p hat =>
    refine ⟨hr.congr rfl rfl fun _ => rfl,
      ht.setTail rfl rfl rfl (ht.reached _ _ _ hat) ?_ ?_ ?_⟩
    · intro e he hp
      refine ht.next _ _ _ hat e (.inl ?_) hp
      rcases he with he | he
      · exact he
      · exact (List.mem_filter.mp (List.mem_of_mem_take he)).1
    · intro e he
      cases he
    · intro e after rest hloaded
      cases hloaded
  | @begin p e batch hat =>
    have hnext := ht.next _ _ _ hat
    refine ⟨hr.congr rfl rfl fun _ => rfl,
      ht.setTail rfl rfl rfl (ht.reached _ _ _ hat) hnext ?_ ?_⟩
    · intro b _ hrest
      exact absurd hk hrest
    · intro b after rest hloaded
      cases hloaded
  | @finish p e batch hat =>
    have hahead : s.Ahead p (e :: batch) := hs.ahead _ _ _ hat
    have hp : p < e.id := hahead.after e List.mem_cons_self
    refine ⟨hr.congr rfl rfl fun _ => rfl, ht.setTail rfl rfl rfl ?_ ?_ ?_ ?_⟩
    · exact ht.current _ _ _ hat e List.mem_cons_self (by simp [Stage.remaining])
    · intro b hb heb
      exact ht.next _ _ _ hat b (hb.imp id (List.mem_cons_of_mem _)) (hp.trans heb)
    · intro b hb
      cases hb
    · intro b after rest hloaded
      cases hloaded
  | @skip p e j rest batch hat hrefuses =>
    have hjk : k ≠ j := by
      rintro rfl
      simp [DurableSubscription.takes, hr.ids] at hrefuses
    have hnext := ht.next _ _ _ hat
    refine ⟨hr.congr rfl rfl fun _ => rfl,
      ht.setTail rfl rfl rfl (ht.reached _ _ _ hat) hnext ?_ ?_⟩
    · intro b hb hrest
      exact ht.current _ _ _ hat b hb (List.not_mem_cons_of_ne_of_not_mem hjk hrest)
    · intro b after rest hloaded
      cases hloaded
  | @load p e j rest batch hat _ =>
    have hnext := ht.next _ _ _ hat
    have hcurrent := ht.current _ _ _ hat
    refine ⟨hr.congr rfl rfl fun _ => rfl,
      ht.setTail rfl rfl rfl (ht.reached _ _ _ hat) hnext hcurrent ?_⟩
    intro b after rest' hloaded
    cases hloaded
    exact ⟨A, by simp [hr.ids, hr.after], le_rfl⟩
  | @offer p e after j rest batch hat hreturns =>
    by_cases hjk : k = j
    · subst hjk
      rw [setSub_self] at hdropped ⊢
      exact ⟨(hr.feed e after).congr rfl rfl fun _ => rfl,
        ht.feed hr hs hat hdropped rfl rfl (.inl ⟨hreturns, rfl⟩)⟩
    · have hnext := ht.next _ _ _ hat
      rw [setSub_of_ne hjk]
      refine ⟨hr.congr rfl rfl fun _ => rfl,
        ht.setTail rfl rfl rfl (ht.reached _ _ _ hat) hnext ?_ ?_⟩
      · intro b hb hrest
        exact ht.current _ _ _ hat b hb (List.not_mem_cons_of_ne_of_not_mem hjk hrest)
      · intro b after rest hloaded
        cases hloaded
  | @raise p e after j rest batch hat _ =>
    by_cases hjk : k = j
    · subst hjk
      rw [setSub_self] at hdropped ⊢
      exact ⟨(hr.feed e after).congr rfl rfl fun _ => rfl,
        ht.feed hr hs hat hdropped rfl rfl (.inr rfl)⟩
    · rw [setSub_of_ne hjk]
      refine ⟨hr.congr rfl rfl fun _ => rfl,
        ht.setTail rfl rfl rfl (ht.reached _ _ _ hat) ?_ ?_ ?_⟩
      · intro b hb hpb
        exact ht.next _ _ _ hat b (hb.imp id fun h => by cases h) hpb
      · intro b hb
        cases hb
      · intro b after rest hloaded
        cases hloaded
  | @resume p batch hat =>
    refine ⟨hr.congr rfl rfl fun _ => rfl,
      ht.setTail rfl rfl rfl (ht.reached _ _ _ hat) ?_ ?_ ?_⟩
    · intro b hb hpb
      exact ht.next _ _ _ hat b (hb.imp id fun h => by cases h) hpb
    · intro b hb
      cases hb
    · intro b after rest hloaded
      cases hloaded

end TopicState

end Oxbrook
