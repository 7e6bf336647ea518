import Oxbrook.Streams.Tail

/-!
# What the tail gives to each subscription

As long as no fan-out raises, but for a full subscription that is the only one, each entry the tail
follows is given once to every subscription that takes it, in stream order, and what one subscription
is given depends on nothing but the entries the tail has fanned out since it was registered.

A fan-out that raises, because the buffer of an `error` subscription is full or the loop of a parked
reader is closed, leaves the position where it was.  The tail then reads the same entry again: those
before the subscription that raised are offered it a second time, and those behind it have to wait.
A plain subscription cannot tell the repeat; `full_subscriber_repeats_entry` is such a run.
-/

namespace Oxbrook

open StepMachine

variable {ι α κ τ : Type*}

namespace DurableSubscription

/-- The entries of a list of items that came by the tail. -/
def tailFed (items : List (Item ι α)) : List (Entry ι α) :=
  (items.filter fun item => decide (item.feed = .tail)).map Item.entry

/-- The entries the tail has given to the subscription, in order. -/
def given (sub : DurableSubscription ι α τ) : List (Entry ι α) :=
  tailFed sub.offered

lemma tailFed_append (a b : List (Item ι α)) : tailFed (a ++ b) = tailFed a ++ tailFed b := by
  simp [tailFed]

@[simp] lemma tailFed_tail (e : Entry ι α) : tailFed [⟨e, .tail⟩] = [e] := by
  simp [tailFed]

@[simp] lemma tailFed_emit (e : Entry ι α) : tailFed [⟨e, .emit⟩] = [] := by
  simp [tailFed]

@[simp] lemma tailFed_replay (e : Entry ι α) : tailFed [⟨e, .replay⟩] = [] := by
  simp [tailFed]

lemma tailFed_sublist {a b : List (Item ι α)} (h : a.Sublist b) : (tailFed a).Sublist (tailFed b) :=
  (h.filter _).map _

/-- What reaches the reader by the tail, or is on its way to it, was offered in this order. -/
def InOrder (sub : DurableSubscription ι α τ) : Prop :=
  (tailFed (sub.yielded ++ sub.buffer)).Sublist sub.given

variable {sub sub' : DurableSubscription ι α τ}

lemma InOrder.of_given {entries : List (Entry ι α)} (hgiven : sub.given = entries)
    (hitems : (tailFed (sub.yielded ++ sub.buffer)).Sublist entries) : sub.InOrder := by
  rw [InOrder, hgiven]
  exact hitems

/-- Items may go from the buffer and from what was yielded. -/
lemma InOrder.of_sublist (h : sub.InOrder)
    (hitems : (sub'.yielded ++ sub'.buffer).Sublist (sub.yielded ++ sub.buffer))
    (hgiven : sub'.given = sub.given) : sub'.InOrder := by
  exact .of_given hgiven ((tailFed_sublist hitems).trans h)

/-- The buffer after `_put` of an item: what it held, perhaps without its oldest item, and perhaps
with the new item at its end. -/
lemma put_buffer (sub : Subscription (Item ι α) Unit τ) (item : Item ι α) :
    ∃ kept, kept.Sublist sub.buffer ∧
      ((sub.put item).2.buffer = kept ∨ (sub.put item).2.buffer = kept ++ [item]) := by
  rcases sub.put_cases item with ⟨-, hp⟩ | ⟨-, -, hp⟩ | ⟨-, -, ⟨-, hp⟩ | ⟨-, hp⟩ | ⟨-, hp⟩ |
    ⟨-, hp⟩⟩ <;> rw [hp]
  · exact ⟨_, List.Sublist.refl _, .inl rfl⟩
  · exact ⟨_, List.Sublist.refl _, .inr rfl⟩
  · exact ⟨_, List.Sublist.refl _, .inl rfl⟩
  · exact ⟨_, List.tail_sublist _, .inr rfl⟩
  · exact ⟨_, List.Sublist.refl _, .inl rfl⟩
  · exact ⟨_, List.Sublist.refl _, .inl rfl⟩

/-- An `emit` hands over an item that is not the tail's. -/
lemma InOrder.enter_emit (h : sub.InOrder) {kept : List (Item ι α)} {e : Entry ι α}
    (hkept : kept.Sublist sub.buffer) (hyielded : sub'.yielded = sub.yielded)
    (hbuffer : sub'.buffer = kept ∨ sub'.buffer = kept ++ [⟨e, .emit⟩])
    (hgiven : sub'.given = sub.given) : sub'.InOrder := by
  have hitems : tailFed (sub'.yielded ++ sub'.buffer) = tailFed (sub.yielded ++ kept) := by
    rcases hbuffer with hb | hb <;> rw [hyielded, hb]
    rw [← List.append_assoc, tailFed_append, tailFed_emit, List.append_nil]
  refine .of_given hgiven ?_
  rw [hitems]
  exact (tailFed_sublist ((List.Sublist.refl _).append hkept)).trans h

/-- An item of the replay goes to the reader past the buffer. -/
lemma InOrder.replayNext (h : sub.InOrder) (e : Entry ι α) (rest : List (Entry ι α))
    [LinearOrder ι] : (sub.replayNext e rest).InOrder := by
  have hitems : tailFed ((sub.yielded ++ [⟨e, .replay⟩]) ++ sub.buffer) =
      tailFed (sub.yielded ++ sub.buffer) := by
    rw [tailFed_append, tailFed_append, tailFed_replay, List.append_nil, ← tailFed_append]
  unfold InOrder at h ⊢
  rw [← hitems] at h
  exact h

variable [LinearOrder ι]

/-- Whatever a pass through `__anext__` does with an item, the order stays. -/
lemma InOrder.next (h : sub.InOrder) : sub.next.InOrder := by
  rcases sub.next_cases with ⟨item, buffer, hbuffer, -, -, hp⟩ | ⟨item, buffer, hbuffer, -, hp⟩ |
    ⟨-, getter, hp⟩ <;> rw [hp]
  · refine h.of_sublist ?_ rfl
    rw [hbuffer]
    exact (List.Sublist.refl _).append (List.sublist_cons_self _ _)
  · refine h.of_sublist ?_ rfl
    rw [hbuffer, List.append_cons sub.yielded item buffer]
  · exact h.of_sublist (List.Sublist.refl _) rfl

lemma InOrder.absorb (h : sub.InOrder) (live : Bool) (page : List (Entry ι α)) :
    (sub.absorb live page).InOrder := by
  unfold DurableSubscription.absorb
  split_ifs
  · exact h.of_sublist ((List.Sublist.refl _).append List.filter_sublist) rfl
  · exact h.of_sublist (List.Sublist.refl _) rfl
  · exact h.of_sublist (List.Sublist.refl _) rfl

/-- An offer of the tail that is not refused gives the entry, and at most puts it at the end of the
buffer. -/
lemma InOrder.feed (h : sub.InOrder) (e : Entry ι α) (after : Option ι) :
    (sub.feed e after).2.InOrder ∧ ((sub.feed e after).2.given = sub.given ++ [e] ∨
      (sub.raises (sub.feed e after).1 = true ∧ (sub.feed e after).2.given = sub.given)) := by
  obtain ⟨core, fed, offered, hfeed, hcases⟩ := sub.feed_cases e after
  have hgiven : tailFed (sub.offered ++ [⟨e, .tail⟩]) = sub.given ++ [e] := by
    rw [tailFed_append, tailFed_tail, given]
  have hkeeps {kept : List (Item ι α)} (hkept : kept.Sublist sub.buffer) :
      (tailFed (sub.yielded ++ kept)).Sublist sub.given :=
    (tailFed_sublist ((List.Sublist.refl _).append hkept)).trans h
  have henters {kept : List (Item ι α)} (hkept : kept.Sublist sub.buffer) :
      (tailFed (sub.yielded ++ (kept ++ [⟨e, .tail⟩]))).Sublist (sub.given ++ [e]) := by
    rw [← List.append_assoc, tailFed_append, tailFed_tail]
    exact (hkeeps hkept).append (List.Sublist.refl _)
  have hstays : (tailFed (sub.yielded ++ sub.buffer)).Sublist (sub.given ++ [e]) :=
    (hkeeps (List.Sublist.refl _)).trans (List.sublist_append_left _ _)
  rw [hfeed]
  rcases hcases with ⟨-, rfl, -, rfl, -⟩ | ⟨-, -, -, rfl, -, rfl, -⟩ |
    ⟨-, -, -, ⟨-, rfl, -, rfl, -⟩ | ⟨rfl, -, rfl, -⟩ | ⟨rfl, -, rfl, hrefused⟩⟩
  · exact ⟨.of_given hgiven hstays, .inl hgiven⟩
  · exact ⟨.of_given hgiven (henters (List.Sublist.refl _)), .inl hgiven⟩
  · exact ⟨.of_given hgiven (henters (List.tail_sublist _)), .inl hgiven⟩
  · exact ⟨.of_given hgiven hstays, .inl hgiven⟩
  · refine ⟨h, .inr ⟨?_, rfl⟩⟩
    rw [hrefused]
    rfl

end DurableSubscription

/-! ## What the tail has handed out -/

/-- The entry the tail is handing out. -/
def Tail.current : Tail ι α κ → List (Entry ι α)
  | running _ stage _ => stage.current
  | _ => []

/-- A tail without a position has nothing in hand. -/
lemma Tail.inHand_of_none {tail : Tail ι α κ} (h : tail.position = none) :
    tail.remaining = [] ∧ tail.current = [] := by
  cases tail with
  | running p stage batch => cases h
  | _ => exact ⟨rfl, rfl⟩

namespace TopicState

variable [LinearOrder ι] [OrderBot ι] [DecidableEq κ]

/-- The entries the tail is through with for `k`. -/
def handedOut (s : TopicState ι α κ τ) (k : κ) : List (Entry ι α) :=
  if k ∈ s.tail.remaining then s.followed else s.followed ++ s.tail.current

/-- The entries the tail ought to have given to a subscription `k`: those it takes of what the tail
has handed out since it was registered. -/
def due (s : TopicState ι α κ τ) (k : κ) (sub : DurableSubscription ι α τ) : List (Entry ι α) :=
  (s.handedOut k).filter fun e => decide (sub.start < e.id) && sub.takes e

/-- What the tail has fanned out lies behind its position, and it offers to those who take the
entry. -/
structure Followed (s : TopicState ι α κ τ) : Prop where
  ascending : Ascending Entry.id s.followed
  waiting : s.tail.position = none → s.followed = []
  behind : ∀ p, s.tail.position = some p → ∀ e ∈ s.followed, e.id ≤ p
  loaded : ∀ p e after k rest batch, s.tail = .running p (.loaded e after k rest) batch →
    (s.sub k).takes e = true

/-- What holds of a subscription `k`: it was given what was due, and its reader gets it in this
order. -/
structure Fed (s : TopicState ι α κ τ) (k : κ) (sub : DurableSubscription ι α τ) : Prop where
  inOrder : sub.InOrder
  given : sub.given = s.due k sub
  started : ∀ p stage batch, s.tail = .running p stage batch →
    sub.start ≤ p ∨ (k ∉ stage.remaining ∧ ∃ e ∈ stage.current, sub.start = e.id)

variable {s s' : TopicState ι α κ τ} {k : κ} {sub sub' : DurableSubscription ι α τ}

/-- What the tail has handed out is in stream order. -/
lemma Followed.handedOut_ascending (h : s.Followed) (hs : s.Following) (k : κ) : Ascending Entry.id (s.handedOut k) := by
  have hall : Ascending Entry.id (s.followed ++ s.tail.current) := by
    cases htail : s.tail with
    | running p stage batch =>
      have hahead := hs.ahead p stage batch htail
      have hbehind := h.behind p (by simp [htail, Tail.position])
      have hcurrent : ∀ e ∈ stage.current, p < e.id := fun e he =>
        hahead.after e (List.mem_append_left _ he)
      refine List.pairwise_append.mpr ⟨h.ascending, ?_, ?_⟩
      · exact hahead.ascending.sublist (List.sublist_append_left _ _)
      · intro a ha b hb
        exact (hbehind a ha).trans_lt (hcurrent b hb)
    | _ => simpa [Tail.current] using h.ascending
  unfold handedOut
  split_ifs
  · exact h.ascending
  · exact hall

/-- What its reader got is in stream order. -/
lemma Fed.yielded_ascending (h : s.Fed k sub) (hs : s.Following) (hf : s.Followed) :
    Ascending Entry.id (DurableSubscription.tailFed sub.yielded) := by
  have hyielded : (DurableSubscription.tailFed sub.yielded).Sublist sub.given :=
    (DurableSubscription.tailFed_sublist (List.sublist_append_left _ _)).trans h.inOrder
  rw [h.given] at hyielded
  exact (hf.handedOut_ascending hs k).sublist (hyielded.trans List.filter_sublist)

omit [OrderBot ι] in
/-- A step on the side of the subscription. -/
lemma Fed.setSub (h : s.Fed k sub) (hinOrder : sub'.InOrder) (hgiven : sub'.given = sub.given)
    (hstart : sub'.start = sub.start) (hids : sub'.ids = sub.ids) : s.Fed k sub' := by
  have hdue : s.due k sub' = s.due k sub := by
    unfold due DurableSubscription.takes
    rw [hstart, hids]
  refine ⟨hinOrder, ?_, ?_⟩
  · rw [hgiven, hdue]
    exact h.given
  · rw [hstart]
    exact h.started

omit [OrderBot ι] in
/-- What a subscription was given depends on the tail alone. -/
lemma Fed.congr (h : s.Fed k sub) (htail : s'.tail = s.tail) (hfollowed : s'.followed = s.followed) :
    s'.Fed k sub := by
  have hdue : s'.due k sub = s.due k sub := by
    unfold due handedOut
    rw [htail, hfollowed]
  refine ⟨h.inOrder, ?_, ?_⟩
  · rw [hdue]
    exact h.given
  · rw [htail]
    exact h.started

omit [OrderBot ι] in
/-- The tail goes on, and nothing more is due to `k`. -/
lemma Fed.setTail (h : s.Fed k sub) {p : ι} {stage : Stage ι α κ} {batch : List (Entry ι α)}
    (htail : s'.tail = .running p stage batch) (hdue : s'.due k sub = s.due k sub)
    (hstarted : sub.start ≤ p ∨ (k ∉ stage.remaining ∧ ∃ e ∈ stage.current, sub.start = e.id)) :
    s'.Fed k sub := by
  refine ⟨h.inOrder, ?_, ?_⟩
  · rw [hdue]
    exact h.given
  · intro q stage' batch' hat
    rw [htail] at hat
    cases hat
    exact hstarted

omit [LinearOrder ι] [OrderBot ι] in
/-- Moving on within one entry, or from nothing to nothing. -/
lemma handedOut_congr (hremaining : k ∈ s'.tail.remaining ↔ k ∈ s.tail.remaining)
    (hcurrent : s'.tail.current = s.tail.current) (hfollowed : s'.followed = s.followed) :
    s'.handedOut k = s.handedOut k := by
  unfold handedOut
  rw [hcurrent, hfollowed]
  by_cases hk : k ∈ s.tail.remaining
  · rw [if_pos hk, if_pos (hremaining.mpr hk)]
  · rw [if_neg hk, if_neg (mt hremaining.mp hk)]

omit [OrderBot ι] in
lemma due_congr (hhanded : s'.handedOut k = s.handedOut k) : s'.due k sub = s.due k sub := by
  unfold due
  rw [hhanded]

omit [OrderBot ι] in
/-- A subscription that is still to be offered the entry was registered before it was read. -/
lemma Fed.started_of_remaining (h : s.Fed k sub) {p : ι} {stage : Stage ι α κ}
    {batch : List (Entry ι α)} (hat : s.tail = .running p stage batch)
    (hk : k ∈ stage.remaining) : sub.start ≤ p := by
  rcases h.started p stage batch hat with hle | ⟨hnot, -⟩
  · exact hle
  · exact absurd hk hnot

/-! ## Runs -/

/-- The tail's offer raises, and it is not that the only subscription is full. -/
def raisesToOthers (s : TopicState ι α κ τ) : TopicAction ι α κ τ → Bool
  | .tail =>
    match s.tail with
    | .running _ (.loaded e after k _) _ =>
      match ((s.sub k).feed e after).1 with
      | .refused _ => decide (s.subs ≠ [k])
      | result => (s.sub k).raises result
    | _ => false
  | _ => false

/-- No offer of the tail raises, but for a full subscription that is the only one. -/
def FanOutReturns (s : TopicState ι α κ τ) (a : TopicAction ι α κ τ) : Prop :=
  s.raisesToOthers a = false

instance (s : TopicState ι α κ τ) (a : TopicAction ι α κ τ) : Decidable (FanOutReturns s a) :=
  inferInstanceAs (Decidable (_ = _))

/-- What holds of the whole topic in a run whose fan-outs return. -/
structure FannedOut (s : TopicState ι α κ τ) : Prop where
  following : s.Following
  followed : s.Followed
  fed : ∀ k ∈ s.subs, s.Fed k (s.sub k)

omit [OrderBot ι] [DecidableEq κ] in
/-- The position stays, and so do the kinds of the subscriptions. -/
lemma Followed.congr (h : s.Followed) (hfollowed : s'.followed = s.followed)
    (hposition : s'.tail.position = s.tail.position)
    (hloaded : ∀ p e after k rest batch, s'.tail = .running p (.loaded e after k rest) batch →
      (s'.sub k).takes e = true) : s'.Followed := by
  refine ⟨?_, ?_, ?_, hloaded⟩
  · rw [hfollowed]
    exact h.ascending
  · rw [hfollowed, hposition]
    exact h.waiting
  · rw [hfollowed, hposition]
    exact h.behind

lemma Followed.tailMove (h : s.Followed) (hs : s.Following) (move : s.TailMove s') :
    s'.Followed := by
  cases move with
  | goLive hat =>
    have hnone : s.followed = [] := h.waiting (by simp [hat, Tail.position])
    refine ⟨h.ascending, ?_, ?_, ?_⟩
    · intro hposition
      cases hposition
    · intro p _ e (he : e ∈ s.followed)
      rw [hnone] at he
      cases he
    · intro p e after k rest batch hat'
      cases hat'
  | @finish p e batch hat =>
    have hahead := hs.ahead _ _ _ hat
    have hbehind := h.behind p (by simp [hat, Tail.position])
    have hafter : p < e.id := hahead.after e List.mem_cons_self
    refine ⟨h.ascending.append_singleton fun b hb => (hbehind b hb).trans_lt hafter, ?_, ?_, ?_⟩
    · intro hposition
      cases hposition
    · intro q hq b hb
      cases hq
      rcases List.mem_append.mp hb with hb | hb
      · exact (hbehind b hb).trans hafter.le
      · rw [List.mem_singleton.mp hb]
    · intro q b after k rest batch' hat'
      cases hat'
  | load hat htakes =>
    refine h.congr rfl (by rw [hat]; rfl) ?_
    intro p e after k rest batch hat'
    cases hat'
    exact htakes
  | ask hat | fetch hat | begin hat | resume hat =>
    refine h.congr rfl (by rw [hat]; rfl) ?_
    intro p e after k rest batch hat'
    cases hat'
  | skip hat _ | offer hat _ | raise hat _ =>
    refine h.congr rfl (by rw [hat]; rfl) ?_
    intro p e after k rest batch hat'
    cases hat'

omit [OrderBot ι] in
/-- The tail's offer of an entry that is not refused is what was due. -/
lemma Fed.offer (h : s.Fed k sub) {p : ι} {e : Entry ι α} {after : Option ι} {rest : List κ}
    {batch : List (Entry ι α)} (hat : s.tail = .running p (.loaded e after k rest) batch)
    (hafter : p < e.id) (htakes : sub.takes e = true) (hnodup : k ∉ rest)
    (hreturns : sub.raises (sub.feed e after).1 = false)
    (htail : s'.tail = .running p (.fanning e rest) batch) (hfollowed : s'.followed = s.followed) :
    s'.Fed k (sub.feed e after).2 := by
  obtain ⟨hinOrder, hgiven⟩ := h.inOrder.feed e after
  have hgiven : (sub.feed e after).2.given = sub.given ++ [e] := by
    rcases hgiven with hgiven | ⟨hraises, -⟩
    · exact hgiven
    · rw [hraises] at hreturns
      cases hreturns
  have hstart : sub.start ≤ p := h.started_of_remaining hat List.mem_cons_self
  obtain ⟨core, fed, offered, hfeed, -⟩ := sub.feed_cases e after
  rw [hfeed] at hinOrder hgiven ⊢
  have hbefore : s.handedOut k = s.followed := by
    unfold handedOut
    rw [hat]
    exact if_pos List.mem_cons_self
  have hnow : s'.handedOut k = s.followed ++ [e] := by
    unfold handedOut
    rw [htail, hfollowed]
    exact if_neg hnodup
  have hdue : s'.due k sub = s.due k sub ++ [e] := by
    simp [due, hbefore, hnow, List.filter_append, htakes, hstart.trans_lt hafter]
  refine ⟨hinOrder, ?_, ?_⟩
  · rw [hgiven, h.given]
    exact hdue.symm
  · intro q stage batch' hat'
    rw [htail] at hat'
    cases hat'
    exact .inl hstart

omit [OrderBot ι] in
/-- A subscription whose buffer is full is owed the entry as before. -/
lemma Fed.refuse (h : s.Fed k sub) {p : ι} {e : Entry ι α} {after : Option ι} {rest : List κ}
    {batch : List (Entry ι α)} (hat : s.tail = .running p (.loaded e after k rest) batch)
    {full : TopicFull} (hrefused : (sub.feed e after).1 = .refused full)
    (htail : s'.tail = .running p .broken []) (hfollowed : s'.followed = s.followed) :
    s'.Fed k (sub.feed e after).2 := by
  have hinOrder := (h.inOrder.feed e after).1
  have hstart : sub.start ≤ p := h.started_of_remaining hat List.mem_cons_self
  have hbefore : s.handedOut k = s.followed := by
    unfold handedOut
    rw [hat]
    exact if_pos List.mem_cons_self
  have hnow : s'.handedOut k = s.followed := by
    simp [handedOut, htail, hfollowed, Tail.remaining, Tail.current, Stage.remaining, Stage.current]
  have hdue : s'.due k sub = s.due k sub := due_congr (hnow.trans hbefore.symm)
  have hgiven := h.given
  rw [← hdue] at hgiven
  obtain ⟨core, fed, offered, hfeed, hcases⟩ := sub.feed_cases e after
  rw [hfeed] at hinOrder ⊢
  rw [hrefused] at hcases
  rcases hcases with ⟨-, -, -, -, hp⟩ | ⟨-, -, -, -, -, -, hp⟩ |
    ⟨-, -, -, ⟨-, -, -, -, hp⟩ | ⟨-, -, -, hp⟩ | ⟨-, -, rfl, -⟩⟩
  · cases hp
  · cases hp
  · cases hp
  · cases hp
  · refine ⟨hinOrder, hgiven, ?_⟩
    intro q stage batch' hat'
    rw [htail] at hat'
    cases hat'
    exact .inl hstart

omit [OrderBot ι] in
/-- The tail has nothing in hand, before and after. -/
lemma Fed.idle (h : s.Fed k sub) {p : ι} {stage stage' : Stage ι α κ}
    {batch batch' : List (Entry ι α)} (hat : s.tail = .running p stage batch)
    (htail : s'.tail = .running p stage' batch') (hfollowed : s'.followed = s.followed)
    (hcurrent : stage.current = []) (hcurrent' : stage'.current = []) : s'.Fed k sub := by
  have hstarted : sub.start ≤ p := by
    rcases h.started p stage batch hat with hle | ⟨-, e, he, -⟩
    · exact hle
    · rw [hcurrent] at he
      cases he
  refine h.setTail htail (due_congr ?_) (.inl hstarted)
  unfold handedOut
  rw [hat, htail, hfollowed, Tail.current, Tail.current, hcurrent, hcurrent', List.append_nil,
    ite_self, ite_self]

omit [OrderBot ι] in
/-- The tail moves while it has no position. -/
lemma Fed.setTail_start (h : s.Fed k sub) (hnone : s.tail.position = none)
    (hnone' : s'.tail.position = none) (hfollowed : s'.followed = s.followed) : s'.Fed k sub := by
  obtain ⟨hremaining, hcurrent⟩ := Tail.inHand_of_none hnone
  obtain ⟨hremaining', hcurrent'⟩ := Tail.inHand_of_none hnone'
  have hdue : s'.due k sub = s.due k sub := by
    refine due_congr (handedOut_congr ?_ (hcurrent'.trans hcurrent.symm) hfollowed)
    rw [hremaining, hremaining']
  refine ⟨h.inOrder, ?_, ?_⟩
  · rw [hdue]
    exact h.given
  · intro p stage batch hat
    rw [hat] at hnone'
    cases hnone'

/-- A step of the tail gives each subscription what is due to it. -/
lemma FannedOut.tailMove (h : s.FannedOut) (hok : FanOutReturns s .tail) (move : s.TailMove s') :
    s'.FannedOut := by
  refine ⟨h.following.tailMove move, h.followed.tailMove h.following move, ?_⟩
  intro k hk
  cases move with
  | ask hat => exact (h.fed k hk).setTail_start (by rw [hat]; rfl) rfl rfl
  | @goLive p hat =>
    have hfed := h.fed k hk
    have hnone : s.followed = [] := h.followed.waiting (by simp [hat, Tail.position])
    refine ⟨hfed.inOrder, ?_, ?_⟩
    · have hgiven : (s.sub k).given = [] := by
        rw [hfed.given]
        simp [due, handedOut, hat, hnone, Tail.remaining, Tail.current]
      refine hgiven.trans ?_
      simp [due, handedOut, hnone, Tail.remaining, Tail.current, Stage.remaining, Stage.current]
    · intro q stage batch hat'
      cases hat'
      exact .inl le_rfl
  | fetch hat => exact (h.fed k hk).idle hat rfl rfl rfl rfl
  | resume hat => exact (h.fed k hk).idle hat rfl rfl rfl rfl
  | @begin p e batch hat =>
    have hfed := h.fed k hk
    have hstarted := (hfed.idle hat hat rfl rfl rfl).started p _ _ hat
    refine hfed.setTail rfl (due_congr ?_) (hstarted.imp id fun h => ?_)
    · unfold handedOut
      rw [hat]
      simp [Tail.remaining, Tail.current, Stage.remaining, Stage.current, hk]
    · obtain ⟨-, b, hb, -⟩ := h
      cases hb
  | @finish p e batch hat =>
    have hfed := h.fed k hk
    have hafter : p < e.id := (h.following.ahead _ _ _ hat).after e List.mem_cons_self
    refine hfed.setTail rfl (due_congr ?_) (.inl ?_)
    · unfold handedOut
      rw [hat]
      simp [Tail.remaining, Tail.current, Stage.remaining, Stage.current]
    · rcases hfed.started p _ _ hat with hle | ⟨-, b, hb, hstart⟩
      · exact hle.trans hafter.le
      · rw [hstart, List.mem_singleton.mp hb]
  | @skip p e j rest batch hat hrefuses =>
    have hfed := h.fed k hk
    obtain ⟨hnodup, -⟩ := h.following.remaining
    rw [hat] at hnodup
    have hj : j ∉ rest := (List.nodup_cons.mp hnodup).1
    refine hfed.setTail rfl ?_ ?_
    · by_cases hkj : k = j
      · subst hkj
        simp [due, handedOut, hat, Tail.remaining, Tail.current, Stage.remaining, Stage.current, hj,
          List.filter_append, hrefuses]
      · refine due_congr (handedOut_congr ?_ (by rw [hat]; rfl) rfl)
        simp [hat, Tail.remaining, Stage.remaining, hkj]
    · refine (hfed.started p _ _ hat).imp id ?_
      rintro ⟨hnot, hcurrent⟩
      exact ⟨fun hk => hnot (List.mem_cons_of_mem _ hk), hcurrent⟩
  | @load p e j rest batch hat _ =>
    have hfed := h.fed k hk
    have hstarted := hfed.started p _ _ hat
    exact hfed.setTail rfl (due_congr (handedOut_congr (by rw [hat]; rfl) (by rw [hat]; rfl) rfl))
      hstarted
  | @offer p e after j rest batch hat hreturns =>
    have hfed := h.fed k hk
    obtain ⟨hnodup, -⟩ := h.following.remaining
    rw [hat] at hnodup
    have hj : j ∉ rest := (List.nodup_cons.mp hnodup).1
    have hafter : p < e.id := (h.following.ahead _ _ _ hat).after e List.mem_cons_self
    by_cases hkj : k = j
    · subst hkj
      rw [setSub_self]
      exact hfed.offer hat hafter (h.followed.loaded _ _ _ _ _ _ hat) hj hreturns rfl rfl
    · rw [setSub_of_ne hkj]
      refine hfed.setTail rfl (due_congr (handedOut_congr ?_ (by rw [hat]; rfl) rfl)) ?_
      · simp [TopicState.setSub, hat, Tail.remaining, Stage.remaining, hkj]
      · refine (hfed.started p _ _ hat).imp id ?_
        rintro ⟨hnot, hcurrent⟩
        exact ⟨fun hk => hnot (List.mem_cons_of_mem _ hk), hcurrent⟩
  | @raise p e after j rest batch hat hraises =>
    have hfed := h.fed k hk
    obtain ⟨full, hrefused, hsole⟩ : ∃ full, ((s.sub j).feed e after).1 = .refused full ∧
        s.subs = [j] := by
      simp only [FanOutReturns, raisesToOthers, hat] at hok
      split at hok
      case h_1 full hrefused => exact ⟨full, hrefused, by simpa using hok⟩
      case h_2 => exact absurd (hraises.symm.trans hok) (by decide)
    have hmem : k ∈ [j] := hsole ▸ (hk : k ∈ s.subs)
    obtain rfl : k = j := List.mem_singleton.mp hmem
    rw [setSub_self]
    exact hfed.refuse hat hrefused rfl rfl


omit [OrderBot ι] [DecidableEq κ] in
/-- The tail and the kinds of the subscriptions stay as they are. -/
lemma Followed.of_same (h : s.Followed) (htail : s'.tail = s.tail)
    (hfollowed : s'.followed = s.followed)
    (hids : ∀ k ∈ s.tail.remaining, (s'.sub k).ids = (s.sub k).ids) : s'.Followed := by
  refine h.congr hfollowed (by rw [htail]) ?_
  intro p e after k rest batch hat
  rw [htail] at hat
  have hk : k ∈ s.tail.remaining := by
    rw [hat]
    exact List.mem_cons_self
  rw [DurableSubscription.takes, hids k hk]
  exact h.loaded p e after k rest batch hat

/-- A step that neither moves the tail nor touches a subscription. -/
lemma FannedOut.congr (h : s.FannedOut) (hs : s'.Following) (htail : s'.tail = s.tail)
    (hfollowed : s'.followed = s.followed) (hsubs : s'.subs = s.subs) (hsub : s'.sub = s.sub) :
    s'.FannedOut := by
  refine ⟨hs, h.followed.of_same htail hfollowed fun k _ => by rw [hsub], ?_⟩
  rw [hsubs, hsub]
  exact fun k hk => (h.fed k hk).congr htail hfollowed

/-- The tail moves while it has no position. -/
lemma FannedOut.setTail_start (h : s.FannedOut) {tail : Tail ι α κ}
    (hnone : s.tail.position = none) (hnone' : tail.position = none)
    (hs : ({ s with tail := tail } : TopicState ι α κ τ).Following) :
    ({ s with tail := tail } : TopicState ι α κ τ).FannedOut := by
  refine ⟨hs, h.followed.congr rfl (hnone'.trans hnone.symm) ?_, ?_⟩
  · intro p e after k rest batch (hat : tail = _)
    rw [hat] at hnone'
    cases hnone'
  · exact fun k hk => (h.fed k hk).setTail_start hnone hnone' rfl

/-- `_ensure_tail`. -/
lemma FannedOut.ensure (h : s.FannedOut) :
    ({ s with tail := s.tail.ensure } : TopicState ι α κ τ).FannedOut := by
  have hfollow := h.following.ensure
  cases htail : s.tail with
  | absent =>
    rw [htail] at hfollow
    exact h.setTail_start (by rw [htail]; rfl) rfl hfollow
  | _ =>
    rw [htail] at hfollow
    exact h.congr hfollow htail.symm rfl rfl rfl

/-- A step on the side of one subscription. -/
lemma FannedOut.setSub (h : s.FannedOut) (j : κ) (sub : DurableSubscription ι α τ)
    (hids : sub.ids = (s.sub j).ids)
    (hfed : s.Fed j (s.sub j) → s.Fed j sub) : (s.setSub j sub).FannedOut := by
  refine ⟨h.following.setSub j sub hids, h.followed.of_same rfl rfl ?_, ?_⟩
  · intro k _
    by_cases hkj : k = j
    · subst hkj
      rw [setSub_self]
      exact hids
    · rw [setSub_of_ne hkj]
  · intro k hk
    by_cases hkj : k = j
    · subst hkj
      rw [setSub_self]
      exact (hfed (h.fed k hk)).congr rfl rfl
    · rw [setSub_of_ne hkj]
      exact (h.fed k hk).congr rfl rfl

variable [DecidableEq τ]

lemma FannedOut.emitMove (h : s.FannedOut) {t : τ} (move : s.EmitMove t s') : s'.FannedOut := by
  have hemit {s : TopicState ι α κ τ} {pc : EmitPc ι α κ} (h : s.FannedOut)
      (hs : (s.setEmit t pc).Following) : (s.setEmit t pc).FannedOut := h.congr hs rfl rfl rfl rfl
  have hs' := h.following.emitMove move
  cases move with
  | snapshot _ | done _ | returned _ => exact hemit h hs'
  | skip _ _ => exact hemit h hs'
  | @hand e j rest pc _ _ _ =>
    refine hemit (h.setSub j ((s.sub j).hand e).2 rfl fun hfed => ?_) hs'
    have hgiven : ((s.sub j).hand e).2.given = (s.sub j).given := by
      simp [DurableSubscription.given, DurableSubscription.hand, DurableSubscription.tailFed_append]
    obtain ⟨kept, hkept, hbuffer⟩ := DurableSubscription.put_buffer (s.sub j).toSubscription
      ⟨e, .emit⟩
    refine hfed.setSub ?_ hgiven rfl rfl
    exact hfed.inOrder.enter_emit hkept rfl hbuffer hgiven
  | @entered e j rest pc _ _ _ _ =>
    refine hemit (h.setSub j { s.sub j with
      toSubscription := (s.sub j).enter ⟨e, .emit⟩ } rfl fun hfed => ?_) hs'
    refine hfed.setSub ?_ rfl rfl rfl
    exact hfed.inOrder.enter_emit (List.Sublist.refl _) rfl (.inr rfl) rfl
  | @queued e j rest _ =>
    refine h.setSub j _ rfl fun hfed => ?_
    refine hfed.setSub ?_ rfl rfl rfl
    exact hfed.inOrder.of_sublist (List.Sublist.refl _) rfl

omit [DecidableEq τ] in
/-- The reader of a subscription goes on. -/
lemma FannedOut.readerStep (h : s.FannedOut) (j : κ) : (s.readerStep j).FannedOut := by
  obtain ⟨sub, hp, hids, -, -, -, hoffered, hstart⟩ := s.readerStep_kept j
  have hinOrder : (s.sub j).InOrder → sub.InOrder := by
    obtain ⟨sub', hp', hcases⟩ := s.readerStep_cases j
    have hsub : sub = sub' := by
      rw [← s.setSub_self j sub, ← hp, hp', setSub_self]
    rw [hsub]
    rcases hcases with ⟨live, -, rfl⟩ | ⟨live, page, -, rfl⟩ | ⟨e, rest, -, -, -, rfl⟩ |
      ⟨-, -, -, rfl⟩ | ⟨-, -, rfl⟩
    · exact fun h => h.of_sublist (List.Sublist.refl _) rfl
    · exact fun h => h.absorb live page
    · exact fun h => h.replayNext e rest
    · exact fun h => h.of_sublist (List.Sublist.refl _) rfl
    · exact fun h => h.next
  have hgiven : sub.given = (s.sub j).given := by
    rw [DurableSubscription.given, hoffered, DurableSubscription.given]
  rw [hp]
  exact h.setSub j sub hids fun hfed => hfed.setSub (hinOrder hfed.inOrder) hgiven hstart hids

omit [DecidableEq τ] in
/-- Nothing is due to a new subscription. -/
lemma fed_new (hs : s.Following) (hf : s.Followed) {j : κ} (hj : j ∉ s.subs) {maxsize : ℕ}
    (hmaxsize : 0 < maxsize) (policy : Policy) (opened : Opened ι) :
    s.Fed j (.new s.name maxsize hmaxsize policy opened s.reached) := by
  obtain ⟨-, hreached⟩ := reached_spec hs
  have hremaining : j ∉ s.tail.remaining := fun h => hj (hs.remaining.2 j h)
  have hpast : ∀ e ∈ s.followed ++ s.tail.current, e.id ≤ s.reached := by
    intro e he
    cases htail : s.tail with
    | running p stage batch =>
      obtain ⟨hp, -, hcurrent⟩ := hreached p stage batch htail
      rcases List.mem_append.mp he with he | he
      · exact (hf.behind p (by simp [htail, Tail.position]) e he).trans hp
      · rw [htail] at he
        exact hcurrent e he
    | _ => simp [htail, Tail.current, hf.waiting (by simp [htail, Tail.position])] at he
  refine ⟨List.Sublist.refl _, ?_, ?_⟩
  · refine (List.filter_eq_nil_iff.mpr ?_).symm
    intro e he
    rw [handedOut, if_neg hremaining] at he
    intro hkept
    have hlate : s.reached < e.id := of_decide_eq_true (Bool.and_eq_true_iff.mp hkept).1
    exact absurd (hpast e he) (not_le.mpr hlate)
  · intro p stage batch hat
    rw [hat] at hremaining
    cases stage with
    | reading | broken =>
      left
      simp [DurableSubscription.new, reached, hat]
    | fanning e rest =>
      exact .inr ⟨hremaining, e, List.mem_singleton_self e, by simp [DurableSubscription.new, reached, hat]⟩
    | loaded e after k rest =>
      exact .inr ⟨hremaining, e, List.mem_singleton_self e, by simp [DurableSubscription.new, reached, hat]⟩

/-- Every step of a run whose fan-outs return gives each subscription what is due to it. -/
theorem FannedOut.step {a : TopicAction ι α κ τ} (h : s.FannedOut) (hok : FanOutReturns s a)
    (taken : s.step a = some s') : s'.FannedOut := by
  have hs' := h.following.step taken
  cases a with
  | append ident value =>
    obtain ⟨-, rfl⟩ := of_guard taken
    exact h.congr hs' rfl rfl rfl rfl
  | publish t ident value =>
    simp only [TopicState.step] at taken
    split at taken
    case h_1 =>
      obtain ⟨-, rfl⟩ := of_guard taken
      exact h.congr hs' rfl rfl rfl rfl
    · cases taken
  | trim n =>
    obtain ⟨-, rfl⟩ := of_guard taken
    exact h.congr hs' rfl rfl rfl rfl
  | subscribe j opened maxsize policy =>
    simp only [TopicState.step] at taken
    split at taken
    case isTrue hnew =>
      cases taken
      have hne {k : κ} (hk : k ∈ s.subs) : k ≠ j := by
        rintro rfl
        exact hnew.1 hk
      refine ⟨hs', h.followed.of_same rfl rfl ?_, ?_⟩
      · intro k hk
        rw [setSub_of_ne (hne (h.following.remaining.2 k hk))]
      · intro k hk
        rcases List.mem_append.mp hk with hk | hk
        · rw [setSub_of_ne (hne hk)]
          exact (h.fed k hk).congr rfl rfl
        · obtain rfl := List.mem_singleton.mp hk
          rw [setSub_self]
          exact (fed_new h.following h.followed hnew.1 hnew.2 policy opened).congr rfl rfl
    · cases taken
  | ensureTail j =>
    obtain ⟨-, rfl⟩ := of_guard taken
    refine h.ensure.setSub j _ rfl fun hfed => ?_
    refine hfed.setSub ?_ rfl rfl rfl
    exact hfed.inOrder.of_sublist (List.Sublist.refl _) rfl
  | closeLoop j =>
    obtain ⟨-, rfl⟩ := of_guard taken
    refine h.setSub j _ rfl fun hfed => ?_
    refine hfed.setSub ?_ rfl rfl rfl
    exact hfed.inOrder.of_sublist (List.Sublist.refl _) rfl
  | tail => exact h.tailMove hok (tailStep_move taken)
  | tailFails =>
    rcases tailFailsStep_cases taken with ⟨p, hat, rfl⟩ | ⟨p, batch, hat, rfl⟩
    · exact h.setTail_start (by rw [hat]; rfl) rfl hs'
    · refine ⟨hs', h.followed.congr rfl (by rw [hat]; rfl) ?_, ?_⟩
      · intro p e after k rest batch hat'
        cases hat'
      · exact fun k hk => (h.fed k hk).idle hat rfl rfl rfl rfl
  | emit t => exact h.emitMove (emitStep_move taken)
  | reader j =>
    obtain ⟨-, rfl⟩ := of_guard taken
    exact h.readerStep j
  | readerFails j =>
    obtain ⟨-, rfl⟩ := of_guard taken
    refine h.setSub j _ rfl fun hfed => ?_
    refine hfed.setSub ?_ rfl rfl rfl
    exact hfed.inOrder.of_sublist (List.Sublist.refl _) rfl

omit [DecidableEq τ] in
lemma fannedOut_new (name : String) : (new name : TopicState ι α κ τ).FannedOut := by
  refine ⟨following_new name, ⟨List.Pairwise.nil, fun _ => rfl, ?_, ?_⟩, ?_⟩
  · intro p hp
    cases hp
  · intro p e after k rest batch hat
    cases hat
  · intro k hk
    cases hk

end TopicState

open TopicState DurableSubscription

variable [LinearOrder ι] [OrderBot ι] [DecidableEq κ] [DecidableEq τ]

/-- **The tail delivers in order, once.**  In every run in which no fan-out raises, but for a full
subscription that is the only one: the tail-fed entries a subscription yields strictly increase in
stream id, and what it is given are the entries it takes of what the tail has handed out since it
was registered, whatever the other subscriptions do. -/
theorem tail_delivers_once (name : String) {s : TopicState ι α κ τ}
    (run : Reaches step FanOutReturns (new name) s) {k : κ} (registered : k ∈ s.subs) :
    Ascending Entry.id (tailFed (s.sub k).yielded) ∧ Ascending Entry.id (s.handedOut k) ∧
      (s.sub k).given = s.due k (s.sub k) := by
  have hinv : s.FannedOut := run.invariant (I := FannedOut) (fannedOut_new name)
    fun _ _ _ hI permitted taken => hI.step permitted taken
  have hfed := hinv.fed k registered
  refine ⟨hfed.yielded_ascending hinv.following hinv.followed, ?_, hfed.given⟩
  exact hinv.followed.handedOut_ascending hinv.following k

/-- An entry of another node goes to both kinds of subscription, one of this node to the one opened
with `since`. -/
theorem tail_delivers_once_mixed :
    ∃ s : TopicState StreamId ℕ (Fin 2) (Fin 1),
      (tailFed (s.sub 0).yielded).map Entry.value = [10] ∧ (s.sub 1).given.map Entry.value = [10, 20] ∧
      Ascending Entry.id (tailFed (s.sub 0).yielded) :=
  ⟨_, rfl, rfl, (tail_delivers_once "orders" (Reaches.of_exec
    [.subscribe 0 .plain 8 .error, .ensureTail 0, .subscribe 1 .new 8 .block, .ensureTail 1, .tail,
      .tail, .append (toLex (1, 0)) 10, .publish 0 (toLex (2, 0)) 20, .tail, .tail, .tail, .tail,
      .tail, .tail, .tail, .tail, .tail, .tail, .tail, .reader 0] rfl) (by decide)).1⟩

/-- Subscription `1` is full and refuses the second entry; the tail reads it again, and subscription
`0` yields it twice. -/
theorem full_subscriber_repeats_entry :
    ∃ s : TopicState StreamId ℕ (Fin 2) (Fin 1), Reachable step (new "orders") s ∧ 0 ∈ s.subs ∧
      (tailFed (s.sub 0).yielded).map Entry.value = [10, 20, 20] ∧
      ¬ Ascending Entry.id (tailFed (s.sub 0).yielded) := by
  refine ⟨_, Reachable.of_exec
    [.subscribe 0 .plain 8 .dropOldest, .ensureTail 0, .subscribe 1 .plain 1 .error, .ensureTail 1,
      .tail, .tail, .append (toLex (1, 0)) 10, .append (toLex (2, 0)) 20, .tail, .tail, .tail,
      .tail, .tail, .tail, .tail, .tail, .tail, .tail, .tail, .tail, .tail, .tail, .tail, .tail,
      .tail, .reader 0, .reader 0, .reader 0] rfl, by decide, rfl, ?_⟩
  unfold Ascending
  decide

end Oxbrook
