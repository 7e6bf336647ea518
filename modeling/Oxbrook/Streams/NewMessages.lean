import Oxbrook.Streams.FanOut

/-!
# New messages

A plain subscription, and one opened with `since="$"`, asks for what is appended after `subscribe`
has returned.  An entry of another node comes to it by the tail; one of this node by the `emit` that
appended it, or by the tail if the subscription was opened with `since`.

The first subscription starts the tail, and the tail asks the stream for its last id only after
`subscribe` has returned.  What is appended in between and would come by the tail is then at or
before its position and is never offered; `tail_starts_past_entry` is such a run.  A resumed
subscription covers this gap by its replay, but these have none.

An entry is also missed when the stream is trimmed past the tail, when a fan-out raises, and when the
`emit` that appended it raises at a subscription before.  In every other run each new entry is
offered once.
-/

namespace Oxbrook

open StepMachine

variable {ι α κ τ : Type*}

namespace DurableSubscription

/-- Opened without `since`, or with `"$"`. -/
def asksForNew (sub : DurableSubscription ι α τ) : Bool :=
  match sub.opened with
  | .since _ => false
  | _ => true

/-- The entries of the stream that were appended after `subscribe` returned. -/
def promised (sub : DurableSubscription ι α τ) (log : List (Entry ι α)) : List (Entry ι α) :=
  if sub.asksForNew then sub.returned.elim [] fun n => log.drop n else []

/-- The entries offered otherwise than by the tail, that is by an `emit`, in order. -/
def handed (sub : DurableSubscription ι α τ) : List (Entry ι α) :=
  (sub.offered.filter fun item => !decide (item.feed = .tail)).map Item.entry

/-- How often an entry was offered. -/
def offers [DecidableEq ι] (sub : DurableSubscription ι α τ) (ident : ι) : ℕ :=
  sub.offered.countP fun item => decide (item.entry.id = ident)

lemma promised_subset {sub : DurableSubscription ι α τ} {log : List (Entry ι α)} {e : Entry ι α}
    (h : e ∈ sub.promised log) : e ∈ log := by
  unfold promised at h
  split_ifs at h
  · cases hreturned : sub.returned with
    | none =>
      rw [hreturned] at h
      cases h
    | some n =>
      rw [hreturned] at h
      exact List.mem_of_mem_drop h
  · cases h

/-- What is promised of a longer stream. -/
lemma mem_promised_append {sub : DurableSubscription ι α τ} {log more : List (Entry ι α)}
    {e : Entry ι α} (h : e ∈ sub.promised (log ++ more)) : e ∈ sub.promised log ∨ e ∈ more := by
  unfold promised at h ⊢
  split_ifs at h ⊢
  · cases hreturned : sub.returned with
    | none =>
      rw [hreturned] at h
      cases h
    | some n =>
      rw [hreturned] at h
      have hmem : e ∈ (log ++ more).drop n := h
      rw [List.drop_append, List.mem_append] at hmem
      exact hmem.imp id List.mem_of_mem_drop
  · cases h

/-- Two states of a subscription between which neither its kind nor what it is promised changes. -/
structure SameTerms (sub sub' : DurableSubscription ι α τ) : Prop where
  ids : sub'.ids = sub.ids
  opened : sub'.opened = sub.opened
  returned : sub'.returned = sub.returned

/-- Neither does what `emit` has offered to it. -/
structure SameRecord (sub sub' : DurableSubscription ι α τ) : Prop extends SameTerms sub sub' where
  handed : sub'.handed = sub.handed

variable {sub sub' : DurableSubscription ι α τ}

lemma SameRecord.refl (sub : DurableSubscription ι α τ) : SameRecord sub sub :=
  ⟨⟨rfl, rfl, rfl⟩, rfl⟩

lemma SameTerms.promised (h : SameTerms sub sub') (log : List (Entry ι α)) :
    sub'.promised log = sub.promised log := by
  unfold DurableSubscription.promised asksForNew
  rw [h.opened, h.returned]

lemma SameTerms.takes (h : SameTerms sub sub') (e : Entry ι α) : sub'.takes e = sub.takes e := by
  rw [DurableSubscription.takes, DurableSubscription.takes, h.ids]

variable [LinearOrder ι]

lemma sameRecord_feed (sub : DurableSubscription ι α τ) (e : Entry ι α) (after : Option ι) :
    SameRecord sub (sub.feed e after).2 := by
  obtain ⟨core, fed, offered, hfeed, hcases⟩ := sub.feed_cases e after
  rw [hfeed]
  refine ⟨⟨rfl, rfl, rfl⟩, ?_⟩
  rcases hcases with ⟨-, -, -, rfl, -⟩ | ⟨-, -, -, -, -, rfl, -⟩ |
    ⟨-, -, -, ⟨-, -, -, rfl, -⟩ | ⟨-, -, rfl, -⟩ | ⟨-, -, rfl, -⟩⟩ <;> simp [handed]

end DurableSubscription

open DurableSubscription

namespace EmitPc

/-- The entry an `emit` has appended. -/
def entry : EmitPc ι α κ → Option (Entry ι α)
  | idle => none
  | published e => some e
  | delivering e _ => some e
  | blocked e _ _ => some e

/-- The subscriptions an `emit` has still to come to: all of the topic's, until it has taken its
snapshot. -/
def behind (subs : List κ) : EmitPc ι α κ → List κ
  | idle => []
  | published _ => subs
  | delivering _ rest => rest
  | blocked _ _ rest => rest

lemma behind_mono {subs subs' : List κ} (h : subs ⊆ subs') {pc : EmitPc ι α κ} :
    pc.behind subs ⊆ pc.behind subs' := by
  cases pc with
  | published e => exact h
  | _ => exact List.Subset.refl _

end EmitPc

/-! ## The emits -/

namespace TopicState

/-- The `emit` of `t` is still to offer its entry to `k`. -/
def ToHand (s : TopicState ι α κ τ) (t : τ) (e : Entry ι α) (k : κ) : Prop :=
  (s.emits t).entry = some e ∧ k ∈ (s.emits t).behind s.subs

/-- What holds of the emits in every run: each carries an entry of its own, and has not offered it to
the subscriptions behind. -/
structure Handing (s : TopicState ι α κ τ) : Prop where
  held : ∀ t e, (s.emits t).entry = some e → e ∈ s.log ∧ e.own = true
  alone : ∀ t t' e, (s.emits t).entry = some e → (s.emits t').entry = some e → t = t'
  nodup : ∀ t, ((s.emits t).behind s.subs).Nodup
  handed : ∀ k ∈ s.subs, ∀ e ∈ (s.sub k).handed, e ∈ s.log ∧ e.own = true ∧ (s.sub k).ids = false
  once : ∀ k ∈ s.subs, (s.sub k).handed.Nodup
  fresh : ∀ k ∈ s.subs, ∀ t e, s.ToHand t e k → e ∉ (s.sub k).handed

variable {s s' : TopicState ι α κ τ} {k : κ}

/-- A step that leaves the stream, the emits and what they have offered as they are. -/
lemma Handing.of_same (h : s.Handing) (hlog : s'.log = s.log) (hemits : s'.emits = s.emits)
    (hsubs : s'.subs = s.subs) (hids : ∀ k ∈ s.subs, (s'.sub k).ids = (s.sub k).ids)
    (hhanded : ∀ k ∈ s.subs, (s'.sub k).handed = (s.sub k).handed) : s'.Handing := by
  refine ⟨?_, ?_, ?_, ?_, ?_, ?_⟩
  · rw [hlog, hemits]
    exact h.held
  · rw [hemits]
    exact h.alone
  · rw [hemits, hsubs]
    exact h.nodup
  · rw [hlog, hsubs]
    intro k hk
    rw [hhanded k hk, hids k hk]
    exact h.handed k hk
  · rw [hsubs]
    intro k hk
    rw [hhanded k hk]
    exact h.once k hk
  · unfold ToHand
    rw [hsubs, hemits]
    intro k hk
    rw [hhanded k hk]
    exact h.fresh k hk

variable [DecidableEq τ]

/-- An `emit` goes on to fewer subscriptions, or ends. -/
lemma Handing.setEmit (h : s.Handing) {t : τ} {pc : EmitPc ι α κ}
    (hentry : pc.entry = none ∨ pc.entry = (s.emits t).entry)
    (hbehind : (pc.behind s.subs).Sublist ((s.emits t).behind s.subs)) :
    (s.setEmit t pc).Handing := by
  have hemit (t' : τ) : ((s.setEmit t pc).emits t').entry = none ∨
      ((s.setEmit t pc).emits t').entry = (s.emits t').entry := by
    by_cases htt : t' = t
    · subst htt
      simpa [TopicState.setEmit] using hentry
    · simp [TopicState.setEmit, htt]
  have hsub (t' : τ) : (((s.setEmit t pc).emits t').behind s.subs).Sublist
      ((s.emits t').behind s.subs) := by
    by_cases htt : t' = t
    · subst htt
      simpa [TopicState.setEmit] using hbehind
    · simp [TopicState.setEmit, htt]
  have hold {t' : τ} {e : Entry ι α} (he : ((s.setEmit t pc).emits t').entry = some e) :
      (s.emits t').entry = some e := by
    rcases hemit t' with hnone | hsame
    · rw [hnone] at he
      cases he
    · rw [← hsame]
      exact he
  refine ⟨fun t' e he => h.held t' e (hold he), fun t₁ t₂ e h₁ h₂ => h.alone t₁ t₂ e (hold h₁) (hold h₂),
    fun t' => (h.nodup t').sublist (hsub t'), h.handed, h.once, ?_⟩
  rintro k hk t' e ⟨he, hbehind⟩
  exact h.fresh k hk t' e ⟨hold he, (hsub t').mem hbehind⟩

omit [DecidableEq τ] in
/-- An append to the stream. -/
lemma Handing.append (h : s.Handing) (e : Entry ι α) :
    ({ s with log := s.log ++ [e] } : TopicState ι α κ τ).Handing := by
  refine ⟨fun t b hb => ?_, h.alone, h.nodup, fun k hk b hb => ?_, h.once, h.fresh⟩
  · obtain ⟨hmem, hown⟩ := h.held t b hb
    exact ⟨List.mem_append_left _ hmem, hown⟩
  · obtain ⟨hmem, hown, hids⟩ := h.handed k hk b hb
    exact ⟨List.mem_append_left _ hmem, hown, hids⟩

/-- An `emit` appends its entry. -/
lemma Handing.publish (h : s.Handing) (hnodup : s.subs.Nodup) {t : τ} {e : Entry ι α}
    (hown : e.own = true) (hnew : e ∉ s.log) :
    (TopicState.setEmit { s with log := s.log ++ [e] } t (.published e)).Handing := by
  have hothers {t' : τ} (htt : t' ≠ t) :
      (TopicState.setEmit { s with log := s.log ++ [e] } t (.published e)).emits t' = s.emits t' := by
    simp [TopicState.setEmit, htt]
  have hself :
      (TopicState.setEmit { s with log := s.log ++ [e] } t (.published e)).emits t = .published e := by
    simp [TopicState.setEmit]
  have holds {t' : τ} {b : Entry ι α}
      (hb : ((TopicState.setEmit { s with log := s.log ++ [e] } t (.published e)).emits t').entry =
        some b) : (t' = t ∧ b = e) ∨ (t' ≠ t ∧ (s.emits t').entry = some b) := by
    by_cases htt : t' = t
    · subst htt
      rw [hself] at hb
      cases hb
      exact .inl ⟨rfl, rfl⟩
    · rw [hothers htt] at hb
      exact .inr ⟨htt, hb⟩
  have happend := h.append e
  refine ⟨?_, ?_, ?_, happend.handed, happend.once, ?_⟩
  · intro t' b hb
    rcases holds hb with ⟨-, rfl⟩ | ⟨-, hb⟩
    · exact ⟨List.mem_append_right _ (List.mem_singleton_self _), hown⟩
    · exact happend.held t' b hb
  · intro t₁ t₂ b h₁ h₂
    rcases holds h₁ with ⟨rfl, rfl⟩ | ⟨-, hold₁⟩ <;> rcases holds h₂ with ⟨rfl, hb⟩ | ⟨-, hold₂⟩
    · rfl
    · exact absurd (h.held t₂ b hold₂).1 hnew
    · subst hb
      exact absurd (h.held t₁ b hold₁).1 hnew
    · exact h.alone t₁ t₂ b hold₁ hold₂
  · intro t'
    by_cases htt : t' = t
    · subst htt
      rw [hself]
      exact hnodup
    · rw [hothers htt]
      exact h.nodup t'
  · rintro k hk t' b ⟨hb, hbehind⟩
    rcases holds hb with ⟨-, rfl⟩ | ⟨htt, hb⟩
    · exact fun hmem => hnew (h.handed k hk b hmem).1
    · rw [hothers htt] at hbehind
      exact h.fresh k hk t' b ⟨hb, hbehind⟩

variable [DecidableEq κ]

omit [DecidableEq τ] in
/-- An entry that no `emit` is still to offer to `k` is recorded as offered to it. -/
lemma Handing.hand (h : s.Handing) {e : Entry ι α} (hids : (s.sub k).ids = false)
    (hmem : e ∈ s.log) (hown : e.own = true) (hfresh : e ∉ (s.sub k).handed)
    (hdone : ∀ t, ¬ s.ToHand t e k) : (s.setSub k ((s.sub k).hand e).2).Handing := by
  have hhanded : ((s.sub k).hand e).2.handed = (s.sub k).handed ++ [e] := by
    simp [DurableSubscription.handed, DurableSubscription.hand]
  refine ⟨h.held, h.alone, h.nodup, ?_, ?_, ?_⟩
  · intro j hj b hb
    by_cases hjk : j = k
    · subst hjk
      rw [setSub_self, hhanded] at hb
      rw [setSub_self]
      rcases List.mem_append.mp hb with hb | hb
      · exact h.handed j hj b hb
      · rw [List.mem_singleton.mp hb]
        exact ⟨hmem, hown, hids⟩
    · rw [setSub_of_ne hjk] at hb ⊢
      exact h.handed j hj b hb
  · intro j hj
    by_cases hjk : j = k
    · subst hjk
      rw [setSub_self, hhanded, ← List.concat_eq_append]
      exact (h.once j hj).concat hfresh
    · rw [setSub_of_ne hjk]
      exact h.once j hj
  · intro j hj t b htoHand
    by_cases hjk : j = k
    · subst hjk
      rw [setSub_self, hhanded]
      intro hb
      rcases List.mem_append.mp hb with hb | hb
      · exact h.fresh j hj t b htoHand hb
      · rw [List.mem_singleton.mp hb] at htoHand
        exact hdone t htoHand
    · rw [setSub_of_ne hjk]
      exact h.fresh j hj t b htoHand

/-! ## What is promised is kept -/

omit [DecidableEq κ] [DecidableEq τ] in
/-- An entry of this node promised to a plain subscription was offered to it or is still to be. -/
def OwnKept (s : TopicState ι α κ τ) : Prop :=
  ∀ k ∈ s.subs, (s.sub k).ids = false → ∀ e ∈ (s.sub k).promised s.log, e.own = true →
    e ∈ (s.sub k).handed ∨ ∃ t, s.ToHand t e k

/-- The subscriptions that an `emit` does not come to any more, because it raises now. -/
def leftOut (s : TopicState ι α κ τ) (t : τ) : List κ :=
  match s.emits t with
  | .delivering e (k :: rest) =>
    if !(s.sub k).ids && (s.sub k).raises ((s.sub k).hand e).1 then rest else []
  | .blocked _ k rest =>
    if (s.sub k).closed = false ∧ (s.sub k).buffer.length < (s.sub k).maxsize ∧
      (s.sub k).raises (.entered (s.sub k).getter) = true then rest else []
  | _ => []

omit [DecidableEq κ] [DecidableEq τ] in
/-- What was offered stays offered, and what is to be offered stays so or is offered. -/
lemma OwnKept.of_emits (h : s.OwnKept) (hlog : s'.log = s.log) (hsubs : s'.subs = s.subs)
    (hids : ∀ k ∈ s.subs, (s'.sub k).ids = (s.sub k).ids)
    (hpromised : ∀ k ∈ s.subs, (s'.sub k).promised s.log = (s.sub k).promised s.log)
    (hhanded : ∀ k ∈ s.subs, ∀ e ∈ (s.sub k).handed, e ∈ (s'.sub k).handed)
    (htoHand : ∀ k ∈ s.subs, (s.sub k).ids = false → ∀ e ∈ (s.sub k).promised s.log,
      ∀ t, s.ToHand t e k → e ∈ (s'.sub k).handed ∨ ∃ t', s'.ToHand t' e k) : s'.OwnKept := by
  intro k hk hplain e he hown
  rw [hsubs] at hk
  rw [hids k hk] at hplain
  rw [hlog, hpromised k hk] at he
  rcases h k hk hplain e he hown with hdone | ⟨t, hopen⟩
  · exact .inl (hhanded k hk e hdone)
  · exact htoHand k hk hplain e he t hopen

omit [DecidableEq κ] [DecidableEq τ] in
/-- A step that leaves the stream, the emits and what they have offered as they are. -/
lemma OwnKept.of_same (h : s.OwnKept) (hlog : s'.log = s.log) (hemits : s'.emits = s.emits)
    (hsubs : s'.subs = s.subs) (hsame : ∀ k ∈ s.subs, SameRecord (s.sub k) (s'.sub k)) :
    s'.OwnKept := by
  refine h.of_emits hlog hsubs (fun k hk => (hsame k hk).ids)
    (fun k hk => (hsame k hk).promised s.log) ?_ ?_
  · intro k hk e he
    rw [(hsame k hk).handed]
    exact he
  · intro k _ _ e _ t hopen
    refine .inr ⟨t, ?_⟩
    unfold ToHand
    rw [hsubs, hemits]
    exact hopen

omit [DecidableEq κ] in
/-- The entry of an `emit` is with the `emit` until it has come to everyone it is promised to. -/
lemma OwnKept.setEmit (h : s.OwnKept) {t : τ} {pc : EmitPc ι α κ}
    (hgoes : ∀ e, (s.emits t).entry = some e → ∀ k ∈ s.subs, k ∈ (s.emits t).behind s.subs →
      (s.sub k).ids = false → e ∈ (s.sub k).promised s.log →
      e ∈ (s.sub k).handed ∨ (pc.entry = some e ∧ k ∈ pc.behind s.subs)) :
    (s.setEmit t pc).OwnKept := by
  refine h.of_emits rfl rfl (fun _ _ => rfl) (fun _ _ => rfl) (fun _ _ _ he => he) ?_
  rintro k hk hplain e he t' ⟨hentry, hbehind⟩
  by_cases htt : t' = t
  · subst htt
    refine (hgoes e hentry k hk hbehind hplain he).imp id ?_
    intro hpc
    exact ⟨t', by simpa [ToHand, TopicState.setEmit] using hpc⟩
  · refine .inr ⟨t', ?_⟩
    unfold ToHand
    simp only [TopicState.setEmit, Function.update_of_ne htt]
    exact ⟨hentry, hbehind⟩

omit [DecidableEq τ] in
lemma sameTerms_setSub {j : κ} {sub : DurableSubscription ι α τ} (h : SameTerms (s.sub j) sub)
    (k : κ) : SameTerms (s.sub k) ((s.setSub j sub).sub k) := by
  by_cases hkj : k = j
  · subst hkj
    rw [setSub_self]
    exact h
  · rw [setSub_of_ne hkj]
    exact (SameRecord.refl _).toSameTerms

omit [DecidableEq τ] in
lemma sameRecord_setSub {j : κ} {sub : DurableSubscription ι α τ} (h : SameRecord (s.sub j) sub)
    (k : κ) : SameRecord (s.sub k) ((s.setSub j sub).sub k) := by
  by_cases hkj : k = j
  · subst hkj
    rw [setSub_self]
    exact h
  · rw [setSub_of_ne hkj]
    exact .refl _

omit [DecidableEq τ] in
/-- A step on the side of one subscription. -/
lemma keeps_setSub (hs : s.Handing) (hkept : s.OwnKept) (j : κ) (sub : DurableSubscription ι α τ)
    (h : SameRecord (s.sub j) sub) : (s.setSub j sub).Handing ∧ (s.setSub j sub).OwnKept := by
  have hsame := sameRecord_setSub h
  exact ⟨hs.of_same rfl rfl rfl (fun k _ => (hsame k).ids) fun k _ => (hsame k).handed,
    hkept.of_same rfl rfl rfl fun k _ => hsame k⟩

/-- The entry of the `emit` of `t` is not promised to the plain subscriptions it leaves out. -/
def LeavesOutNone [LinearOrder ι] (s : TopicState ι α κ τ) (t : τ) : Prop :=
  ∀ e ∈ (s.emits t).entry, ∀ k ∈ s.leftOut t, (s.sub k).ids = false →
    ∀ b ∈ (s.sub k).promised s.log, b.id ≠ e.id

/-- A step of an `emit` that offers the entry. -/
lemma keeps_hand [LinearOrder ι] (hs : s.Handing) (hkept : s.OwnKept) {t : τ} {e : Entry ι α}
    {rest : List κ} {pc : EmitPc ι α κ} (hk : k ∈ s.subs)
    (hat : s.emits t = .delivering e (k :: rest)) (hids : (s.sub k).ids = false)
    (hgoes : (pc = .idle ∧ ∀ j ∈ rest, (s.sub j).ids = false →
        ∀ b ∈ (s.sub j).promised s.log, b.id ≠ e.id) ∨
      (pc.entry = some e ∧ pc.behind s.subs = rest)) :
    ((s.setSub k ((s.sub k).hand e).2).setEmit t pc).Handing ∧
      ((s.setSub k ((s.sub k).hand e).2).setEmit t pc).OwnKept := by
  have hentry : (s.emits t).entry = some e := by rw [hat]; rfl
  have hbehind : (s.emits t).behind s.subs = k :: rest := by rw [hat]; rfl
  have hnodup : k ∉ rest := by
    have hn := hs.nodup t
    rw [hbehind] at hn
    exact (List.nodup_cons.mp hn).1
  have hrest : (pc.behind s.subs).Sublist rest := by
    rcases hgoes with ⟨rfl, -⟩ | ⟨-, hpc⟩
    · exact List.nil_sublist _
    · rw [hpc]
  constructor
  · have hmoved : (s.setEmit t pc).Handing := by
      refine hs.setEmit ?_ ?_
      · rcases hgoes with ⟨rfl, -⟩ | ⟨hpc, -⟩
        · exact .inl rfl
        · exact .inr (hpc.trans hentry.symm)
      · rw [hbehind]
        exact hrest.trans (List.sublist_cons_self _ _)
    obtain ⟨hmem, hown⟩ := hs.held t e hentry
    refine hmoved.hand (e := e) hids hmem hown ?_ ?_
    · exact hs.fresh k hk t e ⟨hentry, by rw [hbehind]; exact List.mem_cons_self⟩
    · rintro t' ⟨hentry', hbehind'⟩
      by_cases htt : t' = t
      · subst htt
        have hk : k ∈ pc.behind s.subs := by simpa [TopicState.setEmit] using hbehind'
        exact hnodup (hrest.mem hk)
      · refine htt (hs.alone t' t e ?_ hentry)
        simpa [TopicState.setEmit, htt] using hentry'
  · have hhanded : ((s.sub k).hand e).2.handed = (s.sub k).handed ++ [e] := by
      simp [DurableSubscription.handed, DurableSubscription.hand]
    have hoffered : (s.setSub k ((s.sub k).hand e).2).OwnKept := by
      refine hkept.of_emits rfl rfl ?_ ?_ ?_ fun j _ _ b _ t' h => .inr ⟨t', h⟩
      · intro j _
        by_cases hjk : j = k
        · subst hjk
          rw [setSub_self]
          rfl
        · rw [setSub_of_ne hjk]
      · intro j _
        by_cases hjk : j = k
        · subst hjk
          rw [setSub_self]
          rfl
        · rw [setSub_of_ne hjk]
      · intro j _ b hb
        by_cases hjk : j = k
        · subst hjk
          rw [setSub_self, hhanded]
          exact List.mem_append_left _ hb
        · rw [setSub_of_ne hjk]
          exact hb
    refine hoffered.setEmit ?_
    intro b (hb : (s.emits t).entry = some b) j hj (hjbehind : j ∈ (s.emits t).behind s.subs)
    cases hentry.symm.trans hb
    rw [hbehind] at hjbehind
    by_cases hjk : j = k
    · subst hjk
      rw [setSub_self, hhanded]
      exact fun _ _ => .inl (List.mem_append_right _ (List.mem_singleton_self _))
    · rw [setSub_of_ne hjk]
      have hjrest : j ∈ rest := (List.mem_cons.mp hjbehind).resolve_left hjk
      intro hplain hpromised
      rcases hgoes with ⟨-, hnone⟩ | ⟨hpc, hpcbehind⟩
      · exact absurd rfl (hnone j hjrest hplain e hpromised)
      · refine .inr ⟨hpc, ?_⟩
        change j ∈ pc.behind s.subs
        rw [hpcbehind]
        exact hjrest

variable [LinearOrder ι] [OrderBot ι]

/-- Every step of an `emit` that leaves none of those it is promised to without the entry. -/
lemma keeps_emitMove (hf : s.Following) (hs : s.Handing) (hkept : s.OwnKept) {t : τ}
    (hok : s.LeavesOutNone t) (move : s.EmitMove t s') : s'.Handing ∧ s'.OwnKept := by
  have hremaining {pc : EmitPc ι α κ} (hat : s.emits t = pc) (k : κ) (hk : k ∈ pc.remaining) :
      k ∈ s.subs := hf.emitting t k (hat ▸ hk)
  cases move with
  | @snapshot e hat =>
    refine ⟨hs.setEmit (.inr (by rw [hat]; rfl)) (by rw [hat]; exact .refl _), hkept.setEmit ?_⟩
    intro b hb k hk _ _ _
    rw [hat] at hb
    exact .inr ⟨hb, hk⟩
  | @done e hat =>
    refine ⟨hs.setEmit (.inl rfl) (List.nil_sublist _), hkept.setEmit ?_⟩
    intro b _ k _ hk
    rw [hat] at hk
    cases hk
  | @skip e j rest hat hids =>
    refine ⟨hs.setEmit (.inr (by rw [hat]; rfl)) ?_, hkept.setEmit ?_⟩
    · rw [hat]
      exact List.sublist_cons_self _ _
    · intro b hb k _ hk hplain _
      rw [hat] at hb hk
      rcases List.mem_cons.mp hk with rfl | hk
      · rw [hids] at hplain
        cases hplain
      · exact .inr ⟨hb, hk⟩
  | @hand e j rest pc hat hids hgoes =>
    have hj : j ∈ s.subs := hremaining hat j List.mem_cons_self
    refine keeps_hand hs hkept hj hat hids ?_
    rcases hgoes with ⟨hraises, rfl⟩ | ⟨-, rfl | rfl⟩
    · refine .inl ⟨rfl, fun k hk => hok e (by rw [hat]; rfl) k ?_⟩
      simpa [leftOut, hat, hids, hraises] using hk
    · exact .inr ⟨rfl, rfl⟩
    · exact .inr ⟨rfl, rfl⟩
  | @returned e j rest hat =>
    refine ⟨hs.setEmit (.inr (by rw [hat]; rfl)) (by rw [hat]; exact .refl _), hkept.setEmit ?_⟩
    intro b hb k _ hk _ _
    rw [hat] at hb hk
    exact .inr ⟨hb, hk⟩
  | @entered e j rest pc hat hopen hroom hgoes =>
    obtain ⟨hs', hkept'⟩ := keeps_setSub hs hkept j
      { s.sub j with toSubscription := (s.sub j).enter ⟨e, .emit⟩ } ⟨⟨rfl, rfl, rfl⟩, rfl⟩
    refine ⟨hs'.setEmit ?_ ?_, hkept'.setEmit ?_⟩
    · rcases hgoes with ⟨-, rfl⟩ | ⟨-, rfl⟩
      · exact .inl rfl
      · exact .inr (congrArg EmitPc.entry hat).symm
    · rcases hgoes with ⟨-, rfl⟩ | ⟨-, rfl⟩
      · exact List.nil_sublist _
      · have hbehind : (s.emits t).behind s.subs = rest := by rw [hat]; rfl
        exact hbehind ▸ List.Sublist.refl rest
    · intro b (hb : (s.emits t).entry = some b) k _ (hk : k ∈ (s.emits t).behind s.subs)
      rw [hat] at hb hk
      rcases hgoes with ⟨hraises, rfl⟩ | ⟨-, rfl⟩
      · have hleft : k ∈ s.leftOut t := by simpa [leftOut, hat, hopen, hroom, hraises, EmitPc.behind] using hk
        have hnone := hok b (by rw [hat]; exact hb) k hleft
        have hsame := sameRecord_setSub (s := s)
          (show SameRecord (s.sub j) { s.sub j with
            toSubscription := (s.sub j).enter ⟨e, .emit⟩ } from ⟨⟨rfl, rfl, rfl⟩, rfl⟩) k
        rw [hsame.ids]
        intro hplain hpromised
        exact absurd rfl (hnone hplain b (hsame.promised s.log ▸ hpromised))
      · exact fun _ _ => .inr ⟨hb, hk⟩
  | @queued e j rest hat =>
    exact keeps_setSub hs hkept j { s.sub j with putters := (s.sub j).putters ++ [t] }
      ⟨⟨rfl, rfl, rfl⟩, rfl⟩

/-! ## The tail -/

/-- The id the tail has asked for and will follow from. -/
def answer (s : TopicState ι α κ τ) : Option ι :=
  match s.tail with
  | .asked p => some p
  | _ => none

/-- The tail does not start past an entry it would have to give to a subscription that was there
when the entry was appended. -/
def StartsBeforeNew (s : TopicState ι α κ τ) : Prop :=
  ∀ p ∈ s.answer, ∀ k ∈ s.subs, ∀ e ∈ (s.sub k).promised s.log, (s.sub k).takes e = true → p < e.id

/-- Of what is promised and comes by the tail, only what it has passed is trimmed. -/
def TrimsPassed (s : TopicState ι α κ τ) (n : ℕ) : Prop :=
  ∀ k ∈ s.subs, ∀ e ∈ (s.sub k).promised (s.log.take n), (s.sub k).takes e = true →
    (s.tail.position.any fun p => decide (e.id ≤ p)) = true

omit [OrderBot ι] [DecidableEq κ] [DecidableEq τ] in
/-- What is promised and comes by the tail lies after the id a subscription starts from, is in the
stream until the tail has come to it, and is not passed over. -/
structure TailKept (s : TopicState ι α κ τ) : Prop where
  logged : ∀ e ∈ s.followed, e ∈ s.log
  started : ∀ p, s.tail.position = some p → ∀ k ∈ s.subs, ∀ e ∈ (s.sub k).promised s.log,
    (s.sub k).takes e = true → (s.sub k).start < e.id
  followed : ∀ p, s.tail.position = some p → ∀ k ∈ s.subs, ∀ e ∈ (s.sub k).promised s.log,
    (s.sub k).takes e = true → e.id ≤ p → e ∈ s.followed
  present : ∀ k ∈ s.subs, ∀ e ∈ (s.sub k).promised s.log, (s.sub k).takes e = true →
    e ∈ s.present ∨ ∃ p, s.tail.position = some p ∧ e.id ≤ p

omit [OrderBot ι] [DecidableEq κ] [DecidableEq τ] in
/-- A step that leaves the stream and the tail's position as they are. -/
lemma TailKept.of_same (h : s.TailKept) (hlog : s'.log = s.log) (htrimmed : s'.trimmed = s.trimmed)
    (hposition : s'.tail.position = s.tail.position) (hfollowed : s'.followed = s.followed)
    (hsubs : s'.subs = s.subs) (hsame : ∀ k ∈ s.subs, SameTerms (s.sub k) (s'.sub k))
    (hstart : ∀ k ∈ s.subs, (s'.sub k).start = (s.sub k).start) : s'.TailKept := by
  have hpresent : s'.present = s.present := by
    rw [TopicState.present, TopicState.present, hlog, htrimmed]
  refine ⟨?_, ?_, ?_, ?_⟩
  · rw [hlog, hfollowed]
    exact h.logged
  · rw [hlog, hposition, hsubs]
    intro p hp k hk e
    rw [(hsame k hk).promised, (hsame k hk).takes, hstart k hk]
    exact h.started p hp k hk e
  · rw [hlog, hposition, hsubs, hfollowed]
    intro p hp k hk e
    rw [(hsame k hk).promised, (hsame k hk).takes]
    exact h.followed p hp k hk e
  · rw [hlog, hposition, hsubs, hpresent]
    intro k hk e
    rw [(hsame k hk).promised, (hsame k hk).takes]
    exact h.present k hk e

omit [OrderBot ι] [DecidableEq κ] [DecidableEq τ] in
lemma feed_start (sub : DurableSubscription ι α τ) (e : Entry ι α) (after : Option ι) :
    (sub.feed e after).2.start = sub.start := by
  obtain ⟨core, fed, offered, hfeed, -⟩ := sub.feed_cases e after
  rw [hfeed]

omit [LinearOrder ι] [OrderBot ι] [DecidableEq τ] in
lemma setSub_start {j : κ} {sub : DurableSubscription ι α τ} (hstart : sub.start = (s.sub j).start)
    (k : κ) : ((s.setSub j sub).sub k).start = (s.sub k).start := by
  by_cases hkj : k = j
  · subst hkj
    rw [setSub_self]
    exact hstart
  · rw [setSub_of_ne hkj]

omit [OrderBot ι] [DecidableEq τ] in
/-- A step on the side of one subscription. -/
lemma TailKept.setSub (h : s.TailKept) (j : κ) (sub : DurableSubscription ι α τ)
    (hsame : SameTerms (s.sub j) sub) (hstart : sub.start = (s.sub j).start) :
    (s.setSub j sub).TailKept := by
  exact h.of_same rfl rfl rfl rfl rfl (fun k _ => sameTerms_setSub hsame k)
    fun k _ => setSub_start hstart k

omit [DecidableEq τ] in
/-- An append comes after everything the tail has seen. -/
lemma TailKept.append (h : s.TailKept) (hs : s.FannedOut) {e : Entry ι α}
    (hmay : s.mayAppend e.id = true) :
    ({ s with log := s.log ++ [e] } : TopicState ι α κ τ).TailKept := by
  obtain ⟨hpos, hnew⟩ := mayAppend_iff.mp hmay
  have hbefore {p : ι} (hp : s.Known p) : p < e.id := by
    rcases hp with rfl | ⟨b, hb, rfl⟩
    · exact hpos
    · exact hnew b hb
  refine ⟨fun b hb => List.mem_append_left _ (h.logged b hb), ?_, ?_, ?_⟩
  · intro p hp k hk b hb htakes
    rcases mem_promised_append hb with hb | hb
    · exact h.started p hp k hk b hb htakes
    · rw [List.mem_singleton.mp hb]
      cases htail : s.tail with
      | running q stage batch =>
        have hknown := hs.following.known q (by simp [htail, Tail.position])
        rcases (hs.fed k hk).started q stage batch htail with hle | ⟨-, c, hc, hstart⟩
        · exact hle.trans_lt (hbefore hknown)
        · have hmem := (hs.following.ahead q stage batch htail).mem c (List.mem_append_left _ hc)
          exact hstart ▸ hnew c hmem
      | _ => simp [htail, Tail.position] at hp
  · intro p hp k hk b hb htakes hle
    rcases mem_promised_append hb with hb | hb
    · exact h.followed p hp k hk b hb htakes hle
    · rw [List.mem_singleton.mp hb] at hle
      exact absurd (hbefore (hs.following.known p hp)) (not_lt.mpr hle)
  · intro k hk b hb htakes
    have hpresent : ({ s with log := s.log ++ [e] } : TopicState ι α κ τ).present = s.present ++ [e] :=
      List.drop_append_of_le_length hs.following.trimmed
    rw [hpresent]
    rcases mem_promised_append hb with hb | hb
    · exact (h.present k hk b hb htakes).imp (List.mem_append_left _) id
    · exact .inl (List.mem_append_right _ hb)

omit [DecidableEq τ] in
lemma TailKept.tailMove (h : s.TailKept) (hs : s.FannedOut) (hok : s.StartsBeforeNew)
    (move : s.TailMove s') : s'.TailKept := by
  cases move with
  | @goLive p hat =>
    have hnone : s.tail.position = none := by rw [hat]; rfl
    have hlate : ∀ k ∈ s.subs, ∀ e ∈ (s.sub k).promised s.log, (s.sub k).takes e = true →
        p < e.id := hok p (by simp [answer, hat])
    refine ⟨h.logged, ?_, ?_, ?_⟩
    · intro q hq k hk e he htakes
      exact hlate k hk e he htakes
    · intro q hq k hk e he htakes hle
      cases hq
      exact absurd (hlate k hk e he htakes) (not_lt.mpr hle)
    · intro k hk e he htakes
      rcases h.present k hk e he htakes with hpresent | ⟨q, hq, -⟩
      · exact .inl hpresent
      · rw [hnone] at hq
        cases hq
  | @finish p e batch hat =>
    have hposition : s.tail.position = some p := by rw [hat]; rfl
    have hahead := hs.following.ahead _ _ _ hat
    have hafter : p < e.id := hahead.after e List.mem_cons_self
    have hlogged : e ∈ s.log := hahead.mem e List.mem_cons_self
    refine ⟨?_, ?_, ?_, ?_⟩
    · intro b hb
      rcases List.mem_append.mp hb with hb | hb
      · exact h.logged b hb
      · rw [List.mem_singleton.mp hb]
        exact hlogged
    · exact fun q _ => h.started p hposition
    · intro q hq k hk b hb htakes hle
      cases hq
      rcases le_or_gt b.id p with hpassed | hpassed
      · exact List.mem_append_left _ (h.followed p hposition k hk b hb htakes hpassed)
      · have hpresent : b ∈ s.present := by
          rcases h.present k hk b hb htakes with hpresent | ⟨q, hq, hle⟩
          · exact hpresent
          · cases hposition.symm.trans hq
            exact absurd hpassed (not_lt.mpr hle)
        have hsame : b.id = e.id := le_antisymm hle (hahead.le_of_present hpresent hpassed)
        rw [hs.following.sorted.eq_of_key_eq (promised_subset hb) hlogged hsame]
        exact List.mem_append_right _ (List.mem_singleton_self e)
    · intro k hk b hb htakes
      refine (h.present k hk b hb htakes).imp id ?_
      rintro ⟨q, hq, hle⟩
      cases hposition.symm.trans hq
      exact ⟨e.id, rfl, hle.trans hafter.le⟩
  | offer hat _ | raise hat _ =>
    exact h.of_same rfl rfl (by rw [hat]; rfl) rfl rfl
      (fun k _ => sameTerms_setSub (sameRecord_feed _ _ _).toSameTerms k)
      fun k _ => setSub_start (feed_start _ _ _) k
  | ask hat | fetch hat | begin hat | resume hat =>
    exact h.of_same rfl rfl (by rw [hat]; rfl) rfl rfl
      (fun k _ => (SameRecord.refl _).toSameTerms) fun _ _ => rfl
  | skip hat _ | load hat _ =>
    exact h.of_same rfl rfl (by rw [hat]; rfl) rfl rfl
      (fun k _ => (SameRecord.refl _).toSameTerms) fun _ _ => rfl

omit [DecidableEq τ] in
/-- The tail moves neither the stream nor the emits, and what they have offered stays. -/
lemma sameRecord_tailMove (move : s.TailMove s') :
    s'.log = s.log ∧ s'.emits = s.emits ∧ s'.subs = s.subs ∧
      ∀ k, SameRecord (s.sub k) (s'.sub k) := by
  cases move with
  | goLive hat => exact ⟨rfl, rfl, rfl, fun _ => ⟨⟨rfl, rfl, rfl⟩, rfl⟩⟩
  | offer hat _ | raise hat _ =>
    exact ⟨rfl, rfl, rfl, fun k => sameRecord_setSub (sameRecord_feed _ _ _) k⟩
  | _ => exact ⟨rfl, rfl, rfl, fun _ => .refl _⟩

/-! ## Runs -/

/-- The steps that do not make a subscription miss a new entry, or get one twice. -/
def KeepsNew (s : TopicState ι α κ τ) : TopicAction ι α κ τ → Prop
  | .tail => FanOutReturns s .tail ∧ s.StartsBeforeNew
  | .emit t => s.LeavesOutNone t
  | .trim n => s.TrimsPassed n
  | _ => True

instance (s : TopicState ι α κ τ) : (a : TopicAction ι α κ τ) → Decidable (KeepsNew s a)
  | .tail => inferInstanceAs (Decidable (_ ∧ ∀ p ∈ s.answer, ∀ k ∈ s.subs,
      ∀ e ∈ (s.sub k).promised s.log, (s.sub k).takes e = true → p < e.id))
  | .emit t => inferInstanceAs (Decidable (∀ e ∈ (s.emits t).entry, ∀ k ∈ s.leftOut t,
      (s.sub k).ids = false → ∀ b ∈ (s.sub k).promised s.log, b.id ≠ e.id))
  | .trim n => inferInstanceAs (Decidable (∀ k ∈ s.subs, ∀ e ∈ (s.sub k).promised (s.log.take n),
      (s.sub k).takes e = true → (s.tail.position.any fun p => decide (e.id ≤ p)) = true))
  | .append _ _ | .publish _ _ _ | .subscribe _ _ _ _ | .ensureTail _ | .closeLoop _ | .tailFails
  | .reader _ | .readerFails _ => .isTrue trivial

/-- What holds of the whole topic in a run that keeps new entries. -/
structure PromisesKept (s : TopicState ι α κ τ) : Prop where
  fannedOut : s.FannedOut
  handing : s.Handing
  own : s.OwnKept
  tail : s.TailKept

omit [DecidableEq τ] in
/-- A step on the side of one subscription. -/
lemma PromisesKept.setSub (h : s.PromisesKept) (j : κ) (sub : DurableSubscription ι α τ)
    (hs : (s.setSub j sub).FannedOut) (hsame : SameRecord (s.sub j) sub)
    (hstart : sub.start = (s.sub j).start) : (s.setSub j sub).PromisesKept := by
  obtain ⟨hhanding, hown⟩ := keeps_setSub h.handing h.own j sub hsame
  exact ⟨hs, hhanding, hown, h.tail.setSub j sub hsame.toSameTerms hstart⟩

omit [LinearOrder ι] [OrderBot ι] [DecidableEq κ] [DecidableEq τ] in
/-- An entry of another node is not the business of the emits. -/
lemma OwnKept.append (h : s.OwnKept) {e : Entry ι α} (hother : e.own = false) :
    ({ s with log := s.log ++ [e] } : TopicState ι α κ τ).OwnKept := by
  intro k hk hplain b hb hown
  rcases mem_promised_append hb with hb | hb
  · exact h k hk hplain b hb hown
  · rw [List.mem_singleton.mp hb, hother] at hown
    cases hown

omit [LinearOrder ι] [OrderBot ι] [DecidableEq κ] in
/-- An entry of this node is with the `emit` that appends it. -/
lemma OwnKept.publish (h : s.OwnKept) {t : τ} (hidle : s.emits t = .idle) (e : Entry ι α) :
    (TopicState.setEmit { s with log := s.log ++ [e] } t (.published e)).OwnKept := by
  intro k hk hplain b hb hown
  rcases mem_promised_append hb with hb | hb
  · refine (h k hk hplain b hb hown).imp id ?_
    rintro ⟨t', hentry, hbehind⟩
    have htt : t' ≠ t := by
      rintro rfl
      rw [hidle] at hentry
      cases hentry
    refine ⟨t', ?_⟩
    unfold ToHand
    simp only [TopicState.setEmit, Function.update_of_ne htt]
    exact ⟨hentry, hbehind⟩
  · refine .inr ⟨t, ?_⟩
    rw [List.mem_singleton.mp hb]
    simpa [ToHand, TopicState.setEmit, EmitPc.entry, EmitPc.behind] using hk

omit [OrderBot ι] [DecidableEq κ] [DecidableEq τ] in
lemma TailKept.trim (h : s.TailKept) {n : ℕ} (hok : s.TrimsPassed n) :
    ({ s with trimmed := n } : TopicState ι α κ τ).TailKept := by
  refine ⟨h.logged, h.started, h.followed, ?_⟩
  intro k hk e he htakes
  have hsplit : e ∈ (s.sub k).promised (s.log.take n ++ s.log.drop n) := by
    rw [List.take_append_drop]
    exact he
  rcases mem_promised_append hsplit with hgone | hpresent
  · obtain ⟨p, hp, hle⟩ := Option.any_eq_true .. |>.mp (hok k hk e hgone htakes)
    exact .inr ⟨p, hp, of_decide_eq_true hle⟩
  · exact .inl hpresent

omit [DecidableEq τ] in
/-- The tail goes on without moving its position. -/
lemma PromisesKept.setTail (h : s.PromisesKept) {tail : Tail ι α κ}
    (hs : ({ s with tail := tail } : TopicState ι α κ τ).FannedOut)
    (hposition : tail.position = s.tail.position) :
    ({ s with tail := tail } : TopicState ι α κ τ).PromisesKept := by
  refine ⟨hs, ?_, ?_, ?_⟩
  · exact h.handing.of_same rfl rfl rfl (fun _ _ => rfl) fun _ _ => rfl
  · exact h.own.of_same rfl rfl rfl fun _ _ => .refl _
  · exact h.tail.of_same rfl rfl hposition rfl rfl (fun _ _ => (SameRecord.refl _).toSameTerms)
      fun _ _ => rfl

omit [DecidableEq κ] [DecidableEq τ] [LinearOrder ι] [OrderBot ι] in
/-- Nothing is promised before `subscribe` returns. -/
lemma promised_of_not_returned {sub : DurableSubscription ι α τ} (h : sub.returned = none)
    (log : List (Entry ι α)) : sub.promised log = [] := by
  unfold DurableSubscription.promised
  rw [h]
  exact ite_self _

omit [LinearOrder ι] [OrderBot ι] [DecidableEq κ] [DecidableEq τ] in
/-- Subscriptions are added, or come to be promised what is appended from now on. -/
lemma OwnKept.of_new (h : s.OwnKept) (hlog : s'.log = s.log) (hemits : s'.emits = s.emits)
    (hsubs : s.subs ⊆ s'.subs) (hold : ∀ k ∈ s'.subs,
      (k ∈ s.subs ∧ s'.sub k = s.sub k) ∨ (s'.sub k).promised s.log = []) : s'.OwnKept := by
  intro k hk hplain e he hown
  rw [hlog] at he
  rcases hold k hk with ⟨hmem, hsub⟩ | hnil
  · rw [hsub] at hplain he ⊢
    refine (h k hmem hplain e he hown).imp id ?_
    rintro ⟨t, hentry, hbehind⟩
    refine ⟨t, ?_, ?_⟩ <;> rw [hemits]
    · exact hentry
    · exact EmitPc.behind_mono hsubs hbehind
  · rw [hnil] at he
    cases he

omit [OrderBot ι] [DecidableEq κ] [DecidableEq τ] in
lemma TailKept.of_new (h : s.TailKept) (hlog : s'.log = s.log) (htrimmed : s'.trimmed = s.trimmed)
    (hposition : s'.tail.position = s.tail.position) (hfollowed : s'.followed = s.followed)
    (hold : ∀ k ∈ s'.subs,
      (k ∈ s.subs ∧ s'.sub k = s.sub k) ∨ (s'.sub k).promised s.log = []) : s'.TailKept := by
  have hpresent : s'.present = s.present := by
    rw [TopicState.present, TopicState.present, hlog, htrimmed]
  rw [← hlog] at hold
  have hlogged : ∀ e ∈ s'.followed, e ∈ s'.log := by
    rw [hlog, hfollowed]
    exact h.logged
  refine ⟨hlogged, fun p hp k hk e he => ?_, fun p hp k hk e he => ?_, fun k hk e he => ?_⟩ <;>
    rcases hold k hk with ⟨hmem, hsub⟩ | hnil
  · rw [hsub, hlog] at he
    rw [hsub]
    exact h.started p (hposition ▸ hp) k hmem e he
  · rw [hnil] at he
    cases he
  · rw [hsub, hlog] at he
    rw [hsub, hfollowed]
    exact h.followed p (hposition ▸ hp) k hmem e he
  · rw [hnil] at he
    cases he
  · rw [hsub, hlog] at he
    rw [hsub, hposition, hpresent]
    exact h.present k hmem e he
  · rw [hnil] at he
    cases he

omit [DecidableEq τ] in
/-- A new subscription. -/
lemma PromisesKept.subscribe (h : s.PromisesKept) {j : κ} {sub : DurableSubscription ι α τ}
    (hj : j ∉ s.subs) (hnone : sub.returned = none) (hnew : sub.offered = [])
    (hs : ({ s with subs := s.subs ++ [j] }.setSub j sub : TopicState ι α κ τ).FannedOut) :
    ({ s with subs := s.subs ++ [j] }.setSub j sub : TopicState ι α κ τ).PromisesKept := by
  have hold : ∀ k ∈ s.subs ++ [j], (k ∈ s.subs ∧
      ({ s with subs := s.subs ++ [j] }.setSub j sub : TopicState ι α κ τ).sub k = s.sub k) ∨
      k = j := by
    intro k hk
    rcases List.mem_append.mp hk with hmem | hlast
    · have hkj : k ≠ j := by
        rintro rfl
        exact hj hmem
      exact .inl ⟨hmem, setSub_of_ne hkj _ _⟩
    · exact .inr (List.mem_singleton.mp hlast)
  have hhanded : sub.handed = [] := by
    rw [DurableSubscription.handed, hnew]
    rfl
  have hpromised : ∀ k ∈ s.subs ++ [j], (k ∈ s.subs ∧
      ({ s with subs := s.subs ++ [j] }.setSub j sub : TopicState ι α κ τ).sub k = s.sub k) ∨
      (({ s with subs := s.subs ++ [j] }.setSub j sub : TopicState ι α κ τ).sub k).promised s.log = [] := by
    intro k hk
    refine (hold k hk).imp id ?_
    rintro rfl
    rw [setSub_self]
    exact promised_of_not_returned hnone s.log
  refine ⟨hs, ⟨h.handing.held, h.handing.alone, ?_, ?_, ?_, ?_⟩,
    h.own.of_new rfl rfl (List.subset_append_left _ _) hpromised,
    h.tail.of_new rfl rfl rfl rfl hpromised⟩
  · intro t
    cases hat : s.emits t with
    | published e =>
      change (EmitPc.behind (s.subs ++ [j]) (s.emits t)).Nodup
      rw [hat]
      exact hs.following.nodup
    | idle | delivering e rest | blocked e k rest =>
      have hn := h.handing.nodup t
      change (EmitPc.behind (s.subs ++ [j]) (s.emits t)).Nodup
      rw [hat] at hn ⊢
      exact hn
  · intro k hk
    rcases hold k hk with ⟨hmem, hsub⟩ | rfl
    · rw [hsub]
      exact h.handing.handed k hmem
    · rw [setSub_self, hhanded]
      intro e he
      cases he
  · intro k hk
    rcases hold k hk with ⟨hmem, hsub⟩ | rfl
    · rw [hsub]
      exact h.handing.once k hmem
    · rw [setSub_self, hhanded]
      exact List.nodup_nil
  · intro k hk t e htoHand
    rcases hold k hk with ⟨hmem, hsub⟩ | rfl
    · rw [hsub]
      refine h.handing.fresh k hmem t e ⟨htoHand.1, ?_⟩
      have hbehind := htoHand.2
      change k ∈ (s.emits t).behind (s.subs ++ [j]) at hbehind
      cases hat : s.emits t with
      | published e => exact hmem
      | idle | delivering e rest | blocked e k rest =>
        rw [hat] at hbehind
        exact hbehind
    · rw [setSub_self, hhanded]
      exact List.not_mem_nil

omit [DecidableEq τ] in
/-- `subscribe` returns. -/
lemma PromisesKept.returns (h : s.PromisesKept) {j : κ} {sub : DurableSubscription ι α τ}
    (hids : sub.ids = (s.sub j).ids) (hreturned : sub.returned = some s.log.length)
    (hoffered : sub.offered = (s.sub j).offered) (hs : (s.setSub j sub).FannedOut) :
    (s.setSub j sub).PromisesKept := by
  have hpromised : sub.promised s.log = [] := by
    unfold DurableSubscription.promised
    rw [hreturned]
    simp
  have hold : ∀ k ∈ s.subs, (k ∈ s.subs ∧ (s.setSub j sub).sub k = s.sub k) ∨
      ((s.setSub j sub).sub k).promised s.log = [] := by
    intro k hk
    by_cases hkj : k = j
    · subst hkj
      rw [setSub_self]
      exact .inr hpromised
    · exact .inl ⟨hk, setSub_of_ne hkj _ _⟩
  refine ⟨hs, ?_, h.own.of_new rfl rfl (List.Subset.refl _) hold,
    h.tail.of_new rfl rfl rfl rfl hold⟩
  refine h.handing.of_same rfl rfl rfl (fun k _ => ?_) fun k _ => ?_
  · by_cases hkj : k = j
    · subst hkj
      rw [setSub_self]
      exact hids
    · rw [setSub_of_ne hkj]
  · by_cases hkj : k = j
    · subst hkj
      rw [setSub_self, DurableSubscription.handed, hoffered, DurableSubscription.handed]
    · rw [setSub_of_ne hkj]

omit [OrderBot ι] in
/-- An `emit` moves neither the stream nor the tail, nor the terms of a subscription. -/
lemma TailKept.emitMove (h : s.TailKept) {t : τ} (move : s.EmitMove t s') : s'.TailKept := by
  have hemit {s : TopicState ι α κ τ} {pc : EmitPc ι α κ} (h : s.TailKept) :
      (s.setEmit t pc).TailKept :=
    h.of_same rfl rfl rfl rfl rfl (fun _ _ => (SameRecord.refl _).toSameTerms) fun _ _ => rfl
  cases move with
  | snapshot _ | done _ | returned _ => exact hemit h
  | skip _ _ => exact hemit h
  | @hand e j rest pc _ _ _ => exact hemit (h.setSub j ((s.sub j).hand e).2 ⟨rfl, rfl, rfl⟩ rfl)
  | @entered e j rest pc _ _ _ _ =>
    exact hemit (h.setSub j { s.sub j with toSubscription := (s.sub j).enter ⟨e, .emit⟩ }
      ⟨rfl, rfl, rfl⟩ rfl)
  | @queued e j rest _ => exact h.setSub j _ ⟨rfl, rfl, rfl⟩ rfl

/-- Every step that keeps new entries keeps what is promised. -/
theorem PromisesKept.step {a : TopicAction ι α κ τ} (h : s.PromisesKept) (hok : KeepsNew s a)
    (taken : s.step a = some s') : s'.PromisesKept := by
  have hfan : FanOutReturns s a := by
    cases a with
    | tail => exact hok.1
    | _ => rfl
  have hs' := h.fannedOut.step hfan taken
  cases a with
  | append ident value =>
    obtain ⟨hmay, rfl⟩ := of_guard taken
    exact ⟨hs', h.handing.append _, h.own.append rfl, h.tail.append h.fannedOut (e := ⟨ident, value, false⟩) hmay⟩
  | publish t ident value =>
    simp only [TopicState.step] at taken
    split at taken
    case h_1 hidle =>
      obtain ⟨hmay, rfl⟩ := of_guard taken
      have hnew : ⟨ident, value, true⟩ ∉ s.log := fun hmem =>
        lt_irrefl ident ((mayAppend_iff.mp hmay).2 _ hmem)
      refine ⟨hs', h.handing.publish h.fannedOut.following.nodup rfl hnew, h.own.publish hidle _, ?_⟩
      exact (h.tail.append h.fannedOut (e := ⟨ident, value, true⟩) hmay).of_same rfl rfl rfl rfl rfl
        (fun _ _ => (SameRecord.refl _).toSameTerms) fun _ _ => rfl
    · cases taken
  | trim n =>
    obtain ⟨-, rfl⟩ := of_guard taken
    refine ⟨hs', ?_, ?_, h.tail.trim hok⟩
    · exact h.handing.of_same rfl rfl rfl (fun _ _ => rfl) fun _ _ => rfl
    · exact h.own.of_same rfl rfl rfl fun _ _ => .refl _
  | subscribe j opened maxsize policy =>
    simp only [TopicState.step] at taken
    split at taken
    case isTrue hnew =>
      cases taken
      exact h.subscribe hnew.1 rfl rfl hs'
    · cases taken
  | ensureTail j =>
    obtain ⟨-, rfl⟩ := of_guard taken
    have hensured : ({ s with tail := s.tail.ensure } : TopicState ι α κ τ).PromisesKept := by
      refine h.setTail h.fannedOut.ensure ?_
      cases s.tail <;> rfl
    exact hensured.returns rfl rfl rfl hs'
  | closeLoop j =>
    obtain ⟨-, rfl⟩ := of_guard taken
    exact h.setSub j _ hs' ⟨⟨rfl, rfl, rfl⟩, rfl⟩ rfl
  | tail =>
    have move := tailStep_move taken
    obtain ⟨hlog, hemits, hsubs, hsame⟩ := sameRecord_tailMove move
    refine ⟨hs', ?_, ?_, h.tail.tailMove h.fannedOut hok.2 move⟩
    · exact h.handing.of_same hlog hemits hsubs (fun k _ => (hsame k).ids) fun k _ => (hsame k).handed
    · exact h.own.of_same hlog hemits hsubs fun k _ => hsame k
  | tailFails =>
    rcases tailFailsStep_cases taken with ⟨p, hat, rfl⟩ | ⟨p, batch, hat, rfl⟩
    · exact h.setTail hs' (by rw [hat]; rfl)
    · exact h.setTail hs' (by rw [hat]; rfl)
  | emit t =>
    obtain ⟨hhanding, hown⟩ :=
      keeps_emitMove h.fannedOut.following h.handing h.own hok (emitStep_move taken)
    exact ⟨hs', hhanding, hown, h.tail.emitMove (emitStep_move taken)⟩
  | reader j =>
    obtain ⟨-, rfl⟩ := of_guard taken
    obtain ⟨sub, hp, hids, hopened, -, hreturned, hoffered, hstart⟩ := s.readerStep_kept j
    rw [hp] at hs' ⊢
    refine h.setSub j sub hs' ⟨⟨hids, hopened, hreturned⟩, ?_⟩ hstart
    rw [DurableSubscription.handed, hoffered, DurableSubscription.handed]
  | readerFails j =>
    obtain ⟨-, rfl⟩ := of_guard taken
    exact h.setSub j _ hs' ⟨⟨rfl, rfl, rfl⟩, rfl⟩ rfl

omit [DecidableEq τ] in
lemma promisesKept_new (name : String) : (new name : TopicState ι α κ τ).PromisesKept := by
  have hnone {P : κ → Prop} : ∀ k ∈ (new name : TopicState ι α κ τ).subs, P k := by
    intro k hk
    cases hk
  refine ⟨fannedOut_new name, ⟨?_, ?_, fun _ => List.nodup_nil, hnone, hnone, hnone⟩, hnone, ?_⟩
  · intro t e he
    cases he
  · intro t t' e he
    cases he
  · refine ⟨?_, fun _ _ => hnone, fun _ _ => hnone, hnone⟩
    intro e he
    cases he

/-! ## Counting the offers -/

omit [LinearOrder ι] [OrderBot ι] [DecidableEq κ] [DecidableEq τ] in
/-- An entry is offered by the tail or by an `emit`. -/
lemma offers_eq [DecidableEq ι] (sub : DurableSubscription ι α τ) (ident : ι) :
    sub.offers ident = (sub.given.countP fun e => decide (e.id = ident)) +
      sub.handed.countP fun e => decide (e.id = ident) := by
  rw [DurableSubscription.offers, List.countP_eq_countP_filter_add _ _
    (fun item => decide (item.feed = .tail)), DurableSubscription.given, DurableSubscription.tailFed,
    DurableSubscription.handed, List.countP_map, List.countP_map]
  rfl

variable {e : Entry ι α}

omit [DecidableEq τ] in
/-- What the tail has given is in the stream, and the subscription takes it. -/
lemma PromisesKept.given (h : s.PromisesKept) (hk : k ∈ s.subs) {b : Entry ι α}
    (hb : b ∈ (s.sub k).given) : b ∈ s.log ∧ (s.sub k).takes b = true := by
  rw [(h.fannedOut.fed k hk).given] at hb
  obtain ⟨hb, hkeep⟩ := List.mem_filter.mp hb
  refine ⟨?_, (Bool.and_eq_true_iff.mp hkeep).2⟩
  unfold handedOut at hb
  split_ifs at hb
  · exact h.tail.logged b hb
  · rcases List.mem_append.mp hb with hb | hb
    · exact h.tail.logged b hb
    · cases htail : s.tail with
      | running p stage batch =>
        rw [htail] at hb
        exact (h.fannedOut.following.ahead p stage batch htail).mem b (List.mem_append_left _ hb)
      | _ =>
        rw [htail] at hb
        cases hb

omit [DecidableEq τ] in
/-- An entry that comes by the tail is offered by it alone, and when the tail has passed it. -/
lemma PromisesKept.offers_of_takes (h : s.PromisesKept) (hk : k ∈ s.subs)
    (he : e ∈ (s.sub k).promised s.log) (htakes : (s.sub k).takes e = true) :
    (s.sub k).offers e.id ≤ 1 ∧
      ∀ p, s.tail.position = some p → e.id ≤ p → (s.sub k).offers e.id = 1 := by
  have hs := h.fannedOut
  have hlog := promised_subset he
  have hemits : ((s.sub k).handed.countP fun b => decide (b.id = e.id)) = 0 := by
    refine List.countP_eq_zero.mpr fun b hb hid => ?_
    obtain ⟨hmem, hown, hids⟩ := h.handing.handed k hk b hb
    rw [hs.following.sorted.eq_of_key_eq hmem hlog (of_decide_eq_true hid)] at hown
    simp [DurableSubscription.takes, hown, hids] at htakes
  have hgiven := (hs.fed k hk).given
  have hascending : Ascending Entry.id (s.sub k).given := by
    rw [hgiven]
    exact (hs.followed.handedOut_ascending hs.following k).sublist List.filter_sublist
  have hle := countP_key_le_one hascending.nodup_keys e.id
  rw [offers_eq, hemits]
  refine ⟨hle, ?_⟩
  intro p hp hpassed
  have hfollowed := h.tail.followed p hp k hk e he htakes hpassed
  have hmem : e ∈ (s.sub k).given := by
    rw [hgiven]
    refine List.mem_filter.mpr ⟨?_, ?_⟩
    · unfold handedOut
      split_ifs
      · exact hfollowed
      · exact List.mem_append_left _ hfollowed
    · simp [htakes, h.tail.started p hp k hk e he htakes]
  have hpos : 0 < (s.sub k).given.countP fun b => decide (b.id = e.id) :=
    List.countP_pos_iff.mpr ⟨e, hmem, decide_eq_true rfl⟩
  exact le_antisymm hle hpos

omit [DecidableEq τ] in
/-- An entry that comes by an `emit` is offered by it alone, and once it has come to the
subscription. -/
lemma PromisesKept.offers_of_own (h : s.PromisesKept) (hk : k ∈ s.subs)
    (he : e ∈ (s.sub k).promised s.log) (htakes : (s.sub k).takes e = false) :
    (s.sub k).offers e.id ≤ 1 ∧ ((s.sub k).offers e.id = 1 ∨ ∃ t, s.ToHand t e k) := by
  have hsorted := h.fannedOut.following.sorted
  have hlog := promised_subset he
  obtain ⟨hids, hown⟩ : (s.sub k).ids = false ∧ e.own = true := by
    simpa [DurableSubscription.takes] using htakes
  have htail : ((s.sub k).given.countP fun b => decide (b.id = e.id)) = 0 := by
    refine List.countP_eq_zero.mpr fun b hb hid => ?_
    obtain ⟨hmem, htakesb⟩ := h.given hk hb
    rw [hsorted.eq_of_key_eq hmem hlog (of_decide_eq_true hid), htakes] at htakesb
    cases htakesb
  have hkeys : ((s.sub k).handed.map Entry.id).Nodup := by
    refine (h.handing.once k hk).map_on fun a ha b hb => ?_
    exact hsorted.eq_of_key_eq (h.handing.handed k hk a ha).1 (h.handing.handed k hk b hb).1
  have hle := countP_key_le_one hkeys e.id
  rw [offers_eq, htail, Nat.zero_add]
  refine ⟨hle, (h.own k hk hids e he hown).imp ?_ id⟩
  intro hmem
  have hpos : 0 < (s.sub k).handed.countP fun b => decide (b.id = e.id) :=
    List.countP_pos_iff.mpr ⟨e, hmem, decide_eq_true rfl⟩
  exact le_antisymm hle hpos

end TopicState

open TopicState

variable [LinearOrder ι] [OrderBot ι] [DecidableEq κ] [DecidableEq τ]

end Oxbrook
