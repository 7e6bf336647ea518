import Oxbrook.Foundation.Ascending
import Oxbrook.Streams.Topic

/-!
# The tail and the stream

What one step of the tail can do, and what the tail holds of the stream at every moment of every
run: the entries it has read and not yet handed out are, in order, the next ones after its position
that the stream holds.  Nothing here assumes that the fan-out succeeds.
-/

namespace Oxbrook

open StepMachine

variable {ι α κ τ : Type*}

/-! ## Moves of the tail -/

namespace Stage

/-- The entry the tail is handing out. -/
def current : Stage ι α κ → List (Entry ι α)
  | reading => []
  | fanning entry _ => [entry]
  | loaded entry _ _ _ => [entry]
  | broken => []

/-- The subscriptions the entry is still to be offered to. -/
def remaining : Stage ι α κ → List κ
  | reading => []
  | fanning _ rest => rest
  | loaded _ _ k rest => k :: rest
  | broken => []

end Stage

namespace Tail

/-- The subscriptions still to be offered the entry in hand. -/
def remaining : Tail ι α κ → List κ
  | running _ stage _ => stage.remaining
  | _ => []

/-- The tail's position in the stream, once it has one. -/
def position : Tail ι α κ → Option ι
  | running p _ _ => some p
  | _ => none

end Tail

/-- The subscriptions an `emit` still has to hand its entry to, or waits in. -/
def EmitPc.remaining : EmitPc ι α κ → List κ
  | idle => []
  | published _ => []
  | delivering _ rest => rest
  | blocked _ k rest => k :: rest

namespace TopicState

variable [LinearOrder ι] [OrderBot ι] [DecidableEq κ] [DecidableEq τ]

/-- Everything the tail can do in one step. -/
inductive TailMove (s : TopicState ι α κ τ) : TopicState ι α κ τ → Prop
  | ask (at_ : s.tail = .starting) : TailMove s { s with tail := .asked s.lastId }
  | goLive {p : ι} (at_ : s.tail = .asked p) :
      TailMove s { s with
        tail := .running p .reading []
        live := true
        sub := fun k => { s.sub k with start := p, fed := p } }
  | fetch {p : ι} (at_ : s.tail = .running p .reading []) :
      TailMove s { s with tail := .running p .reading (s.entriesAfter p followCount) }
  | begin {p : ι} {e : Entry ι α} {batch : List (Entry ι α)}
      (at_ : s.tail = .running p .reading (e :: batch)) :
      TailMove s { s with tail := .running p (.fanning e s.subs) batch }
  | finish {p : ι} {e : Entry ι α} {batch : List (Entry ι α)}
      (at_ : s.tail = .running p (.fanning e []) batch) :
      TailMove s { s with
        tail := .running e.id .reading batch, followed := s.followed ++ [e] }
  | skip {p : ι} {e : Entry ι α} {k : κ} {rest : List κ} {batch : List (Entry ι α)}
      (at_ : s.tail = .running p (.fanning e (k :: rest)) batch)
      (refuses : (s.sub k).takes e = false) :
      TailMove s { s with tail := .running p (.fanning e rest) batch }
  | load {p : ι} {e : Entry ι α} {k : κ} {rest : List κ} {batch : List (Entry ι α)}
      (at_ : s.tail = .running p (.fanning e (k :: rest)) batch)
      (takes : (s.sub k).takes e = true) :
      TailMove s { s with
        tail := .running p
          (.loaded e (if (s.sub k).ids then (s.sub k).after else none) k rest) batch }
  | offer {p : ι} {e : Entry ι α} {after : Option ι} {k : κ} {rest : List κ}
      {batch : List (Entry ι α)} (at_ : s.tail = .running p (.loaded e after k rest) batch)
      (returns : (s.sub k).raises ((s.sub k).feed e after).1 = false) :
      TailMove s ({ s with tail := .running p (.fanning e rest) batch }.setSub k
        ((s.sub k).feed e after).2)
  | raise {p : ι} {e : Entry ι α} {after : Option ι} {k : κ} {rest : List κ}
      {batch : List (Entry ι α)} (at_ : s.tail = .running p (.loaded e after k rest) batch)
      (raises : (s.sub k).raises ((s.sub k).feed e after).1 = true) :
      TailMove s ({ s with tail := .running p .broken [] }.setSub k ((s.sub k).feed e after).2)
  | resume {p : ι} {batch : List (Entry ι α)} (at_ : s.tail = .running p .broken batch) :
      TailMove s { s with tail := .running p .reading [] }

variable {s s' : TopicState ι α κ τ}

omit [DecidableEq τ] in
lemma tailStep_move (taken : s.tailStep = some s') : s.TailMove s' := by
  unfold tailStep at taken
  split at taken
  · cases taken
  case h_2 h =>
    cases taken
    exact .ask h
  case h_3 p h =>
    cases taken
    exact .goLive h
  case h_4 p h =>
    cases taken
    exact .fetch h
  case h_5 p e batch h =>
    cases taken
    exact .begin h
  case h_6 p e batch h =>
    cases taken
    exact .finish h
  case h_7 p e k rest batch h =>
    split at taken
    case isTrue hskip =>
      cases taken
      refine .skip h ?_
      simpa [DurableSubscription.takes, and_comm] using hskip
    case isFalse htakes =>
      cases taken
      refine .load h ?_
      cases hown : e.own <;> cases hids : (s.sub k).ids <;>
        simp_all [DurableSubscription.takes]
  case h_8 p e after k rest batch h =>
    cases taken
    unfold offerTail
    cases hraises : (s.sub k).raises ((s.sub k).feed e after).1 with
    | true => simpa [hraises] using TailMove.raise h hraises
    | false => simpa [hraises] using TailMove.offer h hraises
  case h_9 p batch h =>
    cases taken
    exact .resume h

omit [LinearOrder ι] [OrderBot ι] [DecidableEq κ] [DecidableEq τ] in
lemma tailFailsStep_cases (taken : s.tailFailsStep = some s') :
    (∃ p, s.tail = .asked p ∧ s' = { s with tail := .starting }) ∨
    (∃ p batch, s.tail = .running p .reading batch ∧
      s' = { s with tail := .running p .broken [] }) := by
  unfold tailFailsStep at taken
  split at taken
  case h_1 p h => exact .inl ⟨p, h, (Option.some.inj taken).symm⟩
  case h_2 p batch h => exact .inr ⟨p, batch, h, (Option.some.inj taken).symm⟩
  · cases taken

/-- Everything an `emit` can do in one step. -/
inductive EmitMove (s : TopicState ι α κ τ) (t : τ) : TopicState ι α κ τ → Prop
  | snapshot {e : Entry ι α} (at_ : s.emits t = .published e) :
      EmitMove s t (s.setEmit t (.delivering e s.subs))
  | done {e : Entry ι α} (at_ : s.emits t = .delivering e []) : EmitMove s t (s.setEmit t .idle)
  | skip {e : Entry ι α} {k : κ} {rest : List κ} (at_ : s.emits t = .delivering e (k :: rest))
      (ids : (s.sub k).ids = true) : EmitMove s t (s.setEmit t (.delivering e rest))
  | hand {e : Entry ι α} {k : κ} {rest : List κ} {pc : EmitPc ι α κ}
      (at_ : s.emits t = .delivering e (k :: rest)) (ids : (s.sub k).ids = false)
      (goes : ((s.sub k).raises ((s.sub k).hand e).1 = true ∧ pc = .idle) ∨
        ((s.sub k).raises ((s.sub k).hand e).1 = false ∧
          (pc = .blocked e k rest ∨ pc = .delivering e rest))) :
      EmitMove s t ((s.setSub k ((s.sub k).hand e).2).setEmit t pc)
  | returned {e : Entry ι α} {k : κ} {rest : List κ} (at_ : s.emits t = .blocked e k rest) :
      EmitMove s t (s.setEmit t (.delivering e rest))
  | entered {e : Entry ι α} {k : κ} {rest : List κ} {pc : EmitPc ι α κ}
      (at_ : s.emits t = .blocked e k rest) (isOpen : (s.sub k).closed = false)
      (room : (s.sub k).buffer.length < (s.sub k).maxsize)
      (goes : ((s.sub k).raises (.entered (s.sub k).getter) = true ∧ pc = .idle) ∨
        ((s.sub k).raises (.entered (s.sub k).getter) = false ∧ pc = .delivering e rest)) :
      EmitMove s t ((s.setSub k { s.sub k with
        toSubscription := (s.sub k).enter ⟨e, .emit⟩ }).setEmit t pc)
  | queued {e : Entry ι α} {k : κ} {rest : List κ} (at_ : s.emits t = .blocked e k rest) :
      EmitMove s t (s.setSub k { s.sub k with putters := (s.sub k).putters ++ [t] })

omit [LinearOrder ι] [OrderBot ι] in
lemma emitStep_move {t : τ} (taken : s.emitStep t = some s') : s.EmitMove t s' := by
  unfold emitStep at taken
  split at taken
  · cases taken
  case h_2 e h =>
    cases taken
    exact .snapshot h
  case h_3 e h =>
    cases taken
    exact .done h
  case h_4 e k rest h =>
    split at taken
    case isTrue hids =>
      cases taken
      exact .skip h hids
    case isFalse hids =>
      rw [← Option.some.inj taken]
      refine .hand h (by simpa using hids) ?_
      cases hraises : (s.sub k).raises ((s.sub k).hand e).1 with
      | true => exact .inl ⟨rfl, if_pos rfl⟩
      | false =>
        refine .inr ⟨rfl, ?_⟩
        rw [if_neg (by decide)]
        cases ((s.sub k).hand e).1 <;> simp
  case h_5 e k rest h =>
    rcases (s.sub k).offerTurn_cases ⟨e, .emit⟩ t with ⟨-, hp⟩ | ⟨hopen, hroom, hp⟩ | ⟨-, -, hp⟩ <;>
      rw [hp] at taken <;> rw [← Option.some.inj taken]
    · exact .returned h
    · refine .entered h hopen hroom ?_
      cases hraises : (s.sub k).raises (.entered (s.sub k).getter) with
      | true => exact .inl ⟨rfl, if_pos rfl⟩
      | false => exact .inr ⟨rfl, if_neg (by decide)⟩
    · exact .queued h

end TopicState

/-! ## What the tail holds of the stream -/

namespace TopicState

variable {s s' : TopicState ι α κ τ}

lemma mem_log_of_mem_present {e : Entry ι α} (h : e ∈ s.present) : e ∈ s.log :=
  List.mem_of_mem_drop h

lemma mem_present_append {e e' : Entry ι α}
    (h : e' ∈ ({ s with log := s.log ++ [e] } : TopicState ι α κ τ).present) :
    e' ∈ s.present ∨ e' = e := by
  rw [present, List.drop_append, List.mem_append] at h
  rcases h with h | h
  · exact .inl h
  · exact .inr (List.mem_singleton.mp (List.mem_of_mem_drop h))

section Ahead

variable [LinearOrder ι]

/-- `entries` are the next entries after `p`: they are in order, and whatever else the stream holds
after `p` comes after all of them. -/
structure Ahead (s : TopicState ι α κ τ) (p : ι) (entries : List (Entry ι α)) : Prop where
  ascending : Ascending Entry.id entries
  mem : ∀ e ∈ entries, e ∈ s.log
  after : ∀ e ∈ entries, p < e.id
  complete : ∀ e ∈ s.present, p < e.id → e ∈ entries ∨ ∀ b ∈ entries, b.id < e.id

/-- An append keeps what the tail has read right after its position. -/
lemma Ahead.append {p : ι} {entries : List (Entry ι α)} {e : Entry ι α} (h : s.Ahead p entries)
    (hnew : ∀ b ∈ s.log, b.id < e.id) :
    ({ s with log := s.log ++ [e] } : TopicState ι α κ τ).Ahead p entries := by
  refine ⟨h.ascending, fun b hb => List.mem_append_left _ (h.mem b hb), h.after, ?_⟩
  intro b hb hp
  rcases mem_present_append hb with hb | rfl
  · exact h.complete b hb hp
  · exact .inr fun c hc => hnew c (h.mem c hc)

/-- What was read depends on the stream alone. -/
lemma Ahead.congr {p : ι} {entries : List (Entry ι α)} (h : s.Ahead p entries)
    (hlog : s'.log = s.log) (htrimmed : s'.trimmed = s.trimmed) : s'.Ahead p entries := by
  have hpresent : s'.present = s.present := by rw [present, present, hlog, htrimmed]
  refine ⟨h.ascending, ?_, h.after, ?_⟩
  · rw [hlog]
    exact h.mem
  · rw [hpresent]
    exact h.complete

/-- Trimming the stream takes nothing from what was read of it. -/
lemma Ahead.trim {p : ι} {entries : List (Entry ι α)} {n : ℕ} (h : s.Ahead p entries)
    (hn : s.trimmed ≤ n) : ({ s with trimmed := n } : TopicState ι α κ τ).Ahead p entries := by
  refine ⟨h.ascending, h.mem, h.after, fun e he => h.complete e ?_⟩
  exact (List.drop_sublist_drop_left _ hn).mem he

/-- A tail that has read nothing yet. -/
lemma ahead_nil (s : TopicState ι α κ τ) (p : ι) : s.Ahead p [] := by
  refine ⟨List.Pairwise.nil, ?_, ?_, fun e _ _ => .inr ?_⟩ <;> intro b hb <;> cases hb

/-- What `XREAD` returns. -/
lemma ahead_entriesAfter (hsorted : Ascending Entry.id s.log) (p : ι) (count : ℕ) :
    s.Ahead p (s.entriesAfter p count) := by
  have hpresent : Ascending Entry.id (s.present.filter fun e => decide (p < e.id)) :=
    hsorted.sublist (List.filter_sublist.trans (List.drop_sublist _ _))
  refine ⟨hpresent.sublist (List.take_sublist _ _), ?_, ?_, ?_⟩
  · intro e he
    exact mem_log_of_mem_present (List.mem_filter.mp (List.mem_of_mem_take he)).1
  · intro e he
    simpa using (List.mem_filter.mp (List.mem_of_mem_take he)).2
  · intro e he hp
    exact hpresent.mem_take_or_lt (List.mem_filter.mpr ⟨he, by simpa using hp⟩) count

/-- The tail's position moves over the first entry ahead of it. -/
lemma Ahead.advance {p : ι} {e : Entry ι α} {batch : List (Entry ι α)}
    (h : s.Ahead p (e :: batch)) : s.Ahead e.id batch := by
  obtain ⟨hfirst, hrest⟩ := List.pairwise_cons.mp h.ascending
  refine ⟨hrest, fun b hb => h.mem b (List.mem_cons_of_mem _ hb), hfirst, ?_⟩
  intro b hb hlt
  rcases h.complete b hb ((h.after e List.mem_cons_self).trans hlt) with hmem | hall
  · rcases List.mem_cons.mp hmem with rfl | hmem
    · exact absurd hlt (lt_irrefl _)
    · exact .inl hmem
  · exact .inr fun c hc => hall c (List.mem_cons_of_mem _ hc)

/-- Nothing the stream holds lies between the tail's position and the first entry ahead. -/
lemma Ahead.le_of_present {p : ι} {e b : Entry ι α} {batch : List (Entry ι α)}
    (h : s.Ahead p (e :: batch)) (hb : b ∈ s.present) (hp : p < b.id) : e.id ≤ b.id := by
  rcases h.complete b hb hp with hmem | hall
  · rcases List.mem_cons.mp hmem with rfl | hmem
    · exact le_rfl
    · exact ((List.pairwise_cons.mp h.ascending).1 b hmem).le
  · exact (hall e List.mem_cons_self).le

end Ahead

section Following

variable [LinearOrder ι] [OrderBot ι]

/-- The id is `0-0` or that of an entry. -/
def Known (s : TopicState ι α κ τ) (p : ι) : Prop :=
  p = ⊥ ∨ ∃ e ∈ s.log, e.id = p

/-- What holds between the stream, the tail, the emits and the list of subscriptions in every
run. -/
structure Following (s : TopicState ι α κ τ) : Prop where
  sorted : Ascending Entry.id s.log
  positive : ∀ e ∈ s.log, ⊥ < e.id
  trimmed : s.trimmed ≤ s.log.length
  nodup : s.subs.Nodup
  emitting : ∀ t, ∀ k ∈ (s.emits t).remaining, k ∈ s.subs
  waiting : ∀ t e k rest, s.emits t = .blocked e k rest → (s.sub k).ids = false
  answered : ∀ p, s.tail = .asked p → s.Known p
  live : s.live = true ↔ s.tail.position.isSome = true
  known : ∀ p, s.tail.position = some p → s.Known p
  ahead : ∀ p stage batch, s.tail = .running p stage batch → s.Ahead p (stage.current ++ batch)
  remaining : s.tail.remaining.Nodup ∧ ∀ k ∈ s.tail.remaining, k ∈ s.subs

lemma mayAppend_iff {ident : ι} :
    s.mayAppend ident = true ↔ ⊥ < ident ∧ ∀ e ∈ s.log, e.id < ident := by
  simp [mayAppend]

lemma Known.append {p : ι} {e : Entry ι α} (h : s.Known p) :
    ({ s with log := s.log ++ [e] } : TopicState ι α κ τ).Known p := by
  rcases h with h | ⟨b, hb, hp⟩
  · exact .inl h
  · exact .inr ⟨b, List.mem_append_left _ hb, hp⟩

lemma Known.congr {p : ι} (h : s.Known p) (hlog : s'.log = s.log) : s'.Known p := by
  rw [Known, hlog]
  exact h

lemma known_lastId (s : TopicState ι α κ τ) : s.Known s.lastId := by
  unfold lastId
  split
  case h_1 e he =>
    exact .inr ⟨e, mem_log_of_mem_present (List.mem_of_getLast? he), rfl⟩
  · exact .inl rfl

/-- Replacing subscriptions, but for their kind, is nothing to the tail. -/
lemma Following.setSubs (h : s.Following) {sub : κ → DurableSubscription ι α τ}
    (hids : ∀ k ∈ s.subs, (sub k).ids = (s.sub k).ids) :
    ({ s with sub := sub } : TopicState ι α κ τ).Following := by
  refine ⟨h.sorted, h.positive, h.trimmed, h.nodup, h.emitting, ?_, h.answered, h.live, h.known, ?_,
    h.remaining⟩
  · intro t e k rest (hat : s.emits t = .blocked e k rest)
    have hk : k ∈ s.subs := h.emitting t k (by simp [hat, EmitPc.remaining])
    exact (hids k hk).trans (h.waiting t e k rest hat)
  · intro p stage batch hat
    exact (h.ahead p stage batch hat).congr rfl rfl

/-- A move of the tail with a position in hand. -/
lemma Following.setTail (h : s.Following) {p : ι} {stage : Stage ι α κ} {batch : List (Entry ι α)}
    {live : Bool} (hlive : live = true) (hknown : s.Known p)
    (hahead : s.Ahead p (stage.current ++ batch))
    (hremaining : stage.remaining.Nodup ∧ ∀ k ∈ stage.remaining, k ∈ s.subs) :
    ({ s with tail := .running p stage batch, live := live } : TopicState ι α κ τ).Following := by
  refine ⟨h.sorted, h.positive, h.trimmed, h.nodup, h.emitting, h.waiting, ?_, by simp [Tail.position, hlive],
    ?_, ?_, hremaining⟩
  · intro q hq
    cases hq
  · intro q hq
    cases hq
    exact hknown
  · intro q stage' batch' hq
    cases hq
    exact hahead.congr rfl rfl

/-- A move of the tail before it has a position. -/
lemma Following.setTail_start (h : s.Following) (hnone : s.tail.position = none)
    {tail : Tail ι α κ} (hposition : tail.position = none)
    (hanswer : ∀ p, tail = .asked p → s.Known p) :
    ({ s with tail := tail } : TopicState ι α κ τ).Following := by
  have hremaining : tail.remaining = [] := by
    cases tail <;> first | rfl | cases hposition
  refine ⟨h.sorted, h.positive, h.trimmed, h.nodup, h.emitting, h.waiting, hanswer, ?_, ?_, ?_, ?_⟩
  · have hlive := h.live
    rw [hnone] at hlive
    simpa [hposition] using hlive
  · intro p hp
    rw [show tail.position = some p from hp] at hposition
    cases hposition
  · intro p stage batch hat
    rw [show tail = .running p stage batch from hat] at hposition
    cases hposition
  · simp [hremaining]

/-- `_ensure_tail`. -/
lemma Following.ensure (h : s.Following) :
    ({ s with tail := s.tail.ensure } : TopicState ι α κ τ).Following := by
  cases hat : s.tail with
  | absent => exact h.setTail_start (by rw [hat]; rfl) rfl (by simp [Tail.ensure])
  | _ =>
    rw [Tail.ensure, ← hat]
    · exact h
    · intro habsent
      cases habsent

omit [OrderBot ι] in
lemma feed_ids (sub : DurableSubscription ι α τ) (e : Entry ι α) (after : Option ι) :
    (sub.feed e after).2.ids = sub.ids := by
  obtain ⟨core, fed, offered, hfeed, -⟩ := sub.feed_cases e after
  rw [hfeed]

/-- The id a new subscription starts from is that of an entry, and the tail is not past it. -/
lemma reached_spec (hs : s.Following) : s.Known s.reached ∧
    ∀ p stage batch, s.tail = .running p stage batch → p ≤ s.reached ∧
      (∀ e, e ∈ s.present ∨ e ∈ stage.current ++ batch → p < e.id → s.reached ≤ e.id) ∧
      ∀ e ∈ stage.current, e.id ≤ s.reached := by
  have hfan {p : ι} {e : Entry ι α} {stage : Stage ι α κ} {batch : List (Entry ι α)}
      (hat : s.tail = .running p stage batch) (hcurrent : stage.current = [e])
      (hreached : s.reached = e.id) :
      s.Known s.reached ∧ p ≤ s.reached ∧
        (∀ b, b ∈ s.present ∨ b ∈ stage.current ++ batch → p < b.id → s.reached ≤ b.id) ∧
        ∀ b ∈ stage.current, b.id ≤ s.reached := by
    have hahead := hs.ahead _ _ _ hat
    rw [hcurrent] at hahead ⊢
    rw [hreached]
    refine ⟨.inr ⟨e, hahead.mem e List.mem_cons_self, rfl⟩,
      (hahead.after e List.mem_cons_self).le, ?_, ?_⟩
    · rintro b (hb | hb) hp
      · exact hahead.le_of_present hb hp
      · rcases List.mem_cons.mp hb with rfl | hb
        · exact le_rfl
        · exact ((List.pairwise_cons.mp hahead.ascending).1 b hb).le
    · intro b hb
      rw [List.mem_singleton.mp hb]
  cases htail : s.tail with
  | running p stage batch =>
    cases stage with
    | reading =>
      have hreached : s.reached = p := by simp [reached, htail]
      rw [hreached]
      refine ⟨hs.known p (by simp [htail, Tail.position]), fun q stage batch hat => ?_⟩
      cases hat
      refine ⟨le_rfl, fun e _ hp => hp.le, ?_⟩
      intro e he
      cases he
    | broken =>
      have hreached : s.reached = p := by simp [reached, htail]
      rw [hreached]
      refine ⟨hs.known p (by simp [htail, Tail.position]), fun q stage batch hat => ?_⟩
      cases hat
      refine ⟨le_rfl, fun e _ hp => hp.le, ?_⟩
      intro e he
      cases he
    | fanning e rest =>
      obtain ⟨hknown, hspec⟩ := hfan htail rfl (by simp [reached, htail])
      refine ⟨hknown, fun q stage batch hat => ?_⟩
      cases hat
      exact hspec
    | loaded e after j rest =>
      obtain ⟨hknown, hspec⟩ := hfan htail rfl (by simp [reached, htail])
      refine ⟨hknown, fun q stage batch hat => ?_⟩
      cases hat
      exact hspec
  | absent =>
    refine ⟨.inl (by simp [reached, htail]), fun q stage batch hat => ?_⟩
    cases hat
  | starting =>
    refine ⟨.inl (by simp [reached, htail]), fun q stage batch hat => ?_⟩
    cases hat
  | asked p =>
    refine ⟨.inl (by simp [reached, htail]), fun q stage batch hat => ?_⟩
    cases hat

variable [DecidableEq κ]

/-- Everything a step of a reader can do: to its own subscription, and to nothing else. -/
lemma readerStep_cases (s : TopicState ι α κ τ) (k : κ) :
    ∃ sub, s.readerStep k = s.setSub k sub ∧
      ((∃ live, (s.sub k).reader = .paging live ∧ sub = { s.sub k with
          reader := .paged live (s.entriesAfter ((s.sub k).after.getD ⊥) replayPage) }) ∨
        (∃ live page, (s.sub k).reader = .paged live page ∧ sub = (s.sub k).absorb live page) ∨
        (∃ e rest, (s.sub k).reader = .idle ∧ (s.sub k).replaying = true ∧
          (s.sub k).backlog = e :: rest ∧ sub = (s.sub k).replayNext e rest) ∨
        ((s.sub k).reader = .idle ∧ (s.sub k).replaying = true ∧ (s.sub k).backlog = [] ∧
          sub = { s.sub k with reader := .paging s.live }) ∨
        ((s.sub k).reader = .idle ∧ (s.sub k).replaying = false ∧ sub = (s.sub k).next)) := by
  unfold readerStep
  split
  case h_1 live hat => exact ⟨_, rfl, .inl ⟨live, hat, rfl⟩⟩
  case h_2 live page hat => exact ⟨_, rfl, .inr (.inl ⟨live, page, hat, rfl⟩)⟩
  case h_3 hat =>
    cases hreplaying : (s.sub k).replaying with
    | true =>
      rw [if_pos rfl]
      split
      case h_1 e rest hbacklog =>
        exact ⟨_, rfl, .inr (.inr (.inl ⟨e, rest, hat, rfl, hbacklog, rfl⟩))⟩
      case h_2 hbacklog => exact ⟨_, rfl, .inr (.inr (.inr (.inl ⟨hat, rfl, hbacklog, rfl⟩)))⟩
    | false =>
      rw [if_neg (by decide)]
      exact ⟨_, rfl, .inr (.inr (.inr (.inr ⟨hat, rfl, rfl⟩)))⟩

/-- What no step of a reader changes of its subscription. -/
lemma readerStep_kept (s : TopicState ι α κ τ) (k : κ) :
    ∃ sub, s.readerStep k = s.setSub k sub ∧ sub.ids = (s.sub k).ids ∧
      sub.opened = (s.sub k).opened ∧ sub.dropped = (s.sub k).dropped ∧
      sub.returned = (s.sub k).returned ∧ sub.offered = (s.sub k).offered ∧
      sub.start = (s.sub k).start := by
  obtain ⟨sub, hp, hcases⟩ := s.readerStep_cases k
  refine ⟨sub, hp, ?_⟩
  rcases hcases with ⟨live, -, rfl⟩ | ⟨live, page, -, rfl⟩ | ⟨e, rest, -, -, -, rfl⟩ |
    ⟨-, -, -, rfl⟩ | ⟨-, -, rfl⟩
  · exact ⟨rfl, rfl, rfl, rfl, rfl, rfl⟩
  · unfold DurableSubscription.absorb
    split_ifs <;> exact ⟨rfl, rfl, rfl, rfl, rfl, rfl⟩
  · exact ⟨rfl, rfl, rfl, rfl, rfl, rfl⟩
  · exact ⟨rfl, rfl, rfl, rfl, rfl, rfl⟩
  · rcases (s.sub k).next_cases with ⟨_, _, _, _, _, hp⟩ | ⟨_, _, _, _, hp⟩ | ⟨_, _, hp⟩ <;>
      rw [hp] <;> exact ⟨rfl, rfl, rfl, rfl, rfl, rfl⟩

omit [LinearOrder ι] [OrderBot ι] in
lemma setSub_self (s : TopicState ι α κ τ) (k : κ) (sub : DurableSubscription ι α τ) :
    (s.setSub k sub).sub k = sub :=
  Function.update_self ..

omit [LinearOrder ι] [OrderBot ι] in
lemma setSub_of_ne {j k : κ} (hjk : j ≠ k) (s : TopicState ι α κ τ)
    (sub : DurableSubscription ι α τ) : (s.setSub k sub).sub j = s.sub j :=
  Function.update_of_ne hjk ..

/-- Replacing one subscription, but for its kind. -/
lemma Following.setSub (h : s.Following) (k : κ) (sub : DurableSubscription ι α τ)
    (hids : sub.ids = (s.sub k).ids) : (s.setSub k sub).Following := by
  refine h.setSubs fun j _ => ?_
  by_cases hjk : j = k
  · subst hjk
    simpa using hids
  · simp [hjk]

lemma Following.tailMove (h : s.Following) (move : s.TailMove s') : s'.Following := by
  have hlive {p : ι} {stage : Stage ι α κ} {batch : List (Entry ι α)}
      (hat : s.tail = .running p stage batch) : s.live = true :=
    h.live.mpr (by simp [hat, Tail.position])
  have hknown {p : ι} {stage : Stage ι α κ} {batch : List (Entry ι α)}
      (hat : s.tail = .running p stage batch) : s.Known p :=
    h.known p (by simp [hat, Tail.position])
  have hremaining {p : ι} {stage : Stage ι α κ} {batch : List (Entry ι α)}
      (hat : s.tail = .running p stage batch) :
      stage.remaining.Nodup ∧ ∀ k ∈ stage.remaining, k ∈ s.subs := by
    have hr := h.remaining
    rwa [hat] at hr
  cases move with
  | ask hat =>
    refine h.setTail_start (by simp [hat, Tail.position]) rfl fun p hp => ?_
    cases hp
    exact s.known_lastId
  | @goLive p hat =>
    have hfollow : ({ s with
        tail := .running p .reading [], live := true } : TopicState ι α κ τ).Following :=
      h.setTail rfl (h.answered p hat) (ahead_nil s p) ⟨List.nodup_nil, by simp [Stage.remaining]⟩
    exact hfollow.setSubs fun _ _ => rfl
  | fetch hat =>
    exact h.setTail (hlive hat) (hknown hat) (ahead_entriesAfter h.sorted _ _)
      ⟨List.nodup_nil, by simp [Stage.remaining]⟩
  | begin hat =>
    have hahead := h.ahead _ _ _ hat
    exact h.setTail (hlive hat) (hknown hat) hahead ⟨h.nodup, fun k hk => hk⟩
  | @finish p e batch hat =>
    have hahead := h.ahead _ _ _ hat
    have hfollow : ({ s with tail := .running e.id .reading batch } : TopicState ι α κ τ).Following :=
      h.setTail (hlive hat) (.inr ⟨_, hahead.mem _ List.mem_cons_self, rfl⟩) hahead.advance
        ⟨List.nodup_nil, by simp [Stage.remaining]⟩
    refine ⟨hfollow.sorted, hfollow.positive, hfollow.trimmed, hfollow.nodup, hfollow.emitting,
      hfollow.waiting, hfollow.answered, hfollow.live, hfollow.known, ?_, hfollow.remaining⟩
    intro q stage batch' hq
    exact (hfollow.ahead q stage batch' hq).congr rfl rfl
  | skip hat _ =>
    have hahead := h.ahead _ _ _ hat
    obtain ⟨hnodup, hmem⟩ := hremaining hat
    exact h.setTail (hlive hat) (hknown hat) hahead
      ⟨(List.nodup_cons.mp hnodup).2, fun k hk => hmem k (List.mem_cons_of_mem _ hk)⟩
  | load hat _ =>
    have hahead := h.ahead _ _ _ hat
    have hrest := hremaining hat
    exact h.setTail (hlive hat) (hknown hat) hahead hrest
  | @offer p e after k rest batch hat _ =>
    have hahead := h.ahead _ _ _ hat
    obtain ⟨hnodup, hmem⟩ := hremaining hat
    have hfollow : ({ s with
        tail := .running p (.fanning e rest) batch } : TopicState ι α κ τ).Following :=
      h.setTail (hlive hat) (hknown hat) hahead
        ⟨(List.nodup_cons.mp hnodup).2, fun k hk => hmem k (List.mem_cons_of_mem _ hk)⟩
    exact hfollow.setSub k _ (feed_ids _ _ _)
  | @raise p e after k rest batch hat _ =>
    have hfollow : ({ s with tail := .running p .broken [] } : TopicState ι α κ τ).Following :=
      h.setTail (hlive hat) (hknown hat) (ahead_nil s p) ⟨List.nodup_nil, by simp [Stage.remaining]⟩
    exact hfollow.setSub k _ (feed_ids _ _ _)
  | resume hat =>
    exact h.setTail (hlive hat) (hknown hat) (ahead_nil s _) ⟨List.nodup_nil, by simp [Stage.remaining]⟩

variable [DecidableEq τ]

omit [DecidableEq κ] in
/-- An `emit` goes on to subscriptions it had before it. -/
lemma Following.setEmit (h : s.Following) {t : τ} {pc : EmitPc ι α κ}
    (hremaining : ∀ k ∈ pc.remaining, k ∈ s.subs)
    (hwaiting : ∀ e k rest, pc = .blocked e k rest → (s.sub k).ids = false) :
    (s.setEmit t pc).Following := by
  refine ⟨h.sorted, h.positive, h.trimmed, h.nodup, ?_, ?_, h.answered, h.live, h.known, ?_, h.remaining⟩
  · intro t' k hk
    by_cases htt : t' = t
    · subst htt
      exact hremaining k (by simpa [TopicState.setEmit] using hk)
    · exact h.emitting t' k (by simpa [TopicState.setEmit, htt] using hk)
  · intro t' e k rest hat
    by_cases htt : t' = t
    · subst htt
      exact hwaiting e k rest (by simpa [TopicState.setEmit] using hat)
    · exact h.waiting t' e k rest (by simpa [TopicState.setEmit, htt] using hat)
  · intro p stage batch hat
    exact (h.ahead p stage batch hat).congr rfl rfl

lemma Following.emitMove (h : s.Following) {t : τ} (move : s.EmitMove t s') : s'.Following := by
  have hsubs {pc : EmitPc ι α κ} (hat : s.emits t = pc) (k : κ) (hk : k ∈ pc.remaining) :
      k ∈ s.subs := h.emitting t k (hat ▸ hk)
  cases move with
  | snapshot hat =>
    refine h.setEmit (fun k hk => hk) ?_
    intro e k rest hpc
    cases hpc
  | done hat =>
    refine h.setEmit (by simp [EmitPc.remaining]) ?_
    intro e k rest hpc
    cases hpc
  | skip hat _ =>
    refine h.setEmit (fun k hk => hsubs hat k (List.mem_cons_of_mem _ hk)) ?_
    intro e k rest hpc
    cases hpc
  | @hand e k rest pc hat hids hgoes =>
    have hfollow := h.setSub k ((s.sub k).hand e).2 rfl
    refine hfollow.setEmit (fun j hj => ?_) ?_
    · rcases hgoes with ⟨-, rfl⟩ | ⟨-, rfl | rfl⟩
      · cases hj
      · exact hsubs hat j hj
      · exact hsubs hat j (List.mem_cons_of_mem _ hj)
    · intro e' k' rest' hpc
      rcases hgoes with ⟨-, rfl⟩ | ⟨-, rfl | rfl⟩ <;> cases hpc
      simpa [TopicState.setSub, DurableSubscription.hand] using hids
  | returned hat =>
    refine h.setEmit (fun k hk => hsubs hat k (List.mem_cons_of_mem _ hk)) ?_
    intro e k rest hpc
    cases hpc
  | @entered e k rest pc hat _ _ hgoes =>
    have hfollow := h.setSub k
      { s.sub k with toSubscription := (s.sub k).enter ⟨e, .emit⟩ } rfl
    refine hfollow.setEmit (fun j hj => ?_) ?_
    · rcases hgoes with ⟨-, rfl⟩ | ⟨-, rfl⟩
      · cases hj
      · exact hsubs hat j (List.mem_cons_of_mem _ hj)
    · intro e' k' rest' hpc
      rcases hgoes with ⟨-, rfl⟩ | ⟨-, rfl⟩ <;> cases hpc
  | queued hat => exact h.setSub _ _ rfl

omit [DecidableEq κ] [DecidableEq τ] in
/-- An append to the stream. -/
lemma Following.append (h : s.Following) {e : Entry ι α} (hmay : s.mayAppend e.id = true) :
    ({ s with log := s.log ++ [e] } : TopicState ι α κ τ).Following := by
  obtain ⟨hpos, hnew⟩ := mayAppend_iff.mp hmay
  refine ⟨h.sorted.append_singleton hnew, ?_, ?_, h.nodup, h.emitting, h.waiting,
    fun p hp => (h.answered p hp).append, h.live, fun p hp => (h.known p hp).append,
    fun p stage batch hat => (h.ahead p stage batch hat).append hnew, h.remaining⟩
  · intro b hb
    rcases List.mem_append.mp hb with hb | hb
    · exact h.positive b hb
    · rw [List.mem_singleton.mp hb]
      exact hpos
  · rw [List.length_append]
    exact h.trimmed.trans (Nat.le_add_right _ _)

/-- Every step keeps what holds between the stream and the tail. -/
theorem Following.step {a : TopicAction ι α κ τ} (h : s.Following) (taken : s.step a = some s') :
    s'.Following := by
  cases a with
  | append ident value =>
    obtain ⟨hmay, rfl⟩ := of_guard taken
    exact h.append (e := ⟨ident, value, false⟩) hmay
  | publish t ident value =>
    simp only [TopicState.step] at taken
    split at taken
    case h_1 hidle =>
      obtain ⟨hmay, rfl⟩ := of_guard taken
      refine (h.append (e := ⟨ident, value, true⟩) hmay).setEmit (by simp [EmitPc.remaining]) ?_
      intro e k rest hpc
      cases hpc
    · cases taken
  | trim n =>
    obtain ⟨⟨hle, hlength⟩, rfl⟩ := of_guard taken
    refine ⟨h.sorted, h.positive, hlength, h.nodup, h.emitting, h.waiting, h.answered, h.live, h.known, ?_,
      h.remaining⟩
    intro p stage batch hat
    exact (h.ahead p stage batch hat).trim hle
  | subscribe k opened maxsize policy =>
    simp only [TopicState.step] at taken
    split at taken
    case isTrue hnew =>
      cases taken
      have hne {j : κ} (hj : j ∈ s.subs) : j ≠ k := by
        rintro rfl
        exact hnew.1 hj
      refine ⟨h.sorted, h.positive, h.trimmed, ?_, ?_, ?_, h.answered, h.live, h.known, ?_, ?_⟩
      · refine List.nodup_append.mpr ⟨h.nodup, List.nodup_singleton _, ?_⟩
        intro a ha b hb
        rw [List.mem_singleton.mp hb]
        exact hne ha
      · intro t j hj
        exact List.mem_append_left _ (h.emitting t j hj)
      · intro t e j rest hat
        have hj : j ∈ s.subs := h.emitting t j (by
          rw [show s.emits t = .blocked e j rest from hat]
          exact List.mem_cons_self)
        simpa [TopicState.setSub, hne hj] using h.waiting t e j rest hat
      · intro p stage batch hat
        exact (h.ahead p stage batch hat).congr rfl rfl
      · exact ⟨h.remaining.1, fun j hj => List.mem_append_left _ (h.remaining.2 j hj)⟩
    · cases taken
  | ensureTail k =>
    obtain ⟨-, rfl⟩ := of_guard taken
    exact h.ensure.setSub k _ rfl
  | closeLoop k =>
    obtain ⟨-, rfl⟩ := of_guard taken
    exact h.setSub k _ rfl
  | tail => exact h.tailMove (tailStep_move taken)
  | tailFails =>
    rcases tailFailsStep_cases taken with ⟨p, hat, rfl⟩ | ⟨p, batch, hat, rfl⟩
    · exact h.setTail_start (by simp [hat, Tail.position]) rfl (by simp)
    · have hposition : s.tail.position = some p := by rw [hat]; rfl
      refine h.setTail (h.live.mpr (by simp [hposition])) (h.known p hposition) ?_
        ⟨List.nodup_nil, by simp [Stage.remaining]⟩
      exact ahead_nil s p
  | emit t => exact h.emitMove (emitStep_move taken)
  | reader k =>
    obtain ⟨-, rfl⟩ := of_guard taken
    obtain ⟨sub, hp, hids, -⟩ := s.readerStep_kept k
    rw [hp]
    exact h.setSub k sub hids
  | readerFails k =>
    obtain ⟨-, rfl⟩ := of_guard taken
    exact h.setSub k _ rfl

omit [DecidableEq κ] [DecidableEq τ] in
lemma following_new (name : String) : (new name : TopicState ι α κ τ).Following := by
  refine ⟨List.Pairwise.nil, ?_, le_rfl, List.nodup_nil, ?_, ?_, ?_, by simp [new, Tail.position], ?_, ?_,
    List.nodup_nil, ?_⟩
  · intro e he
    cases he
  · intro t k hk
    cases hk
  · intro t e k rest hat
    cases hat
  · intro p hat
    cases hat
  · intro p hp
    cases hp
  · intro p stage batch hat
    cases hat
  · intro k hk
    cases hk

end Following

end TopicState

end Oxbrook
