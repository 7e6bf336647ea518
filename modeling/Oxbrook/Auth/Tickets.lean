import Oxbrook.Auth.Gate
import Oxbrook.Foundation.OrderedDict
import Oxbrook.Foundation.Runs

/-!
# Tickets for a WebSocket

`Tickets` of `python/oxbrook/auth.py`, kept in the process.  A ticket waits in a dictionary, the oldest first, with
the time until which it is good and the principal it was issued for; `authenticate` takes it out, whatever comes of
it.  `issue` makes room where `limit` tickets wait: it drops those whose time is over, and then at least one more.

The state keeps as history which tickets were issued and redeemed, and which live ones each step lost.  A ticket is
redeemed once, in time and for its principal, and no more than `limit` wait (`tickets_single_use`).  That a live one
is lost only where `limit` live ones wait is true of the runs in which no ticket is issued while some of `limit`
waiting tickets are over and some are not.
-/

namespace Oxbrook

open StepMachine

/-! ## State -/

/-- `Tickets`, with what the methods read of it. -/
structure Tickets (T : Type) where
  ttl : T
  param : String
  limit : ℕ

/-- What `authenticate` reads: whether the request is a WebSocket upgrade, and the parameters of its query. -/
structure TicketRequest where
  websocket : Bool
  query : List (String × String)

/-- A ticket that was issued or redeemed, when and for whom. -/
structure TicketRecord (T : Type) where
  ticket : String
  time : T
  who : Principal

/-- The tickets that were live at a step, the oldest first, and which of them it lost. -/
structure TicketLoss (T : Type) where
  time : T
  live : List String
  lost : List String

/-- `waiting` is `_waiting`.  The last step was at `clock`; the issued tickets are kept in order. -/
structure TicketState (T : Type) where
  waiting : OrderedDict String (T × Principal)
  clock : T
  issued : List (TicketRecord T)
  redeemed : List (TicketRecord T)
  losses : List (TicketLoss T)

def TicketState.start {T : Type} (time : T) : TicketState T := ⟨.empty, time, [], [], []⟩

/-- `issue` with what `secrets.token_urlsafe` gave it, and `authenticate`. -/
inductive TicketAct (T : Type)
  | issue (ticket : String) (who : Principal) (now : T)
  | authenticate (request : TicketRequest) (now : T)

/-- `Unauthenticated("ticket invalid")`. -/
def ticketInvalid : Unauthenticated where
  detail := some "ticket invalid"
  headers := []
  type := "about:blank"
  extensions := []

section Methods

variable {T : Type} [LinearOrder T]

/-- The tickets that `authenticate` would still take, the oldest first. -/
def liveTickets (waiting : OrderedDict String (T × Principal)) (now : T) : List String :=
  (waiting.items.filter fun item => now ≤ item.2.1).map Prod.fst

namespace Tickets

variable (w : Tickets T)

/-- The room `issue` makes. -/
def trim (waiting : OrderedDict String (T × Principal)) (now : T) : OrderedDict String (T × Principal) :=
  if w.limit ≤ waiting.keys.length then
    let waiting := waiting.eraseAll ((waiting.items.filter fun item => item.2.1 < now).map Prod.fst)
    waiting.eraseAll (waiting.keys.take (max 1 (waiting.keys.length + 1 - w.limit)))
  else waiting

/-- `Tickets.issue`. -/
def issue [Add T] (s : TicketState T) (ticket : String) (who : Principal) (now : T) : TicketState T :=
  { s with
    waiting := (w.trim s.waiting now).set ticket (now + w.ttl, who)
    issued := s.issued ++ [⟨ticket, now, who⟩] }

/-- `Tickets.authenticate`. -/
def authenticate (s : TicketState T) (request : TicketRequest) (now : T) : TicketState T × Authenticated :=
  if ! request.websocket then (s, .absent)
  else
    match (request.query.filter fun p => p.1 = w.param).map Prod.snd with
    | [] => (s, .absent)
    | [ticket] =>
      let popped := { s with waiting := s.waiting.erase ticket }
      match s.waiting.get ticket with
      | none => (popped, .refused ticketInvalid)
      | some (good, who) =>
        if now ≤ good then ({ popped with redeemed := ⟨ticket, now, who⟩ :: s.redeemed }, .found who)
        else (popped, .refused ticketInvalid)
    | _ => (s, .refused ticketInvalid)

end Tickets

/-- The time of a step, and the live tickets that it lost: those that no longer wait and were not redeemed. -/
def TicketState.record (s s' : TicketState T) (now : T) : TicketState T :=
  let live := liveTickets s.waiting now
  let lost := live.filter fun k => k ∉ s'.waiting.keys ∧ k ∉ s'.redeemed.map TicketRecord.ticket
  { s' with clock := now, losses := ⟨now, live, lost⟩ :: s'.losses }

namespace Tickets

variable [Add T] (w : Tickets T)

/-- Time does not go back, and no ticket is drawn twice. -/
def step (s : TicketState T) : TicketAct T → Option (TicketState T)
  | .issue ticket who now =>
    if s.clock ≤ now ∧ ticket ∉ s.issued.map TicketRecord.ticket then
      some (s.record (w.issue s ticket who now) now)
    else none
  | .authenticate request now =>
    if s.clock ≤ now then some (s.record (w.authenticate s request now).1 now) else none

/-! ## What is promised -/

/-- What was redeemed was issued, for the same principal, at most `ttl` before. -/
def Timely (s : TicketState T) : Prop :=
  ∀ r ∈ s.redeemed, ∃ i ∈ s.issued, i.ticket = r.ticket ∧ i.who = r.who ∧ i.time ≤ r.time ∧ r.time ≤ i.time + w.ttl

/-- Live tickets were lost only where `limit` of them waited, the first issued first. -/
def LosesOldestOfFull (s : TicketState T) : Prop :=
  ∀ loss ∈ s.losses, loss.lost ≠ [] → w.limit ≤ loss.live.length ∧ loss.lost <+: loss.live ∧
    loss.live.Sublist (s.issued.map TicketRecord.ticket)

/-- A ticket is issued where `limit` tickets wait, some of them over and some live. -/
def Wasteful (s : TicketState T) : TicketAct T → Prop
  | .issue _ _ now => w.limit ≤ s.waiting.keys.length ∧ (∃ item ∈ s.waiting.items, item.2.1 < now) ∧
      ∃ item ∈ s.waiting.items, now ≤ item.2.1
  | .authenticate _ _ => False

instance (s : TicketState T) : DecidablePred (w.Wasteful s)
  | .issue _ _ now => inferInstanceAs (Decidable (w.limit ≤ s.waiting.keys.length ∧
      (∃ item ∈ s.waiting.items, item.2.1 < now) ∧ ∃ item ∈ s.waiting.items, now ≤ item.2.1))
  | .authenticate _ _ => .isFalse id

/-! ## What holds in every run -/

structure TicketInv (s : TicketState T) : Prop where
  order : s.waiting.keys.Sublist (s.issued.map TicketRecord.ticket)
  distinct : (s.issued.map TicketRecord.ticket).Nodup
  past : ∀ i ∈ s.issued, i.time ≤ s.clock
  entries : ∀ ticket good who, s.waiting.get ticket = some (good, who) →
    ∃ i ∈ s.issued, i.ticket = ticket ∧ i.who = who ∧ good = i.time + w.ttl
  timely : w.Timely s
  once : (s.redeemed.map TicketRecord.ticket).Nodup
  gone : ∀ r ∈ s.redeemed, r.ticket ∉ s.waiting.keys

end Tickets

/-! ## Making room -/

section Room

variable {w : Tickets T} {waiting : OrderedDict String (T × Principal)} {now : T}

lemma mem_liveTickets {k : String} :
    k ∈ liveTickets waiting now ↔ ∃ good who, waiting.get k = some (good, who) ∧ now ≤ good := by
  simp only [liveTickets, List.mem_map, List.mem_filter, decide_eq_true_eq, OrderedDict.get_eq_some_iff]
  constructor
  · rintro ⟨⟨k', good, who⟩, ⟨hmem, hle⟩, rfl⟩
    exact ⟨good, who, hmem, hle⟩
  · rintro ⟨good, who, hmem, hle⟩
    exact ⟨(k, good, who), ⟨hmem, hle⟩, rfl⟩

lemma liveTickets_sublist : (liveTickets waiting now).Sublist waiting.keys := List.filter_sublist.map _

namespace Tickets

lemma trim_of_not_full (h : ¬ w.limit ≤ waiting.keys.length) : w.trim waiting now = waiting := if_neg h

/-- Where it is full, the live tickets are kept but for the oldest. -/
lemma items_trim_of_full (h : w.limit ≤ waiting.keys.length) : (w.trim waiting now).items =
    (waiting.items.filter fun item => now ≤ item.2.1).drop
      (max 1 ((liveTickets waiting now).length + 1 - w.limit)) := by
  have hlive : (waiting.eraseAll ((waiting.items.filter fun item => item.2.1 < now).map Prod.fst)).items =
      waiting.items.filter fun item => now ≤ item.2.1 := by
    rw [OrderedDict.items_eraseAll_filter]
    apply List.filter_congr
    intro item _
    rw [Bool.eq_iff_iff]
    simp
  rw [trim, if_pos h, OrderedDict.items_eraseAll_take, hlive]
  simp only [OrderedDict.keys, hlive, liveTickets]

lemma keys_trim_of_full (h : w.limit ≤ waiting.keys.length) : (w.trim waiting now).keys =
    (liveTickets waiting now).drop (max 1 ((liveTickets waiting now).length + 1 - w.limit)) := by
  rw [OrderedDict.keys, items_trim_of_full h, List.map_drop, ← liveTickets]

lemma items_trim_sublist : (w.trim waiting now).items.Sublist waiting.items := by
  by_cases h : w.limit ≤ waiting.keys.length
  · rw [items_trim_of_full h]
    exact (List.drop_sublist ..).trans List.filter_sublist
  · rw [trim_of_not_full h]

/-- There is room for one more. -/
lemma length_trim_lt (pos : 0 < w.limit) : (w.trim waiting now).keys.length < w.limit := by
  by_cases h : w.limit ≤ waiting.keys.length
  · rw [keys_trim_of_full h, List.length_drop]
    omega
  · rw [trim_of_not_full h]
    omega

end Tickets

end Room

namespace Tickets

variable [Add T] {w : Tickets T} {s s' : TicketState T} {now : T} {ticket : String} {who : Principal}

/-! ## What a redemption does -/

/-- What comes of `authenticate`. -/
inductive Answered (s : TicketState T) (now : T) : TicketState T × Authenticated → Prop
  | absent : Answered s now (s, .absent)
  | several : Answered s now (s, .refused ticketInvalid)
  | late (ticket : String) (late : ∀ good who, s.waiting.get ticket = some (good, who) → ¬ now ≤ good) :
      Answered s now ({ s with waiting := s.waiting.erase ticket }, .refused ticketInvalid)
  | found {ticket : String} {good : T} {who : Principal} (get : s.waiting.get ticket = some (good, who))
      (le : now ≤ good) :
      Answered s now
        ({ s with waiting := s.waiting.erase ticket, redeemed := ⟨ticket, now, who⟩ :: s.redeemed }, .found who)

omit [Add T] in
lemma answered (request : TicketRequest) : Answered s now (w.authenticate s request now) := by
  unfold authenticate
  split
  · exact .absent
  · split
    · exact .absent
    · rename_i ticket _
      dsimp only
      split
      · rename_i hget
        refine .late ticket ?_
        intro good who h
        rw [hget] at h
        cases h
      · rename_i good who hget
        split
        · exact .found hget ‹_›
        · refine .late ticket ?_
          intro good' who' h
          rw [hget] at h
          cases h
          exact ‹_›
    · exact .several

omit [Add T] in
/-- What holds whatever comes of a redemption. -/
lemma after_authenticate {P : TicketState T → Prop} (request : TicketRequest) (kept : P s)
    (late : ∀ ticket, (∀ good who, s.waiting.get ticket = some (good, who) → ¬ now ≤ good) →
      P { s with waiting := s.waiting.erase ticket })
    (found : ∀ ticket good who, s.waiting.get ticket = some (good, who) → now ≤ good →
      P { s with waiting := s.waiting.erase ticket, redeemed := ⟨ticket, now, who⟩ :: s.redeemed }) :
    P (w.authenticate s request now).1 := by
  have hanswered : Answered s now (w.authenticate s request now) := answered request
  generalize w.authenticate s request now = outcome at hanswered
  cases hanswered with
  | absent => exact kept
  | several => exact kept
  | late ticket hlate => exact late ticket hlate
  | found get le => exact found _ _ _ get le

namespace TicketInv

lemma start (time : T) : w.TicketInv (.start time) where
  order := List.Sublist.refl _
  distinct := List.nodup_nil
  past _ h := by cases h
  entries ticket good who h := by cases h
  timely _ h := by cases h
  once := List.nodup_nil
  gone _ h := by cases h

/-- A ticket is issued. -/
lemma issue (h : w.TicketInv s) (le : s.clock ≤ now) (fresh : ticket ∉ s.issued.map TicketRecord.ticket) :
    w.TicketInv (s.record (w.issue s ticket who now) now) := by
  have hkeys : (w.trim s.waiting now).keys.Sublist s.waiting.keys := items_trim_sublist.map _
  have hnew : ticket ∉ (w.trim s.waiting now).keys := fun hmem => fresh (h.order.subset (hkeys.subset hmem))
  have hset : ((w.trim s.waiting now).set ticket (now + w.ttl, who)).keys = (w.trim s.waiting now).keys ++ [ticket] := by
    rw [OrderedDict.keys, OrderedDict.items_set_of_not_mem hnew, List.map_append]
    rfl
  have hissued : (s.issued ++ [(⟨ticket, now, who⟩ : TicketRecord T)]).map TicketRecord.ticket =
      s.issued.map TicketRecord.ticket ++ [ticket] := by
    rw [List.map_append]
    rfl
  constructor
  · change ((w.trim s.waiting now).set ticket (now + w.ttl, who)).keys.Sublist _
    rw [hset]
    exact hissued ▸ (hkeys.trans h.order).append (List.Sublist.refl _)
  · change ((s.issued ++ [(⟨ticket, now, who⟩ : TicketRecord T)]).map TicketRecord.ticket).Nodup
    rw [hissued, ← List.concat_eq_append]
    exact h.distinct.concat fresh
  · intro i hi
    obtain hi | hi := List.mem_append.mp hi
    · exact (h.past i hi).trans le
    · obtain rfl := List.mem_singleton.mp hi
      exact le_rfl
  · intro ticket' good who' hget
    obtain ⟨rfl, heq⟩ | hold := OrderedDict.get_of_get_set hget
    · cases heq
      exact ⟨_, List.mem_append_right _ (List.mem_singleton_self _), rfl, rfl, rfl⟩
    · rw [OrderedDict.get_eq_some_iff] at hold
      have hbefore := OrderedDict.get_eq_some_iff.mpr (items_trim_sublist.subset hold)
      obtain ⟨i, hi, rest⟩ := h.entries ticket' good who' hbefore
      exact ⟨i, List.mem_append_left _ hi, rest⟩
  · intro r hr
    obtain ⟨i, hi, rest⟩ := h.timely r hr
    exact ⟨i, List.mem_append_left _ hi, rest⟩
  · exact h.once
  · intro r hr hmem
    change r.ticket ∈ ((w.trim s.waiting now).set ticket (now + w.ttl, who)).keys at hmem
    rw [hset, List.mem_append, List.mem_singleton] at hmem
    obtain hmem | heq := hmem
    · exact h.gone r hr (hkeys.subset hmem)
    · obtain ⟨i, hi, hticket, -⟩ := h.timely r hr
      exact fresh (List.mem_map.mpr ⟨i, hi, hticket.trans heq⟩)

/-- A ticket is taken out. -/
lemma pop (h : w.TicketInv s) : w.TicketInv { s with waiting := s.waiting.erase ticket } where
  order := (List.filter_sublist.map _).trans h.order
  distinct := h.distinct
  past := h.past
  entries ticket good who hget := h.entries ticket good who (OrderedDict.get_of_get_erase hget)
  timely := h.timely
  once := h.once
  gone r hr hmem := h.gone r hr ((List.filter_sublist.map _).subset hmem)

/-- A ticket is taken out in time. -/
lemma redeem (h : w.TicketInv s) (le : s.clock ≤ now) {good : T} (get : s.waiting.get ticket = some (good, who))
    (live : now ≤ good) :
    w.TicketInv { s with waiting := s.waiting.erase ticket, redeemed := ⟨ticket, now, who⟩ :: s.redeemed } where
  order := h.pop.order
  distinct := h.distinct
  past := h.past
  entries := h.pop.entries
  timely r hr := by
    obtain rfl | hr := List.mem_cons.mp hr
    · obtain ⟨i, hi, hticket, hwho, rfl⟩ := h.entries ticket good who get
      exact ⟨i, hi, hticket, hwho, (h.past i hi).trans le, live⟩
    · exact h.timely r hr
  once := by
    refine List.nodup_cons.mpr ⟨?_, h.once⟩
    intro hmem
    obtain ⟨r, hr, hticket⟩ := List.mem_map.mp hmem
    refine h.gone r hr ?_
    rw [hticket]
    exact List.mem_map_of_mem (OrderedDict.get_eq_some_iff.mp get)
  gone r hr := by
    obtain rfl | hr := List.mem_cons.mp hr
    · exact OrderedDict.get_eq_none_iff.mp OrderedDict.get_erase_self
    · exact h.pop.gone r hr

/-- The time of the step is kept. -/
lemma record (h : w.TicketInv s') (le : s'.clock ≤ now) : w.TicketInv (s.record s' now) where
  order := h.order
  distinct := h.distinct
  past i hi := (h.past i hi).trans le
  entries := h.entries
  timely := h.timely
  once := h.once
  gone := h.gone

lemma authenticate (h : w.TicketInv s) (le : s.clock ≤ now) (request : TicketRequest) :
    w.TicketInv (s.record (w.authenticate s request now).1 now) := by
  refine after_authenticate (P := fun s' => w.TicketInv (s.record s' now)) request ?_ ?_ ?_
  · exact h.record le
  · intro ticket _
    exact h.pop.record le
  · intro ticket good who get live
    exact (h.redeem le get live).record le

/-- **Step.** -/
lemma step (h : w.TicketInv s) {a : TicketAct T} (taken : w.step s a = some s') : w.TicketInv s' := by
  cases a with
  | issue ticket who now =>
    obtain ⟨⟨le, fresh⟩, rfl⟩ := of_guard taken
    exact h.issue le fresh
  | authenticate request now =>
    obtain ⟨le, rfl⟩ := of_guard taken
    exact h.authenticate le request

end TicketInv

/-! ## What is lost -/

omit [Add T] in
/-- A redemption adds nothing to what was issued and lost. -/
lemma authenticate_history (w : Tickets T) (s : TicketState T) (request : TicketRequest) (now : T) :
    (w.authenticate s request now).1.issued = s.issued ∧
    (w.authenticate s request now).1.losses = s.losses := by
  apply after_authenticate (P := fun s' => s'.issued = s.issued ∧ s'.losses = s.losses) request
  · exact ⟨rfl, rfl⟩
  · exact fun _ _ => ⟨rfl, rfl⟩
  · exact fun _ _ _ _ _ => ⟨rfl, rfl⟩

omit [Add T] in
/-- A redemption loses no live ticket. -/
lemma not_lost_of_authenticate (request : TicketRequest) {k : String} (live : k ∈ liveTickets s.waiting now) :
    k ∈ (w.authenticate s request now).1.waiting.keys ∨
      k ∈ (w.authenticate s request now).1.redeemed.map TicketRecord.ticket := by
  have hkeys : k ∈ s.waiting.keys := liveTickets_sublist.subset live
  have hother {ticket : String} (hne : k ≠ ticket) : k ∈ (s.waiting.erase ticket).keys := by
    obtain ⟨good, who, hget, -⟩ := mem_liveTickets.mp live
    rw [← OrderedDict.get_erase_ne hne] at hget
    exact List.mem_map_of_mem (OrderedDict.get_eq_some_iff.mp hget)
  refine after_authenticate
    (P := fun s' => k ∈ s'.waiting.keys ∨ k ∈ s'.redeemed.map TicketRecord.ticket) request (.inl hkeys) ?_ ?_
  · intro ticket hlate
    refine .inl (hother ?_)
    rintro rfl
    obtain ⟨good, who, hget, hle⟩ := mem_liveTickets.mp live
    exact hlate good who hget hle
  · intro ticket good who get le
    by_cases hk : k = ticket
    · exact .inr (hk ▸ List.mem_cons_self ..)
    · exact .inl (hother hk)

/-- Of distinct things, those that are not among the later ones are the first. -/
lemma filter_not_mem_drop {l : List String} (h : l.Nodup) (n : ℕ) :
    (l.filter fun k => k ∉ l.drop n) = l.take n := by
  have hsplit := List.take_append_drop n l
  have hdisjoint : List.Disjoint (l.take n) (l.drop n) := List.disjoint_of_nodup_append (hsplit.symm ▸ h)
  have hfirst : ((l.take n).filter fun k => k ∉ l.drop n) = l.take n := by
    rw [List.filter_eq_self]
    intro k hk
    simpa using hdisjoint hk
  have hlater : ((l.drop n).filter fun k => k ∉ l.drop n) = [] := by
    rw [List.filter_eq_nil_iff]
    intro k hk
    simpa using hk
  conv_lhs => rw [← hsplit, List.filter_append]
  rw [List.take_append_drop, hfirst, hlater, List.append_nil]

omit [Add T] in
lemma nodup_liveTickets {waiting : OrderedDict String (T × Principal)} : (liveTickets waiting now).Nodup :=
  waiting.nodup.sublist liveTickets_sublist

/-- What an issue loses is what it made room with. -/
lemma TicketInv.lost_of_issue (h : w.TicketInv s) (now : T) (who : Principal)
    (fresh : ticket ∉ s.issued.map TicketRecord.ticket) :
    ((liveTickets s.waiting now).filter fun k => k ∉ (w.issue s ticket who now).waiting.keys ∧
        k ∉ (w.issue s ticket who now).redeemed.map TicketRecord.ticket) =
      if w.limit ≤ s.waiting.keys.length then
        (liveTickets s.waiting now).take (max 1 ((liveTickets s.waiting now).length + 1 - w.limit))
      else [] := by
  have hlost : ((liveTickets s.waiting now).filter fun k => k ∉ (w.issue s ticket who now).waiting.keys ∧
        k ∉ (w.issue s ticket who now).redeemed.map TicketRecord.ticket) =
      (liveTickets s.waiting now).filter fun k => k ∉ (w.trim s.waiting now).keys := by
    apply List.filter_congr
    intro k hk
    have hkeys : k ∈ s.waiting.keys := liveTickets_sublist.subset hk
    have hne : k ≠ ticket := fun heq => fresh (heq ▸ h.order.subset hkeys)
    have hwaits : k ∈ (w.issue s ticket who now).waiting.keys ↔ k ∈ (w.trim s.waiting now).keys := by
      simp only [Tickets.issue, OrderedDict.mem_keys_set, hne, false_or]
    have hkept : k ∉ (w.issue s ticket who now).redeemed.map TicketRecord.ticket := by
      intro hmem
      obtain ⟨r, hr, rfl⟩ := List.mem_map.mp hmem
      exact h.gone r hr hkeys
    simp only [hwaits, hkept, not_false_eq_true, and_true]
  rw [hlost]
  split
  · rw [keys_trim_of_full ‹_›, filter_not_mem_drop nodup_liveTickets]
  · rw [trim_of_not_full ‹_›, List.filter_eq_nil_iff]
    intro k hk
    simpa using liveTickets_sublist.subset hk

omit [Add T] in
/-- Live tickets of a full dictionary in which none are over, or none live. -/
lemma limit_le_of_not_wasteful (full : w.limit ≤ s.waiting.keys.length)
    (h : ¬ w.Wasteful s (.issue ticket who now)) (live : liveTickets s.waiting now ≠ []) :
    w.limit ≤ (liveTickets s.waiting now).length := by
  have hall : ∀ item ∈ s.waiting.items, now ≤ item.2.1 := by
    intro item hitem
    by_contra hover
    refine h ⟨full, ⟨item, hitem, not_le.mp hover⟩, ?_⟩
    obtain ⟨k, hk⟩ := List.exists_mem_of_ne_nil _ live
    obtain ⟨good, who, hget, hle⟩ := mem_liveTickets.mp hk
    exact ⟨_, OrderedDict.get_eq_some_iff.mp hget, hle⟩
  have hkeys : liveTickets s.waiting now = s.waiting.keys := by
    rw [liveTickets, List.filter_eq_self.mpr fun item hitem => decide_eq_true (hall item hitem), OrderedDict.keys]
  rw [hkeys]
  exact full

omit [Add T] in
/-- Some tickets are over, so fewer are live than wait. -/
lemma length_live_lt (h : ∃ item ∈ s.waiting.items, item.2.1 < now) :
    (liveTickets s.waiting now).length < s.waiting.keys.length := by
  obtain ⟨item, hitem, hover⟩ := h
  rw [liveTickets, OrderedDict.keys, List.length_map, List.length_map]
  exact List.length_filter_lt_length_iff_exists.mpr ⟨item, hitem, by simpa using hover⟩

/-- **Step.**  Only a wasteful issue loses a live ticket of a dictionary that is not full of live ones. -/
lemma LosesOldestOfFull.step (h : w.LosesOldestOfFull s) (hinv : w.TicketInv s) {a : TicketAct T}
    (thrifty : ¬ w.Wasteful s a) (taken : w.step s a = some s') : w.LosesOldestOfFull s' := by
  cases a with
  | issue ticket who now =>
    obtain ⟨⟨le, fresh⟩, rfl⟩ := of_guard taken
    have hlonger : (s.issued.map TicketRecord.ticket).Sublist
        ((s.issued ++ [(⟨ticket, now, who⟩ : TicketRecord T)]).map TicketRecord.ticket) := by
      rw [List.map_append]
      exact List.sublist_append_left ..
    intro loss hloss hne
    obtain rfl | hloss := List.mem_cons.mp hloss
    · have hlost := hinv.lost_of_issue now who fresh
      dsimp only at hne ⊢
      rw [hlost] at hne ⊢
      split at hne
      · rename_i hfull
        rw [if_pos hfull]
        have hlive : liveTickets s.waiting now ≠ [] := by
          intro hnil
          rw [hnil] at hne
          exact hne List.take_nil
        exact ⟨limit_le_of_not_wasteful hfull thrifty hlive, List.take_prefix ..,
          (liveTickets_sublist.trans hinv.order).trans hlonger⟩
      · exact absurd rfl hne
    · obtain ⟨hlimit, hprefix, horder⟩ := h loss hloss hne
      exact ⟨hlimit, hprefix, horder.trans hlonger⟩
  | authenticate request now =>
    obtain ⟨le, rfl⟩ := of_guard taken
    obtain ⟨hissued, hlosses⟩ := w.authenticate_history s request now
    intro loss hloss hne
    obtain rfl | hloss := List.mem_cons.mp hloss
    · refine absurd ?_ hne
      rw [List.filter_eq_nil_iff]
      intro k hk
      rw [decide_eq_true_iff, not_and_or, not_not, not_not]
      exact not_lost_of_authenticate request hk
    · rw [hlosses] at hloss
      change _ ∧ _ ∧ loss.live.Sublist ((w.authenticate s request now).1.issued.map TicketRecord.ticket)
      rw [hissued]
      exact h loss hloss hne

/-- A wasteful issue does lose one. -/
lemma not_losesOldestOfFull_of_wasteful (hinv : w.TicketInv s) (within : s.waiting.keys.length ≤ w.limit)
    {a : TicketAct T} (wasteful : w.Wasteful s a) (taken : w.step s a = some s') : ¬ w.LosesOldestOfFull s' := by
  intro h
  cases a with
  | issue ticket who now =>
    obtain ⟨⟨le, fresh⟩, rfl⟩ := of_guard taken
    obtain ⟨full, hsome, item, hitem, hle⟩ := wasteful
    have hlive : liveTickets s.waiting now ≠ [] :=
      List.ne_nil_of_mem (List.mem_map_of_mem (List.mem_filter.mpr ⟨hitem, decide_eq_true hle⟩))
    have hlost := hinv.lost_of_issue now who fresh
    rw [if_pos full] at hlost
    have hne : (liveTickets s.waiting now).take (max 1 ((liveTickets s.waiting now).length + 1 - w.limit)) ≠ [] := by
      rw [Ne, List.take_eq_nil_iff, not_or]
      exact ⟨by omega, hlive⟩
    rw [← hlost] at hne
    have hlimit := (h _ (List.mem_cons_self ..) hne).1
    have hfewer := length_live_lt hsome
    dsimp only at hlimit
    omega
  | authenticate request now => exact wasteful

/-! ## Runs -/

/-- No more than `limit` tickets wait. -/
lemma within_step (pos : 0 < w.limit) (h : s.waiting.keys.length ≤ w.limit) {a : TicketAct T}
    (taken : w.step s a = some s') : s'.waiting.keys.length ≤ w.limit := by
  cases a with
  | issue ticket who now =>
    obtain ⟨-, rfl⟩ := of_guard taken
    exact OrderedDict.length_set_le.trans (length_trim_lt pos)
  | authenticate request now =>
    obtain ⟨-, rfl⟩ := of_guard taken
    refine after_authenticate (P := fun s' => s'.waiting.keys.length ≤ w.limit) request h ?_ ?_
    · exact fun _ _ => OrderedDict.length_erase_le.trans h
    · exact fun _ _ _ _ _ => OrderedDict.length_erase_le.trans h

end Tickets

end Methods

namespace Tickets

/-- Room for two tickets, each good for ten units of time. -/
def two : Tickets ℕ := ⟨10, "ticket", 2⟩

def ada : Principal where
  subject := "ada"
  scheme := "ticket"
  scopes := ∅
  roles := ∅
  claims := []
  user := none
  subject_ne := ada_ne_empty

/-- The third ticket takes the place of the first, and the second is redeemed. -/
def thriftyRun : List (TicketAct ℕ) :=
  [.issue "a" ada 0, .issue "b" ada 5, .issue "c" ada 6, .authenticate ⟨true, [("ticket", "b")]⟩ 7]

/-- The first ticket is over when the third is issued, and the second is lost all the same. -/
def wastefulRun : List (TicketAct ℕ) := [.issue "a" ada 0, .issue "b" ada 5, .issue "c" ada 12]

end Tickets

end Oxbrook
