import Mathlib.Data.List.Infix
import Mathlib.Data.List.Nodup
import Mathlib.Data.List.TakeWhile
import Oxbrook.Streams.Consumer

/-!
# The recovery of a consumer

The recovery is a single pass over what was pending just when the caller acks all it was given
before the consumer reads on, and no entry that still exists has a whole page of deleted ones before
it.  Each page is read from the start of the list again, so what is not acked by then is given
again; and a page of nothing but deleted entries, which nobody acks, ends the recovery even if
entries that still exist come after it.
-/

namespace Oxbrook

variable {ι φ δ : Type*}

/-! ## Lists of pending entries -/

/-- The ids of the entries that still exist. -/
def existing (entries : List (GroupEntry ι φ)) : List ι :=
  (entries.filter fun entry => entry.fields.isSome).map GroupEntry.id

lemma mem_existing {entries : List (GroupEntry ι φ)} {ident : ι} :
    ident ∈ existing entries ↔ ∃ e ∈ entries, e.fields.isSome = true ∧ e.id = ident := by
  simp [existing, List.mem_map, List.mem_filter, and_assoc]

/-- What still exists of the first entries comes first. -/
lemma existing_isPrefix {a b : List (GroupEntry ι φ)} (h : a <+: b) :
    existing a <+: existing b :=
  (h.filter _).map _

/-- The messages of a list of entries. -/
def messages (decode : φ → δ) (entries : List (GroupEntry ι φ)) : List (Message ι δ) :=
  entries.filterMap fun entry => entry.fields.map fun fields => ⟨entry.id, decode fields⟩

lemma messages_ids (decode : φ → δ) (entries : List (GroupEntry ι φ)) :
    (messages decode entries).map Message.id = existing entries := by
  induction entries with
  | nil => rfl
  | cons entry entries ih =>
    unfold messages existing at ih ⊢
    cases hfields : entry.fields with
    | none => simp [hfields, ih]
    | some fields => simp [hfields, ih]

/-- `_absorb` skips the deleted entries and appends the messages of the others. -/
lemma absorb_eq (decode : φ → δ) (buffer : List (Message ι δ)) (entries : List (GroupEntry ι φ)) :
    Consumer.absorb decode buffer entries =
      ((messages decode entries).length, buffer ++ messages decode entries) := by
  induction entries generalizing buffer with
  | nil => simp [Consumer.absorb, messages]
  | cons entry entries ih =>
    unfold messages at ih ⊢
    cases hfields : entry.fields with
    | none => simp [Consumer.absorb, hfields, ih]
    | some fields => simp [Consumer.absorb, hfields, ih]

variable [DecidableEq ι]

/-- The entries before the one with the given id. -/
def before (entries : List (GroupEntry ι φ)) (ident : ι) : List (GroupEntry ι φ) :=
  entries.takeWhile fun entry => decide (entry.id ≠ ident)

/-- How many deleted entries come before the one with the given id. -/
def deletedBefore (entries : List (GroupEntry ι φ)) (ident : ι) : ℕ :=
  (before entries ident).countP fun entry => entry.fields.isNone

/-- An entry is in the first page just when less than a page comes before it. -/
lemma mem_take_iff (entries : List (GroupEntry ι φ)) (ident : ι) (n : ℕ) :
    ident ∈ (entries.take n).map GroupEntry.id ↔
      ident ∈ entries.map GroupEntry.id ∧ (before entries ident).length < n := by
  induction entries generalizing n with
  | nil => simp
  | cons entry entries ih =>
    cases n with
    | zero => simp
    | succ n =>
      by_cases hid : entry.id = ident
      · simp [before, hid]
      · have hne : ident ≠ entry.id := Ne.symm hid
        have hbefore : before (entry :: entries) ident = entry :: before entries ident := by
          simp [before, hid]
        rw [hbefore, List.take_succ_cons, List.map_cons, List.map_cons, List.mem_cons, List.mem_cons,
          ih, List.length_cons]
        simp [hne]

/-- Acking other entries leaves those before an entry in their order. -/
lemma before_filter {entries : List (GroupEntry ι φ)} {keep : GroupEntry ι φ → Bool} {ident : ι}
    (hkeep : ∀ e ∈ entries, e.id = ident → keep e = true) :
    before (entries.filter keep) ident = (before entries ident).filter keep := by
  induction entries with
  | nil => rfl
  | cons entry entries ih =>
    have hrest := ih fun e he => hkeep e (List.mem_cons_of_mem _ he)
    unfold before at hrest ⊢
    by_cases hid : entry.id = ident
    · have hk := hkeep entry List.mem_cons_self hid
      simp [hid, hk]
    · cases hk : keep entry with
      | true => simpa [hid, hk] using hrest
      | false => simpa [hid, hk] using hrest

section Acked

variable {pending : List (GroupEntry ι φ)} {acked : List ι}

/-- What is left of a list of pending entries after acks. -/
def unacked (pending : List (GroupEntry ι φ)) (acked : List ι) : List (GroupEntry ι φ) :=
  pending.filter fun entry => decide (entry.id ∉ acked)

lemma unacked_unacked (pending : List (GroupEntry ι φ)) (acked idents : List ι) :
    unacked (unacked pending acked) idents = unacked pending (acked ++ idents) := by
  unfold unacked
  rw [List.filter_filter]
  refine List.filter_congr fun e _ => ?_
  simp [not_or, Bool.and_comm]

lemma existing_unacked (pending : List (GroupEntry ι φ)) (acked : List ι) :
    existing (unacked pending acked) =
      (existing pending).filter fun ident => decide (ident ∉ acked) := by
  unfold existing unacked
  rw [List.filter_filter, List.filter_map, List.filter_filter]
  congr 1
  refine List.filter_congr fun e _ => ?_
  simp [Bool.and_comm]

omit [DecidableEq ι] in
/-- An entry is determined by its id. -/
lemma eq_of_id_eq (hids : (pending.map GroupEntry.id).Nodup) {a b : GroupEntry ι φ}
    (ha : a ∈ pending) (hb : b ∈ pending) (hid : a.id = b.id) : a = b :=
  List.inj_on_of_nodup_map hids ha hb hid

omit [DecidableEq ι] in
/-- A deleted entry is never acked: its id is none that was given. -/
lemma not_mem_acked_of_deleted (hids : (pending.map GroupEntry.id).Nodup)
    (hacked : acked ⊆ existing pending) {e : GroupEntry ι φ} (he : e ∈ pending)
    (hdeleted : e.fields.isNone = true) : e.id ∉ acked := by
  intro hmem
  obtain ⟨b, hb, hsome, hid⟩ := mem_existing.mp (hacked hmem)
  rw [eq_of_id_eq hids hb he hid] at hsome
  rw [Option.isNone_iff_eq_none.mp hdeleted] at hsome
  cases hsome

/-- What is in a page has less than a page of deleted entries before it. -/
lemma deletedBefore_lt_of_page (hids : (pending.map GroupEntry.id).Nodup)
    (hacked : acked ⊆ existing pending) {count : ℕ} {ident : ι}
    (hpage : ident ∈ existing ((unacked pending acked).take count)) :
    deletedBefore pending ident < count := by
  obtain ⟨e, he, -, rfl⟩ := mem_existing.mp hpage
  obtain ⟨-, hlength⟩ := (mem_take_iff _ _ _).mp (List.mem_map_of_mem (f := GroupEntry.id) he)
  have hkept := List.mem_of_mem_take he
  obtain ⟨hmem, hkeep⟩ := List.mem_filter.mp hkept
  have hbefore : before (unacked pending acked) e.id =
      (before pending e.id).filter fun entry => decide (entry.id ∉ acked) := by
    refine before_filter fun b hb hid => ?_
    rw [hid]
    exact hkeep
  rw [hbefore, ← List.countP_eq_length_filter] at hlength
  refine lt_of_le_of_lt (List.countP_mono_left fun b hb hdeleted => ?_) hlength
  have hb : b ∈ pending := (List.takeWhile_sublist _).mem hb
  exact decide_eq_true (not_mem_acked_of_deleted hids hacked hb hdeleted)

/-- A page has something to give unless a whole page of deleted entries comes first. -/
lemma page_ne_nil (hids : (pending.map GroupEntry.id).Nodup) {count : ℕ} {ident : ι}
    {rest : List ι} (hfirst : existing (unacked pending acked) = ident :: rest)
    (hfew : deletedBefore pending ident < count) :
    existing ((unacked pending acked).take count) ≠ [] := by
  have hmem : ident ∈ existing (unacked pending acked) := hfirst ▸ List.mem_cons_self
  obtain ⟨e, he, hsome, rfl⟩ := mem_existing.mp hmem
  obtain ⟨hpending, hkeep⟩ := List.mem_filter.mp he
  have hbefore : before (unacked pending acked) e.id =
      (before pending e.id).filter fun entry => decide (entry.id ∉ acked) := by
    refine before_filter fun b hb hid => ?_
    rw [hid]
    exact hkeep
  -- nothing that exists comes before the first entry that exists
  have hnone : existing (before (unacked pending acked) e.id) = [] := by
    have hinit := existing_isPrefix (List.takeWhile_prefix (l := unacked pending acked)
      fun entry => decide (entry.id ≠ e.id))
    rw [hfirst] at hinit
    cases hexisting : existing (before (unacked pending acked) e.id) with
    | nil => rfl
    | cons i is =>
      rw [before] at hexisting
      rw [hexisting] at hinit
      obtain ⟨hi, -⟩ := List.cons_prefix_cons.mp hinit
      have hmem : i ∈ existing (before (unacked pending acked) e.id) := by
        rw [before, hexisting]
        exact List.mem_cons_self
      obtain ⟨b, hb, -, hid⟩ := mem_existing.mp hmem
      have hne := List.mem_takeWhile_imp hb
      simp [hid, hi] at hne
  have hlength : (before (unacked pending acked) e.id).length < count := by
    have hall : ∀ b ∈ before (unacked pending acked) e.id, b.fields.isNone = true := by
      intro b hb
      by_contra hsome
      have hmem : b.id ∈ existing (before (unacked pending acked) e.id) :=
        mem_existing.mpr ⟨b, hb, by simpa [Option.isSome_iff_ne_none] using hsome, rfl⟩
      rw [hnone] at hmem
      cases hmem
    rw [← List.countP_eq_length.mpr hall]
    refine lt_of_le_of_lt ?_ hfew
    rw [hbefore, deletedBefore]
    exact List.Sublist.countP_le List.filter_sublist
  have hpage : e.id ∈ ((unacked pending acked).take count).map GroupEntry.id :=
    (mem_take_iff _ _ _).mpr ⟨List.mem_map_of_mem he, hlength⟩
  obtain ⟨b, hb, hid⟩ := List.mem_map.mp hpage
  have hsame : b = e :=
    eq_of_id_eq hids (List.mem_filter.mp (List.mem_of_mem_take hb)).1 hpending hid
  intro hnil
  have hmem : e.id ∈ existing ((unacked pending acked).take count) :=
    mem_existing.mpr ⟨e, hsame ▸ hb, hsome, rfl⟩
  rw [hnil] at hmem
  cases hmem

end Acked

/-! ## One pass through `__anext__` -/

namespace Session

variable {decode : φ → δ} {acks : List ι → List ι} {s : Session ι φ δ}

/-- What was given and what is in the buffer, in order. -/
def handed (s : Session ι φ δ) : List ι :=
  s.given ++ s.consumer.buffer.map Message.id

omit [DecidableEq ι] in
lemma fillLive_recovering (decode : φ → δ) (consumer : Consumer ι δ) (group : Group ι φ) :
    (consumer.fillLive decode group).1.recovering = consumer.recovering := by
  unfold Consumer.fillLive
  dsimp only
  split_ifs <;> rfl

/-- Everything one pass through the loop of `__anext__` can do while the consumer recovers. -/
lemma turn_cases (decode : φ → δ) (acks : List ι → List ι)
    (hrecovering : s.consumer.recovering = true) (hopen : s.consumer.closed = false) :
    (∃ message buffer, s.consumer.buffer = message :: buffer ∧ turn decode acks s =
      { consumer := { s.consumer with buffer := buffer }
        group := s.group.ack ((acks (s.given ++ [message.id])).filter
          fun ident => decide (ident ∈ s.given ++ [message.id]))
        given := s.given ++ [message.id] }) ∨
    (s.consumer.buffer = [] ∧ existing (s.group.pending.take s.consumer.count) ≠ [] ∧
      turn decode acks s = { s with consumer := { s.consumer with
        buffer := messages decode (s.group.pending.take s.consumer.count) } }) ∨
    (s.consumer.buffer = [] ∧ existing (s.group.pending.take s.consumer.count) = [] ∧
      (turn decode acks s).consumer.recovering = false ∧ (turn decode acks s).given = s.given) := by
  cases hbuffer : s.consumer.buffer with
  | cons message buffer => exact .inl ⟨message, buffer, rfl, by simp [turn, hbuffer]⟩
  | nil =>
    right
    have hlength : (messages decode (s.group.pending.take s.consumer.count)).length =
        (existing (s.group.pending.take s.consumer.count)).length := by
      rw [← messages_ids decode, List.length_map]
    by_cases hpage : existing (s.group.pending.take s.consumer.count) = []
    · refine .inr ⟨rfl, hpage, ?_⟩
      rw [hpage, List.length_nil] at hlength
      simp [turn, hbuffer, hopen, Consumer.fill, hrecovering, Group.readPending, absorb_eq, hlength,
        fillLive_recovering]
    · refine .inl ⟨rfl, hpage, ?_⟩
      have hne : (messages decode (s.group.pending.take s.consumer.count)).length ≠ 0 := by
        rw [hlength]
        simpa using hpage
      simp [turn, hbuffer, hopen, Consumer.fill, hrecovering, Group.readPending, absorb_eq,
        List.length_eq_zero_iff.not.mp hne]

/-- A pass through the loop never takes back what was given or is in the buffer. -/
lemma handed_turn (s : Session ι φ δ) : s.handed <+: (turn decode acks s).handed := by
  unfold turn handed
  split
  case h_1 message buffer hbuffer =>
    rw [hbuffer, List.map_cons, List.append_cons]
  case h_2 hbuffer =>
    rw [hbuffer]
    split_ifs
    · rw [hbuffer]
    · rw [List.map_nil, List.append_nil]
      exact List.prefix_append _ _

/-- Once the recovery has ended it does not begin again. -/
lemma turn_not_recovering (h : s.consumer.recovering = false) :
    (turn decode acks s).consumer.recovering = false := by
  unfold turn
  split
  · exact h
  · split_ifs
    · exact h
    · simp [Consumer.fill, h, fillLive_recovering]

/-- A pass through the loop that gives a message does not end the recovery. -/
lemma buffer_eq_nil_of_ends (hrecovering : s.consumer.recovering = true)
    (hends : (turn decode acks s).consumer.recovering = false) : s.consumer.buffer = [] := by
  cases hbuffer : s.consumer.buffer with
  | nil => rfl
  | cons message buffer =>
    simp [turn, hbuffer, hrecovering] at hends

lemma handed_iterate (s : Session ι φ δ) (m k : ℕ) :
    ((turn decode acks)^[m] s).handed <+: ((turn decode acks)^[m + k] s).handed := by
  induction k with
  | zero => exact List.prefix_rfl
  | succ k ih =>
    rw [← Nat.add_assoc, Function.iterate_succ_apply']
    exact ih.trans (handed_turn _)

lemma not_recovering_iterate {m : ℕ} (h : ((turn decode acks)^[m] s).consumer.recovering = false)
    (k : ℕ) : ((turn decode acks)^[m + k] s).consumer.recovering = false := by
  induction k with
  | zero => exact h
  | succ k ih =>
    rw [← Nat.add_assoc, Function.iterate_succ_apply']
    exact turn_not_recovering ih

/-! ## The recovery as a whole -/

/-- A consumer that recovers what was `pending` when it was started: some of what it gave is acked,
and nothing it has read had a page of deleted entries before it. -/
structure Recovering (pending : List (GroupEntry ι φ)) (count : ℕ) (s : Session ι φ δ) : Prop where
  recovering : s.consumer.recovering = true
  isOpen : s.consumer.closed = false
  size : s.consumer.count = count
  left : ∃ acked, acked ⊆ s.given ∧ s.group.pending = unacked pending acked
  reach : ∀ ident ∈ s.handed, deletedBefore pending ident < count

variable {pending : List (GroupEntry ι φ)} {count : ℕ}

lemma recovering_start (count : ℕ) (claims : Bool) (group : Group ι φ) :
    (start count claims group : Session ι φ δ).Recovering group.pending count := by
  refine ⟨rfl, rfl, rfl, ⟨[], List.nil_subset _, ?_⟩, ?_⟩
  · simp [start, unacked]
  · intro ident hmem
    cases hmem

omit [DecidableEq ι] in
lemma given_subset (h : s.handed <+: existing pending) : s.given ⊆ existing pending :=
  fun _ hmem => h.subset (List.mem_append_left _ hmem)

lemma Recovering.turn (h : s.Recovering pending count) (hids : (pending.map GroupEntry.id).Nodup)
    (hinit : s.handed <+: existing pending)
    (hnext : (Session.turn decode acks s).consumer.recovering = true) :
    (Session.turn decode acks s).Recovering pending count := by
  obtain ⟨acked, hacked, hleft⟩ := h.left
  rcases turn_cases decode acks h.recovering h.isOpen with ⟨message, buffer, hbuffer, hp⟩ |
    ⟨hbuffer, hpage, hp⟩ | ⟨-, -, hends, -⟩
  · rw [hp]
    refine ⟨h.recovering, h.isOpen, h.size, ?_, ?_⟩
    · refine ⟨acked ++ (acks (s.given ++ [message.id])).filter
        fun ident => decide (ident ∈ s.given ++ [message.id]), ?_, ?_⟩
      · intro ident hmem
        rcases List.mem_append.mp hmem with hmem | hmem
        · exact List.mem_append_left _ (hacked hmem)
        · exact of_decide_eq_true (List.mem_filter.mp hmem).2
      · rw [← unacked_unacked, ← hleft]
        rfl
    · intro ident hmem
      refine h.reach ident ?_
      unfold handed at hmem ⊢
      rw [hbuffer, List.map_cons, List.append_cons]
      exact hmem
  · rw [hp]
    refine ⟨h.recovering, h.isOpen, h.size, ⟨acked, hacked, hleft⟩, ?_⟩
    intro ident hmem
    rcases List.mem_append.mp hmem with hmem | hmem
    · exact h.reach ident (List.mem_append_left _ hmem)
    · rw [messages_ids, hleft, h.size] at hmem
      exact deletedBefore_lt_of_page hids (fun _ hi => given_subset hinit (hacked hi)) hmem
  · rw [hnext] at hends
    cases hends

/-- What is left to give: what was given and is still pending, and what was not given yet. -/
lemma Recovering.existing_left (h : s.Recovering pending count) (hids : (existing pending).Nodup)
    {todo : List ι} (htodo : existing pending = s.given ++ todo) :
    ∃ again, existing s.group.pending = again ++ todo ∧ ∀ ident,
      ident ∈ again ↔ ident ∈ s.given ∧ ident ∈ s.group.pending.map GroupEntry.id := by
  obtain ⟨acked, hacked, hleft⟩ := h.left
  have hexisting : existing s.group.pending =
      (s.given.filter fun ident => decide (ident ∉ acked)) ++ todo := by
    rw [htodo] at hids
    have hkept : todo.filter (fun ident => decide (ident ∉ acked)) = todo := by
      refine List.filter_eq_self.mpr fun ident hmem => decide_eq_true fun hin => ?_
      exact (List.nodup_append.mp hids).2.2 ident (hacked hin) ident hmem rfl
    rw [hleft, existing_unacked, htodo, List.filter_append, hkept]
  refine ⟨_, hexisting, fun ident => ⟨fun hmem => ⟨(List.mem_filter.mp hmem).1, ?_⟩, ?_⟩⟩
  · have hmem : ident ∈ existing s.group.pending := by
      rw [hexisting]
      exact List.mem_append_left _ hmem
    obtain ⟨e, he, -, rfl⟩ := mem_existing.mp hmem
    exact List.mem_map_of_mem he
  · rintro ⟨hmem, hpending⟩
    refine List.mem_filter.mpr ⟨hmem, ?_⟩
    rw [hleft] at hpending
    obtain ⟨e, he, rfl⟩ := List.mem_map.mp hpending
    exact (List.mem_filter.mp he).2

omit [DecidableEq ι] in
lemma existing_nodup (hids : (pending.map GroupEntry.id).Nodup) : (existing pending).Nodup :=
  hids.sublist (List.filter_sublist.map _)

/-- The entry to give first is in the first page, unless too many deleted ones come before it. -/
lemma Recovering.page (h : s.Recovering pending count) (hids : (pending.map GroupEntry.id).Nodup)
    {ident : ι} {rest : List ι} (hfirst : existing s.group.pending = ident :: rest)
    (hfew : deletedBefore pending ident < count) :
    ∃ page, existing (s.group.pending.take s.consumer.count) = ident :: page := by
  have hinit := existing_isPrefix (List.take_prefix s.consumer.count s.group.pending)
  obtain ⟨acked, -, hleft⟩ := h.left
  have hne : existing (s.group.pending.take s.consumer.count) ≠ [] := by
    rw [hleft] at hfirst ⊢
    rw [h.size]
    exact page_ne_nil hids hfirst hfew
  obtain ⟨first, page, hpage⟩ := List.exists_cons_of_ne_nil hne
  rw [hfirst, hpage] at hinit
  obtain ⟨rfl, -⟩ := List.cons_prefix_cons.mp hinit
  exact ⟨page, hpage⟩

/-- How much the consumer has still to do: to read and then to give each entry that is left. -/
def work (pending : List (GroupEntry ι φ)) (s : Session ι φ δ) : ℕ :=
  2 * ((existing pending).length - s.handed.length) + s.consumer.buffer.length

/-- A caller that acks in time, and a list without a page of deleted entries before one that still
exists, make the recovery a single pass. -/
lemma recovers_of_acksInTime (hids : (pending.map GroupEntry.id).Nodup)
    (hfew : ∀ ident ∈ existing pending, deletedBefore pending ident < count)
    (h : s.Recovering pending count) (hinit : s.handed <+: existing pending)
    (hacks : AcksInTime decode acks s) {size : ℕ} (hsize : s.work pending < size) :
    Recovers decode acks s (existing pending) := by
  induction size generalizing s with
  | zero => exact absurd hsize (Nat.not_lt_zero _)
  | succ size ih =>
    have hgoesOn (hrecovering : (turn decode acks s).consumer.recovering = true)
        (hhanded : (turn decode acks s).handed <+: existing pending)
        (hless : (turn decode acks s).work pending < s.work pending) :
        Recovers decode acks s (existing pending) := by
      have hlater : AcksInTime decode acks (turn decode acks s) := fun n => hacks (n + 1)
      obtain ⟨n, hn⟩ := ih (h.turn hids hinit hrecovering) hhanded hlater (by omega)
      exact ⟨n + 1, hn⟩
    -- at a read all that was given is acked, so what is left is what was not given yet
    have hleft (hbuffer : s.consumer.buffer = []) : s.handed = s.given ∧
        existing pending = s.given ++ existing s.group.pending := by
      have hgiven : s.handed = s.given := by simp [handed, hbuffer]
      rw [hgiven] at hinit
      obtain ⟨todo, htodo⟩ := hinit
      obtain ⟨again, hleft, hagain⟩ := h.existing_left (existing_nodup hids) htodo.symm
      have hnone : again = [] := by
        refine List.eq_nil_iff_forall_not_mem.mpr fun ident hmem => ?_
        obtain ⟨hgiven, hpending⟩ := (hagain ident).mp hmem
        exact hacks 0 ⟨h.recovering, hbuffer, h.isOpen⟩ ident hgiven hpending
      rw [hnone, List.nil_append] at hleft
      exact ⟨hgiven, by rw [hleft, htodo]⟩
    rcases turn_cases decode acks h.recovering h.isOpen with ⟨message, buffer, hbuffer, hp⟩ |
      ⟨hbuffer, hpage, hp⟩ | ⟨hbuffer, hpage, hends, -⟩
    · have hsame : (turn decode acks s).handed = s.handed := by simp [hp, handed, hbuffer]
      refine hgoesOn (by rw [hp]; exact h.recovering) (hsame ▸ hinit) ?_
      have hshorter : (turn decode acks s).consumer.buffer.length < s.consumer.buffer.length := by
        simp [hp, hbuffer]
      unfold work
      rw [hsame]
      omega
    · obtain ⟨hgiven, htodo⟩ := hleft hbuffer
      have hhanded : (turn decode acks s).handed =
          s.given ++ existing (s.group.pending.take s.consumer.count) := by
        rw [hp, handed, messages_ids]
      have hinit' : (turn decode acks s).handed <+: existing pending := by
        rw [hhanded, htodo, List.prefix_append_right_inj]
        exact existing_isPrefix (List.take_prefix _ _)
      refine hgoesOn (by rw [hp]; exact h.recovering) hinit' ?_
      have hbuffered : (turn decode acks s).consumer.buffer.length =
          (existing (s.group.pending.take s.consumer.count)).length := by
        rw [hp, ← messages_ids decode, List.length_map]
      have hpos := List.length_pos_iff.mpr hpage
      have hlength := hinit'.length_le
      unfold work
      rw [hbuffered, hbuffer, hgiven]
      rw [hhanded, List.length_append] at hlength ⊢
      rw [List.length_nil]
      omega
    · obtain ⟨hgiven, htodo⟩ := hleft hbuffer
      refine ⟨0, h.recovering, ?_, hends⟩
      cases hexisting : existing s.group.pending with
      | nil =>
        rw [htodo, hexisting, List.append_nil]
        rfl
      | cons ident rest =>
        have hmem : ident ∈ existing pending := by
          rw [htodo, hexisting]
          exact List.mem_append_right _ List.mem_cons_self
        obtain ⟨page, hnonempty⟩ := h.page hids hexisting (hfew ident hmem)
        rw [hpage] at hnonempty
        cases hnonempty

section SinglePass

variable {n : ℕ} (hids : (pending.map GroupEntry.id).Nodup) (hstart : s.Recovering pending count)
  (hrecovering : ((Session.turn decode acks)^[n] s).consumer.recovering = true)
  (hgiven : ((Session.turn decode acks)^[n] s).given = existing pending)
  (hends : ((Session.turn decode acks)^[n + 1] s).consumer.recovering = false)

include hrecovering hgiven hends

/-- Up to its end a recovery that is a single pass has only read what it was to give. -/
lemma handed_isPrefix {m : ℕ} (hm : m ≤ n) :
    ((Session.turn decode acks)^[m] s).handed <+: existing pending := by
  have hbuffer : ((Session.turn decode acks)^[n] s).consumer.buffer = [] := by
    rw [Function.iterate_succ_apply'] at hends
    exact buffer_eq_nil_of_ends hrecovering hends
  have hall : ((Session.turn decode acks)^[n] s).handed = existing pending := by
    rw [handed, hgiven, hbuffer, List.map_nil, List.append_nil]
  obtain ⟨k, rfl⟩ := Nat.exists_eq_add_of_le hm
  exact hall ▸ handed_iterate s m k

include hids hstart

lemma recovering_iterate {m : ℕ} (hm : m ≤ n) :
    ((Session.turn decode acks)^[m] s).Recovering pending count := by
  induction m with
  | zero => exact hstart
  | succ m ih =>
    have hinit := handed_isPrefix hrecovering hgiven hends (Nat.le_of_succ_le hm)
    rw [Function.iterate_succ_apply']
    refine (ih (Nat.le_of_succ_le hm)).turn hids hinit ?_
    rw [← Function.iterate_succ_apply' (Session.turn decode acks)]
    by_contra hnot
    obtain ⟨k, hk⟩ := Nat.exists_eq_add_of_le hm
    have hlater := not_recovering_iterate ((Bool.not_eq_true _).mp hnot) k
    rw [← hk, hrecovering] at hlater
    cases hlater

/-- In a recovery that is a single pass the caller has acked all it was given at every read: what is
given and still pending would be read again. -/
lemma acksInTime_of_recovers : AcksInTime decode acks s := by
  intro m hreads ident hmem hpending
  have hm : m ≤ n := by
    by_contra hlate
    obtain ⟨k, hk⟩ := Nat.exists_eq_add_of_le (Nat.lt_of_not_le hlate)
    have hlater := not_recovering_iterate hends k
    rw [← hk, hreads.1] at hlater
    cases hlater
  have hr := recovering_iterate hids hstart hrecovering hgiven hends hm
  have hinit := handed_isPrefix hrecovering hgiven hends hm
  rw [handed, hreads.2.1, List.map_nil, List.append_nil] at hinit
  obtain ⟨todo, htodo⟩ := hinit
  obtain ⟨again, hleft, hagain⟩ := hr.existing_left (existing_nodup hids) htodo.symm
  obtain ⟨first, rest, hfirst⟩ :=
    List.exists_cons_of_ne_nil (List.ne_nil_of_mem ((hagain ident).mpr ⟨hmem, hpending⟩))
  have hfirstGiven : first ∈ ((Session.turn decode acks)^[m] s).given := by
    have hin : first ∈ again := hfirst ▸ List.mem_cons_self
    exact ((hagain first).mp hin).1
  rw [hfirst, List.cons_append] at hleft
  obtain ⟨page, hpage⟩ := hr.page hids hleft (hr.reach first (List.mem_append_left _ hfirstGiven))
  -- so `first` is read a second time, and what was handed over repeats it
  rcases turn_cases decode acks hr.recovering hr.isOpen with ⟨_, _, hbuffer, -⟩ | ⟨-, -, hp⟩ |
    ⟨-, hnone, -⟩
  · rw [hreads.2.1] at hbuffer
    cases hbuffer
  · have hnext : m + 1 ≤ n := by
      refine Nat.lt_of_le_of_ne hm ?_
      rintro rfl
      rw [Function.iterate_succ_apply', hp] at hends
      exact absurd (hr.recovering.symm.trans hends) (by decide)
    have hrepeats := handed_isPrefix hrecovering hgiven hends hnext
    rw [Function.iterate_succ_apply', hp, handed, messages_ids, hpage] at hrepeats
    have hnodup := (existing_nodup hids).sublist hrepeats.sublist
    exact (List.nodup_append.mp hnodup).2.2 first hfirstGiven first List.mem_cons_self rfl
  · rw [hnone] at hpage
    cases hpage

end SinglePass

end Session

open Session

end Oxbrook
