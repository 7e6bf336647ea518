import Oxbrook.Mcp.Feed
import Mathlib.Data.List.Range

/-!
# A feed loses messages only to its bound

`take` copies the buffer and then clears it.  `conserved` says that every message is returned once, still buffered, or
displaced by a full buffer of later ones, in the runs in which nothing is appended and nothing copied between the copy
of a read and its clear.
-/

namespace Oxbrook

open StepMachine

variable {ι : Type*} {size : ℕ}

/-- Displaced by `size` later messages, none of them read by then. -/
def Displaced.ByBound (size : ℕ) (d : Displaced) : Prop :=
  d.later.length = size ∧ ∀ m ∈ d.later, d.message < m ∧ m ∉ d.read

namespace FeedState

/-- No read is between its copy of the buffer and its clear. -/
def Settled (s : FeedState ι) : Prop := ∀ i, s.takes i ≠ .copied

/-- The messages that fell off the buffer. -/
def fallen (s : FeedState ι) : List ℕ := s.displaced.map Displaced.message

/-- Each message that was appended was returned by one read, is still buffered, or was displaced by `size` later unread
messages.  While a read stands before its clear, what it copied is still in the buffer. -/
structure Conserved (size : ℕ) (s : FeedState ι) : Prop where
  kept : ∀ m, m < s.arrived ↔ m ∈ s.returned ∨ m ∈ s.buffer ∨ m ∈ s.fallen
  once : s.returned.Nodup
  unread : s.Settled → ∀ m ∈ s.buffer, m ∉ s.returned
  gone : ∀ m ∈ s.fallen, m ∉ s.returned ∧ m ∉ s.buffer
  displaced : ∀ d ∈ s.displaced, d.ByBound size

/-- The steps that do not go wrong: nothing comes between the copy of a read and its clear that uses the buffer. -/
def Undivided (s : FeedState ι) : FeedAction ι → Prop
  | .append => s.Settled
  | .copy _ => s.Settled
  | _ => True

instance [Fintype ι] (s : FeedState ι) : Decidable s.Settled :=
  inferInstanceAs (Decidable (∀ i, s.takes i ≠ .copied))

instance [Fintype ι] (s : FeedState ι) (a : FeedAction ι) : Decidable (s.Undivided a) :=
  match a with
  | .append | .copy _ => inferInstanceAs (Decidable s.Settled)
  | .testLatch | .setLatch | .readChannel | .emit | .clear _ | .resetLatch _ | .outbound | .subscribe | .leave =>
    inferInstanceAs (Decidable True)

/-! ## The invariant -/

/-- The messages of a feed with a read `i` before its clear: what is in the buffer is what the read has. -/
structure HeldBy (s : FeedState ι) (i : ι) : Prop where
  all : (s.returned ++ s.fallen).Perm (List.range s.arrived)
  copied : s.buffer ⊆ s.returned
  only : ∀ j, s.takes j = .copied → j = i

structure Ledger (size : ℕ) (s : FeedState ι) : Prop where
  ascending : s.buffer.Pairwise (· < ·)
  bound : s.buffer.length ≤ size
  settled : s.Settled → (s.returned ++ s.fallen ++ s.buffer).Perm (List.range s.arrived)
  held : ∀ i, s.takes i = .copied → s.HeldBy i
  displaced : ∀ d ∈ s.displaced, d.ByBound size

lemma ledger_new : Ledger size (new : FeedState ι) where
  ascending := .nil
  bound := Nat.zero_le _
  settled _ := .refl _
  held _ h := nomatch h
  displaced := nofun

namespace Ledger

variable {s s' : FeedState ι}

lemma conserved_of_ledger (h : s.Ledger size) : s.Conserved size := by
  by_cases hsettled : s.Settled
  · have hperm := h.settled hsettled
    have hnodup : (s.returned ++ s.fallen ++ s.buffer).Nodup := hperm.nodup_iff.mpr List.nodup_range
    obtain ⟨hleft, -, hapart⟩ := List.nodup_append.mp hnodup
    obtain ⟨hreturned, -, hfallen⟩ := List.nodup_append.mp hleft
    refine ⟨fun m => ?_, hreturned, fun _ m hm hread => ?_, fun m hm => ⟨fun hread => ?_, fun hbuffer => ?_⟩,
      h.displaced⟩
    · rw [← List.mem_range, ← hperm.mem_iff, List.mem_append, List.mem_append, or_assoc, or_comm (a := m ∈ s.fallen)]
    · exact hapart m (List.mem_append_left _ hread) m hm rfl
    · exact hfallen m hread m hm rfl
    · exact hapart m (List.mem_append_right _ hm) m hbuffer rfl
  · obtain ⟨i, hi⟩ : ∃ i, s.takes i = .copied := by simpa [Settled] using hsettled
    obtain ⟨hperm, hsub, -⟩ := h.held i hi
    have hnodup : (s.returned ++ s.fallen).Nodup := hperm.nodup_iff.mpr List.nodup_range
    obtain ⟨hreturned, -, hfallen⟩ := List.nodup_append.mp hnodup
    have hgone : ∀ m ∈ s.fallen, m ∉ s.returned := fun m hm hread => hfallen m hread m hm rfl
    refine ⟨fun m => ?_, hreturned, fun hs => absurd hi (hs i), fun m hm => ⟨hgone m hm, fun hb => hgone m hm (hsub hb)⟩,
      h.displaced⟩
    rw [← List.mem_range, ← hperm.mem_iff, List.mem_append]
    constructor
    · exact Or.imp_right .inr
    · rintro (hread | hbuffer | hm)
      · exact .inl hread
      · exact .inl (hsub hbuffer)
      · exact .inr hm

/-- The ledger only depends on the buffer, on what it records, and on the reads that stand before their clear. -/
lemma congr (h : s.Ledger size) (hbuffer : s'.buffer = s.buffer) (harrived : s'.arrived = s.arrived)
    (hreturned : s'.returned = s.returned) (hdisplaced : s'.displaced = s.displaced)
    (htakes : ∀ i, s'.takes i = .copied ↔ s.takes i = .copied) : s'.Ledger size := by
  have hfallen : s'.fallen = s.fallen := by rw [fallen, hdisplaced, fallen]
  refine ⟨?_, ?_, fun hsettled => ?_, fun i hi => ?_, ?_⟩
  · rw [hbuffer]
    exact h.ascending
  · rw [hbuffer]
    exact h.bound
  · rw [hbuffer, hreturned, hfallen, harrived]
    exact h.settled fun i hi => hsettled i ((htakes i).mpr hi)
  · obtain ⟨hall, hcopied, honly⟩ := h.held i ((htakes i).mp hi)
    refine ⟨?_, ?_, fun j hj => honly j ((htakes j).mp hj)⟩
    · rw [hreturned, hfallen, harrived]
      exact hall
    · rw [hbuffer, hreturned]
      exact hcopied
  · rw [hdisplaced]
    exact h.displaced

/-- What is buffered with the message that arrives, in a settled feed. -/
lemma extended_spec (h : s.Ledger size) (hsettled : s.Settled) :
    s.extended.Pairwise (· < ·) ∧ (∀ m ∈ s.extended, m ∉ s.returned) ∧
      (s.returned ++ s.fallen ++ s.extended).Perm (List.range (s.arrived + 1)) := by
  have hperm := h.settled hsettled
  have hconserved := h.conserved_of_ledger
  have hold : ∀ m, m ∈ s.returned ∨ m ∈ s.buffer ∨ m ∈ s.fallen → m < s.arrived := fun m => (hconserved.kept m).mpr
  refine ⟨?_, fun m hm => ?_, ?_⟩
  · rw [extended, List.pairwise_append]
    refine ⟨h.ascending, List.pairwise_singleton _ _, fun m hm n hn => ?_⟩
    rw [List.mem_singleton.mp hn]
    exact hold m (.inr (.inl hm))
  · obtain hm | hm := List.mem_append.mp hm
    · exact hconserved.unread hsettled m hm
    · intro hread
      rw [List.mem_singleton.mp hm] at hread
      exact absurd (hold _ (.inl hread)) (Nat.lt_irrefl _)
  · rw [extended, ← List.append_assoc, List.range_succ]
    exact hperm.append_right _

/-- A message arrives while nobody reads. -/
lemma append (h : s.Ledger size) (hsettled : s.Settled) (hbuffer : s'.buffer = (s.append size).buffer)
    (harrived : s'.arrived = s.arrived + 1) (hreturned : s'.returned = s.returned)
    (hdisplaced : s'.displaced = (s.append size).displaced) (htakes : s'.takes = s.takes) : s'.Ledger size := by
  obtain ⟨hascending, hunread, hperm⟩ := h.extended_spec hsettled
  have hlength : s.extended.length = s.buffer.length + 1 := List.length_append
  have hbound := h.bound
  have hheld : ∀ i, s'.takes i = .copied → s'.HeldBy i := fun i hi => absurd (htakes ▸ hi) (hsettled i)
  rw [FeedState.append] at hbuffer hdisplaced
  split at hbuffer
  next hfull =>
    have hsplit : s.extended.head s.extended_ne_nil :: s.extended.tail = s.extended := List.cons_head_tail _
    rw [if_pos hfull] at hdisplaced
    have hfallen : s'.fallen = s.fallen ++ [s.extended.head s.extended_ne_nil] := by simp [fallen, hdisplaced]
    refine ⟨?_, ?_, fun _ => ?_, hheld, fun d hd => ?_⟩
    · rw [hbuffer]
      exact hascending.tail
    · rw [hbuffer, List.length_tail]
      omega
    · have heq : s'.returned ++ s'.fallen ++ s'.buffer = s.returned ++ s.fallen ++ s.extended := by
        rw [hbuffer, hreturned, hfallen, ← List.append_assoc, List.append_assoc _ [_], List.singleton_append, hsplit]
      rw [heq, harrived]
      exact hperm
    · rw [hdisplaced] at hd
      obtain hd | hd := List.mem_append.mp hd
      · exact h.displaced d hd
      · rw [List.mem_singleton.mp hd]
        refine ⟨?_, fun m hm => ⟨?_, hunread m (List.mem_of_mem_tail hm)⟩⟩
        · rw [List.length_tail]
          omega
        · rw [← hsplit] at hascending
          exact List.rel_of_pairwise_cons hascending hm
  next hroom =>
    rw [if_neg hroom] at hdisplaced
    refine ⟨?_, ?_, fun _ => ?_, hheld, ?_⟩
    · rw [hbuffer]
      exact hascending
    · rw [hbuffer]
      exact Nat.le_of_not_lt hroom
    · rw [hbuffer, hreturned, fallen, hdisplaced, harrived]
      exact hperm
    · rw [hdisplaced]
      exact h.displaced

variable [DecidableEq ι]

/-- One step. -/
lemma step {a : FeedAction ι} (h : s.Ledger size) (undivided : s.Undivided a) (taken : s.step size a = some s') :
    s'.Ledger size := by
  cases a with
  | append =>
    obtain ⟨-, rfl⟩ := of_guard taken
    exact h.append undivided rfl rfl (append_returned size s) rfl (append_takes size s)
  | copy i =>
    obtain ⟨-, rfl⟩ := of_guard taken
    have hsettled : s.Settled := undivided
    refine ⟨h.ascending, h.bound, fun hs => absurd (Function.update_self i _ _) (hs i), fun j hj => ?_, h.displaced⟩
    have hother : ∀ k, Function.update s.takes i .copied k = .copied → k = i := by
      intro k hk
      by_contra hne
      rw [Function.update_of_ne hne] at hk
      exact hsettled k hk
    rw [hother j hj]
    refine ⟨?_, List.subset_append_right _ _, hother⟩
    have hswap : (s.returned ++ s.buffer ++ s.fallen).Perm (s.returned ++ s.fallen ++ s.buffer) := by
      rw [List.append_assoc, List.append_assoc]
      exact List.perm_append_comm.append_left _
    exact hswap.trans (h.settled hsettled)
  | clear i =>
    obtain ⟨hcopied, rfl⟩ := of_guard taken
    obtain ⟨hall, -, honly⟩ := h.held i hcopied
    refine ⟨.nil, Nat.zero_le _, fun _ => ?_, fun j hj => ?_, h.displaced⟩
    · simpa [fallen] using hall
    · have hne : j ≠ i := by
        rintro rfl
        simp at hj
      have hj : s.takes j = .copied := by simpa [hne] using hj
      exact absurd (honly j hj) hne
  | resetLatch i =>
    obtain ⟨hcleared, rfl⟩ := of_guard taken
    refine h.congr rfl rfl rfl rfl fun j => ?_
    by_cases hne : j = i
    · simp [hne, hcleared]
    · simp [hne]
  | testLatch | setLatch | readChannel | emit | subscribe | leave =>
    obtain ⟨-, rfl⟩ := of_guard taken
    exact h.congr rfl rfl rfl rfl fun _ => .rfl
  | outbound =>
    cases taken
    exact h.congr rfl rfl rfl rfl fun _ => .rfl

end Ledger

/-! ## What a run keeps -/

variable [DecidableEq ι]

end FeedState

end Oxbrook
