import Mathlib.Data.List.Sort
import Mathlib.Order.BoundedOrder.Basic

/-!
# Logs with ascending keys

A log whose entries carry strictly increasing keys, as an append-only stream gives them out.
`between lo hi log` is the stretch of a log after `lo` and up to `hi`; a reader that has seen the
log up to `hi` has seen exactly this list, and `between_advance` says what one more entry adds.
-/

namespace StepMachine

variable {β ι : Type*} [LinearOrder ι] {key : β → ι} {log log' : List β} {a b : β} {lo hi : ι}

/-- The keys of the log strictly increase. -/
def Ascending (key : β → ι) (log : List β) : Prop :=
  log.Pairwise fun a b => key a < key b

namespace Ascending

lemma sublist (h : Ascending key log) (hsub : log'.Sublist log) : Ascending key log' :=
  List.Pairwise.sublist hsub h

/-- A larger key may be appended. -/
lemma append_singleton (h : Ascending key log) (hb : ∀ a ∈ log, key a < key b) :
    Ascending key (log ++ [b]) := by
  refine List.pairwise_append.mpr ⟨h, List.pairwise_singleton _ _, ?_⟩
  intro a ha c hc
  rw [List.mem_singleton.mp hc]
  exact hb a ha

lemma nodup_keys (h : Ascending key log) : (log.map key).Nodup :=
  List.pairwise_map.mpr (h.imp fun hlt => hlt.ne)

/-- A key determines its entry. -/
lemma eq_of_key_eq (h : Ascending key log) (ha : a ∈ log) (hb : b ∈ log) (hkey : key a = key b) :
    a = b :=
  List.inj_on_of_nodup_map h.nodup_keys ha hb hkey

/-- An entry of the log is among the first `n` or comes after all of them. -/
lemma mem_take_or_lt (h : Ascending key log) (ha : a ∈ log) (n : ℕ) :
    a ∈ log.take n ∨ ∀ b ∈ log.take n, key b < key a := by
  rw [← List.take_append_drop n log] at ha h
  rcases List.mem_append.mp ha with hfirst | hlater
  · exact .inl hfirst
  · right
    intro b hb
    exact (List.pairwise_append.mp h).2.2 b hb a hlater

end Ascending

/-- In a list without repeated keys a key is counted at most once. -/
lemma countP_key_le_one (h : (log.map key).Nodup) (k : ι) :
    (log.countP fun a => decide (key a = k)) ≤ 1 := by
  have hcount := List.nodup_iff_count_le_one.mp h k
  rw [List.count, List.countP_map] at hcount
  exact hcount

/-- The entries after `lo` and up to `hi`. -/
def between (key : β → ι) (lo hi : ι) (log : List β) : List β :=
  log.filter fun a => decide (lo < key a) && decide (key a ≤ hi)

lemma mem_between : a ∈ between key lo hi log ↔ a ∈ log ∧ lo < key a ∧ key a ≤ hi := by
  simp [between, List.mem_filter]

/-- Nothing lies between a key and itself. -/
lemma between_self (key : β → ι) (lo : ι) (log : List β) : between key lo lo log = [] := by
  refine List.filter_eq_nil_iff.mpr fun a _ => ?_
  simp only [Bool.and_eq_true, decide_eq_true_eq, not_and, not_le]
  exact id

/-- An entry outside the stretch adds nothing to it. -/
lemma between_append_of_lt (hb : key b ≤ lo ∨ hi < key b) :
    between key lo hi (log ++ [b]) = between key lo hi log := by
  have hout : ¬ (lo < key b ∧ key b ≤ hi) := by
    rintro ⟨hlo, hhi⟩
    rcases hb with hb | hb
    · exact absurd hlo (not_lt.mpr hb)
    · exact absurd hhi (not_le.mpr hb)
  rw [between, List.filter_append, List.filter_cons_of_neg (by simpa using hout), List.filter_nil,
    List.append_nil, between]

/-- Reading on to the next entry after `hi` adds just this entry. -/
lemma between_advance (h : Ascending key log) (ha : a ∈ log) (hlo : lo ≤ hi) (hhi : hi < key a)
    (hnext : ∀ b ∈ log, hi < key b → key a ≤ key b) :
    between key lo (key a) log = between key lo hi log ++ [a] := by
  obtain ⟨before, rest, rfl⟩ := List.append_of_mem ha
  obtain ⟨-, hrest, hcross⟩ := List.pairwise_append.mp h
  have hbefore : ∀ b ∈ before, key b ≤ hi := by
    intro b hb
    by_contra hlt
    have hle := hnext b (List.mem_append_left _ hb) (not_le.mp hlt)
    exact absurd (hcross b hb a List.mem_cons_self) (not_lt.mpr hle)
  have hafter : ∀ b ∈ rest, key a < key b := (List.pairwise_cons.mp hrest).1
  have hfilter_rest (hi' : ι) (hle : hi' ≤ key a) :
      rest.filter (fun b => decide (lo < key b) && decide (key b ≤ hi')) = [] := by
    refine List.filter_eq_nil_iff.mpr fun b hb => ?_
    simp only [Bool.and_eq_true, decide_eq_true_eq, not_and, not_le]
    intro _
    exact hle.trans_lt (hafter b hb)
  have hfilter_before :
      before.filter (fun b => decide (lo < key b) && decide (key b ≤ key a)) =
        before.filter (fun b => decide (lo < key b) && decide (key b ≤ hi)) := by
    refine List.filter_congr fun b hb => ?_
    simp [hbefore b hb, (hbefore b hb).trans hhi.le]
  rw [between, between, List.filter_append, List.filter_append, hfilter_before,
    List.filter_cons_of_pos (by simp [hlo.trans_lt hhi]), List.filter_cons_of_neg (by simp [hhi]),
    hfilter_rest _ le_rfl, hfilter_rest _ hhi.le, List.append_nil]

/-- A stretch that starts at `lo` is a prefix of everything after `lo`. -/
lemma between_prefix_filter (h : Ascending key log) (lo hi : ι) :
    between key lo hi log <+: log.filter fun a => decide (lo < key a) := by
  induction log with
  | nil => exact List.prefix_rfl
  | cons a rest ih =>
    have hrest := ih (List.Pairwise.of_cons h)
    have hafter : ∀ b ∈ rest, key a < key b := (List.pairwise_cons.mp h).1
    by_cases hlo : lo < key a
    · by_cases hhi : key a ≤ hi
      · rw [between, List.filter_cons_of_pos (by simp [hlo, hhi]),
          List.filter_cons_of_pos (by simp [hlo])]
        exact (List.prefix_cons_inj a).mpr hrest
      · have hnil : between key lo hi (a :: rest) = [] := by
          refine List.filter_eq_nil_iff.mpr fun b hb => ?_
          simp only [Bool.and_eq_true, decide_eq_true_eq, not_and, not_le]
          intro _
          rcases List.mem_cons.mp hb with rfl | hb
          · exact not_le.mp hhi
          · exact (not_le.mp hhi).trans (hafter b hb)
        rw [hnil]
        exact List.nil_prefix
    · rw [between, List.filter_cons_of_neg (by simp [hlo]), List.filter_cons_of_neg (by simp [hlo])]
      exact hrest

end StepMachine
