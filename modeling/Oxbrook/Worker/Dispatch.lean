import Mathlib.Algebra.Group.Nat.Defs
import Mathlib.Data.Finset.Card
import Oxbrook.Foundation.Runs
import Oxbrook.Worker.Queue

/-!
# Handing a request to a worker

`enqueue` of `src/server.rs`: a scan for the least loaded worker, which begins at a rotating offset, and a walk from
there to the first that has room.  The counter that gives the offset and the sum of both are numbers of `bits` bits and
wrap around.

`enqueue` is the function with nothing else running.  `Dispatch` takes it apart into its single atomic operations, run
for any number of requests at once among the operations of the workers; `exec_alone` says that a request that runs alone
gets what `enqueue` says.

`least_loaded_iff` says for which offsets the scan finds a least loaded worker, and that a request is never in two
queues.
-/

namespace Oxbrook

open StepMachine

/-! ## With nothing else running -/

section Alone

variable (bits count : ℕ)

/-- `(rotation + offset) % count` -/
def scanIndex (rotation offset : ℕ) : ℕ := (rotation + offset) % 2 ^ bits % count

/-- `(start + offset) % count` -/
def placeIndex (start offset : ℕ) : ℕ := (start + offset) % count

/-- What the scan has found: where to start, and the load there. -/
structure Scan where
  start : ℕ
  lightest : ℤ
  deriving DecidableEq

/-- Before the first worker is looked at. -/
def Scan.first (rotation : ℕ) : Scan := ⟨rotation % count, 2 ^ bits - 1⟩

/-- A worker is looked at. -/
def Scan.look (scan : Scan) (idx : ℕ) (load : ℤ) : Scan := if load < scan.lightest then ⟨idx, load⟩ else scan

/-- The scan stops at a worker that is idle. -/
def Scan.stopsAt (scan : Scan) (load : ℤ) : Bool := load < scan.lightest && load = 0

/-- The loop over the offsets that are left. -/
def scanFrom (loads : ℕ → ℤ) (rotation offset : ℕ) (scan : Scan) : ℕ → Scan
  | 0 => scan
  | left + 1 =>
    let idx := scanIndex bits count rotation offset
    let next := scan.look idx (loads idx)
    if scan.stopsAt (loads idx) then next else scanFrom loads rotation (offset + 1) next left

variable {ρ κ χ : Type*}

/-- The second loop: the first worker that takes the request. -/
def placeFrom (workers : ℕ → WorkerQueue ρ κ χ) (item : ρ) (now start offset : ℕ) :
    ℕ → Option ℕ × (ℕ → WorkerQueue ρ κ χ)
  | 0 => (none, workers)
  | left + 1 =>
    let idx := placeIndex count start offset
    match (workers idx).tryPush item now with
    | some wq => (some idx, Function.update workers idx wq)
    | none => placeFrom workers item now start (offset + 1) left

/-- `enqueue`: the worker that takes the request, and the workers. -/
def enqueue (workers : ℕ → WorkerQueue ρ κ χ) (rotation : ℕ) (item : ρ) (now : ℕ) :
    Option ℕ × (ℕ → WorkerQueue ρ κ χ) :=
  let scan := scanFrom bits count (fun idx => (workers idx).load) rotation 0 (.first bits count rotation) count
  placeFrom count workers item now scan.start 0 count

end Alone

/-! ## What is asked of it -/

/-- A request goes to the first worker with room, from a least loaded one on, or to none if none has room. -/
structure LeastLoaded {ρ κ χ : Type*} (count : ℕ) (workers : ℕ → WorkerQueue ρ κ χ) (item : ρ) (now : ℕ)
    (result : Option ℕ × (ℕ → WorkerQueue ρ κ χ)) : Prop where
  pushed : ∀ idx, result.1 = some idx → idx < count ∧ (workers idx).tryPush item now = some (result.2 idx) ∧
    (∀ other, other ≠ idx → result.2 other = workers other) ∧
    ∃ lightest < count, (∀ other < count, (workers lightest).load ≤ (workers other).load) ∧
      ∃ offset < count, placeIndex count lightest offset = idx ∧
        ∀ before < offset, (workers (placeIndex count lightest before)).hasRoom = false
  shed : result.1 = none ↔ ∀ idx < count, (workers idx).hasRoom = false
  kept : result.1 = none → result.2 = workers

/-- The loads of the workers are numbers of `bits` bits. -/
def LoadsFit {ρ κ χ : Type*} (bits count : ℕ) (workers : ℕ → WorkerQueue ρ κ χ) : Prop :=
  ∀ idx < count, 0 ≤ (workers idx).load ∧ (workers idx).load < 2 ^ bits

section Alone

variable {bits count rotation : ℕ}

/-! ## The two loops -/

lemma placeIndex_lt (hcount : 0 < count) (start offset : ℕ) : placeIndex count start offset < count :=
  Nat.mod_lt _ hcount

/-- From any start, the walk comes to every worker. -/
lemma exists_placeIndex (start : ℕ) {idx : ℕ} (hidx : idx < count) :
    ∃ offset < count, placeIndex count start offset = idx := by
  have hpos : 0 < count := Nat.zero_lt_of_lt hidx
  have hstart := Nat.mod_lt start hpos
  unfold placeIndex
  by_cases hle : start % count ≤ idx
  · refine ⟨idx - start % count, by omega, ?_⟩
    rw [Nat.add_mod, Nat.mod_eq_of_lt (by omega : idx - start % count < count), Nat.add_sub_cancel' hle,
      Nat.mod_eq_of_lt hidx]
  · refine ⟨count + idx - start % count, by omega, ?_⟩
    have hsum : start % count + (count + idx - start % count) = idx + count := by omega
    rw [Nat.add_mod, Nat.mod_eq_of_lt (by omega : count + idx - start % count < count), hsum, Nat.add_mod_right,
      Nat.mod_eq_of_lt hidx]

section Place

variable {ρ κ χ : Type*} {workers : ℕ → WorkerQueue ρ κ χ} {item : ρ} {now start : ℕ}

lemma tryPush_eq_none {wq : WorkerQueue ρ κ χ} : wq.tryPush item now = none ↔ wq.hasRoom = false := by
  unfold WorkerQueue.tryPush
  cases wq.hasRoom <;> simp

/-- The second loop, over the offsets that are left. -/
lemma placeFrom_spec (count : ℕ) (workers : ℕ → WorkerQueue ρ κ χ) (item : ρ) (now start left offset : ℕ) :
    (∀ idx, (placeFrom count workers item now start offset left).1 = some idx → ∃ k < left,
      placeIndex count start (offset + k) = idx ∧
      (workers idx).tryPush item now = some ((placeFrom count workers item now start offset left).2 idx) ∧
      (∀ other, other ≠ idx → (placeFrom count workers item now start offset left).2 other = workers other) ∧
      ∀ before < k, (workers (placeIndex count start (offset + before))).hasRoom = false) ∧
    ((placeFrom count workers item now start offset left).1 = none →
      (∀ k < left, (workers (placeIndex count start (offset + k))).hasRoom = false) ∧
        (placeFrom count workers item now start offset left).2 = workers) := by
  induction left generalizing offset with
  | zero => exact ⟨nofun, fun _ => ⟨nofun, rfl⟩⟩
  | succ left ih =>
    obtain ⟨hsome, hnone⟩ := ih (offset + 1)
    cases hpush : (workers (placeIndex count start offset)).tryPush item now with
    | some wq =>
      have hresult : placeFrom count workers item now start offset (left + 1) =
          (some (placeIndex count start offset), Function.update workers (placeIndex count start offset) wq) := by
        simp only [placeFrom, hpush]
      rw [hresult]
      constructor
      · intro idx hidx
        obtain rfl := Option.some.inj hidx
        refine ⟨0, Nat.succ_pos _, rfl, ?_, fun other hne => Function.update_of_ne hne _ _, nofun⟩
        dsimp only
        rw [Function.update_self]
        exact hpush
      · exact nofun
    | none =>
      have hresult : placeFrom count workers item now start offset (left + 1) =
          placeFrom count workers item now start (offset + 1) left := by
        simp only [placeFrom, hpush]
      have hfull := tryPush_eq_none.mp hpush
      have hshift : ∀ {P : ℕ → Prop} {k : ℕ}, P offset → (∀ before < k, P (offset + 1 + before)) →
          ∀ before < k + 1, P (offset + before) := by
        intro P k hzero hall before hbefore
        cases before with
        | zero => exact hzero
        | succ before =>
          have hlater := hall before (by omega)
          rw [show offset + (before + 1) = offset + 1 + before by omega]
          exact hlater
      rw [hresult]
      constructor
      · intro idx hidx
        obtain ⟨k, hk, hindex, htry, hothers, hbefore⟩ := hsome idx hidx
        refine ⟨k + 1, by omega, ?_, htry, hothers, ?_⟩
        · rw [← hindex, show offset + (k + 1) = offset + 1 + k by omega]
        · exact hshift (P := fun m => (workers (placeIndex count start m)).hasRoom = false) hfull hbefore
      · intro hshed
        obtain ⟨hall, hkept⟩ := hnone hshed
        exact ⟨hshift (P := fun m => (workers (placeIndex count start m)).hasRoom = false) hfull hall, hkept⟩

end Place

lemma scanFrom_succ (loads : ℕ → ℤ) (rotation offset : ℕ) (scan : Scan) (left : ℕ) :
    scanFrom bits count loads rotation offset scan (left + 1) =
      if scan.stopsAt (loads (scanIndex bits count rotation offset)) then
        scan.look (scanIndex bits count rotation offset) (loads (scanIndex bits count rotation offset))
      else scanFrom bits count loads rotation (offset + 1)
        (scan.look (scanIndex bits count rotation offset) (loads (scanIndex bits count rotation offset))) left := rfl

/-- The first loop, over the offsets that are left. -/
lemma scanFrom_spec (bits rotation : ℕ) {loads : ℕ → ℤ} (hcount : 0 < count) (nonneg : ∀ idx < count, 0 ≤ loads idx)
    (left offset : ℕ) (scan : Scan) :
    (scanFrom bits count loads rotation offset scan left).lightest ≤ scan.lightest ∧
    (∀ k < left, (scanFrom bits count loads rotation offset scan left).lightest ≤
      loads (scanIndex bits count rotation (offset + k))) ∧
    (scanFrom bits count loads rotation offset scan left = scan ∨ ∃ k < left,
      (scanFrom bits count loads rotation offset scan left).start = scanIndex bits count rotation (offset + k) ∧
      (scanFrom bits count loads rotation offset scan left).lightest =
        loads (scanIndex bits count rotation (offset + k))) := by
  induction left generalizing offset scan with
  | zero => exact ⟨le_rfl, nofun, .inl rfl⟩
  | succ left ih =>
    have hindex : ∀ k, scanIndex bits count rotation k < count := fun k => Nat.mod_lt _ hcount
    obtain ⟨idx, hidx⟩ : ∃ idx, idx = scanIndex bits count rotation offset := ⟨_, rfl⟩
    have hfirst : scanIndex bits count rotation (offset + 0) = idx := hidx.symm
    have hnext : (scan.look idx (loads idx)).lightest ≤ scan.lightest ∧
        (scan.look idx (loads idx)).lightest ≤ loads idx ∧
        (scan.look idx (loads idx) = scan ∨ scan.look idx (loads idx) = ⟨idx, loads idx⟩) := by
      unfold Scan.look
      split
      · rename_i hlt
        exact ⟨hlt.le, le_rfl, .inr rfl⟩
      · rename_i hle
        exact ⟨le_rfl, not_lt.mp hle, .inl rfl⟩
    have hhere : scan.look idx (loads idx) = scan ∨ ∃ k < left + 1,
        (scan.look idx (loads idx)).start = scanIndex bits count rotation (offset + k) ∧
        (scan.look idx (loads idx)).lightest = loads (scanIndex bits count rotation (offset + k)) := by
      rcases hnext.2.2 with hsame | hlook
      · exact .inl hsame
      · refine .inr ⟨0, Nat.succ_pos _, ?_⟩
        rw [hlook, hfirst]
        exact ⟨rfl, rfl⟩
    rw [scanFrom_succ, ← hidx]
    cases hstop : scan.stopsAt (loads idx) with
    | true =>
      rw [if_pos rfl]
      have hzero : loads idx = 0 := by
        unfold Scan.stopsAt at hstop
        rw [Bool.and_eq_true, decide_eq_true_eq, decide_eq_true_eq] at hstop
        exact hstop.2
      exact ⟨hnext.1, fun k _ => (hnext.2.1.trans hzero.le).trans (nonneg _ (hindex _)), hhere⟩
    | false =>
      rw [if_neg Bool.false_ne_true]
      obtain ⟨hle, hall, hend⟩ := ih (offset + 1) (scan.look idx (loads idx))
      refine ⟨hle.trans hnext.1, fun k hk => ?_, ?_⟩
      · cases k with
        | zero =>
          rw [hfirst]
          exact hle.trans hnext.2.1
        | succ k =>
          rw [show offset + (k + 1) = offset + 1 + k by omega]
          exact hall k (by omega)
      · rcases hend with hsame | ⟨k, hk, hstart, hlightest⟩
        · rw [hsame]
          exact hhere
        · refine .inr ⟨k + 1, by omega, ?_⟩
          rw [show offset + (k + 1) = offset + 1 + k by omega]
          exact ⟨hstart, hlightest⟩

/-! ## Which offsets are scanned -/

/-- The scan looks at every worker. -/
def ScansAll (bits count rotation : ℕ) : Prop :=
  ∀ idx < count, ∃ offset < count, scanIndex bits count rotation offset = idx

lemma scansAll_of (h : rotation + count ≤ 2 ^ bits ∨ count ∣ 2 ^ bits) : ScansAll bits count rotation := by
  intro idx hidx
  obtain ⟨offset, hoffset, hplace⟩ := exists_placeIndex rotation hidx
  refine ⟨offset, hoffset, ?_⟩
  rw [← hplace]
  unfold scanIndex placeIndex
  rcases h with hsmall | hdvd
  · rw [Nat.mod_eq_of_lt (by omega : rotation + offset < 2 ^ bits)]
  · exact Nat.mod_mod_of_dvd _ hdvd

/-- A scan that wraps around comes to one worker twice, unless the number of workers divides that of the offsets. -/
lemma exists_scanned_twice (hrotation : rotation < 2 ^ bits) (hbits : count ≤ 2 ^ bits)
    (hwrap : 2 ^ bits < rotation + count) (hdvd : ¬ count ∣ 2 ^ bits) : ∃ j < count, ∃ k < count, j ≠ k ∧
      scanIndex bits count rotation j = scanIndex bits count rotation k := by
  have hpos : 0 < count := by omega
  have hbefore : ∀ j, rotation + j < 2 ^ bits → scanIndex bits count rotation j = (rotation % count + j) % count := by
    intro j hj
    unfold scanIndex
    rw [Nat.mod_eq_of_lt hj, Nat.mod_add_mod]
  have hafter : ∀ j < count, scanIndex bits count rotation (2 ^ bits - rotation + j) = j := by
    intro j hj
    have hsum : rotation + (2 ^ bits - rotation + j) = j + 2 ^ bits := by omega
    unfold scanIndex
    rw [hsum, Nat.add_mod_right, Nat.mod_eq_of_lt (by omega : j < 2 ^ bits), Nat.mod_eq_of_lt hj]
  obtain ⟨k, hk⟩ : ∃ k, k = 2 ^ bits - rotation := ⟨_, rfl⟩
  have hr := Nat.mod_lt rotation hpos
  rw [← hk] at hafter
  rcases Nat.lt_trichotomy (rotation % count + k) count with hlt | heq | hgt
  · refine ⟨0, hpos, k + rotation % count, by omega, by omega, ?_⟩
    rw [hbefore 0 (by omega), hafter _ hr, Nat.add_zero, Nat.mod_eq_of_lt hr]
  · exfalso
    apply hdvd
    have hpow : 2 ^ bits = rotation + k := by omega
    rw [hpow, Nat.dvd_iff_mod_eq_zero, Nat.add_mod, Nat.mod_eq_of_lt (by omega : k < count), heq, Nat.mod_self]
  · refine ⟨count - rotation % count, by omega, k, by omega, by omega, ?_⟩
    have hzero := hafter 0 hpos
    rw [Nat.add_zero] at hzero
    rw [hzero, hbefore _ (by omega), Nat.add_sub_cancel' hr.le, Nat.mod_self]

/-- So it leaves a worker out. -/
lemma exists_not_scanned (hrotation : rotation < 2 ^ bits) (hbits : count ≤ 2 ^ bits)
    (hwrap : 2 ^ bits < rotation + count) (hdvd : ¬ count ∣ 2 ^ bits) :
    ∃ idx < count, ∀ offset < count, scanIndex bits count rotation offset ≠ idx := by
  have hpos : 0 < count := by omega
  obtain ⟨j, hj, k, hk, hne, hsame⟩ := exists_scanned_twice hrotation hbits hwrap hdvd
  have hcard : ((Finset.range count).image (scanIndex bits count rotation)).card < (Finset.range count).card := by
    refine lt_of_le_of_ne Finset.card_image_le fun heq => hne ?_
    exact Finset.card_image_iff.mp heq (Finset.mem_coe.mpr (Finset.mem_range.mpr hj))
      (Finset.mem_coe.mpr (Finset.mem_range.mpr hk)) hsame
  obtain ⟨idx, hidx, hnot⟩ := Finset.exists_mem_notMem_of_card_lt_card hcard
  refine ⟨idx, Finset.mem_range.mp hidx, fun offset hoffset heq => hnot ?_⟩
  exact Finset.mem_image.mpr ⟨offset, Finset.mem_range.mpr hoffset, heq⟩

section Enqueued

variable {ρ κ χ : Type*} {workers : ℕ → WorkerQueue ρ κ χ} {item : ρ} {now : ℕ}

/-- A worker has room for a request or not, wherever the scan ended. -/
lemma shed_iff (start : ℕ) : (placeFrom count workers item now start 0 count).1 = none ↔
    ∀ idx < count, (workers idx).hasRoom = false := by
  obtain ⟨hsome, hnone⟩ := placeFrom_spec count workers item now start count 0
  constructor
  · intro hshed idx hidx
    obtain ⟨offset, hoffset, rfl⟩ := exists_placeIndex start hidx
    have hfull := (hnone hshed).1 offset hoffset
    rwa [Nat.zero_add] at hfull
  · intro hfull
    cases hplaced : (placeFrom count workers item now start 0 count).1 with
    | none => rfl
    | some idx =>
      obtain ⟨k, hk, hindex, htry, -⟩ := hsome idx hplaced
      have hnot := hfull idx (hindex ▸ placeIndex_lt (Nat.zero_lt_of_lt hk) start _)
      rw [tryPush_eq_none.mpr hnot] at htry
      cases htry

/-- A worker with room takes the request that begins with it. -/
lemma placed_at_start {start : ℕ} (hstart : start < count) (hroom : (workers start).hasRoom = true) :
    (placeFrom count workers item now start 0 count).1 = some start := by
  obtain ⟨left, rfl⟩ := Nat.exists_eq_succ_of_ne_zero (Nat.ne_zero_of_lt hstart)
  have hindex : placeIndex (left + 1) start 0 = start := Nat.mod_eq_of_lt hstart
  unfold placeFrom WorkerQueue.tryPush
  simp only [hindex, hroom, if_true]

/-- Where the scan looks at every worker, it starts at a least loaded one. -/
lemma leastLoaded_of_scansAll (hcount : 0 < count) (hscan : ScansAll bits count rotation)
    (fit : LoadsFit bits count workers) :
    LeastLoaded count workers item now (enqueue bits count workers rotation item now) := by
  obtain ⟨scan, hdef⟩ : ∃ scan, scan =
      scanFrom bits count (fun idx => (workers idx).load) rotation 0 (.first bits count rotation) count := ⟨_, rfl⟩
  obtain ⟨-, hall, hend⟩ := scanFrom_spec bits rotation hcount (fun idx h => (fit idx h).1) count 0
    (.first bits count rotation)
  rw [← hdef] at hall hend
  have hlightest : ∀ other < count, scan.lightest ≤ (workers other).load := by
    intro other hother
    obtain ⟨k, hk, rfl⟩ := hscan other hother
    have hle := hall k hk
    rwa [Nat.zero_add] at hle
  have hstart : scan.start < count ∧ ∀ other < count, (workers scan.start).load ≤ (workers other).load := by
    rcases hend with hfirst | ⟨k, hk, hstart, hload⟩
    · have hlt : scan.start < count := by
        rw [hfirst]
        exact Nat.mod_lt _ hcount
      refine ⟨hlt, fun other hother => le_trans ?_ (hlightest other hother)⟩
      have hbound := (fit scan.start hlt).2
      rw [hfirst] at hbound ⊢
      exact Int.le_sub_one_of_lt hbound
    · refine ⟨hstart ▸ Nat.mod_lt _ hcount, fun other hother => ?_⟩
      rw [hstart, ← hload]
      exact hlightest other hother
  have henqueue : enqueue bits count workers rotation item now =
      placeFrom count workers item now scan.start 0 count := by
    rw [hdef]
    rfl
  obtain ⟨hsome, hnone⟩ := placeFrom_spec count workers item now scan.start count 0
  rw [henqueue]
  refine ⟨fun idx hidx => ?_, shed_iff scan.start, fun hshed => (hnone hshed).2⟩
  obtain ⟨k, hk, hindex, htry, hothers, hbefore⟩ := hsome idx hidx
  simp only [Nat.zero_add] at hindex hbefore
  exact ⟨hindex ▸ placeIndex_lt hcount _ _, htry, hothers, scan.start, hstart.1, hstart.2, k, hk, hindex, hbefore⟩

/-- An idle worker among others that are not. -/
def oneIdle (idle idx : ℕ) : WorkerQueue ρ κ χ :=
  { WorkerQueue.new ⟨0, 1, Nat.one_pos⟩ 2 with inflight := if idx = idle then 0 else 1 }

lemma load_oneIdle (idle idx : ℕ) : (oneIdle idle idx : WorkerQueue ρ κ χ).load = if idx = idle then 0 else 1 := by
  simp [oneIdle, WorkerQueue.load, WorkerQueue.new]

lemma hasRoom_oneIdle (idle idx : ℕ) : (oneIdle idle idx : WorkerQueue ρ κ χ).hasRoom = true := by
  have hlimit : (oneIdle idle idx : WorkerQueue ρ κ χ).limit = 2 := rfl
  unfold WorkerQueue.hasRoom
  rw [load_oneIdle, hlimit]
  split <;> rfl

lemma loadsFit_oneIdle (hbits : 1 < 2 ^ bits) (idle : ℕ) :
    LoadsFit bits count (oneIdle idle : ℕ → WorkerQueue ρ κ χ) := by
  intro idx _
  have hone : (1 : ℤ) < 2 ^ bits := by exact_mod_cast hbits
  rw [load_oneIdle]
  split <;> omega

/-- Where the scan leaves a worker out, that may be the only one that is idle. -/
lemma not_leastLoaded (hrotation : rotation < 2 ^ bits) (hcount : 0 < count) {idle : ℕ} (hidle : idle < count)
    (hnot : ∀ offset < count, scanIndex bits count rotation offset ≠ idle) :
    ¬ LeastLoaded count (oneIdle idle : ℕ → WorkerQueue ρ κ χ) item now
      (enqueue bits count (oneIdle idle) rotation item now) := by
  intro h
  obtain ⟨scan, hdef⟩ : ∃ scan, scan = scanFrom bits count
      (fun idx => (oneIdle idle idx : WorkerQueue ρ κ χ).load) rotation 0 (.first bits count rotation) count := ⟨_, rfl⟩
  have hstart : scan.start < count ∧ scan.start ≠ idle := by
    have nonneg : ∀ idx < count, 0 ≤ (oneIdle idle idx : WorkerQueue ρ κ χ).load := by
      intro idx _
      rw [load_oneIdle]
      split <;> decide
    obtain ⟨-, -, hend⟩ := scanFrom_spec bits rotation hcount nonneg count 0 (.first bits count rotation)
    rw [← hdef] at hend
    rcases hend with hfirst | ⟨k, hk, hindex, -⟩
    · have hzero : scanIndex bits count rotation 0 = scan.start := by
        rw [hfirst]
        unfold scanIndex
        rw [Nat.add_zero, Nat.mod_eq_of_lt hrotation]
        rfl
      exact ⟨hzero ▸ Nat.mod_lt _ hcount, hzero ▸ hnot 0 hcount⟩
    · rw [Nat.zero_add] at hindex
      exact ⟨hindex ▸ Nat.mod_lt _ hcount, hindex ▸ hnot k hk⟩
  have htaken : (enqueue bits count (oneIdle idle : ℕ → WorkerQueue ρ κ χ) rotation item now).1 = some scan.start := by
    rw [hdef] at hstart ⊢
    exact placed_at_start hstart.1 (hasRoom_oneIdle _ _)
  obtain ⟨-, -, -, lightest, hlightest, hleast, offset, -, hplace, hbefore⟩ := h.pushed scan.start htaken
  have hsame : lightest = idle := by
    have hload := hleast idle hidle
    rw [load_oneIdle, load_oneIdle, if_pos rfl] at hload
    by_contra hne
    rw [if_neg hne] at hload
    exact absurd hload (by decide)
  subst hsame
  cases offset with
  | zero =>
    rw [placeIndex, Nat.add_zero, Nat.mod_eq_of_lt hlightest] at hplace
    exact hstart.2 hplace.symm
  | succ offset =>
    have hfull := hbefore 0 (Nat.succ_pos _)
    rw [hasRoom_oneIdle] at hfull
    cases hfull

end Enqueued

end Alone

/-! ## Among other operations -/

section Concurrent

variable {ι κ χ : Type*}

/-- Where a request stands in `enqueue`. -/
inductive EnqueuePc
  | idle
  /-- The queue of the next worker of the scan is about to be counted. -/
  | scanning (rotation offset : ℕ) (scan : Scan)
  /-- Its queue was counted, and what is in flight is about to be. -/
  | scanned (rotation offset : ℕ) (scan : Scan) (queued : ℕ)
  | trying (start offset : ℕ)
  | tried (start offset queued : ℕ)
  /-- The worker has room. -/
  | pushing (start offset : ℕ)
  | waking (worker : ℕ)
  | answered (worker : Option ℕ)
  deriving DecidableEq

/-- The worker that has been given the request. -/
def EnqueuePc.given : EnqueuePc → Option ℕ
  | .waking worker => some worker
  | .answered worker => worker
  | _ => none

/-- The operations of a worker, and of other producers, that leave its requests alone. -/
inductive QueueOp (κ χ : Type*)
  | claim
  | release
  | clearNotified
  | wake (now : ℕ)
  | pushWakeup (callback : κ) (now : ℕ)
  | pushCancel (cell : χ) (now : ℕ)

def QueueOp.perform {ρ : Type*} (wq : WorkerQueue ρ κ χ) : QueueOp κ χ → WorkerQueue ρ κ χ
  | .claim => wq.claim
  | .release => wq.release
  | .clearNotified => wq.clearNotified
  | .wake now => wq.wake now
  | .pushWakeup callback now => wq.pushWakeup callback now
  | .pushCancel cell now => wq.pushCancel cell now

/-- The workers, the counter, where each request stands, and the requests that workers have taken. -/
structure Dispatch (ι κ χ : Type*) where
  workers : ℕ → WorkerQueue ι κ χ
  nextWorker : ℕ
  pc : ι → EnqueuePc
  taken : List ι

inductive DispatchAct (ι κ χ : Type*)
  | call (r : ι)
  | go (r : ι) (now : ℕ)
  | pop (worker : ℕ)
  | other (worker : ℕ) (op : QueueOp κ χ)

namespace Dispatch

/-- After a worker was looked at. -/
def afterLook (bits count rotation offset : ℕ) (scan : Scan) (load : ℤ) : EnqueuePc :=
  let next := scan.look (scanIndex bits count rotation offset) load
  if scan.stopsAt load || offset + 1 = count then .trying next.start 0 else .scanning rotation (offset + 1) next

/-- After `has_room`. -/
def afterTry (count start offset : ℕ) (hasRoom : Bool) : EnqueuePc :=
  if hasRoom then .pushing start offset
  else if offset + 1 = count then .answered none
  else .trying start (offset + 1)

variable [DecidableEq ι]

def setPc (s : Dispatch ι κ χ) (r : ι) (pc : EnqueuePc) : Dispatch ι κ χ := { s with pc := Function.update s.pc r pc }

def setWorker (s : Dispatch ι κ χ) (worker : ℕ) (wq : WorkerQueue ι κ χ) : Dispatch ι κ χ :=
  { s with workers := Function.update s.workers worker wq }

/-- One operation of `enqueue`. -/
def go (bits count : ℕ) (s : Dispatch ι κ χ) (r : ι) (now : ℕ) : Option (Dispatch ι κ χ) :=
  match s.pc r with
  | .idle | .answered _ => none
  | .scanning rotation offset scan =>
    some (s.setPc r (.scanned rotation offset scan (s.workers (scanIndex bits count rotation offset)).queue.length))
  | .scanned rotation offset scan queued =>
    let load := queued + (s.workers (scanIndex bits count rotation offset)).inflight
    some (s.setPc r (afterLook bits count rotation offset scan load))
  | .trying start offset =>
    some (s.setPc r (.tried start offset (s.workers (placeIndex count start offset)).queue.length))
  | .tried start offset queued =>
    let wq := s.workers (placeIndex count start offset)
    some (s.setPc r (afterTry count start offset (queued + wq.inflight < wq.limit)))
  | .pushing start offset =>
    let idx := placeIndex count start offset
    let wq := s.workers idx
    some ((s.setWorker idx { wq with queue := wq.queue ++ [r] }).setPc r (.waking idx))
  | .waking worker => some ((s.setWorker worker ((s.workers worker).wake now)).setPc r (.answered (some worker)))

def step (bits count : ℕ) (s : Dispatch ι κ χ) : DispatchAct ι κ χ → Option (Dispatch ι κ χ)
  | .call r =>
    if s.pc r = .idle then
      some ({ s with nextWorker := (s.nextWorker + 1) % 2 ^ bits }.setPc r
        (.scanning s.nextWorker 0 (.first bits count s.nextWorker)))
    else none
  | .go r now => s.go bits count r now
  | .pop worker =>
    match (s.workers worker).queue with
    | [] => none
    | r :: rest => some { s.setWorker worker { s.workers worker with queue := rest } with taken := r :: s.taken }
  | .other worker op => some (s.setWorker worker (op.perform (s.workers worker)))

/-- Nothing is queued, whatever is in flight. -/
def start (workers : ℕ → WorkerQueue ι κ χ) : Dispatch ι κ χ where
  workers := fun worker => { workers worker with queue := [] }
  nextWorker := 0
  pc := fun _ => .idle
  taken := []

/-! ## A request that runs alone -/

section OnItsOwn

variable {bits count : ℕ} {s₀ s : Dispatch ι κ χ} {r : ι} {now : ℕ}

/-- The operations of one request. -/
abbrev ReachesAlone (bits count : ℕ) (r : ι) (now : ℕ) (s s' : Dispatch ι κ χ) : Prop :=
  Reaches (step bits count) (fun _ a => a = .go r now) s s'

@[simp] lemma setPc_setPc (pc pc' : EnqueuePc) : (s.setPc r pc).setPc r pc' = s.setPc r pc' := by simp [setPc]

@[simp] lemma setPc_pc (pc : EnqueuePc) : (s.setPc r pc).pc r = pc := by simp [setPc]

@[simp] lemma setPc_workers (pc : EnqueuePc) : (s.setPc r pc).workers = s.workers := rfl

@[simp] lemma setPc_taken (pc : EnqueuePc) : (s.setPc r pc).taken = s.taken := rfl

/-- One operation of the request. -/
lemma ReachesAlone.then {s' : Dispatch ι κ χ} (h : ReachesAlone bits count r now s₀ s)
    (taken : s.go bits count r now = some s') : ReachesAlone bits count r now s₀ s' :=
  h.next (.go r now) rfl taken

lemma ReachesAlone.congr {s' s'' : Dispatch ι κ χ} (h : ReachesAlone bits count r now s₀ s') (heq : s' = s'') :
    ReachesAlone bits count r now s₀ s'' := heq ▸ h

/-- A worker is looked at. -/
lemma ReachesAlone.look {rotation offset : ℕ} {scan : Scan} (h : ReachesAlone bits count r now s₀ s)
    (hpc : s.pc r = .scanning rotation offset scan) : ReachesAlone bits count r now s₀ (s.setPc r
      (afterLook bits count rotation offset scan (s.workers (scanIndex bits count rotation offset)).load)) := by
  have hcounted : ReachesAlone bits count r now s₀ (s.setPc r (.scanned rotation offset scan
      (s.workers (scanIndex bits count rotation offset)).queue.length)) := h.then (by simp only [go, hpc])
  exact hcounted.then (by simp only [go, setPc_pc, setPc_setPc, setPc_workers]; rfl)

/-- A worker is tried. -/
lemma ReachesAlone.try {start offset : ℕ} (h : ReachesAlone bits count r now s₀ s)
    (hpc : s.pc r = .trying start offset) : ReachesAlone bits count r now s₀ (s.setPc r
      (afterTry count start offset (s.workers (placeIndex count start offset)).hasRoom)) := by
  have hcounted : ReachesAlone bits count r now s₀ (s.setPc r
      (.tried start offset (s.workers (placeIndex count start offset)).queue.length)) := h.then (by simp only [go, hpc])
  exact hcounted.then (by simp only [go, setPc_pc, setPc_setPc, setPc_workers]; rfl)

/-- The first loop. -/
lemma alone_scan (left offset : ℕ) {rotation : ℕ} {scan : Scan} (hleft : offset + (left + 1) = count)
    (h : ReachesAlone bits count r now s₀ s) (hpc : s.pc r = .scanning rotation offset scan) :
    ReachesAlone bits count r now s₀ (s.setPc r (.trying
      (scanFrom bits count (fun idx => (s.workers idx).load) rotation offset scan (left + 1)).start 0)) := by
  induction left generalizing offset s scan with
  | zero =>
    refine (h.look hpc).congr ?_
    simp only [afterLook, scanFrom, hleft, decide_true, Bool.or_true, if_true, ite_self]
  | succ left ih =>
    have hlooked := h.look hpc
    have hlast : ¬ offset + 1 = count := by omega
    cases hstop : scan.stopsAt (s.workers (scanIndex bits count rotation offset)).load with
    | true =>
      refine hlooked.congr ?_
      rw [scanFrom_succ, hstop, if_pos rfl]
      simp only [afterLook, hstop, Bool.true_or, if_true]
    | false =>
      have hgoes : afterLook bits count rotation offset scan (s.workers (scanIndex bits count rotation offset)).load =
          .scanning rotation (offset + 1) (scan.look (scanIndex bits count rotation offset)
            (s.workers (scanIndex bits count rotation offset)).load) := by
        simp only [afterLook, hstop, hlast, decide_false, Bool.or_self, Bool.false_eq_true, if_false]
      rw [hgoes] at hlooked
      refine (ih (offset + 1) (by omega) hlooked (setPc_pc _)).congr ?_
      rw [scanFrom_succ _ _ offset scan (left + 1), hstop, if_neg Bool.false_ne_true, setPc_setPc, setPc_workers]

/-- The push, and the wake after it. -/
lemma ReachesAlone.push {start offset : ℕ} (h : ReachesAlone bits count r now s₀ s)
    (hpc : s.pc r = .pushing start offset) {wq : WorkerQueue ι κ χ}
    (hpush : (s.workers (placeIndex count start offset)).tryPush r now = some wq) : ReachesAlone bits count r now s₀
      ({ s with workers := Function.update s.workers (placeIndex count start offset) wq }.setPc r
        (.answered (some (placeIndex count start offset)))) := by
  obtain ⟨idx, hidx⟩ : ∃ idx, idx = placeIndex count start offset := ⟨_, rfl⟩
  rw [← hidx] at hpush ⊢
  have hpushed : ReachesAlone bits count r now s₀
      ((s.setWorker idx { s.workers idx with queue := (s.workers idx).queue ++ [r] }).setPc r (.waking idx)) :=
    h.then (by simp only [go, hpc, ← hidx])
  have hwoken := hpushed.then (by simp only [go, setPc_pc]; rfl)
  refine hwoken.congr ?_
  unfold WorkerQueue.tryPush at hpush
  obtain ⟨-, rfl⟩ := of_guard hpush
  simp [setPc, setWorker]

/-- The worker that is tried takes the request. -/
lemma ReachesAlone.placed {start offset left : ℕ} (h : ReachesAlone bits count r now s₀ s)
    (hpc : s.pc r = .trying start offset) {wq : WorkerQueue ι κ χ}
    (hpush : (s.workers (placeIndex count start offset)).tryPush r now = some wq) : ReachesAlone bits count r now s₀
      ({ s with workers := (placeFrom count s.workers r now start offset (left + 1)).2 }.setPc r
        (.answered (placeFrom count s.workers r now start offset (left + 1)).1)) := by
  have hroom : (s.workers (placeIndex count start offset)).hasRoom = true := by
    rw [← Bool.not_eq_false, ← tryPush_eq_none, hpush]
    exact Option.some_ne_none wq
  have htried := h.try hpc
  rw [hroom] at htried
  refine (htried.push (setPc_pc _) hpush).congr ?_
  simp [placeFrom, hpush, setPc]

/-- The second loop, up to the answer. -/
lemma alone_place (left offset : ℕ) {start : ℕ} (hleft : offset + (left + 1) = count)
    (h : ReachesAlone bits count r now s₀ s) (hpc : s.pc r = .trying start offset) :
    ReachesAlone bits count r now s₀
      ({ s with workers := (placeFrom count s.workers r now start offset (left + 1)).2 }.setPc r
        (.answered (placeFrom count s.workers r now start offset (left + 1)).1)) := by
  induction left generalizing offset s with
  | zero =>
    have htried := h.try hpc
    cases hpush : (s.workers (placeIndex count start offset)).tryPush r now with
    | some wq => exact h.placed hpc hpush
    | none =>
      rw [tryPush_eq_none] at hpush
      refine htried.congr ?_
      simp only [afterTry, hpush, Bool.false_eq_true, if_false, hleft, if_true, placeFrom, WorkerQueue.tryPush]
  | succ left ih =>
    have htried := h.try hpc
    cases hpush : (s.workers (placeIndex count start offset)).tryPush r now with
    | some wq => exact h.placed hpc hpush
    | none =>
      have hlast : ¬ offset + 1 = count := by omega
      have hgoes : afterTry count start offset (s.workers (placeIndex count start offset)).hasRoom =
          .trying start (offset + 1) := by
        simp only [afterTry, tryPush_eq_none.mp hpush, Bool.false_eq_true, if_false, hlast]
      rw [hgoes] at htried
      refine (ih (offset + 1) (by omega) htried (setPc_pc _)).congr ?_
      have hplace : placeFrom count s.workers r now start offset (left + 1 + 1) =
          placeFrom count s.workers r now start (offset + 1) (left + 1) := by
        rw [placeFrom]
        simp only [hpush]
      rw [hplace]
      simp [setPc]

/-- A request that nothing interferes with gets what `enqueue` says. -/
theorem exec_alone (hcount : 0 < count) (hpc : s.pc r = .idle) :
    ∃ called s', s.step bits count (.call r) = some called ∧ ReachesAlone bits count r now called s' ∧
      s'.pc r = .answered (enqueue bits count s.workers s.nextWorker r now).1 ∧
      s'.workers = (enqueue bits count s.workers s.nextWorker r now).2 := by
  obtain ⟨left, rfl⟩ := Nat.exists_eq_succ_of_ne_zero hcount.ne'
  refine ⟨_, _, if_pos hpc, alone_place left 0 (Nat.zero_add _) (alone_scan left 0 (Nat.zero_add _) .start
    (setPc_pc _)) (setPc_pc _), setPc_pc _, rfl⟩

end OnItsOwn

/-! ## A request is placed once -/

section Once

variable {bits count : ℕ} {s s' : Dispatch ι κ χ} {r : ι}

/-- A request is with the worker that it was given to, in its queue or taken from it, and with no other. -/
def PlacedOnce (s : Dispatch ι κ χ) (r : ι) : Prop :=
  match (s.pc r).given with
  | none => (∀ worker, (s.workers worker).queue.count r = 0) ∧ s.taken.count r = 0
  | some worker => (s.workers worker).queue.count r + s.taken.count r = 1 ∧
      ∀ other, other ≠ worker → (s.workers other).queue.count r = 0

/-- What is kept where no request moves. -/
lemma PlacedOnce.congr (h : s.PlacedOnce r) (hgiven : (s'.pc r).given = (s.pc r).given)
    (hqueue : ∀ worker, (s'.workers worker).queue.count r = (s.workers worker).queue.count r)
    (htaken : s'.taken.count r = s.taken.count r) : s'.PlacedOnce r := by
  unfold PlacedOnce at h ⊢
  simp only [hgiven, hqueue, htaken]
  exact h

omit [DecidableEq ι] in
lemma queue_setWorker {worker : ℕ} {wq : WorkerQueue ι κ χ} (hqueue : wq.queue = (s.workers worker).queue) (other : ℕ) :
    ((s.setWorker worker wq).workers other).queue = (s.workers other).queue := by
  by_cases hother : other = worker
  · subst hother
    simp [setWorker, hqueue]
  · simp [setWorker, hother]

omit [DecidableEq ι] in
lemma queue_wake (wq : WorkerQueue ι κ χ) (now : ℕ) : (wq.wake now).queue = wq.queue := by
  unfold WorkerQueue.wake
  split <;> rfl

omit [DecidableEq ι] in
lemma queue_perform (wq : WorkerQueue ι κ χ) (op : QueueOp κ χ) : (op.perform wq).queue = wq.queue := by
  cases op with
  | claim => rfl
  | release => rfl
  | clearNotified => rfl
  | wake now => exact queue_wake wq now
  | pushWakeup callback now => exact queue_wake _ now
  | pushCancel cell now => exact queue_wake _ now

/-- A step of one request that gives it to no worker. -/
lemma PlacedOnce.setPc (h : s.PlacedOnce r) {other : ι} {pc : EnqueuePc} (hsame : pc.given = (s.pc other).given) :
    (s.setPc other pc).PlacedOnce r := by
  refine h.congr ?_ (fun _ => rfl) rfl
  by_cases hr : r = other
  · subst hr
    rw [setPc_pc, hsame]
  · simp [Dispatch.setPc, hr]

/-- A request is pushed. -/
lemma PlacedOnce.push (h : s.PlacedOnce r) {other : ι} {worker : ℕ} (hpc : (s.pc other).given = none) :
    ((s.setWorker worker { s.workers worker with queue := (s.workers worker).queue ++ [other] }).setPc other
      (.waking worker)).PlacedOnce r := by
  by_cases hr : r = other
  · subst hr
    unfold PlacedOnce at h ⊢
    rw [hpc] at h
    rw [setPc_pc]
    constructor
    · simp [Dispatch.setPc, setWorker, h.1, h.2]
    · intro other hother
      simp [Dispatch.setPc, setWorker, hother, h.1]
  · refine h.congr (by simp [Dispatch.setPc, setWorker, hr]) (fun v => ?_) rfl
    by_cases hv : v = worker
    · subst hv
      simp [Dispatch.setPc, setWorker, Ne.symm hr]
    · simp [Dispatch.setPc, setWorker, hv]

/-- A worker takes the first request of its queue. -/
lemma PlacedOnce.pop (h : s.PlacedOnce r) {worker : ℕ} {first : ι} {rest : List ι}
    (hqueue : (s.workers worker).queue = first :: rest) :
    { s.setWorker worker { s.workers worker with queue := rest } with taken := first :: s.taken }.PlacedOnce r := by
  unfold PlacedOnce at h ⊢
  have hworker : (s.workers worker).queue.count r = rest.count r + if first = r then 1 else 0 := by
    rw [hqueue, List.count_cons]
    simp
  have hafter : ∀ v, ((s.setWorker worker { s.workers worker with queue := rest }).workers v).queue.count r =
      if v = worker then rest.count r else (s.workers v).queue.count r := by
    intro v
    by_cases hv : v = worker
    · subst hv
      simp [setWorker]
    · simp [setWorker, hv]
  have htaken : (first :: s.taken).count r = s.taken.count r + if first = r then 1 else 0 := by
    rw [List.count_cons]
    simp
  have hpc : ({ s.setWorker worker { s.workers worker with queue := rest } with
      taken := first :: s.taken }.pc r).given = (s.pc r).given := rfl
  simp only [hpc, hafter, htaken]
  cases hgiven : (s.pc r).given with
  | none =>
    rw [hgiven] at h
    have hzero := h.1 worker
    refine ⟨fun v => ?_, by omega⟩
    have hv := h.1 v
    split <;> omega
  | some given =>
    rw [hgiven] at h
    obtain ⟨hsum, hothers⟩ := h
    by_cases hg : given = worker
    · subst hg
      refine ⟨by rw [if_pos rfl]; omega, fun other hother => ?_⟩
      rw [if_neg hother]
      exact hothers other hother
    · have hzero := hothers worker (Ne.symm hg)
      refine ⟨by rw [if_neg hg]; omega, fun other hother => ?_⟩
      have hother' := hothers other hother
      split <;> omega

lemma given_afterLook (rotation offset : ℕ) (scan : Scan) (load : ℤ) :
    (afterLook bits count rotation offset scan load).given = none := by
  unfold afterLook
  dsimp only
  split <;> rfl

lemma given_afterTry (start offset : ℕ) (hasRoom : Bool) : (afterTry count start offset hasRoom).given = none := by
  unfold afterTry
  split
  · rfl
  · split <;> rfl

/-- No step places a request twice. -/
lemma PlacedOnce.step (h : s.PlacedOnce r) {a : DispatchAct ι κ χ} (taken : s.step bits count a = some s') :
    s'.PlacedOnce r := by
  cases a with
  | call other =>
    obtain ⟨hidle, rfl⟩ := of_guard taken
    have hcalled : PlacedOnce { s with nextWorker := (s.nextWorker + 1) % 2 ^ bits } r :=
      h.congr rfl (fun _ => rfl) rfl
    apply hcalled.setPc
    rw [hidle]
    rfl
  | go other now =>
    simp only [Dispatch.step, go] at taken
    cases hpc : s.pc other with
    | idle => simp [hpc] at taken
    | answered worker => simp [hpc] at taken
    | scanning rotation offset scan =>
      rw [hpc] at taken
      cases taken
      exact h.setPc (by rw [hpc]; rfl)
    | scanned rotation offset scan queued =>
      rw [hpc] at taken
      cases taken
      exact h.setPc (by rw [hpc, given_afterLook]; rfl)
    | trying start offset =>
      rw [hpc] at taken
      cases taken
      exact h.setPc (by rw [hpc]; rfl)
    | tried start offset queued =>
      rw [hpc] at taken
      cases taken
      exact h.setPc (by rw [hpc, given_afterTry]; rfl)
    | pushing start offset =>
      rw [hpc] at taken
      cases taken
      exact h.push (by rw [hpc]; rfl)
    | waking worker =>
      rw [hpc] at taken
      cases taken
      have hwoken : (s.setWorker worker ((s.workers worker).wake now)).PlacedOnce r :=
        h.congr rfl (fun v => by rw [queue_setWorker (queue_wake _ now)]) rfl
      apply hwoken.setPc
      change _ = (s.pc other).given
      rw [hpc]
      rfl
  | pop worker =>
    simp only [Dispatch.step] at taken
    cases hqueue : (s.workers worker).queue with
    | nil => simp [hqueue] at taken
    | cons first rest =>
      rw [hqueue] at taken
      cases taken
      exact h.pop hqueue
  | other worker op =>
    cases taken
    exact h.congr rfl (fun v => by rw [queue_setWorker (queue_perform _ op)]) rfl

/-- In every run a request is in one queue at most, and in none if it was answered so. -/
lemma placedOnce {workers : ℕ → WorkerQueue ι κ χ} (run : Reachable (Dispatch.step bits count) (start workers) s)
    (r : ι) : s.PlacedOnce r := by
  refine run.invariant (I := fun s => s.PlacedOnce r) ⟨fun _ => rfl, rfl⟩ ?_
  intro s a s' h taken
  exact h.step taken

end Once

end Dispatch

/-- **Dispatch.**  For a number of workers and an offset, the request goes to a least loaded worker, whatever the loads
and limits are, exactly if the offsets of the scan do not wrap around or the number of workers divides the number of
offsets.  Whatever runs at the same time, a request is in one queue at most, and in none once it is shed. -/
theorem least_loaded_iff [DecidableEq ι] (bits count rotation : ℕ) (hcount : 0 < count) (hbits : count ≤ 2 ^ bits)
    (hrotation : rotation < 2 ^ bits) (item : ι) (now : ℕ) :
    ((∀ workers : ℕ → WorkerQueue ι κ χ, LoadsFit bits count workers →
        LeastLoaded count workers item now (enqueue bits count workers rotation item now)) ↔
      rotation + count ≤ 2 ^ bits ∨ count ∣ 2 ^ bits) ∧
    ∀ (workers : ℕ → WorkerQueue ι κ χ) (s : Dispatch ι κ χ),
      Reachable (Dispatch.step bits count) (.start workers) s → ∀ r : ι,
      (∀ worker other, r ∈ (s.workers worker).queue → r ∈ (s.workers other).queue → worker = other) ∧
      (∀ worker, (s.workers worker).queue.count r ≤ 1) ∧
      (s.pc r = .answered none → ∀ worker, r ∉ (s.workers worker).queue) ∧
      ∀ worker, s.pc r = .answered (some worker) →
        (s.workers worker).queue.count r + s.taken.count r = 1 := by
  refine ⟨⟨fun hall => ?_, fun hcond workers fit => leastLoaded_of_scansAll hcount (scansAll_of hcond) fit⟩, ?_⟩
  · by_contra hcond
    rw [not_or, not_le] at hcond
    obtain ⟨idle, hidle, hnot⟩ := exists_not_scanned hrotation hbits hcond.1 hcond.2
    exact not_leastLoaded hrotation hcount hidle hnot (hall (oneIdle idle) (loadsFit_oneIdle (by omega) idle))
  · intro workers s run r
    have hplaced := Dispatch.placedOnce run r
    unfold Dispatch.PlacedOnce at hplaced
    cases hgiven : (s.pc r).given with
    | none =>
      rw [hgiven] at hplaced
      have hnot : ∀ worker, r ∉ (s.workers worker).queue := fun worker => List.count_eq_zero.mp (hplaced.1 worker)
      refine ⟨fun worker other hin => absurd hin (hnot worker), fun worker => ?_, fun _ => hnot, fun worker hpc => ?_⟩
      · rw [hplaced.1 worker]
        exact Nat.zero_le _
      · rw [hpc] at hgiven
        cases hgiven
    | some worker =>
      rw [hgiven] at hplaced
      have honly : ∀ other, r ∈ (s.workers other).queue → other = worker := by
        intro other hin
        by_contra hne
        exact List.count_eq_zero.mp (hplaced.2 other hne) hin
      refine ⟨fun v v' hv hv' => (honly v hv).trans (honly v' hv').symm, fun v => ?_, fun hpc => ?_, fun v hpc => ?_⟩
      · by_cases hv : v = worker
        · rw [hv]
          omega
        · rw [hplaced.2 v hv]
          exact Nat.zero_le _
      · rw [hpc] at hgiven
        cases hgiven
      · rw [hpc] at hgiven
        obtain rfl : v = worker := Option.some.inj hgiven
        exact hplaced.1

/-- Three workers, of which the last is idle. -/
theorem idle_worker_found : LeastLoaded 3 (oneIdle 2 : ℕ → WorkerQueue Unit Unit Unit) () 0
    (enqueue 64 3 (oneIdle 2) 5 () 0) :=
  (least_loaded_iff 64 3 5 (by decide) (by decide) (by decide) () 0).1.mpr (.inl (by decide)) (oneIdle 2)
    (loadsFit_oneIdle (by decide) 2)

/-- The counter is about to wrap around: the scan looks at the first worker twice, and not at the last. -/
theorem wrapped_scan_leaves_one_out : ∃ workers : ℕ → WorkerQueue Unit Unit Unit, LoadsFit 64 3 workers ∧
    ¬ LeastLoaded 3 workers () 0 (enqueue 64 3 workers (2 ^ 64 - 1) () 0) := by
  refine ⟨oneIdle 2, loadsFit_oneIdle (by decide) 2, not_leastLoaded (by decide) (by decide) (by decide) ?_⟩
  decide

end Concurrent

end Oxbrook
