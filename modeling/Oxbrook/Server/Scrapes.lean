import Mathlib.Tactic.NormNum
import Oxbrook.Server.Metrics

/-!
# What scrapes say

The page of `Metrics` on cells that do not move, in closed form, and from it two facts about every run.  No counter a
scraper was shown goes down or disappears in a later scrape (`scrapes_ordered`).  And a scrape during which nothing is
being recorded says exactly what was recorded (`scrape_at_rest`): its counts are counts of the requests there were, and
its buckets count them by their durations, although the code compares these as doubles.
-/

namespace Oxbrook

open Doubles Readings Readings.Readout StepMachine

namespace Metrics

/-! ## Durations as doubles -/

lemma seconds_nonneg (d : ℕ) : (0 : ℚ) ≤ (d / 10 ^ 9 : ℕ) := Nat.cast_nonneg _

lemma fraction_nonneg (d : ℕ) : (0 : ℚ) ≤ (d % 10 ^ 9 : ℕ) / 10 ^ 9 := div_nonneg (Nat.cast_nonneg _) (by norm_num)

lemma fraction_le_one (d : ℕ) : nearest ((d % 10 ^ 9 : ℕ) / 10 ^ 9) ≤ 1 := by
  have hlt : d % 10 ^ 9 ≤ 10 ^ 9 := (Nat.mod_lt d (by norm_num)).le
  have hle : ((d % 10 ^ 9 : ℕ) : ℚ) / 10 ^ 9 ≤ (1 : ℕ) := by
    rw [Nat.cast_one, div_le_one (by norm_num)]
    exact_mod_cast hlt
  have h := nearest_mono (fraction_nonneg d) hle
  rwa [nearest_natCast (by norm_num), Nat.cast_one] at h

/-- Where seconds are counted exactly, a longer duration is no smaller as a double. -/
lemma asSecsF64_mono {d e : ℕ} (h : d ≤ e) (small : e / 10 ^ 9 < 2 ^ 53) : asSecsF64 d ≤ asSecsF64 e := by
  have hdiv : d / 10 ^ 9 ≤ e / 10 ^ 9 := Nat.div_le_div_right h
  unfold asSecsF64
  rw [nearest_natCast (hdiv.trans_lt small), nearest_natCast small]
  apply nearest_mono (add_nonneg (seconds_nonneg d) (nearest_nonneg (fraction_nonneg d)))
  obtain heq | hlt := hdiv.eq_or_lt
  -- within a second the fraction decides
  · have hmod : d % 10 ^ 9 ≤ e % 10 ^ 9 := by omega
    have hcast : ((d % 10 ^ 9 : ℕ) : ℚ) ≤ (e % 10 ^ 9 : ℕ) := by exact_mod_cast hmod
    have hle := nearest_mono (fraction_nonneg d)
      (div_le_div_of_nonneg_right hcast (by norm_num : (0 : ℚ) ≤ 10 ^ 9))
    rw [heq]
    linarith
  · have hsucc : ((d / 10 ^ 9 : ℕ) : ℚ) + 1 ≤ (e / 10 ^ 9 : ℕ) := by exact_mod_cast hlt
    have hone := fraction_le_one d
    have hnonneg := nearest_nonneg (fraction_nonneg e)
    linarith

/-- Where they are not, it is larger than every bound. -/
lemma lt_asSecsF64 {d : ℕ} (large : 2 ^ 53 ≤ d / 10 ^ 9) : 2 ^ 52 < asSecsF64 d := by
  have hcast : ((2 ^ 53 - 1 : ℕ) : ℚ) ≤ (d / 10 ^ 9 : ℕ) := by exact_mod_cast (Nat.sub_le _ _).trans large
  have hseconds := nearest_mono (Nat.cast_nonneg _) hcast
  have hsum : ((2 ^ 53 - 1 : ℕ) : ℚ) ≤ nearest (d / 10 ^ 9 : ℕ) + nearest ((d % 10 ^ 9 : ℕ) / 10 ^ 9) := by
    rw [nearest_natCast (by norm_num)] at hseconds
    linarith [nearest_nonneg (fraction_nonneg d)]
  have hnearest := nearest_mono (Nat.cast_nonneg _) hsum
  rw [nearest_natCast (by norm_num)] at hnearest
  apply lt_of_lt_of_le _ hnearest
  norm_num

/-- A bound in nanoseconds. -/
def Bound.nanos (bound : Bound) : ℕ := (bound.value * 10 ^ 9).num.toNat

/-- At the bounds themselves, the doubles of a duration and of the bound are the same, and a nanosecond more is told
from it. -/
lemma asSecsF64_bounds : ∀ bound ∈ bounds, (bound.nanos : ℚ) = bound.value * 10 ^ 9 ∧
    asSecsF64 bound.nanos = nearest bound.value ∧ nearest bound.value < asSecsF64 (bound.nanos + 1) ∧
      bound.nanos < 2 ^ 53 ∧ nearest bound.value < 2 ^ 52 := by
  decide +kernel

/-- **The comparison of doubles is exact.** -/
lemma asSecsF64_le_iff {bound : Bound} (h : bound ∈ bounds) (d : ℕ) :
    asSecsF64 d ≤ nearest bound.value ↔ (d : ℚ) / 10 ^ 9 ≤ bound.value := by
  obtain ⟨hnanos, hequal, habove, hsmall, hbound⟩ := asSecsF64_bounds bound h
  have hexact : (d : ℚ) / 10 ^ 9 ≤ bound.value ↔ d ≤ bound.nanos := by
    rw [div_le_iff₀ (by norm_num), ← hnanos, Nat.cast_le]
  rw [hexact]
  constructor
  · intro hle
    by_contra hlt
    rw [not_le] at hlt
    by_cases hd : d / 10 ^ 9 < 2 ^ 53
    · exact absurd hle (habove.trans_le (asSecsF64_mono hlt hd)).not_ge
    · exact absurd hle (hbound.trans (lt_asSecsF64 (not_lt.mp hd))).not_ge
  · intro hle
    rw [← hequal]
    exact asSecsF64_mono hle ((Nat.div_le_self _ _).trans_lt hsmall)

lemma bounds_ascending : bounds.Pairwise fun a b => a.value ≤ b.value := by
  unfold bounds
  norm_num

/-- **The bucket of a duration**: it lies in the first `i + 1` buckets if and only if it is within the `i`-th bound. -/
lemma slot_le_iff {i : ℕ} {bound : Bound} (h : bounds[i]? = some bound) (d : ℕ) :
    slot d ≤ i ↔ (d : ℚ) / 10 ^ 9 ≤ bound.value := by
  rw [← asSecsF64_le_iff (List.mem_of_getElem? h)]
  obtain ⟨hi, hget⟩ := List.getElem?_eq_some_iff.mp h
  unfold slot
  constructor
  · intro hle
    have hlt : bounds.findIdx (fun b => decide (asSecsF64 d ≤ nearest b.value)) < bounds.length := hle.trans_lt hi
    have hfound := List.findIdx_getElem (w := hlt)
    rw [decide_eq_true_eq, asSecsF64_le_iff (List.getElem_mem _)] at hfound
    rw [asSecsF64_le_iff (List.mem_of_getElem? h)]
    obtain heq | hbefore := hle.eq_or_lt
    · subst heq
      rwa [hget] at hfound
    · have hvalue := List.pairwise_iff_getElem.mp bounds_ascending _ _ hlt hi hbefore
      rw [hget] at hvalue
      exact hfound.trans hvalue
  · intro hle
    by_contra hlt
    have hnot := List.not_of_lt_findIdx (not_le.mp hlt)
    rw [hget] at hnot
    simp [hle] at hnot

/-! ## The page in closed form -/

section Closed

variable {snap : Cell → ℕ}

/-- The lines of the bounds from the `i`-th on, where `upTo n` observations are in the first `n` buckets. -/
def bucketLines (upTo : ℕ → ℕ) (name labels : Text) : ℕ → List Bound → List Line
  | _, [] => []
  | i, bound :: rest =>
    .sample (name ++ "_bucket".toList) (labels ++ "le=\"".toList ++ bound.text ++ "\"".toList)
      (.count (upTo (i + 1))) ::
      bucketLines upTo name labels (i + 1) rest

/-- The lines of a histogram. -/
def histogramLines (upTo : ℕ → ℕ) (micros : ℕ) (name labels : Text) : List Line :=
  bucketLines upTo name (labels ++ if labels = [] then [] else [',']) 0 bounds ++
    [.sample (name ++ "_bucket".toList) ((labels ++ if labels = [] then [] else [',']) ++ "le=\"+Inf\"".toList)
        (.count (upTo (bounds.length + 1))),
      .sample (name ++ "_sum".toList) labels (.seconds (nearest (nearest micros / 10 ^ 6))),
      .sample (name ++ "_count".toList) labels (.count (upTo (bounds.length + 1)))]

/-- The observations in the first buckets of a histogram. -/
def upTo (snap : Cell → ℕ) (histogram : HistogramId) (n : ℕ) : ℕ :=
  bucketSum (fun c => snap (.counter c)) histogram 0 n

lemma upTo_succ (snap : Cell → ℕ) (histogram : HistogramId) (n : ℕ) :
    upTo snap histogram (n + 1) = upTo snap histogram n + snap (.counter (.bucket histogram n)) := by
  rw [upTo, bucketSum, Finset.sum_range_succ, Nat.zero_add]
  rfl

lemma upTo_mono (snap : Cell → ℕ) (histogram : HistogramId) {n k : ℕ} (h : n ≤ k) :
    upTo snap histogram n ≤ upTo snap histogram k :=
  Finset.sum_le_sum_of_subset (Finset.range_mono h)

lemma eval_buckets (histogram : HistogramId) (name labels : Text) (rest : List Bound) (i : ℕ)
    (fits : upTo snap histogram (i + rest.length) < 2 ^ 64) :
    (renderBuckets histogram name labels i rest (upTo snap histogram i)).eval snap =
      (bucketLines (upTo snap histogram) name labels i rest, upTo snap histogram (i + rest.length)) := by
  induction rest generalizing i with
  | nil => rfl
  | cons bound rest ih =>
    have hlength : i + (bound :: rest).length = i + 1 + rest.length := by
      rw [List.length_cons]
      omega
    rw [hlength] at fits ⊢
    have hadd : add64 (upTo snap histogram i) (snap (.counter (.bucket histogram i))) =
        upTo snap histogram (i + 1) := by
      rw [upTo_succ]
      apply Nat.mod_eq_of_lt
      rw [← upTo_succ]
      exact (upTo_mono snap histogram (Nat.le_add_right _ _)).trans_lt fits
    rw [renderBuckets, eval_bind, eval_fetch, eval_bind, hadd, ih (i + 1) fits]
    rfl

lemma eval_histogram (histogram : HistogramId) (name labels : Text)
    (fits : upTo snap histogram (bounds.length + 1) < 2 ^ 64) :
    (renderHistogram histogram name labels).eval snap =
      histogramLines (upTo snap histogram) (snap (.counter (.sumMicros histogram))) name labels := by
  have hbuckets := eval_buckets histogram name (labels ++ if labels = [] then [] else [',']) bounds 0
    ((upTo_mono snap histogram (by omega)).trans_lt fits)
  have hzero : upTo snap histogram 0 = 0 := rfl
  rw [hzero, Nat.zero_add] at hbuckets
  have hadd : add64 (upTo snap histogram bounds.length) (snap (.counter (.bucket histogram bounds.length))) =
      upTo snap histogram (bounds.length + 1) := by
    rw [upTo_succ] at fits ⊢
    exact Nat.mod_eq_of_lt fits
  simp only [renderHistogram, eval_bind, eval_fetch, eval_pure, hbuckets, hadd]
  rfl

lemma eval_durations (route : ℕ × Text) (fits : upTo snap (.duration route.1) (bounds.length + 1) < 2 ^ 64) :
    (durationLines route).eval snap =
      if 0 < upTo snap (.duration route.1) (bounds.length + 1) then
        histogramLines (upTo snap (.duration route.1)) (snap (.counter (.sumMicros (.duration route.1))))
          "oxbrook_request_duration_seconds".toList route.2
      else [] := by
  have hseen : (sumBuckets (.duration route.1) 0 (bounds.length + 1) 0).eval snap =
      upTo snap (.duration route.1) (bounds.length + 1) := by
    rw [eval_sum snap _ (by rwa [Nat.zero_add]), Nat.zero_add]
    rfl
  rw [durationLines, eval_bind, hseen]
  split_ifs
  · exact eval_histogram _ _ _ fits
  · rfl

end Closed

/-! ## Nothing goes down -/

/-- The gauges, which may go down. -/
def gaugeNames : List Text :=
  ["oxbrook_loop_requests".toList, "oxbrook_loop_queued".toList, "oxbrook_loop_wake_pending_seconds".toList,
    "oxbrook_connections".toList, "oxbrook_connections_limit".toList, "oxbrook_draining".toList]

def SampleValue.NoMore : SampleValue → SampleValue → Prop
  | .count n, .count k => n ≤ k
  | .seconds p, .seconds q => p ≤ q
  | _, _ => False

/-- Every sample but those of gauges is there later, with no smaller value. -/
def Rises (lines later : List Line) : Prop :=
  ∀ name labels v, .sample name labels v ∈ lines → name ∉ gaugeNames →
    ∃ v', .sample name labels v' ∈ later ∧ v.NoMore v'

section Rises

variable {snap snap' : Cell → ℕ} {lines lines' later later' : List Line}

lemma Rises.nil (later : List Line) : Rises [] later := by
  intro name labels v h
  exact absurd h List.not_mem_nil

lemma Rises.append (h : Rises lines later) (h' : Rises lines' later') : Rises (lines ++ lines') (later ++ later') := by
  intro name labels v hmem hname
  rcases List.mem_append.mp hmem with hmem | hmem
  · obtain ⟨v', hlater, hle⟩ := h name labels v hmem hname
    exact ⟨v', List.mem_append_left _ hlater, hle⟩
  · obtain ⟨v', hlater, hle⟩ := h' name labels v hmem hname
    exact ⟨v', List.mem_append_right _ hlater, hle⟩

lemma Rises.flatMap {β : Type} {f g : β → List Line} (items : List β) (h : ∀ b ∈ items, Rises (f b) (g b)) :
    Rises (items.flatMap f) (items.flatMap g) := by
  intro name labels v hmem hname
  obtain ⟨b, hb, hmem⟩ := List.mem_flatMap.mp hmem
  obtain ⟨v', hlater, hle⟩ := h b hb name labels v hmem hname
  exact ⟨v', List.mem_flatMap.mpr ⟨b, hb, hlater⟩, hle⟩

lemma Rises.cons {name labels : Text} {v v' : SampleValue} (hle : v.NoMore v') (h : Rises lines later) :
    Rises (.sample name labels v :: lines) (.sample name labels v' :: later) := by
  intro name' labels' w hmem hname
  rcases List.mem_cons.mp hmem with heq | hmem
  · injection heq with hn hl hv
    subst hn hl hv
    exact ⟨v', List.mem_cons_self, hle⟩
  · obtain ⟨w', hlater, hw⟩ := h name' labels' w hmem hname
    exact ⟨w', List.mem_cons_of_mem _ hlater, hw⟩

/-- Only gauges. -/
lemma Rises.gauges (h : ∀ name labels v, Line.sample name labels v ∈ lines → name ∈ gaugeNames) :
    Rises lines later := by
  intro name labels v hmem hname
  exact absurd (h name labels v hmem) hname

lemma rises_buckets {f g : ℕ → ℕ} (h : ∀ n, f n ≤ g n) (name labels : Text) (i : ℕ) (rest : List Bound) :
    Rises (bucketLines f name labels i rest) (bucketLines g name labels i rest) := by
  induction rest generalizing i with
  | nil => exact Rises.nil _
  | cons bound rest ih => exact (ih (i + 1)).cons (h (i + 1))

lemma rises_histogram {f g : ℕ → ℕ} (h : ∀ n, f n ≤ g n) {micros micros' : ℕ} (hmicros : micros ≤ micros')
    (name labels : Text) : Rises (histogramLines f micros name labels) (histogramLines g micros' name labels) := by
  have hsum : nearest (nearest micros / 10 ^ 6) ≤ nearest (nearest micros' / 10 ^ 6) := by
    have hcast : (micros : ℚ) ≤ micros' := by exact_mod_cast hmicros
    have hnonneg := nearest_nonneg (Nat.cast_nonneg (α := ℚ) micros)
    apply nearest_mono (div_nonneg hnonneg (by norm_num))
    exact div_le_div_of_nonneg_right (nearest_mono (Nat.cast_nonneg _) hcast) (by norm_num)
  have hcount : (SampleValue.count (f (bounds.length + 1))).NoMore (.count (g (bounds.length + 1))) := h _
  have hseconds : (SampleValue.seconds (nearest (nearest micros / 10 ^ 6))).NoMore
      (.seconds (nearest (nearest micros' / 10 ^ 6))) := hsum
  exact (rises_buckets h _ _ 0 bounds).append ((((Rises.nil _).cons hcount).cons hseconds).cons hcount)

/-- What no counter of the later snapshot is below, and what keeps its sums from overflowing. -/
structure Later (snap snap' : Cell → ℕ) : Prop where
  up : ∀ c, snap (.counter c) ≤ snap' (.counter c)
  fits : ∀ histogram, upTo snap' histogram (bounds.length + 1) < 2 ^ 64

lemma Later.upTo_le (h : Later snap snap') (histogram : HistogramId) (n : ℕ) :
    upTo snap histogram n ≤ upTo snap' histogram n := by
  unfold upTo bucketSum
  exact Finset.sum_le_sum fun j _ => h.up _

lemma Later.fits_before (h : Later snap snap') (histogram : HistogramId) :
    upTo snap histogram (bounds.length + 1) < 2 ^ 64 :=
  (h.upTo_le histogram _).trans_lt (h.fits histogram)

lemma rises_statuses (h : Later snap snap') (route : ℕ × Text) :
    Rises ((statusLines route).eval snap) ((statusLines route).eval snap') := by
  rw [statusLines, eval_collect, eval_collect]
  apply Rises.flatMap
  intro code _
  rw [eval_bind, eval_bind, eval_fetch, eval_fetch, eval_pure, eval_pure]
  have hle := h.up (.status route.1 code)
  split_ifs with hpos hpos'
  · exact (Rises.nil _).cons hle
  · omega
  · exact Rises.nil _
  · exact Rises.nil _

lemma rises_durations (h : Later snap snap') (route : ℕ × Text) :
    Rises ((durationLines route).eval snap) ((durationLines route).eval snap') := by
  rw [eval_durations route (h.fits_before _), eval_durations route (h.fits _)]
  have hle := h.upTo_le (.duration route.1) (bounds.length + 1)
  split_ifs with hpos hpos'
  · exact rises_histogram (h.upTo_le _) (h.up _) _ _
  · omega
  · exact Rises.nil _
  · exact Rises.nil _

lemma rises_single (h : Later snap snap') (name : Text) (c : Counter) :
    Rises ((single name c).eval snap) ((single name c).eval snap') := by
  rw [single, eval_bind, eval_bind]
  exact (Rises.nil _).cons (h.up c)

lemma gauges_perWorker (workers : List Bool) {name : Text} (gauge : ℕ → Gauge) (value : ℕ → SampleValue)
    (hname : name ∈ gaugeNames) : Rises ((perWorker workers name gauge value).eval snap) later := by
  apply Rises.gauges
  intro name' labels v hmem
  rw [perWorker, eval_collect] at hmem
  obtain ⟨i, -, hmem⟩ := List.mem_flatMap.mp hmem
  rw [eval_bind, eval_pure, List.mem_singleton] at hmem
  injection hmem with hn
  rwa [hn]

lemma gauges_one {name : Text} (v : SampleValue) (hname : name ∈ gaugeNames) :
    Rises [.sample name [] v] later := by
  apply Rises.gauges
  intro name' labels v' hmem
  rw [List.mem_singleton] at hmem
  injection hmem with hn
  rwa [hn]

/-- **Each family** of a later page. -/
lemma rises_samples (m : Metrics) (workers : List Bool) (draining draining' : Option Bool) (h : Later snap snap')
    (f : Family) :
    Rises ((m.samples workers draining f).eval snap) ((m.samples workers draining' f).eval snap') := by
  cases f with
  | requests =>
    rw [samples, samples, eval_collect, eval_collect]
    exact Rises.flatMap _ fun route _ => rises_statuses h route
  | durations =>
    rw [samples, samples, eval_collect, eval_collect]
    exact Rises.flatMap _ fun route _ => rises_durations h route
  | queueWait =>
    rw [samples, samples, eval_collect, eval_collect]
    apply Rises.flatMap
    intro i _
    split_ifs
    · rw [eval_histogram _ _ _ (h.fits_before _), eval_histogram _ _ _ (h.fits _)]
      exact rises_histogram (h.upTo_le _) (h.up _) _ _
    · exact Rises.nil _
  | loopRequests | loopQueued | wakePending => exact gauges_perWorker workers _ _ (by decide)
  | connections | connectionsLimit | draining => exact gauges_one _ (by decide)
  | shed | timeouts | limited => exact rises_single h _ _

lemma Family.header_eq (f : Family) : ∃ name kind help, f.header = Metrics.header name kind help := by
  cases f <;> exact ⟨_, _, _, rfl⟩

/-- No sample stands before the samples. -/
lemma sample_notMem_header (f : Family) (name labels : Text) (v : SampleValue) : .sample name labels v ∉ f.header := by
  obtain ⟨title, kind, help, heq⟩ := f.header_eq
  rw [heq, Metrics.header]
  simp

lemma Rises.header (f : Family) (later : List Line) : Rises f.header later := by
  intro name labels v hmem
  exact absurd hmem (sample_notMem_header f _ _ _)

lemma rises_family (m : Metrics) (workers : List Bool) (draining draining' : Option Bool) (h : Later snap snap')
    (f : Family) :
    Rises ((m.family workers draining f).eval snap) ((m.family workers draining' f).eval snap') := by
  by_cases hf : f = .draining
  -- whether the server drains is a gauge
  · subst hf
    rw [family]
    split_ifs
    · rw [eval_bind]
      apply Rises.gauges
      intro name labels v hmem
      rcases List.mem_append.mp hmem with hmem | hmem
      · exact absurd hmem (sample_notMem_header _ _ _ _)
      · rw [samples, eval_pure, List.mem_singleton] at hmem
        injection hmem with hn
        rw [hn]
        decide
    · exact Rises.nil _
  · have hpresent : m.present draining' f = m.present draining f := by
      cases f <;> first | rfl | exact absurd rfl hf
    rw [family, family, hpresent]
    split_ifs
    · rw [eval_bind, eval_bind]
      exact (Rises.header f _).append (rises_samples m workers draining draining' h f)
    · exact Rises.nil _

lemma rises_page (m : Metrics) (workers : List Bool) (draining draining' : Option Bool) (h : Later snap snap') :
    Rises ((m.render workers draining).eval snap) ((m.render workers draining').eval snap') := by
  rw [render, render, eval_collect, eval_collect]
  exact Rises.flatMap _ fun f _ => rises_family m workers draining draining' h f

end Rises

/-! ## Successive scrapes -/

variable {m : Metrics} {workers : List Bool} {draining : ℕ → Option Bool} {s s' : Scraped} {k k' : ℕ}
  {opened closed opened' closed' : Ledger} {lines lines' : List Line}

/-- What the counters held of a histogram, as a snapshot has it. -/
lemma upTo_lt {snap : Cell → ℕ} (h : closed.Balanced m) (hsnap : ∀ c, snap (.counter c) ≤ closed.counters c)
    (histogram : HistogramId) : upTo snap histogram (bounds.length + 1) < 2 ^ 64 := by
  have hle : upTo snap histogram (bounds.length + 1) ≤ bucketSum closed.counters histogram 0 (bounds.length + 1) := by
    unfold upTo bucketSum
    exact Finset.sum_le_sum fun j _ => hsnap _
  exact hle.trans_lt (h.bucketSum_lt histogram 0 (bounds.length + 1))

/-- **No counter goes down.**  Of two scrapes, the second begun when the first had ended, the second shows every sample
of a counter or a histogram that the first one shows, with no smaller value, whatever is recorded meanwhile. -/
theorem scrapes_ordered (run : Reaches (Scraped.step m workers draining) (Scraped.fits m) Scraped.start s)
    (ended : s.readers k = .ended opened closed lines) (idle : s.readers k' = .idle)
    (more : Reaches (Scraped.step m workers draining) (Scraped.fits m) s s')
    (ended' : s'.readers k' = .ended opened' closed' lines') {name labels : Text} {v : SampleValue}
    (shown : .sample name labels v ∈ lines) (counter : name ∉ gaugeNames) :
    ∃ v', .sample name labels v' ∈ lines' ∧ v.NoMore v' := by
  obtain ⟨-, ⟨-, hclosed⟩, snap, heval, hsnap⟩ := snapshot_of_ended (balanced_new m) rfl run ended
  obtain ⟨⟨hopened, -⟩, ⟨hbalanced, -⟩, snap', heval', hsnap'⟩ :=
    snapshot_of_ended (balanced_of_run (balanced_new m) run) idle more ended'
  have hlater : Later snap snap' := by
    refine ⟨?_, upTo_lt hbalanced fun c => (hsnap' c).2⟩
    intro c
    calc
      snap (.counter c) ≤ closed.counters c := (hsnap c).2
      _ ≤ s.store.counters c := hclosed c
      _ ≤ opened'.counters c := hopened c
      _ ≤ snap' (.counter c) := (hsnap' c).1
  rw [← heval] at shown
  rw [← heval']
  exact rises_page m workers (draining k) (draining k') hlater name labels v shown counter

lemma home_fits_twice : home.Fits ([turnedAway] ++ [turnedAway]) := by
  refine ⟨by decide, ?_⟩
  intro histogram
  have hsum : home.total (.sumMicros histogram) [turnedAway] ≤ 2000 := by
    rw [total, List.map_singleton, List.sum_singleton, weight_sumMicros]
    split_ifs <;> decide
  rw [total_append]
  omega

theorem scrapes_ordered_halfway : ∃ ledger : Ledger, ledger.recorded = [turnedAway] ∧
    ∃ v', .sample "oxbrook_requests_shed_total".toList [] v' ∈ (home.render [true] none).eval ledger.look ∧
      (SampleValue.count 0).NoMore v' := by
  obtain ⟨s, run, hstore, ended, hothers⟩ := reaches_scraped (k := 0) reaches_halfway rfl
  have hidle : s.readers 1 = .idle := hothers 1 (by decide)
  have hfits : home.Fits (s.store.begun ++ [turnedAway]) := by
    rw [hstore]
    exact home_fits_twice
  obtain ⟨t, more, hreaders, -, hrecorded, -⟩ := reaches_recorded Reaches.start hfits
  obtain ⟨u, last, -, ended', -⟩ := reaches_scraped (k := 1) more (by rw [hreaders, hidle])
  have hshown : .sample "oxbrook_requests_shed_total".toList [] (.count 0) ∈
      (home.render [true] none).eval halfway.look := by
    rw [render, eval_collect]
    exact List.mem_flatMap.mpr ⟨.shed, by decide, List.mem_append_right _ List.mem_cons_self⟩
  refine ⟨t.store, ?_, ?_⟩
  · rw [hrecorded, hstore]
    rfl
  · exact scrapes_ordered run ended hidle last ended' hshown (by decide)

/-! ## What was recorded -/

section Report

variable (m : Metrics) (events : List Event)

/-- The events observed in a histogram that took no longer than a bound. -/
def within (histogram : HistogramId) (bound : ℚ) : ℕ :=
  events.countP fun event => m.histogramOf event = histogram ∧ (event.elapsed : ℚ) / 10 ^ 9 ≤ bound

/-- All events observed in a histogram. -/
def observed (histogram : HistogramId) : ℕ := events.countP fun event => m.histogramOf event = histogram

/-- What they took, in whole microseconds each. -/
def micros (histogram : HistogramId) : ℕ :=
  ((events.filter fun event => m.histogramOf event = histogram).map fun event => event.elapsed / 1000 % 2 ^ 64).sum

/-- A histogram of what was recorded. -/
def reportHistogram (histogram : HistogramId) (name labels : Text) : List Line :=
  (bounds.map fun bound => .sample (name ++ "_bucket".toList)
      ((labels ++ if labels = [] then [] else [',']) ++ "le=\"".toList ++ bound.text ++ "\"".toList)
      (.count (m.within events histogram bound.value))) ++
    [.sample (name ++ "_bucket".toList) ((labels ++ if labels = [] then [] else [',']) ++ "le=\"+Inf\"".toList)
        (.count (m.observed events histogram)),
      .sample (name ++ "_sum".toList) labels (.seconds (nearest (nearest (m.micros events histogram) / 10 ^ 6))),
      .sample (name ++ "_count".toList) labels (.count (m.observed events histogram))]

/-- The samples of one gauge for each worker, as `gauge` has it. -/
def reportGauge (workers : List Bool) (name : Text) (value : ℕ → SampleValue) : List Line :=
  (List.range workers.length).map fun i => .sample name (loopLabel i) (value i)

variable (workers : List Bool) (draining : Option Bool) (gauge : Gauge → ℕ)

/-- The samples of a family, from what was recorded and the gauges. -/
def reportSamples : Family → List Line
  | .requests => m.labelled.flatMap fun route => (List.range statuses).flatMap fun code =>
    let n := events.countP (m.Answered route.1 (code + 100))
    if 0 < n then
      [.sample "oxbrook_requests_total".toList (route.2 ++ ",status=\"".toList ++ decimal (code + 100) ++ "\"".toList)
        (.count n)]
    else []
  | .durations => m.labelled.flatMap fun route =>
    if 0 < m.observed events (.duration route.1) then
      m.reportHistogram events (.duration route.1) "oxbrook_request_duration_seconds".toList route.2
    else []
  | .queueWait => (List.range workers.length).flatMap fun i =>
    if workers.getD i false then m.reportHistogram events (.wait i) "oxbrook_queue_wait_seconds".toList (loopLabel i)
    else []
  | .loopRequests => reportGauge workers "oxbrook_loop_requests".toList fun i => .count (gauge (.load i))
  | .loopQueued => reportGauge workers "oxbrook_loop_queued".toList fun i => .count (gauge (.queued i))
  | .wakePending =>
    reportGauge workers "oxbrook_loop_wake_pending_seconds".toList fun i => .seconds (asSecsF64 (gauge (.waitingFor i)))
  | .connections =>
    [.sample "oxbrook_connections".toList [] (.count (m.connections.getD 0 - gauge .availablePermits))]
  | .connectionsLimit => [.sample "oxbrook_connections_limit".toList [] (.count (m.connections.getD 0))]
  | .shed =>
    [.sample "oxbrook_requests_shed_total".toList [] (.count (events.countP fun event => event.refusal = some .shed))]
  | .timeouts =>
    [.sample "oxbrook_request_timeouts_total".toList []
      (.count (events.countP fun event => event.refusal = some .timedOut))]
  | .limited =>
    [.sample "oxbrook_requests_limited_total".toList []
      (.count (events.countP fun event => event.refusal = some .limited))]
  | .draining => [.sample "oxbrook_draining".toList [] (.count (if draining = some true then 1 else 0))]

/-- The page that says what was recorded. -/
def report : List Line :=
  Family.all.flatMap fun f =>
    if m.present draining f then f.header ++ m.reportSamples events workers draining gauge f else []

end Report

section Exact

variable {snap : Cell → ℕ} {events : List Event}

lemma total_eq_countP {P : Event → Prop} [DecidablePred P] {c : Counter} (events : List Event)
    (h : ∀ event, weight c (m.adds event) = if P event then 1 else 0) : m.total c events = events.countP P := by
  induction events with
  | nil => rfl
  | cons event events ih =>
    have hcons : m.total c (event :: events) = weight c (m.adds event) + m.total c events := rfl
    rw [hcons, h, ih, List.countP_cons, Nat.add_comm]
    simp only [decide_eq_true_eq]

lemma total_micros (events : List Event) (histogram : HistogramId) :
    m.total (.sumMicros histogram) events = m.micros events histogram := by
  induction events with
  | nil => rfl
  | cons event events ih =>
    have hcons : m.total (.sumMicros histogram) (event :: events) =
        weight (.sumMicros histogram) (m.adds event) + m.total (.sumMicros histogram) events := rfl
    rw [hcons, weight_sumMicros, ih]
    by_cases hin : m.histogramOf event = histogram
    · simp [micros, hin]
    · simp [micros, hin]

/-- A snapshot that holds what some events add up to. -/
structure Holds (m : Metrics) (events : List Event) (snap : Cell → ℕ) : Prop where
  exact : ∀ c, snap (.counter c) = m.total c events
  fits : ∀ histogram, upTo snap histogram (bounds.length + 1) < 2 ^ 64

lemma Holds.upTo_eq (h : Holds m events snap) (histogram : HistogramId) (n : ℕ) : upTo snap histogram n =
    events.countP fun event => m.histogramOf event = histogram ∧ slot event.elapsed < n := by
  have hsum : upTo snap histogram n = bucketSum (fun c => m.total c events) histogram 0 n := by
    unfold upTo bucketSum
    exact Finset.sum_congr rfl fun j _ => h.exact _
  rw [hsum, bucketSum_total]
  simp only [Nat.zero_le, true_and, Nat.zero_add]

lemma Holds.upTo_all (h : Holds m events snap) (histogram : HistogramId) :
    upTo snap histogram (bounds.length + 1) = m.observed events histogram := by
  have hslot : ∀ d, slot d < bounds.length + 1 := fun d => Nat.lt_succ_of_le List.findIdx_le_length
  rw [h.upTo_eq]
  simp only [hslot, and_true, observed]

/-- The buckets count by durations. -/
lemma Holds.upTo_bound (h : Holds m events snap) (histogram : HistogramId) {i : ℕ} {bound : Bound}
    (hbound : bounds[i]? = some bound) : upTo snap histogram (i + 1) = m.within events histogram bound.value := by
  rw [h.upTo_eq]
  simp only [Nat.lt_succ_iff, slot_le_iff hbound, within]

lemma bucketLines_eq {f : ℕ → ℕ} {g : Bound → ℕ} (name labels : Text) {i : ℕ} (rest : List Bound)
    (h : ∀ j bound, rest[j]? = some bound → f (i + j + 1) = g bound) : bucketLines f name labels i rest =
      rest.map fun bound => .sample (name ++ "_bucket".toList) (labels ++ "le=\"".toList ++ bound.text ++ "\"".toList)
        (.count (g bound)) := by
  induction rest generalizing i with
  | nil => rfl
  | cons bound rest ih =>
    have hhead := h 0 bound rfl
    have htail := ih (i := i + 1) (by
      intro j b hb
      rw [← h (j + 1) b hb]
      congr 1
      omega)
    rw [bucketLines, htail, List.map_cons]
    rw [Nat.add_zero] at hhead
    rw [hhead]

lemma Holds.histogram (h : Holds m events snap) (histogram : HistogramId) (name labels : Text) :
    histogramLines (upTo snap histogram) (snap (.counter (.sumMicros histogram))) name labels =
      m.reportHistogram events histogram name labels := by
  have hbuckets := bucketLines_eq (g := fun bound => m.within events histogram bound.value) name
    (labels ++ if labels = [] then [] else [',']) bounds (fun j bound hbound => by
      rw [Nat.zero_add]
      exact h.upTo_bound histogram hbound)
  rw [histogramLines, hbuckets, h.upTo_all, h.exact, total_micros]
  rfl

lemma total_status (events : List Event) (route : ℕ) {code : ℕ} (hcode : code < statuses) :
    m.total (.status route code) events = events.countP (m.Answered route (code + 100)) := by
  apply total_eq_countP
  intro event
  rw [weight_status]
  simp only [hcode, true_and]

lemma Holds.statuses (h : Holds m events snap) (route : ℕ × Text) : (statusLines route).eval snap =
    (List.range statuses).flatMap fun code =>
      let n := events.countP (m.Answered route.1 (code + 100))
      if 0 < n then
        [.sample "oxbrook_requests_total".toList
          (route.2 ++ ",status=\"".toList ++ decimal (code + 100) ++ "\"".toList) (.count n)]
      else [] := by
  rw [statusLines, eval_collect]
  apply List.flatMap_congr
  intro code hcode
  rw [eval_bind, eval_fetch, eval_pure, h.exact, total_status events route.1 (List.mem_range.mp hcode)]

lemma Holds.single (h : Holds m events snap) (name : Text) {c : Counter} {P : Event → Prop} [DecidablePred P]
    (hweight : ∀ event, weight c (m.adds event) = if P event then 1 else 0) :
    (single name c).eval snap = [.sample name [] (.count (events.countP P))] := by
  rw [Metrics.single, eval_bind, eval_fetch, eval_pure, h.exact, total_eq_countP events hweight]

lemma eval_perWorker (workers : List Bool) (name : Text) (gauge : ℕ → Gauge) (value : ℕ → SampleValue) :
    (perWorker workers name gauge value).eval snap =
      reportGauge workers name fun i => value (snap (.gauge (gauge i))) := by
  rw [perWorker, eval_collect, reportGauge, List.map_eq_flatMap]
  rfl

/-- **Each family** says what was recorded. -/
lemma Holds.samples (h : Holds m events snap) (workers : List Bool) (draining : Option Bool) (f : Family) :
    (m.samples workers draining f).eval snap =
      m.reportSamples events workers draining (fun g => snap (.gauge g)) f := by
  cases f with
  | requests =>
    rw [Metrics.samples, eval_collect]
    exact List.flatMap_congr fun route _ => h.statuses route
  | durations =>
    rw [Metrics.samples, eval_collect]
    apply List.flatMap_congr
    intro route _
    rw [eval_durations route (h.fits _), h.upTo_all, h.histogram]
  | queueWait =>
    rw [Metrics.samples, eval_collect]
    apply List.flatMap_congr
    intro i _
    split_ifs
    · rw [eval_histogram _ _ _ (h.fits _), h.histogram]
    · rfl
  | loopRequests | loopQueued | wakePending => exact eval_perWorker _ _ _ _
  | connections | connectionsLimit | draining => rfl
  | shed | timeouts | limited =>
    apply h.single
    intro event
    simp [weight_adds, noted, observe, weight_cons, weight_nil]

lemma Holds.page (h : Holds m events snap) (workers : List Bool) (draining : Option Bool) :
    (m.render workers draining).eval snap = m.report events workers draining fun g => snap (.gauge g) := by
  rw [render, eval_collect]
  apply List.flatMap_congr
  intro f _
  unfold family
  split_ifs
  · rw [eval_bind, eval_pure, h.samples]
  · rfl

end Exact

/-- Events that are the same but for their order add up to the same. -/
lemma total_perm {events events' : List Event} (h : (events : Multiset Event) = events') (c : Counter) :
    m.total c events = m.total c events' :=
  ((Multiset.coe_eq_coe.mp h).map _).sum_eq

/-- **A scrape at rest says what was recorded.**  If nothing was being recorded when a scrape began, and nothing began
to be recorded before it ended, then its page is the report of all that was recorded: the counts are those of the
requests there were, and the buckets count them by their durations. -/
theorem scrape_at_rest (run : Reaches (Scraped.step m workers draining) (Scraped.fits m) Scraped.start s)
    (ended : s.readers k = .ended opened closed lines) (rest : opened.underWay = 0)
    (still : closed.begun = opened.begun) :
    ∃ gauge, lines = m.report opened.recorded workers (draining k) gauge := by
  obtain ⟨⟨-, hopened⟩, ⟨hclosed, -⟩, snap, heval, hsnap⟩ := snapshot_of_ended (balanced_new m) rfl run ended
  have hevents : (closed.begun : Multiset Event) = opened.recorded := by
    rw [still, hopened.events, rest, Multiset.map_zero, add_zero]
  have hholds : Holds m opened.recorded snap := by
    refine ⟨?_, upTo_lt hclosed fun c => (hsnap c).2⟩
    intro c
    have hlo := (hopened.total_le c).trans (hsnap c).1
    have hhi := (hsnap c).2.trans (hclosed.le_total c)
    rw [total_perm hevents] at hhi
    exact le_antisymm hhi hlo
  exact ⟨_, heval.symm.trans (hholds.page workers (draining k))⟩

theorem scrape_at_rest_once : ∃ (ledger : Ledger) (gauge : Gauge → ℕ), ledger.recorded = [turnedAway] ∧
    (home.render [true] none).eval ledger.look = home.report [turnedAway] [true] none gauge := by
  have hstart : Reaches (Scraped.step home [true] fun _ => none) (Scraped.fits home) Scraped.start Scraped.start :=
    .start
  obtain ⟨s, run, hreaders, -, hrecorded, hunder⟩ := reaches_recorded hstart home_fits
  obtain ⟨t, last, -, ended, -⟩ := reaches_scraped (k := 0) run (by rw [hreaders]; rfl)
  obtain ⟨gauge, hlines⟩ := scrape_at_rest last ended hunder rfl
  refine ⟨s.store, gauge, hrecorded, ?_⟩
  rw [hrecorded] at hlines
  exact hlines

end Metrics

end Oxbrook
