import Mathlib.Data.List.Nodup
import Oxbrook.Foundation.Exposition
import Oxbrook.Foundation.Numerals
import Oxbrook.Server.Scrapes

/-!
# The text of a scrape

What the page of `Metrics` is as text, and what a scraper reads in it.  The method and the path of a route are put
into the labels of its samples once, when the server starts, with backslashes, quotes and line feeds escaped; the paths
are the application's.  `read_scrape` says that a scraper reads back every sample with the labels as they are, and that
no two samples of a page are of one series: two routes the router has taken differ in their method or path.
-/

namespace Oxbrook

open Doubles Readings Readings.Readout StepMachine

namespace Metrics

/-! ## The text -/

variable (display : ℚ → Text)

/-- A number as it is printed; `display` is what `f64` prints. -/
def SampleValue.text : SampleValue → Text
  | .count n => decimal n
  | .seconds q => display q

def Line.text : Line → Text
  | .help name text => "# HELP ".toList ++ name ++ ' ' :: text ++ ['\n']
  | .kind name text => "# TYPE ".toList ++ name ++ ' ' :: text ++ ['\n']
  | .sample name labels value =>
    name ++ (if labels = [] then [] else '{' :: labels ++ ['}']) ++ ' ' :: value.text display ++ ['\n']

/-- The body of a scrape. -/
def pageText (lines : List Line) : Text := lines.flatMap (Line.text display)

/-! ## The routes a router takes -/

/-- `Router::build`, as far as it registers: `taken` says whether the tree of a method, which holds some paths, refuses
another one. -/
def register (taken : List Text → Text → Bool) : List (Text × Text) → List (Text × Text) → Bool
  | _, [] => true
  | held, (method, path) :: rest =>
    if taken ((held.filter fun route => route.1 = method).map Prod.snd) path then false
    else register taken (held ++ [(method, path)]) rest

/-- No route is registered twice, as a tree refuses a path it holds. -/
lemma nodup_of_register {taken : List Text → Text → Bool} (refuses : ∀ held path, path ∈ held → taken held path = true)
    {held routes : List (Text × Text)} (h : register taken held routes = true) (hheld : held.Nodup) :
    (held ++ routes).Nodup := by
  induction routes generalizing held with
  | nil => rwa [List.append_nil]
  | cons route routes ih =>
    rw [register] at h
    split_ifs at h with htaken
    have hnew : (route.1, route.2) ∉ held := by
      intro hmem
      apply htaken
      apply refuses
      exact List.mem_map.mpr ⟨route, List.mem_filter.mpr ⟨hmem, by simp⟩, rfl⟩
    have hrest := ih h (List.nodup_append'.mpr ⟨hheld, List.nodup_singleton _, by simpa using hnew⟩)
    rwa [List.append_assoc, List.singleton_append] at hrest

/-! ## What is told -/

/-- A sample as it is meant: its labels before they are escaped. -/
structure Told where
  name : Text
  labels : List (Text × Text)
  value : SampleValue

def Told.line (t : Told) : Line := .sample t.name (Exposition.labelsText t.labels) t.value

def Told.sample (t : Told) : Exposition.Sample := ⟨t.name, t.labels, t.value.text display⟩

/-- Name and labels: the series of a sample. -/
def Told.series (t : Told) : Text × List (Text × Text) := (t.name, t.labels)

def toldBuckets (upTo : ℕ → ℕ) (name : Text) (labels : List (Text × Text)) : ℕ → List Bound → List Told
  | _, [] => []
  | i, bound :: rest =>
    ⟨name ++ "_bucket".toList, labels ++ [("le".toList, bound.text)], .count (upTo (i + 1))⟩ ::
      toldBuckets upTo name labels (i + 1) rest

def toldHistogram (upTo : ℕ → ℕ) (micros : ℕ) (name : Text) (labels : List (Text × Text)) : List Told :=
  toldBuckets upTo name labels 0 bounds ++
    [⟨name ++ "_bucket".toList, labels ++ [("le".toList, "+Inf".toList)], .count (upTo (bounds.length + 1))⟩,
      ⟨name ++ "_sum".toList, labels, .seconds (nearest (nearest micros / 10 ^ 6))⟩,
      ⟨name ++ "_count".toList, labels, .count (upTo (bounds.length + 1))⟩]

def routePairs (route : Text × Text) : List (Text × Text) := [("method".toList, route.1), ("route".toList, route.2)]

def loopPairs (worker : ℕ) : List (Text × Text) := [("loop".toList, decimal worker)]

lemma routePairs_ne_nil (route : Text × Text) : routePairs route ≠ [] := List.cons_ne_nil _ _

lemma loopPairs_ne_nil (worker : ℕ) : loopPairs worker ≠ [] := List.cons_ne_nil _ _

section Told

variable (m : Metrics) (workers : List Bool) (draining : Option Bool) (snap : Cell → ℕ)

/-- The routes of a page with their indices. -/
def numbered : List (ℕ × (Text × Text)) :=
  (m.routes ++ [([], [])]).zipIdx.map fun (route : (Text × Text) × ℕ) => (route.2, route.1)

def toldStatuses (route : ℕ × (Text × Text)) : List Told :=
  (List.range statuses).flatMap fun code =>
    if 0 < snap (.counter (.status route.1 code)) then
      [⟨"oxbrook_requests_total".toList, routePairs route.2 ++ [("status".toList, decimal (code + 100))],
        .count (snap (.counter (.status route.1 code)))⟩]
    else []

def toldDurations (route : ℕ × (Text × Text)) : List Told :=
  if 0 < upTo snap (.duration route.1) (bounds.length + 1) then
    toldHistogram (upTo snap (.duration route.1)) (snap (.counter (.sumMicros (.duration route.1))))
      "oxbrook_request_duration_seconds".toList (routePairs route.2)
  else []

def toldGauge (name : Text) (value : ℕ → SampleValue) : List Told :=
  (List.range workers.length).map fun i => ⟨name, loopPairs i, value i⟩

/-- What the samples of a family tell. -/
def told : Family → List Told
  | .requests => m.numbered.flatMap (toldStatuses snap)
  | .durations => m.numbered.flatMap (toldDurations snap)
  | .queueWait => (List.range workers.length).flatMap fun i =>
    if workers.getD i false then
      toldHistogram (upTo snap (.wait i)) (snap (.counter (.sumMicros (.wait i)))) "oxbrook_queue_wait_seconds".toList
        (loopPairs i)
    else []
  | .loopRequests => toldGauge workers "oxbrook_loop_requests".toList fun i => .count (snap (.gauge (.load i)))
  | .loopQueued => toldGauge workers "oxbrook_loop_queued".toList fun i => .count (snap (.gauge (.queued i)))
  | .wakePending =>
    toldGauge workers "oxbrook_loop_wake_pending_seconds".toList fun i =>
      .seconds (asSecsF64 (snap (.gauge (.waitingFor i))))
  | .connections =>
    [⟨"oxbrook_connections".toList, [], .count (m.connections.getD 0 - snap (.gauge .availablePermits))⟩]
  | .connectionsLimit => [⟨"oxbrook_connections_limit".toList, [], .count (m.connections.getD 0)⟩]
  | .shed => [⟨"oxbrook_requests_shed_total".toList, [], .count (snap (.counter .shed))⟩]
  | .timeouts => [⟨"oxbrook_request_timeouts_total".toList, [], .count (snap (.counter .timeouts))⟩]
  | .limited => [⟨"oxbrook_requests_limited_total".toList, [], .count (snap (.counter .limited))⟩]
  | .draining => [⟨"oxbrook_draining".toList, [], .count (if draining = some true then 1 else 0)⟩]

/-- All that a page tells. -/
def toldPage : List Told :=
  Family.all.flatMap fun f => if m.present draining f then m.told workers draining snap f else []

end Told

/-! ## The lines are what is told -/

/-- **`escape` writes a label as a scraper reads it.** -/
lemma escape_eq_quoted (value : Text) : escape value = Exposition.quoted value := by
  simp only [escape, Replace.replaceAll_singleton, List.flatMap_assoc, Exposition.quoted]
  apply List.flatMap_congr
  intro c _
  by_cases hbackslash : c = '\\'
  · subst hbackslash
    rfl
  by_cases hquote : c = '"'
  · subst hquote
    rfl
  by_cases hfeed : c = '\n'
  · subst hfeed
    rfl
  · simp [Exposition.quotedChar, hbackslash, hquote, hfeed]

lemma quoted_of_plain {value : Text} (h : ∀ c ∈ value, c ≠ '\\' ∧ c ≠ '"' ∧ c ≠ '\n') :
    Exposition.quoted value = value := by
  have hone : ∀ c ∈ value, Exposition.quotedChar c = [c] := by
    intro c hc
    obtain ⟨hbackslash, hquote, hfeed⟩ := h c hc
    rw [Exposition.quotedChar, if_neg hbackslash, if_neg hquote, if_neg hfeed]
  rw [Exposition.quoted, List.flatMap_congr hone, ← List.map_eq_flatMap, List.map_id']

lemma quoted_decimal (n : ℕ) : Exposition.quoted (decimal n) = decimal n := by
  apply quoted_of_plain
  intro c hc
  obtain ⟨d, hd, rfl⟩ := Numerals.mem_toDigits (by norm_num) (by norm_num) hc
  clear hc
  revert d
  decide

lemma quoted_bounds : ∀ bound ∈ bounds, Exposition.quoted bound.text = bound.text := by
  have hall : (bounds.all fun bound => bound.text.all fun c => c ≠ '\\' ∧ c ≠ '"' ∧ c ≠ '\n') = true := by decide
  intro bound hbound
  apply quoted_of_plain
  intro c hc
  exact of_decide_eq_true (List.all_eq_true.mp (List.all_eq_true.mp hall bound hbound) c hc)

lemma labelsText_append {labels : List (Text × Text)} (hne : labels ≠ []) (label : Text × Text) :
    Exposition.labelsText (labels ++ [label]) =
      Exposition.labelsText labels ++ [','] ++ Exposition.labelText label := by
  induction labels with
  | nil => exact absurd rfl hne
  | cons first labels ih =>
    cases labels with
    | nil => rfl
    | cons next labels =>
      have hrest := ih (List.cons_ne_nil _ _)
      simp only [List.cons_append, Exposition.labelsText] at hrest ⊢
      rw [hrest]
      simp only [List.append_assoc]

lemma labelsText_ne_nil {labels : List (Text × Text)} (hne : labels ≠ []) : Exposition.labelsText labels ≠ [] := by
  have hlength := Exposition.length_le_labelsText labels
  have hpos := List.length_pos_iff.mpr hne
  exact List.ne_nil_of_length_pos (by omega)

lemma routeLabels_eq (route : Text × Text) : routeLabels route = Exposition.labelsText (routePairs route) := by
  have hmethod : "method=\"".toList = "method".toList ++ ['=', '"'] := by decide
  have hroute : "\",route=\"".toList = ['"'] ++ ([','] ++ ("route".toList ++ ['=', '"'])) := by decide
  have hend : "\"".toList = ['"'] := by decide
  unfold routeLabels
  rw [routePairs, Exposition.labelsText, Exposition.labelsText, Exposition.labelText, Exposition.labelText,
    escape_eq_quoted, escape_eq_quoted, hmethod, hroute, hend]
  simp only [List.append_assoc]

lemma loopLabel_eq (worker : ℕ) : loopLabel worker = Exposition.labelsText (loopPairs worker) := by
  have hloop : "loop=\"".toList = "loop".toList ++ ['=', '"'] := by decide
  have hend : "\"".toList = ['"'] := by decide
  unfold loopLabel
  rw [loopPairs, Exposition.labelsText, Exposition.labelText, quoted_decimal, hloop, hend]

section Lines

variable {snap : Cell → ℕ}

lemma bucketLines_told (f : ℕ → ℕ) (name : Text) {labels : List (Text × Text)} (hne : labels ≠ []) (i : ℕ)
    {rest : List Bound} (hrest : ∀ bound ∈ rest, bound ∈ bounds) :
    bucketLines f name (Exposition.labelsText labels ++ [',']) i rest =
      (toldBuckets f name labels i rest).map Told.line := by
  induction rest generalizing i with
  | nil => rfl
  | cons bound rest ih =>
    rw [bucketLines, toldBuckets, List.map_cons, ih (i + 1) fun b hb => hrest b (List.mem_cons_of_mem _ hb), Told.line,
      labelsText_append hne, Exposition.labelText, quoted_bounds bound (hrest bound List.mem_cons_self)]
    simp only [List.append_assoc]
    rfl

lemma histogramLines_told (f : ℕ → ℕ) (micros : ℕ) (name : Text) {labels : List (Text × Text)} (hne : labels ≠ []) :
    histogramLines f micros name (Exposition.labelsText labels) =
      (toldHistogram f micros name labels).map Told.line := by
  have htext : Exposition.labelText ("le".toList, "+Inf".toList) = "le=\"+Inf\"".toList := by decide
  have hinf : Exposition.labelsText (labels ++ [("le".toList, "+Inf".toList)]) =
      Exposition.labelsText labels ++ [','] ++ "le=\"+Inf\"".toList := by rw [labelsText_append hne, htext]
  rw [histogramLines, if_neg (labelsText_ne_nil hne), bucketLines_told f name hne 0 fun b hb => hb, toldHistogram]
  simp only [List.map_append, List.map_cons, List.map_nil, Told.line, hinf]

lemma labelled_eq (m : Metrics) :
    m.labelled = m.numbered.map fun route : ℕ × (Text × Text) =>
      (route.1, Exposition.labelsText (routePairs route.2)) := by
  unfold labelled numbered
  rw [List.map_map]
  apply List.map_congr_left
  intro route _
  rw [routeLabels_eq]
  rfl

lemma toldStatuses_line (route : ℕ × (Text × Text)) :
    (statusLines (route.1, Exposition.labelsText (routePairs route.2))).eval snap =
      (toldStatuses snap route).map Told.line := by
  rw [statusLines, eval_collect, toldStatuses, List.map_flatMap]
  apply List.flatMap_congr
  intro code _
  have hlabels : Exposition.labelsText (routePairs route.2 ++ [("status".toList, decimal (code + 100))]) =
      Exposition.labelsText (routePairs route.2) ++ ",status=\"".toList ++ decimal (code + 100) ++ "\"".toList := by
    rw [labelsText_append (routePairs_ne_nil _), Exposition.labelText, quoted_decimal]
    simp only [List.append_assoc]
    rfl
  rw [eval_bind, eval_fetch, eval_pure]
  split_ifs
  · rw [List.map_singleton, Told.line, hlabels]
  · rfl

lemma toldDurations_line (route : ℕ × (Text × Text))
    (fits : upTo snap (.duration route.1) (bounds.length + 1) < 2 ^ 64) :
    (durationLines (route.1, Exposition.labelsText (routePairs route.2))).eval snap =
      (toldDurations snap route).map Told.line := by
  rw [eval_durations (route.1, Exposition.labelsText (routePairs route.2)) fits, toldDurations]
  split_ifs
  · exact histogramLines_told _ _ _ (routePairs_ne_nil _)
  · rfl

lemma toldGauge_line (workers : List Bool) (name : Text) (gauge : ℕ → Gauge) (value : ℕ → SampleValue) :
    (perWorker workers name gauge value).eval snap =
      (toldGauge workers name fun i => value (snap (.gauge (gauge i)))).map Told.line := by
  rw [eval_perWorker, reportGauge, toldGauge, List.map_map]
  apply List.map_congr_left
  intro i _
  rw [loopLabel_eq]
  rfl

/-- **The samples of a family** are the lines of what it tells. -/
lemma told_line (m : Metrics) (workers : List Bool) (draining : Option Bool)
    (fits : ∀ histogram, upTo snap histogram (bounds.length + 1) < 2 ^ 64) (f : Family) :
    (m.samples workers draining f).eval snap = (m.told workers draining snap f).map Told.line := by
  cases f with
  | requests =>
    rw [samples, eval_collect, told, List.map_flatMap, labelled_eq, List.flatMap_map]
    exact List.flatMap_congr fun route _ => toldStatuses_line route
  | durations =>
    rw [samples, eval_collect, told, List.map_flatMap, labelled_eq, List.flatMap_map]
    exact List.flatMap_congr fun route _ => toldDurations_line route (fits _)
  | queueWait =>
    rw [samples, eval_collect, told, List.map_flatMap]
    apply List.flatMap_congr
    intro i _
    split_ifs
    · rw [eval_histogram _ _ _ (fits _), loopLabel_eq, histogramLines_told _ _ _ (loopPairs_ne_nil i)]
    · rfl
  | loopRequests | loopQueued | wakePending => exact toldGauge_line _ _ _ _
  | connections | connectionsLimit | shed | timeouts | limited | draining => rfl

end Lines

/-! ## The document -/

/-- The lines of a family as a scraper takes them. -/
def Line.comment? : Line → Option Exposition.Line
  | .help name text => some (.comment (" HELP ".toList ++ name ++ ' ' :: text))
  | .kind name text => some (.comment (" TYPE ".toList ++ name ++ ' ' :: text))
  | .sample _ _ _ => none

/-- The page as a scraper takes it. -/
def meant (m : Metrics) (workers : List Bool) (draining : Option Bool) (snap : Cell → ℕ) : List Exposition.Line :=
  Family.all.flatMap fun f =>
    if m.present draining f then
      f.header.filterMap Line.comment? ++ (m.told workers draining snap f).map fun t => .sample (t.sample display)
    else []

lemma text_sample (name labels : Text) (value : SampleValue) : (Line.sample name labels value).text display =
    name ++ (if labels = [] then [] else '{' :: labels ++ ['}']) ++ ' ' :: value.text display ++ ['\n'] := rfl

lemma text_help (name text : Text) : (Line.help name text).text display =
    "# HELP ".toList ++ name ++ ' ' :: text ++ ['\n'] := rfl

lemma text_kind (name text : Text) : (Line.kind name text).text display =
    "# TYPE ".toList ++ name ++ ' ' :: text ++ ['\n'] := rfl

lemma text_line (t : Told) : t.line.text display = (t.sample display).text ++ ['\n'] := by
  have hnil : Exposition.labelsText t.labels = [] ↔ t.labels = [] := by
    constructor
    · intro h
      by_contra hne
      exact labelsText_ne_nil hne h
    · intro h
      rw [h]
      rfl
  rw [Told.line, text_sample, Told.sample, Exposition.Sample.text]
  by_cases h : t.labels = []
  · rw [if_pos (hnil.mpr h), if_pos h]
    simp
  · rw [if_neg fun heq => h (hnil.mp heq), if_neg h]
    simp

lemma header_eq (f : Family) : ∃ name kind text, f.header = header name kind text := by
  cases f <;> exact ⟨_, _, _, rfl⟩

lemma text_header (f : Family) :
    pageText display f.header = Exposition.documentText (f.header.filterMap Line.comment?) := by
  obtain ⟨name, kind, text, heq⟩ := header_eq f
  have hhelp : "# HELP ".toList = '#' :: " HELP ".toList := by decide
  have hkind : "# TYPE ".toList = '#' :: " TYPE ".toList := by decide
  rw [heq, header, pageText, List.flatMap_cons, List.flatMap_cons, List.flatMap_nil, text_help, text_kind, hhelp, hkind]
  rfl

lemma pageText_append (lines more : List Line) :
    pageText display (lines ++ more) = pageText display lines ++ pageText display more := List.flatMap_append

/-- **The text of a page** is the document that is meant. -/
lemma text_page (m : Metrics) (workers : List Bool) (draining : Option Bool) {snap : Cell → ℕ}
    (fits : ∀ histogram, upTo snap histogram (bounds.length + 1) < 2 ^ 64) :
    pageText display ((m.render workers draining).eval snap) =
      Exposition.documentText (m.meant display workers draining snap) := by
  rw [render, eval_collect, meant, Exposition.documentText, List.flatMap_assoc, pageText, List.flatMap_assoc]
  apply List.flatMap_congr
  intro f _
  unfold family
  split_ifs
  · rw [eval_bind, eval_pure, told_line m workers draining fits, List.flatMap_append, List.flatMap_append]
    congr 1
    · exact text_header display f
    · rw [List.flatMap_map, List.flatMap_map]
      exact List.flatMap_congr fun t _ => text_line display t
  · rfl

/-! ## Names and labels -/

def Family.names : Family → List Text
  | .requests => ["oxbrook_requests_total".toList]
  | .durations =>
    ["oxbrook_request_duration_seconds".toList ++ "_bucket".toList,
      "oxbrook_request_duration_seconds".toList ++ "_sum".toList,
      "oxbrook_request_duration_seconds".toList ++ "_count".toList]
  | .queueWait =>
    ["oxbrook_queue_wait_seconds".toList ++ "_bucket".toList, "oxbrook_queue_wait_seconds".toList ++ "_sum".toList,
      "oxbrook_queue_wait_seconds".toList ++ "_count".toList]
  | .loopRequests => ["oxbrook_loop_requests".toList]
  | .loopQueued => ["oxbrook_loop_queued".toList]
  | .wakePending => ["oxbrook_loop_wake_pending_seconds".toList]
  | .connections => ["oxbrook_connections".toList]
  | .connectionsLimit => ["oxbrook_connections_limit".toList]
  | .shed => ["oxbrook_requests_shed_total".toList]
  | .timeouts => ["oxbrook_request_timeouts_total".toList]
  | .limited => ["oxbrook_requests_limited_total".toList]
  | .draining => ["oxbrook_draining".toList]

lemma names_plain (f : Family) : ∀ name ∈ f.names, ∀ c ∈ name, Exposition.nameChar c = true := by
  have hall : (f.names.all fun name => name.all Exposition.nameChar) = true := by
    cases f <;> decide +kernel
  intro name hname
  exact List.all_eq_true.mp (List.all_eq_true.mp hall name hname)

lemma names_apart : Family.all.Pairwise fun f g => ∀ name ∈ f.names, name ∉ g.names := by
  decide +kernel

def labelNames : List Text := ["method".toList, "route".toList, "status".toList, "le".toList, "loop".toList]

lemma le_mem : "le".toList ∈ labelNames := by decide

lemma status_mem : "status".toList ∈ labelNames := by decide

lemma total_mem : "oxbrook_requests_total".toList ∈ Family.requests.names := by decide

/-- A sample of a family: its name is one of the family's, and its labels begin with these. -/
def Told.Of (f : Family) (labels : List (Text × Text)) (t : Told) : Prop :=
  t.name ∈ f.names ∧ ∃ more, t.labels = labels ++ more ∧ ∀ label ∈ more, label.1 ∈ labelNames

lemma of_toldBuckets {f : Family} {name : Text} (h : name ++ "_bucket".toList ∈ f.names) (upTo : ℕ → ℕ)
    (labels : List (Text × Text)) (i : ℕ) (rest : List Bound) :
    ∀ t ∈ toldBuckets upTo name labels i rest, t.Of f labels := by
  induction rest generalizing i with
  | nil => exact fun t ht => absurd ht List.not_mem_nil
  | cons bound rest ih =>
    intro t ht
    rcases List.mem_cons.mp ht with rfl | ht
    · refine ⟨h, [("le".toList, bound.text)], rfl, ?_⟩
      intro label hlabel
      rw [List.mem_singleton.mp hlabel]
      exact le_mem
    · exact ih (i + 1) t ht

lemma of_toldHistogram {f : Family} {name : Text} (hbucket : name ++ "_bucket".toList ∈ f.names)
    (hsum : name ++ "_sum".toList ∈ f.names) (hcount : name ++ "_count".toList ∈ f.names) (upTo : ℕ → ℕ) (micros : ℕ)
    (labels : List (Text × Text)) : ∀ t ∈ toldHistogram upTo micros name labels, t.Of f labels := by
  intro t ht
  rcases List.mem_append.mp ht with ht | ht
  · exact of_toldBuckets hbucket upTo labels 0 bounds t ht
  · have hnone : ∀ label ∈ ([] : List (Text × Text)), label.1 ∈ labelNames :=
      fun label hlabel => absurd hlabel List.not_mem_nil
    simp only [List.mem_cons, List.not_mem_nil, or_false] at ht
    rcases ht with rfl | rfl | rfl
    · refine ⟨hbucket, [("le".toList, "+Inf".toList)], rfl, ?_⟩
      intro label hlabel
      rw [List.mem_singleton.mp hlabel]
      exact le_mem
    · exact ⟨hsum, [], (List.append_nil _).symm, hnone⟩
    · exact ⟨hcount, [], (List.append_nil _).symm, hnone⟩

section Series

variable {m : Metrics} {workers : List Bool} {draining : Option Bool} {snap : Cell → ℕ}

lemma of_toldStatuses (route : ℕ × (Text × Text)) :
    ∀ t ∈ toldStatuses snap route, t.Of .requests (routePairs route.2) := by
  intro t ht
  obtain ⟨code, -, ht⟩ := List.mem_flatMap.mp ht
  split_ifs at ht
  · rw [List.mem_singleton.mp ht]
    refine ⟨total_mem, [("status".toList, decimal (code + 100))], rfl, ?_⟩
    intro label hlabel
    rw [List.mem_singleton.mp hlabel]
    exact status_mem
  · exact absurd ht List.not_mem_nil

lemma of_toldDurations (route : ℕ × (Text × Text)) :
    ∀ t ∈ toldDurations snap route, t.Of .durations (routePairs route.2) := by
  intro t ht
  unfold toldDurations at ht
  split_ifs at ht
  · exact of_toldHistogram (by decide) (by decide) (by decide) _ _ _ t ht
  · exact absurd ht List.not_mem_nil

lemma of_toldWait (i : ℕ) : ∀ t ∈ (if workers.getD i false then
    toldHistogram (upTo snap (.wait i)) (snap (.counter (.sumMicros (.wait i)))) "oxbrook_queue_wait_seconds".toList
      (loopPairs i) else []), t.Of .queueWait (loopPairs i) := by
  intro t ht
  split_ifs at ht
  · exact of_toldHistogram (by decide) (by decide) (by decide) _ _ _ t ht
  · exact absurd ht List.not_mem_nil

lemma of_toldGauge {name : Text} (value : ℕ → SampleValue) :
    ∀ t ∈ toldGauge workers name value, ∃ i, t.name = name ∧ t.labels = loopPairs i := by
  intro t ht
  obtain ⟨i, -, rfl⟩ := List.mem_map.mp ht
  exact ⟨i, rfl, rfl⟩

lemma routePairs_mem (route : Text × Text) : ∀ label ∈ routePairs route, label.1 ∈ labelNames := by
  intro label hlabel
  simp only [routePairs, List.mem_cons, List.not_mem_nil, or_false] at hlabel
  rcases hlabel with rfl | rfl
  · exact List.mem_cons_self
  · exact List.mem_cons_of_mem _ List.mem_cons_self

lemma loopPairs_mem (worker : ℕ) : ∀ label ∈ loopPairs worker, label.1 ∈ labelNames := by
  intro label hlabel
  rw [List.mem_singleton.mp hlabel]
  show "loop".toList ∈ labelNames
  decide

lemma Told.Of.labels_mem {f : Family} {labels : List (Text × Text)} {t : Told} (h : t.Of f labels)
    (hlabels : ∀ label ∈ labels, label.1 ∈ labelNames) : ∀ label ∈ t.labels, label.1 ∈ labelNames := by
  obtain ⟨-, more, heq, hmore⟩ := h
  intro label hlabel
  rw [heq] at hlabel
  rcases List.mem_append.mp hlabel with hlabel | hlabel
  · exact hlabels label hlabel
  · exact hmore label hlabel

/-- **Names and labels of what a family tells.** -/
lemma told_names (f : Family) : ∀ t ∈ m.told workers draining snap f,
    t.name ∈ f.names ∧ ∀ label ∈ t.labels, label.1 ∈ labelNames := by
  intro t ht
  cases f with
  | requests =>
    obtain ⟨route, -, ht⟩ := List.mem_flatMap.mp ht
    have h := of_toldStatuses route t ht
    exact ⟨h.1, h.labels_mem (routePairs_mem _)⟩
  | durations =>
    obtain ⟨route, -, ht⟩ := List.mem_flatMap.mp ht
    have h := of_toldDurations route t ht
    exact ⟨h.1, h.labels_mem (routePairs_mem _)⟩
  | queueWait =>
    obtain ⟨i, -, ht⟩ := List.mem_flatMap.mp ht
    have h := of_toldWait i t ht
    exact ⟨h.1, h.labels_mem (loopPairs_mem _)⟩
  | loopRequests | loopQueued | wakePending =>
    obtain ⟨i, hname, hlabels⟩ := of_toldGauge _ t ht
    rw [hname, hlabels]
    exact ⟨List.mem_cons_self, loopPairs_mem i⟩
  | connections | connectionsLimit | shed | timeouts | limited | draining =>
    rw [List.mem_singleton.mp ht]
    exact ⟨List.mem_cons_self, fun label hlabel => absurd hlabel List.not_mem_nil⟩

/-! ## No series twice -/

lemma decimal_inj {i j : ℕ} (h : decimal i = decimal j) : i = j := by
  have hi := Numerals.readDigits_toDigits (by norm_num : 1 < 10) (by norm_num) i
  have hj := Numerals.readDigits_toDigits (by norm_num : 1 < 10) (by norm_num) j
  unfold decimal at h
  rw [h, hj] at hi
  exact (Option.some.inj hi).symm

lemma routePairs_inj {route route' : Text × Text} {more more' : List (Text × Text)}
    (h : routePairs route ++ more = routePairs route' ++ more') : route = route' := by
  have hpairs := (List.append_inj h rfl).1
  simp only [routePairs, List.cons.injEq, Prod.mk.injEq, true_and, and_true] at hpairs
  exact Prod.ext hpairs.1 hpairs.2

lemma loopPairs_inj {i j : ℕ} {more more' : List (Text × Text)} (h : loopPairs i ++ more = loopPairs j ++ more') :
    i = j := by
  have hpairs := (List.append_inj h rfl).1
  simp only [loopPairs, List.cons.injEq, Prod.mk.injEq, true_and, and_true] at hpairs
  exact decimal_inj hpairs

lemma series_toldBuckets (upTo : ℕ → ℕ) (name : Text) (labels : List (Text × Text)) (i : ℕ) (rest : List Bound) :
    (toldBuckets upTo name labels i rest).map Told.series =
      (rest.map Bound.text).map fun text => (name ++ "_bucket".toList, labels ++ [("le".toList, text)]) := by
  induction rest generalizing i with
  | nil => rfl
  | cons bound rest ih =>
    rw [toldBuckets, List.map_cons, ih]
    rfl

lemma suffixes_ne (name : Text) : name ++ "_sum".toList ≠ name ++ "_bucket".toList ∧
    name ++ "_count".toList ≠ name ++ "_bucket".toList ∧ name ++ "_sum".toList ≠ name ++ "_count".toList := by
  refine ⟨?_, ?_, ?_⟩ <;>
    · intro h
      have hsuffix := List.append_cancel_left h
      revert hsuffix
      decide

lemma texts_nodup : (bounds.map Bound.text ++ ["+Inf".toList]).Nodup := by decide

lemma series_toldHistogram (upTo : ℕ → ℕ) (micros : ℕ) (name : Text) (labels : List (Text × Text)) :
    ((toldHistogram upTo micros name labels).map Told.series).Nodup := by
  obtain ⟨hsum, hcount, hne⟩ := suffixes_ne name
  have hmap : (toldHistogram upTo micros name labels).map Told.series =
      ((bounds.map Bound.text ++ ["+Inf".toList]).map fun text =>
        (name ++ "_bucket".toList, labels ++ [("le".toList, text)])) ++
          [(name ++ "_sum".toList, labels), (name ++ "_count".toList, labels)] := by
    rw [toldHistogram, List.map_append, series_toldBuckets, List.map_append, List.append_assoc]
    rfl
  have hinj : Function.Injective fun text : Text => (name ++ "_bucket".toList, labels ++ [("le".toList, text)]) := by
    intro a b h
    have hlabels := List.append_cancel_left (Prod.ext_iff.mp h).2
    exact (Prod.ext_iff.mp (List.cons.inj hlabels).1).2
  rw [hmap, List.nodup_append']
  refine ⟨texts_nodup.map hinj, ?_, ?_⟩
  · rw [List.nodup_cons, List.mem_singleton]
    exact ⟨fun h => hne (Prod.ext_iff.mp h).1, List.nodup_singleton _⟩
  · intro series hseries hlast
    obtain ⟨text, -, rfl⟩ := List.mem_map.mp hseries
    simp only [List.mem_cons, List.not_mem_nil, or_false] at hlast
    rcases hlast with h | h
    · exact hsum (Prod.ext_iff.mp h).1.symm
    · exact hcount (Prod.ext_iff.mp h).1.symm

lemma numbered_apart (h : (m.routes ++ [([], [])]).Nodup) : m.numbered.Pairwise fun a b => a.2 ≠ b.2 := by
  have hsnd : m.numbered.map Prod.snd = m.routes ++ [([], [])] := by
    unfold numbered
    rw [List.map_map]
    have hfst : (Prod.snd ∘ fun route : (Text × Text) × ℕ => (route.2, route.1)) = Prod.fst := rfl
    rw [hfst, List.zipIdx_map_fst]
  rw [← hsnd] at h
  exact List.pairwise_map.mp h

/-- Series whose labels begin differently are different. -/
lemma series_apart {β : Type} {f : Family} {items : List β} {tell : β → List Told} (start : β → List (Text × Text))
    (h : ∀ b ∈ items, ∀ t ∈ tell b, t.Of f (start b))
    (apart : items.Pairwise fun a b => ∀ more more', start a ++ more ≠ start b ++ more')
    (hone : ∀ b ∈ items, ((tell b).map Told.series).Nodup) : ((items.flatMap tell).map Told.series).Nodup := by
  rw [List.map_flatMap, List.nodup_flatMap]
  refine ⟨hone, apart.imp_of_mem ?_⟩
  intro a b ha hb hne series hleft hright
  obtain ⟨t, ht, rfl⟩ := List.mem_map.mp hleft
  obtain ⟨t', ht', heq⟩ := List.mem_map.mp hright
  obtain ⟨-, more, hmore, -⟩ := h a ha t ht
  obtain ⟨-, more', hmore', -⟩ := h b hb t' ht'
  have hlabels : t'.labels = t.labels := (Prod.ext_iff.mp heq).2
  rw [hmore, hmore'] at hlabels
  exact hne more more' hlabels.symm

lemma series_toldStatuses (route : ℕ × (Text × Text)) : ((toldStatuses snap route).map Told.series).Nodup := by
  rw [toldStatuses, List.map_flatMap, List.nodup_flatMap]
  constructor
  · intro code _
    split_ifs
    · exact List.nodup_singleton _
    · exact List.nodup_nil
  · refine List.nodup_range.imp ?_
    intro i j hne series hleft hright
    simp only at hleft hright
    split_ifs at hleft hright
    · rw [List.map_singleton, List.mem_singleton] at hleft hright
      rw [hleft] at hright
      have hlabels := List.append_cancel_left (Prod.ext_iff.mp hright).2
      have hcode := decimal_inj (Prod.ext_iff.mp (List.cons.inj hlabels).1).2
      exact hne (Nat.add_right_cancel hcode)
    all_goals simp at hleft hright

lemma series_toldGauge (name : Text) (value : ℕ → SampleValue) :
    ((toldGauge workers name value).map Told.series).Nodup := by
  rw [toldGauge, List.map_map]
  apply List.nodup_range.map
  intro i j h
  have hlabels : loopPairs i ++ [] = loopPairs j ++ [] := by
    rw [List.append_nil, List.append_nil]
    exact (Prod.ext_iff.mp h).2
  exact loopPairs_inj hlabels

lemma series_told (h : (m.routes ++ [([], [])]).Nodup) (f : Family) :
    ((m.told workers draining snap f).map Told.series).Nodup := by
  have hroutes : m.numbered.Pairwise fun a b => ∀ more more', routePairs a.2 ++ more ≠ routePairs b.2 ++ more' :=
    (numbered_apart h).imp fun hne more more' heq => hne (routePairs_inj heq)
  cases f with
  | requests =>
    exact series_apart (fun route : ℕ × (Text × Text) => routePairs route.2)
      (fun route _ => of_toldStatuses route) hroutes fun route _ => series_toldStatuses route
  | durations =>
    apply series_apart (fun route : ℕ × (Text × Text) => routePairs route.2)
      (fun route _ => of_toldDurations route) hroutes
    intro route _
    unfold toldDurations
    split_ifs
    · exact series_toldHistogram _ _ _ _
    · exact List.nodup_nil
  | queueWait =>
    apply series_apart loopPairs (fun i _ => of_toldWait i)
      (List.nodup_range.imp fun hne more more' heq => hne (loopPairs_inj heq))
    intro i _
    split_ifs
    · exact series_toldHistogram _ _ _ _
    · exact List.nodup_nil
  | loopRequests | loopQueued | wakePending => exact series_toldGauge _ _
  | connections | connectionsLimit | shed | timeouts | limited | draining => exact List.nodup_singleton _

/-- **No series is on a page twice.** -/
lemma series_page (h : (m.routes ++ [([], [])]).Nodup) :
    ((m.toldPage workers draining snap).map Told.series).Nodup := by
  rw [toldPage, List.map_flatMap, List.nodup_flatMap]
  constructor
  · intro f _
    split_ifs
    · exact series_told h f
    · exact List.nodup_nil
  · refine names_apart.imp ?_
    intro f g hne series hleft hright
    simp only at hleft hright
    split_ifs at hleft hright
    · obtain ⟨t, ht, rfl⟩ := List.mem_map.mp hleft
      obtain ⟨t', ht', heq⟩ := List.mem_map.mp hright
      have hname : t'.name = t.name := (Prod.ext_iff.mp heq).1
      have hmem := (told_names g t' ht').1
      rw [hname] at hmem
      exact hne t.name (told_names f t ht).1 hmem
    all_goals simp at hleft hright

/-! ## What a scraper reads -/

lemma labelNames_plain : ∀ name ∈ labelNames, ∀ c ∈ name, Exposition.nameChar c = true := by
  have hall : (labelNames.all fun name => name.all Exposition.nameChar) = true := by decide
  intro name hname
  exact List.all_eq_true.mp (List.all_eq_true.mp hall name hname)

lemma plain_sample (hdisplay : ∀ q, '\n' ∉ display q) (f : Family) :
    ∀ t ∈ m.told workers draining snap f, (t.sample display).Plain := by
  intro t ht
  obtain ⟨hname, hlabels⟩ := told_names f t ht
  refine ⟨names_plain f _ hname, fun label hlabel => labelNames_plain _ (hlabels label hlabel), ?_⟩
  show '\n' ∉ t.value.text display
  cases t.value with
  | count n =>
    intro hmem
    obtain ⟨d, hd, heq⟩ := Numerals.mem_toDigits (by norm_num) (by norm_num) hmem
    clear hmem
    revert heq
    revert d
    decide
  | seconds q => exact hdisplay q

/-- The words of a line that is no sample. -/
def Line.words : Line → Text
  | .help name text => name ++ text
  | .kind name text => name ++ text
  | .sample _ _ _ => []

lemma header_words (f : Family) : ∀ line ∈ f.header, '\n' ∉ line.words := by
  cases f <;> decide +kernel

lemma plain_header (f : Family) : ∀ line ∈ f.header.filterMap Line.comment?, line.Plain := by
  intro line hline
  obtain ⟨source, hsource, heq⟩ := List.mem_filterMap.mp hline
  have hwords := header_words f source hsource
  cases source with
  | help name text =>
    obtain rfl := Option.some.inj heq
    rw [Line.words, List.mem_append, not_or] at hwords
    show '\n' ∉ " HELP ".toList ++ name ++ ' ' :: text
    rw [List.mem_append, List.mem_append, List.mem_cons]
    rintro ((h | h) | h | h)
    · revert h
      decide
    · exact hwords.1 h
    · cases h
    · exact hwords.2 h
  | kind name text =>
    obtain rfl := Option.some.inj heq
    rw [Line.words, List.mem_append, not_or] at hwords
    show '\n' ∉ " TYPE ".toList ++ name ++ ' ' :: text
    rw [List.mem_append, List.mem_append, List.mem_cons]
    rintro ((h | h) | h | h)
    · revert h
      decide
    · exact hwords.1 h
    · cases h
    · exact hwords.2 h
  | sample name labels value => cases heq

lemma read_page (hdisplay : ∀ q, '\n' ∉ display q)
    (fits : ∀ histogram, upTo snap histogram (bounds.length + 1) < 2 ^ 64) :
    Exposition.readDocument (pageText display ((m.render workers draining).eval snap)) =
      some ((m.toldPage workers draining snap).map (Told.sample display)) := by
  have hplain : ∀ line ∈ m.meant display workers draining snap, line.Plain := by
    intro line hline
    obtain ⟨f, -, hline⟩ := List.mem_flatMap.mp hline
    split_ifs at hline
    · rcases List.mem_append.mp hline with hline | hline
      · exact plain_header f line hline
      · obtain ⟨t, ht, rfl⟩ := List.mem_map.mp hline
        exact plain_sample display hdisplay f t ht
    · exact absurd hline List.not_mem_nil
  have hsamples : (m.meant display workers draining snap).filterMap Exposition.Line.sample? =
      (m.toldPage workers draining snap).map (Told.sample display) := by
    rw [meant, toldPage, List.filterMap_flatMap, List.map_flatMap]
    apply List.flatMap_congr
    intro f _
    split_ifs
    · have hheader : (f.header.filterMap Line.comment?).filterMap Exposition.Line.sample? = [] := by
        obtain ⟨name, kind, text, heq⟩ := header_eq f
        rw [heq]
        rfl
      rw [List.filterMap_append, hheader, List.nil_append, List.filterMap_map]
      exact congrFun List.filterMap_eq_map _
    · rfl
  rw [text_page display m workers draining fits, Exposition.readDocument_text hplain, hsamples]

end Series

variable {m : Metrics} {workers : List Bool} {draining : ℕ → Option Bool} {s : Scraped} {k : ℕ}
  {opened closed : Ledger} {lines : List Line}

/-- **What a scraper reads.**  Of every scrape of a server whose routes the router has taken, whatever is being recorded
meanwhile, a scraper reads the samples of one snapshot with the labels as they are: the method and the path of a route
come back whatever characters they have.  No two of the samples are of one series. -/
theorem read_scrape (taken : List Text → Text → Bool) (refuses : ∀ held path, path ∈ held → taken held path = true)
    (registered : register taken [] m.routes = true) (named : ([], []) ∉ m.routes)
    (hdisplay : ∀ q, '\n' ∉ display q)
    (run : Reaches (Scraped.step m workers draining) (Scraped.fits m) Scraped.start s)
    (ended : s.readers k = .ended opened closed lines) :
    ∃ snap : Cell → ℕ, lines = (m.render workers (draining k)).eval snap ∧
      Exposition.readDocument (pageText display lines) =
        some ((m.toldPage workers (draining k) snap).map (Told.sample display)) ∧
      ((m.toldPage workers (draining k) snap).map Told.series).Nodup := by
  obtain ⟨-, ⟨hclosed, -⟩, snap, heval, hsnap⟩ := snapshot_of_ended (balanced_new m) rfl run ended
  have hroutes : (m.routes ++ [([], [])]).Nodup := by
    have hnodup := nodup_of_register refuses registered List.nodup_nil
    rw [List.nil_append] at hnodup
    refine List.nodup_append'.mpr ⟨hnodup, List.nodup_singleton _, ?_⟩
    intro route hroute hlast
    rw [List.mem_singleton.mp hlast] at hroute
    exact named hroute
  refine ⟨snap, heval.symm, ?_, series_page hroutes⟩
  rw [← heval]
  exact read_page display hdisplay (upTo_lt hclosed fun c => (hsnap c).2)

theorem read_scrape_halfway : ∃ snap : Cell → ℕ,
    (home.render [true] none).eval halfway.look = (home.render [true] none).eval snap ∧
      Exposition.readDocument (pageText (fun _ => ['0']) ((home.render [true] none).eval halfway.look)) =
        some ((home.toldPage [true] none snap).map (Told.sample fun _ => ['0'])) ∧
      ((home.toldPage [true] none snap).map Told.series).Nodup := by
  obtain ⟨s, run, -, ended, -⟩ := reaches_scraped (k := 0) reaches_halfway rfl
  obtain ⟨snap, hlines, hread, hnodup⟩ := read_scrape (fun _ => ['0']) (fun held path => held.contains path)
    (fun held path h => List.contains_iff_mem.mpr h) (by decide) (by decide) (fun _ => by decide) run ended
  exact ⟨snap, hlines, hread, hnodup⟩

end Metrics

end Oxbrook
