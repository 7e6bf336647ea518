import Mathlib.Algebra.BigOperators.Group.Finset.Piecewise
import Mathlib.Algebra.Group.Nat.Defs
import Mathlib.Algebra.Order.BigOperators.Group.List
import Mathlib.Algebra.Order.BigOperators.Group.Multiset
import Oxbrook.Foundation.Doubles
import Oxbrook.Foundation.Readings
import Oxbrook.Foundation.Replace
import Oxbrook.Origins.Patterns

/-!
# Metrics

The server's own metrics (`src/metrics.rs`).  A request that has been answered is recorded in a fixed array of
counters, one relaxed `fetch_add` after another, and a scrape loads the counters one after another while requests go
on being recorded.  Nothing keeps a scrape from seeing half of a request.

`scrape_between` says what a scrape is worth all the same: it is the page that the same code makes of one snapshot, and
in that snapshot every counter lies between what the requests recorded before the scrape began add up to and what
those begun before it ended do.
-/

namespace Oxbrook

open Doubles Readings Readings.Readout StepMachine

namespace Metrics

/-! ## Buckets -/

/-- An upper bound of the duration buckets, in seconds, and what it is printed as. -/
structure Bound where
  value : ℚ
  text : Text

/-- `BOUNDS`. -/
def bounds : List Bound :=
  [⟨1 / 1000, "0.001".toList⟩, ⟨25 / 10000, "0.0025".toList⟩, ⟨5 / 1000, "0.005".toList⟩,
    ⟨1 / 100, "0.01".toList⟩, ⟨25 / 1000, "0.025".toList⟩, ⟨5 / 100, "0.05".toList⟩, ⟨1 / 10, "0.1".toList⟩,
    ⟨25 / 100, "0.25".toList⟩, ⟨5 / 10, "0.5".toList⟩, ⟨1, "1".toList⟩, ⟨25 / 10, "2.5".toList⟩, ⟨5, "5".toList⟩,
    ⟨10, "10".toList⟩]

/-- `Duration::as_secs_f64`, of a duration in nanoseconds. -/
def asSecsF64 (elapsed : ℕ) : ℚ :=
  nearest (nearest (elapsed / 10 ^ 9 : ℕ) + nearest ((elapsed % 10 ^ 9 : ℕ) / 10 ^ 9))

/-- The slot `Histogram::observe` adds to. -/
def slot (elapsed : ℕ) : ℕ := bounds.findIdx fun bound => asSecsF64 elapsed ≤ nearest bound.value

/-! ## Counters -/

inductive HistogramId
  -- of a route, by its index; the index after the last is that of `unmatched`
  | duration (route : ℕ)
  -- of a worker's queue
  | wait (worker : ℕ)
  deriving DecidableEq

inductive Counter
  | status (route code : ℕ)
  | bucket (histogram : HistogramId) (slot : ℕ)
  | sumMicros (histogram : HistogramId)
  | shed
  | timeouts
  | limited
  deriving DecidableEq

/-- What is loaded from elsewhere: the queues and the semaphore of the connections. -/
inductive Gauge
  | load (worker : ℕ)
  | queued (worker : ℕ)
  -- in nanoseconds, zero where no wake is waiting
  | waitingFor (worker : ℕ)
  | availablePermits
  deriving DecidableEq

inductive Cell
  | counter (c : Counter)
  | gauge (g : Gauge)
  deriving DecidableEq

/-- Addition of a `u64`. -/
def add64 (a b : ℕ) : ℕ := (a + b) % 2 ^ 64

inductive Refusal
  | shed
  | timedOut
  | limited
  deriving DecidableEq

/-- What is recorded: a request, once its response exists, and a request taken from a worker's queue. -/
inductive Event
  | request (route : Option ℕ) (status elapsed : ℕ) (refusal : Option Refusal)
  | popped (worker waited : ℕ)
  deriving DecidableEq

/-- `STATUSES`. -/
def statuses : ℕ := 500

/-- `Histogram::observe`, as the additions it makes. -/
def observe (histogram : HistogramId) (elapsed : ℕ) : List (Counter × ℕ) :=
  [(.bucket histogram (slot elapsed), 1), (.sumMicros histogram, elapsed / 1000 % 2 ^ 64)]

end Metrics

structure Metrics where
  -- method and path of each route, as the router numbers them
  routes : List (Text × Text)
  -- the limit of `watch_connections`
  connections : Option ℕ

namespace Metrics

section Record

variable (m : Metrics)

/-- The route a request is recorded under. -/
def entry (route : Option ℕ) : ℕ :=
  match route with
  | some i => if i < m.routes.length then i else m.routes.length
  | none => m.routes.length

/-- The last addition of `Metrics::record`. -/
def refused : Option Refusal → List (Counter × ℕ)
  | some .shed => [(.shed, 1)]
  | some .timedOut => [(.timeouts, 1)]
  | some .limited => [(.limited, 1)]
  | none => []

/-- `Metrics::record`, as the additions it makes. -/
def record (route : Option ℕ) (status elapsed : ℕ) (refusal : Option Refusal) : List (Counter × ℕ) :=
  (if 100 ≤ status ∧ status < 100 + statuses then [(.status (m.entry route) (status - 100), 1)] else []) ++
    observe (.duration (m.entry route)) elapsed ++ refused refusal

/-- The additions an event makes. -/
def adds : Event → List (Counter × ℕ)
  | .request route status elapsed refusal => m.record route status elapsed refusal
  -- `WorkerQueue::pop`
  | .popped worker waited => observe (.wait worker) waited

end Record

/-! ## The page -/

/-- The number of a sample. -/
inductive SampleValue
  | count (n : ℕ)
  | seconds (q : ℚ)
  deriving DecidableEq

/-- A line of the page; `labels` is what stands between the braces, which are left out where it is empty. -/
inductive Line
  | help (name help : Text)
  | kind (name kind : Text)
  | sample (name labels : Text) (value : SampleValue)
  deriving DecidableEq

/-- `escape`. -/
def escape (value : Text) : Text :=
  Replace.replaceAll ['\n'] ['\\', 'n']
    (Replace.replaceAll ['"'] ['\\', '"'] (Replace.replaceAll ['\\'] ['\\', '\\'] value))

/-- `header`. -/
def header (name kind help : Text) : List Line := [.help name help, .kind name kind]

/-- A decimal numeral. -/
def decimal (n : ℕ) : Text := Nat.toDigits 10 n

/-- `labels` of `Route::new`. -/
def routeLabels (route : Text × Text) : Text :=
  "method=\"".toList ++ escape route.1 ++ "\",route=\"".toList ++ escape route.2 ++ "\"".toList

abbrev Page := Readout Cell ℕ (List Line)

/-- The loop of `Histogram::render` over the bounds from the `i`-th on. -/
def renderBuckets (histogram : HistogramId) (name labels : Text) : ℕ → List Bound → ℕ →
    Readout Cell ℕ (List Line × ℕ)
  | _, [], running => pure ([], running)
  | i, bound :: rest, running => do
    let n ← fetch (.counter (.bucket histogram i))
    let later ← renderBuckets histogram name labels (i + 1) rest (add64 running n)
    pure (.sample (name ++ "_bucket".toList) (labels ++ "le=\"".toList ++ bound.text ++ "\"".toList)
      (.count (add64 running n)) :: later.1, later.2)

/-- `Histogram::render`. -/
def renderHistogram (histogram : HistogramId) (name labels : Text) : Page := do
  let sep := if labels = [] then [] else [',']
  let found ← renderBuckets histogram name (labels ++ sep) 0 bounds 0
  let last ← fetch (.counter (.bucket histogram bounds.length))
  let running := add64 found.2 last
  let sum ← fetch (.counter (.sumMicros histogram))
  pure (found.1 ++
    [.sample (name ++ "_bucket".toList) (labels ++ sep ++ "le=\"+Inf\"".toList) (.count running),
      .sample (name ++ "_sum".toList) labels (.seconds (nearest (nearest sum / 10 ^ 6))),
      .sample (name ++ "_count".toList) labels (.count running)])

/-- The sum of the buckets of a histogram, from the `i`-th on. -/
def sumBuckets (histogram : HistogramId) : ℕ → ℕ → ℕ → Readout Cell ℕ ℕ
  | _, 0, seen => pure seen
  | i, n + 1, seen => do
    let here ← fetch (.counter (.bucket histogram i))
    sumBuckets histogram (i + 1) n (add64 seen here)

/-- The families of the page, in their order. -/
inductive Family
  | requests
  | durations
  | queueWait
  | loopRequests
  | loopQueued
  | wakePending
  | connections
  | connectionsLimit
  | shed
  | timeouts
  | limited
  | draining
  deriving DecidableEq

def Family.all : List Family :=
  [.requests, .durations, .queueWait, .loopRequests, .loopQueued, .wakePending, .connections, .connectionsLimit, .shed,
    .timeouts, .limited, .draining]

def loopLabel (worker : ℕ) : Text := "loop=\"".toList ++ decimal worker ++ "\"".toList

/-- The samples of one gauge for each worker. -/
def perWorker (workers : List Bool) (name : Text) (gauge : ℕ → Gauge) (value : ℕ → SampleValue) : Page :=
  collect (fun i => do
    let n ← fetch (.gauge (gauge i))
    pure [.sample name (loopLabel i) (value n)]) (List.range workers.length)

/-- The lines before the samples of a family. -/
def Family.header : Family → List Line
  | .requests => Metrics.header "oxbrook_requests_total".toList "counter".toList
      "Requests answered, by route template and status.".toList
  | .durations => Metrics.header "oxbrook_request_duration_seconds".toList "histogram".toList
      "Time from the request's arrival to its response headers, by route template.".toList
  | .queueWait => Metrics.header "oxbrook_queue_wait_seconds".toList "histogram".toList
      "Time a request waited in a worker loop's queue before the loop took it.".toList
  | .loopRequests => Metrics.header "oxbrook_loop_requests".toList "gauge".toList
      "Requests queued or in flight on each worker loop.".toList
  | .loopQueued => Metrics.header "oxbrook_loop_queued".toList "gauge".toList
      "Requests waiting in each worker loop's queue, not yet taken.".toList
  | .wakePending => Metrics.header "oxbrook_loop_wake_pending_seconds".toList "gauge".toList
      "How long each loop has left a wakeup unanswered; 0 when it has none.".toList
  | .connections => Metrics.header "oxbrook_connections".toList "gauge".toList "Connections held open.".toList
  | .connectionsLimit => Metrics.header "oxbrook_connections_limit".toList "gauge".toList "max_connections.".toList
  | .shed => Metrics.header "oxbrook_requests_shed_total".toList "counter".toList
      "Requests answered 503 because every worker loop was at max_concurrency.".toList
  | .timeouts => Metrics.header "oxbrook_request_timeouts_total".toList "counter".toList
      "Requests answered 504 because the handler passed request_timeout.".toList
  | .limited => Metrics.header "oxbrook_requests_limited_total".toList "counter".toList
      "Requests answered 429 because the client was over a rate limit.".toList
  | .draining => Metrics.header "oxbrook_draining".toList "gauge".toList "1 while the server is draining.".toList

/-- A counter without labels. -/
def single (name : Text) (c : Counter) : Page := do
  let n ← fetch (.counter c)
  pure [.sample name [] (.count n)]

/-- The samples of a route's statuses. -/
def statusLines (route : ℕ × Text) : Page :=
  collect (fun code => do
    let n ← fetch (.counter (.status route.1 code))
    pure (if 0 < n then
      [.sample "oxbrook_requests_total".toList (route.2 ++ ",status=\"".toList ++ decimal (code + 100) ++ "\"".toList)
        (.count n)]
      else [])) (List.range statuses)

/-- The samples of a route's histogram, which is left out if it has seen nothing. -/
def durationLines (route : ℕ × Text) : Page := do
  let seen ← sumBuckets (.duration route.1) 0 (bounds.length + 1) 0
  if 0 < seen then renderHistogram (.duration route.1) "oxbrook_request_duration_seconds".toList route.2 else pure []

-- of each worker, whether its queue has a histogram; and whether the server drains
variable (m : Metrics) (workers : List Bool) (draining : Option Bool)

/-- The routes of a page: those of the application, and `unmatched`. -/
def labelled : List (ℕ × Text) :=
  (m.routes ++ [([], [])]).zipIdx.map fun (route : (Text × Text) × ℕ) => (route.2, routeLabels route.1)

/-- Some families are on the page only if there is something to say. -/
def present : Family → Bool
  | .connections | .connectionsLimit => m.connections.isSome
  | .draining => draining.isSome
  | _ => true

/-- The samples of a family. -/
def samples : Family → Page
  | .requests => collect statusLines m.labelled
  | .durations => collect durationLines m.labelled
  | .queueWait =>
    collect (fun i =>
      if workers.getD i false then renderHistogram (.wait i) "oxbrook_queue_wait_seconds".toList (loopLabel i)
      else pure []) (List.range workers.length)
  | .loopRequests => perWorker workers "oxbrook_loop_requests".toList .load .count
  | .loopQueued => perWorker workers "oxbrook_loop_queued".toList .queued .count
  | .wakePending =>
    perWorker workers "oxbrook_loop_wake_pending_seconds".toList .waitingFor fun n => .seconds (asSecsF64 n)
  | .connections => do
    let permits ← fetch (.gauge .availablePermits)
    pure [.sample "oxbrook_connections".toList [] (.count (m.connections.getD 0 - permits))]
  | .connectionsLimit => pure [.sample "oxbrook_connections_limit".toList [] (.count (m.connections.getD 0))]
  | .shed => single "oxbrook_requests_shed_total".toList .shed
  | .timeouts => single "oxbrook_request_timeouts_total".toList .timeouts
  | .limited => single "oxbrook_requests_limited_total".toList .limited
  | .draining => pure [.sample "oxbrook_draining".toList [] (.count (if draining = some true then 1 else 0))]

/-- One family of `Metrics::render`. -/
def family (f : Family) : Page :=
  if m.present draining f then do
    let lines ← m.samples workers draining f
    pure (f.header ++ lines)
  else pure []

/-- `Metrics::render`. -/
def render : Page := collect (m.family workers draining) Family.all

/-! ## Recording among scrapes -/

/-- The counters and gauges, and beside them the events: those begun, those recorded, and those under way with how many
of their additions are made. -/
structure Ledger where
  counters : Counter → ℕ
  gauges : Gauge → ℕ
  begun : List Event
  recorded : List Event
  underWay : Multiset (Event × ℕ)

/-- A ledger on which nothing was recorded. -/
def Ledger.new : Ledger := ⟨fun _ => 0, fun _ => 0, [], [], 0⟩

def Ledger.look (ledger : Ledger) : Cell → ℕ
  | .counter c => ledger.counters c
  | .gauge g => ledger.gauges g

inductive Write
  | begin (event : Event)
  -- the next `fetch_add` of an event that has made so many
  | add (event : Event) (made : ℕ)
  | finish (event : Event)
  | turn (gauge : Gauge) (value : ℕ)

/-- One operation of those that record. -/
def Ledger.write (m : Metrics) (ledger : Ledger) : Write → Option Ledger
  | .begin event =>
    some { ledger with begun := ledger.begun ++ [event], underWay := (event, 0) ::ₘ ledger.underWay }
  | .add event made =>
    if (event, made) ∈ ledger.underWay then
      (m.adds event)[made]?.map fun add =>
        { ledger with
          counters := Function.update ledger.counters add.1 (add64 (ledger.counters add.1) add.2)
          underWay := (event, made + 1) ::ₘ ledger.underWay.erase (event, made) }
    else none
  | .finish event =>
    if (event, (m.adds event).length) ∈ ledger.underWay then
      some { ledger with
        recorded := ledger.recorded ++ [event]
        underWay := ledger.underWay.erase (event, (m.adds event).length) }
    else none
  | .turn gauge value => some { ledger with gauges := Function.update ledger.gauges gauge value }

/-- No counter of the one is above that of the other. -/
instance : Preorder Ledger where
  le a b := ∀ c, a.counters c ≤ b.counters c
  le_refl a c := le_refl (a.counters c)
  le_trans _ _ _ hab hbc c := (hab c).trans (hbc c)

/-- What additions add to a counter. -/
def weight (c : Counter) (adds : List (Counter × ℕ)) : ℕ := (adds.map fun add => if add.1 = c then add.2 else 0).sum

/-- What events add to a counter. -/
def total (c : Counter) (events : List Event) : ℕ := (events.map fun event => weight c (m.adds event)).sum

/-- What the events under way have added to a counter. -/
def Ledger.made (m : Metrics) (ledger : Ledger) (c : Counter) : ℕ :=
  (ledger.underWay.map fun event => weight c ((m.adds event.1).take event.2)).sum

/-- No counter can overflow: there are fewer events than a `u64` counts, and fewer microseconds. -/
def Fits (events : List Event) : Prop :=
  events.length < 2 ^ 64 ∧ ∀ histogram, m.total (.sumMicros histogram) events < 2 ^ 64

/-- Every counter holds what was added to it. -/
structure Ledger.Balanced (m : Metrics) (ledger : Ledger) : Prop where
  fits : m.Fits ledger.begun
  counted : ∀ c, ledger.counters c = m.total c ledger.recorded + ledger.made m c
  events : (ledger.begun : Multiset Event) = ledger.recorded + ledger.underWay.map Prod.fst

/-! ## What events add up to -/

/-- The histogram an event is observed in. -/
def histogramOf : Event → HistogramId
  | .request route _ _ _ => .duration (m.entry route)
  | .popped worker _ => .wait worker

/-- What is observed of an event, in nanoseconds. -/
def Event.elapsed : Event → ℕ
  | .request _ _ elapsed _ => elapsed
  | .popped _ waited => waited

/-- The event is a request of the route that was answered with the status. -/
def Answered (route status : ℕ) : Event → Prop
  | .request taken code _ _ => m.entry taken = route ∧ code = status
  | .popped _ _ => False

instance (route status : ℕ) : DecidablePred (m.Answered route status) := fun event =>
  match event with
  | .request taken code _ _ => inferInstanceAs (Decidable (m.entry taken = route ∧ code = status))
  | .popped _ _ => inferInstanceAs (Decidable False)

def Event.refusal : Event → Option Refusal
  | .request _ _ _ refusal => refusal
  | .popped _ _ => none

lemma weight_nil (c : Counter) : weight c [] = 0 := rfl

lemma weight_cons (c : Counter) (add : Counter × ℕ) (adds : List (Counter × ℕ)) :
    weight c (add :: adds) = (if add.1 = c then add.2 else 0) + weight c adds := rfl

lemma weight_append (c : Counter) (adds more : List (Counter × ℕ)) :
    weight c (adds ++ more) = weight c adds + weight c more := by
  simp [weight]

lemma weight_take_le (c : Counter) (adds : List (Counter × ℕ)) (n : ℕ) : weight c (adds.take n) ≤ weight c adds := by
  have hsub := (List.take_sublist n adds).map fun add => if add.1 = c then add.2 else 0
  exact hsub.sum_le_sum fun _ _ => Nat.zero_le _

lemma weight_take_succ {c : Counter} {adds : List (Counter × ℕ)} {n : ℕ} {add : Counter × ℕ}
    (h : adds[n]? = some add) :
    weight c (adds.take (n + 1)) = weight c (adds.take n) + if add.1 = c then add.2 else 0 := by
  rw [List.take_add_one, h, weight_append, Option.toList_some, weight_cons, weight_nil, Nat.add_zero]

/-- What an event adds to a counter for its status, and for what it was refused for. -/
def noted (event : Event) : Counter → ℕ
  | .status route code => if code < statuses ∧ m.Answered route (code + 100) event then 1 else 0
  | .bucket _ _ => 0
  | .sumMicros _ => 0
  | .shed => if event.refusal = some .shed then 1 else 0
  | .timeouts => if event.refusal = some .timedOut then 1 else 0
  | .limited => if event.refusal = some .limited then 1 else 0

lemma weight_adds (c : Counter) (event : Event) : weight c (m.adds event) =
    weight c (observe (m.histogramOf event) event.elapsed) + m.noted event c := by
  cases event with
  | popped worker waited =>
    have hnone : m.noted (.popped worker waited) c = 0 := by
      cases c <;> simp [noted, Answered, Event.refusal]
    rw [hnone]
    rfl
  | request route status elapsed refusal =>
    rw [adds, record, weight_append, weight_append]
    have hrest : ∀ first last observed : ℕ, first + last = m.noted (.request route status elapsed refusal) c →
        first + observed + last = observed + m.noted (.request route status elapsed refusal) c := by omega
    apply hrest
    cases c with
    | status r code =>
      have hiff : (100 ≤ status ∧ status < 100 + statuses) ∧ m.entry route = r ∧ status - 100 = code ↔
          code < statuses ∧ m.entry route = r ∧ status = code + 100 := by omega
      have hlast : weight (.status r code) (refused refusal) = 0 := by rcases refusal with _ | _ | _ | _ <;> rfl
      rw [hlast]
      by_cases hrange : 100 ≤ status ∧ status < 100 + statuses
      · simp [hrange, weight, noted, Answered, ← hiff]
      · simp [hrange, weight, noted, Answered, ← hiff]
    | bucket _ _ | sumMicros _ | shed | timeouts | limited =>
      split_ifs <;> rcases refusal with _ | _ | _ | _ <;> rfl

lemma weight_bucket (histogram : HistogramId) (s : ℕ) (event : Event) : weight (.bucket histogram s) (m.adds event) =
    if m.histogramOf event = histogram ∧ slot event.elapsed = s then 1 else 0 := by
  simp [weight_adds, noted, observe, weight_cons, weight_nil]

lemma weight_sumMicros (histogram : HistogramId) (event : Event) : weight (.sumMicros histogram) (m.adds event) =
    if m.histogramOf event = histogram then event.elapsed / 1000 % 2 ^ 64 else 0 := by
  simp [weight_adds, noted, observe, weight_cons, weight_nil]

lemma weight_status (route code : ℕ) (event : Event) : weight (.status route code) (m.adds event) =
    if code < statuses ∧ m.Answered route (code + 100) event then 1 else 0 := by
  simp [weight_adds, noted, observe, weight_cons, weight_nil]

lemma weight_le_one {c : Counter} (hc : ∀ histogram, c ≠ .sumMicros histogram) (event : Event) :
    weight c (m.adds event) ≤ 1 := by
  rw [weight_adds]
  cases c with
  | sumMicros histogram => exact absurd rfl (hc histogram)
  | status _ _ | bucket _ _ | shed | timeouts | limited =>
    simp only [observe, noted, weight_cons, weight_nil, reduceCtorEq, if_false]
    split_ifs <;> omega

lemma total_append (c : Counter) (events more : List Event) :
    m.total c (events ++ more) = m.total c events + m.total c more := by
  simp [total]

lemma total_le_length {c : Counter} (hc : ∀ histogram, c ≠ .sumMicros histogram) (events : List Event) :
    m.total c events ≤ events.length := by
  induction events with
  | nil => exact le_rfl
  | cons event events ih =>
    have hone := m.weight_le_one hc event
    have hcons : m.total c (event :: events) = weight c (m.adds event) + m.total c events := rfl
    rw [hcons, List.length_cons]
    omega

lemma Fits.total_lt {events : List Event} (h : m.Fits events) (c : Counter) : m.total c events < 2 ^ 64 := by
  by_cases hc : ∀ histogram, c ≠ .sumMicros histogram
  · exact (m.total_le_length hc events).trans_lt h.1
  · push Not at hc
    obtain ⟨histogram, rfl⟩ := hc
    exact h.2 histogram

/-! ## The ledger balances -/

variable {m} {ledger ledger' : Ledger}

/-- What was recorded, and what is being recorded, is part of what was begun. -/
lemma recorded_add_made_le (m : Metrics) (ledger : Ledger)
    (h : (ledger.begun : Multiset Event) = ledger.recorded + ledger.underWay.map Prod.fst) (c : Counter) :
    m.total c ledger.recorded + ledger.made m c ≤ m.total c ledger.begun := by
  have hsum := congrArg (fun events : Multiset Event => (events.map fun event => weight c (m.adds event)).sum) h
  simp only [Multiset.map_add, Multiset.sum_add, Multiset.map_coe, Multiset.sum_coe, Multiset.map_map] at hsum
  have hmade : ledger.made m c ≤
      (ledger.underWay.map ((fun event => weight c (m.adds event)) ∘ Prod.fst)).sum := by
    apply Multiset.sum_map_le_sum_map
    intro event _
    exact weight_take_le c _ _
  unfold total
  omega

lemma Ledger.Balanced.le_total (h : ledger.Balanced m) (c : Counter) : ledger.counters c ≤ m.total c ledger.begun := by
  rw [h.counted]
  exact recorded_add_made_le m ledger h.events c

lemma Ledger.Balanced.total_le (h : ledger.Balanced m) (c : Counter) :
    m.total c ledger.recorded ≤ ledger.counters c := by
  rw [h.counted]
  exact Nat.le_add_right _ _

lemma balanced_new (m : Metrics) : Ledger.new.Balanced m where
  fits := ⟨by decide, fun _ => by
    show 0 < 2 ^ 64
    decide⟩
  counted _ := rfl
  events := rfl

lemma Ledger.Balanced.begin (h : ledger.Balanced m) {event : Event} (hfits : m.Fits (ledger.begun ++ [event])) :
    Ledger.Balanced m { ledger with
      begun := ledger.begun ++ [event], underWay := (event, 0) ::ₘ ledger.underWay } where
  fits := hfits
  counted c := by
    rw [h.counted]
    simp [Ledger.made, weight_nil]
  events := by
    rw [← Multiset.coe_add, h.events, Multiset.map_cons, Multiset.coe_singleton, add_assoc,
      add_comm _ ({event} : Multiset Event), Multiset.singleton_add]

/-- An addition that is made: nothing overflows, since all that is under way fits. -/
lemma Ledger.Balanced.add (h : ledger.Balanced m) {event : Event} {n : ℕ} {add : Counter × ℕ}
    (hmem : (event, n) ∈ ledger.underWay) (hadd : (m.adds event)[n]? = some add) :
    add64 (ledger.counters add.1) add.2 = ledger.counters add.1 + add.2 ∧
      Ledger.Balanced m { ledger with
        counters := Function.update ledger.counters add.1 (add64 (ledger.counters add.1) add.2)
        underWay := (event, n + 1) ::ₘ ledger.underWay.erase (event, n) } := by
  obtain ⟨others, hothers⟩ := Multiset.exists_cons_of_mem hmem
  have herase : ledger.underWay.erase (event, n) = others := by rw [hothers, Multiset.erase_cons_head]
  have hevents : (ledger.begun : Multiset Event) = ledger.recorded + ((event, n + 1) ::ₘ others).map Prod.fst := by
    rw [h.events, hothers, Multiset.map_cons, Multiset.map_cons]
  have hmade : ∀ c, Ledger.made m { ledger with underWay := (event, n + 1) ::ₘ others } c =
      ledger.made m c + if add.1 = c then add.2 else 0 := by
    intro c
    simp only [Ledger.made, hothers, Multiset.map_cons, Multiset.sum_cons, weight_take_succ hadd]
    omega
  have hsum : ledger.counters add.1 + add.2 < 2 ^ 64 := by
    have hle : m.total add.1 ledger.recorded +
        Ledger.made m { ledger with underWay := (event, n + 1) ::ₘ others } add.1 ≤ m.total add.1 ledger.begun :=
      recorded_add_made_le m { ledger with underWay := (event, n + 1) ::ₘ others } hevents add.1
    rw [hmade, if_pos rfl] at hle
    have hcounted := h.counted add.1
    have hlt := h.fits.total_lt m add.1
    omega
  have hadd64 : add64 (ledger.counters add.1) add.2 = ledger.counters add.1 + add.2 := Nat.mod_eq_of_lt hsum
  refine ⟨hadd64, h.fits, ?_, ?_⟩
  · intro c
    rw [herase]
    have hc := hmade c
    simp only [Ledger.made] at hc ⊢
    rw [hc, hadd64]
    by_cases heq : add.1 = c
    · subst heq
      rw [Function.update_self, if_pos rfl, h.counted, Ledger.made, Nat.add_assoc]
    · rw [Function.update_of_ne (Ne.symm heq), if_neg heq, h.counted, Ledger.made, Nat.add_zero]
  · rw [herase]
    exact hevents

lemma Ledger.Balanced.finish (h : ledger.Balanced m) {event : Event}
    (hmem : (event, (m.adds event).length) ∈ ledger.underWay) :
    Ledger.Balanced m { ledger with
      recorded := ledger.recorded ++ [event]
      underWay := ledger.underWay.erase (event, (m.adds event).length) } := by
  obtain ⟨others, hothers⟩ := Multiset.exists_cons_of_mem hmem
  have herase : ledger.underWay.erase (event, (m.adds event).length) = others := by
    rw [hothers, Multiset.erase_cons_head]
  refine ⟨h.fits, ?_, ?_⟩
  · intro c
    rw [herase, h.counted, total_append]
    simp only [Ledger.made, hothers, Multiset.map_cons, Multiset.sum_cons, List.take_length, total, List.map_cons,
      List.map_nil, List.sum_cons, List.sum_nil]
    omega
  · rw [herase, h.events, hothers, Multiset.map_cons, ← Multiset.coe_add, Multiset.coe_singleton, add_assoc,
      Multiset.singleton_add]

/-- **One operation of those that record** keeps the ledger balanced, and takes nothing from a counter. -/
theorem Ledger.Balanced.write (h : ledger.Balanced m) {w : Write} (hw : ledger.write m w = some ledger')
    (hfits : ∀ event, w = .begin event → m.Fits (ledger.begun ++ [event])) :
    ledger'.Balanced m ∧ ledger ≤ ledger' := by
  cases w with
  | begin event =>
    obtain rfl := Option.some.inj hw
    exact ⟨h.begin (hfits event rfl), fun c => le_rfl⟩
  | add event n =>
    obtain ⟨hmem, hw⟩ := Option.ite_none_right_eq_some.mp hw
    obtain ⟨add, hadd, rfl⟩ := Option.map_eq_some_iff.mp hw
    obtain ⟨hadd64, hbalanced⟩ := h.add hmem hadd
    refine ⟨hbalanced, ?_⟩
    intro c
    show ledger.counters c ≤ Function.update ledger.counters add.1 _ c
    by_cases heq : c = add.1
    · subst heq
      rw [Function.update_self, hadd64]
      exact Nat.le_add_right _ _
    · rw [Function.update_of_ne heq]
  | finish event =>
    obtain ⟨hmem, rfl⟩ := of_guard hw
    exact ⟨h.finish hmem, fun c => le_rfl⟩
  | turn gauge value =>
    obtain rfl := Option.some.inj hw
    exact ⟨⟨h.fits, h.counted, h.events⟩, fun c => le_rfl⟩

/-! ## A page shows one snapshot -/

/-- The cell is loaded for the family. -/
def Cell.family : Cell → Family
  | .counter (.status _ _) => .requests
  | .counter (.bucket (.duration _) _) | .counter (.sumMicros (.duration _)) => .durations
  | .counter (.bucket (.wait _) _) | .counter (.sumMicros (.wait _)) => .queueWait
  | .gauge (.load _) => .loopRequests
  | .gauge (.queued _) => .loopQueued
  | .gauge (.waitingFor _) => .wakePending
  | .gauge .availablePermits => .connections
  | .counter .shed => .shed
  | .counter .timeouts => .timeouts
  | .counter .limited => .limited

/-- The cells of a histogram. -/
def histogramCells (histogram : HistogramId) : Set Cell :=
  {cell | (∃ i, cell = .counter (.bucket histogram i)) ∨ cell = .counter (.sumMicros histogram)}

/-- The buckets from the `i`-th on, so many. -/
def bucketCells (histogram : HistogramId) (i n : ℕ) : Set Cell :=
  {cell | ∃ j, i ≤ j ∧ j < i + n ∧ cell = .counter (.bucket histogram j)}

abbrev Shown {α : Type} (m : Metrics) (cells : Set Cell) (r : Readout Cell ℕ α) : Prop :=
  Explained Ledger.look (Ledger.Balanced m) cells r

lemma bucketCells_succ (histogram : HistogramId) (i n : ℕ) :
    bucketCells histogram i (n + 1) = {.counter (.bucket histogram i)} ∪ bucketCells histogram (i + 1) n := by
  ext cell
  constructor
  · rintro ⟨j, hle, hlt, rfl⟩
    obtain rfl | hne := hle.eq_or_lt
    · exact Or.inl rfl
    · exact Or.inr ⟨j, hne, by omega, rfl⟩
  · rintro (rfl | ⟨j, hle, hlt, rfl⟩)
    · exact ⟨i, le_rfl, by omega, rfl⟩
    · exact ⟨j, by omega, by omega, rfl⟩

lemma bucket_notMem {histogram : HistogramId} {i j n : ℕ} (h : i < j ∨ j + n ≤ i) :
    Disjoint {Cell.counter (.bucket histogram i)} (bucketCells histogram j n) := by
  rw [Set.disjoint_singleton_left]
  rintro ⟨k, hle, hlt, heq⟩
  injection heq with heq
  injection heq with _ heq
  omega

lemma shown_buckets (histogram : HistogramId) (name labels : Text) (rest : List Bound) (i running : ℕ) :
    Shown m (bucketCells histogram i rest.length) (renderBuckets histogram name labels i rest running) := by
  induction rest generalizing i running with
  | nil => exact (explained_pure _).mono (Set.empty_subset _)
  | cons bound rest ih =>
    rw [List.length_cons, bucketCells_succ]
    exact (explained_fetch _).bind (fun n => (ih (i + 1) (add64 running n)).map _)
      (bucket_notMem (Or.inl (Nat.lt_succ_self i)))

lemma shown_sum (histogram : HistogramId) (i n seen : ℕ) :
    Shown m (bucketCells histogram i n) (sumBuckets histogram i n seen) := by
  induction n generalizing i seen with
  | zero => exact (explained_pure _).mono (Set.empty_subset _)
  | succ n ih =>
    rw [bucketCells_succ]
    exact (explained_fetch _).bind (fun here => ih (i + 1) (add64 seen here))
      (bucket_notMem (Or.inl (Nat.lt_succ_self i)))

lemma shown_histogram (histogram : HistogramId) (name labels : Text) :
    Shown m (histogramCells histogram) (renderHistogram histogram name labels) := by
  have hsum : Disjoint ({.counter (.bucket histogram bounds.length)} : Set Cell)
      {.counter (.sumMicros histogram)} := by simp
  have hlast : Disjoint (bucketCells histogram 0 bounds.length)
      ({Cell.counter (.bucket histogram bounds.length)} ∪ {Cell.counter (.sumMicros histogram)}) := by
    rw [Set.disjoint_union_right]
    refine ⟨(bucket_notMem (Or.inr (Nat.zero_add _).le)).symm, ?_⟩
    rw [Set.disjoint_singleton_right]
    rintro ⟨j, -, -, heq⟩
    cases heq
  have hsub : bucketCells histogram 0 bounds.length ∪
      ({Cell.counter (.bucket histogram bounds.length)} ∪ {Cell.counter (.sumMicros histogram)}) ⊆
        histogramCells histogram := by
    rintro cell (⟨j, -, -, rfl⟩ | rfl | rfl)
    · exact Or.inl ⟨j, rfl⟩
    · exact Or.inl ⟨_, rfl⟩
    · exact Or.inr rfl
  apply Explained.mono _ hsub
  exact (shown_buckets histogram name _ bounds 0 0).bind
    (fun found => (explained_fetch _).bind (fun last => (explained_fetch _).map _) hsum) hlast

/-! ### The sum of the buckets -/

open Finset in
/-- What the buckets from the `i`-th on hold together, so many of them. -/
def bucketSum (held : Counter → ℕ) (histogram : HistogramId) (i n : ℕ) : ℕ :=
  ∑ j ∈ range n, held (.bucket histogram (i + j))

lemma bucketSum_succ (held : Counter → ℕ) (histogram : HistogramId) (i n : ℕ) :
    bucketSum held histogram i (n + 1) = held (.bucket histogram i) + bucketSum held histogram (i + 1) n := by
  unfold bucketSum
  rw [Finset.sum_range_succ', Nat.add_zero, Nat.add_comm]
  congr 1
  apply Finset.sum_congr rfl
  intro j _
  congr 2
  omega

/-- An event is observed in one bucket. -/
lemma bucketSum_total (m : Metrics) (histogram : HistogramId) (i n : ℕ) (events : List Event) :
    bucketSum (fun c => m.total c events) histogram i n = events.countP fun event =>
      m.histogramOf event = histogram ∧ i ≤ slot event.elapsed ∧ slot event.elapsed < i + n := by
  induction events with
  | nil => simp [bucketSum, total]
  | cons event events ih =>
    have hone : ∑ j ∈ Finset.range n, weight (.bucket histogram (i + j)) (m.adds event) =
        if m.histogramOf event = histogram ∧ i ≤ slot event.elapsed ∧ slot event.elapsed < i + n then 1 else 0 := by
      simp only [weight_bucket]
      by_cases hin : m.histogramOf event = histogram ∧ i ≤ slot event.elapsed
      · have hslot : ∀ j ∈ Finset.range n,
            (if m.histogramOf event = histogram ∧ slot event.elapsed = i + j then 1 else 0) =
              if slot event.elapsed - i = j then 1 else 0 := by
          intro j _
          apply if_congr _ rfl rfl
          constructor
          · rintro ⟨-, hslot⟩
            omega
          · intro hslot
            exact ⟨hin.1, by omega⟩
        rw [Finset.sum_congr rfl hslot, Finset.sum_ite_eq]
        simp only [Finset.mem_range, hin, true_and]
        split_ifs <;> omega
      · rw [if_neg (by tauto)]
        apply Finset.sum_eq_zero
        intro j _
        rw [if_neg]
        rintro ⟨hhistogram, hslot⟩
        exact hin ⟨hhistogram, by omega⟩
    have hcons : bucketSum (fun c => m.total c (event :: events)) histogram i n =
        ∑ j ∈ Finset.range n, weight (.bucket histogram (i + j)) (m.adds event) +
          bucketSum (fun c => m.total c events) histogram i n := Finset.sum_add_distrib
    rw [hcons, hone, ih, List.countP_cons, Nat.add_comm]
    simp only [decide_eq_true_eq]

lemma Ledger.Balanced.bucketSum_lt (h : ledger.Balanced m) (histogram : HistogramId) (i n : ℕ) :
    bucketSum ledger.counters histogram i n < 2 ^ 64 := by
  have hle : bucketSum ledger.counters histogram i n ≤ bucketSum (fun c => m.total c ledger.begun) histogram i n :=
    Finset.sum_le_sum fun j _ => h.le_total _
  rw [bucketSum_total] at hle
  exact (hle.trans List.countP_le_length).trans_lt h.fits.1

lemma sum_le {lo hi : Ledger} {histogram : HistogramId} {i n seen found : ℕ}
    (h : Outcome Ledger.look (Ledger.Balanced m) hi lo (sumBuckets histogram i n seen) found) :
    found ≤ seen + bucketSum hi.counters histogram i n := by
  induction n generalizing lo i seen with
  | zero =>
    obtain ⟨rfl, -⟩ := h.of_pure
    exact Nat.le_add_right _ _
  | succ n ih =>
    obtain ⟨mid, here, hfirst, hrest⟩ := h.of_bind
    obtain ⟨now, -, -, hle, rfl⟩ := hfirst.of_fetch
    have hadd : add64 seen (now.look (.counter (.bucket histogram i))) ≤
        seen + now.counters (.bucket histogram i) := Nat.mod_le _ _
    have hhere : now.counters (.bucket histogram i) ≤ hi.counters (.bucket histogram i) :=
      (hle.trans hrest.le) (.bucket histogram i)
    have hfound := ih hrest
    rw [bucketSum_succ]
    omega

lemma eval_sum (snap : Cell → ℕ) (histogram : HistogramId) {i n seen : ℕ}
    (hlt : seen + bucketSum (fun c => snap (.counter c)) histogram i n < 2 ^ 64) :
    (sumBuckets histogram i n seen).eval snap = seen + bucketSum (fun c => snap (.counter c)) histogram i n := by
  induction n generalizing i seen with
  | zero => simp [sumBuckets, bucketSum]
  | succ n ih =>
    rw [bucketSum_succ] at hlt ⊢
    have hadd : add64 seen (snap (.counter (.bucket histogram i))) = seen + snap (.counter (.bucket histogram i)) :=
      Nat.mod_eq_of_lt (by omega)
    rw [sumBuckets, eval_bind, eval_fetch, hadd, ih (by omega)]
    omega

/-- The value a counter was seen with is no less than before, and no more than after. -/
lemma between_of_held {lo hi : Ledger} {c : Counter} {v : ℕ}
    (h : HeldBetween Ledger.look (Ledger.Balanced m) lo hi (.counter c) v) :
    lo.counters c ≤ v ∧ v ≤ hi.counters c := by
  obtain ⟨now, -, hlo, hhi, rfl⟩ := h
  exact ⟨hlo c, hhi c⟩

lemma shown_durations (route : ℕ × Text) : Shown m (histogramCells (.duration route.1)) (durationLines route) := by
  have hsub : bucketCells (.duration route.1) 0 (bounds.length + 1) ⊆ histogramCells (.duration route.1) := by
    rintro cell ⟨j, -, -, rfl⟩
    exact Or.inl ⟨j, rfl⟩
  apply (shown_sum (.duration route.1) 0 (bounds.length + 1) 0).recheck (shown_histogram _ _ _) hsub
  -- what was seen of the buckets is still there when they are loaded again
  intro lo mid hi seen snap hseen hpos hhi hle hheld
  have hbetween : ∀ j, mid.counters (.bucket (.duration route.1) j) ≤
      snap (.counter (.bucket (.duration route.1) j)) ∧
        snap (.counter (.bucket (.duration route.1) j)) ≤ hi.counters (.bucket (.duration route.1) j) := by
    intro j
    exact between_of_held (hheld _ (Or.inl ⟨j, rfl⟩))
  have hfound := sum_le hseen
  have hmid : bucketSum mid.counters (.duration route.1) 0 (bounds.length + 1) ≤
      bucketSum (fun c => snap (.counter c)) (.duration route.1) 0 (bounds.length + 1) :=
    Finset.sum_le_sum fun j _ => (hbetween _).1
  have hlater : bucketSum (fun c => snap (.counter c)) (.duration route.1) 0 (bounds.length + 1) ≤
      bucketSum hi.counters (.duration route.1) 0 (bounds.length + 1) :=
    Finset.sum_le_sum fun j _ => (hbetween _).2
  have hlt := hhi.bucketSum_lt (.duration route.1) 0 (bounds.length + 1)
  rw [eval_sum snap _ (by omega)]
  omega

/-! ### The families -/

lemma shown_one {α : Type} (cell : Cell) (f : ℕ → α) : Shown m {cell} (fetch cell >>= fun n => pure (f n)) :=
  (explained_fetch cell).map f

lemma shown_none {α : Type} (a : α) (cells : Set Cell) : Shown m cells (pure a : Readout Cell ℕ α) :=
  (explained_pure a).mono (Set.empty_subset cells)

lemma range_apart {cells : ℕ → Set Cell} (h : ∀ i j, i ≠ j → Disjoint (cells i) (cells j)) (n : ℕ) :
    (List.range n).Pairwise fun i j => Disjoint (cells i) (cells j) :=
  List.nodup_range.imp fun {i j} hne => h i j hne

lemma labelled_fst (m : Metrics) : m.labelled.map Prod.fst = List.range (m.routes.length + 1) := by
  unfold labelled
  rw [List.map_map]
  have hsnd : (Prod.fst ∘ fun route : (Text × Text) × ℕ => (route.2, routeLabels route.1)) = Prod.snd := rfl
  rw [hsnd, List.zipIdx_map_snd, List.length_append, List.range_eq_range']
  rfl

lemma labelled_apart (m : Metrics) (cells : ℕ → Set Cell) (h : ∀ i j, i ≠ j → Disjoint (cells i) (cells j)) :
    m.labelled.Pairwise fun a b => Disjoint (cells a.1) (cells b.1) := by
  have hrange := range_apart h (m.routes.length + 1)
  rw [← labelled_fst, List.pairwise_map] at hrange
  exact hrange

lemma shown_statuses (route : ℕ × Text) :
    Shown m {cell | ∃ code, cell = .counter (.status route.1 code)} (statusLines route) := by
  have hsub : {cell | ∃ code ∈ List.range statuses, cell ∈ ({.counter (.status route.1 code)} : Set Cell)} ⊆
      {cell | ∃ code, cell = .counter (.status route.1 code)} := by
    rintro cell ⟨code, -, rfl⟩
    exact ⟨code, rfl⟩
  apply Explained.mono _ hsub
  have hcells : ∀ i j, i ≠ j →
      Disjoint ({.counter (.status route.1 i)} : Set Cell) {.counter (.status route.1 j)} := by
    intro i j hne
    simp [hne]
  exact Explained.collect _ (List.range statuses) (fun code _ => shown_one _ _) (range_apart hcells statuses)

lemma shown_perWorker (workers : List Bool) (name : Text) (gauge : ℕ → Gauge) (value : ℕ → SampleValue)
    (inj : Function.Injective gauge) :
    Shown m {cell | ∃ i, cell = .gauge (gauge i)} (perWorker workers name gauge value) := by
  have hsub : {cell | ∃ i ∈ List.range workers.length, cell ∈ ({.gauge (gauge i)} : Set Cell)} ⊆
      {cell | ∃ i, cell = .gauge (gauge i)} := by
    rintro cell ⟨i, -, rfl⟩
    exact ⟨i, rfl⟩
  apply Explained.mono _ hsub
  have hcells : ∀ i j, i ≠ j → Disjoint ({.gauge (gauge i)} : Set Cell) {.gauge (gauge j)} := by
    intro i j hne
    simp [inj.eq_iff, hne]
  exact Explained.collect _ (List.range workers.length) (fun i _ => shown_one _ _) (range_apart hcells workers.length)

lemma histograms_apart {h h' : HistogramId} (hne : h ≠ h') : Disjoint (histogramCells h) (histogramCells h') := by
  rw [Set.disjoint_left]
  rintro cell (⟨i, rfl⟩ | rfl) (⟨j, heq⟩ | heq)
  · exact hne (Counter.bucket.inj (Cell.counter.inj heq)).1
  · cases heq
  · cases heq
  · exact hne (Counter.sumMicros.inj (Cell.counter.inj heq))

/-- **Each family** shows one snapshot of its own cells. -/
lemma shown_samples (m : Metrics) (workers : List Bool) (draining : Option Bool) (f : Family) :
    Shown m {cell | cell.family = f} (m.samples workers draining f) := by
  cases f with
  | requests =>
    have hcollect := Explained.collect _ m.labelled (fun route _ => shown_statuses (m := m) route)
      (labelled_apart m (fun r => {cell | ∃ code, cell = .counter (.status r code)}) (by
        intro i j hne
        rw [Set.disjoint_left]
        rintro cell ⟨a, rfl⟩ ⟨b, heq⟩
        exact hne (Counter.status.inj (Cell.counter.inj heq)).1))
    apply hcollect.mono
    rintro cell ⟨route, -, code, rfl⟩
    rfl
  | durations =>
    have hcollect := Explained.collect _ m.labelled (fun route _ => shown_durations (m := m) route)
      (labelled_apart m (fun r => histogramCells (.duration r)) (by
        intro i j hne
        exact histograms_apart fun heq => hne (HistogramId.duration.inj heq)))
    apply hcollect.mono
    rintro cell ⟨route, -, ⟨code, rfl⟩ | rfl⟩ <;> rfl
  | queueWait =>
    have hpart : ∀ i, Shown m (histogramCells (.wait i)) (if workers.getD i false then
        renderHistogram (.wait i) "oxbrook_queue_wait_seconds".toList (loopLabel i) else pure []) := by
      intro i
      split_ifs
      · exact shown_histogram _ _ _
      · exact shown_none _ _
    have hcollect := Explained.collect _ (List.range workers.length) (fun i _ => hpart i)
      (range_apart (fun i j hne => histograms_apart fun heq => hne (HistogramId.wait.inj heq)) workers.length)
    apply hcollect.mono
    rintro cell ⟨i, -, ⟨j, rfl⟩ | rfl⟩ <;> rfl
  | loopRequests =>
    apply (shown_perWorker workers _ _ _ fun i j h => Gauge.load.inj h).mono
    rintro cell ⟨i, rfl⟩
    rfl
  | loopQueued =>
    apply (shown_perWorker workers _ _ _ fun i j h => Gauge.queued.inj h).mono
    rintro cell ⟨i, rfl⟩
    rfl
  | wakePending =>
    apply (shown_perWorker workers _ _ _ fun i j h => Gauge.waitingFor.inj h).mono
    rintro cell ⟨i, rfl⟩
    rfl
  | connections | shed | timeouts | limited =>
    apply (shown_one _ _).mono
    rintro cell rfl
    rfl
  | connectionsLimit | draining => exact shown_none _ _

lemma shown_family (m : Metrics) (workers : List Bool) (draining : Option Bool) (f : Family) :
    Shown m {cell | cell.family = f} (m.family workers draining f) := by
  unfold family
  split_ifs
  · exact (shown_samples m workers draining f).map _
  · exact shown_none _ _

lemma shown_page (m : Metrics) (workers : List Bool) (draining : Option Bool) :
    Shown m Set.univ (m.render workers draining) := by
  have hcollect := Explained.collect (fun f => {cell : Cell | cell.family = f}) Family.all
    (fun f _ => shown_family m workers draining f) (by
      have hnodup : Family.all.Nodup := by decide
      refine hnodup.imp ?_
      intro f f' hne
      rw [Set.disjoint_left]
      rintro cell rfl heq
      exact hne heq)
  exact hcollect.mono (Set.subset_univ _)

/-! ## Scrapes among requests -/

/-- The server's metrics: the ledger, and the scrapes. -/
abbrev Scraped := Watched Ledger ℕ Cell ℕ (List Line)

/-- No scrape has begun, and nothing was recorded. -/
def Scraped.start : Scraped := ⟨Ledger.new, fun _ => .idle⟩

/-- One operation of those that record, or one load of a scrape; `draining` is what each scrape is told. -/
def Scraped.step (m : Metrics) (workers : List Bool) (draining : ℕ → Option Bool) :
    Scraped → WatchedAction Write ℕ → Option Scraped :=
  Watched.step Ledger.look (Ledger.write m) fun k => m.render workers (draining k)

/-- An event is begun only if no counter overflows with it. -/
def Scraped.fits (m : Metrics) (s : Scraped) : WatchedAction Write ℕ → Prop
  | .write (.begin event) => m.Fits (s.store.begun ++ [event])
  | _ => True

variable {workers : List Bool} {draining : ℕ → Option Bool} {s : Scraped} {k : ℕ} {opened closed : Ledger}
  {lines : List Line}

lemma balanced_of_run {s₀ : Scraped} (start : s₀.store.Balanced m)
    (run : Reaches (Scraped.step m workers draining) (Scraped.fits m) s₀ s) : s.store.Balanced m := by
  apply Watched.good_of_run (Ledger.Balanced m) start _ run
  intro s w store hgood hok hw
  apply (hgood.write hw _).1
  rintro event rfl
  exact hok

/-- A scrape that was not begun in a state and has ended in a later one shows one snapshot of what the counters held
meanwhile. -/
lemma snapshot_of_ended {s₀ : Scraped} (start : s₀.store.Balanced m) (idle : s₀.readers k = .idle)
    (run : Reaches (Scraped.step m workers draining) (Scraped.fits m) s₀ s)
    (ended : s.readers k = .ended opened closed lines) :
    (s₀.store ≤ opened ∧ opened.Balanced m) ∧ (closed.Balanced m ∧ closed ≤ s.store) ∧
      ∃ snap : Cell → ℕ, (m.render workers (draining k)).eval snap = lines ∧
        ∀ c, opened.counters c ≤ snap (.counter c) ∧ snap (.counter c) ≤ closed.counters c := by
  obtain ⟨hopened, ⟨hclosed, hle⟩, houtcome⟩ := Watched.ended_outcome (Ledger.Balanced m) start (by
    intro s w store hgood hok hw
    apply hgood.write hw
    rintro event rfl
    exact hok) run idle ended
  obtain ⟨snap, hsnap, heval⟩ := shown_page m workers (draining k) opened closed lines hclosed houtcome
  exact ⟨⟨hopened, houtcome.start⟩, ⟨hclosed, hle⟩, snap, heval snap fun _ _ => rfl,
    fun c => between_of_held (hsnap (.counter c) (Set.mem_univ _))⟩

lemma step_write {w : Write} {ledger : Ledger} (hw : s.store.write m w = some ledger) :
    Scraped.step m workers draining s (.write w) = some { s with store := ledger } := by
  rw [Scraped.step, Watched.step, hw, Option.map_some]

lemma write_add {ledger : Ledger} {event : Event} {n : ℕ} {add : Counter × ℕ} (hmem : (event, n) ∈ ledger.underWay)
    (hadd : (m.adds event)[n]? = some add) : ledger.write m (.add event n) = some { ledger with
      counters := Function.update ledger.counters add.1 (add64 (ledger.counters add.1) add.2)
      underWay := (event, n + 1) ::ₘ ledger.underWay.erase (event, n) } := by
  rw [Ledger.write, if_pos hmem, hadd, Option.map_some]

/-- A request that is left alone is recorded. -/
lemma reaches_recorded {s₀ : Scraped} (run : Reaches (Scraped.step m workers draining) (Scraped.fits m) s₀ s)
    {event : Event} (fits : m.Fits (s.store.begun ++ [event])) :
    ∃ s', Reaches (Scraped.step m workers draining) (Scraped.fits m) s₀ s' ∧ s'.readers = s.readers ∧
      s'.store.begun = s.store.begun ++ [event] ∧ s'.store.recorded = s.store.recorded ++ [event] ∧
        s'.store.underWay = s.store.underWay := by
  have hmade : ∀ n ≤ (m.adds event).length,
      ∃ s', Reaches (Scraped.step m workers draining) (Scraped.fits m) s₀ s' ∧ s'.readers = s.readers ∧
        s'.store.begun = s.store.begun ++ [event] ∧ s'.store.recorded = s.store.recorded ∧
          s'.store.underWay = (event, n) ::ₘ s.store.underWay := by
    intro n
    induction n with
    | zero =>
      intro _
      exact ⟨_, run.next (.write (.begin event)) fits rfl, rfl, rfl, rfl, rfl⟩
    | succ n ih =>
      intro hle
      obtain ⟨s', hrun, hreaders, hbegun, hrecorded, hunder⟩ := ih (Nat.le_of_succ_le hle)
      have hmem : (event, n) ∈ s'.store.underWay := hunder ▸ Multiset.mem_cons_self _ _
      have hadd := List.getElem?_eq_getElem (Nat.lt_of_succ_le hle)
      refine ⟨_, hrun.next (.write (.add event n)) trivial (step_write (write_add hmem hadd)), hreaders, hbegun,
        hrecorded, ?_⟩
      show (event, n + 1) ::ₘ s'.store.underWay.erase (event, n) = _
      rw [hunder, Multiset.erase_cons_head]
  obtain ⟨s', hrun, hreaders, hbegun, hrecorded, hunder⟩ := hmade _ le_rfl
  have hmem : (event, (m.adds event).length) ∈ s'.store.underWay := hunder ▸ Multiset.mem_cons_self _ _
  have hw : s'.store.write m (.finish event) = _ := if_pos hmem
  refine ⟨_, hrun.next (.write (.finish event)) trivial (step_write hw), hreaders, hbegun, ?_, ?_⟩
  · show s'.store.recorded ++ [event] = _
    rw [hrecorded]
  · show s'.store.underWay.erase (event, (m.adds event).length) = _
    rw [hunder, Multiset.erase_cons_head]

/-- A scrape that is left alone ends, with the page of the ledger as it is. -/
lemma reaches_scraped {s₀ : Scraped} (run : Reaches (Scraped.step m workers draining) (Scraped.fits m) s₀ s)
    (idle : s.readers k = .idle) :
    ∃ s', Reaches (Scraped.step m workers draining) (Scraped.fits m) s₀ s' ∧ s'.store = s.store ∧
      s'.readers k = .ended s.store s.store ((m.render workers (draining k)).eval s.store.look) ∧
        ∀ k', k' ≠ k → s'.readers k' = s.readers k' := by
  have htaken : Scraped.step m workers draining s (.begin k) =
      some { s with readers := Function.update s.readers k (.busy s.store (m.render workers (draining k))) } := by
    simp only [Scraped.step, Watched.step, idle]
  obtain ⟨s', hrun, hstore, hended, hothers⟩ := Watched.reaches_ended (run.next (.begin k) trivial htaken)
    (Function.update_self ..) fun _ => trivial
  refine ⟨s', hrun, hstore, hended, ?_⟩
  intro k' hne
  rw [hothers k' hne]
  exact Function.update_of_ne hne ..

/-- **A scrape shows one snapshot.**  However the loads of a scrape fall between the additions of the requests being
recorded, it gives the page that the same code makes of one snapshot, and each counter of the snapshot holds no less
than what was recorded when the scrape began adds up to, and no more than what had begun to be recorded when it
ended. -/
theorem scrape_between (run : Reaches (Scraped.step m workers draining) (Scraped.fits m) Scraped.start s)
    (ended : s.readers k = .ended opened closed lines) :
    ∃ snap : Cell → ℕ, lines = (m.render workers (draining k)).eval snap ∧
      ∀ c, m.total c opened.recorded ≤ snap (.counter c) ∧ snap (.counter c) ≤ m.total c closed.begun := by
  obtain ⟨⟨-, hopened⟩, ⟨hclosed, -⟩, snap, heval, hsnap⟩ := snapshot_of_ended (balanced_new m) rfl run ended
  refine ⟨snap, heval.symm, ?_⟩
  intro c
  exact ⟨(hopened.total_le c).trans (hsnap c).1, (hsnap c).2.trans (hclosed.le_total c)⟩

/-! ## One request -/

/-- An application with one route. -/
def home : Metrics := ⟨[("GET".toList, "/".toList)], none⟩

/-- A request that is shed after two milliseconds. -/
def turnedAway : Event := .request none 503 2000000 (some .shed)

lemma home_fits : home.Fits ([] ++ [turnedAway]) := by
  refine ⟨by decide, ?_⟩
  intro histogram
  rw [List.nil_append, total, List.map_singleton, List.sum_singleton, weight_sumMicros]
  split_ifs <;> decide

/-- It has begun to be recorded. -/
def arrived : Ledger := ⟨fun _ => 0, fun _ => 0, [turnedAway], [], {(turnedAway, 0)}⟩

/-- It has made the first of its additions. -/
def halfway : Ledger :=
  ⟨Function.update (fun _ => 0) (.status 1 403) 1, fun _ => 0, [turnedAway], [], {(turnedAway, 1)}⟩

lemma arrived_add : arrived.write home (.add turnedAway 0) = some halfway := by
  have hadd : (home.adds turnedAway)[0]? = some (.status 1 403, 1) := by decide +kernel
  have hmem : (turnedAway, 0) ∈ arrived.underWay := Multiset.mem_singleton_self _
  rw [write_add hmem hadd, arrived, halfway, Multiset.erase_singleton]
  rfl

lemma reaches_halfway : Reaches (Scraped.step home [true] fun _ => none) (Scraped.fits home) Scraped.start
    ⟨halfway, fun _ => .idle⟩ := by
  have hbegin : Scraped.step home [true] (fun _ => none) Scraped.start (.write (.begin turnedAway)) =
      some ⟨arrived, fun _ => .idle⟩ := rfl
  have hadd : Scraped.step home [true] (fun _ => none) ⟨arrived, fun _ => .idle⟩ (.write (.add turnedAway 0)) =
      some ⟨halfway, fun _ => .idle⟩ := step_write arrived_add
  exact (Reaches.start.next (.write (.begin turnedAway)) home_fits hbegin).next (.write (.add turnedAway 0)) trivial
    hadd

theorem scrape_between_halfway : ∃ snap : Cell → ℕ,
    (home.render [true] none).eval halfway.look = (home.render [true] none).eval snap ∧
      ∀ c, home.total c [] ≤ snap (.counter c) ∧ snap (.counter c) ≤ home.total c [turnedAway] := by
  obtain ⟨s, run, hrest⟩ := reaches_scraped (k := 0) reaches_halfway rfl
  have ended : s.readers 0 = .ended halfway halfway ((home.render [true] none).eval halfway.look) := hrest.2.1
  obtain ⟨snap, hlines, hsnap⟩ := scrape_between run ended
  refine ⟨snap, ?_, ?_⟩
  · exact hlines
  · exact hsnap

end Metrics

end Oxbrook
