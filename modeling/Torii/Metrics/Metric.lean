import Torii.Go.Map

/-!
# Accumulated metrics

`metrics/metric.go` and the ring of `metrics/latency.go`. Counters are `int64` and wrap around. The
fields that `AddRequestMetric` does not use are left out.
-/

namespace Torii.Metrics

open Go

structure RequestMetric where
  connectionName : String
  latencyMs : Int64
  isTimedOut : Bool
  bytesSent : Int64
  bytesReceived : Int64
  is2xxResponse : Bool
  is3xxResponse : Bool
  is4xxResponse : Bool
  is5xxResponse : Bool
  isMiddlewareBlockedRequest : Bool
  blockingMiddleware : String
deriving DecidableEq

structure LatencyRing where
  data : List Int64
  pos : Nat
  count : Nat
  cap : Nat

def LatencyRing.new (capacity : Nat) : LatencyRing := ⟨List.replicate capacity 0, 0, 0, capacity⟩

def LatencyRing.add (r : LatencyRing) (value : Int64) : LatencyRing where
  data := r.data.set r.pos value
  pos := (r.pos + 1) % r.cap
  count := if r.count < r.cap then r.count + 1 else r.count
  cap := r.cap

structure Metric where
  connectionName : String
  requestCount : Int64 := 0
  errorCount : Int64 := 0
  totalLatencyMs : Int64 := 0
  avgResponseTimeMs : Int64 := 0
  upstreamTimeouts : Int64 := 0
  bytesSent : Int64 := 0
  bytesReceived : Int64 := 0
  request2xxCount : Int64 := 0
  request3xxCount : Int64 := 0
  request4xxCount : Int64 := 0
  request5xxCount : Int64 := 0
  blockedTotal : Int64 := 0
  blockedByMiddleware : GoMap String Int64 := ∅
  latencies : Option LatencyRing := none

def latencyBufferSize : Nat := 1000

namespace Metric

/-- `NewMetric`, with the name that its caller sets. -/
def new (connectionName : String) : Metric :=
  { connectionName := connectionName, latencies := some (.new latencyBufferSize) }

/-- The four status classes; the first flag that is set decides. -/
def addStatusClass (m : Metric) (metric : RequestMetric) : Metric :=
  if metric.is2xxResponse then { m with request2xxCount := m.request2xxCount + 1 }
  else if metric.is3xxResponse then { m with request3xxCount := m.request3xxCount + 1 }
  else if metric.is4xxResponse then { m with request4xxCount := m.request4xxCount + 1 }
  else if metric.is5xxResponse then
    { m with request5xxCount := m.request5xxCount + 1, errorCount := m.errorCount + 1 }
  else m

def addBlocked (m : Metric) (metric : RequestMetric) : Metric :=
  if metric.isMiddlewareBlockedRequest then
    let m := { m with blockedTotal := m.blockedTotal + 1 }
    if metric.blockingMiddleware ≠ "" then
      let count := (m.blockedByMiddleware.lookup metric.blockingMiddleware).getD 0
      { m with
        blockedByMiddleware := m.blockedByMiddleware.insert metric.blockingMiddleware (count + 1) }
    else m
  else m

def addRequestMetric (m : Metric) (metric : RequestMetric) : Metric :=
  let m := { m with
    requestCount := m.requestCount + 1
    totalLatencyMs := m.totalLatencyMs + metric.latencyMs
    bytesSent := m.bytesSent + metric.bytesSent
    bytesReceived := m.bytesReceived + metric.bytesReceived }
  let m := m.addStatusClass metric
  let m := if metric.isTimedOut then { m with upstreamTimeouts := m.upstreamTimeouts + 1 } else m
  let m := m.addBlocked metric
  { m with
    avgResponseTimeMs := m.totalLatencyMs / m.requestCount
    latencies := m.latencies.map (·.add metric.latencyMs) }

end Metric

inductive StatusClass where
  | class2xx
  | class3xx
  | class4xx
  | class5xx
deriving DecidableEq

def RequestMetric.statusClass (r : RequestMetric) : Option StatusClass :=
  if r.is2xxResponse then some .class2xx
  else if r.is3xxResponse then some .class3xx
  else if r.is4xxResponse then some .class4xx
  else if r.is5xxResponse then some .class5xx
  else none

def sumOf (f : RequestMetric → Int64) (reports : List RequestMetric) : Int64 := (reports.map f).sum

def countOf (c : StatusClass) (reports : List RequestMetric) : Int64 :=
  sumOf (fun r => if r.statusClass = some c then 1 else 0) reports

structure Totals (m : Metric) (reports : List RequestMetric) : Prop where
  requestCount : m.requestCount = sumOf (fun _ => 1) reports
  totalLatencyMs : m.totalLatencyMs = sumOf (·.latencyMs) reports
  bytesSent : m.bytesSent = sumOf (·.bytesSent) reports
  bytesReceived : m.bytesReceived = sumOf (·.bytesReceived) reports
  request2xxCount : m.request2xxCount = countOf .class2xx reports
  request3xxCount : m.request3xxCount = countOf .class3xx reports
  request4xxCount : m.request4xxCount = countOf .class4xx reports
  request5xxCount : m.request5xxCount = countOf .class5xx reports

theorem sumOf_concat (f : RequestMetric → Int64) (reports : List RequestMetric)
    (r : RequestMetric) : sumOf f (reports ++ [r]) = sumOf f reports + f r := by
  induction reports with
  | nil => simp [sumOf, Int64.add_comm]
  | cons r' reports ih =>
    simp only [sumOf, List.cons_append, List.map_cons, List.sum_cons] at ih ⊢
    rw [ih, Int64.add_assoc]

theorem totals_new (connectionName : String) : Totals (.new connectionName) [] where
  requestCount := rfl
  totalLatencyMs := rfl
  bytesSent := rfl
  bytesReceived := rfl
  request2xxCount := rfl
  request3xxCount := rfl
  request4xxCount := rfl
  request5xxCount := rfl

def Metric.counters (m : Metric) : List Int64 :=
  [m.requestCount, m.totalLatencyMs, m.bytesSent, m.bytesReceived, m.request2xxCount,
    m.request3xxCount, m.request4xxCount, m.request5xxCount]

variable (m : Metric) (r : RequestMetric)

theorem counters_addBlocked : (m.addBlocked r).counters = m.counters := by
  unfold Metric.addBlocked
  split
  · simp only
    split <;> rfl
  · rfl

theorem counters_addStatusClass :
    (m.addStatusClass r).counters =
      [m.requestCount, m.totalLatencyMs, m.bytesSent, m.bytesReceived,
        m.request2xxCount + (if r.statusClass = some .class2xx then 1 else 0),
        m.request3xxCount + (if r.statusClass = some .class3xx then 1 else 0),
        m.request4xxCount + (if r.statusClass = some .class4xx then 1 else 0),
        m.request5xxCount + (if r.statusClass = some .class5xx then 1 else 0)] := by
  unfold Metric.addStatusClass RequestMetric.statusClass
  cases r.is2xxResponse <;> cases r.is3xxResponse <;> cases r.is4xxResponse <;>
    cases r.is5xxResponse <;> simp [Metric.counters]

theorem counters_addRequestMetric :
    (m.addRequestMetric r).counters =
      [m.requestCount + 1, m.totalLatencyMs + r.latencyMs, m.bytesSent + r.bytesSent,
        m.bytesReceived + r.bytesReceived,
        m.request2xxCount + (if r.statusClass = some .class2xx then 1 else 0),
        m.request3xxCount + (if r.statusClass = some .class3xx then 1 else 0),
        m.request4xxCount + (if r.statusClass = some .class4xx then 1 else 0),
        m.request5xxCount + (if r.statusClass = some .class5xx then 1 else 0)] := by
  have hlast : ∀ (m : Metric) (avg : Int64) (ring : Option LatencyRing),
      ({ m with avgResponseTimeMs := avg, latencies := ring } : Metric).counters = m.counters :=
    fun _ _ _ => rfl
  have htimeout : ∀ m : Metric, (if r.isTimedOut then
      { m with upstreamTimeouts := m.upstreamTimeouts + 1 } else m).counters = m.counters := by
    intro m
    split <;> rfl
  unfold Metric.addRequestMetric
  rw [hlast, counters_addBlocked, htimeout, counters_addStatusClass]

/-- Step lemma: one more report. -/
theorem Totals.concat {m : Metric} {reports : List RequestMetric} (h : Totals m reports)
    (r : RequestMetric) : Totals (m.addRequestMetric r) (reports ++ [r]) := by
  have hcounters := counters_addRequestMetric m r
  simp only [Metric.counters, List.cons.injEq, and_true] at hcounters
  obtain ⟨hcount, hlatency, hsent, hreceived, h2xx, h3xx, h4xx, h5xx⟩ := hcounters
  refine ⟨?_, ?_, ?_, ?_, ?_, ?_, ?_, ?_⟩
  · rw [hcount, h.requestCount, sumOf_concat]
  · rw [hlatency, h.totalLatencyMs, sumOf_concat]
  · rw [hsent, h.bytesSent, sumOf_concat]
  · rw [hreceived, h.bytesReceived, sumOf_concat]
  · rw [h2xx, h.request2xxCount, countOf, countOf, sumOf_concat]
  · rw [h3xx, h.request3xxCount, countOf, countOf, sumOf_concat]
  · rw [h4xx, h.request4xxCount, countOf, countOf, sumOf_concat]
  · rw [h5xx, h.request5xxCount, countOf, countOf, sumOf_concat]

end Torii.Metrics
