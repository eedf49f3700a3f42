import Torii.Go.Chan
import Torii.Metrics.Connection

/-!
# Collecting metrics

`StartCollectingMetrics`, `StopCollectingMetrics` and the report functions of
`metrics/connection.go`. The channel has no buffer, so a report is handed over in one step with the
worker that takes it. When the last worker has returned the channel is closed. A report function
selects between the send and the context, and the send on the closed channel panics.
-/

namespace Torii.Metrics

open Go

/-- What a worker in `collectGlobalMetrics` is doing. -/
inductive Collector where
  | waiting
  | updating (metric : RequestMetric)
  | returned

inductive Report where
  | selecting (metric : RequestMetric)
  | returned
  | panicked

/-- The manager with the context, the channel, the workers and the calls of report functions. -/
structure Collection where
  manager : Manager
  cancelled : Bool := false
  closed : Bool := false
  workers : List Collector
  reports : List Report := []

/-- What can happen next. A select with several ready cases may pick any of them: `handOver` and
`sendClosed` are the send of a report, `workerClosed` is the receive of a worker when the channel
is closed, `reportDone` and `workerDone` are the cases of the context. -/
inductive CollectAction where
  | report (connectionName : String) (metric : RequestMetric)
  | handOver (r w : Nat)
  | sendClosed (r : Nat)
  | reportDone (r : Nat)
  | update (w : Nat)
  | workerClosed (w : Nat)
  | workerDone (w : Nat)
  | stopCollectingMetrics
  | close

namespace Collector

def isReturned : Collector → Bool
  | .returned => true
  | _ => false

end Collector

namespace Report

def isSelecting : Report → Bool
  | .selecting _ => true
  | _ => false

end Report

namespace Collection

def startCollectingMetrics (h : Manager) (numberOfWorkers : Nat) : Collection where
  manager := h
  workers := List.replicate numberOfWorkers .waiting

variable (s : Collection)

def setReport (r : Nat) (report : Report) : Collection :=
  { s with reports := s.reports.set r report }

def setWorker (w : Nat) (worker : Collector) : Collection :=
  { s with workers := s.workers.set w worker }

def report (connectionName : String) (metric : RequestMetric) : Collection :=
  { s with
    reports := s.reports ++ [.selecting { metric with connectionName := connectionName }] }

/-- A waiting worker takes the metric of a report. -/
def handOver (r w : Nat) : List (ChanOp Unit) × Collection :=
  match s.reports[r]?, s.workers[w]? with
  | some (.selecting metric), some .waiting =>
    ([.send ()], (s.setReport r .returned).setWorker w (.updating metric))
  | _, _ => ([], s)

def sendClosed (r : Nat) : List (ChanOp Unit) × Collection :=
  match s.reports[r]? with
  | some (.selecting _) => if s.closed then ([.send ()], s.setReport r .panicked) else ([], s)
  | _ => ([], s)

def reportDone (r : Nat) : Collection :=
  match s.reports[r]? with
  | some (.selecting _) => if s.cancelled then s.setReport r .returned else s
  | _ => s

/-- A worker ends its `updateConnectionMetrics`. -/
def update (w : Nat) : Collection :=
  match s.workers[w]? with
  | some (.updating metric) =>
    { s.setWorker w .waiting with manager := s.manager.updateConnectionMetrics metric }
  | _ => s

def leave (w : Nat) (may : Bool) : Collection :=
  match s.workers[w]? with
  | some .waiting => if may then s.setWorker w .returned else s
  | _ => s

/-- The end of `startCollectingMetrics`, after its `WaitGroup` has seen all workers return. -/
def close : List (ChanOp Unit) × Collection :=
  if s.closed = false ∧ s.workers.all Collector.isReturned = true then
    ([.close ()], { s with closed := true })
  else ([], s)

end Collection

/-- The interleavings of report functions and workers; a step answers with the operations on the
channel that were carried out. -/
def collecting : Machine Collection CollectAction (List (ChanOp Unit)) where
  step s
    | .report connectionName metric => ([], s.report connectionName metric)
    | .handOver r w => s.handOver r w
    | .sendClosed r => s.sendClosed r
    | .reportDone r => ([], s.reportDone r)
    | .update w => ([], s.update w)
    | .workerClosed w => ([], s.leave w s.closed)
    | .workerDone w => ([], s.leave w s.cancelled)
    | .stopCollectingMetrics => ([], { s with cancelled := true })
    | .close => s.close

def metricsChanLog (s : Collection) (ops : List CollectAction) : List (ChanOp Unit) :=
  collecting.collect (fun s op => (collecting.step s op).1) s ops

/-- The channel is closed when no report is in its select, and no report function is called
after that. Only sufficient: a later report may find the context done and return. -/
def Timely (s : Collection) : CollectAction → Prop
  | .report _ _ => s.closed = false
  | .close => ∀ report ∈ s.reports, report.isSelecting = false
  | _ => True

instance (s : Collection) : (op : CollectAction) → Decidable (Timely s op)
  | .report .. => inferInstanceAs (Decidable (_ = _))
  | .close => inferInstanceAs (Decidable (∀ report ∈ s.reports, report.isSelecting = false))
  | .handOver .. | .sendClosed _ | .reportDone _ | .update _ | .workerClosed _ | .workerDone _
  | .stopCollectingMetrics => isTrue trivial

/-- The invariant: when the channel is closed, nobody is left that could use it. -/
structure Tidy (log : List (ChanOp Unit)) (s : Collection) : Prop where
  disciplined : Disciplined log
  closes : ChanOp.close () ∈ log → s.closed = true
  workers : s.closed = true → ∀ worker ∈ s.workers, worker.isReturned = true
  reports : s.closed = true → ∀ report ∈ s.reports, report.isSelecting = false

section

variable {log : List (ChanOp Unit)} {s : Collection}

theorem tidy_start (h : Manager) (numberOfWorkers : Nat) :
    Tidy [] (Collection.startCollectingMetrics h numberOfWorkers) where
  disciplined := disciplined_nil
  closes h := absurd h List.not_mem_nil
  workers h := by cases h
  reports h := by cases h

variable (h : Tidy log s)

include h

variable (r w : Nat)

theorem Tidy.setReport {report : Report} (hreport : report.isSelecting = false) :
    Tidy log (s.setReport r report) where
  disciplined := h.disciplined
  closes := h.closes
  workers := h.workers
  reports hclosed report' hmem := by
    obtain hold | rfl := List.mem_or_eq_of_mem_set hmem
    · exact h.reports hclosed report' hold
    · exact hreport

theorem Tidy.setWorker {worker : Collector} (hworker : s.closed = true → worker.isReturned = true) :
    Tidy log (s.setWorker w worker) where
  disciplined := h.disciplined
  closes := h.closes
  workers hclosed worker' hmem := by
    obtain hold | rfl := List.mem_or_eq_of_mem_set hmem
    · exact h.workers hclosed worker' hold
    · exact hworker hclosed
  reports := h.reports

theorem Tidy.send (hopen : s.closed = false) : Tidy (log ++ [.send ()]) s where
  disciplined := h.disciplined.concat fun hclose => by
    rw [h.closes hclose] at hopen
    cases hopen
  closes hclose := h.closes (by simpa using hclose)
  workers := h.workers
  reports := h.reports

theorem Tidy.open_of_worker {w : Nat} {worker : Collector}
    (hw : s.workers[w]? = some worker) (hworker : worker.isReturned = false) :
    s.closed = false := by
  rw [← Bool.not_eq_true]
  intro hclosed
  rw [h.workers hclosed worker (List.mem_of_getElem? hw)] at hworker
  cases hworker

theorem Tidy.open_of_report {r : Nat} {report : Report}
    (hr : s.reports[r]? = some report) (hreport : report.isSelecting = true) :
    s.closed = false := by
  rw [← Bool.not_eq_true]
  intro hclosed
  rw [h.reports hclosed report (List.mem_of_getElem? hr)] at hreport
  cases hreport

theorem Tidy.handOver : Tidy (log ++ (s.handOver r w).1) (s.handOver r w).2 := by
  rw [Collection.handOver]
  split
  · next metric hr hw =>
    have hopen : s.closed = false := h.open_of_worker hw rfl
    refine (((h.send hopen).setReport r rfl).setWorker w fun hclosed => ?_)
    rw [show (s.setReport r .returned).closed = s.closed from rfl, hopen] at hclosed
    cases hclosed
  · rwa [List.append_nil]

theorem Tidy.sendClosed : Tidy (log ++ (s.sendClosed r).1) (s.sendClosed r).2 := by
  rw [Collection.sendClosed]
  split
  · next metric hr =>
    rw [h.open_of_report hr rfl, if_neg (by simp), List.append_nil]
    exact h
  · rwa [List.append_nil]

theorem Tidy.reportDone : Tidy log (s.reportDone r) := by
  rw [Collection.reportDone]
  split
  · split
    · exact h.setReport r rfl
    · exact h
  · exact h

theorem Tidy.update : Tidy log (s.update w) := by
  rw [Collection.update]
  split
  · next metric hw =>
    have hset : Tidy log (s.setWorker w .waiting) := h.setWorker w fun hclosed => by
      rw [h.open_of_worker hw rfl] at hclosed
      cases hclosed
    exact { hset with }
  · exact h

theorem Tidy.leave (may : Bool) : Tidy log (s.leave w may) := by
  rw [Collection.leave]
  split
  · split
    · exact h.setWorker w fun _ => rfl
    · exact h
  · exact h

theorem Tidy.close (hreports : ∀ report ∈ s.reports, report.isSelecting = false) :
    Tidy (log ++ s.close.1) s.close.2 := by
  rw [Collection.close]
  split
  · next hready =>
    obtain ⟨hopen, hreturned⟩ := hready
    refine ⟨h.disciplined.concat fun hclose => ?_, fun _ => rfl, fun _ => ?_, fun _ => hreports⟩
    · rw [h.closes hclose] at hopen
      cases hopen
    · exact List.all_eq_true.mp hreturned
  · rwa [List.append_nil]

theorem Tidy.report (hopen : s.closed = false) (connectionName : String) (metric : RequestMetric) :
    Tidy log (s.report connectionName metric) where
  disciplined := h.disciplined
  closes := h.closes
  workers := h.workers
  reports hclosed := by
    rw [show (s.report connectionName metric).closed = s.closed from rfl, hopen] at hclosed
    cases hclosed

theorem Tidy.silent : Tidy (log ++ []) s := by
  rwa [List.append_nil]

theorem Tidy.step {op : CollectAction} (hop : Timely s op) :
    Tidy (log ++ (collecting.step s op).1) (collecting.step s op).2 := by
  cases op with
  | report connectionName metric => exact (h.report hop connectionName metric).silent
  | handOver r w => exact h.handOver r w
  | sendClosed r => exact h.sendClosed r
  | reportDone r => exact (h.reportDone r).silent
  | update w => exact (h.update w).silent
  | workerClosed w => exact (h.leave w s.closed).silent
  | workerDone w => exact (h.leave w s.cancelled).silent
  | stopCollectingMetrics =>
    exact Tidy.silent ⟨h.disciplined, h.closes, h.workers, h.reports⟩
  | close => exact h.close hop

end

/-- In every interleaving in which the channel is closed after the last report, nothing is sent
on the closed channel. -/
theorem reports_disciplined (h : Manager) (numberOfWorkers : Nat) {ops : List CollectAction}
    (hops : collecting.Steps Timely (.startCollectingMetrics h numberOfWorkers) ops) :
    Disciplined (metricsChanLog (.startCollectingMetrics h numberOfWorkers) ops) :=
  (collecting.collect_of_steps Tidy (fun _ _ _ hop h => h.step hop) hops
    (tidy_start h numberOfWorkers)).disciplined

def okReport : CollectAction :=
  .report "global" ⟨"", 3, false, 20, 0, true, false, false, false, false, ""⟩

def timelyRun : List CollectAction :=
  [okReport, okReport, .handOver 1 0, .handOver 0 1, .update 0, .update 1, okReport,
    .stopCollectingMetrics, .workerDone 0, .reportDone 2, .workerDone 1, .close]

theorem reports_disciplined_timelyRun :
    Disciplined (metricsChanLog (.startCollectingMetrics .new 2) timelyRun) :=
  reports_disciplined .new 2
    (show collecting.Steps Timely (.startCollectingMetrics .new 2) timelyRun by decide +kernel)

/-- A request reports after the workers have returned and the channel is closed. Its select has
two ready cases, and the send is one of them. -/
def lateReport : List CollectAction :=
  [.stopCollectingMetrics, .workerDone 0, .workerDone 1, .close, okReport, .sendClosed 0]

theorem lateReport_panics :
    metricsChanLog (.startCollectingMetrics .new 2) lateReport = [.close (), .send ()] ∧
      ¬ Disciplined (metricsChanLog (.startCollectingMetrics .new 2) lateReport) := by
  decide +kernel

end Torii.Metrics
