import Torii.Metrics.Hierarchy
import Torii.Middleware.Recorded
import Torii.Middleware.Request

/-!
# Traffic counters

The bytes received of a request are its `ContentLength`, which is `-1` when the length is not known,
so a request with a chunked body takes one byte off the counter of every node that it reaches.
Nothing else lowers a counter.
-/

namespace Torii.Middleware

open Go.Http Torii.Metrics ResponseWriterWithMetrics

variable {W : Type*}

/-- What `MetricsMiddleware` sees of a request: its length, what the next handlers did with the
response writer, and what it finds when they have returned. -/
structure HandledRequest (W : Type*) where
  contentLength : Int64
  responseWriter : W
  calls : List WriterCall
  elapsedMs : Int64
  deadlineExceeded : Bool := false
  blockInfo : Option BlockInfo := none
  contentLength_ge : -1 ≤ contentLength
  elapsedMs_nonneg : 0 ≤ elapsedMs

namespace HandledRequest

variable (inner : Machine W WriterCall WriterAnswer) (r : HandledRequest W)

def written : ResponseWriterWithMetrics W :=
  (ResponseWriterWithMetrics.methods inner).run { responseWriter := r.responseWriter } r.calls

/-- The report of `MetricsMiddleware`, from `initializeRequestMetrics` on. -/
def metric (connectionName : String) : RequestMetric where
  connectionName := connectionName
  latencyMs := r.elapsedMs
  isTimedOut := r.deadlineExceeded
  bytesSent := (r.written inner).reqMetrics.bytesSent
  bytesReceived := r.contentLength
  is2xxResponse := (r.written inner).reqMetrics.is2xxResponse
  is3xxResponse := (r.written inner).reqMetrics.is3xxResponse
  is4xxResponse := (r.written inner).reqMetrics.is4xxResponse
  is5xxResponse := (r.written inner).reqMetrics.is5xxResponse
  isMiddlewareBlockedRequest := r.blockInfo.isSome
  blockingMiddleware := (r.blockInfo.map BlockInfo.middleware).getD ""

end HandledRequest

inductive Traffic (W : Type*) where
  | track (port : Int) (host path : String)
  | remove (port : Int)
  | request (connectionName : String) (r : HandledRequest W)

def Traffic.op (inner : Machine W WriterCall WriterAnswer) : Traffic W → Op
  | .track port host path => .track port host path
  | .remove port => .remove port
  | .request connectionName r => .report (r.metric inner connectionName)

def manager (inner : Machine W WriterCall WriterAnswer) : Machine Manager (Traffic W) Unit where
  step h t := machine.step h (t.op inner)

/-! ## The counters -/

inductive Counter where
  | requestCount
  | totalLatencyMs
  | bytesSent
  | bytesReceived
deriving DecidableEq

def Counter.read (m : Metric) : Counter → Int64
  | .requestCount => m.requestCount
  | .totalLatencyMs => m.totalLatencyMs
  | .bytesSent => m.bytesSent
  | .bytesReceived => m.bytesReceived

/-- What a request adds to a counter. -/
def Counter.amount (r : HandledRequest W) : Counter → Int
  | .requestCount => 1
  | .totalLatencyMs => r.elapsedMs.toInt
  | .bytesSent => ((r.calls.map handedTo).sum : Nat)
  | .bytesReceived => r.contentLength.toInt

/-- No counter goes back at a node that is there before and after, and the average is the
quotient. -/
def Grows (h h' : Manager) : Prop :=
  ∀ name p node', Bound h' name p node' →
    (∀ node, Bound h name p node → ∀ c : Counter,
      c.read node.accumulatedMetrics ≤ c.read node'.accumulatedMetrics) ∧
    node'.accumulatedMetrics.avgResponseTimeMs =
      node'.accumulatedMetrics.totalLatencyMs / node'.accumulatedMetrics.requestCount

/-- A request whose connection has a node comes with its length. -/
def LengthKnown (h : Manager) : Traffic W → Prop
  | .request connectionName r =>
    (h.connectionMetricsMap.lookup connectionName).isSome → 0 ≤ r.contentLength
  | _ => True

def requests (traffic : List (Traffic W)) : List (HandledRequest W) :=
  traffic.filterMap fun
    | .request _ r => some r
    | _ => none

/-- The sum of what the requests add to a counter. -/
def volume (c : Counter) (traffic : List (Traffic W)) : Nat :=
  ((requests traffic).map fun r => (c.amount r).toNat).sum

variable (inner : Machine W WriterCall WriterAnswer)

theorem bytesSent_run (calls : List WriterCall) (w : ResponseWriterWithMetrics W) :
    ((ResponseWriterWithMetrics.methods inner).run w calls).reqMetrics.bytesSent =
      w.reqMetrics.bytesSent + .ofNat (calls.map handedTo).sum := by
  induction calls generalizing w with
  | nil => exact (Int64.add_zero _).symm
  | cons call calls ih =>
    have hstep : ((methods inner).step w call).2.reqMetrics.bytesSent =
        w.reqMetrics.bytesSent + .ofNat (handedTo call) := by
      cases call with
      | writeHeader code =>
        cases hflag : w.wroteHeader <;>
          simp [methods, hflag, handedTo, ResponseMetrics.noteStatus]
      | write =>
        simp only [methods, handedTo]
        split
        · rfl
        · simp only
          split <;> rfl
      | flush => simp [methods, handedTo]
    rw [Machine.run_cons, ih, hstep, Int64.add_assoc, ← Int64.ofNat_add, List.map_cons,
      List.sum_cons]

/-- One report adds the amounts of its request. -/
theorem read_addRequestMetric (m : Metric)
    (connectionName : String) (r : HandledRequest W) (c : Counter) :
    c.read (m.addRequestMetric (r.metric inner connectionName)) =
      c.read m + .ofInt (c.amount r) := by
  have hcounters := counters_addRequestMetric m (r.metric inner connectionName)
  simp only [Metric.counters, List.cons.injEq] at hcounters
  obtain ⟨hcount, hlatency, hsent, hreceived, -⟩ := hcounters
  cases c with
  | requestCount => exact hcount
  | totalLatencyMs => simpa [Counter.read, Counter.amount, HandledRequest.metric] using hlatency
  | bytesSent =>
    have hpassed := bytesSent_run inner r.calls { responseWriter := r.responseWriter }
    rw [Int64.zero_add] at hpassed
    rw [Counter.read, Counter.amount, hsent, HandledRequest.metric, HandledRequest.written,
      hpassed, Int64.ofInt_eq_ofNat]
    rfl
  | bytesReceived => simpa [Counter.read, Counter.amount, HandledRequest.metric] using hreceived

theorem neg_one_le_amount (r : HandledRequest W) (c : Counter) : -1 ≤ c.amount r := by
  cases c with
  | requestCount => exact (by decide : (-1 : Int) ≤ 1)
  | totalLatencyMs => exact le_trans (by decide) (Int64.le_iff_toInt_le.mp r.elapsedMs_nonneg)
  | bytesSent => exact le_trans (by decide) (Int.natCast_nonneg _)
  | bytesReceived => exact Int64.le_iff_toInt_le.mp r.contentLength_ge

/-- Only an unknown length takes something off. -/
theorem amount_nonneg_iff (r : HandledRequest W) :
    (∀ c : Counter, 0 ≤ c.amount r) ↔ 0 ≤ r.contentLength := by
  constructor
  · intro h
    exact Int64.le_iff_toInt_le.mpr (h .bytesReceived)
  · intro h c
    cases c with
    | requestCount => exact Int.one_nonneg
    | totalLatencyMs => exact Int64.le_iff_toInt_le.mp r.elapsedMs_nonneg
    | bytesSent => exact Int.natCast_nonneg _
    | bytesReceived => exact Int64.le_iff_toInt_le.mp h

theorem toInt_add_ofInt {a : Int64} {v : Int} (hlo : -2 ^ 63 ≤ a.toInt + v)
    (hhi : a.toInt + v < 2 ^ 63) : (a + .ofInt v).toInt = a.toInt + v := by
  have hsize : Int64.size = 2 ^ 64 := rfl
  rw [Int64.toInt_add, Int64.toInt_ofInt, hsize, Int.add_bmod_bmod]
  exact Int.bmod_eq_of_le (by omega) (by omega)

/-! ## Runs -/

/-- The counters of a node stay within what the requests can add and take off. -/
structure Within (traffic : List (Traffic W)) (m : Metric) : Prop where
  lower : ∀ c : Counter, -(volume .requestCount traffic : Int) ≤ (c.read m).toInt
  upper : ∀ c : Counter, (c.read m).toInt ≤ volume c traffic
  average : m.avgResponseTimeMs = m.totalLatencyMs / m.requestCount

theorem volume_request (c : Counter) (traffic : List (Traffic W)) (name : String)
    (r : HandledRequest W) :
    volume c (traffic ++ [.request name r]) = volume c traffic + (c.amount r).toNat := by
  simp [volume, requests]

theorem volume_le_concat (c : Counter) (traffic : List (Traffic W)) (t : Traffic W) :
    volume c traffic ≤ volume c (traffic ++ [t]) := by
  simp [volume, requests]

theorem within_new (traffic : List (Traffic W)) (name : String) :
    Within traffic (.new name) := by
  have hzero : ∀ c : Counter, (c.read (.new name)).toInt = 0 := by
    intro c
    cases c <;> rfl
  exact ⟨fun c => by simp [hzero], fun c => by simp [hzero], (by decide : (0 : Int64) = 0 / 0)⟩

theorem Within.mono {traffic : List (Traffic W)} {m : Metric} (h : Within traffic m)
    (t : Traffic W) : Within (traffic ++ [t]) m where
  lower c := by
    have hle := volume_le_concat .requestCount traffic t
    have := h.lower c
    omega
  upper c := by
    have hle := volume_le_concat c traffic t
    have := h.upper c
    omega
  average := h.average

section

variable {inner : Machine W WriterCall WriterAnswer} {traffic : List (Traffic W)} {m : Metric}
  {name : String} {r : HandledRequest W}

theorem Within.toInt_add (h : Within traffic m)
    (hfits : ∀ c, volume c (traffic ++ [.request name r]) < 2 ^ 63) (c : Counter) :
    (c.read (m.addRequestMetric (r.metric inner name))).toInt =
      (c.read m).toInt + c.amount r := by
  have hlower := h.lower c
  have hupper := h.upper c
  have hamount := neg_one_le_amount r c
  have hcount := hfits .requestCount
  have hvolume := hfits c
  rw [volume_request] at hcount hvolume
  simp only [Counter.amount] at hcount
  rw [read_addRequestMetric]
  exact toInt_add_ofInt (by omega) (by omega)

theorem Within.add (h : Within traffic m)
    (hfits : ∀ c, volume c (traffic ++ [.request name r]) < 2 ^ 63) :
    Within (traffic ++ [.request name r]) (m.addRequestMetric (r.metric inner name)) where
  lower c := by
    have hlower := h.lower c
    have hamount := neg_one_le_amount r c
    have hcount := volume_request .requestCount traffic name r
    rw [h.toInt_add hfits, hcount]
    change -((volume .requestCount traffic + 1 : Nat) : Int) ≤ _
    omega
  upper c := by
    have hupper := h.upper c
    rw [h.toInt_add hfits, volume_request]
    omega
  average := rfl

theorem Within.monotone_iff (h : Within traffic m)
    (hfits : ∀ c, volume c (traffic ++ [.request name r]) < 2 ^ 63) :
    (∀ c : Counter, c.read m ≤ c.read (m.addRequestMetric (r.metric inner name))) ↔
      0 ≤ r.contentLength := by
  rw [← amount_nonneg_iff]
  refine forall_congr' fun c => ?_
  rw [Int64.le_iff_toInt_le, h.toInt_add hfits]
  omega

end

theorem wellFormed_manager
    (traffic : List (Traffic W)) : Metrics.WellFormed ((manager inner).run .new traffic) :=
  (manager inner).run_invariant Metrics.WellFormed
    (fun _ t wf => (wellFormed_step wf (t.op inner)).1) wellFormed_new traffic

/-- Step lemma: where the node of a name comes from. -/
theorem bound_step {inner : Machine W WriterCall WriterAnswer} {h : Manager}
    (wf : Metrics.WellFormed h) {t : Traffic W} {name : String} {p : Nat} {node' : ConnectionMetric}
    (hb : Bound ((manager inner).step h t).2 name p node') :
    (∃ node, Bound h name p node ∧
      (node' = node ∨ ∃ connectionName r, t = .request connectionName r ∧
        (h.connectionMetricsMap.lookup connectionName).isSome ∧
        node' = addReport (r.metric inner connectionName) node)) ∨
    h.heap.length ≤ p ∧ node'.accumulatedMetrics = .new name := by
  cases t with
  | track port host path =>
    obtain ⟨h', htrack, -, hgrown, -⟩ := track_spec wf port host path
    change Bound (machine.step h (.track port host path)).2 name p node' at hb
    rw [step_track htrack] at hb
    exact (hgrown.bound wf hb).imp_left fun hold => ⟨node', hold, .inl rfl⟩
  | remove port => exact .inl ⟨node', (bound_of_remove hb).1, .inl rfl⟩
  | request connectionName r =>
    obtain ⟨node, hold, hnode⟩ := bound_of_update wf hb
    refine .inl ⟨node, hold, ?_⟩
    split at hnode
    · next hreach => exact .inr ⟨connectionName, r, rfl, hreach.1, hnode⟩
    · exact .inl hnode

/-- Run lemma: all nodes stay within the volumes. -/
theorem within_run {traffic : List (Traffic W)}
    (hfits : ∀ c, volume c traffic < 2 ^ 63) {name : String} {p : Nat} {node : ConnectionMetric}
    (hb : Bound ((manager inner).run .new traffic) name p node) :
    Within traffic node.accumulatedMetrics := by
  induction traffic using List.reverseRecOn generalizing node with
  | nil =>
    obtain ⟨hp, hnode⟩ := hb
    rw [Machine.run_nil, lookup_new] at hp
    split at hp
    · cases hp
      cases hnode
      exact within_new _ _
    · cases hp
  | append_singleton traffic t ih =>
    have ih := @ih (fun c => lt_of_le_of_lt (volume_le_concat c traffic t) (hfits c))
    rw [Machine.run_concat] at hb
    obtain ⟨old, hold, hnode⟩ | ⟨-, hnode⟩ := bound_step (wellFormed_manager inner traffic) hb
    · obtain rfl | ⟨connectionName, r, rfl, -, rfl⟩ := hnode
      · exact (ih hold).mono t
      · exact (ih hold).add hfits
    · rw [hnode]
      exact within_new _ _

/-- While no counter overflows, the counters of all nodes grow with every step, and the averages
are the quotients, exactly when every request that reaches a node comes with its length. -/
theorem counters_monotone_iff (inner : Machine W WriterCall WriterAnswer)
    (traffic : List (Traffic W)) (hfits : ∀ c, volume c traffic < 2 ^ 63) :
    (manager inner).Steps (fun h t => Grows h ((manager inner).step h t).2) .new traffic ↔
      (manager inner).Steps LengthKnown .new traffic := by
  induction traffic using List.reverseRecOn with
  | nil => exact Iff.rfl
  | append_singleton traffic t ih =>
    have hbefore := fun c => lt_of_le_of_lt (volume_le_concat c traffic t) (hfits c)
    rw [Machine.steps_concat, Machine.steps_concat]
    refine and_congr (ih hbefore) ?_
    have wf := wellFormed_manager inner traffic
    constructor
    · intro hgrows
      cases t with
      | request connectionName r =>
        intro htracked
        obtain ⟨p, hp⟩ := Option.isSome_iff_exists.mp htracked
        obtain ⟨node, hnode, -⟩ := wf.node connectionName p hp
        have hreach : Reaches _ connectionName (r.metric inner connectionName) :=
          ⟨htracked, self_mem_lineage connectionName⟩
        have hafter : Bound (((manager inner).run .new traffic).updateConnectionMetrics
            (r.metric inner connectionName)) connectionName p
              (addReport (r.metric inner connectionName) node) :=
          ⟨(map_update _ _).symm ▸ hp, by rw [update_node wf _ hp, if_pos hreach, hnode]; rfl⟩
        exact ((within_run inner hbefore ⟨hp, hnode⟩).monotone_iff hfits).mp
          ((hgrows connectionName p _ hafter).1 node ⟨hp, hnode⟩)
      | _ => trivial
    · intro hknown name p node' hb
      have hwithin := within_run inner hfits (Machine.run_concat .. ▸ hb)
      refine ⟨?_, hwithin.average⟩
      intro node hnode c
      obtain ⟨old, hold, hsame⟩ | ⟨hle, -⟩ := bound_step wf hb
      · obtain rfl : old = node := Option.some.inj (hold.2.symm.trans hnode.2)
        obtain rfl | ⟨connectionName, r, rfl, htracked, rfl⟩ := hsame
        · exact Int64.le_refl _
        · exact ((within_run inner hbefore hold).monotone_iff hfits).mpr (hknown htracked) c
      · exact absurd (wf.lt_length hnode.1) (Nat.not_lt.mpr hle)

def sampleTraffic (contentLength : Int64) (h : -1 ≤ contentLength) : List (Traffic Response) :=
  [.track 8080 "" "", .request "metric-port-8080"
    { contentLength
      responseWriter := {}
      calls := [.writeHeader 200, .write [111, 107] none]
      elapsedMs := 3
      contentLength_ge := h
      elapsedMs_nonneg := by decide }]

theorem counters_monotone_sampleTraffic :
    (manager Response.writer).Steps
      (fun h t => Grows h ((manager Response.writer).step h t).2) .new
      (sampleTraffic 12 (by decide)) :=
  (counters_monotone_iff Response.writer (sampleTraffic 12 (by decide))
    (by intro c; cases c <;> decide +kernel)).mpr ⟨trivial, fun _ => by decide, trivial⟩

/-- The length of a chunked body is not known: the bytes received drop from zero to minus one, at
the node of the listener and at the global one. -/
theorem unknownLength_lowers :
    let before := (manager Response.writer).run .new [.track 8080 "" ""]
    let after := (manager Response.writer).run .new (sampleTraffic (-1) (by decide))
    before.heap.map (·.accumulatedMetrics.bytesReceived) = [0, 0] ∧
      after.heap.map (·.accumulatedMetrics.bytesReceived) = [-1, -1] := by
  decide +kernel

end Torii.Middleware
