import Torii.Lib.Machine
import Torii.Metrics.Metric
import Torii.Metrics.Names

/-!
# The metrics manager

`ConnectionMetricsManager` of `metrics/connection.go`. The nodes live in a heap, and the map holds
indices. Removing a name leaves its node in the heap, as report functions and children may still
refer to it. The recursion of `TrackMetricsForConnection` is bounded by the length of the name, and
`none` stands for its fatal exit. Listeners are left out.
-/

namespace Torii.Metrics

open Go Strconv

/-- `ConnectionMetric`; the parent is a pointer into the heap. -/
structure ConnectionMetric where
  serverId : String
  accumulatedMetrics : Metric
  connectionName : String
  parentMetric : Option Nat

structure Manager where
  heap : List ConnectionMetric
  connectionMetricsMap : GoMap String Nat

namespace Manager

def addConnectionMetric (h : Manager) (serverId connectionName : String) (parent : Option Nat) :
    Manager where
  heap := h.heap ++ [⟨serverId, .new connectionName, connectionName, parent⟩]
  connectionMetricsMap := h.connectionMetricsMap.insert connectionName h.heap.length

/-- The recursion of `TrackMetricsForConnection`, to a bounded depth. -/
def trackToDepth : Nat → Manager → String → String → Option Manager
  | 0, _, _, _ => none
  | depth + 1, h, serverId, connectionName =>
    match h.connectionMetricsMap.lookup connectionName with
    | some _ => some h
    | none =>
      let parentName := deriveParentMetricName connectionName
      if parentName ≠ "" then
        match h.connectionMetricsMap.lookup parentName with
        | some con => some (h.addConnectionMetric serverId connectionName (some con))
        | none =>
          match trackToDepth depth h serverId parentName with
          | none => none
          | some h =>
            match h.connectionMetricsMap.lookup parentName with
            | none => none
            | some con => some (h.addConnectionMetric serverId connectionName (some con))
      else some (h.addConnectionMetric serverId connectionName none)

/-- A bound on the number of ancestors of a name. -/
def rank (name : String) : Nat := if name = globalMetricsConName then 1 else name.length + 2

/-- `TrackMetricsForConnection`. The report function it returns sends reports under the
name, so it is the name itself. -/
def trackMetricsForConnection (h : Manager) (serverId connectionName : String) : Option Manager :=
  trackToDepth (rank connectionName) h serverId connectionName

def new : Manager :=
  addConnectionMetric ⟨[], ∅⟩ globalMetricsConName globalMetricsConName none

def removeMetricsForServer (h : Manager) (serverId : String) : Manager :=
  { h with
    connectionMetricsMap := h.connectionMetricsMap.filter fun name cm =>
      ! decide ((h.heap[cm]?.map ConnectionMetric.serverId) = some serverId ∧
        name ≠ globalMetricsConName) }

def addAt (heap : List ConnectionMetric) (p : Nat) (metric : RequestMetric) :
    List ConnectionMetric :=
  heap.modify p fun node =>
    { node with accumulatedMetrics := node.accumulatedMetrics.addRequestMetric metric }

/-- The loop of `updateConnectionMetrics` over the ancestors; the heap bounds its length. -/
def propagate (metric : RequestMetric) :
    Nat → List ConnectionMetric → Option Nat → List ConnectionMetric
  | 0, heap, _ => heap
  | _ + 1, heap, none => heap
  | fuel + 1, heap, some cur =>
    let parent := heap[cur]?.bind ConnectionMetric.parentMetric
    propagate metric fuel (addAt heap cur metric) parent

def updateConnectionMetrics (h : Manager) (metric : RequestMetric) : Manager :=
  match h.connectionMetricsMap.lookup metric.connectionName with
  | none => h
  | some conMetrics =>
    let parent := h.heap[conMetrics]?.bind ConnectionMetric.parentMetric
    { h with
      heap := propagate metric h.heap.length (addAt h.heap conMetrics metric) parent }

end Manager

/-- `http-<port>`, the identifier of a listener. -/
def serverIdOf (port : Int) : String := "http-" ++ itoa port

inductive Op where
  | track (port : Int) (host path : String)
  | remove (port : Int)
  | report (metric : RequestMetric)

def machine : Machine Manager Op Unit where
  step h op :=
    match op with
    | .track port host path =>
      ((), (h.trackMetricsForConnection (serverIdOf port)
        (buildConnectionName "metric" (itoa port) host path)).getD h)
    | .remove port => ((), h.removeMetricsForServer (serverIdOf port))
    | .report metric => ((), h.updateConnectionMetrics metric)

theorem serverIdOf_inj {p q : Int} (h : serverIdOf p = serverIdOf q) : p = q := by
  apply itoa_inj
  rw [← String.toList_inj] at h ⊢
  simpa [serverIdOf] using h

/-- A name that is cut at a separator has fewer ancestors. -/
theorem rank_take_lt {name : String} {sub : List Char} {idx : Nat} (hsub : sub ≠ [])
    (hidx : Strings.indexList sub name.toList = some idx) (hname : name ≠ globalMetricsConName) :
    Manager.rank (Strings.take name idx) < Manager.rank name := by
  have hlt := Strings.indexList_lt hsub hidx
  have hlen : (Strings.take name idx).length < name.length := by
    simp only [Strings.take, ← String.length_toList, String.toList_ofList, List.length_take]
    omega
  unfold Manager.rank
  rw [if_neg hname]
  split <;> omega

theorem rank_derive_lt {name : String} (h : deriveParentMetricName name ≠ "") :
    Manager.rank (deriveParentMetricName name) < Manager.rank name := by
  have hglobal : ∀ sub ∈ ["-path-", "-host-"], Strings.index globalMetricsConName sub = none := by
    decide
  unfold deriveParentMetricName at h ⊢
  split
  · next idx hidx =>
    apply rank_take_lt _ hidx
    · rintro rfl
      rw [hglobal _ (by simp)] at hidx
      cases hidx
    · decide
  · next hpath =>
    simp only [hpath] at h
    split
    · next idx hidx =>
      apply rank_take_lt _ hidx
      · rintro rfl
        rw [hglobal _ (by simp)] at hidx
        cases hidx
      · decide
    · next hhost =>
      simp only [hhost] at h
      split
      · next hname => simp [hname] at h
      · next hname =>
        unfold Manager.rank
        rw [if_pos rfl, if_neg hname]
        omega

def lineage (name : String) : List String :=
  if _h : deriveParentMetricName name = "" then [name]
  else name :: lineage (deriveParentMetricName name)
termination_by Manager.rank name
decreasing_by exact rank_derive_lt _h

theorem self_mem_lineage (name : String) : name ∈ lineage name := by
  rw [lineage]
  split <;> exact List.mem_cons_self

end Torii.Metrics
