import Mathlib.Algebra.Group.Nat.Defs
import Torii.Metrics.Hierarchy

/-!
# The reports of one request

A request may send several reports, one from each metrics middleware it runs through, and the
workers process them in any order. A name of a listener is tracked from the moment its chain is
built until the metrics of the listener are removed (`tracked_run`).
-/

namespace Torii.Metrics

open Go Manager

structure Tracked (port : Int) (h : Manager) (name : String) : Prop where
  bound : ∃ p, h.connectionMetricsMap.lookup name = some p
  scope : Family port name ∨ name = globalMetricsConName

instance : Std.Refl Grown := ⟨Grown.refl⟩

instance : IsTrans Manager Grown := ⟨fun _ _ _ => Grown.trans⟩

variable {h : Manager} {name : String} {port : Int}

theorem Tracked.mono {h' : Manager} (ht : Tracked port h name)
    (hgrown : Grown h h') : Tracked port h' name := by
  obtain ⟨⟨p, hp⟩, hscope⟩ := ht
  exact ⟨⟨p, hgrown.old name p hp⟩, hscope⟩

theorem tracked_step (wf : WellFormed h)
    (ht : Tracked port h name) {op : Op} (hop : op ≠ .remove port) :
    Tracked port (machine.step h op).2 name := by
  cases op with
  | track port' host path =>
    obtain ⟨h', htrack, -, hgrown, -⟩ := track_spec wf port' host path
    rw [step_track htrack]
    exact ht.mono hgrown
  | remove port' =>
    obtain ⟨⟨p, hp⟩, hscope⟩ := ht
    obtain ⟨node, hnode, -⟩ := wf.node name p hp
    have hkept : name = globalMetricsConName ∨ node.serverId ≠ serverIdOf port' := by
      rcases hscope with hfam | hglobal
      · obtain ⟨owner, hserver, hfam'⟩ :=
          wf.server name p node ⟨hp, hnode⟩ (family_ne_global hfam)
        right
        intro heq
        rw [hserver, hfam'.port_eq hfam] at heq
        exact hop (by rw [serverIdOf_inj heq])
      · exact .inl hglobal
    exact ⟨⟨p, lookup_remove ⟨hp, hnode⟩ hkept⟩, hscope⟩
  | report metric =>
    obtain ⟨⟨p, hp⟩, hscope⟩ := ht
    exact ⟨⟨p, by rw [← hp]; exact congrArg _ (map_update h metric)⟩, hscope⟩

theorem tracked_run (wf : WellFormed h) {ops : List Op} (hops : ∀ op ∈ ops, op ≠ .remove port) :
    WellFormed (machine.run h ops) ∧
      ∀ name, Tracked port h name → Tracked port (machine.run h ops) name := by
  have hstep : ∀ s op, op ≠ .remove port →
      (WellFormed s ∧ ∀ name, Tracked port h name → Tracked port s name) →
      WellFormed (machine.step s op).2 ∧
        ∀ name, Tracked port h name → Tracked port (machine.step s op).2 name := by
    rintro s op hop ⟨hs, htracked⟩
    exact ⟨(wellFormed_step hs op).1, fun name ht => tracked_step hs (htracked name ht) hop⟩
  exact Machine.run_induction machine _ _ hstep hops ⟨wf, fun _ ht => ht⟩

def requestCountAt (h : Manager) (p : Nat) : Int64 :=
  (h.heap[p]?.map fun node => node.accumulatedMetrics.requestCount).getD 0

theorem requestCount_addRequestMetric (m : Metric) (metric : RequestMetric) :
    (m.addRequestMetric metric).requestCount = m.requestCount + 1 := by
  have hcounters := counters_addRequestMetric m metric
  simp only [Metric.counters, List.cons.injEq] at hcounters
  exact hcounters.1

theorem requestCountAt_update (wf : WellFormed h) (metric : RequestMetric) {p : Nat}
    (hp : h.connectionMetricsMap.lookup name = some p) :
    requestCountAt (h.updateConnectionMetrics metric) p =
      requestCountAt h p + if Reaches h name metric then 1 else 0 := by
  obtain ⟨node, hnode, -⟩ := wf.node name p hp
  rw [requestCountAt, requestCountAt, update_node wf metric hp, hnode]
  split
  · exact requestCount_addRequestMetric node.accumulatedMetrics metric
  · exact (Int64.add_zero _).symm

theorem requestCountAt_foldl (wf : WellFormed h) (reports : List RequestMetric) {p : Nat}
    (hp : h.connectionMetricsMap.lookup name = some p) :
    requestCountAt (reports.foldl updateConnectionMetrics h) p =
      requestCountAt h p + Int64.ofNat (reports.countP (Reaches h name)) := by
  induction reports generalizing h with
  | nil => exact (Int64.add_zero _).symm
  | cons metric reports ih =>
    have hmap := map_update h metric
    have hsame : ∀ m, Reaches (h.updateConnectionMetrics metric) name m ↔ Reaches h name m := by
      intro m
      rw [Reaches, Reaches, hmap]
    rw [List.foldl_cons, ih (wellFormed_update wf metric) (by rw [hmap, hp]),
      requestCountAt_update wf metric hp, List.countP_cons]
    simp only [hsame, decide_eq_true_eq, Int64.ofNat_add, Int64.add_assoc]
    congr 1
    split
    · exact Int64.add_comm _ _
    · simp

/-- However the workers order the reports, every node that a report reaches has its
request count increased by exactly one. -/
def CountedOnce (h : Manager) (reports : List RequestMetric) : Prop :=
  ∀ processed : List RequestMetric, processed.Perm reports → ∀ name p,
    h.connectionMetricsMap.lookup name = some p → (∃ m ∈ reports, Reaches h name m) →
      requestCountAt (processed.foldl updateConnectionMetrics h) p = requestCountAt h p + 1

theorem eq_one_of_ofNat {n : Nat} (hn : n < 2 ^ 64) (h : Int64.ofNat n = 1) : n = 1 := by
  have hbits : (BitVec.ofNat 64 n).toNat = (BitVec.ofNat 64 1).toNat :=
    congrArg (fun x : Int64 => x.toBitVec.toNat) h
  rw [BitVec.toNat_ofNat, BitVec.toNat_ofNat, Nat.mod_eq_of_lt hn] at hbits
  exact hbits

theorem countedOnce_iff (wf : WellFormed h) {reports : List RequestMetric}
    (hfit : reports.length < 2 ^ 64) :
    CountedOnce h reports ↔
      reports.countP (fun m => (h.connectionMetricsMap.lookup m.connectionName).isSome) ≤ 1 := by
  constructor
  · intro honce
    have hreach : ∀ m ∈ reports, decide (Reaches h globalMetricsConName m) = true ↔
        (h.connectionMetricsMap.lookup m.connectionName).isSome = true := by
      intro m _
      rw [decide_eq_true_eq]
      refine ⟨And.left, fun hlive => ⟨hlive, ?_⟩⟩
      obtain ⟨q, hq⟩ := Option.isSome_iff_exists.mp hlive
      exact wf.global_mem_lineage hq
    rw [← List.countP_congr hreach]
    by_cases hsome : ∃ m ∈ reports, Reaches h globalMetricsConName m
    · obtain ⟨p, hp⟩ := wf.global
      have hcount := honce reports (.refl _) _ p hp hsome
      rw [requestCountAt_foldl wf reports hp, Int64.add_right_inj] at hcount
      have hle := List.countP_le_length
        (p := fun m => decide (Reaches h globalMetricsConName m)) (l := reports)
      exact Nat.le_of_eq (eq_one_of_ofNat (Nat.lt_of_le_of_lt hle hfit) hcount)
    · have hzero : reports.countP (Reaches h globalMetricsConName) = 0 := by
        rw [List.countP_eq_zero]
        intro m hm
        rw [decide_eq_true_eq]
        exact fun hm' => hsome ⟨m, hm, hm'⟩
      omega
  · intro hle processed hperm name p hp hreach
    have hpos : 0 < reports.countP (Reaches h name) := by
      rw [List.countP_pos_iff]
      simpa using hreach
    have hmono : reports.countP (Reaches h name) ≤
        reports.countP (fun m => (h.connectionMetricsMap.lookup m.connectionName).isSome) := by
      apply List.countP_mono_left
      intro m _ hm
      exact (of_decide_eq_true hm).1
    have hone : reports.countP (Reaches h name) = 1 := by omega
    rw [requestCountAt_foldl wf processed hp, hperm.countP_eq, hone]
    rfl

end Torii.Metrics
