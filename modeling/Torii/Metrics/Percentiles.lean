import Torii.Lib.Ring
import Torii.Metrics.Metric

/-!
# Percentiles of recent latencies

`Percentile` of `metrics/latency.go` and `Copy` of `metrics/metric.go`. A percentile is asked for
in whole numbers and the index is computed exactly; `none` is an index out of range.
-/

namespace Torii.Metrics

/-- `Percentile`; of `sort.Slice` only the order of its result counts. -/
def LatencyRing.percentile (r : LatencyRing) (p : Nat) : Option Int64 :=
  if r.count = 0 then some 0
  else
    let copied := if r.count < r.cap then r.data.take r.count else r.data
    let sorted := copied.mergeSort fun a b => a ≤ b
    let idx := (r.count - 1) * p / 100
    let idx := if idx ≥ r.count then r.count - 1 else idx
    sorted[idx]?

/-- What `Copy` returns: a metric without a ring, and the percentiles, which nothing else sets. -/
structure MetricCopy extends Metric where
  p50Ms : Int64 := 0
  p95Ms : Int64 := 0
  p99Ms : Int64 := 0

def Metric.copy (m : Metric) : Option MetricCopy :=
  let cp : Metric := { m with latencies := none }
  match m.latencies with
  | none => some { toMetric := cp }
  | some latencies => do
    let p50Ms ← latencies.percentile 50
    let p95Ms ← latencies.percentile 95
    let p99Ms ← latencies.percentile 99
    return { toMetric := cp, p50Ms, p95Ms, p99Ms }

def Windowed (m : Metric) (added : List Int64) : Prop :=
  ∃ r, m.latencies = some r ∧ r.cap = latencyBufferSize ∧ r.count = min added.length r.cap ∧
    Ring.Holds r.cap 0 r.data r.pos added

theorem windowed_new (connectionName : String) : Windowed (.new connectionName) [] :=
  ⟨_, rfl, rfl, rfl, .empty latencyBufferSize 0⟩

variable (m : Metric) (r : RequestMetric)

theorem latencies_addStatusClass : (m.addStatusClass r).latencies = m.latencies := by
  unfold Metric.addStatusClass
  repeat' split
  all_goals rfl

theorem latencies_addBlocked : (m.addBlocked r).latencies = m.latencies := by
  unfold Metric.addBlocked
  grind

theorem latencies_addRequestMetric :
    (m.addRequestMetric r).latencies = m.latencies.map (·.add r.latencyMs) := by
  simp [Metric.addRequestMetric, latencies_addBlocked, apply_ite Metric.latencies,
    latencies_addStatusClass]

variable {added sorted : List Int64}

/-- Step lemma: one more report. -/
theorem Windowed.concat {m : Metric} (h : Windowed m added) (report : RequestMetric) :
    Windowed (m.addRequestMetric report) (added ++ [report.latencyMs]) := by
  obtain ⟨r, hr, hcap, hcount, hholds⟩ := h
  refine ⟨r.add report.latencyMs, ?_, hcap, ?_, hholds.add (hcap ▸ by decide) report.latencyMs⟩
  · rw [latencies_addRequestMetric, hr]
    rfl
  · simp only [LatencyRing.add, hcount, List.length_append, List.length_singleton]
    split <;> omega

/-- Run lemma. -/
theorem Windowed.run {m : Metric} (h : Windowed m added) (reports : List RequestMetric) :
    Windowed (reports.foldl Metric.addRequestMetric m) (added ++ reports.map (·.latencyMs)) := by
  induction reports generalizing m added with
  | nil => simpa using h
  | cons report reports ih => simpa using ih (h.concat report)

/-- A list in order has one value. -/
theorem eq_mergeSort {xs : List Int64} (hperm : sorted.Perm xs) (hsorted : sorted.Pairwise (· ≤ ·))
    :
    xs.mergeSort (fun a b => a ≤ b) = sorted := by
  have hmerge : (xs.mergeSort fun a b => a ≤ b).Pairwise (· ≤ ·) := by
    have h := @List.pairwise_mergeSort _ (fun a b : Int64 => a ≤ b)
      (fun a b c hab hbc => decide_eq_true (Int64.le_trans (of_decide_eq_true hab)
        (of_decide_eq_true hbc)))
      (fun a b => by simpa using Int64.le_total a b) xs
    simpa using h
  exact ((List.mergeSort_perm xs _).trans hperm.symm).eq_of_pairwise
    (fun a b _ _ hab hba => Int64.le_antisymm hab hba) hmerge hsorted

theorem percentile_eq {r : LatencyRing} {p : Nat} (hp : p < 100)
    (hholds : Ring.Holds r.cap 0 r.data r.pos added) (hcount : r.count = min added.length r.cap)
    (hne : 0 < r.count) (hperm : sorted.Perm (Ring.window r.cap added))
    (hsorted : sorted.Pairwise (· ≤ ·)) :
    ∃ value, r.percentile p = some value ∧ sorted[(r.count - 1) * p / 100]? = some value := by
  have hcopied : (if r.count < r.cap then r.data.take r.count else r.data) =
      r.data.take r.count := by
    split
    · rfl
    · rw [List.take_of_length_le]
      rw [hholds.length_slots]
      omega
  have hidx : (r.count - 1) * p / 100 < r.count := by
    rw [Nat.div_lt_iff_lt_mul (by decide)]
    calc (r.count - 1) * p ≤ r.count * p := Nat.mul_le_mul_right p (by omega)
      _ < r.count * 100 := Nat.mul_lt_mul_of_pos_left hp hne
  have hlength : sorted.length = r.count := by
    rw [hperm.length_eq, Ring.length_window, hcount]
  have hvalue := List.getElem?_eq_getElem (hidx.trans_eq hlength.symm)
  refine ⟨_, ?_, hvalue⟩
  simp [LatencyRing.percentile, hcopied, if_neg hne.ne', if_neg hidx.not_ge,
    eq_mergeSort (hperm.trans (hcount ▸ hholds.perm.symm)) hsorted]

theorem le_of_index_le {i j : Nat} {a b : Int64} (hsorted : sorted.Pairwise (· ≤ ·)) (hij : i ≤ j)
    (ha : sorted[i]? = some a) (hb : sorted[j]? = some b) : a ≤ b := by
  obtain rfl | hlt := hij.eq_or_lt
  · exact Option.some.inj (ha.symm.trans hb) ▸ Int64.le_refl a
  · obtain ⟨hi, rfl⟩ := List.getElem?_eq_some_iff.mp ha
    obtain ⟨hj, rfl⟩ := List.getElem?_eq_some_iff.mp hb
    exact List.pairwise_iff_getElem.mp hsorted i j hi hj hlt

/-- After any reports the percentiles of a copy are in order, and each is the entry of the sorted
last thousand latencies at the index that its percentage of them gives. -/
theorem copy_percentiles (connectionName : String) {reports : List RequestMetric}
    (hreports : 1 ≤ reports.length) {sorted : List Int64}
    (hperm : sorted.Perm ((reports.map (·.latencyMs)).drop (reports.length - 1000)))
    (hsorted : sorted.Pairwise (· ≤ ·)) :
    ∃ cp, (reports.foldl Metric.addRequestMetric (.new connectionName)).copy = some cp ∧
      cp.p50Ms ≤ cp.p95Ms ∧ cp.p95Ms ≤ cp.p99Ms ∧
      sorted[(min reports.length 1000 - 1) * 50 / 100]? = some cp.p50Ms ∧
      sorted[(min reports.length 1000 - 1) * 95 / 100]? = some cp.p95Ms ∧
      sorted[(min reports.length 1000 - 1) * 99 / 100]? = some cp.p99Ms := by
  obtain ⟨r, hr, hcap, hmin, hholds⟩ := (windowed_new connectionName).run reports
  have hcount : r.count = min reports.length 1000 := by
    rw [hmin, hcap, List.nil_append, List.length_map, latencyBufferSize]
  have hwindow : sorted.Perm (Ring.window r.cap ([] ++ reports.map (·.latencyMs))) := by
    rwa [hcap, List.nil_append, Ring.window, List.length_map, latencyBufferSize]
  have hread : ∀ p < 100, ∃ value, r.percentile p = some value ∧
      sorted[(min reports.length 1000 - 1) * p / 100]? = some value := by
    intro p hp
    rw [← hcount]
    exact percentile_eq hp hholds hmin (by omega) hwindow hsorted
  obtain ⟨p50Ms, hp50, h50⟩ := hread 50 (by decide)
  obtain ⟨p95Ms, hp95, h95⟩ := hread 95 (by decide)
  obtain ⟨p99Ms, hp99, h99⟩ := hread 99 (by decide)
  generalize reports.foldl Metric.addRequestMetric (.new connectionName) = m at hr ⊢
  refine ⟨{ toMetric := { m with latencies := none }, p50Ms, p95Ms, p99Ms }, ?_,
    le_of_index_le hsorted (by omega) h50 h95, le_of_index_le hsorted (by omega) h95 h99,
    h50, h95, h99⟩
  simp only [Metric.copy, hr, hp50, hp95, hp99, Option.bind_eq_bind, Option.bind_some]
  rfl

theorem copy_percentiles_three : ∃ cp,
    (([5, 1, 3].map fun latencyMs => RequestMetric.mk "http" latencyMs false 0 0 true false false
      false false "").foldl Metric.addRequestMetric (.new "http")).copy = some cp ∧
      cp.p50Ms = 3 ∧ cp.p99Ms = 3 := by
  obtain ⟨cp, hcp, -, -, h50, -, h99⟩ := @copy_percentiles "http"
    ([5, 1, 3].map fun latencyMs => .mk "http" latencyMs false 0 0 true false false false false "")
    (by decide) [1, 3, 5] (by decide) (by decide)
  exact ⟨cp, hcp, (Option.some.inj h50).symm, (Option.some.inj h99).symm⟩

end Torii.Metrics
