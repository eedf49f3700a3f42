import Mathlib.Data.List.Chain
import Torii.Lib.ReflectedWalk
import Torii.Middleware.CircuitBreaker

/-!
# Opening and closing of the circuit

Until the first rejection the counter is a walk that is reflected at zero. The documentation speaks
of consecutive failures: these are enough to open the circuit, but not needed. After the recovery
time the counter is lowered by the half-open threshold.
-/

namespace Torii.Middleware

open Go ReflectedWalk

variable {opts : CircuitBreakerOpts}

/-! ## Opening -/

/-- The outcomes of requests; `true` is a failure. -/
def outcomes (reqs : List Request) : List Bool := reqs.map fun r => r.reply.isFailure

/-- Every request comes less than the recovery time after the end of the one before. -/
def CloseTogether (opts : CircuitBreakerOpts) (reqs : List Request) : Prop :=
  reqs.IsChain fun r next => (next.arrive : Int) - r.finish < opts.recoveryDuration

/-- The last `n` outcomes are failures. -/
def LastFailed (n : Nat) (w : List Bool) : Prop := List.replicate n true <:+ w

instance (opts : CircuitBreakerOpts) (reqs : List Request) : Decidable (CloseTogether opts reqs) :=
  inferInstanceAs (Decidable (List.IsChain _ _))

instance (n : Nat) (w : List Bool) : Decidable (LastFailed n w) :=
  inferInstanceAs (Decidable (_ <:+ _))

/-- What is known of a monitor as long as no request was rejected. -/
structure Follows (opts : CircuitBreakerOpts) (reqs : List Request) (m : TargetMonitor) :
    Prop where
  count : m.currentFailureCount.toInt = walk (outcomes reqs)
  last : opts.failureThreshold ≤ m.currentFailureCount →
    ∃ r, reqs.getLast? = some r ∧ m.lastFailureNano = Time.unixNano r.finish

theorem outcomes_concat (reqs : List Request) (r : Request) :
    outcomes (reqs ++ [r]) = outcomes reqs ++ [r.reply.isFailure] := by
  simp [outcomes]

variable {m : TargetMonitor} {reqs : List Request} {r : Request}

theorem Follows.rejected_iff {next : Request}
    (h : Follows opts reqs m) (hclose : CloseTogether opts (reqs ++ [next])) :
    ((breaker opts).step m next).1 = .rejected ↔
      opts.failureThreshold.toInt ≤ walk (outcomes reqs) := by
  rw [breaker_rejected_iff, ← h.count, ← Int32.le_iff_toInt_le, and_iff_left_iff_imp]
  intro hopen
  obtain ⟨r, hlast, hnano⟩ := h.last hopen
  rw [hnano, Time.sinceUnixNano_unixNano]
  exact (List.isChain_append.mp hclose).2.2 r hlast next rfl

theorem Follows.step (h : Follows opts reqs m) (hclose : CloseTogether opts (reqs ++ [r]))
    (hforwarded : ((breaker opts).step m r).1 ≠ .rejected) :
    Follows opts (reqs ++ [r]) ((breaker opts).step m r).2 := by
  have hlow : ¬ opts.failureThreshold ≤ m.currentFailureCount := by
    rwa [Ne, h.rejected_iff hclose, ← h.count, ← Int32.le_iff_toInt_le] at hforwarded
  have hlt : m.currentFailureCount < opts.failureThreshold := by
    rw [Int32.lt_iff_toInt_lt]
    rw [Int32.le_iff_toInt_le] at hlow
    omega
  have hthrough : opts.letThrough r.arrive m = some m := by
    rw [CircuitBreakerOpts.letThrough, if_neg hlow]
  have hnonneg : 0 ≤ m.currentFailureCount.toInt := by
    rw [h.count]
    exact walk_nonneg _
  rw [breaker_of_some hthrough]
  cases hfailure : r.reply.isFailure with
  | true =>
    refine ⟨?_, fun _ => ⟨r, by simp, rfl⟩⟩
    rw [outcomes_concat, walk_concat, hfailure, toInt_record_failure hlt, h.count]
    rfl
  | false =>
    have hcount := toInt_record_success hnonneg r.finish
    refine ⟨?_, ?_⟩
    · rw [outcomes_concat, walk_concat, hfailure, hcount, h.count]
      rfl
    · intro hopen
      rw [Int32.le_iff_toInt_le, hcount] at hopen
      rw [Int32.lt_iff_toInt_lt] at hlt
      omega

theorem follows_run (hT : 1 ≤ opts.failureThreshold) (hclose : CloseTogether opts reqs)
    (hnone : ∀ entry ∈ (breaker opts).trace {} reqs, entry.2 ≠ .rejected) :
    Follows opts reqs ((breaker opts).run {} reqs) := by
  induction reqs using List.reverseRecOn with
  | nil =>
    refine ⟨rfl, fun hopen => ?_⟩
    exact absurd (Int32.le_trans hT hopen) (show ¬ (1 : Int32) ≤ 0 by decide)
  | append_singleton reqs r ih =>
    rw [Machine.trace_concat] at hnone
    rw [Machine.run_concat]
    apply (ih (List.isChain_append.mp hclose).1 _).step hclose
    · exact hnone (r, _) (by simp)
    · intro entry hentry
      exact hnone entry (List.mem_append_left _ hentry)

theorem excess_replicate (n : Nat) : excess (List.replicate n true) = n := by
  simp [excess, List.count_replicate]

/-- The next request is rejected exactly when the last outcomes were failures, if and only if
they were or the failures exceed the successes by less than the threshold in every last part
of the outcomes. -/
theorem opening_iff (opts : CircuitBreakerOpts) (hT : 1 ≤ opts.failureThreshold)
    (reqs : List Request) (next : Request) (hclose : CloseTogether opts (reqs ++ [next]))
    (hnone : ∀ entry ∈ (breaker opts).trace {} reqs, entry.2 ≠ .rejected) :
    (((breaker opts).step ((breaker opts).run {} reqs) next).1 = .rejected ↔
        LastFailed opts.failureThreshold.toInt.toNat (outcomes reqs)) ↔
      LastFailed opts.failureThreshold.toInt.toNat (outcomes reqs) ∨
        ∀ u, u <:+ outcomes reqs → excess u < opts.failureThreshold.toInt := by
  have hpos : 0 < opts.failureThreshold.toInt := by
    rw [Int32.le_iff_toInt_le, Int32.toInt_one] at hT
    omega
  have hfollows := follows_run hT (List.isChain_append.mp hclose).1 hnone
  rw [hfollows.rejected_iff hclose, le_walk_iff hpos]
  constructor
  · intro hiff
    by_cases hlast : LastFailed opts.failureThreshold.toInt.toNat (outcomes reqs)
    · exact .inl hlast
    · refine .inr fun u hu => ?_
      by_contra hexcess
      exact hlast (hiff.mp ⟨u, hu, by omega⟩)
  · intro hcases
    have hopens : LastFailed opts.failureThreshold.toInt.toNat (outcomes reqs) →
        ∃ u, u <:+ outcomes reqs ∧ opts.failureThreshold.toInt ≤ excess u := by
      intro hlast
      exact ⟨_, hlast, by rw [excess_replicate]; omega⟩
    refine ⟨?_, hopens⟩
    rintro ⟨u, hu, hexcess⟩
    rcases hcases with hlast | hbelow
    · exact hlast
    · have := hbelow u hu
      omega

/-- A request that is answered with a status in an instant. -/
def answered (now : Nat) (status : Int) : Request := ⟨now, { headers := [status] }, now⟩

def threeFailures : CircuitBreakerOpts := ⟨3, 60 * Time.second, 1⟩

def interruptedFailures : List Request :=
  [500, 500, 200, 500, 500].map (answered Time.unixEpoch)

/-- Three failures one after the other open the circuit. -/
theorem opening_iff_three_failures :
    ((breaker threeFailures).step ((breaker threeFailures).run {}
        ([500, 500, 500].map (answered Time.unixEpoch))) (answered Time.unixEpoch 200)).1 =
          .rejected ↔
      LastFailed threeFailures.failureThreshold.toInt.toNat
        (outcomes ([500, 500, 500].map (answered Time.unixEpoch))) :=
  (opening_iff threeFailures (by decide) _ _ (by decide +kernel) (by decide +kernel)).mpr
    (.inl (by decide))

/-- The circuit opens though a success came between the failures. -/
theorem opens_without_consecutive_failures :
    CloseTogether threeFailures (interruptedFailures ++ [answered Time.unixEpoch 200]) ∧
      (∀ entry ∈ (breaker threeFailures).trace {} interruptedFailures, entry.2 ≠ .rejected) ∧
      ((breaker threeFailures).step ((breaker threeFailures).run {} interruptedFailures)
        (answered Time.unixEpoch 200)).1 = .rejected ∧
      ¬ LastFailed threeFailures.failureThreshold.toInt.toNat (outcomes interruptedFailures) := by
  decide +kernel

/-! ## Half-open probing -/

def Chronological (reqs : List Request) : Prop :=
  (∀ r ∈ reqs, r.arrive ≤ r.finish) ∧ reqs.IsChain fun r next => r.finish ≤ next.arrive

instance (reqs : List Request) : Decidable (Chronological reqs) :=
  inferInstanceAs (Decidable (_ ∧ _))

/-- A probe fails: the circuit was open after `pre`, the recovery time is over when the next
request comes, fewer than the wanted number of requests succeed, then one is forwarded and
fails. -/
structure FailedProbe (opts : CircuitBreakerOpts) (pre probes : List Request)
    (failed : Request) : Prop where
  opened : opts.failureThreshold ≤ ((breaker opts).run {} pre).currentFailureCount
  elapsed : ∀ r ∈ (probes ++ [failed]).head?, opts.recoveryDuration ≤
    Time.sinceUnixNano r.arrive ((breaker opts).run {} pre).lastFailureNano
  few : ((((breaker opts).trace ((breaker opts).run {} pre) probes).countP
    fun entry => entry.2 = .forwarded false : Nat) : Int) < opts.halfOpenThreshold.toInt
  fails : ((breaker opts).step ((breaker opts).run {} (pre ++ probes)) failed).1 =
    .forwarded true

/-- After a failed probe the next request within the recovery time is rejected. -/
def HalfOpenProbing (opts : CircuitBreakerOpts) : Prop :=
  ∀ pre probes failed next, Chronological (pre ++ probes ++ [failed, next]) →
    FailedProbe opts pre probes failed →
    (next.arrive : Int) - failed.finish < opts.recoveryDuration →
    ((breaker opts).step ((breaker opts).run {} (pre ++ probes ++ [failed])) next).1 = .rejected

theorem step_of_failure (h : ((breaker opts).step m r).1 = .forwarded true) :
    ∃ m', opts.letThrough r.arrive m = some m' ∧
      ((breaker opts).step m r).2 = m'.record true r.finish := by
  cases hthrough : opts.letThrough r.arrive m with
  | none =>
    rw [breaker_of_none hthrough] at h
    exact absurd h (by simp)
  | some m' =>
    rw [breaker_of_some hthrough] at h ⊢
    refine ⟨m', rfl, ?_⟩
    rw [Verdict.forwarded.inj h]

theorem forwarded_of_ne_rejected (h : ((breaker opts).step m r).1 ≠ .rejected) :
    ((breaker opts).step m r).1 = .forwarded r.reply.isFailure := by
  cases hthrough : opts.letThrough r.arrive m with
  | none => exact absurd (congrArg Prod.fst (breaker_of_none hthrough)) h
  | some m' => rw [breaker_of_some hthrough]

theorem rejected_after_failure_iff {m' : TargetMonitor} {failed next : Request}
    (hstep : ((breaker opts).step m failed).2 = m'.record true failed.finish)
    (hlt : m'.currentFailureCount < opts.failureThreshold)
    (hnext : (next.arrive : Int) - failed.finish < opts.recoveryDuration) :
    ((breaker opts).step ((breaker opts).step m failed).2 next).1 = .rejected ↔
      opts.failureThreshold.toInt ≤ m'.currentFailureCount.toInt + 1 := by
  rw [hstep, breaker_rejected_iff, Int32.le_iff_toInt_le, toInt_record_failure hlt,
    and_iff_left_iff_imp]
  intro _
  simpa [TargetMonitor.record] using hnext

theorem letThrough_of_open {now : Nat} {m' : TargetMonitor}
    (hopen : opts.failureThreshold ≤ m.currentFailureCount)
    (hthrough : opts.letThrough now m = some m') :
    m'.currentFailureCount = opts.halfOpenCount m.currentFailureCount := by
  rw [CircuitBreakerOpts.letThrough, if_pos hopen] at hthrough
  split at hthrough
  · exact absurd hthrough (by simp)
  · rw [← Option.some.inj hthrough]

theorem open_of_no_success (hT : 1 ≤ opts.failureThreshold) (hH : opts.halfOpenThreshold = 1)
    (hopen : m.currentFailureCount = opts.failureThreshold) (probes : List Request)
    (hnone : ∀ entry ∈ (breaker opts).trace m probes, entry.2 ≠ .forwarded false) :
    ((breaker opts).run m probes).currentFailureCount = opts.failureThreshold := by
  rw [Int32.le_iff_toInt_le, Int32.toInt_one] at hT
  induction probes generalizing m with
  | nil => exact hopen
  | cons r probes ih =>
    simp only [Machine.trace, List.forall_mem_cons] at hnone
    rw [Machine.run_cons]
    refine ih ?_ hnone.2
    cases hthrough : opts.letThrough r.arrive m with
    | none =>
      rw [breaker_of_none hthrough]
      exact hopen
    | some m' =>
      rw [breaker_of_some hthrough] at hnone ⊢
      have hfailure : r.reply.isFailure = true := by simpa using hnone.1
      have hcount := congrArg Int32.toInt
        (letThrough_of_open (hopen ▸ Int32.le_refl _) hthrough)
      rw [hopen, toInt_halfOpenCount (hH ▸ Int32.le_refl _) (by omega), hH,
        Int32.toInt_one] at hcount
      have hlt : m'.currentFailureCount < opts.failureThreshold := by
        rw [Int32.lt_iff_toInt_lt]
        omega
      rw [hfailure, ← Int32.toInt_inj, toInt_record_failure hlt]
      omega

theorem run_failures (opts : CircuitBreakerOpts) (now : Nat) (n : Nat)
    (hn : (n : Int) ≤ opts.failureThreshold.toInt) :
    ((breaker opts).run {} (List.replicate n (answered now 500))).currentFailureCount.toInt = n ∧
      (0 < n → ((breaker opts).run {} (List.replicate n (answered now 500))).lastFailureNano =
        Time.unixNano now) := by
  induction n with
  | zero => exact ⟨rfl, fun h => absurd h (by omega)⟩
  | succ n ih =>
    obtain ⟨hcount, -⟩ := ih (by omega)
    rw [List.replicate_succ', Machine.run_concat]
    generalize (breaker opts).run {} (List.replicate n (answered now 500)) = m at hcount ⊢
    have hlt : m.currentFailureCount < opts.failureThreshold := by
      rw [Int32.lt_iff_toInt_lt]
      omega
    have hthrough : opts.letThrough now m = some m := by
      rw [CircuitBreakerOpts.letThrough, if_neg]
      rw [Int32.lt_iff_toInt_lt] at hlt
      rw [Int32.le_iff_toInt_le]
      omega
    rw [breaker_of_some (r := answered now 500) hthrough]
    refine ⟨?_, fun _ => rfl⟩
    rw [show (answered now 500).reply.isFailure = true from rfl, toInt_record_failure hlt, hcount]
    rfl

/-- As many failures as the threshold, all in one instant. -/
def openingFailures (opts : CircuitBreakerOpts) : List Request :=
  List.replicate opts.failureThreshold.toInt.toNat (answered Time.unixEpoch 500)

def lateFailure (opts : CircuitBreakerOpts) : Request :=
  answered (Time.unixEpoch + opts.recoveryDuration.toNat) 500

theorem chronological_openingFailures (opts : CircuitBreakerOpts) :
    Chronological (openingFailures opts ++ [] ++ [lateFailure opts, lateFailure opts]) := by
  have hinstant : ∀ r ∈ openingFailures opts, r = answered Time.unixEpoch 500 :=
    fun r hr => List.eq_of_mem_replicate hr
  refine ⟨?_, ?_⟩
  · intro r hr
    simp only [List.append_nil, List.mem_append, List.mem_pair] at hr
    rcases hr with hr | rfl | rfl
    · rw [hinstant r hr]
      exact Nat.le_refl _
    · exact Nat.le_refl _
    · exact Nat.le_refl _
  · rw [List.append_nil, List.isChain_append]
    refine ⟨List.isChain_replicate_of_rel _ (Nat.le_refl _), ?_, ?_⟩
    · exact List.isChain_pair.mpr (Nat.le_refl _)
    · intro r hr next hnext
      rw [hinstant r (List.mem_of_mem_getLast? hr), ← Option.some.inj hnext]
      exact Nat.le_add_right _ _

theorem not_halfOpenProbing (hT : 1 < opts.failureThreshold.toInt)
    (hH : 1 < opts.halfOpenThreshold.toInt) (hR : 0 < opts.recoveryDuration) :
    ¬ HalfOpenProbing opts := by
  intro hprobing
  obtain ⟨hcount, hlast⟩ := run_failures opts Time.unixEpoch
    opts.failureThreshold.toInt.toNat (by omega)
  specialize hprobing (openingFailures opts) [] (lateFailure opts) (lateFailure opts)
    (chronological_openingFailures opts)
  rw [List.append_nil, Machine.run_concat] at hprobing
  rw [← openingFailures] at hcount hlast
  have hopen : opts.failureThreshold ≤
      ((breaker opts).run {} (openingFailures opts)).currentFailureCount := by
    rw [Int32.le_iff_toInt_le]
    omega
  have helapsed : opts.recoveryDuration ≤ Time.sinceUnixNano (lateFailure opts).arrive
      ((breaker opts).run {} (openingFailures opts)).lastFailureNano := by
    rw [hlast (by omega), Time.sinceUnixNano_unixNano]
    simp only [lateFailure, answered]
    omega
  have hforwarded : ((breaker opts).step ((breaker opts).run {} (openingFailures opts))
      (lateFailure opts)).1 = .forwarded true := by
    apply forwarded_of_ne_rejected
    rw [Ne, breaker_rejected_iff, not_and, Int.not_lt]
    exact fun _ => helapsed
  obtain ⟨m', hthrough, hstep⟩ := step_of_failure hforwarded
  have hlowered := congrArg Int32.toInt (letThrough_of_open hopen hthrough)
  rw [toInt_halfOpenCount (by rw [Int32.le_iff_toInt_le, Int32.toInt_one]; omega) (by omega)]
    at hlowered
  have hlt : m'.currentFailureCount < opts.failureThreshold := by
    rw [Int32.lt_iff_toInt_lt]
    omega
  have hnow : ((lateFailure opts).arrive : Int) - (lateFailure opts).finish <
      opts.recoveryDuration := by
    simpa [lateFailure, answered] using hR
  rw [rejected_after_failure_iff hstep hlt hnow] at hprobing
  have hreopened := hprobing ⟨hopen, ?_, ?_, by rwa [List.append_nil]⟩ hnow
  · omega
  · intro r hr
    rwa [← Option.some.inj hr]
  · simp only [Machine.trace, List.countP_nil]
    omega

/-- A failed probe closes the door again exactly when one of the thresholds is one. -/
theorem half_open_probing_iff (opts : CircuitBreakerOpts) (hT : 1 ≤ opts.failureThreshold)
    (hH : 1 ≤ opts.halfOpenThreshold) (hR : 0 < opts.recoveryDuration) :
    HalfOpenProbing opts ↔ opts.failureThreshold = 1 ∨ opts.halfOpenThreshold = 1 := by
  constructor
  · intro hprobing
    by_contra hne
    rw [not_or, ← Int32.toInt_inj, ← Int32.toInt_inj, Int32.toInt_one] at hne
    rw [Int32.le_iff_toInt_le, Int32.toInt_one] at hT hH
    exact not_halfOpenProbing (by omega) (by omega) hR hprobing
  · intro hone pre probes failed next _ hprobe hnext
    have hbounded := bounded_run hT hH (pre ++ probes)
    obtain ⟨m', hthrough, hstep⟩ := step_of_failure hprobe.fails
    obtain ⟨hnonneg, hlt⟩ := hbounded.letThrough hT hH hthrough
    rw [Machine.run_concat, rejected_after_failure_iff hstep hlt hnext]
    rcases hone with hT1 | hH1
    · rw [hT1, Int32.toInt_one]
      omega
    · have hfull : ((breaker opts).run {} pre).currentFailureCount = opts.failureThreshold :=
        Int32.le_antisymm (bounded_run hT hH pre).le hprobe.opened
      have hnone : ∀ entry ∈ (breaker opts).trace ((breaker opts).run {} pre) probes,
          entry.2 ≠ .forwarded false := by
        have hfew := hprobe.few
        rw [hH1, Int32.toInt_one] at hfew
        intro entry hentry heq
        have hpos : 0 < ((breaker opts).trace ((breaker opts).run {} pre) probes).countP
            fun entry => entry.2 = .forwarded false :=
          List.countP_pos_iff.mpr ⟨entry, hentry, decide_eq_true heq⟩
        omega
      have hopen := open_of_no_success hT hH1 hfull probes hnone
      rw [← Machine.run_append] at hopen
      have hcount := congrArg Int32.toInt (letThrough_of_open (hopen ▸ Int32.le_refl _) hthrough)
      rw [Int32.le_iff_toInt_le, Int32.toInt_one] at hT
      rw [hopen, toInt_halfOpenCount hH (by omega), hH1, Int32.toInt_one] at hcount
      omega

/-- One failing probe is enough with a half-open threshold of one. -/
theorem half_open_probing_one : HalfOpenProbing threeFailures :=
  (half_open_probing_iff threeFailures (by decide) (by decide) (by decide)).mpr
    (.inr (by decide))

def threeProbes : CircuitBreakerOpts := ⟨2, 60 * Time.second, 3⟩

def twoFailures : Config where
  type := "CircuitBreaker"
  options := some (AList.insert "failure-threshold" (.int 2)
    (AList.insert "recovery-time" (.string "60s") ∅))

/-- With the default number of probes, the circuit opens at the start, the probe after a minute
fails, and still the next request in the same instant is forwarded. -/
theorem failed_probe_keeps_circuit_closed :
    let pre := List.replicate 2 (answered Time.unixEpoch 500)
    let failed := answered (Time.unixEpoch + 60 * Time.second) 500
    let next := answered (Time.unixEpoch + 60 * Time.second) 200
    parseCircuitBreakerConfig twoFailures = .ok threeProbes ∧
      Chronological (pre ++ [] ++ [failed, next]) ∧ FailedProbe threeProbes pre [] failed ∧
      (next.arrive : Int) - failed.finish < threeProbes.recoveryDuration ∧
      ((breaker threeProbes).step ((breaker threeProbes).run {} (pre ++ [] ++ [failed])) next).1 =
        .forwarded false := by
  refine ⟨by decide +kernel, by decide +kernel, ⟨?_, ?_, ?_, ?_⟩, ?_, ?_⟩ <;> decide +kernel

end Torii.Middleware
