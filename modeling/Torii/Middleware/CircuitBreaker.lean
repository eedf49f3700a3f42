import Torii.Go.Time
import Torii.Lib.Machine
import Torii.Middleware.Options

/-!
# The circuit breaker

`middleware/circuit_breaker_middleware.go`, with requests that come one after the other, so that
every `CompareAndSwap` succeeds. A request carries the instants of its arrival and of the end of the
next handler, and how that handler answered.
-/

namespace Torii.Middleware

open Go Torii.Util

/-- `circuitBreakerOpts`; a duration is in nanoseconds. -/
structure CircuitBreakerOpts where
  failureThreshold : Int32
  recoveryDuration : Int
  halfOpenThreshold : Int32
deriving DecidableEq

inductive BreakerError where
  | nilOptions
  | option (cause : OptionError)
  | recoveryTime (cause : TimeError)
  | halfOpenThreshold (got : Int)
deriving DecidableEq

def BreakerError.message (itoa : Int → String) (numError : String → String) :
    BreakerError → String
  | .nilOptions => "options cannot be nil"
  | .option cause => cause.message
  | .recoveryTime cause => cause.message numError
  | .halfOpenThreshold got => "'half-open-success-threshold' must be >= 1, got " ++ itoa got

/-- `parseCircuitBreakerConfig`. The thresholds are converted to 32 bits after the check. -/
def parseCircuitBreakerConfig (conf : Config) : Except BreakerError CircuitBreakerOpts :=
  match conf.options with
  | none => .error .nilOptions
  | some options => do
      let failureThreshold ←
        (parseIntOptRequired options "failure-threshold").mapError .option
      let recTimeStr ← (parseStringRequired options "recovery-time").mapError .option
      let recoveryTime ← (parseTimeString recTimeStr).mapError .recoveryTime
      let halfOpenThreshold := parseIntOpt options "half-open-success-threshold" 3
      if halfOpenThreshold < 1 then .error (.halfOpenThreshold halfOpenThreshold)
      else
        .ok
          { failureThreshold := .ofInt failureThreshold
            recoveryDuration := recoveryTime
            halfOpenThreshold := .ofInt halfOpenThreshold }

structure TargetMonitor where
  currentFailureCount : Int32 := 0
  lastFailureNano : Int := 0

/-- How the next handler answered: the headers that it wrote, and whether the deadline of the
request had passed. -/
structure Reply where
  headers : List Int := []
  deadlineExceeded : Bool := false

/-- `statusCode` of `circuitBreakerResponseWriter`: the last header counts. -/
def Reply.statusCode (reply : Reply) : Int := reply.headers.getLastD 200

def Reply.isFailure (reply : Reply) : Bool := 500 ≤ reply.statusCode || reply.deadlineExceeded

structure Request where
  arrive : Nat
  reply : Reply
  finish : Nat

/-- What happens to a request: status 503, or the next handler serves it. -/
inductive Verdict where
  | rejected
  | forwarded (isFailure : Bool)
deriving DecidableEq

namespace CircuitBreakerOpts

variable (opts : CircuitBreakerOpts)

def halfOpenCount (count : Int32) : Int32 :=
  let newCount := count - opts.halfOpenThreshold
  if newCount < 0 then 0 else newCount

/-- The first half of the handler: `none` is the rejection. -/
def letThrough (now : Nat) (m : TargetMonitor) : Option TargetMonitor :=
  if opts.failureThreshold ≤ m.currentFailureCount then
    if Time.sinceUnixNano now m.lastFailureNano < opts.recoveryDuration then none
    else some { m with currentFailureCount := opts.halfOpenCount m.currentFailureCount }
  else some m

end CircuitBreakerOpts

def TargetMonitor.record (m : TargetMonitor) (isFailure : Bool) (now : Nat) : TargetMonitor :=
  if isFailure then
    { currentFailureCount := m.currentFailureCount + 1, lastFailureNano := Time.unixNano now }
  else if m.currentFailureCount ≤ 0 then m
  else { m with currentFailureCount := m.currentFailureCount - 1 }

/-- `CircuitBreakerMiddleware` on requests that come one after the other. -/
def breaker (opts : CircuitBreakerOpts) : Machine TargetMonitor Request Verdict where
  step m r :=
    match opts.letThrough r.arrive m with
    | none => (.rejected, m)
    | some m => (.forwarded r.reply.isFailure, m.record r.reply.isFailure r.finish)

/-! ## The counter -/

theorem toInt_sub_of_nonneg {a b : Int32} (ha : 0 ≤ a.toInt) (hb : 0 ≤ b.toInt) :
    (a - b).toInt = a.toInt - b.toInt := by
  have halt := a.toInt_lt
  have hblt := b.toInt_lt
  rw [Int32.toInt_sub, Int.bmod_eq_of_le]
  · omega
  · omega

theorem toInt_add_one {a b : Int32} (h : a < b) : (a + 1).toInt = a.toInt + 1 := by
  have hale := a.le_toInt
  have hblt := b.toInt_lt
  rw [Int32.lt_iff_toInt_lt] at h
  rw [Int32.toInt_add, Int32.toInt_one, Int.bmod_eq_of_le]
  · omega
  · omega

variable {opts : CircuitBreakerOpts} {m : TargetMonitor}

structure Bounded (opts : CircuitBreakerOpts) (m : TargetMonitor) : Prop where
  nonneg : 0 ≤ m.currentFailureCount.toInt
  le : m.currentFailureCount ≤ opts.failureThreshold

theorem toInt_halfOpenCount (hH : 1 ≤ opts.halfOpenThreshold) {count : Int32}
    (hcount : 0 ≤ count.toInt) :
    (opts.halfOpenCount count).toInt = max (count.toInt - opts.halfOpenThreshold.toInt) 0 := by
  rw [Int32.le_iff_toInt_le, Int32.toInt_one] at hH
  have hsub := toInt_sub_of_nonneg hcount (show 0 ≤ opts.halfOpenThreshold.toInt by omega)
  simp only [CircuitBreakerOpts.halfOpenCount, Int32.lt_iff_toInt_lt, Int32.toInt_zero, hsub]
  split
  · rw [Int32.toInt_zero]
    omega
  · rw [hsub]
    omega

variable {m' : TargetMonitor} {r : Request}

/-- A request that is let in leaves room for one failure. -/
theorem Bounded.letThrough (hT : 1 ≤ opts.failureThreshold) (hH : 1 ≤ opts.halfOpenThreshold)
    (h : Bounded opts m) {now : Nat} (hthrough : opts.letThrough now m = some m') :
    0 ≤ m'.currentFailureCount.toInt ∧ m'.currentFailureCount < opts.failureThreshold := by
  rw [CircuitBreakerOpts.letThrough] at hthrough
  have hle := Int32.le_iff_toInt_le.mp h.le
  split at hthrough
  · split at hthrough
    · exact absurd hthrough (by simp)
    · rw [← Option.some.inj hthrough, Int32.lt_iff_toInt_lt, toInt_halfOpenCount hH h.nonneg]
      rw [Int32.le_iff_toInt_le, Int32.toInt_one] at hT hH
      omega
  · next hopen =>
    rw [← Option.some.inj hthrough]
    refine ⟨h.nonneg, ?_⟩
    rw [Int32.lt_iff_toInt_lt]
    rw [Int32.le_iff_toInt_le] at hopen
    omega

theorem toInt_record_failure (h : m.currentFailureCount < opts.failureThreshold) (now : Nat) :
    (m.record true now).currentFailureCount.toInt = m.currentFailureCount.toInt + 1 :=
  toInt_add_one h

theorem toInt_record_success (h : 0 ≤ m.currentFailureCount.toInt) (now : Nat) :
    (m.record false now).currentFailureCount.toInt = max (m.currentFailureCount.toInt - 1) 0 := by
  simp only [TargetMonitor.record, Bool.false_eq_true, if_false, Int32.le_iff_toInt_le,
    Int32.toInt_zero]
  split
  · omega
  · rw [toInt_sub_of_nonneg h (by decide), Int32.toInt_one]
    omega

theorem breaker_of_none (h : opts.letThrough r.arrive m = none) :
    (breaker opts).step m r = (.rejected, m) := by
  simp only [breaker, h]

theorem breaker_of_some (h : opts.letThrough r.arrive m = some m') :
    (breaker opts).step m r =
      (.forwarded r.reply.isFailure, m'.record r.reply.isFailure r.finish) := by
  simp only [breaker, h]

theorem breaker_rejected_iff :
    ((breaker opts).step m r).1 = .rejected ↔
      opts.failureThreshold ≤ m.currentFailureCount ∧
        Time.sinceUnixNano r.arrive m.lastFailureNano < opts.recoveryDuration := by
  have hnone : opts.letThrough r.arrive m = none ↔ opts.failureThreshold ≤ m.currentFailureCount ∧
      Time.sinceUnixNano r.arrive m.lastFailureNano < opts.recoveryDuration := by
    rw [CircuitBreakerOpts.letThrough]
    split <;> simp_all
  rw [← hnone]
  cases hthrough : opts.letThrough r.arrive m with
  | none => simp [breaker_of_none hthrough]
  | some m' => simp [breaker_of_some hthrough]

/-- Step lemma: the counter stays in its range. -/
theorem Bounded.step (hT : 1 ≤ opts.failureThreshold) (hH : 1 ≤ opts.halfOpenThreshold)
    (h : Bounded opts m) (r : Request) : Bounded opts ((breaker opts).step m r).2 := by
  cases hthrough : opts.letThrough r.arrive m with
  | none =>
    rw [breaker_of_none hthrough]
    exact h
  | some m' =>
    obtain ⟨hnonneg, hlt⟩ := h.letThrough hT hH hthrough
    have hlt' := Int32.lt_iff_toInt_lt.mp hlt
    rw [breaker_of_some hthrough]
    cases r.reply.isFailure with
    | true =>
      have hcount := toInt_record_failure hlt r.finish
      refine ⟨?_, Int32.le_iff_toInt_le.mpr ?_⟩ <;> rw [hcount] <;> omega
    | false =>
      have hcount := toInt_record_success hnonneg r.finish
      refine ⟨?_, Int32.le_iff_toInt_le.mpr ?_⟩ <;> rw [hcount] <;> omega

theorem bounded_run (hT : 1 ≤ opts.failureThreshold) (hH : 1 ≤ opts.halfOpenThreshold)
    (reqs : List Request) : Bounded opts ((breaker opts).run {} reqs) := by
  apply (breaker opts).run_invariant (Bounded opts) (fun _ r h => h.step hT hH r)
  refine ⟨by decide, ?_⟩
  rw [Int32.le_iff_toInt_le] at hT ⊢
  exact Int.le_trans (by decide) hT

end Torii.Middleware
