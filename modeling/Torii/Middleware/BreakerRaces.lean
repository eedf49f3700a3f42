import Torii.Lib.Threads
import Torii.Middleware.CircuitBreaker

/-!
# Concurrent requests at the circuit breaker

Every atomic operation of the handler, and every reading of the clock, is a step of its own. The two
atomics are written one after the other, and a request that is still with the backend may lower the
counter later.
-/

namespace Torii.Middleware

open Go Time

structure Shared where
  now : Nat
  monitor : TargetMonitor

/-- Where a request is in the handler, with what it has read so far. -/
inductive Phase where
  | arriving
  | loaded (count : Int32)
  | timing (count : Int32) (lastFail : Int)
  | recovering (count : Int32)
  | rejected
  | forwarded
  | failing
  | stamping
  | storing (nano : Int)
  | succeeding
  | swapping (cur : Int32)
  | finished
deriving DecidableEq

def Phase.wasForwarded : Phase → Bool
  | .arriving | .loaded _ | .timing .. | .recovering _ | .rejected => false
  | .forwarded | .failing | .stamping | .storing _ | .succeeding | .swapping _ | .finished => true

/-- A failure is counted, and its time not yet stored. -/
def Phase.recording : Phase → Bool
  | .stamping | .storing _ => true
  | _ => false

namespace Shared

def count (s : Shared) : Int32 := s.monitor.currentFailureCount

def lastNano (s : Shared) : Int := s.monitor.lastFailureNano

def setCount (s : Shared) (count : Int32) : Shared :=
  { s with monitor := { s.monitor with currentFailureCount := count } }

def setLastNano (s : Shared) (nano : Int) : Shared :=
  { s with monitor := { s.monitor with lastFailureNano := nano } }

def compareAndSwap (s : Shared) (old new : Int32) : Shared :=
  if s.count = old then s.setCount new else s

end Shared

/-- One atomic operation of the handler. The reply is that of the next handler. -/
def handlerStep (opts : CircuitBreakerOpts) (s : Shared) (reply : Reply) : Phase → Shared × Phase
  | .arriving => (s, if opts.failureThreshold ≤ s.count then .loaded s.count else .forwarded)
  | .loaded count => (s, .timing count s.lastNano)
  | .timing count lastFail =>
    (s, if Time.sinceUnixNano s.now lastFail < opts.recoveryDuration then .rejected
        else .recovering count)
  | .recovering count => (s.compareAndSwap count (opts.halfOpenCount count), .forwarded)
  | .forwarded => (s, if reply.isFailure then .failing else .succeeding)
  | .failing => (s.setCount (s.count + 1), .stamping)
  | .stamping => (s, .storing (Time.unixNano s.now))
  | .storing nano => (s.setLastNano nano, .finished)
  | .succeeding => (s, if s.count ≤ 0 then .finished else .swapping s.count)
  | .swapping cur =>
    (s.compareAndSwap cur (cur - 1), if s.count = cur then .finished else .succeeding)
  | .rejected => (s, .rejected)
  | .finished => (s, .finished)

/-- The handler for any number of requests; the event is the passing of time. -/
def handler (opts : CircuitBreakerOpts) : Threads Shared Phase Nat Reply Unit where
  event s d := { s with now := s.now + d }
  step s phase reply := ((), handlerStep opts s reply phase)

abbrev Requests := Threads.Pool Shared Phase

abbrev BreakerAction := Threads.Action Nat Reply

/-- A fresh monitor, and no request has done anything. -/
def noRequests (now : Nat) : Requests := ⟨⟨now, {}⟩, fun _ => .arriving⟩

/-! ## A request that runs alone -/

/-- One state leads to another by the passing of time and steps of one request. -/
def Alone (opts : CircuitBreakerOpts) (i : Nat) (s s' : Requests) : Prop :=
  ∃ ops, (∀ op ∈ ops, (∃ d, op = .event d) ∨ ∃ reply, op = .step i reply) ∧
    (handler opts).machine.run s ops = s'

section

variable {opts : CircuitBreakerOpts} {i : Nat} {locals : Nat → Phase}

theorem Alone.trans {s s' s'' : Requests} (h : Alone opts i s s') (h' : Alone opts i s' s'') :
    Alone opts i s s'' := by
  obtain ⟨ops, hops, rfl⟩ := h
  obtain ⟨ops', hops', rfl⟩ := h'
  refine ⟨ops ++ ops', ?_, Machine.run_append ..⟩
  intro op hop
  exact (List.mem_append.mp hop).elim (hops op) (hops' op)

theorem Alone.step (s : Shared) (phase : Phase) (reply : Reply) {s' : Shared} {phase' : Phase}
    (h : handlerStep opts s reply phase = (s', phase')) :
    Alone opts i ⟨s, Function.update locals i phase⟩ ⟨s', Function.update locals i phase'⟩ := by
  refine ⟨[.step i reply], by simp, ?_⟩
  simp [Machine.run, Threads.machine, handler, h]

variable {now : Nat} {m : TargetMonitor}

theorem Alone.wait (m : TargetMonitor) (locals : Nat → Phase) {later : Nat} (h : now ≤ later) :
    Alone opts i ⟨⟨now, m⟩, locals⟩ ⟨⟨later, m⟩, locals⟩ := by
  refine ⟨[.event (later - now)], by simp, ?_⟩
  simp [Machine.run, handler, Nat.add_sub_cancel' h]

theorem alone_reject (h : opts.letThrough now m = none) :
    Alone opts i ⟨⟨now, m⟩, Function.update locals i .arriving⟩
      ⟨⟨now, m⟩, Function.update locals i .rejected⟩ := by
  rw [CircuitBreakerOpts.letThrough] at h
  split at h
  · next hopen =>
    split at h
    · next hrecent =>
      apply (Alone.step _ _ {} (by rw [handlerStep, Shared.count, if_pos hopen])).trans
      apply (Alone.step _ _ {} (by rw [handlerStep])).trans
      exact Alone.step _ _ {} (by rw [handlerStep, Shared.lastNano, if_pos hrecent])
    · exact absurd h (by simp)
  · exact absurd h (by simp)

theorem alone_letThrough {m' : TargetMonitor} (h : opts.letThrough now m = some m') :
    Alone opts i ⟨⟨now, m⟩, Function.update locals i .arriving⟩
      ⟨⟨now, m'⟩, Function.update locals i .forwarded⟩ := by
  rw [CircuitBreakerOpts.letThrough] at h
  split at h
  · next hopen =>
    split at h
    · exact absurd h (by simp)
    · next hrecent =>
      apply (Alone.step _ _ {} (by rw [handlerStep, Shared.count, if_pos hopen])).trans
      apply (Alone.step _ _ {} (by rw [handlerStep])).trans
      apply (Alone.step _ _ {} (by rw [handlerStep, Shared.lastNano, if_neg hrecent])).trans
      apply Alone.step _ _ {}
      rw [handlerStep, Shared.compareAndSwap, Shared.count, if_pos rfl, ← Option.some.inj h]
      rfl
  · next hopen =>
    rw [← Option.some.inj h]
    exact Alone.step _ _ {} (by rw [handlerStep, Shared.count, if_neg hopen])

theorem alone_record (now : Nat) (m : TargetMonitor) (reply : Reply) :
    Alone opts i ⟨⟨now, m⟩, Function.update locals i .forwarded⟩
      ⟨⟨now, m.record reply.isFailure now⟩, Function.update locals i .finished⟩ := by
  cases hfailure : reply.isFailure with
  | true =>
    apply (Alone.step _ _ reply (by rw [handlerStep, if_pos hfailure])).trans
    apply (Alone.step _ _ {} (by rw [handlerStep])).trans
    apply (Alone.step _ _ {} (by rw [handlerStep])).trans
    exact Alone.step _ _ {} rfl
  | false =>
    apply (Alone.step _ _ reply (by rw [handlerStep, hfailure, if_neg Bool.false_ne_true])).trans
    rw [TargetMonitor.record, if_neg Bool.false_ne_true]
    split
    · next hzero =>
      exact Alone.step _ _ {} (by rw [handlerStep, Shared.count, if_pos hzero])
    · next hzero =>
      apply (Alone.step _ _ {} (by rw [handlerStep, Shared.count, if_neg hzero])).trans
      apply Alone.step _ _ {}
      rw [handlerStep, Shared.compareAndSwap, Shared.count, if_pos rfl, if_pos rfl]
      rfl

/-- Where a request ends in the handler. -/
def Verdict.phase : Verdict → Phase
  | .rejected => .rejected
  | .forwarded _ => .finished

theorem alone_run (opts : CircuitBreakerOpts) (m : TargetMonitor) (r : Request)
    (hr : r.arrive ≤ r.finish) (i : Nat) (locals : Nat → Phase) :
    ∃ now ≤ r.finish, Alone opts i ⟨⟨r.arrive, m⟩, Function.update locals i .arriving⟩
      ⟨⟨now, ((breaker opts).step m r).2⟩,
        Function.update locals i ((breaker opts).step m r).1.phase⟩ := by
  cases hthrough : opts.letThrough r.arrive m with
  | none =>
    rw [breaker_of_none hthrough]
    exact ⟨r.arrive, hr, alone_reject hthrough⟩
  | some m' =>
    rw [breaker_of_some hthrough]
    refine ⟨r.finish, Nat.le_refl _, ?_⟩
    apply (alone_letThrough hthrough).trans
    apply (Alone.wait _ _ hr).trans
    exact alone_record ..

end

/-- The requests as threads, when they have come one after the other. -/
def phases (opts : CircuitBreakerOpts) (m : TargetMonitor) (reqs : List Request) (k : Nat) :
    Phase :=
  ((((breaker opts).trace m reqs)[k]?).map fun entry => entry.2.phase).getD .arriving

theorem phases_concat (opts : CircuitBreakerOpts) (m : TargetMonitor) (reqs : List Request)
    (r : Request) : phases opts m reqs reqs.length = .arriving ∧
    phases opts m (reqs ++ [r]) = Function.update (phases opts m reqs) reqs.length
      ((breaker opts).step ((breaker opts).run m reqs) r).1.phase := by
  have hlength : ((breaker opts).trace m reqs).length = reqs.length := by
    rw [← List.length_map Prod.fst, Machine.map_fst_trace]
  refine ⟨by simp [phases, ← hlength], funext fun k => ?_⟩
  rw [phases, Machine.trace_concat, ← hlength, Function.update_apply]
  split
  · next hk => simp [hk]
  · next hk =>
    rw [phases]
    obtain hlt | hgt := Nat.lt_or_gt_of_ne hk
    · rw [List.getElem?_append_left hlt]
    · rw [List.getElem?_eq_none hgt.le, List.getElem?_eq_none]
      simpa [Nat.add_one_le_iff] using hgt

/-- The requests of a sequential run, taken as threads, have an interleaving that leaves the
monitor as the sequential run does and ends each of them with the verdict that it gives. -/
theorem sequential_interleaving (opts : CircuitBreakerOpts) (m : TargetMonitor) (start : Nat)
    (reqs : List Request) (hspan : ∀ r ∈ reqs, start ≤ r.arrive ∧ r.arrive ≤ r.finish)
    (horder : reqs.Pairwise fun r next => r.finish ≤ next.arrive) :
    ∃ ops now, (handler opts).machine.run ⟨⟨start, m⟩, fun _ => .arriving⟩ ops =
      ⟨⟨now, (breaker opts).run m reqs⟩, phases opts m reqs⟩ := by
  -- the time is not later than the last request that is over
  suffices h : ∃ ops now, (∀ t, start ≤ t → (∀ r ∈ reqs, r.finish ≤ t) → now ≤ t) ∧
      (handler opts).machine.run ⟨⟨start, m⟩, fun _ => .arriving⟩ ops =
        ⟨⟨now, (breaker opts).run m reqs⟩, phases opts m reqs⟩ by
    obtain ⟨ops, now, -, hrun⟩ := h
    exact ⟨ops, now, hrun⟩
  induction reqs using List.reverseRecOn with
  | nil => exact ⟨[], start, fun t ht _ => ht, rfl⟩
  | append_singleton reqs r ih =>
    rw [List.pairwise_append] at horder
    obtain ⟨hstart, hr⟩ := hspan r (by simp)
    obtain ⟨ops, now, hnow, hrun⟩ :=
      ih (fun r' hr' => hspan r' (List.mem_append_left _ hr')) horder.1
    have hwait := hnow r.arrive hstart fun r' hr' => horder.2.2 r' hr' r (by simp)
    obtain ⟨harriving, hphases⟩ := phases_concat opts m reqs r
    obtain ⟨now', hfinish, halone⟩ :=
      alone_run opts ((breaker opts).run m reqs) r hr reqs.length (phases opts m reqs)
    rw [← harriving, Function.update_eq_self, ← hphases] at halone
    obtain ⟨ops', -, hrun'⟩ := (Alone.wait _ _ hwait).trans halone
    refine ⟨ops ++ ops', now', fun t _ ht => hfinish.trans (ht r (by simp)), ?_⟩
    rw [Machine.run_append, hrun, hrun', Machine.run_concat]

def failureAndRequest : List Request :=
  [⟨unixEpoch, ⟨[500], false⟩, unixEpoch⟩, ⟨unixEpoch + second, {}, unixEpoch + second⟩]

theorem sequential_interleaving_failure :
    phases ⟨1, 60 * second, 1⟩ {} failureAndRequest 1 = .rejected ∧
      ∃ ops now, (handler ⟨1, 60 * second, 1⟩).machine.run
        ⟨⟨unixEpoch, {}⟩, fun _ => .arriving⟩ ops =
          ⟨⟨now, (breaker ⟨1, 60 * second, 1⟩).run {} failureAndRequest⟩,
            phases ⟨1, 60 * second, 1⟩ {} failureAndRequest⟩ :=
  ⟨by decide +kernel, sequential_interleaving _ _ _ _ (by decide) (by decide)⟩

/-! ## Gentle steps -/

/-- A failure is on record, or about to be, at a time with a property. -/
def Recorded (P : Int → Prop) (s : Requests) : Prop :=
  (∃ i, s.locals i = .stamping) ∨ (∃ i nano, s.locals i = .storing nano ∧ P nano) ∨
    P s.shared.lastNano

/-- The last failure is less than the recovery time ago. -/
def Fresh (opts : CircuitBreakerOpts) (s : Requests) : Prop :=
  Recorded (fun nano => Time.sinceUnixNano s.shared.now nano < opts.recoveryDuration) s

/-- The operations that do no harm to an open circuit. The time of the last failure is not
loaded while another request has counted a failure and not yet stored its time, and it is not
set back. The counter does not overflow, and it is not lowered below the threshold after a fresh
failure. -/
def GentlePhase (opts : CircuitBreakerOpts) (s : Requests) : Phase → Prop
  | .loaded _ => ∀ k, (s.locals k).recording = false
  | .recovering count =>
    Fresh opts s → opts.failureThreshold ≤ s.shared.count → s.shared.count = count →
      opts.failureThreshold ≤ opts.halfOpenCount count
  | .swapping cur =>
    Fresh opts s → opts.failureThreshold ≤ s.shared.count → s.shared.count = cur →
      opts.failureThreshold ≤ cur - 1
  | .failing => s.shared.count ≠ Int32.maxValue
  | .storing nano => s.shared.lastNano ≤ nano
  | _ => True

/-- The steps that do no harm to an open circuit. Time does not run out for a request between
its first load and its reading of the clock. Only sufficient: the circuit may stay open in a run
with other steps too. -/
def Gentle (opts : CircuitBreakerOpts) (s : Requests) : BreakerAction → Prop
  | .event d =>
    (∀ j count, s.locals j = .loaded count → Fresh opts s →
      Fresh opts ((handler opts).machine.step s (.event d)).2) ∧
    (∀ j count lastFail, s.locals j = .timing count lastFail →
      Time.sinceUnixNano s.shared.now lastFail < opts.recoveryDuration →
      Time.sinceUnixNano (s.shared.now + d) lastFail < opts.recoveryDuration)
  | .step i _ => GentlePhase opts s (s.locals i)

variable {opts : CircuitBreakerOpts}

/-! ## What a step does -/

theorem shared_handler (opts : CircuitBreakerOpts) (s : Requests) (i : Nat) (reply : Reply) :
    ((handler opts).machine.step s (.step i reply)).2.shared =
      (handlerStep opts s.shared reply (s.locals i)).1 := rfl

theorem locals_handler (opts : CircuitBreakerOpts) (s : Requests) (i : Nat) (reply : Reply) :
    ((handler opts).machine.step s (.step i reply)).2.locals i =
      (handlerStep opts s.shared reply (s.locals i)).2 :=
  Threads.locals_step_self (handler opts) s i reply

variable (s : Shared) (reply : Reply)

@[simp] theorem Shared.now_compareAndSwap (old new : Int32) :
    (s.compareAndSwap old new).now = s.now := by
  rw [compareAndSwap]
  split <;> rfl

@[simp] theorem Shared.lastNano_compareAndSwap (old new : Int32) :
    (s.compareAndSwap old new).lastNano = s.lastNano := by
  rw [compareAndSwap]
  split <;> rfl

theorem now_handlerStep (phase : Phase) : (handlerStep opts s reply phase).1.now = s.now := by
  cases phase <;> simp [handlerStep, Shared.setCount, Shared.setLastNano]

theorem lastNano_handlerStep {phase : Phase} (h : phase.recording = false) :
    (handlerStep opts s reply phase).1.lastNano = s.lastNano := by
  cases phase with
  | storing nano => exact absurd h Bool.noConfusion
  | recovering | swapping => exact Shared.lastNano_compareAndSwap ..
  | _ => rfl

variable {bound : Int32}

theorem Shared.le_count_compareAndSwap {s : Shared} {old new : Int32} (h : bound ≤ s.count)
    (hnew : s.count = old → bound ≤ new) : bound ≤ (s.compareAndSwap old new).count := by
  rw [compareAndSwap]
  split
  · next heq => exact hnew heq
  · exact h

theorem le_add_one {count : Int32} (h : bound ≤ count) (hmax : count ≠ Int32.maxValue) :
    bound ≤ count + 1 := by
  have hlt : count < Int32.maxValue := by
    rw [Int32.lt_iff_toInt_lt, Int32.toInt_maxValue]
    rw [Ne, ← Int32.toInt_inj, Int32.toInt_maxValue] at hmax
    have := count.toInt_lt
    omega
  rw [Int32.le_iff_toInt_le] at h ⊢
  rw [toInt_add_one hlt]
  omega

variable {s : Requests} {reply : Reply} {i : Nat}

theorem le_count_handlerStep (hfresh : Fresh opts s)
    (hgentle : Gentle opts s (.step i reply)) (hopen : opts.failureThreshold ≤ s.shared.count) :
    opts.failureThreshold ≤ (handlerStep opts s.shared reply (s.locals i)).1.count := by
  rw [Gentle] at hgentle
  cases hphase : s.locals i with
  | recovering | swapping =>
    rw [hphase] at hgentle
    exact Shared.le_count_compareAndSwap hopen (hgentle hfresh hopen)
  | failing =>
    rw [hphase] at hgentle
    exact le_add_one hopen hgentle
  | _ => exact hopen

variable {P : Int → Prop} {t j : Nat} {op : BreakerAction}

theorem Recorded.frame {s' : Requests} (h : Recorded P s)
    (hlocals : ∀ k, (s.locals k).recording = true → s'.locals k = s.locals k)
    (hlast : s'.shared.lastNano = s.shared.lastNano) : Recorded P s' := by
  rcases h with ⟨k, hk⟩ | ⟨k, nano, hk, hP⟩ | hP
  · exact .inl ⟨k, by rw [hlocals k (by rw [hk]; rfl), hk]⟩
  · exact .inr (.inl ⟨k, nano, by rw [hlocals k (by rw [hk]; rfl), hk], hP⟩)
  · exact .inr (.inr (by rwa [hlast]))

/-- A failure stays on record, or gives way to a later one. -/
theorem Recorded.step (hmono : ∀ a b, a ≤ b → P a → P b) (hnow : P (Time.unixNano s.shared.now))
    (hgentle : Gentle opts s (.step i reply)) (h : Recorded P s) :
    Recorded P ((handler opts).machine.step s (.step i reply)).2 := by
  have hother : ∀ k, k ≠ i → ((handler opts).machine.step s (.step i reply)).2.locals k =
      s.locals k := fun k hk => Threads.locals_step_of_ne _ s hk reply
  have hself := locals_handler opts s i reply
  cases hrecording : (s.locals i).recording with
  | false =>
    apply h.frame
    · intro k hk
      apply hother
      rintro rfl
      exact absurd hk (by simp [hrecording])
    · rw [shared_handler]
      exact lastNano_handlerStep _ _ hrecording
  | true =>
    cases hphase : s.locals i with
    | stamping =>
      rw [hphase] at hself
      exact .inr (.inl ⟨i, _, hself, hnow⟩)
    | storing nano =>
      have hle : s.shared.lastNano ≤ nano := by
        rw [Gentle, hphase] at hgentle
        exact hgentle
      have hlast : ((handler opts).machine.step s (.step i reply)).2.shared.lastNano =
          nano := by
        rw [shared_handler, hphase]
        rfl
      -- the time that is stored is the one looked for, or not before the one on record
      rcases h with ⟨k, hk⟩ | ⟨k, nano', hk, hP⟩ | hP
      · have hne : k ≠ i := by
          rintro rfl
          exact absurd (hk.symm.trans hphase) (by simp)
        exact .inl ⟨k, (hother k hne).trans hk⟩
      · by_cases hki : k = i
        · subst hki
          obtain rfl : nano' = nano := by simpa using hk.symm.trans hphase
          exact .inr (.inr (by rwa [hlast]))
        · exact .inr (.inl ⟨k, nano', (hother k hki).trans hk, hP⟩)
      · exact .inr (.inr (by rw [hlast]; exact hmono _ _ hle hP))
    | _ => exact absurd hrecording (by simp [hphase, Phase.recording])

/-! ## An open circuit -/

/-- The circuit opened at the instant `t`, and the recovery time is not over. -/
structure OpenSince (opts : CircuitBreakerOpts) (t : Nat) (s : Requests) : Prop where
  le : t ≤ s.shared.now
  isOpen : (s.shared.now : Int) < t + opts.recoveryDuration →
    opts.failureThreshold ≤ s.shared.count ∧ Recorded (Time.unixNano t ≤ ·) s

theorem fresh_of_recorded (hnow : (s.shared.now : Int) < t + opts.recoveryDuration)
    (h : Recorded (Time.unixNano t ≤ ·) s) : Fresh opts s := by
  have himp : ∀ nano, unixNano t ≤ nano →
      sinceUnixNano s.shared.now nano < opts.recoveryDuration := by
    intro nano hle
    rw [unixNano] at hle
    rw [sinceUnixNano]
    omega
  rcases h with hk | ⟨k, nano, hk, hP⟩ | hP
  · exact .inl hk
  · exact .inr (.inl ⟨k, nano, hk, himp nano hP⟩)
  · exact .inr (.inr (himp _ hP))

/-- Step lemma: the circuit stays open. -/
theorem OpenSince.step (hgentle : Gentle opts s op) (h : OpenSince opts t s) :
    OpenSince opts t ((handler opts).machine.step s op).2 := by
  cases op with
  | event d =>
    refine ⟨Nat.le_trans h.le (Nat.le_add_right _ d), fun hnow => ?_⟩
    have hbefore : (s.shared.now : Int) < t + opts.recoveryDuration := by
      simp only [Threads.machine_event, handler] at hnow
      omega
    exact h.isOpen hbefore
  | step i reply =>
    have hclock : ((handler opts).machine.step s (.step i reply)).2.shared.now =
        s.shared.now := now_handlerStep ..
    refine ⟨by rw [hclock]; exact h.le, fun hnow => ?_⟩
    rw [hclock] at hnow
    obtain ⟨hcount, hrecorded⟩ := h.isOpen hnow
    refine ⟨le_count_handlerStep (fresh_of_recorded hnow hrecorded) hgentle hcount, ?_⟩
    apply hrecorded.step _ _ hgentle
    · intro a b hab ha
      omega
    · have := h.le
      simp only [unixNano]
      omega

def Doomed (opts : CircuitBreakerOpts) (j : Nat) (s : Requests) : Prop :=
  match s.locals j with
  | .loaded _ => Fresh opts s
  | .timing _ lastFail => Time.sinceUnixNano s.shared.now lastFail < opts.recoveryDuration
  | .rejected => True
  | _ => False

theorem Fresh.of_quiet (h : Fresh opts s) (hquiet : ∀ k, (s.locals k).recording = false) :
    Time.sinceUnixNano s.shared.now s.shared.lastNano < opts.recoveryDuration := by
  rcases h with ⟨k, hk⟩ | ⟨k, nano, hk, -⟩ | hP
  · exact absurd (hquiet k) (by simp [hk, Phase.recording])
  · exact absurd (hquiet k) (by simp [hk, Phase.recording])
  · exact hP

theorem Fresh.step (hR : 0 < opts.recoveryDuration)
    (hgentle : Gentle opts s (.step i reply)) (h : Fresh opts s) :
    Fresh opts ((handler opts).machine.step s (.step i reply)).2 := by
  rw [Fresh, shared_handler, now_handlerStep]
  apply Recorded.step _ _ hgentle h
  · intro a b hab ha
    simp only [sinceUnixNano] at ha ⊢
    omega
  · rw [sinceUnixNano_unixNano]
    omega

/-- Step lemma: the request stays on its way. -/
theorem Doomed.step (hR : 0 < opts.recoveryDuration) (hgentle : Gentle opts s op)
    (h : Doomed opts j s) : Doomed opts j ((handler opts).machine.step s op).2 := by
  cases op with
  | event d =>
    rw [Doomed] at h ⊢
    rw [Threads.machine_event]
    cases hphase : s.locals j with
    | loaded count =>
      rw [hphase] at h
      exact hgentle.1 j count hphase h
    | timing count lastFail =>
      rw [hphase] at h
      exact hgentle.2 j count lastFail hphase h
    | rejected => trivial
    | _ => simp [hphase] at h
  | step i reply =>
    have hclock : ((handler opts).machine.step s (.step i reply)).2.shared.now =
        s.shared.now := now_handlerStep ..
    rw [Doomed] at h ⊢
    by_cases hij : j = i
    · subst hij
      rw [locals_handler, hclock]
      cases hphase : s.locals j with
      | loaded count =>
        rw [hphase] at h
        rw [Gentle, hphase] at hgentle
        exact h.of_quiet hgentle
      | timing =>
        rw [hphase] at h
        simp only [handlerStep, if_pos h]
      | rejected => trivial
      | _ => simp [hphase] at h
    · rw [Threads.locals_step_of_ne _ s hij, hclock]
      cases hphase : s.locals j with
      | loaded count =>
        rw [hphase] at h
        exact h.step hR hgentle
      | timing => simpa [hphase] using h
      | rejected => trivial
      | _ => simp [hphase] at h

theorem Doomed.not_wasForwarded (h : Doomed opts j s) : (s.locals j).wasForwarded = false := by
  rw [Doomed] at h
  cases hphase : s.locals j <;> simp_all [Phase.wasForwarded]

/-- An opening: a request counts a failure, and the counter reaches the threshold. -/
def Opens (opts : CircuitBreakerOpts) (i : Nat) (s : Requests) : Prop :=
  s.locals i = .failing ∧ opts.failureThreshold ≤ s.shared.count + 1

/-- Whenever the circuit opens, no request whose first load comes later but before the
recovery time is over is forwarded. -/
def StaysOpen (opts : CircuitBreakerOpts) (s : Requests) (ops : List BreakerAction) : Prop :=
  ∀ before i reply mid j reply' after,
    ops = before ++ .step i reply :: (mid ++ .step j reply' :: after) →
    Opens opts i ((handler opts).machine.run s before) →
    ((handler opts).machine.run s (before ++ .step i reply :: mid)).locals j = .arriving →
    (((handler opts).machine.run s (before ++ .step i reply :: mid)).shared.now : Int) <
      ((handler opts).machine.run s before).shared.now + opts.recoveryDuration →
    (((handler opts).machine.run s ops).locals j).wasForwarded = false

theorem Opens.openSince (h : Opens opts i s) (reply : Reply) :
    OpenSince opts s.shared.now ((handler opts).machine.step s (.step i reply)).2 := by
  have hlocal := locals_handler opts s i reply
  have hshared := shared_handler opts s i reply
  rw [h.1] at hlocal hshared
  refine ⟨?_, fun _ => ⟨?_, .inl ⟨i, hlocal⟩⟩⟩
  · rw [hshared]
    exact Nat.le_refl _
  · rw [hshared]
    exact h.2

theorem OpenSince.doomed (h : OpenSince opts t s) (harriving : s.locals j = .arriving)
    (hnow : (s.shared.now : Int) < t + opts.recoveryDuration) (reply : Reply) :
    Doomed opts j ((handler opts).machine.step s (.step j reply)).2 := by
  obtain ⟨hcount, hrecorded⟩ := h.isOpen hnow
  have hfresh := fresh_of_recorded hnow hrecorded
  have hR : 0 < opts.recoveryDuration := by
    have := h.le
    omega
  rw [Doomed, locals_handler, harriving, handlerStep, if_pos hcount]
  apply hfresh.step hR
  rw [Gentle, harriving]
  trivial

/-- In a run of gentle steps an open circuit stays open. -/
theorem open_circuit_stays_open (opts : CircuitBreakerOpts) (now : Nat)
    (ops : List BreakerAction) (hgentle : (handler opts).machine.Steps (Gentle opts)
      (noRequests now) ops) : StaysOpen opts (noRequests now) ops := by
  intro before i reply mid j reply' after hops hopens harriving hnow
  subst hops
  rw [Machine.steps_append, Machine.Steps, Machine.steps_append] at hgentle
  obtain ⟨-, -, hmid, hload, hafter⟩ := hgentle
  rw [Machine.run_append, Machine.run_cons] at harriving hnow
  have hopen := (handler opts).machine.run_of_steps _ (fun _ _ hok h => OpenSince.step hok h)
    hmid (hopens.openSince reply)
  have hR : 0 < opts.recoveryDuration := by
    have := hopen.le
    omega
  have hdoomed := (handler opts).machine.run_of_steps _ (fun _ _ hok h => Doomed.step hR hok h)
    hafter (hopen.doomed harriving hnow reply')
  rw [Machine.run_append, Machine.run_cons, Machine.run_append, Machine.run_cons]
  exact hdoomed.not_wasForwarded

def oneFailure : CircuitBreakerOpts := ⟨1, 60 * Time.second, 1⟩

def firstFailure : List BreakerAction :=
  [.step 0 {}, .step 0 { headers := [500] }, .step 0 {}]

/-- Request 0 stores the time of its failure, then request 1 comes and is rejected. -/
theorem open_circuit_rejects :
    StaysOpen oneFailure (noRequests Time.unixEpoch)
      (firstFailure ++ [.step 0 {}, .step 0 {}, .step 1 {}, .step 1 {}, .step 1 {}]) := by
  apply open_circuit_stays_open
  refine ⟨trivial, trivial, ?_, trivial, ?_, trivial, ?_, trivial, trivial⟩
  · exact (by decide : (0 : Int32) ≠ Int32.maxValue)
  · exact (by decide : (0 : Int) ≤ unixNano unixEpoch)
  · intro k
    rcases k with _ | _ | k <;> rfl

/-- Request 1 comes when request 0 has counted its failure but not yet stored the time, and
is forwarded though the circuit has just opened. -/
theorem open_circuit_forwards :
    let start := noRequests (Time.unixEpoch + Time.hour)
    let opening := (handler oneFailure).machine.run start (firstFailure.take 2)
    let arrival := (handler oneFailure).machine.run start firstFailure
    let last := (handler oneFailure).machine.run start
      (firstFailure ++ [.step 1 {}, .step 1 {}, .step 1 {}, .step 1 {}])
    opening.locals 0 = .failing ∧ oneFailure.failureThreshold ≤ opening.shared.count + 1 ∧
      arrival.locals 1 = .arriving ∧
      (arrival.shared.now : Int) < opening.shared.now + oneFailure.recoveryDuration ∧
      last.locals 1 = .forwarded := by
  decide +kernel

end Torii.Middleware
