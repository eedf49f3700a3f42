import Torii.Bus.EventBus

/-!
# Starting the event bus again

`Start` and `Stop` of `internal/bus/event_bus.go`. The first `Stop` cancels the context, and after a
later `Start` it stays cancelled: every select of the new workers may pick its `Done` case. The
workers of each `Start` are kept apart. As long as the context is open the bus is that of
`Torii.Bus.EventBus` (`reachable_bus`).
-/

namespace Torii.Bus

/-- The workers that one call of `Start` spawned: what they are doing, and which of them have
not returned. -/
structure Workers where
  senders : Fin numberOfWorkers → Sender Published HandlerJob := fun _ => .idle
  runners : Fin numberOfWorkers → Option HandlerJob := fun _ => none
  dispatching : Fin numberOfWorkers → Bool := fun _ => true
  handling : Fin numberOfWorkers → Bool := fun _ => true

def Workers.Running (w : Workers) : Prop :=
  (∀ i, w.dispatching i = true) ∧ ∀ i, w.handling i = true

/-- A dispatcher picks the `Done` case: in `dispatchMessages` it returns, and in
`dispatchHandler` it drops the job. -/
def Workers.quitDispatching (w : Workers) (i : Fin numberOfWorkers) : Workers :=
  match w.senders i with
  | .idle => { w with dispatching := Function.update w.dispatching i false }
  | .sending (_ :: jobs) => { w with senders := Function.update w.senders i (.sending jobs) }
  | _ => w

/-- A handler picks the `Done` case, which it can do between two jobs. -/
def Workers.quitHandling (w : Workers) (i : Fin numberOfWorkers) : Workers :=
  match w.runners i with
  | none => { w with handling := Function.update w.handling i false }
  | some _ => w

/-- `EventBus` with its context, which is `done` once it was cancelled, and with the workers of
every `Start`. A new one is what `NewEventBus` returns. -/
structure LiveBus where
  started : Bool := false
  done : Bool := false
  listeners : Listeners := .empty
  accepted : Nat := 0
  busChannel : List Published := []
  handlerQueue : List HandlerJob := []
  workers : List Workers := []

inductive LifeCall where
  | start
  | stop
deriving DecidableEq

/-- What can happen next. A worker is named by the `Start` that spawned it and its index. When
several cases of its select are ready, either may be picked: `dispatch` and `handle` are the
cases of the channels, `dispatchDone` and `handleDone` those of the context. -/
inductive LiveAction where
  | life (call : LifeCall)
  | subscribe (topic : Topic) (handlerIsNil : Bool)
  | unsubscribe (n : Nat)
  | publish (evt : Event)
  | dispatch (g : Nat) (i : Fin numberOfWorkers) (orders : List (List UInt32))
  | dispatchDone (g : Nat) (i : Fin numberOfWorkers)
  | handle (g : Nat) (i : Fin numberOfWorkers) (panics : Bool)
  | handleDone (g : Nat) (i : Fin numberOfWorkers)

namespace LiveBus

def seenBy (s : LiveBus) (w : Workers) : EventBus :=
  ⟨s.started, s.listeners, s.accepted, ⟨s.busChannel, s.handlerQueue, w.senders, w.runners⟩⟩

/-- Put back the channels after a step of a worker. -/
def setQueues (s : LiveBus) (t : EventBus) : LiveBus :=
  { s with busChannel := t.queues.inbox, handlerQueue := t.queues.outbox }

def start (s : LiveBus) : LiveBus :=
  if s.started then s else { s with started := true, workers := s.workers ++ [{}] }

def stop (s : LiveBus) : LiveBus :=
  if s.started then { s with started := false, done := true } else s

def publish (s : LiveBus) (evt : Event) : Bool × LiveBus :=
  if !s.started then (false, s)
  else if s.busChannel.length < eventQueueSize then
    (true, { s with
      busChannel := s.busChannel ++ [⟨s.accepted, evt⟩]
      accepted := s.accepted + 1 })
  else (false, s)

def subscribe (s : LiveBus) (topic : Topic) (handlerIsNil : Bool) :
    Except String Nat × LiveBus :=
  if !s.started then (.error "event bus is not started", s)
  else if topic = "" then (.error "topic cannot be empty", s)
  else if handlerIsNil then (.error "handler cannot be nil", s)
  else
    (.ok s.listeners.returned.length, { s with listeners := s.listeners.subscribe topic })

/-- A step of a dispatcher that does not pick the `Done` case. -/
def dispatch (s : LiveBus) (g : Nat) (i : Fin numberOfWorkers) (orders : List (List UInt32)) :
    LiveBus :=
  match s.workers[g]? with
  | none => s
  | some w =>
    if w.dispatching i then
      let t := (s.seenBy w).dispatchMessages i orders
      { s.setQueues t with workers := s.workers.set g { w with senders := t.queues.senders } }
    else s

/-- A step of a handler that does not pick the `Done` case, with the job whose callback is
called. -/
def handle (s : LiveBus) (g : Nat) (i : Fin numberOfWorkers) : Option HandlerJob × LiveBus :=
  match s.workers[g]? with
  | none => (none, s)
  | some w =>
    if w.handling i then
      let (job, t) := (s.seenBy w).handleMessages i
      (job,
        { s.setQueues t with workers := s.workers.set g { w with runners := t.queues.runners } })
    else (none, s)

/-- A dispatcher picks the `Done` case, if it is ready. -/
def dispatchDone (s : LiveBus) (g : Nat) (i : Fin numberOfWorkers) : LiveBus :=
  match s.workers[g]? with
  | none => s
  | some w =>
    if s.done && w.dispatching i then
      { s with workers := s.workers.set g (w.quitDispatching i) }
    else s

/-- A handler picks the `Done` case, if it is ready. -/
def handleDone (s : LiveBus) (g : Nat) (i : Fin numberOfWorkers) : LiveBus :=
  match s.workers[g]? with
  | none => s
  | some w =>
    if s.done && w.handling i then { s with workers := s.workers.set g (w.quitHandling i) }
    else s

end LiveBus

/-- The interleavings of a bus that is started and stopped. -/
def liveBus : Machine LiveBus LiveAction (Option BusReply) where
  step s
    | .life .start => (none, s.start)
    | .life .stop => (none, s.stop)
    | .subscribe topic handlerIsNil =>
      (some (.subscribed (s.subscribe topic handlerIsNil).1),
        (s.subscribe topic handlerIsNil).2)
    | .unsubscribe n =>
      (some .unsubscribed, { s with listeners := s.listeners.unsubscribe n })
    | .publish evt => (some (.published (s.publish evt).1), (s.publish evt).2)
    | .dispatch g i orders => (some .dispatched, s.dispatch g i orders)
    | .dispatchDone g i => (none, s.dispatchDone g i)
    | .handle g i _ => (some (.handled (s.handle g i).1), (s.handle g i).2)
    | .handleDone g i => (none, s.handleDone g i)

def lifeCalls (ops : List LiveAction) : List LifeCall :=
  ops.filterMap fun
    | .life call => some call
    | _ => none

/-! ## While the context is open -/

/-- The workers of one `Start` are the only ones and are all running, and the bus is in a state
of a bus that was started once. -/
structure Once (s : LiveBus) (w : Workers) : Prop where
  started : s.started = true
  workers : s.workers = [w]
  running : w.Running
  reached : ∃ ops, s.seenBy w = bus.run startedBus ops

theorem started_step (t : EventBus) (op : BusAction) : (bus.step t op).2.started = t.started := by
  cases op with
  | subscribe =>
    simp only [step_subscribe, EventBus.subscribe]
    split
    · rfl
    · split
      · rfl
      · split <;> rfl
  | unsubscribe n => rfl
  | publish evt =>
    simp only [step_publish, EventBus.publish]
    split
    · rfl
    · split <;> rfl
  | dispatch | handle => rfl

variable (calls : List LifeCall) {s : LiveBus}

theorem Once.next {s' : LiveBus} {w w' : Workers} (h : Once s w) (op : BusAction)
    (hworkers : s'.workers = [w']) (hrunning : w'.Running)
    (hstep : s'.seenBy w' = (bus.step (s.seenBy w) op).2) : Once s' w' where
  started := by
    have hsame : (s'.seenBy w').started = (s.seenBy w).started := by
      rw [hstep, started_step]
    exact hsame.trans h.started
  workers := hworkers
  running := hrunning
  reached := by
    obtain ⟨ops, hops⟩ := h.reached
    exact ⟨ops ++ [op], by rw [hstep, hops, Machine.run_concat]⟩

namespace LiveBus

variable (s : LiveBus) (w : Workers)

theorem seenBy_subscribe (topic : Topic) (handlerIsNil : Bool) :
    (s.subscribe topic handlerIsNil).2.workers = s.workers ∧
      (s.subscribe topic handlerIsNil).2.seenBy w =
        ((s.seenBy w).subscribe topic handlerIsNil).2 := by
  simp only [subscribe, EventBus.subscribe, show (s.seenBy w).started = s.started from rfl]
  split
  · exact ⟨rfl, rfl⟩
  · split
    · exact ⟨rfl, rfl⟩
    · split <;> exact ⟨rfl, rfl⟩

theorem seenBy_publish (evt : Event) :
    (s.publish evt).2.workers = s.workers ∧
      (s.publish evt).2.seenBy w = ((s.seenBy w).publish evt).2 := by
  simp only [publish, EventBus.publish, Pipeline.accept,
    show (s.seenBy w).started = s.started from rfl,
    show (s.seenBy w).queues.inbox = s.busChannel from rfl]
  split
  · exact ⟨rfl, rfl⟩
  · split <;> exact ⟨rfl, rfl⟩

variable (hdone : s.done = false) (g : Nat) (i : Fin numberOfWorkers)
include hdone

theorem dispatchDone_of_open : s.dispatchDone g i = s := by
  rw [dispatchDone]
  split
  · rfl
  · simp [hdone]

theorem handleDone_of_open : s.handleDone g i = s := by
  rw [handleDone]
  split
  · rfl
  · simp [hdone]

end LiveBus

section

variable {s : LiveBus} {w : Workers}

theorem Once.first (h : Once s w) : s.workers[0]? = some w := by
  rw [h.workers]
  rfl

theorem Once.other (h : Once s w) (g : Nat) : s.workers[g + 1]? = none := by
  rw [h.workers]
  rfl

theorem Once.dispatch (h : Once s w) (g : Nat) (i : Fin numberOfWorkers)
    (orders : List (List UInt32)) : ∃ w, Once (s.dispatch g i orders) w := by
  cases g with
  | zero =>
    rw [LiveBus.dispatch, h.first]
    simp only [h.running.1 i, if_true, h.workers, List.set_cons_zero]
    refine ⟨_, h.next (.dispatch i orders) rfl h.running ?_⟩
    have hrunners := (s.seenBy w).queues.runners_senderStep handlerQueueSize
      ((s.seenBy w).jobs orders) i
    exact congrArg (fun runners => EventBus.mk _ _ _ ⟨_, _, _, runners⟩) hrunners.symm
  | succ g =>
    rw [LiveBus.dispatch, h.other g]
    exact ⟨w, h⟩

theorem Once.handle (h : Once s w) (g : Nat) (i : Fin numberOfWorkers) (panics : Bool) :
    ∃ w, Once (s.handle g i).2 w := by
  cases g with
  | zero =>
    rw [LiveBus.handle, h.first]
    simp only [h.running.2 i, if_true, h.workers, List.set_cons_zero]
    refine ⟨_, h.next (.handle i panics) rfl h.running ?_⟩
    have hsenders := (s.seenBy w).queues.senders_runnerStep i
    exact congrArg (fun senders => EventBus.mk _ _ _ ⟨_, _, senders, _⟩) hsenders.symm
  | succ g =>
    rw [LiveBus.handle, h.other g]
    exact ⟨w, h⟩

theorem Once.step (h : Once s w) (hdone : s.done = false) {op : LiveAction}
    (hop : op ≠ .life .stop) : ∃ w, Once (liveBus.step s op).2 w := by
  cases op with
  | life call =>
    cases call with
    | start =>
      have hsame : s.start = s := if_pos h.started
      exact ⟨w, by rwa [show (liveBus.step s (.life .start)).2 = s from hsame]⟩
    | stop => exact absurd rfl hop
  | subscribe topic handlerIsNil =>
    obtain ⟨hworkers, hseen⟩ := s.seenBy_subscribe w topic handlerIsNil
    exact ⟨w, h.next (.subscribe topic handlerIsNil) (hworkers.trans h.workers) h.running hseen⟩
  | unsubscribe n => exact ⟨w, h.next (.unsubscribe n) h.workers h.running rfl⟩
  | publish evt =>
    obtain ⟨hworkers, hseen⟩ := s.seenBy_publish w evt
    exact ⟨w, h.next (.publish evt) (hworkers.trans h.workers) h.running hseen⟩
  | dispatch g i orders => exact h.dispatch g i orders
  | dispatchDone g i =>
    exact ⟨w, by rwa [show (liveBus.step s (.dispatchDone g i)).2 = s from
      s.dispatchDone_of_open hdone g i]⟩
  | handle g i panics => exact h.handle g i panics
  | handleDone g i =>
    exact ⟨w, by rwa [show (liveBus.step s (.handleDone g i)).2 = s from
      s.handleDone_of_open hdone g i]⟩

end

/-- Before the first `Start` nothing happens to a bus. -/
theorem fresh_step {op : LiveAction} (hop : op ≠ .life .start) :
    (liveBus.step {} op).2 = {} := by
  cases op with
  | life call =>
    cases call with
    | start => exact absurd rfl hop
    | stop => rfl
  | subscribe | unsubscribe | publish | dispatch | dispatchDone | handle | handleDone => rfl

/-- Only `Start` and `Stop` touch the flag and the context. -/
theorem flags_step (s : LiveBus) {op : LiveAction} (hop : ∀ call, op ≠ .life call) :
    (liveBus.step s op).2.started = s.started ∧ (liveBus.step s op).2.done = s.done := by
  cases op with
  | life call => exact absurd rfl (hop call)
  | unsubscribe n => exact ⟨rfl, rfl⟩
  | _ =>
    simp only [liveBus, LiveBus.subscribe, LiveBus.publish, LiveBus.dispatch,
      LiveBus.dispatchDone, LiveBus.handle, LiveBus.handleDone]
    repeat' split
    all_goals exact ⟨rfl, rfl⟩

/-! ## Histories of `Start` and `Stop` -/

/-- Some `Stop` comes after some `Start`. -/
def WasStopped (calls : List LifeCall) : Prop := List.Sublist [.start, .stop] calls

theorem wasStopped_iff_reverse : WasStopped calls ↔ List.Sublist [.stop, .start] calls.reverse :=
  List.reverse_sublist.symm

theorem wasStopped_concat_start : WasStopped (calls ++ [.start]) ↔ WasStopped calls := by
  simp [wasStopped_iff_reverse, List.sublist_cons_iff]

theorem wasStopped_concat_stop : WasStopped (calls ++ [.stop]) ↔ LifeCall.start ∈ calls := by
  rw [wasStopped_iff_reverse, List.reverse_concat, List.sublist_cons_iff]
  constructor
  · rintro (h | ⟨rest, hrest, h⟩)
    · exact List.mem_reverse.mp (h.subset (by simp))
    · obtain ⟨-, rfl⟩ := List.cons.inj hrest
      exact List.mem_reverse.mp (List.singleton_sublist.mp h)
  · intro h
    exact .inr ⟨[.start], rfl, List.singleton_sublist.mpr (List.mem_reverse.mpr h)⟩

theorem start_mem_iff :
    LifeCall.start ∈ calls ↔ WasStopped calls ∨ calls.getLast? = some .start := by
  induction calls using List.reverseRecOn with
  | nil => simp [WasStopped]
  | append_singleton calls call ih =>
    cases call with
    | start => simp
    | stop => simp [wasStopped_concat_stop]

structure Follows (calls : List LifeCall) (s : LiveBus) : Prop where
  started : s.started = true ↔ calls.getLast? = some .start
  done : s.done = true ↔ WasStopped calls
  once : s.done = false → s = {} ∨ ∃ w, Once s w

theorem follows_new : Follows [] {} where
  started := by simp
  done := by simp [WasStopped]
  once _ := .inl rfl

theorem Follows.start {calls : List LifeCall} (h : Follows calls s) :
    Follows (calls ++ [.start]) s.start where
  started := by
    rw [LiveBus.start]
    split
    · next hstarted => simp [hstarted]
    · simp
  done := by
    rw [wasStopped_concat_start, ← h.done, LiveBus.start]
    split <;> rfl
  once := by
    intro hdone
    right
    rw [LiveBus.start] at hdone ⊢
    split
    · next hstarted =>
      rw [if_pos hstarted] at hdone
      obtain rfl | honce := h.once hdone
      · cases hstarted
      · exact honce
    · next hstarted =>
      rw [if_neg hstarted] at hdone
      obtain rfl | ⟨w, honce⟩ := h.once hdone
      · exact ⟨{}, rfl, rfl, ⟨fun _ => rfl, fun _ => rfl⟩, [], rfl⟩
      · exact absurd honce.started hstarted

theorem Follows.stop {calls : List LifeCall} (h : Follows calls s) :
    Follows (calls ++ [.stop]) s.stop where
  started := by
    rw [LiveBus.stop]
    split
    · simp
    · next hstarted => simp [hstarted]
  done := by
    rw [wasStopped_concat_stop, start_mem_iff, ← h.done, ← h.started, LiveBus.stop]
    split
    · next hstarted => simp [hstarted]
    · next hstarted => simp [hstarted]
  once := by
    intro hdone
    rw [LiveBus.stop] at hdone ⊢
    split at hdone
    · cases hdone
    · next hstarted =>
      rw [if_neg hstarted]
      exact h.once hdone

theorem Follows.step {calls : List LifeCall} (h : Follows calls s)
    (op : LiveAction) : Follows (calls ++ lifeCalls [op]) (liveBus.step s op).2 := by
  by_cases hlife : ∃ call, op = .life call
  · obtain ⟨call, rfl⟩ := hlife
    cases call with
    | start => exact h.start
    | stop => exact h.stop
  · have hop : ∀ call, op ≠ .life call := fun call heq => hlife ⟨call, heq⟩
    have hcalls : lifeCalls [op] = [] := by
      cases op with
      | life call => exact absurd rfl (hop call)
      | _ => rfl
    obtain ⟨hstarted, hdone⟩ := flags_step s hop
    rw [hcalls, List.append_nil]
    refine ⟨by rw [hstarted, h.started], by rw [hdone, h.done], fun hdone' => ?_⟩
    rw [hdone] at hdone'
    obtain rfl | ⟨w, honce⟩ := h.once hdone'
    · exact .inl (fresh_step (hop .start))
    · exact .inr (honce.step hdone' (hop .stop))

theorem follows_run (ops : List LiveAction) : Follows (lifeCalls ops) (liveBus.run {} ops) := by
  induction ops using List.reverseRecOn with
  | nil => exact follows_new
  | append_singleton ops op ih =>
    rw [Machine.run_concat, lifeCalls, List.filterMap_append]
    exact ih.step op

theorem reachable_bus {ops : List LiveAction} (hstarted : (liveBus.run {} ops).started = true)
    (hdone : (liveBus.run {} ops).done = false) : ∃ w, Once (liveBus.run {} ops) w := by
  obtain hnew | honce := (follows_run ops).once hdone
  · rw [hnew] at hstarted
    cases hstarted
  · exact honce

/-- Workers that have not been told to exit are running: the context is open, and none of the
workers of some `Start` has returned. -/
structure Serving (s : LiveBus) : Prop where
  notDone : s.done = false
  workers : ∃ w ∈ s.workers, w.Running

theorem publish_eq_true {evt : Event} :
    (s.publish evt).1 = true ↔ s.started = true ∧ s.busChannel.length < eventQueueSize := by
  simp only [LiveBus.publish]
  cases s.started with
  | false => simp
  | true =>
    by_cases hroom : s.busChannel.length < eventQueueSize <;> simp [hroom]

theorem busChannel_life : (liveBus.run {} (calls.map .life)).busChannel = [] := by
  apply liveBus.run_induction (fun s => s.busChannel = []) (fun op => ∃ call, op = .life call)
  · rintro s op ⟨call, rfl⟩ hs
    cases call with
    | start =>
      show s.start.busChannel = []
      rw [LiveBus.start]
      split <;> exact hs
    | stop =>
      show s.stop.busChannel = []
      rw [LiveBus.stop]
      split <;> exact hs
  · intro op hop
    obtain ⟨call, -, rfl⟩ := List.mem_map.mp hop
    exact ⟨call, rfl⟩
  · rfl

/-- For every history of `Start` and `Stop`, whatever publishers, subscribers and workers do
meanwhile: an accepted event finds workers that were not told to exit, unless the bus was
stopped and started again. -/
theorem publish_serving_iff (calls : List LifeCall) :
    (∀ ops evt, lifeCalls ops = calls → ((liveBus.run {} ops).publish evt).1 = true →
      Serving (liveBus.run {} ops)) ↔
      ¬ (calls.getLast? = some .start ∧ WasStopped calls) := by
  constructor
  · rintro h ⟨hlast, hstopped⟩
    have hcalls : lifeCalls (calls.map .life) = calls := by
      simp [lifeCalls, List.filterMap_map]
    have hfollows := follows_run (calls.map .life)
    rw [hcalls] at hfollows
    have hserving := h (calls.map .life) ⟨[]⟩ hcalls
      (publish_eq_true.mpr ⟨hfollows.started.mpr hlast, by simp [busChannel_life, eventQueueSize]⟩)
    have hdone := hfollows.done.mpr hstopped
    rw [hserving.notDone] at hdone
    cases hdone
  · rintro h ops evt rfl hpublished
    have hfollows := follows_run ops
    have hstarted := (publish_eq_true.mp hpublished).1
    have hdone : (liveBus.run {} ops).done = false := by
      rw [← Bool.not_eq_true, hfollows.done]
      exact fun hstopped => h ⟨hfollows.started.mp hstarted, hstopped⟩
    obtain ⟨w, honce⟩ := reachable_bus hstarted hdone
    exact ⟨hdone, w, by simp [honce.workers], honce.running⟩

def restarted : List LiveAction :=
  [.life .start, .life .stop, .life .start] ++
    (List.finRange numberOfWorkers).flatMap fun i =>
      [.dispatchDone 0 i, .handleDone 0 i, .dispatchDone 1 i, .handleDone 1 i]

/-- `Publish` accepts an event, and there is no worker left to take it. -/
theorem restarted_accepts :
    ((liveBus.run {} restarted).publish ⟨["request"]⟩).1 = true ∧
      ∀ w ∈ (liveBus.run {} restarted).workers,
        ∀ i, w.dispatching i = false ∧ w.handling i = false := by
  decide +kernel

end Torii.Bus
