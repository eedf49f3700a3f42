import Torii.Bus.Listeners
import Torii.Lib.Machine
import Torii.Lib.Pipeline

/-!
# The event bus

`internal/bus/event_bus.go` and `internal/bus/worker.go`, for a bus that was started and is not
stopped. Ten workers take events from a first channel and put a job for each callback into a second
one; ten others take the jobs and call the callbacks. What is done under a lock, and every operation
on a channel, is one step. An accepted event gets a number, which the source does not have.
-/

namespace Torii.Bus

def eventQueueSize : Nat := 1000

def handlerQueueSize : Nat := 5000

abbrev numberOfWorkers : Nat := 10

structure Event where
  topic : List Topic
deriving DecidableEq

structure Published where
  number : Nat
  event : Event
deriving DecidableEq

structure HandlerJob where
  event : Published
  handler : Nat
deriving DecidableEq

/-- `EventBus`; `queues` are the two channels and their workers. -/
structure EventBus where
  started : Bool
  listeners : Listeners
  accepted : Nat
  queues : Pipeline Published HandlerJob numberOfWorkers

namespace EventBus

def newEventBus : EventBus := ⟨false, .empty, 0, .empty⟩

/-- `Start`, the first time it is called. -/
def start (s : EventBus) : EventBus := { s with started := true }

/-- `Subscribe`. The result is the number of the subscription, which stands for the function
that the source returns. -/
def subscribe (s : EventBus) (topic : Topic) (handlerIsNil : Bool) :
    Except String Nat × EventBus :=
  if !s.started then (.error "event bus is not started", s)
  else if topic = "" then (.error "topic cannot be empty", s)
  else if handlerIsNil then (.error "handler cannot be nil", s)
  else
    (.ok s.listeners.returned.length, { s with listeners := s.listeners.subscribe topic })

def publish (s : EventBus) (evt : Event) : Bool × EventBus :=
  if !s.started then (false, s)
  else
    match s.queues.accept eventQueueSize ⟨s.accepted, evt⟩ with
    | some queues => (true, { s with queues := queues, accepted := s.accepted + 1 })
    | none => (false, s)

/-- The jobs for the callbacks that `dispatchEvent` collects under the lock. -/
def jobs (s : EventBus) (orders : List (List UInt32)) (x : Published) : List HandlerJob :=
  (s.listeners.handlers orders x.event.topic).map fun handler => ⟨x, handler⟩

/-- The next step of a worker in `dispatchMessages`. -/
def dispatchMessages (s : EventBus) (i : Fin numberOfWorkers) (orders : List (List UInt32)) :
    EventBus :=
  { s with queues := s.queues.senderStep handlerQueueSize (s.jobs orders) i }

/-- The next step of a worker in `handleMessages`, with the job whose callback is called. -/
def handleMessages (s : EventBus) (i : Fin numberOfWorkers) : Option HandlerJob × EventBus :=
  ((s.queues.runnerStep i).1, { s with queues := (s.queues.runnerStep i).2 })

end EventBus

/-- What can happen next. The step in which a callback ends is the same when it panics, since
`safeHandleEvent` recovers. -/
inductive BusAction where
  | subscribe (topic : Topic) (handlerIsNil : Bool)
  | unsubscribe (n : Nat)
  | publish (evt : Event)
  | dispatch (i : Fin numberOfWorkers) (orders : List (List UInt32))
  | handle (i : Fin numberOfWorkers) (panics : Bool)

inductive BusReply where
  | subscribed (result : Except String Nat)
  | unsubscribed
  | published (result : Bool)
  | dispatched
  | handled (job : Option HandlerJob)

@[simp] def BusReply.invoked : BusReply → List HandlerJob
  | .handled job => job.toList
  | _ => []

def bus : Machine EventBus BusAction BusReply where
  step s
    | .subscribe topic handlerIsNil =>
      (.subscribed (s.subscribe topic handlerIsNil).1, (s.subscribe topic handlerIsNil).2)
    | .unsubscribe n => (.unsubscribed, { s with listeners := s.listeners.unsubscribe n })
    | .publish evt => (.published (s.publish evt).1, (s.publish evt).2)
    | .dispatch i orders => (.dispatched, s.dispatchMessages i orders)
    | .handle i _ => (.handled (s.handleMessages i).1, (s.handleMessages i).2)

section

variable (s : EventBus)

@[simp] theorem step_subscribe (topic : Topic) (handlerIsNil : Bool) :
    bus.step s (.subscribe topic handlerIsNil) =
      (.subscribed (s.subscribe topic handlerIsNil).1, (s.subscribe topic handlerIsNil).2) := rfl

@[simp] theorem step_unsubscribe (n : Nat) :
    bus.step s (.unsubscribe n) =
      (.unsubscribed, { s with listeners := s.listeners.unsubscribe n }) := rfl

@[simp] theorem step_publish (evt : Event) :
    bus.step s (.publish evt) = (.published (s.publish evt).1, (s.publish evt).2) := rfl

@[simp] theorem step_dispatch (i : Fin numberOfWorkers) (orders : List (List UInt32)) :
    bus.step s (.dispatch i orders) = (.dispatched, s.dispatchMessages i orders) := rfl

@[simp] theorem step_handle (i : Fin numberOfWorkers) (panics : Bool) :
    bus.step s (.handle i panics) = (.handled (s.handleMessages i).1, (s.handleMessages i).2) :=
  rfl

end

def invocations (s : EventBus) (ops : List BusAction) : List HandlerJob :=
  bus.collect (fun s op => (bus.step s op).1.invoked) s ops

def startedBus : EventBus := EventBus.newEventBus.start

/-- There are fewer than `2^32` subscriptions, and every function that `Subscribe` returned is
called once at most. -/
def Proper (s : EventBus) : BusAction → Prop
  | .subscribe topic handlerIsNil =>
    (s.subscribe topic handlerIsNil).2.listeners.returned.length < UInt32.size
  | .unsubscribe n => (s.listeners.returned[n]?).map UnsubscribeFunc.calls = some 0
  | _ => True

instance (s : EventBus) : (op : BusAction) → Decidable (Proper s op)
  | .subscribe .. => inferInstanceAs (Decidable (_ < _))
  | .unsubscribe _ => inferInstanceAs (Decidable (_ = _))
  | .publish _ | .dispatch .. | .handle .. => isTrue trivial

end Torii.Bus
