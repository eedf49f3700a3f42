import Torii.Proxy.Ports

/-!
# The system service

The calls of `managedService` in `internal/app/system.go` that change the registry of servers. An
edit consists of up to four calls on the registry, which are not interleaved with those of another
request. The notices to the ACME service are left out.
-/

namespace Torii.App

open Go Strconv Torii.Proxy Torii.Netutil
open Torii.Metrics (Manager serverIdOf)

inductive Wrapping where
  | startProxy
  | stopProxy
  | deleteProxy
  | addHttpListener
  | stopOld
  | deleteOld
  | recreate
  | startNew
  | edit
deriving DecidableEq

def Wrapping.text : Wrapping → String
  | .startProxy => "failed to start proxy server"
  | .stopProxy => "failed to stop proxy server"
  | .deleteProxy => "failed to delete proxy server"
  | .addHttpListener => "failed to add HTTP listener"
  | .stopOld => "failed to stop old proxy"
  | .deleteOld => "failed to delete old proxy"
  | .recreate => "failed to recreate proxy"
  | .startNew => "proxy recreated but failed to start"
  | .edit => "failed to edit proxy"

inductive SystemError where
  /-- The error of `DoesConfigRequireServerRestart`, as it is. -/
  | plain (cause : ProxyError)
  | wrapped (wrapping : Wrapping) (port : Int) (cause : ProxyError)
deriving DecidableEq

def SystemError.message (quote : String → String) : SystemError → String
  | .plain cause => cause.message quote
  | .wrapped wrapping port cause =>
    wrapping.text ++ " on port " ++ itoa port ++ ": " ++ cause.message quote

abbrev Service := Fallible ToriiProxy (Fault SystemError) Unit

/-- A call on the registry, with the words that are put before its error. -/
structure ProxyCall where
  wrapping : Wrapping
  port : Int
  op : Op

def ProxyCall.make (call : ProxyCall) : Service :=
  Fallible.mapError (Fault.map (.wrapped call.wrapping call.port)) fun m => torii.step m call.op

/-- Make calls one after the other and return the first error. -/
def perform : List ProxyCall → Service
  | [] => Fallible.ret ()
  | call :: calls => Fallible.andThen call.make fun _ => perform calls

structure EditEnv where
  build : Env
  net : Interfaces
  start : StartEnv
  /-- The error of `Shutdown`. -/
  shutdown : Option String := none
  /-- For `unchanged`. -/
  sameNils : Bool := true

def restartCalls (env : EditEnv) (port : Int) (conf : Listener) (wasStarted : Bool) :
    List ProxyCall :=
  (if wasStarted then [⟨.stopOld, port, .stopHttpProxy port env.shutdown⟩] else []) ++
    [⟨.deleteOld, port, .deleteHttpProxy port env.shutdown⟩,
      ⟨.recreate, port, .addHttpServer env.build env.net conf⟩] ++
    if wasStarted then [⟨.startNew, port, .startHttpProxy env.start port⟩] else []

def swapCall (env : EditEnv) (port : Int) (conf : Listener) : ProxyCall :=
  ⟨.edit, port, .hotSwapHandler env.build port conf env.sameNils⟩

def editCalls (env : EditEnv) (port : Int) (conf : Listener) (m : ToriiProxy) (restart : Bool) :
    List ProxyCall :=
  if restart then restartCalls env port conf (m.isStarted port) else [swapCall env port conf]

def editProxy (env : EditEnv) (port : Int) (conf : Listener) : Service := fun m =>
  match m.doesConfigRequireServerRestart port conf with
  | .error fault => (.error (fault.map .plain), m)
  | .ok requiresRestart => perform (editCalls env port conf m requiresRestart) m

def startProxy (env : StartEnv) (port : Int) : Service :=
  (ProxyCall.mk .startProxy port (.startHttpProxy env port)).make

def stopProxy (port : Int) (shutdown : Option String) : Service :=
  (ProxyCall.mk .stopProxy port (.stopHttpProxy port shutdown)).make

/-- The metrics manager of the service is the one of the registry. -/
def removeMetrics (port : Int) (m : ToriiProxy) : ToriiProxy :=
  { m with metricsManager := m.metricsManager.removeMetricsForServer (serverIdOf port) }

def deleteProxy (port : Int) (shutdown : Option String) : Service :=
  Fallible.andThen (ProxyCall.mk .deleteProxy port (.deleteHttpProxy port shutdown)).make
    fun _ m => (.ok (), removeMetrics port m)

def addHttpListener (env : Env) (net : Interfaces) (conf : Listener) : Service :=
  (ProxyCall.mk .addHttpListener conf.port (.addHttpServer env net conf)).make

inductive ServiceOp where
  | start (order : List Int) (env : Int → StartEnv)
  | stop (order : List Int) (shutdown : Int → Option String)
  | startProxy (env : StartEnv) (port : Int)
  | stopProxy (port : Int) (shutdown : Option String)
  | deleteProxy (port : Int) (shutdown : Option String)
  | addHttpListener (env : Env) (net : Interfaces) (conf : Listener)
  | editProxy (env : EditEnv) (port : Int) (conf : Listener)

/-- The service as a machine. Of `Start` and `Stop` only the calls on the registry are
modelled; neither of the two fails. -/
def service : Machine ToriiProxy ServiceOp (Except (Fault SystemError) Unit) where
  step m
    | .start order env => (.ok (), (m.startAll order env).2)
    | .stop order shutdown => (.ok (), (m.stopAll order shutdown).2)
    | .startProxy env port => startProxy env port m
    | .stopProxy port shutdown => stopProxy port shutdown m
    | .deleteProxy port shutdown => deleteProxy port shutdown m
    | .addHttpListener env net conf => addHttpListener env net conf m
    | .editProxy env port conf => editProxy env port conf m

/-! ## The operations of a call -/

variable {call : ProxyCall} {m m' : ToriiProxy}

theorem ProxyCall.make_of_ok (h : torii.step m call.op = (.ok (), m')) :
    call.make m = (.ok (), m') := by
  simp only [make, Fallible.mapError, h]

theorem ProxyCall.make_of_error {fault : Fault ProxyError}
    (h : torii.step m call.op = (.error fault, m')) :
    call.make m = (.error (fault.map (.wrapped call.wrapping call.port)), m') := by
  simp only [make, Fallible.mapError, h]

@[simp] theorem ProxyCall.make_snd (call : ProxyCall) (m : ToriiProxy) :
    (call.make m).2 = (torii.step m call.op).2 := by
  cases hstep : torii.step m call.op with
  | mk answer m' =>
    cases answer with
    | ok _ => rw [make_of_ok hstep]
    | error fault => rw [make_of_error hstep]

def performed : List ProxyCall → ToriiProxy → List Op
  | [], _ => []
  | call :: calls, m =>
    call.op ::
      match (torii.step m call.op).1 with
      | .ok _ => performed calls (torii.step m call.op).2
      | .error _ => []

theorem perform_snd (calls : List ProxyCall) (m : ToriiProxy) :
    (perform calls m).2 = torii.run m (performed calls m) := by
  induction calls generalizing m with
  | nil => rfl
  | cons call calls ih =>
    rw [perform, performed, Machine.run_cons, Fallible.andThen]
    cases hstep : torii.step m call.op with
    | mk answer m' =>
      cases answer with
      | ok _ => rw [ProxyCall.make_of_ok hstep, ih]
      | error fault =>
        rw [ProxyCall.make_of_error hstep]
        rfl

theorem perform_append (calls calls' : List ProxyCall) (m : ToriiProxy) :
    perform (calls ++ calls') m = Fallible.andThen (perform calls) (fun _ => perform calls') m := by
  induction calls generalizing m with
  | nil => rfl
  | cons call calls ih =>
    simp only [List.cons_append, perform, Fallible.andThen]
    cases hcall : call.make m with
    | mk answer m' =>
      cases answer with
      | ok _ => exact ih m'
      | error fault => rfl

def editOps (env : EditEnv) (port : Int) (conf : Listener) (m : ToriiProxy) : List Op :=
  match m.doesConfigRequireServerRestart port conf with
  | .error _ => []
  | .ok requiresRestart => performed (editCalls env port conf m requiresRestart) m

theorem editProxy_snd (env : EditEnv) (port : Int) (conf : Listener) (m : ToriiProxy) :
    (editProxy env port conf m).2 = torii.run m (editOps env port conf m) := by
  rw [editProxy, editOps]
  cases m.doesConfigRequireServerRestart port conf with
  | error fault => rfl
  | ok requiresRestart => exact perform_snd _ m

def ServiceOp.ops (m : ToriiProxy) : ServiceOp → List Op
  | .start order env => (Call.startAll order env).ops m
  | .stop order shutdown => (Call.stopAll order shutdown).ops m
  | .startProxy env port => [.startHttpProxy env port]
  | .stopProxy port shutdown => [.stopHttpProxy port shutdown]
  | .deleteProxy port shutdown => [.deleteHttpProxy port shutdown]
  | .addHttpListener env net conf => [.addHttpServer env net conf]
  | .editProxy env port conf => editOps env port conf m

theorem service_step_cases (m : ToriiProxy) (op : ServiceOp) :
    (service.step m op).2 = torii.run m (op.ops m) ∨ ∃ port shutdown,
      op = .deleteProxy port shutdown ∧
        (service.step m op).2 = removeMetrics port (torii.run m (op.ops m)) := by
  cases op with
  | start order env => exact .inl (step_call m (.startAll order env))
  | stop order shutdown => exact .inl (step_call m (.stopAll order shutdown))
  | startProxy | stopProxy | addHttpListener => exact .inl (ProxyCall.make_snd _ m)
  | deleteProxy port shutdown =>
    have hmake := ProxyCall.make_snd ⟨.deleteProxy, port, .deleteHttpProxy port shutdown⟩ m
    have hstep : (service.step m (.deleteProxy port shutdown)).2 =
        (deleteProxy port shutdown m).2 := rfl
    simp only [hstep, deleteProxy, Fallible.andThen]
    cases hcall : ProxyCall.make ⟨.deleteProxy, port, .deleteHttpProxy port shutdown⟩ m with
    | mk answer m' =>
      rw [hcall] at hmake
      cases answer with
      | ok _ => exact .inr ⟨port, shutdown, rfl, congrArg (removeMetrics port) hmake⟩
      | error fault => exact .inl hmake
  | editProxy env port conf => exact .inl (editProxy_snd env port conf m)

/-! ## Reachable states -/

theorem consistent_removeMetrics (h : Consistent m) (port : Int) :
    Consistent (removeMetrics port m) :=
  ⟨h.owned, h.wellFormed, h.listening⟩

theorem consistent_service_step (h : Consistent m) (op : ServiceOp) :
    Consistent (service.step m op).2 := by
  obtain hstep | ⟨port, shutdown, -, hstep⟩ := service_step_cases m op
  · rw [hstep]
    exact h.run _
  · rw [hstep]
    exact consistent_removeMetrics (h.run _) port

theorem consistent_service (dGlobal : GlobalDispatcher) (mgr : Manager) (hasAcmeService : Bool)
    (ops : List ServiceOp) :
    Consistent (service.run (.empty dGlobal mgr hasAcmeService) ops) :=
  service.run_invariant Consistent (fun _ op h => consistent_service_step h op)
    (.empty dGlobal mgr hasAcmeService) ops

end Torii.App
