import Torii.Proxy.Server

/-!
# The registry of servers

The operations of `proxy/proxy.go` on the two maps of servers, each under the lock of the registry
from start to end. An operation carries what its environment decides: the code that builders call,
the network interfaces, whether listening succeeds, and the error of `Shutdown`. Every server is in
at most one map under one port, so a change of a server is a change of its map entry.
-/

namespace Torii.Proxy

open Go Strconv Torii.Middleware Torii.Metrics Torii.Netutil

inductive ProxyError where
  | invalidPort (port : Int)
  | alreadyStarted (port : Int)
  | noStoppedServer (port : Int)
  | start (cause : StartError)
  | alreadyStopped (port : Int)
  | noStartedServer (port : Int)
  | shutdown (cause : String)
  | noStartedOrStoppedServer (port : Int)
  | buildServer (cause : ServerError)
  | noServer (port : Int)
  | buildChain (cause : BuildError)
  | proxyNotFound
deriving DecidableEq

def ProxyError.message (quote : String → String) : ProxyError → String
  | .invalidPort port => "invalid port number: " ++ itoa port
  | .alreadyStarted port => "proxy server already started on port " ++ itoa port
  | .noStoppedServer port => "no stopped HTTP server found for port " ++ itoa port
  | .start cause => cause.message
  | .alreadyStopped port => "proxy server already stopped on port " ++ itoa port
  | .noStartedServer port => "no started HTTP server found for port " ++ itoa port
  | .shutdown cause => cause
  | .noStartedOrStoppedServer port =>
    "no started or stopped HTTP server found for port " ++ itoa port
  | .buildServer cause => "failed to build HTTP server: " ++ cause.message quote
  | .noServer port => "no HTTP server found for port " ++ itoa port
  | .buildChain cause => "failed to build handler chain: " ++ cause.message quote
  | .proxyNotFound => "proxy does not exist"

abbrev Answer := Except (Fault ProxyError) Unit

/-- `Torii`. -/
structure ToriiProxy extends BuildState where
  stoppedHttpServers : GoMap Int MicroHttpServer := ∅
  startedHttpServers : GoMap Int MicroHttpServer := ∅
  /-- There is an `acmeService`. -/
  hasAcmeService : Bool := false

namespace ToriiProxy

def startHttpProxy (m : ToriiProxy) (env : StartEnv) (port : Int) : Answer × ToriiProxy :=
  if port ≤ 0 then (.error (.error (.invalidPort port)), m)
  else if (m.startedHttpServers.lookup port).isSome then
    (.error (.error (.alreadyStarted port)), m)
  else
    match m.stoppedHttpServers.lookup port with
    | none => (.error (.error (.noStoppedServer port)), m)
    | some server =>
      match server.start env m.hasAcmeService with
      | (.error e, server) =>
        (.error (.error (.start e)),
          { m with stoppedHttpServers := m.stoppedHttpServers.insert port server })
      | (.ok (), server) =>
        (.ok (),
          { m with
            startedHttpServers := m.startedHttpServers.insert port server
            stoppedHttpServers := m.stoppedHttpServers.erase port })

/-- `StopHttpProxy`; `shutdown` is the error of `Shutdown`. -/
def stopHttpProxy (m : ToriiProxy) (port : Int) (shutdown : Option String) : Answer × ToriiProxy :=
  if port ≤ 0 then (.error (.error (.invalidPort port)), m)
  else if (m.stoppedHttpServers.lookup port).isSome then
    (.error (.error (.alreadyStopped port)), m)
  else
    match m.startedHttpServers.lookup port with
    | none => (.error (.error (.noStartedServer port)), m)
    | some server =>
      match server.stop shutdown m.runtime with
      | (some cause, server, runtime) =>
        (.error (.error (.shutdown cause)),
          { m with
            runtime := runtime
            startedHttpServers := m.startedHttpServers.insert port server })
      | (none, server, runtime) =>
        (.ok (),
          { m with
            runtime := runtime
            stoppedHttpServers := m.stoppedHttpServers.insert port server
            startedHttpServers := m.startedHttpServers.erase port })

def deleteHttpProxy (m : ToriiProxy) (port : Int) (shutdown : Option String) :
    Answer × ToriiProxy :=
  if port ≤ 0 then (.error (.error (.invalidPort port)), m)
  else if (m.stoppedHttpServers.lookup port).isSome then
    (.ok (), { m with stoppedHttpServers := m.stoppedHttpServers.erase port })
  else
    match m.startedHttpServers.lookup port with
    | none => (.error (.error (.noStartedOrStoppedServer port)), m)
    | some server =>
      match server.stop shutdown m.runtime with
      | (some cause, server, runtime) =>
        (.error (.error (.shutdown cause)),
          { m with
            runtime := runtime
            startedHttpServers := m.startedHttpServers.insert port server })
      | (none, _, runtime) =>
        (.ok (),
          { m with
            runtime := runtime
            startedHttpServers := m.startedHttpServers.erase port })

def addHttpServer (m : ToriiProxy) (env : Env) (net : Interfaces) (conf : Listener) :
    Answer × ToriiProxy :=
  match buildHttpServer env net conf m.toBuildState with
  | (.error fault, s) => (.error (fault.map .buildServer), { m with toBuildState := s })
  | (.ok server, s) =>
    (.ok (),
      { m with
        toBuildState := s
        stoppedHttpServers := m.stoppedHttpServers.insert conf.port server })

/-- The server that `HotSwapHandler` and `DoesConfigRequireServerRestart` find. -/
def findServer (m : ToriiProxy) (port : Int) : Option MicroHttpServer :=
  match m.startedHttpServers.lookup port with
  | some server => some server
  | none => m.stoppedHttpServers.lookup port

/-- Change the server that `findServer` finds. -/
def updateServer (m : ToriiProxy) (port : Int) (server : MicroHttpServer) : ToriiProxy :=
  if (m.startedHttpServers.lookup port).isSome then
    { m with startedHttpServers := m.startedHttpServers.insert port server }
  else { m with stoppedHttpServers := m.stoppedHttpServers.insert port server }

/-- `HotSwapHandler`; for `sameNils` see `unchanged`. -/
def hotSwapHandler (m : ToriiProxy) (env : Env) (port : Int) (conf : Listener) (sameNils : Bool) :
    Answer × ToriiProxy :=
  match m.findServer port with
  | none => (.error (.error (.noServer port)), m)
  | some server =>
    if unchanged sameNils server.getCurrentConfig conf then (.ok (), m)
    else
      match buildRuntimeChain env server.getServerId conf.toHTTPListener m.toBuildState with
      | (.error fault, s) => (.error (fault.map .buildChain), { m with toBuildState := s })
      | (.ok (chain, built), s) =>
        let (server, runtime) := server.updateHandler chain s.runtime
        let server := server.updateServerMetadata built.backends built.routeSnapshots conf
        (.ok (), updateServer { m with toBuildState := { s with runtime } } port server)

def isStarted (m : ToriiProxy) (port : Int) : Bool := (m.startedHttpServers.lookup port).isSome

def getProxyConfig (m : ToriiProxy) (port : Int) : Option Listener :=
  match m.stoppedHttpServers.lookup port with
  | some server => some server.getCurrentConfig
  | none => (m.startedHttpServers.lookup port).map MicroHttpServer.getCurrentConfig

def doesConfigRequireServerRestart (m : ToriiProxy) (oldPort : Int) (newConf : Listener) :
    Except (Fault ProxyError) Bool :=
  match m.findServer oldPort with
  | none => .error (.error .proxyNotFound)
  | some server =>
    match server.doesConfigChangeRequireServerRestart newConf with
    | none => .error .crash
    | some required => .ok required

/-- `StartAll`: a server that does not start is skipped. The loop meets every key of the
map once, as it deletes no key but the one it is at. -/
def startAll (m : ToriiProxy) (order : List Int) (env : Int → StartEnv) : Answer × ToriiProxy :=
  (.ok (), (m.stoppedHttpServers.rangeKeys order).foldl
    (fun m port => (m.startHttpProxy (env port) port).2) m)

def stopAll (m : ToriiProxy) (order : List Int) (shutdown : Int → Option String) :
    Answer × ToriiProxy :=
  (.ok (), (m.startedHttpServers.rangeKeys order).foldl
    (fun m port => (m.stopHttpProxy port (shutdown port)).2) m)

end ToriiProxy

/-- A call on the registry, with what its environment decides. -/
inductive Op where
  | addHttpServer (env : Env) (net : Interfaces) (conf : Listener)
  | startHttpProxy (env : StartEnv) (port : Int)
  | stopHttpProxy (port : Int) (shutdown : Option String)
  | deleteHttpProxy (port : Int) (shutdown : Option String)
  | hotSwapHandler (env : Env) (port : Int) (conf : Listener) (sameNils : Bool)

def torii : Machine ToriiProxy Op Answer where
  step m
    | .addHttpServer env net conf => m.addHttpServer env net conf
    | .startHttpProxy env port => m.startHttpProxy env port
    | .stopHttpProxy port shutdown => m.stopHttpProxy port shutdown
    | .deleteHttpProxy port shutdown => m.deleteHttpProxy port shutdown
    | .hotSwapHandler env port conf sameNils => m.hotSwapHandler env port conf sameNils

/-- A call on the registry, the two that go through a whole map included. -/
inductive Call where
  | single (op : Op)
  | startAll (order : List Int) (env : Int → StartEnv)
  | stopAll (order : List Int) (shutdown : Int → Option String)

def toriiCalls : Machine ToriiProxy Call Answer where
  step m
    | .single op => torii.step m op
    | .startAll order env => m.startAll order env
    | .stopAll order shutdown => m.stopAll order shutdown

def Call.ops (m : ToriiProxy) : Call → List Op
  | .single op => [op]
  | .startAll order env =>
    (m.stoppedHttpServers.rangeKeys order).map fun port => .startHttpProxy (env port) port
  | .stopAll order shutdown =>
    (m.startedHttpServers.rangeKeys order).map fun port => .stopHttpProxy port (shutdown port)

theorem step_call (m : ToriiProxy) (call : Call) :
    (toriiCalls.step m call).2 = torii.run m (call.ops m) := by
  cases call with
  | single op => rfl
  | startAll | stopAll =>
    rw [Call.ops, Machine.run, List.foldl_map]
    rfl

/-- The part of `config.NetworkConfig` that is not a stub; TCP listeners are ignored. -/
structure NetworkConfig where
  httpListeners : List Listener := []
  global : Option GlobalConfig := none

def ToriiProxy.empty (gDispatcher : GlobalDispatcher) (metricsManager : Manager)
    (hasAcmeService : Bool) : ToriiProxy :=
  { gDispatcher, metricsManager, hasAcmeService }

/-- The loop of `initializeHttpNetworkStackFromConf`. -/
def addListeners (env : Env) (net : Interfaces) (m : ToriiProxy) :
    List Listener → Except (Fault ProxyError) ToriiProxy
  | [] => .ok m
  | conf :: listeners =>
    match m.addHttpServer env net conf with
    | (.error fault, _) => .error fault
    | (.ok (), m) => addListeners env net m listeners

/-- `NewTorii` with `initializeHttpNetworkStackFromConf`; nothing when it fails. -/
def newTorii (env : Env) (net : Interfaces) (conf : NetworkConfig) (mgr : Manager)
    (hasAcmeService : Bool) : Option ToriiProxy :=
  match initGlobalDispatcher env buildMiddlewareContext conf.global mgr with
  | (.error _, _) => none
  | (.ok dGlobal, mgr) =>
    (addListeners env net (.empty dGlobal mgr hasAcmeService) conf.httpListeners).toOption

variable {env : Env} {net : Interfaces} {m : ToriiProxy} {port : Int} {conf : Listener}

theorem addListeners_eq_run {m' : ToriiProxy}
    {listeners : List Listener} (h : addListeners env net m listeners = .ok m') :
    m' = torii.run m (listeners.map (.addHttpServer env net)) := by
  induction listeners generalizing m with
  | nil => exact (Except.ok.inj h).symm
  | cons conf listeners ih =>
    rw [addListeners] at h
    rw [List.map_cons, Machine.run_cons]
    split at h
    · exact absurd h (by simp)
    · next hadd =>
      rw [ih h]
      simp only [torii, hadd]

theorem newTorii_eq_run {conf : NetworkConfig} {mgr : Manager} {hasAcmeService : Bool}
    (h : newTorii env net conf mgr hasAcmeService = some m) :
    ∃ dGlobal mgr', initGlobalDispatcher env buildMiddlewareContext conf.global mgr =
        (.ok dGlobal, mgr') ∧
      m = torii.run (.empty dGlobal mgr' hasAcmeService)
        (conf.httpListeners.map (.addHttpServer env net)) := by
  rw [newTorii] at h
  split at h
  · exact absurd h (by simp)
  · next dGlobal mgr' hinit =>
    refine ⟨dGlobal, mgr', hinit, addListeners_eq_run ?_⟩
    cases hadd : addListeners env net (.empty dGlobal mgr' hasAcmeService) conf.httpListeners with
    | error fault =>
      rw [hadd] at h
      exact absurd h (by simp [Except.toOption])
    | ok m' =>
      rw [hadd] at h
      rw [Option.some.inj h]

/-! ## A small network -/

section

def smallEnv : Env where
  forward _ _ request := some request
  measure _ _ := ⟨"", 0, false, 0, 0, false, false, false, false, false, ""⟩
  lower := id
  muxAccepts _ _ := true
  muxSelect _ _ := none
  newReverseProxy _ _ := .ok ()
  newTrustedProxyResolver _ := .error "no valid trusted proxy CIDRs provided"

def smallNet : Interfaces := fun _ => .error "no such network interface"

def smallStart : StartEnv where
  listen _ _ := true

/-- A listener with a default route and no middlewares. -/
def smallListener (port : Int) : Listener where
  port := port
  bind := ipv4Flag
  default_ := some { backend := { address := "http://127.0.0.1:3000" }, disableDefaults := true }

def smallTorii : ToriiProxy := .empty {} .new false

def addSmall (port : Int) : Op := .addHttpServer smallEnv smallNet (smallListener port)

end

/-! ## What an operation does -/

namespace ToriiProxy

/-- The server that `StartHttpProxy` tries to start. -/
def startable (m : ToriiProxy) (port : Int) : Option MicroHttpServer :=
  if 0 < port ∧ m.startedHttpServers.lookup port = none then m.stoppedHttpServers.lookup port
  else none

/-- The server that `StopHttpProxy` stops, and `DeleteHttpProxy` too. -/
def stoppable (m : ToriiProxy) (port : Int) : Option MicroHttpServer :=
  if 0 < port ∧ m.stoppedHttpServers.lookup port = none then m.startedHttpServers.lookup port
  else none

/-- The server that `DeleteHttpProxy` drops as it is. -/
def droppable (m : ToriiProxy) (port : Int) : Option MicroHttpServer :=
  if 0 < port then m.stoppedHttpServers.lookup port else none

end ToriiProxy

/-- The chain that an operation sets out to build. -/
structure ChainRequest where
  env : Env
  serverId : String
  conf : HTTPListener

def ChainRequest.host (request : ChainRequest) :
    Build (Handler × List String × List RouteSnapshot) :=
  hostDispatcherOf request.env request.serverId request.conf

namespace Op

def request (m : ToriiProxy) : Op → Option ChainRequest
  | .addHttpServer env net conf =>
    match listenerAddresses net (applyDefaultTimeouts conf) with
    | .error _ => none
    | .ok _ => some ⟨env, serverIdOf conf.port, conf.toHTTPListener⟩
  | .hotSwapHandler env port conf sameNils =>
    match m.findServer port with
    | none => none
    | some server =>
      if unchanged sameNils server.getCurrentConfig conf then none
      else some ⟨env, server.getServerId, conf.toHTTPListener⟩
  | _ => none

def Refused (m : ToriiProxy) : Op → Prop
  | .addHttpServer _ net conf => ∃ e, listenerAddresses net (applyDefaultTimeouts conf) = .error e
  | .startHttpProxy _ port => m.startable port = none
  | .stopHttpProxy port _ => m.stoppable port = none
  | .deleteHttpProxy port _ => m.droppable port = none ∧ m.stoppable port = none
  | .hotSwapHandler _ port _ _ => m.findServer port = none

end Op

def MicroHttpServer.swapped (server : MicroHttpServer) (chain : Chain) (built : HandlerChain)
    (conf : Listener) : MicroHttpServer :=
  (server.withCore (server.core.updateHandler chain)).updateServerMetadata built.backends
    built.routeSnapshots conf

/-- What `buildHandlerChain` returns around a host dispatcher. -/
def BuildState.built (s : BuildState) (conf : HTTPListener) (host : Handler)
    (backends : List String) (snapshots : List RouteSnapshot) : HandlerChain :=
  ⟨(chainOf s conf host).handler, backends, withGlobalNames s.gDispatcher.globalMwNames snapshots⟩

/-- What an operation can do: its answer and the state afterwards. -/
inductive Transition (m : ToriiProxy) : Op → Answer → ToriiProxy → Prop where
  | refused {op : Op} (e : ProxyError) (hrefused : op.Refused m) :
      Transition m op (.error (.error e)) m
  | startFailed {env : StartEnv} {port : Int} {server : MicroHttpServer} (e : StartError)
      (httpServer : Option HttpServer) (errorMessage : String)
      (hserver : m.startable port = some server)
      (hstart : server.canStart env m.hasAcmeService = false) :
      Transition m (.startHttpProxy env port) (.error (.error (.start e)))
        { m with
          stoppedHttpServers := m.stoppedHttpServers.insert port
            (server.withCore { server.core with httpServer, errorMessage }) }
  | started {env : StartEnv} {port : Int} {server : MicroHttpServer} (httpServer : HttpServer)
      (hserver : m.startable port = some server)
      (hstart : server.canStart env m.hasAcmeService = true) :
      Transition m (.startHttpProxy env port) (.ok ())
        { m with
          startedHttpServers := m.startedHttpServers.insert port
            (server.withCore (server.core.opened httpServer))
          stoppedHttpServers := m.stoppedHttpServers.erase port }
  | shutdownFailed {op : Op} {port : Int} {shutdown : Option String} {server : MicroHttpServer}
      {cause : String}
      (hop : op = .stopHttpProxy port shutdown ∨ op = .deleteHttpProxy port shutdown)
      (hserver : m.stoppable port = some server)
      (hstop : (server.core.stop shutdown).1 = some cause) :
      Transition m op (.error (.error (.shutdown cause)))
        { m with
          runtime := m.runtime.cancelChain server.core.cancelChain
          startedHttpServers := m.startedHttpServers.insert port
            (server.withCore (server.core.stop shutdown).2) }
  | stopped {port : Int} {shutdown : Option String} {server : MicroHttpServer}
      (hserver : m.stoppable port = some server) (hstop : (server.core.stop shutdown).1 = none) :
      Transition m (.stopHttpProxy port shutdown) (.ok ())
        { m with
          runtime := m.runtime.cancelChain server.core.cancelChain
          stoppedHttpServers := m.stoppedHttpServers.insert port
            (server.withCore (server.core.stop shutdown).2)
          startedHttpServers := m.startedHttpServers.erase port }
  | deleted {port : Int} {shutdown : Option String} {server : MicroHttpServer}
      (hserver : m.stoppable port = some server) (hstop : (server.core.stop shutdown).1 = none) :
      Transition m (.deleteHttpProxy port shutdown) (.ok ())
        { m with
          runtime := m.runtime.cancelChain server.core.cancelChain
          startedHttpServers := m.startedHttpServers.erase port }
  | dropped {port : Int} {shutdown : Option String} {server : MicroHttpServer}
      (hserver : m.droppable port = some server) :
      Transition m (.deleteHttpProxy port shutdown) (.ok ())
        { m with stoppedHttpServers := m.stoppedHttpServers.erase port }
  | buildFailed {op : Op} {request : ChainRequest} {cause : BuildError} {manager : Manager}
      (e : ProxyError) (hrequest : op.request m = some request)
      (hhost : request.host m.metricsManager = (.error (.error cause), manager)) :
      Transition m op (.error (.error e))
        { m with
          metricsManager := manager
          runtime := m.runtime.create.cancel m.runtime.created }
  | crashed {op : Op} {request : ChainRequest} {failure : Failure} {manager : Manager}
      (hrequest : op.request m = some request) (hfailure : ∀ e, failure ≠ .error e)
      (hhost : request.host m.metricsManager = (.error failure, manager)) :
      Transition m op (.error .crash)
        { m with metricsManager := manager, runtime := m.runtime.create }
  | unchanged {env : Env} {port : Int} {conf : Listener} {sameNils : Bool}
      {server : MicroHttpServer} (hserver : m.findServer port = some server)
      (hsame : unchanged sameNils server.getCurrentConfig conf = true) :
      Transition m (.hotSwapHandler env port conf sameNils) (.ok ()) m
  | added {env : Env} {net : Interfaces} {conf : Listener} {ipv4 ipv6 : String} {host : Handler}
      {backends : List String} {snapshots : List RouteSnapshot} {manager : Manager}
      (haddresses : listenerAddresses net (applyDefaultTimeouts conf) = .ok (ipv4, ipv6))
      (hhost : hostDispatcherOf env (serverIdOf conf.port) conf.toHTTPListener m.metricsManager =
        (.ok (host, backends, snapshots), manager)) :
      Transition m (.addHttpServer env net conf) (.ok ())
        { m with
          toBuildState := m.issued conf.toHTTPListener host manager
          stoppedHttpServers := m.stoppedHttpServers.insert conf.port
            (newServer (applyDefaultTimeouts conf) ipv4 ipv6
              (chainOf m.toBuildState conf.toHTTPListener host)
              (m.built conf.toHTTPListener host backends snapshots)) }
  | swapped {env : Env} {port : Int} {conf : Listener} {sameNils : Bool}
      {server : MicroHttpServer} {host : Handler} {backends : List String}
      {snapshots : List RouteSnapshot} {manager : Manager}
      (hserver : m.findServer port = some server)
      (hchanged : unchanged sameNils server.getCurrentConfig conf = false)
      (hhost : hostDispatcherOf env server.getServerId conf.toHTTPListener m.metricsManager =
        (.ok (host, backends, snapshots), manager)) :
      Transition m (.hotSwapHandler env port conf sameNils) (.ok ())
        (ToriiProxy.updateServer
          { m with
            toBuildState :=
              { m.issued conf.toHTTPListener host manager with
                runtime := (m.issued conf.toHTTPListener host manager).runtime.cancelChain
                  server.core.cancelChain } } port
          (server.swapped (chainOf m.toBuildState conf.toHTTPListener host)
            (m.built conf.toHTTPListener host backends snapshots) conf))

theorem stoppable_eq_none (h : port ≤ 0 ∨ (m.stoppedHttpServers.lookup port).isSome ∨
      m.startedHttpServers.lookup port = none) : m.stoppable port = none := by
  rw [ToriiProxy.stoppable]
  split
  · next hguard =>
    obtain ⟨hpos, hstopped⟩ := hguard
    obtain hport | hsome | hnone := h
    · omega
    · simp [hstopped] at hsome
    · exact hnone
  · rfl

theorem transition_start (m : ToriiProxy) (env : StartEnv) (port : Int) :
    Transition m (.startHttpProxy env port) (m.startHttpProxy env port).1
      (m.startHttpProxy env port).2 := by
  rw [ToriiProxy.startHttpProxy]
  split
  · next hport =>
    refine .refused _ ?_
    rw [Op.Refused, ToriiProxy.startable, if_neg (by omega)]
  · next hport =>
    split
    · next hstarted =>
      refine .refused _ ?_
      rw [Op.Refused, ToriiProxy.startable, if_neg]
      rintro ⟨-, hnone⟩
      simp [hnone] at hstarted
    · next hstarted =>
      have hguard : m.startable port = m.stoppedHttpServers.lookup port := by
        rw [ToriiProxy.startable, if_pos ⟨by omega, by simpa using hstarted⟩]
      cases hserver : m.stoppedHttpServers.lookup port with
      | none => exact .refused _ (hguard.trans hserver)
      | some server =>
        have hserver' := hguard.trans hserver
        obtain ⟨hcan, httpServer, hrun⟩ | ⟨hcan, e, httpServer, errorMessage, hrun⟩ :=
          server.start_cases env m.hasAcmeService
        · simp only [hrun]
          exact .started httpServer hserver' hcan
        · simp only [hrun]
          exact .startFailed e httpServer errorMessage hserver' hcan

theorem transition_stop (m : ToriiProxy) (port : Int) (shutdown : Option String) :
    Transition m (.stopHttpProxy port shutdown) (m.stopHttpProxy port shutdown).1
      (m.stopHttpProxy port shutdown).2 := by
  rw [ToriiProxy.stopHttpProxy]
  split
  · next hport => exact .refused _ (stoppable_eq_none (.inl hport))
  · next hport =>
    split
    · next hstopped => exact .refused _ (stoppable_eq_none (.inr (.inl hstopped)))
    · next hstopped =>
      have hguard : m.stoppable port = m.startedHttpServers.lookup port := by
        rw [ToriiProxy.stoppable, if_pos ⟨by omega, by simpa using hstopped⟩]
      cases hserver : m.startedHttpServers.lookup port with
      | none => exact .refused _ (hguard.trans hserver)
      | some server =>
        simp only [MicroHttpServer.stop]
        cases hstop : (server.core.stop shutdown).1 with
        | none => exact .stopped (hguard.trans hserver) hstop
        | some cause => exact .shutdownFailed (.inl rfl) (hguard.trans hserver) hstop

theorem transition_delete (m : ToriiProxy) (port : Int) (shutdown : Option String) :
    Transition m (.deleteHttpProxy port shutdown) (m.deleteHttpProxy port shutdown).1
      (m.deleteHttpProxy port shutdown).2 := by
  rw [ToriiProxy.deleteHttpProxy]
  split
  · next hport =>
    refine .refused _ ⟨?_, stoppable_eq_none (.inl hport)⟩
    rw [ToriiProxy.droppable, if_neg (by omega)]
  · next hport =>
    have hdrop : m.droppable port = m.stoppedHttpServers.lookup port := by
      rw [ToriiProxy.droppable, if_pos (by omega)]
    split
    · next hstopped =>
      obtain ⟨server, hserver⟩ := Option.isSome_iff_exists.mp hstopped
      exact .dropped (hdrop.trans hserver)
    · next hstopped =>
      have hnone : m.stoppedHttpServers.lookup port = none := by simpa using hstopped
      have hguard : m.stoppable port = m.startedHttpServers.lookup port := by
        rw [ToriiProxy.stoppable, if_pos ⟨by omega, hnone⟩]
      cases hserver : m.startedHttpServers.lookup port with
      | none => exact .refused _ ⟨hdrop.trans hnone, hguard.trans hserver⟩
      | some server =>
        simp only [MicroHttpServer.stop]
        cases hstop : (server.core.stop shutdown).1 with
        | none => exact .deleted (hguard.trans hserver) hstop
        | some cause => exact .shutdownFailed (.inr rfl) (hguard.trans hserver) hstop

theorem request_add {addresses : String × String}
    (h : listenerAddresses net (applyDefaultTimeouts conf) = .ok addresses) :
    (Op.addHttpServer env net conf).request m =
      some ⟨env, serverIdOf conf.port, conf.toHTTPListener⟩ := by
  rw [Op.request, h]

variable {sameNils : Bool} {request : ChainRequest}

theorem request_hotSwap {server : MicroHttpServer} (hserver : m.findServer port = some server)
    (hchanged : unchanged sameNils server.getCurrentConfig conf = false) :
    (Op.hotSwapHandler env port conf sameNils).request m =
      some ⟨env, server.getServerId, conf.toHTTPListener⟩ := by
  simp [Op.request, hserver, hchanged]

theorem request_add_eq_some (h : (Op.addHttpServer env net conf).request m = some request) :
    request = ⟨env, serverIdOf conf.port, conf.toHTTPListener⟩ := by
  rw [Op.request] at h
  split at h
  · exact absurd h (by simp)
  · exact (Option.some.inj h).symm

theorem request_hotSwap_eq_some
    (h : (Op.hotSwapHandler env port conf sameNils).request m = some request) :
    ∃ server, m.findServer port = some server ∧
      request = ⟨env, server.getServerId, conf.toHTTPListener⟩ := by
  rw [Op.request] at h
  split at h
  · exact absurd h (by simp)
  · next server hserver =>
    split at h
    · exact absurd h (by simp)
    · exact ⟨server, hserver, (Option.some.inj h).symm⟩

theorem transition_add (m : ToriiProxy) (env : Env) (net : Interfaces) (conf : Listener) :
    Transition m (.addHttpServer env net conf) (m.addHttpServer env net conf).1
      (m.addHttpServer env net conf).2 := by
  rw [ToriiProxy.addHttpServer]
  cases haddresses : listenerAddresses net (applyDefaultTimeouts conf) with
  | error e =>
    rw [buildHttpServer_of_addresses_error haddresses]
    exact .refused _ ⟨e, haddresses⟩
  | ok addresses =>
    have hrequest := @request_add env net m conf addresses haddresses
    rw [buildHttpServer_of_addresses haddresses]
    obtain ⟨host, backends, snapshots, manager, hhost, hrun⟩ | ⟨e, manager, hhost, hrun⟩ |
      ⟨failure, manager, hfailure, hhost, hrun⟩ :=
      buildRuntimeChain_cases env (serverIdOf conf.port) conf.toHTTPListener m.toBuildState
    · simp only [hrun]
      exact .added haddresses hhost
    · simp only [hrun]
      exact .buildFailed _ hrequest hhost
    · simp only [hrun]
      exact .crashed hrequest hfailure hhost

theorem transition_hotSwap (m : ToriiProxy) (env : Env) (port : Int) (conf : Listener)
    (sameNils : Bool) :
    Transition m (.hotSwapHandler env port conf sameNils)
      (m.hotSwapHandler env port conf sameNils).1
      (m.hotSwapHandler env port conf sameNils).2 := by
  rw [ToriiProxy.hotSwapHandler]
  cases hserver : m.findServer port with
  | none => exact .refused _ hserver
  | some server =>
    cases hsame : unchanged sameNils server.getCurrentConfig conf with
    | true =>
      simp only [hsame, if_true]
      exact .unchanged hserver hsame
    | false =>
      have hrequest := @request_hotSwap env m port conf sameNils server hserver hsame
      obtain ⟨host, backends, snapshots, manager, hhost, hrun⟩ | ⟨e, manager, hhost, hrun⟩ |
        ⟨failure, manager, hfailure, hhost, hrun⟩ :=
        buildRuntimeChain_cases env server.getServerId conf.toHTTPListener m.toBuildState
      · simp only [hsame, hrun, Bool.false_eq_true, if_false]
        exact .swapped hserver hsame hhost
      · simp only [hsame, hrun, Bool.false_eq_true, if_false]
        exact .buildFailed _ hrequest hhost
      · simp only [hsame, hrun, Bool.false_eq_true, if_false]
        exact .crashed hrequest hfailure hhost

theorem transition (m : ToriiProxy) (op : Op) :
    Transition m op (torii.step m op).1 (torii.step m op).2 := by
  cases op with
  | addHttpServer env net conf => exact transition_add m env net conf
  | startHttpProxy env port => exact transition_start m env port
  | stopHttpProxy port shutdown => exact transition_stop m port shutdown
  | deleteHttpProxy port shutdown => exact transition_delete m port shutdown
  | hotSwapHandler env port conf sameNils => exact transition_hotSwap m env port conf sameNils

theorem request_eq_none_of_refused {op : Op} (h : op.Refused m) : op.request m = none := by
  cases op with
  | addHttpServer =>
    obtain ⟨e, he⟩ := h
    rw [Op.request, he]
  | hotSwapHandler env port =>
    rw [Op.request, show m.findServer port = none from h]
  | startHttpProxy | stopHttpProxy | deleteHttpProxy => rfl

theorem metricsManager_step (m : ToriiProxy) (op : Op) :
    (torii.step m op).2.metricsManager =
      match op.request m with
      | none => m.metricsManager
      | some request => (request.host m.metricsManager).2 := by
  have htransition := transition m op
  generalize (torii.step m op).1 = answer at htransition
  generalize (torii.step m op).2 = m' at htransition ⊢
  cases htransition with
  | refused e hrefused => rw [request_eq_none_of_refused hrefused]
  | startFailed | started => rfl
  | shutdownFailed hop =>
    obtain rfl | rfl := hop
    · rfl
    · rfl
  | stopped | deleted | dropped => rfl
  | buildFailed e hrequest hhost | crashed hrequest hfailure hhost => simp only [hrequest, hhost]
  | unchanged hserver hsame => simp [Op.request, hserver, hsame]
  | added haddresses hhost =>
    simp [request_add haddresses, ChainRequest.host, hhost, BuildState.issued]
  | swapped hserver hchanged hhost =>
    simp only [request_hotSwap hserver hchanged, ChainRequest.host, hhost,
      ToriiProxy.updateServer, BuildState.issued]
    split <;> rfl

end Torii.Proxy
