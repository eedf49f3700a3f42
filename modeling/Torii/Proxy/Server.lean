import Torii.Proxy.Listener

/-!
# The servers of the proxy

`proxy/http.go`, `proxy/https.go` and `buildHttpServer` of `proxy/config.go`, with
`GetNetworkBindAddressesFromInterface` of `internal/netutil/netutil.go`. `buildHandlerChain` makes a
runtime context for the chain; its parent is `context.Background()`, so nothing but `cancelChain`
cancels it. A context is the number of contexts made before it. The goroutines that accept
connections are left out.
-/

namespace Torii.Netutil

/-- An address of a network interface: a text, and whether the address is link-local. -/
inductive InterfaceAddr where
  | ip4 (text : String) (linkLocal : Bool)
  | ip6 (text : String) (linkLocal : Bool)
  /-- An address of another type, without an IP or of another length. -/
  | other

/-- `net.InterfaceByName` followed by `Addrs`. -/
abbrev Interfaces := String → Except String (List InterfaceAddr)

/-- The loop of `GetNetworkBindAddressesFromInterface`: the first address of each family. -/
def bindAddresses : String → String → List InterfaceAddr → String × String
  | ipv4, ipv6, [] => (ipv4, ipv6)
  | ipv4, ipv6, .ip4 text linkLocal :: addrs =>
    if linkLocal then bindAddresses ipv4 ipv6 addrs
    else bindAddresses (if ipv4 = "" then text else ipv4) ipv6 addrs
  | ipv4, ipv6, .ip6 text linkLocal :: addrs =>
    if linkLocal then bindAddresses ipv4 ipv6 addrs
    else
      let ipv6 := if ipv6 = "" then text else ipv6
      if ipv4 ≠ "" ∧ ipv6 ≠ "" then (ipv4, ipv6) else bindAddresses ipv4 ipv6 addrs
  | ipv4, ipv6, .other :: addrs => bindAddresses ipv4 ipv6 addrs

def getNetworkBindAddressesFromInterface (net : Interfaces) (ifName : String) :
    Except String (String × String) :=
  match net ifName with
  | .error e => .error e
  | .ok [] => .error ("no addresses found for interface " ++ ifName)
  | .ok addrs =>
    if bindAddresses "" "" addrs = ("", "") then
      .error ("no valid ip addresses found for interface " ++ ifName)
    else .ok (bindAddresses "" "" addrs)

end Torii.Netutil

namespace Torii.Proxy

open Go Strconv Torii.Middleware Torii.Metrics Torii.Netutil

/-- The outcome of a call that does not return a value: an error that it returns, or a
crash, when the mux panics, a nil pointer is read or the metrics manager exits. -/
inductive Fault (ε : Type) where
  | error (e : ε)
  | crash
deriving DecidableEq

def Fault.map {ε ε' : Type} (f : ε → ε') : Fault ε → Fault ε'
  | .error e => .error (f e)
  | .crash => .crash

/-! ## Runtime contexts -/

structure Runtime where
  created : Nat := 0
  cancelled : List Nat := []
  /-- The contexts whose chain was handed to a caller. -/
  issued : List Nat := []

namespace Runtime

/-- `context.WithCancel`: the new context is `created`. -/
def create (rt : Runtime) : Runtime := { rt with created := rt.created + 1 }

def cancel (rt : Runtime) (context : Nat) : Runtime :=
  { rt with cancelled := context :: rt.cancelled }

def issue (rt : Runtime) (context : Nat) : Runtime :=
  { rt with issued := context :: rt.issued }

/-- `if cancelChain != nil { cancelChain() }`. -/
def cancelChain (rt : Runtime) : Option Nat → Runtime
  | none => rt
  | some context => rt.cancel context

end Runtime

structure BuildState where
  gDispatcher : GlobalDispatcher
  metricsManager : Manager
  runtime : Runtime := {}

/-- The content of a `SwappableHandler`: a handler and the context it was built in. -/
structure Chain where
  context : Nat
  handler : GlobalDispatcher → Handler

/-- `buildHandlerChain` with its runtime context. The context of a chain that fails with
an error is cancelled. -/
def buildRuntimeChain (env : Env) (serverId : String) (conf : HTTPListener) :
    Fallible BuildState (Fault BuildError) (Chain × HandlerChain) := fun s =>
  let context := s.runtime.created
  match buildHandlerChain env buildMiddlewareContext serverId conf s.gDispatcher
      s.metricsManager with
  | (.ok (chain, dGlobal), manager) =>
    (.ok (⟨context, chain.handler⟩, chain), ⟨dGlobal, manager, s.runtime.create.issue context⟩)
  | (.error (.error e), manager) =>
    (.error (.error e), ⟨s.gDispatcher, manager, s.runtime.create.cancel context⟩)
  | (.error _, manager) => (.error .crash, ⟨s.gDispatcher, manager, s.runtime.create⟩)

/-! ## Server types -/

inductive CertificateSource where
  | acme
  | files
deriving DecidableEq

/-- `http.Server`, as `start` sets it up. -/
structure HttpServer extends Timeouts where
  /-- The handler is wrapped by `h2c.NewHandler`. -/
  h2c : Bool := false
  tlsConfig : Option CertificateSource := none
  /-- HTTP/2 is offered over TLS. -/
  http2 : Bool := false
deriving DecidableEq

/-- The fields that `ToriiHttpServer` and `ToriiHttpsServer` share. -/
structure ServerCore extends Timeouts where
  httpServer : Option HttpServer := none
  serverId : String
  handler : Chain
  cancelChain : Option Nat
  isStarted : Bool := false
  bindPort : Int
  iPV4BindInterface : String
  iPV6BindInterface : String
  middlewareChain : List String
  backends : List String
  routes : List RouteSnapshot
  errorMessage : String := ""
  currentConfig : Listener

structure ToriiHttpServer extends ServerCore where
  disableH2C : Bool

structure ToriiHttpsServer extends ServerCore where
  useAcme : Bool
  disableHTTP2 : Bool
  keyFilePath : String
  certFilepath : String

/-! ## Starting and stopping -/

/-- What the operating system and the libraries answer while a server starts. -/
structure StartEnv where
  /-- `net.Listen` succeeds for a network and an address. -/
  listen : String → String → Bool
  /-- The error of `http2.ConfigureServer`, if it fails. -/
  configureServer : Option String := none
  /-- `fsutil.FileExists`. -/
  fileExists : String → Bool := fun _ => false

inductive StartError where
  | noListeners (port : Int)
  | listenerCount (expected got : Nat)
  | noAcmeManager
  | http2 (cause : String)
  | noCertificate
deriving DecidableEq

def StartError.message : StartError → String
  | .noListeners port => "no listeners available for port " ++ itoa port
  | .listenerCount expected got =>
    "expected " ++ itoa expected ++ " listeners based on configuration but got " ++ itoa got
  | .noAcmeManager => "ACME is enabled but no ACME manager is configured"
  | .http2 cause => "failed to configure HTTP/2 for ACME server: " ++ cause
  | .noCertificate =>
    "HTTPS server cannot start: no ACME manager and no valid certificate/key files provided"

/-- `buildNetListeners`: the addresses that are listened on. -/
def buildNetListeners (env : StartEnv) (ipv4BindIf ipv6BindIf : String) (port : Int) :
    List String :=
  let addr4 := ipv4BindIf ++ ":" ++ itoa port
  let addr6 := "[" ++ ipv6BindIf ++ "]:" ++ itoa port
  (if ipv4BindIf ≠ "" ∧ env.listen "tcp4" addr4 then [addr4] else []) ++
    (if ipv6BindIf ≠ "" ∧ env.listen "tcp6" addr6 then [addr6] else [])

namespace ServerCore

def numberOfRequiredListeners (m : ServerCore) : Nat :=
  (if m.iPV4BindInterface ≠ "" then 1 else 0) + if m.iPV6BindInterface ≠ "" then 1 else 0

def listeners (env : StartEnv) (m : ServerCore) : List String :=
  buildNetListeners env m.iPV4BindInterface m.iPV6BindInterface m.bindPort

/-- A failed `start` leaves a message. -/
def failed (m : ServerCore) (errorMessage : String) : ServerCore :=
  { m with errorMessage := errorMessage }

/-- The end of a `start` that goes through. -/
def opened (m : ServerCore) (server : HttpServer) : ServerCore :=
  { m with httpServer := some server, isStarted := true, errorMessage := "" }

/-- The check of the listeners with which both versions of `start` begin: its error, and
the message that the server keeps. -/
def checkListeners (env : StartEnv) (kind : String) (m : ServerCore) :
    Option (StartError × String) :=
  let got := (m.listeners env).length
  let expected := m.numberOfRequiredListeners
  if got = 0 then
    some (.noListeners m.bindPort,
      "No listeners available to start " ++ kind ++ " server on port " ++ itoa m.bindPort)
  else if got ≠ expected then
    some (.listenerCount expected got,
      "Expected " ++ itoa expected ++ " listeners based on configuration but got " ++ itoa got ++
        ", cannot start " ++ kind ++ " server on port " ++ itoa m.bindPort)
  else none

theorem checkListeners_eq_none (env : StartEnv) (kind : String) (m : ServerCore) :
    m.checkListeners env kind = none ↔
      (m.listeners env).length ≠ 0 ∧ (m.listeners env).length = m.numberOfRequiredListeners := by
  rw [checkListeners]
  split
  · next hzero => simp [hzero]
  · next hpos =>
    split
    · next hne => simp [hne]
    · next heq => simpa [hpos] using heq

/-- `stop`, after the chain has been cancelled; `shutdown` is the error of `Shutdown`. -/
def stop (m : ServerCore) (shutdown : Option String) : Option String × ServerCore :=
  if m.httpServer.isNone then (none, m) else (shutdown, { m with isStarted := false })

def updateHandler (m : ServerCore) (chain : Chain) : ServerCore :=
  { m with cancelChain := some chain.context, handler := chain }

end ServerCore

def ToriiHttpServer.start (env : StartEnv) (m : ToriiHttpServer) :
    Except StartError Unit × ToriiHttpServer :=
  match m.checkListeners env "HTTP" with
  | some (e, message) => (.error e, { m with toServerCore := m.failed message })
  | none =>
    let server : HttpServer := { toTimeouts := m.toTimeouts, h2c := ! m.disableH2C }
    (.ok (), { m with toServerCore := m.opened server })

/-- `ToriiHttpsServer.start`; `hasTLS` says whether there is an ACME service to give a TLS
configuration. The new `http.Server` stays when a later check fails. -/
def ToriiHttpsServer.start (env : StartEnv) (hasTLS : Bool) (m : ToriiHttpsServer) :
    Except StartError Unit × ToriiHttpsServer :=
  match m.checkListeners env "HTTPS" with
  | some (e, message) => (.error e, { m with toServerCore := m.failed message })
  | none =>
    let server : HttpServer := { toTimeouts := m.toTimeouts }
    let acme : HttpServer := { server with tlsConfig := some .acme }
    if m.useAcme then
      if ! hasTLS then
        (.error .noAcmeManager,
          { m with
            httpServer := some server
            errorMessage := "ACME is enabled but no ACME manager is configured for port " ++
              itoa m.bindPort })
      else if m.disableHTTP2 then (.ok (), { m with toServerCore := m.opened acme })
      else
        match env.configureServer with
        | some cause =>
          (.error (.http2 cause),
            { m with
              httpServer := some acme
              errorMessage := "failed to configure HTTP/2 for ACME server: " ++ cause })
        | none => (.ok (), { m with toServerCore := m.opened { acme with http2 := true } })
    else if env.fileExists m.keyFilePath ∧ env.fileExists m.certFilepath then
      let files : HttpServer :=
        { server with tlsConfig := some .files, http2 := ! m.disableHTTP2 }
      (.ok (), { m with toServerCore := m.opened files })
    else
      (.error .noCertificate,
        { m with
          httpServer := some server
          errorMessage := "HTTPS server cannot start: no ACME manager and no valid " ++
            "certificate/key files provided for port " ++ itoa m.bindPort })

/-! ## Restart on a change of configuration -/

/-- The comparisons with which both versions of `DoesConfigChangeRequireServerRestart`
begin. -/
def bindingChanged (currentConfig newConf : Listener) : Bool :=
  currentConfig.bind != newConf.bind || currentConfig.interface != newConf.interface ||
    currentConfig.port != newConf.port || currentConfig.toTimeouts != newConf.toTimeouts ||
    newConf.disableHTTP2 != currentConfig.disableHTTP2

def ToriiHttpServer.doesConfigChangeRequireServerRestart (m : ToriiHttpServer)
    (newConf : Listener) : Bool :=
  bindingChanged m.currentConfig newConf || newConf.tls.isSome

/-- `ToriiHttpsServer.DoesConfigChangeRequireServerRestart`. It reads the TLS configuration
of the current configuration without asking whether there is one, and panics without. -/
def ToriiHttpsServer.doesConfigChangeRequireServerRestart (m : ToriiHttpsServer)
    (newConf : Listener) : Option Bool :=
  if bindingChanged m.currentConfig newConf then some true
  else
    match newConf.tls with
    | none => some true
    | some newTLS => m.currentConfig.tls.map fun tls => tls != newTLS

/-- `MicroHttpServer`, with the types that implement it. -/
inductive MicroHttpServer where
  | http (server : ToriiHttpServer)
  | https (server : ToriiHttpsServer)

namespace MicroHttpServer

def core : MicroHttpServer → ServerCore
  | .http server => server.toServerCore
  | .https server => server.toServerCore

def withCore (server : MicroHttpServer) (core : ServerCore) : MicroHttpServer :=
  match server with
  | .http server => .http { server with toServerCore := core }
  | .https server => .https { server with toServerCore := core }

def getServerId (server : MicroHttpServer) : String := server.core.serverId

def getCurrentConfig (server : MicroHttpServer) : Listener := server.core.currentConfig

def start (server : MicroHttpServer) (env : StartEnv) (hasTLS : Bool) :
    Except StartError Unit × MicroHttpServer :=
  match server with
  | .http server => ((server.start env).1, .http (server.start env).2)
  | .https server => ((server.start env hasTLS).1, .https (server.start env hasTLS).2)

def stop (server : MicroHttpServer) (shutdown : Option String) (rt : Runtime) :
    Option String × MicroHttpServer × Runtime :=
  ((server.core.stop shutdown).1, server.withCore (server.core.stop shutdown).2,
    rt.cancelChain server.core.cancelChain)

def updateHandler (server : MicroHttpServer) (chain : Chain) (rt : Runtime) :
    MicroHttpServer × Runtime :=
  (server.withCore (server.core.updateHandler chain), rt.cancelChain server.core.cancelChain)

/-- `DoesConfigChangeRequireServerRestart`; nothing when it panics. -/
def doesConfigChangeRequireServerRestart (server : MicroHttpServer) (newConf : Listener) :
    Option Bool :=
  match server with
  | .http server => some (server.doesConfigChangeRequireServerRestart newConf)
  | .https server => server.doesConfigChangeRequireServerRestart newConf

variable (server : MicroHttpServer) (env : StartEnv)

@[simp] theorem core_withCore (core : ServerCore) : (server.withCore core).core = core := by
  cases server with
  | http | https => rfl

def canListen (server : MicroHttpServer) (env : StartEnv) : Bool :=
  let ipv4 := server.core.iPV4BindInterface
  let ipv6 := server.core.iPV6BindInterface
  let port := itoa server.core.bindPort
  (ipv4 != "" || ipv6 != "") && (ipv4 == "" || env.listen "tcp4" (ipv4 ++ ":" ++ port)) &&
    (ipv6 == "" || env.listen "tcp6" ("[" ++ ipv6 ++ "]:" ++ port))

def hasCertificates (server : MicroHttpServer) (env : StartEnv) (hasTLS : Bool) : Bool :=
  match server with
  | .http _ => true
  | .https server =>
    if server.useAcme then hasTLS && (server.disableHTTP2 || env.configureServer.isNone)
    else env.fileExists server.keyFilePath && env.fileExists server.certFilepath

def canStart (server : MicroHttpServer) (env : StartEnv) (hasTLS : Bool) : Bool :=
  server.canListen env && server.hasCertificates env hasTLS

theorem checkListeners_eq_none_iff (kind : String) :
    server.core.checkListeners env kind = none ↔ server.canListen env = true := by
  rw [ServerCore.checkListeners_eq_none, ServerCore.listeners, buildNetListeners,
    ServerCore.numberOfRequiredListeners, canListen]
  by_cases h4 : server.core.iPV4BindInterface = "" <;>
    by_cases h6 : server.core.iPV6BindInterface = "" <;>
      simp only [h4, h6, List.length_append] <;> grind

theorem start_cases (hasTLS : Bool) :
    (server.canStart env hasTLS = true ∧ ∃ httpServer,
        server.start env hasTLS = (.ok (), server.withCore (server.core.opened httpServer))) ∨
      (server.canStart env hasTLS = false ∧ ∃ e httpServer errorMessage,
        server.start env hasTLS =
          (.error e, server.withCore { server.core with httpServer, errorMessage })) := by
  cases server with
  | http server =>
    have hlisten := checkListeners_eq_none_iff (.http server) env "HTTP"
    rw [canStart, hasCertificates, Bool.and_true, start, ToriiHttpServer.start]
    cases hcheck : server.checkListeners env "HTTP" with
    | none => exact .inl ⟨hlisten.mp hcheck, _, rfl⟩
    | some failure =>
      refine .inr ⟨?_, failure.1, server.httpServer, failure.2, rfl⟩
      rw [← Bool.not_eq_true, ← hlisten]
      simp [core, hcheck]
  | https server =>
    obtain ⟨core, useAcme, disableHTTP2, keyFilePath, certFilepath⟩ := server
    have hlisten := checkListeners_eq_none_iff
      (.https ⟨core, useAcme, disableHTTP2, keyFilePath, certFilepath⟩) env "HTTPS"
    rw [canStart, hasCertificates, start, ToriiHttpsServer.start]
    cases hcheck : core.checkListeners env "HTTPS" with
    | some failure =>
      refine .inr ⟨?_, failure.1, core.httpServer, failure.2, rfl⟩
      rw [Bool.and_eq_false_iff, ← Bool.not_eq_true, ← hlisten]
      exact .inl (by simp [MicroHttpServer.core, hcheck])
    | none =>
      rw [hlisten.mp hcheck, Bool.true_and]
      cases useAcme with
      | true =>
        cases hasTLS <;> cases disableHTTP2 <;> cases env.configureServer <;>
          first | exact .inl ⟨rfl, _, rfl⟩ | exact .inr ⟨rfl, _, _, _, rfl⟩
      | false =>
        simp only [Bool.false_eq_true, if_false]
        by_cases hfiles : env.fileExists keyFilePath ∧ env.fileExists certFilepath
        · rw [if_pos hfiles]
          exact .inl ⟨by simp [hfiles], _, rfl⟩
        · rw [if_neg hfiles]
          refine .inr ⟨?_, _, _, _, rfl⟩
          rw [← Bool.not_eq_true, Bool.and_eq_true]
          exact hfiles

end MicroHttpServer

/-! ## Building a server -/

/-- One turn of the loops of `collectMiddlewareNames`. -/
def noteName (names : List String) (n : String) : List String :=
  if n ∈ names then names else names ++ [n]

def collectMiddlewareNames (routes : List RouteSnapshot) : List String :=
  routes.foldl (fun names r =>
    (r.globalMiddlewares ++ r.middlewares ++ r.paths.flatMap PathSnapshot.middlewares).foldl
      noteName names) []

def MicroHttpServer.updateServerMetadata (server : MicroHttpServer) (backends : List String)
    (routes : List RouteSnapshot) (conf : Listener) : MicroHttpServer :=
  server.withCore
    { server.core with
      middlewareChain := collectMiddlewareNames routes
      backends := backends
      routes := routes
      currentConfig := conf }

inductive ServerError where
  | bindAddresses (interface cause : String)
  | noIPv4 (interface : String)
  | noIPv6 (interface : String)
  | handlerChain (cause : BuildError)
deriving DecidableEq

def ServerError.message (quote : String → String) : ServerError → String
  | .bindAddresses interface cause =>
    "failed to get bind addresses from interface " ++ interface ++ ": " ++ cause
  | .noIPv4 interface => "IPv4 bind interface " ++ interface ++ " has no valid IPv4 address"
  | .noIPv6 interface => "IPv6 bind interface " ++ interface ++ " has no valid IPv6 address"
  | .handlerChain cause => cause.message quote

def listenerAddresses (net : Interfaces) (conf : Listener) :
    Except ServerError (String × String) :=
  let found :=
    if conf.interface = "" then .ok ("0.0.0.0", "::")
    else getNetworkBindAddressesFromInterface net conf.interface
  match found with
  | .error cause => .error (.bindAddresses conf.interface cause)
  | .ok (ipv4, ipv6) =>
    if conf.bind &&& ipv4Flag ≠ 0 ∧ ipv4 = "" then .error (.noIPv4 conf.interface)
    else if conf.bind &&& ipv6Flag ≠ 0 ∧ ipv6 = "" then .error (.noIPv6 conf.interface)
    else .ok (ipv4, ipv6)

/-- The server that `buildHttpServer` makes from a configuration with its timeouts. -/
def newServer (conf : Listener) (ipv4 ipv6 : String) (chain : Chain) (built : HandlerChain) :
    MicroHttpServer :=
  let core : ServerCore :=
    { toTimeouts := conf.toTimeouts
      serverId := serverIdOf conf.port
      handler := chain
      cancelChain := some chain.context
      bindPort := conf.port
      iPV4BindInterface := ipv4
      iPV6BindInterface := ipv6
      middlewareChain := collectMiddlewareNames built.routeSnapshots
      backends := built.backends
      routes := built.routeSnapshots
      currentConfig := conf }
  match conf.tls with
  | some tls =>
    .https
      { toServerCore := core
        useAcme := tls.useAcme
        disableHTTP2 := conf.disableHTTP2
        keyFilePath := tls.key
        certFilepath := tls.cert }
  | none => .http { toServerCore := core, disableH2C := conf.disableHTTP2 }

def buildHttpServer (env : Env) (net : Interfaces) (conf : Listener) :
    Fallible BuildState (Fault ServerError) MicroHttpServer := do
  let conf := applyDefaultTimeouts conf
  let (ipv4, ipv6) ← Fallible.mapError .error (Fallible.ofExcept (listenerAddresses net conf))
  let (chain, built) ← Fallible.mapError (Fault.map .handlerChain)
    (buildRuntimeChain env (serverIdOf conf.port) conf.toHTTPListener)
  pure (newServer conf ipv4 ipv6 chain built)

/-! ## What a build does -/

/-- The host dispatcher of a listener, as `buildHandlerChain` builds it. -/
def hostDispatcherOf (env : Env) (serverId : String) (conf : HTTPListener) :
    Build (Handler × List String × List RouteSnapshot) :=
  buildHostDispatcher env ((buildMiddlewareContext.withPort conf.port).withServerId serverId)
    conf.default_ conf.routes

def withGlobalNames (names : List String) (snapshots : List RouteSnapshot) :
    List RouteSnapshot :=
  if names.isEmpty then snapshots
  else snapshots.map fun snapshot => { snapshot with globalMiddlewares := names }

def chainOf (s : BuildState) (conf : HTTPListener) (host : Handler) : Chain :=
  ⟨s.runtime.created, (s.gDispatcher.registerHandler conf.port host).1⟩

def BuildState.issued (s : BuildState) (conf : HTTPListener) (host : Handler)
    (manager : Manager) : BuildState :=
  ⟨(s.gDispatcher.registerHandler conf.port host).2, manager,
    s.runtime.create.issue s.runtime.created⟩

@[simp] theorem globalMwNames_registerHandler (d : GlobalDispatcher) (port : Int)
    (host : Handler) : (d.registerHandler port host).2.globalMwNames = d.globalMwNames := by
  rw [GlobalDispatcher.registerHandler]
  split <;> rfl

variable {env : Env} {conf : HTTPListener} {serverId : String}
  {d : GlobalDispatcher} {host : Handler} {backends : List String}
  {snapshots : List RouteSnapshot} {net : Interfaces}

theorem buildHandlerChain_of_ok {m m' : Manager}
    (h : hostDispatcherOf env serverId conf m = (.ok (host, backends, snapshots), m')) :
    buildHandlerChain env buildMiddlewareContext serverId conf d m =
      (.ok (⟨(d.registerHandler conf.port host).1, backends,
        withGlobalNames d.globalMwNames snapshots⟩, (d.registerHandler conf.port host).2), m') := by
  change Fallible.andThen (Fallible.mapError _ (hostDispatcherOf env serverId conf)) _ m = _
  simp only [Fallible.andThen, Fallible.mapError, h, globalMwNames_registerHandler]
  rfl

theorem buildHandlerChain_of_error {m m' : Manager} {failure : Failure}
    (h : hostDispatcherOf env serverId conf m = (.error failure, m')) :
    buildHandlerChain env buildMiddlewareContext serverId conf d m =
      (.error (wrapError .hostDispatcher failure), m') := by
  change Fallible.andThen (Fallible.mapError _ (hostDispatcherOf env serverId conf)) _ m = _
  simp only [Fallible.andThen, Fallible.mapError, h]

theorem buildRuntimeChain_of_ok
    {s : BuildState}
    {manager : Manager} (h : hostDispatcherOf env serverId conf s.metricsManager =
      (.ok (host, backends, snapshots), manager)) :
    buildRuntimeChain env serverId conf s =
      (.ok (chainOf s conf host, ⟨(chainOf s conf host).handler, backends,
        withGlobalNames s.gDispatcher.globalMwNames snapshots⟩), s.issued conf host manager) := by
  rw [buildRuntimeChain, buildHandlerChain_of_ok h]
  rfl

theorem buildRuntimeChain_cases (env : Env) (serverId : String) (conf : HTTPListener)
    (s : BuildState) :
    (∃ host backends snapshots manager,
        hostDispatcherOf env serverId conf s.metricsManager =
          (.ok (host, backends, snapshots), manager) ∧
        buildRuntimeChain env serverId conf s =
          (.ok (chainOf s conf host, ⟨(chainOf s conf host).handler, backends,
            withGlobalNames s.gDispatcher.globalMwNames snapshots⟩), s.issued conf host manager)) ∨
      (∃ e manager,
        hostDispatcherOf env serverId conf s.metricsManager = (.error (.error e), manager) ∧
        buildRuntimeChain env serverId conf s =
          (.error (.error (.hostDispatcher e)),
            ⟨s.gDispatcher, manager, s.runtime.create.cancel s.runtime.created⟩)) ∨
      ∃ failure manager, (∀ e, failure ≠ .error e) ∧
        hostDispatcherOf env serverId conf s.metricsManager = (.error failure, manager) ∧
        buildRuntimeChain env serverId conf s =
          (.error .crash, ⟨s.gDispatcher, manager, s.runtime.create⟩) := by
  cases hhost : hostDispatcherOf env serverId conf s.metricsManager with
  | mk result manager =>
    cases result with
    | ok built =>
      obtain ⟨host, backends, snapshots⟩ := built
      exact .inl ⟨host, backends, snapshots, manager, rfl, buildRuntimeChain_of_ok hhost⟩
    | error failure =>
      cases failure with
      | error e =>
        refine .inr (.inl ⟨e, manager, rfl, ?_⟩)
        rw [buildRuntimeChain, buildHandlerChain_of_error hhost]
        rfl
      | panic | fatal =>
        refine .inr (.inr ⟨_, manager, by simp, rfl, ?_⟩)
        rw [buildRuntimeChain, buildHandlerChain_of_error hhost]
        rfl

/-- `buildHttpServer` without addresses to bind to. -/
theorem buildHttpServer_of_addresses_error {conf : Listener} {e : ServerError}
    (h : listenerAddresses net (applyDefaultTimeouts conf) = .error e) (s : BuildState) :
    buildHttpServer env net conf s = (.error (.error e), s) := by
  change Fallible.andThen (Fallible.mapError _ (Fallible.ofExcept
    (listenerAddresses net (applyDefaultTimeouts conf)))) _ s = _
  rw [h]
  rfl

theorem buildHttpServer_of_addresses {conf : Listener} {ipv4 ipv6 : String}
    (h : listenerAddresses net (applyDefaultTimeouts conf) = .ok (ipv4, ipv6)) (s : BuildState) :
    buildHttpServer env net conf s =
      match buildRuntimeChain env (serverIdOf conf.port) conf.toHTTPListener s with
      | (.ok (chain, built), s') =>
        (.ok (newServer (applyDefaultTimeouts conf) ipv4 ipv6 chain built), s')
      | (.error fault, s') => (.error (fault.map .handlerChain), s') := by
  change Fallible.andThen (Fallible.mapError _ (Fallible.ofExcept
    (listenerAddresses net (applyDefaultTimeouts conf)))) _ s = _
  rw [h]
  change Fallible.andThen (Fallible.mapError _
    (buildRuntimeChain env (serverIdOf conf.port) conf.toHTTPListener)) _ s = _
  rw [Fallible.andThen, Fallible.mapError]
  cases buildRuntimeChain env (serverIdOf conf.port) conf.toHTTPListener s with
  | mk result s' =>
    cases result with
    | ok | error => rfl

end Torii.Proxy
