import Torii.Proxy.HostTrie
import Torii.Proxy.PathDispatcher

/-!
# The handler of a listener

`proxy/host_dispatcher.go`, `proxy/global_dispatcher.go` and `buildHandlerChain` of
`proxy/config.go`. The global chain is kept as a function of its innermost handler, and the handler
of a listener takes the dispatcher as it is when a request arrives. The event published for a
processed request is left out; `InjectContextStruct` calls the next handler once.
-/

namespace Torii.Proxy

open Go Go.Http Torii.Middleware Torii.TrustedProxy

structure RouteTarget where
  backend : BackendConfig
  middlewares : ConfigSlice := .empty
  paths : List PathRule := []
  disableDefaults : Bool := false
  trustedProxies : Option TrustedProxiesConfig := none

structure Route where
  host : String
  target : RouteTarget

/-- The part of `config.HTTPListener` that the handler chain depends on. -/
structure HTTPListener where
  port : Int
  routes : List Route := []
  default_ : Option RouteTarget := none

structure GlobalConfig where
  middlewares : ConfigSlice := .empty
  disableDefaults : Bool := false
  trustedProxies : Option TrustedProxiesConfig := none

structure RouteSnapshot where
  host : String := ""
  backend : String
  middlewares : List String
  globalMiddlewares : List String := []
  paths : List PathSnapshot

section

variable (env : Env)

/-- The handler below the middlewares of a route, without its path rules. -/
def routeBaseHandler (target : RouteTarget) : Except Failure Handler :=
  if target.backend.address ≠ "" then
    let opts : ProxyOptions :=
      { replaceHostHeader := target.backend.replaceHostHeader, tls := target.backend.tls }
    match env.newReverseProxy target.backend.address opts with
    | .error cause => .error (.error (.routeReverseProxy target.backend.address cause))
    | .ok () => .ok fun _ => [.proxied target.backend.address]
  else if ! hasTerminatingMiddleware target.middlewares.configs then .error (.error .nothingToServe)
  else .ok fun _ => [.answered "no backend configured"]

def buildRoutePaths (ctx : BuildContext) (baseHandler : Handler) (target : RouteTarget) :
    Build (Handler × List String × List PathSnapshot) :=
  if target.paths.length > 0 then
    Fallible.mapError (wrapError (.pathDispatcher target.backend.address))
      (buildPathDispatcher env ctx baseHandler target.paths)
  else pure (baseHandler, [], [])

def buildRouteHandler (ctx : BuildContext) (target : RouteTarget) :
    Build (Handler × List String × RouteSnapshot) := do
  let baseHandler ← Fallible.ofExcept (routeBaseHandler env target)
  let (baseHandler, backends, pathSnapshots) ← buildRoutePaths env ctx baseHandler target
  let (chain, appliedMw) ← Fallible.mapError (wrapError (.middlewareChain target.backend.address))
    (buildMiddlewareChain env.toEnv ctx target.middlewares.configs target.disableDefaults)
  pure (wrapTrustedProxies env (chain baseHandler) target.trustedProxies, backends,
    { backend := target.backend.address, middlewares := middlewareNames appliedMw,
      paths := pathSnapshots })

structure VirtualHostDispatcher where
  routeTrie : HostTrie Handler := .new
  default_ : Option Handler := none

def VirtualHostDispatcher.serveHTTP (d : VirtualHostDispatcher) : Handler := fun r =>
  let host :=
    if Strings.contains r.host ":" then (Net.splitHostPort r.host).map Prod.fst else some r.host
  match host with
  | none => [.answered "Bad Gateway"]
  | some host =>
    match d.routeTrie.contains env.lower host with
    | some handler => handler r
    | none =>
      match d.default_ with
      | some handler => handler r
      | none => [.answered "Bad Gateway"]

structure HostBuild where
  routeTrie : HostTrie Handler := .new
  backends : List String := []
  snapshots : List RouteSnapshot := []

/-- One turn of the loop of `buildHostDispatcher`: a route that cannot be built is skipped. -/
def addRoute (ctx : BuildContext) (acc : HostBuild) (route : Route) : Build HostBuild := do
  if route.host = "" then pure acc
  else
    let built ← Fallible.attempt (buildRouteHandler env (ctx.withHost route.host) route.target)
    match built with
    | .error (.error _) => pure acc
    | .error failure => .throw failure
    | .ok (handler, pathBackends, snapshot) =>
      pure
        { routeTrie := acc.routeTrie.insertHost env.lower route.host (some handler)
          backends := acc.backends ++ [route.target.backend.address] ++ pathBackends
          snapshots := acc.snapshots ++ [{ snapshot with host := route.host }] }

def buildDefault (ctx : BuildContext) (defaultTarget : Option RouteTarget) :
    Build (Option Handler × List String × List RouteSnapshot) :=
  match defaultTarget with
  | none => pure (none, [], [])
  | some target => do
      let (handler, pathBackends, snapshot) ←
        Fallible.mapError (wrapError .defaultRoute)
          (buildRouteHandler env (ctx.withHost "_default") target)
      pure (some handler, [target.backend.address] ++ pathBackends, [snapshot])

def buildHostDispatcher (ctx : BuildContext) (defaultTarget : Option RouteTarget)
    (routes : List Route) : Build (Handler × List String × List RouteSnapshot) := do
  let acc ← routes.foldlM (addRoute env ctx) {}
  let (default_, backends, snapshots) ← buildDefault env ctx defaultTarget
  if ! acc.routeTrie.hasAnyEntry ∧ default_.isNone then .throw (.error .noValidRoutes)
  else
    let d : VirtualHostDispatcher := { routeTrie := acc.routeTrie, default_ := default_ }
    pure (d.serveHTTP env, acc.backends ++ backends, acc.snapshots ++ snapshots)

structure GlobalDispatcher where
  globalConfig : Option GlobalConfig := none
  globalMwNames : List String := []
  registeredHandlers : GoMap Int Handler := ∅
  globalChain : Option (Handler → Handler) := none

/-- `GlobalDispatcher.ServeHTTP`: without a port in the context the port is zero. -/
def GlobalDispatcher.serveHTTP (d : GlobalDispatcher) : Handler := fun r =>
  match d.registeredHandlers.lookup (r.dispatchPort.getD 0) with
  | some handler => handler r
  | none => [.answered "No handler registered"]

/-- `registerHandler`: the handler it returns, and the dispatcher afterwards. -/
def GlobalDispatcher.registerHandler (d : GlobalDispatcher) (port : Int) (next : Handler) :
    (GlobalDispatcher → Handler) × GlobalDispatcher :=
  match d.globalConfig, d.globalChain with
  | some _, some globalChain =>
    (fun d r => globalChain d.serveHTTP { r with dispatchPort := some port },
      { d with registeredHandlers := d.registeredHandlers.insert port next })
  | _, _ => (fun _ => next, d)

def buildGlobalChain (ctx : BuildContext) (global : GlobalConfig) :
    Build ((Handler → Handler) × List String) :=
  if global.middlewares.configs.length > 0 then do
    let ctx := (ctx.withServerId "global").withOverrideMetricsName "global"
    let (wrapped, appliedMw) ←
      buildMiddlewareChain env.toEnv ctx global.middlewares.configs global.disableDefaults
    pure (wrapped, middlewareNames appliedMw)
  else pure (id, [])

def initGlobalDispatcher (ctx : BuildContext) (global : Option GlobalConfig) :
    Build GlobalDispatcher :=
  match global with
  | none => pure {}
  | some global =>
    if global.middlewares.configs.length = 0 ∧ global.trustedProxies.isNone then pure {}
    else do
      let (chain, names) ← buildGlobalChain env ctx global
      pure
        { globalConfig := some global
          globalMwNames := names
          globalChain := some fun handler =>
            wrapTrustedProxies env (chain handler) global.trustedProxies }

/-- What `buildHandlerChain` returns; the handler takes the dispatcher at request time. -/
structure HandlerChain where
  handler : GlobalDispatcher → Handler
  backends : List String
  routeSnapshots : List RouteSnapshot

def buildHandlerChain (ctx : BuildContext) (serverId : String) (conf : HTTPListener)
    (dGlobal : GlobalDispatcher) : Build (HandlerChain × GlobalDispatcher) := do
  let ctx := (ctx.withPort conf.port).withServerId serverId
  let (hostHandler, backends, routeSnapshots) ←
    Fallible.mapError (wrapError .hostDispatcher)
      (buildHostDispatcher env ctx conf.default_ conf.routes)
  let (handler, dGlobal) := dGlobal.registerHandler conf.port hostHandler
  let routeSnapshots :=
    if dGlobal.globalMwNames.isEmpty then routeSnapshots
    else routeSnapshots.map fun snapshot =>
      { snapshot with globalMiddlewares := dGlobal.globalMwNames }
  pure (⟨handler, backends, routeSnapshots⟩, dGlobal)

def buildMiddlewareContext : BuildContext := { hasMetricsManager := true }

/-- The handler of a listener: `initializeHttpNetworkStackFromConf` builds the global
dispatcher and `buildHttpServer` the chain of the listener, under the identifier of its
port. -/
def buildListener (global : Option GlobalConfig) (conf : HTTPListener) : Build Handler := do
  let dGlobal ← initGlobalDispatcher env buildMiddlewareContext global
  let (chain, dGlobal) ←
    buildHandlerChain env buildMiddlewareContext (Metrics.serverIdOf conf.port) conf dGlobal
  pure (chain.handler dGlobal)

end

end Torii.Proxy
