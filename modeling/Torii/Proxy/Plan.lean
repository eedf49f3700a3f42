import Torii.Proxy.Dispatch

/-!
# What a build makes of a configuration

The outcome of the builders as a pure function: the routes that can be built, the patterns of their
muxes, the backends and the snapshots, or the error. Handlers and metrics are left out.
-/

namespace Torii.Proxy

open Go Torii.Middleware

/-- The part of the environment on which the outcome of a build depends. -/
structure Site where
  muxAccepts : List String → String → Bool
  newReverseProxy : String → ProxyOptions → Except String Unit

def Env.site (env : Env) : Site := ⟨env.muxAccepts, env.newReverseProxy⟩

/-- A middleware configuration with its options filled in. -/
def withOptions (conf : Config) : Config := { conf with options := some (conf.options.getD ∅) }

/-- The middlewares that `ApplyMiddlewares` applies, from the end of the list on. -/
def planLoop : List Config → Except Failure (List Config)
  | [] => .ok []
  | conf :: rest => do
      let applied ← planLoop rest
      match getMiddleware conf.type with
      | .error e => .error (.error (.middleware e))
      | .ok _ => .ok (withOptions conf :: applied)

/-- The middlewares that `buildMiddlewareChain` applies. -/
def planChain (mwConfig : List Config) (disableDefaults : Bool) : Except Failure (List Config) :=
  if mwConfig.length = 0 ∧ disableDefaults then .ok mwConfig
  else planLoop (effective mwConfig disableDefaults)

/-- The patterns of a mux with their rules; a pattern without a rule is the catch-all. -/
abbrev MuxPlan := List (String × Option PathRule)

structure PathPlan where
  registeredPatterns : GoMap String Unit := ∅
  mux : MuxPlan := []
  backends : List String := []
  snapshots : List PathSnapshot := []

structure RoutePlan where
  target : RouteTarget
  /-- The mux, if the route has path rules. -/
  mux : Option MuxPlan
  backends : List String
  snapshot : RouteSnapshot

structure HostPlan where
  routes : List (String × RoutePlan) := []
  default_ : Option RoutePlan := none
  backends : List String := []
  snapshots : List RouteSnapshot := []

section

variable (site : Site)

def planPattern (mux : MuxPlan) (pattern : String) (rule : Option PathRule) :
    Except Failure MuxPlan :=
  if site.muxAccepts (mux.map Prod.fst) pattern then .ok (mux ++ [(pattern, rule)])
  else .error (.panic pattern)

def planPathBackend (rule : PathRule) : Except Failure Unit :=
  match rule.backend with
  | none => .ok ()
  | some backend =>
    let opts : ProxyOptions :=
      { dropQuery := rule.dropQuery.getD false
        replaceHostHeader := backend.replaceHostHeader
        tls := backend.tls }
    match site.newReverseProxy backend.address opts with
    | .error cause => .error (.error (.pathReverseProxy rule.pattern cause))
    | .ok () => .ok ()

def planPathRule (acc : PathPlan) (rule : PathRule) : Except Failure PathPlan :=
  if rule.backend.any (·.address = "") then
    .error (.error (.pathBackendWithoutAddress rule.pattern))
  else
    let pattern := normalizePattern rule.pattern
    if pattern ∈ acc.registeredPatterns then .error (.error (.duplicatePattern pattern))
    else do
      planPathBackend site rule
      let appliedMw ← planChain rule.middlewares.configs rule.disableDefaults
      let pattern := if rule.backend.isSome then ensureSubtree pattern else pattern
      let mux ← planPattern site acc.mux pattern (some rule)
      .ok
        { registeredPatterns := acc.registeredPatterns.insert pattern ()
          mux := mux
          backends := acc.backends ++ (rule.backend.map BackendConfig.address).toList
          snapshots := acc.snapshots ++
            [⟨rule.pattern, (rule.backend.map BackendConfig.address).getD "",
              middlewareNames appliedMw⟩] }

def planCatchAll (acc : PathPlan) : Except Failure MuxPlan :=
  let hasCatchAll := decide ("/" ∈ acc.registeredPatterns)
  let hasCatchAllWild := decide ("/" ++ catchAll ∈ acc.registeredPatterns)
  if ! hasCatchAll ∧ ! hasCatchAllWild then planPattern site acc.mux "/" none
  else .ok acc.mux

def planPaths (pathRules : List PathRule) :
    Except Failure (MuxPlan × List String × List PathSnapshot) := do
  let acc ← pathRules.foldlM (planPathRule site) {}
  let mux ← planCatchAll site acc
  .ok (mux, acc.backends, acc.snapshots)

def planRoutePaths (target : RouteTarget) :
    Except Failure (Option MuxPlan × List String × List PathSnapshot) :=
  if target.paths.length > 0 then
    ((planPaths site target.paths).mapError
      (wrapError (.pathDispatcher target.backend.address))).map fun plan => (some plan.1, plan.2)
  else .ok (none, [], [])

def planRouteBackend (target : RouteTarget) : Except Failure Unit :=
  if target.backend.address ≠ "" then
    let opts : ProxyOptions :=
      { replaceHostHeader := target.backend.replaceHostHeader, tls := target.backend.tls }
    match site.newReverseProxy target.backend.address opts with
    | .error cause => .error (.error (.routeReverseProxy target.backend.address cause))
    | .ok () => .ok ()
  else if ! hasTerminatingMiddleware target.middlewares.configs then .error (.error .nothingToServe)
  else .ok ()

def planRoute (target : RouteTarget) : Except Failure RoutePlan := do
  planRouteBackend site target
  let (mux, backends, pathSnapshots) ← planRoutePaths site target
  let appliedMw ← (planChain target.middlewares.configs target.disableDefaults).mapError
    (wrapError (.middlewareChain target.backend.address))
  .ok
    { target := target
      mux := mux
      backends := backends
      snapshot :=
        { backend := target.backend.address, middlewares := middlewareNames appliedMw,
          paths := pathSnapshots } }

def HostPlan.add (acc : HostPlan) (route : Route) :
    Except Failure RoutePlan → Except Failure HostPlan
  | .error (.error _) => .ok acc
  | .error failure => .error failure
  | .ok plan =>
    .ok
      { acc with
        routes := acc.routes ++ [(route.host, plan)]
        backends := acc.backends ++ [route.target.backend.address] ++ plan.backends
        snapshots := acc.snapshots ++ [{ plan.snapshot with host := route.host }] }

def planAddRoute (acc : HostPlan) (route : Route) : Except Failure HostPlan :=
  if route.host = "" then .ok acc else acc.add route (planRoute site route.target)

def planDefault (defaultTarget : Option RouteTarget) :
    Except Failure (Option RoutePlan × List String × List RouteSnapshot) :=
  match defaultTarget with
  | none => .ok (none, [], [])
  | some target => do
      let plan ← (planRoute site target).mapError (wrapError .defaultRoute)
      .ok (some plan, [target.backend.address] ++ plan.backends, [plan.snapshot])

def planHosts (defaultTarget : Option RouteTarget) (routes : List Route) :
    Except Failure HostPlan := do
  let acc ← routes.foldlM (planAddRoute site) {}
  let (default_, backends, snapshots) ← planDefault site defaultTarget
  if acc.routes.isEmpty ∧ default_.isNone then .error (.error .noValidRoutes)
  else
    .ok
      { routes := acc.routes
        default_ := default_
        backends := acc.backends ++ backends
        snapshots := acc.snapshots ++ snapshots }

end

def planGlobal (global : Option GlobalConfig) : Except Failure (List String) :=
  match global with
  | none => .ok []
  | some g =>
    if g.middlewares.configs.length > 0 then do
      let appliedMw ← planChain g.middlewares.configs g.disableDefaults
      .ok (middlewareNames appliedMw)
    else .ok []

end Torii.Proxy
