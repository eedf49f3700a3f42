import Torii.Go.Http
import Torii.Lib.Fallible
import Torii.Metrics.Connection
import Torii.Middleware.Registry

/-!
# Building a middleware chain

`ApplyMiddlewares` of `middleware/middleware.go`, `buildMiddlewareChain` of `proxy/middleware.go`,
`MetricsMiddleware` of `middleware/metrics_middleware.go` and the build context of
`internal/requestctx/build_context.go`. A handler is seen through the middlewares it enters, the
reports it sends and how it ends. A middleware other than `Metrics` is a parameter: it answers the
request itself or passes on a request, possibly a changed one, once.
-/

namespace Torii.Middleware

open Go Go.Http Strconv Torii.Metrics

/-- A request with the value that the global dispatcher keeps in its context. -/
structure Inbound extends Request where
  /-- The value of `globalDispatcherPortKey`. -/
  dispatchPort : Option Int := none

/-- `BuildContext`; of the metrics manager it is only asked whether there is one. -/
structure BuildContext where
  hasMetricsManager : Bool
  port : Int := 0
  serverId : String := ""
  host : String := ""
  path : String := ""
  overrideMetricsName : String := ""
deriving DecidableEq

namespace BuildContext

def withPort (c : BuildContext) (port : Int) : BuildContext := { c with port := port }

def withServerId (c : BuildContext) (serverId : String) : BuildContext :=
  { c with serverId := serverId }

def withHost (c : BuildContext) (host : String) : BuildContext := { c with host := host }

def withPath (c : BuildContext) (path : String) : BuildContext := { c with path := path }

def withOverrideMetricsName (c : BuildContext) (name : String) : BuildContext :=
  { c with overrideMetricsName := name }

def portString (c : BuildContext) : String := if c.port = 0 then "" else itoa c.port

def scopedName (c : BuildContext) (namePrefix : String) : Except String String :=
  if c.portString = "" then
    .error ("port not found in build context for " ++ namePrefix ++ " name")
  else .ok (buildConnectionName namePrefix c.portString c.host c.path)

def connectionNameFromServerId (serverId : String) : String :=
  if "http-".toList.isPrefixOf serverId.toList then
    let port := Strings.trimPrefix serverId "http-"
    if port ≠ "" then buildConnectionName "conn" port "" "" else ""
  else ""

def connectionName (c : BuildContext) : String :=
  if c.port ≠ 0 then buildConnectionName "conn" c.portString c.host c.path
  else
    let name := connectionNameFromServerId c.serverId
    if name ≠ "" then name else "conn-unknown"

end BuildContext

inductive Event where
  /-- A middleware is entered. -/
  | entered (ctx : BuildContext) (type : String)
  /-- A report is sent to the metric workers. -/
  | report (metric : RequestMetric)
  /-- The request is answered without being passed on. -/
  | answered (who : String)
  /-- The request is passed to a backend. -/
  | proxied (address : String)
deriving DecidableEq

abbrev Handler := Inbound → List Event

/-- The behaviour of the middlewares that is not modelled. -/
structure Env where
  /-- The request that a middleware passes on, or nothing when it answers itself. -/
  forward : BuildContext → Config → Request → Option Request
  /-- What the response writer, the clock and the request context put into a report. -/
  measure : BuildContext → Request → RequestMetric

inductive BuildError where
  | middleware (cause : RegistryError)
  | pathBackendWithoutAddress (pattern : String)
  | duplicatePattern (pattern : String)
  | pathReverseProxy (pattern cause : String)
  | routeReverseProxy (backend cause : String)
  | nothingToServe
  | pathDispatcher (backend : String) (cause : BuildError)
  | middlewareChain (backend : String) (cause : BuildError)
  | defaultRoute (cause : BuildError)
  | noValidRoutes
  | hostDispatcher (cause : BuildError)
deriving DecidableEq

def BuildError.message (quote : String → String) : BuildError → String
  | .middleware cause => cause.message
  | .pathBackendWithoutAddress pattern =>
    "path rule " ++ quote pattern ++ " has a backend defined but no address specified"
  | .duplicatePattern pattern => "duplicate path pattern detected: " ++ quote pattern
  | .pathReverseProxy pattern cause =>
    "failed to build reverse proxy for path rule " ++ quote pattern ++ ": " ++ cause
  | .routeReverseProxy backend cause =>
    "failed to build reverse proxy for backend " ++ backend ++ ": " ++ cause
  | .nothingToServe =>
    "route has no backend and no terminating middleware — nothing to serve requests"
  | .pathDispatcher backend cause =>
    "failed to build path dispatcher for backend " ++ backend ++ ": " ++ cause.message quote
  | .middlewareChain backend cause =>
    "failed to build middleware chain for backend " ++ backend ++ ": " ++ cause.message quote
  | .defaultRoute cause => "failed to build default route handler: " ++ cause.message quote
  | .noValidRoutes => "no valid routes configured"
  | .hostDispatcher cause => "failed to build host dispatcher: " ++ cause.message quote

/-- How a build stops: with an error, with the panic of a mux registration, or with the
fatal exit of `TrackMetricsForConnection`. -/
inductive Failure where
  | error (e : BuildError)
  | panic (pattern : String)
  | fatal
deriving DecidableEq

abbrev Build := Fallible Manager Failure

/-- `fmt.Errorf` with the error as its cause. -/
def wrapError (wrap : BuildError → BuildError) : Failure → Failure
  | .error e => .error (wrap e)
  | failure => failure

/-- `TrackMetricsForConnection`; the report function is the name it reports under. -/
def trackMetricsForConnection (serverId connectionName : String) : Build String := fun h =>
  match h.trackMetricsForConnection serverId connectionName with
  | none => (.error .fatal, h)
  | some h => (.ok connectionName, h)

/-- The name that `resolveReportFunc` asks the manager for, if it comes to that. -/
def reportName (ctx : BuildContext) : Option String :=
  let conName :=
    if ctx.overrideMetricsName = "" then (ctx.scopedName "metric").toOption
    else some ctx.overrideMetricsName
  match conName with
  | none => none
  | some conName =>
    if ! ctx.hasMetricsManager then none
    else if ctx.serverId = "" then none
    else some conName

def resolveReportFunc (ctx : BuildContext) : Build (Option String) :=
  match reportName ctx with
  | none => pure none
  | some conName => do
      let name ← trackMetricsForConnection ctx.serverId conName
      pure (some name)

section

variable (env : Env)

/-- `MetricsMiddleware`: the report is sent after the next handler has returned. -/
def metricsMiddleware (ctx : BuildContext) : Build (Handler → Handler) := do
  let reportFunc ← resolveReportFunc ctx
  pure fun next r =>
    match reportFunc with
    | none => next r
    | some name =>
      next r ++ [.report { env.measure ctx r.toRequest with connectionName := name }]

def otherMiddleware (ctx : BuildContext) (conf : Config) : Handler → Handler := fun next r =>
  match env.forward ctx conf r.toRequest with
  | none => [.answered conf.type]
  | some request => next { r with toRequest := request }

/-- `entry.Fn(ctx, handler, conf)`, as a function of the handler it wraps. -/
def middlewareFunc (ctx : BuildContext) (conf : Config) : Build (Handler → Handler) :=
  if conf.type = "Metrics" then metricsMiddleware env ctx
  else pure (otherMiddleware env ctx conf)

/-- The loop of `ApplyMiddlewares`, which runs from the end of the list to its start. -/
def applyLoop (ctx : BuildContext) : List Config → Build ((Handler → Handler) × List Config)
  | [] => pure (id, [])
  | conf :: rest => do
      let (inner, applied) ← applyLoop ctx rest
      match getMiddleware conf.type with
      | .error e => .throw (.error (.middleware e))
      | .ok _ =>
        let conf := { conf with options := some (conf.options.getD ∅) }
        let fn ← middlewareFunc env ctx conf
        pure (fun next r => .entered ctx conf.type :: fn (inner next) r, conf :: applied)

def applyMiddlewares (ctx : BuildContext) (middlewares : List Config) (disableDefaults : Bool) :
    Build ((Handler → Handler) × List Config) :=
  applyLoop env ctx (effective middlewares disableDefaults)

def buildMiddlewareChain (ctx : BuildContext) (mwConfig : List Config) (disableDefaults : Bool) :
    Build ((Handler → Handler) × List Config) :=
  if mwConfig.length = 0 ∧ disableDefaults then pure (id, mwConfig)
  else applyMiddlewares env ctx mwConfig disableDefaults

end

def middlewareNames (configs : List Config) : List String := configs.map Config.type

end Torii.Middleware
