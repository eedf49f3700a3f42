import Torii.Middleware.Chain
import Torii.TrustedProxy.Resolve

/-!
# Path rules

`proxy/path_dispatcher.go` with `wrapTrustedProxies` of `proxy/trusted_proxy.go`. A duplicate
pattern aborts the build; the check looks at the normalised pattern, while the map holds the final
one. Which patterns the mux accepts, and which one serves a request, is a parameter.
-/

namespace Torii.Proxy

open Go Go.Http Torii.Middleware Torii.TrustedProxy

/-- `config.BackendTlsConfig`, which `backendTLSOptions` copies field by field. -/
structure BackendTlsConfig where
  insecureSkipVerify : Bool := false
  caCert : String := ""
  clientCert : String := ""
  clientKey : String := ""
deriving DecidableEq

structure BackendConfig where
  address : String
  replaceHostHeader : Bool := false
  tls : Option BackendTlsConfig := none
deriving DecidableEq

structure TrustedProxiesConfig where
  preset : String := ""
  ranges : List String := []
  header : String := ""
  refreshInterval : Int := 0
deriving DecidableEq

structure PathRule where
  pattern : String
  backend : Option BackendConfig := none
  dropQuery : Option Bool := none
  stripPrefix : Option Bool := none
  middlewares : ConfigSlice := .empty
  disableDefaults : Bool := false
  trustedProxies : Option TrustedProxiesConfig := none

structure ProxyOptions where
  dropPath : Bool := false
  dropQuery : Bool := false
  replaceHostHeader : Bool := false
  tls : Option BackendTlsConfig := none

/-- The code outside the package that the builders and dispatchers call. -/
structure Env extends Middleware.Env where
  /-- The case folding of `strings.ToLower`. -/
  lower : Char → Char
  /-- The mux accepts a pattern next to those it has; otherwise `HandleFunc` panics. -/
  muxAccepts : List String → String → Bool
  /-- The registered pattern that serves a request; without one the mux answers itself. -/
  muxSelect : List String → Request → Option String
  /-- `proxyutil.NewReverseProxy`. -/
  newReverseProxy : String → ProxyOptions → Except String Unit
  /-- `NewTrustedProxyResolverFromPreset`, whose presets are fetched. -/
  newTrustedProxyResolver : TrustedProxiesConfig → Except String Matcher

structure PathSnapshot where
  pattern : String
  backend : String
  middlewares : List String

def catchAll : String := "\x7bpath...\x7d"

/-- The loop of `normalizePattern` over the segments; `wildIdx` counts the single-segment
wildcards met so far. -/
def normalizeSegments : Nat → List String → List String
  | _, [] => []
  | _, [seg] =>
    if seg = "*" then [catchAll]
    else if Strings.hasSuffix seg '*' then [Strings.trimSuffix seg '*', catchAll]
    else [seg]
  | wildIdx, seg :: rest =>
    if seg = "*" then
      ("\x7b_seg" ++ Strconv.itoa (wildIdx + 1) ++ "\x7d") :: normalizeSegments (wildIdx + 1) rest
    else seg :: normalizeSegments wildIdx rest

def normalizePattern (pattern : String) : String :=
  Strings.join (normalizeSegments 0 (Strings.split pattern '/')) '/'

def ensureSubtree (pattern : String) : String :=
  if Strings.hasSuffix pattern '/' ∨ Strings.contains pattern catchAll then pattern
  else pattern ++ "/" ++ catchAll

def pathRulePrefix (pattern : String) : String :=
  let p := Strings.trimRight (Strings.trimSuffix pattern '*') '/'
  if p = "" then "" else if Strings.contains p "*" then "" else p

section

variable (env : Env)

def wrapTrustedProxies (handler : Handler) (cfg : Option TrustedProxiesConfig) : Handler :=
  match cfg with
  | none => handler
  | some cfg =>
    if cfg.preset = "" ∧ cfg.ranges = [] then handler
    else
      match env.newTrustedProxyResolver cfg with
      | .error _ => handler
      | .ok resolver => fun r =>
        resolver.wrapHandler (fun request _ => handler { r with toRequest := request })
          r.toRequest

def setForwardedPrefix (fwdPrefix : String) (inner : Handler) : Handler :=
  if fwdPrefix = "" then inner
  else fun r => inner { r with header := r.header.withLines "X-Forwarded-Prefix" [fwdPrefix] }

def stripRulePrefix (requested : Bool) (pre : String) (inner : Handler) : Handler :=
  if requested ∧ pre ≠ "" then fun r =>
    match Http.stripPrefix pre r.toRequest with
    | none => [.answered "StripPrefix"]
    | some request => inner { r with toRequest := request }
  else inner

def buildPathBackendHandler (rule : PathRule) (backend : BackendConfig) :
    Except Failure Handler :=
  let opts : ProxyOptions :=
    { dropQuery := rule.dropQuery.getD false
      replaceHostHeader := backend.replaceHostHeader
      tls := backend.tls }
  match env.newReverseProxy backend.address opts with
  | .error cause => .error (.error (.pathReverseProxy rule.pattern cause))
  | .ok () =>
    let handler := setForwardedPrefix (pathRulePrefix rule.pattern)
      fun _ => [.proxied backend.address]
    .ok (stripRulePrefix (rule.stripPrefix.getD false) (pathRulePrefix rule.pattern) handler)

def pathBaseHandler (defaultHandler : Handler) (rule : PathRule) : Except Failure Handler :=
  match rule.backend with
  | none => .ok defaultHandler
  | some backend => buildPathBackendHandler env rule backend

structure PathBuild where
  registeredPatterns : GoMap String Unit := ∅
  mux : List (String × Handler) := []
  backends : List String := []
  snapshots : List PathSnapshot := []

def handleFunc (mux : List (String × Handler)) (pattern : String) (handler : Handler) :
    Build (List (String × Handler)) :=
  if env.muxAccepts (mux.map Prod.fst) pattern then pure (mux ++ [(pattern, handler)])
  else .throw (.panic pattern)

/-- One turn of the loop of `buildPathDispatcher`. -/
def addPathRule (ctx : BuildContext) (defaultHandler : Handler) (acc : PathBuild)
    (rule : PathRule) : Build PathBuild := do
  if rule.backend.any (·.address = "") then
    .throw (.error (.pathBackendWithoutAddress rule.pattern))
  else
    let pattern := normalizePattern rule.pattern
    if pattern ∈ acc.registeredPatterns then .throw (.error (.duplicatePattern pattern))
    else
      let base ← Fallible.ofExcept (pathBaseHandler env defaultHandler rule)
      let (chain, appliedMw) ← buildMiddlewareChain env.toEnv (ctx.withPath rule.pattern)
        rule.middlewares.configs rule.disableDefaults
      let handler := wrapTrustedProxies env (chain base) rule.trustedProxies
      let pattern := if rule.backend.isSome then ensureSubtree pattern else pattern
      let mux ← handleFunc env acc.mux pattern handler
      pure
        { registeredPatterns := acc.registeredPatterns.insert pattern ()
          mux := mux
          backends := acc.backends ++ (rule.backend.map BackendConfig.address).toList
          snapshots := acc.snapshots ++
            [⟨rule.pattern, (rule.backend.map BackendConfig.address).getD "",
              middlewareNames appliedMw⟩] }

def servePaths (mux : List (String × Handler)) : Handler := fun r =>
  match (env.muxSelect (mux.map Prod.fst) r.toRequest).bind fun pattern => mux.lookup pattern with
  | none => [.answered "ServeMux"]
  | some handler => handler r

/-- The default catch-all of `buildPathDispatcher`, unless a rule has registered one. -/
def addCatchAll (defaultHandler : Handler) (acc : PathBuild) : Build (List (String × Handler)) :=
  let hasCatchAll := decide ("/" ∈ acc.registeredPatterns)
  let hasCatchAllWild := decide ("/" ++ catchAll ∈ acc.registeredPatterns)
  if ! hasCatchAll ∧ ! hasCatchAllWild then handleFunc env acc.mux "/" defaultHandler
  else pure acc.mux

def buildPathDispatcher (ctx : BuildContext) (defaultHandler : Handler)
    (pathRules : List PathRule) : Build (Handler × List String × List PathSnapshot) := do
  let acc ← pathRules.foldlM (addPathRule env ctx defaultHandler) {}
  let mux ← addCatchAll env defaultHandler acc
  pure (servePaths env mux, acc.backends, acc.snapshots)

end

end Torii.Proxy
