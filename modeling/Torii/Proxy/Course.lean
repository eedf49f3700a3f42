import Torii.Lib.Refinement
import Torii.Proxy.Counting
import Torii.Proxy.Plan

/-!
# The course of a request

Which middlewares a request enters, and in which order. The routes and path rules are those that the
request selects as it arrives at the dispatchers. Every builder refines its plan, and the handler
that it makes keeps to the course of the plan (`Follows`).
-/

namespace Torii.Proxy

open Go Go.Http Torii.Middleware Torii.Metrics Torii.Metrics.Manager Fallible

/-! ## Events along a course -/

/-- The middlewares of a course are entered in order, and all of them before a backend is
reached. -/
structure Follows (events : List Event) (course : List (BuildContext × String)) : Prop where
  isPrefix : enteredOf events <+: course
  complete : ∀ address, .proxied address ∈ events → enteredOf events = course

section

variable {events : List Event} {course : List (BuildContext × String)}

theorem follows_answered (who : String) (course : List (BuildContext × String)) :
    Follows [.answered who] course :=
  ⟨List.nil_prefix, fun address h => by simp at h⟩

theorem follows_proxied (address : String) : Follows [.proxied address] [] :=
  ⟨List.nil_prefix, fun _ _ => rfl⟩

theorem Follows.enter (h : Follows events course) (ctx : BuildContext) (type : String) :
    Follows (.entered ctx type :: events) ((ctx, type) :: course) := by
  have hentered : enteredOf (.entered ctx type :: events) = (ctx, type) :: enteredOf events := rfl
  constructor
  · rw [hentered]
    exact (List.prefix_cons_inj _).mpr h.isPrefix
  · intro address haddress
    rw [hentered, h.complete address (by simpa using haddress)]

theorem Follows.report (h : Follows events course) (metric : RequestMetric) :
    Follows (events ++ [.report metric]) course := by
  have hentered : enteredOf (events ++ [.report metric]) = enteredOf events := by
    simp [enteredOf]
  constructor
  · rw [hentered]
    exact h.isPrefix
  · intro address haddress
    rw [hentered]
    exact h.complete address (by simpa using haddress)

end

/-! ## Layers -/

/-- The request with other content and the same context. -/
def Inbound.withRequest (r : Inbound) (request : Request) : Inbound :=
  { r with toRequest := request }

/-- A layer that wraps handlers: it enters the middlewares of `entries` and passes on the
request that `pass` says, or answers itself. -/
structure Layered (wrap : Handler → Handler) (pass : Request → Option Request)
    (entries : List (BuildContext × String)) : Prop where
  stops : ∀ next r, pass r.toRequest = none → ∀ course, Follows (wrap next r) (entries ++ course)
  passes : ∀ next r request, pass r.toRequest = some request →
    ∀ course, Follows (next (Inbound.withRequest r request)) course →
      Follows (wrap next r) (entries ++ course)
  /-- The next handler gets no other request. -/
  calls : ∀ next next' r, (∀ request, pass r.toRequest = some request →
    next (Inbound.withRequest r request) = next' (Inbound.withRequest r request)) →
      wrap next r = wrap next' r

def below (passed : Option Request) (course : Request → List (BuildContext × String)) :
    List (BuildContext × String) :=
  match passed with
  | none => []
  | some request => course request

variable {entries : List (BuildContext × String)} {pass : Request → Option Request}

theorem Layered.follows {wrap : Handler → Handler} (h : Layered wrap pass entries) {next : Handler}
    (r : Inbound) (course : Request → List (BuildContext × String))
    (hnext : ∀ r, Follows (next r) (course r.toRequest)) :
    Follows (wrap next r) (entries ++ below (pass r.toRequest) course) := by
  cases hpass : pass r.toRequest with
  | none => exact h.stops next r hpass _
  | some request => exact h.passes next r request hpass _ (hnext _)

theorem layered_id : Layered id some [] where
  stops _ _ h := absurd h (by simp)
  passes next r request h course hnext := by
    cases h
    exact hnext
  calls next next' r h := h r.toRequest rfl

def forwardOne (env : Middleware.Env) (ctx : BuildContext) (conf : Config) (request : Request) :
    Option Request :=
  if conf.type = "Metrics" then some request else env.forward ctx (withOptions conf) request

/-- The request that a list of middlewares passes on. -/
def forwardAll (env : Middleware.Env) (ctx : BuildContext) : List Config → Request → Option Request
  | [], request => some request
  | conf :: rest, request => (forwardOne env ctx conf request).bind (forwardAll env ctx rest)

theorem Layered.comp {outer inner : Handler → Handler} {pass' : Request → Option Request}
    {entries' : List (BuildContext × String)} (houter : Layered outer pass entries)
    (hinner : Layered inner pass' entries') :
    Layered (fun next => outer (inner next)) (fun request => (pass request).bind pass')
      (entries ++ entries') where
  stops next r h course := by
    rw [List.append_assoc]
    cases hpass : pass r.toRequest with
    | none => exact houter.stops _ r hpass _
    | some request =>
      rw [hpass, Option.bind_some] at h
      exact houter.passes _ r request hpass _ (hinner.stops next _ h course)
  passes next r request h course hnext := by
    rw [List.append_assoc]
    obtain ⟨between, hpass, hpass'⟩ := Option.bind_eq_some_iff.mp h
    exact houter.passes _ r between hpass _ (hinner.passes next _ request hpass' course hnext)
  calls next next' r h := by
    apply houter.calls
    intro between hpass
    apply hinner.calls
    intro request hpass'
    exact h request (Option.bind_eq_some_iff.mpr ⟨between, hpass, hpass'⟩)

section

variable {port : Int} {ctx : BuildContext} (env : Middleware.Env)

theorem layered_metrics (ctx : BuildContext) (type : String) (name : Option String) :
    Layered (fun next r => .entered ctx type ::
      match name with
      | none => next r
      | some name =>
        next r ++ [.report { env.measure ctx r.toRequest with connectionName := name }])
      some [(ctx, type)] where
  stops _ _ h := absurd h (by simp)
  passes next r request h course hnext := by
    cases h
    cases name with
    | none => exact hnext.enter ctx type
    | some name => exact (hnext.report _).enter ctx type
  calls next next' r h := by
    have heq : next r = next' r := h r.toRequest rfl
    simp only [heq]

theorem layered_other (ctx : BuildContext) (conf : Config) :
    Layered (fun next r => .entered ctx conf.type :: otherMiddleware env ctx conf next r)
      (env.forward ctx conf) [(ctx, conf.type)] where
  stops next r h course := by
    rw [otherMiddleware, h]
    exact (follows_answered conf.type course).enter ctx conf.type
  passes next r request h course hnext := by
    rw [otherMiddleware, h]
    exact hnext.enter ctx conf.type
  calls next next' r h := by
    simp only [otherMiddleware]
    cases hpass : env.forward ctx conf r.toRequest with
    | none => rfl
    | some request => exact congrArg _ (h request hpass)

theorem refines_resolveReportFunc (hctx : Scoped port ctx) :
    Refines WellFormed (resolveReportFunc ctx) (.ok (reportName ctx)) Eq := by
  intro h wf
  rw [resolveReportFunc]
  cases hname : reportName ctx with
  | none => exact ⟨wf, rfl⟩
  | some name =>
    obtain ⟨h', htrack, wf', -, -⟩ := track_of_reportName hctx hname wf
    change WellFormed (Fallible.andThen _ _ h).2 ∧ Except.Related Eq (Fallible.andThen _ _ h).1 _
    rw [Fallible.andThen, htrack]
    exact ⟨wf', rfl⟩

/-- Step lemma: one middleware. -/
theorem refines_middlewareFunc (hctx : Scoped port ctx) (conf : Config) :
    Refines WellFormed (middlewareFunc env ctx (withOptions conf)) (.ok ())
      fun fn _ => Layered (fun next r => .entered ctx conf.type :: fn next r)
        (forwardOne env ctx conf) [(ctx, conf.type)] := by
  rw [middlewareFunc]
  split
  · next htype =>
    have hpass : forwardOne env ctx conf = some := by
      funext request
      exact if_pos htype
    rw [hpass]
    apply refines_bind (refines_resolveReportFunc hctx) (g := fun _ => .ok ())
    rintro name _ -
    exact refines_pure (layered_metrics env ctx conf.type name)
  · next htype =>
    have hpass : forwardOne env ctx conf = env.forward ctx (withOptions conf) := by
      funext request
      exact if_neg htype
    rw [hpass]
    exact refines_pure (layered_other env ctx (withOptions conf))

theorem refines_applyLoop (hctx : Scoped port ctx) (middlewares : List Config) :
    Refines WellFormed (applyLoop env ctx middlewares) (planLoop middlewares)
      fun result applied => result.2 = applied ∧
        Layered result.1 (forwardAll env ctx middlewares)
          (middlewares.map fun conf => (ctx, conf.type)) := by
  induction middlewares with
  | nil => exact refines_pure ⟨rfl, layered_id⟩
  | cons conf rest ih =>
    rw [applyLoop, planLoop]
    apply refines_bind ih
    rintro ⟨inner, applied⟩ _ ⟨rfl, hinner⟩
    cases getMiddleware conf.type with
    | error e => exact refines_throw
    | ok entry =>
      apply refines_bind (refines_middlewareFunc env hctx conf)
        (g := fun _ => .ok (withOptions conf :: applied))
      rintro fn _ hfn
      exact refines_pure ⟨rfl, hfn.comp hinner⟩

theorem refines_buildMiddlewareChain (hctx : Scoped port ctx) (middlewares : List Config)
    (disableDefaults : Bool) :
    Refines WellFormed (buildMiddlewareChain env ctx middlewares disableDefaults)
      (planChain middlewares disableDefaults)
      fun result applied => result.2 = applied ∧
        Layered result.1 (forwardAll env ctx (effective middlewares disableDefaults))
          (layer ctx middlewares disableDefaults) := by
  rw [buildMiddlewareChain, planChain]
  split
  · next hnone =>
    obtain ⟨hlength, hdisabled⟩ := hnone
    rw [List.length_eq_zero_iff] at hlength
    subst hlength
    rw [layer, effective, if_pos hdisabled]
    exact refines_pure ⟨rfl, layered_id⟩
  · exact refines_applyLoop env hctx _

end

/-! ## Trusted proxies -/

/-- The request that `wrapTrustedProxies` passes on. -/
def arrival (env : Env) (cfg : Option TrustedProxiesConfig) (request : Request) : Request :=
  match cfg with
  | none => request
  | some cfg =>
    if cfg.preset = "" ∧ cfg.ranges = [] then request
    else
      match env.newTrustedProxyResolver cfg with
      | .error _ => request
      | .ok resolver => { request with remoteAddr := resolver.resolve request }

theorem wrapTrustedProxies_eq (env : Env) (handler : Handler) (cfg : Option TrustedProxiesConfig)
    (r : Inbound) : wrapTrustedProxies env handler cfg r =
      handler (Inbound.withRequest r (arrival env cfg r.toRequest)) := by
  cases cfg with
  | none => rfl
  | some cfg =>
    rw [wrapTrustedProxies, arrival]
    split
    · rfl
    · cases env.newTrustedProxyResolver cfg with
      | error e => rfl
      | ok resolver => exact resolver.wrapHandler_eq _ _

theorem Layered.wrapTrustedProxies {wrap : Handler → Handler} (h : Layered wrap pass entries)
    (env : Env) (cfg : Option TrustedProxiesConfig) :
    Layered (fun next => Proxy.wrapTrustedProxies env (wrap next) cfg)
      (fun request => pass (arrival env cfg request)) entries where
  stops next r hpass course := by
    rw [wrapTrustedProxies_eq]
    exact h.stops next _ hpass course
  passes next r request hpass course hnext := by
    rw [wrapTrustedProxies_eq]
    exact h.passes next _ request hpass course hnext
  calls next next' r hnext := by
    rw [wrapTrustedProxies_eq, wrapTrustedProxies_eq]
    exact h.calls next next' _ hnext

/-! ## Path rules -/

section

variable (env : Env) {port : Int} {ctx : BuildContext}

def selectedRule (mux : MuxPlan) (request : Request) : Option PathRule :=
  ((env.muxSelect (mux.map Prod.fst) request).bind fun pattern => mux.lookup pattern).join

/-- A registered handler keeps to the layer of its rule. -/
def RuleFollows (ctx : BuildContext) (entry : String × Handler)
    (plan : String × Option PathRule) : Prop :=
  entry.1 = plan.1 ∧ ∀ r, Follows (entry.2 r) (pathLayer ctx plan.2)

structure PathsFollow (ctx : BuildContext) (acc : PathBuild) (plan : PathPlan) : Prop where
  patterns : acc.registeredPatterns = plan.registeredPatterns
  mux : List.Forall₂ (RuleFollows ctx) acc.mux plan.mux
  backends : acc.backends = plan.backends
  snapshots : acc.snapshots = plan.snapshots

variable {mux : List (String × Handler)} {plan : MuxPlan} {base : Handler}

theorem keys_eq_of_forall₂
    (h : List.Forall₂ (RuleFollows ctx) mux plan) : mux.map Prod.fst = plan.map Prod.fst := by
  induction h with
  | nil => rfl
  | cons hentry _ ih => rw [List.map_cons, List.map_cons, hentry.1, ih]

variable {handler : Handler} {acc : PathBuild}

/-- Handlers and rules are found under the same patterns. -/
theorem lookup_forall₂ (h : List.Forall₂ (RuleFollows ctx) mux plan) (pattern : String)
    (hlookup : mux.lookup pattern = some handler) :
    ∃ rule, plan.lookup pattern = some rule ∧ ∀ r, Follows (handler r) (pathLayer ctx rule) := by
  induction h with
  | nil => exact absurd hlookup (by simp)
  | @cons entry plan _ _ hentry _ ih =>
    obtain ⟨key, found⟩ := entry
    obtain ⟨key', rule⟩ := plan
    obtain ⟨rfl, hfollows⟩ := hentry
    rw [lookup_cons_eq] at hlookup ⊢
    split at hlookup
    · next hkey =>
      rw [if_pos hkey]
      cases hlookup
      exact ⟨rule, rfl, hfollows⟩
    · next hkey =>
      rw [if_neg hkey]
      exact ih hlookup

theorem follows_servePaths (h : List.Forall₂ (RuleFollows ctx) mux plan) (r : Inbound) :
    Follows (servePaths env mux r) (pathLayer ctx (selectedRule env plan r.toRequest)) := by
  rw [servePaths]
  split
  · exact follows_answered _ _
  · next handler hselect =>
    obtain ⟨pattern, hpattern, hlookup⟩ := Option.bind_eq_some_iff.mp hselect
    obtain ⟨rule, hrule, hfollows⟩ := lookup_forall₂ h pattern hlookup
    rw [keys_eq_of_forall₂ h] at hpattern
    rw [selectedRule, hpattern, Option.bind_some, hrule]
    exact hfollows r

theorem related_pathBaseHandler (hbase : ∀ r, Follows (base r) []) (rule : PathRule) :
    Except.Related (fun handler _ => ∀ r, Follows (handler r) []) (pathBaseHandler env base rule)
      (planPathBackend env.site rule) := by
  rw [pathBaseHandler, planPathBackend]
  cases rule.backend with
  | none => exact hbase
  | some backend =>
    simp only [buildPathBackendHandler, Env.site]
    cases env.newReverseProxy backend.address _ with
    | error cause => rfl
    | ok _ =>
      intro r
      -- Neither the prefix nor its removal enters a middleware.
      have hinner : ∀ r, Follows (setForwardedPrefix (pathRulePrefix rule.pattern)
          (fun _ => [.proxied backend.address]) r) [] := by
        intro r
        rw [setForwardedPrefix]
        split
        · exact follows_proxied _
        · exact follows_proxied _
      rw [stripRulePrefix]
      split
      · beta_reduce
        cases Http.stripPrefix (pathRulePrefix rule.pattern) r.toRequest with
        | none => exact follows_answered _ _
        | some request => exact hinner _
      · exact hinner r

theorem refines_handleFunc (h : List.Forall₂ (RuleFollows ctx) mux plan) (rule : Option PathRule)
    (hhandler : ∀ r, Follows (handler r) (pathLayer ctx rule)) (pattern : String) :
    Refines WellFormed (handleFunc env mux pattern handler)
      (planPattern env.site plan pattern rule) (List.Forall₂ (RuleFollows ctx)) := by
  rw [handleFunc, planPattern, keys_eq_of_forall₂ h]
  change Refines _ (if env.muxAccepts _ _ = true then _ else _)
    (if env.muxAccepts _ _ = true then _ else _) _
  split
  · exact refines_pure (List.rel_append h (.cons ⟨rfl, hhandler⟩ .nil))
  · exact refines_throw

/-- Step lemma: one path rule. -/
theorem refines_addPathRule (hctx : Scoped port ctx) (hbase : ∀ r, Follows (base r) [])
    {plan : PathPlan} (h : PathsFollow ctx acc plan) (rule : PathRule) :
    Refines WellFormed (addPathRule env ctx base acc rule)
      (planPathRule env.site plan rule) (PathsFollow ctx) := by
  rw [addPathRule, planPathRule]
  split
  · exact refines_throw
  · dsimp only
    rw [h.patterns]
    split
    · exact refines_throw
    · apply refines_bind
        (refines_ofExcept (related_pathBaseHandler env hbase rule))
      intro inner _ hinner
      apply refines_bind
        (refines_buildMiddlewareChain env.toEnv (hctx.withPath rule.pattern) _ _)
      rintro ⟨chain, appliedMw⟩ _ ⟨rfl, hchain⟩
      have hhandler : ∀ r, Follows (wrapTrustedProxies env (chain inner) rule.trustedProxies r)
          (pathLayer ctx (some rule)) := by
        intro r
        have hfollows := (hchain.wrapTrustedProxies env rule.trustedProxies).follows r
          (fun _ => []) hinner
        have hnil : ∀ passed, below passed (fun _ => []) = [] := by
          intro passed
          cases passed with
          | none | some => rfl
        rwa [hnil, List.append_nil] at hfollows
      apply refines_bind (refines_handleFunc env h.mux (some rule) hhandler _)
      intro mux muxPlan hmux
      apply refines_pure
      exact ⟨rfl, hmux, by rw [h.backends], by rw [h.snapshots]⟩

theorem refines_addCatchAll (hbase : ∀ r, Follows (base r) []) {plan : PathPlan}
    (h : PathsFollow ctx acc plan) :
    Refines WellFormed (addCatchAll env base acc) (planCatchAll env.site plan)
      (List.Forall₂ (RuleFollows ctx)) := by
  simp only [addCatchAll, planCatchAll, h.patterns]
  split
  · exact refines_handleFunc env h.mux none hbase "/"
  · exact refines_pure h.mux

theorem refines_buildPathDispatcher (hctx : Scoped port ctx)
    (hbase : ∀ r, Follows (base r) []) (pathRules : List PathRule) :
    Refines WellFormed (buildPathDispatcher env ctx base pathRules)
      (planPaths env.site pathRules) fun result plan =>
        (∀ r, Follows (result.1 r) (pathLayer ctx (selectedRule env plan.1 r.toRequest))) ∧
          result.2 = plan.2 := by
  rw [buildPathDispatcher, planPaths]
  apply refines_bind (refines_foldlM (I := PathsFollow ctx)
    ⟨rfl, .nil, rfl, rfl⟩ fun rule _ acc plan h => refines_addPathRule env hctx hbase h rule)
  intro acc plan h
  apply refines_bind (refines_addCatchAll env hbase h)
  intro mux muxPlan hmux
  apply refines_pure
  exact ⟨follows_servePaths env hmux, by rw [h.backends, h.snapshots]⟩

end

/-! ## Routes and hosts -/

section

variable (env : Env) {port : Int} {ctx : BuildContext}

def pathCourse (ctx : BuildContext) (mux : Option MuxPlan) (request : Request) :
    List (BuildContext × String) :=
  pathLayer ctx (mux.bind fun mux => selectedRule env mux request)

def routeCourse (ctx : BuildContext) (plan : RoutePlan) (request : Request) :
    List (BuildContext × String) :=
  let middlewares := plan.target.middlewares.configs
  let disableDefaults := plan.target.disableDefaults
  layer ctx middlewares disableDefaults ++
    below (forwardAll env.toEnv ctx (effective middlewares disableDefaults)
      (arrival env plan.target.trustedProxies request)) (pathCourse env ctx plan.mux)

theorem related_routeBaseHandler (target : RouteTarget) :
    Except.Related (fun handler _ => ∀ r, Follows (handler r) []) (routeBaseHandler env target)
      (planRouteBackend env.site target) := by
  unfold routeBaseHandler planRouteBackend
  split
  · simp only [Env.site]
    cases env.newReverseProxy target.backend.address _ with
    | error cause => rfl
    | ok _ => exact fun _ => follows_proxied _
  · split
    · rfl
    · exact fun _ => follows_answered _ _

theorem refines_buildRoutePaths (hctx : Scoped port ctx) {base : Handler}
    (hbase : ∀ r, Follows (base r) []) (target : RouteTarget) :
    Refines WellFormed (buildRoutePaths env ctx base target)
      (planRoutePaths env.site target) fun result plan =>
        (∀ r, Follows (result.1 r) (pathCourse env ctx plan.1 r.toRequest)) ∧
          result.2 = plan.2 := by
  rw [buildRoutePaths, planRoutePaths]
  split
  · apply (refines_mapError (wrapError (.pathDispatcher _))
      (refines_buildPathDispatcher env hctx hbase target.paths)).map_spec
    rintro result plan ⟨hfollows, hmeta⟩
    exact ⟨hfollows, hmeta⟩
  · exact refines_pure ⟨hbase, rfl⟩

theorem refines_buildRouteHandler (hctx : Scoped port ctx) (target : RouteTarget) :
    Refines WellFormed (buildRouteHandler env ctx target) (planRoute env.site target)
      fun result plan =>
        (∀ r, Follows (result.1 r) (routeCourse env ctx plan r.toRequest)) ∧
          result.2 = (plan.backends, plan.snapshot) := by
  rw [buildRouteHandler, planRoute]
  apply refines_bind (refines_ofExcept (related_routeBaseHandler env target))
  intro base _ hbase
  apply refines_bind (refines_buildRoutePaths env hctx hbase target)
  rintro ⟨inner, backends, pathSnapshots⟩ ⟨mux, _⟩ ⟨hinner, rfl⟩
  apply refines_bind (refines_mapError _
    (refines_buildMiddlewareChain env.toEnv hctx _ _))
  rintro ⟨chain, appliedMw⟩ _ ⟨rfl, hchain⟩
  apply refines_pure
  refine ⟨fun r => ?_, rfl⟩
  exact (hchain.wrapTrustedProxies env target.trustedProxies).follows r
    (pathCourse env ctx mux) hinner

def RouteFollows (ctx : BuildContext) (handler : Handler) (route : String × RoutePlan) : Prop :=
  ∀ r, Follows (handler r) (routeCourse env (ctx.withHost route.1) route.2 r.toRequest)

structure HostsFollow (ctx : BuildContext) (acc : HostBuild) (plan : HostPlan) : Prop where
  trie : ∃ handlers, acc.routeTrie = .insertAll env.lower handlers ∧
    List.Forall₂ (fun entry route => entry.1 = route.1 ∧ RouteFollows env ctx entry.2 route)
      handlers plan.routes
  backends : acc.backends = plan.backends
  snapshots : acc.snapshots = plan.snapshots

variable {plan : HostPlan}

/-- Step lemma: one route. -/
theorem refines_addRoute (hctx : Scoped port ctx) {acc : HostBuild}
    (h : HostsFollow env ctx acc plan) (route : Route) :
    Refines WellFormed (addRoute env ctx acc route) (planAddRoute env.site plan route)
      (HostsFollow env ctx) := by
  rw [addRoute, planAddRoute]
  split
  · exact refines_pure h
  · apply refines_bind (refines_attempt
      (refines_buildRouteHandler env (hctx.withHost route.host) route.target))
      (g := plan.add route)
    intro built builtPlan hbuilt
    cases built with
    | error failure =>
      cases builtPlan with
      | ok routePlan => exact absurd hbuilt id
      | error failure' =>
        obtain rfl : failure = failure' := hbuilt
        cases failure with
        | error e => exact refines_pure h
        | panic | fatal => exact refines_throw
    | ok result =>
      cases builtPlan with
      | error failure' => exact absurd hbuilt id
      | ok routePlan =>
        obtain ⟨handler, pathBackends, snapshot⟩ := result
        obtain ⟨hfollows, hmeta⟩ := hbuilt
        obtain ⟨rfl, rfl⟩ := Prod.mk.inj hmeta
        obtain ⟨handlers, htrie, hroutes⟩ := h.trie
        apply refines_pure
        refine ⟨⟨handlers ++ [(route.host, handler)], ?_, ?_⟩, ?_, ?_⟩
        · rw [insertAll_concat, htrie]
        · exact List.rel_append hroutes (.cons ⟨rfl, hfollows⟩ .nil)
        · rw [h.backends]
        · rw [h.snapshots]

theorem refines_buildDefault (hctx : Scoped port ctx) (defaultTarget : Option RouteTarget) :
    Refines WellFormed (buildDefault env ctx defaultTarget)
      (planDefault env.site defaultTarget) fun result plan =>
        Option.Rel (RouteFollows env ctx) result.1 (plan.1.map fun plan => ("_default", plan)) ∧
          result.2 = plan.2 := by
  cases defaultTarget with
  | none => exact refines_pure ⟨.none, rfl⟩
  | some target =>
    rw [buildDefault, planDefault]
    apply refines_bind (refines_mapError _
      (refines_buildRouteHandler env (hctx.withHost "_default") target))
    rintro ⟨handler, pathBackends, snapshot⟩ plan ⟨hfollows, hmeta⟩
    obtain ⟨rfl, rfl⟩ := Prod.mk.inj hmeta
    exact refines_pure ⟨.some hfollows, rfl⟩

def dispatchHost (request : Request) : Option String :=
  if Strings.contains request.host ":" then (Net.splitHostPort request.host).map Prod.fst
  else some request.host

def selectedRoute (plan : HostPlan) (request : Request) : Option (String × RoutePlan) :=
  (dispatchHost request).bind fun host =>
    match (HostTrie.insertAll env.lower
        (plan.routes.map fun route => (route.1, route))).contains env.lower host with
    | some route => some route
    | none => plan.default_.map fun plan => ("_default", plan)

def hostCourse (ctx : BuildContext) (plan : HostPlan) (request : Request) :
    List (BuildContext × String) :=
  match selectedRoute env plan request with
  | none => []
  | some (host, route) => routeCourse env (ctx.withHost host) route request

theorem follows_serveHTTP {d : VirtualHostDispatcher}
    {handlers : List (String × Handler)} (htrie : d.routeTrie = .insertAll env.lower handlers)
    (hroutes : List.Forall₂
      (fun entry route => entry.1 = route.1 ∧ RouteFollows env ctx entry.2 route) handlers
      plan.routes)
    (hdefault : Option.Rel (RouteFollows env ctx) d.default_
      (plan.default_.map fun plan => ("_default", plan))) (r : Inbound) :
    Follows (d.serveHTTP env r) (hostCourse env ctx plan r.toRequest) := by
  simp only [VirtualHostDispatcher.serveHTTP, hostCourse, selectedRoute, dispatchHost]
  split
  · exact follows_answered _ _
  · next host hhost =>
    rw [hhost, Option.bind_some, htrie]
    have hpairs : List.Forall₂ (fun entry pair => entry.1 = pair.1 ∧
        RouteFollows env ctx entry.2 pair.2) handlers
        (plan.routes.map fun route => (route.1, route)) :=
      List.forall₂_map_right_iff.mpr hroutes
    -- Both tries find something, or both fall back to the default route.
    have hfound := contains_rel env.lower hpairs host
    generalize (HostTrie.insertAll env.lower handlers).contains env.lower host = found at hfound ⊢
    generalize (HostTrie.insertAll env.lower (plan.routes.map
      fun route => (route.1, route))).contains env.lower host = planned at hfound ⊢
    generalize d.default_ = default_ at hdefault ⊢
    generalize plan.default_.map (fun plan => ("_default", plan)) = fallback at hdefault ⊢
    cases hfound with
    | some hfollows => exact hfollows r
    | none =>
      cases hdefault with
      | none => exact follows_answered _ _
      | some hfollows => exact hfollows r

theorem refines_buildHostDispatcher (hctx : Scoped port ctx) (defaultTarget : Option RouteTarget)
    (routes : List Route) :
    Refines WellFormed (buildHostDispatcher env ctx defaultTarget routes)
      (planHosts env.site defaultTarget routes) fun result plan =>
        (∀ r, Follows (result.1 r) (hostCourse env ctx plan r.toRequest)) ∧
          result.2 = (plan.backends, plan.snapshots) := by
  rw [buildHostDispatcher, planHosts]
  apply refines_bind (refines_foldlM (I := HostsFollow env ctx)
    ⟨⟨[], rfl, .nil⟩, rfl, rfl⟩ fun route _ acc plan h => refines_addRoute env hctx h route)
  intro acc plan h
  apply refines_bind (refines_buildDefault env hctx defaultTarget)
  rintro ⟨default_, backends, snapshots⟩ ⟨defaultPlan, _⟩ ⟨hdefault, rfl⟩
  obtain ⟨handlers, htrie, hroutes⟩ := h.trie
  have hempty : acc.routeTrie.hasAnyEntry = !plan.routes.isEmpty := by
    rw [htrie, hasAnyEntry_insertAll, Bool.eq_iff_iff, Bool.not_eq_true', Bool.not_eq_true',
      ← Bool.not_eq_true, ← Bool.not_eq_true, List.isEmpty_iff_length_eq_zero,
      List.isEmpty_iff_length_eq_zero, hroutes.length_eq]
  have hnone : default_.isNone = (defaultPlan.map fun plan => ("_default", plan)).isNone := by
    change Option.Rel _ default_ (defaultPlan.map _) at hdefault
    generalize defaultPlan.map (fun plan => ("_default", plan)) = fallback at hdefault ⊢
    cases hdefault with
    | none | some => rfl
  rw [Option.isNone_map] at hnone
  simp only [hempty, hnone, Bool.not_not]
  split
  · exact refines_throw
  · apply refines_pure
    refine ⟨follows_serveHTTP env (d := ⟨acc.routeTrie, default_⟩) htrie hroutes hdefault, ?_⟩
    rw [h.backends, h.snapshots]

end

def listenerContext (port : Int) : BuildContext :=
  (buildMiddlewareContext.withPort port).withServerId (serverIdOf port)

theorem scoped_listenerContext (port : Int) : Scoped port (listenerContext port) :=
  .inr ⟨rfl, rfl, rfl⟩

/-! ## The global chain -/

section

variable (env : Env)

def GlobalDispatcher.chain (d : GlobalDispatcher) : Option (Handler → Handler) :=
  match d.globalConfig, d.globalChain with
  | some _, some globalChain => some globalChain
  | _, _ => none

def GlobalDispatcher.wrap (d : GlobalDispatcher) : Handler → Handler := d.chain.getD id

def globalPass (global : Option GlobalConfig) (request : Request) : Option Request :=
  match global with
  | none => some request
  | some g =>
    forwardAll env.toEnv globalContext
      (if g.middlewares.configs.length = 0 then []
        else effective g.middlewares.configs g.disableDefaults)
      (arrival env g.trustedProxies request)

theorem layered_buildGlobalChain (global : GlobalConfig) :
    Refines WellFormed (buildGlobalChain env buildMiddlewareContext global)
      (planGlobal (some global)) fun result names =>
        result.2 = names ∧ Layered result.1 (forwardAll env.toEnv globalContext
          (if global.middlewares.configs.length = 0 then []
            else effective global.middlewares.configs global.disableDefaults))
          (globalLayer (some global)) := by
  rw [buildGlobalChain, planGlobal, globalLayer]
  by_cases hnone : global.middlewares.configs.length = 0
  · rw [if_neg (by omega), if_neg (by omega), if_pos hnone, if_pos hnone]
    exact refines_pure ⟨rfl, layered_id⟩
  · rw [if_pos (by omega), if_pos (by omega), if_neg hnone, if_neg hnone]
    have hscoped : Scoped 0 globalContext := .inl rfl
    have hchain := refines_buildMiddlewareChain env.toEnv hscoped global.middlewares.configs
      global.disableDefaults
    apply refines_bind hchain
    rintro ⟨wrapped, appliedMw⟩ _ ⟨rfl, hlayered⟩
    exact refines_pure ⟨rfl, hlayered⟩

theorem refines_initGlobalDispatcher (global : Option GlobalConfig) :
    Refines WellFormed (initGlobalDispatcher env buildMiddlewareContext global)
      (planGlobal global) fun d names =>
        d.globalMwNames = names ∧ Layered d.wrap (globalPass env global) (globalLayer global) := by
  cases global with
  | none => exact refines_pure ⟨rfl, layered_id⟩
  | some global =>
    rw [initGlobalDispatcher]
    split
    · next hnone =>
      obtain ⟨hlength, htrusted⟩ := hnone
      rw [Option.isNone_iff_eq_none] at htrusted
      have hpass : globalPass env (some global) = some := by
        funext request
        rw [globalPass, if_pos hlength, htrusted]
        rfl
      rw [planGlobal, if_neg (by omega), hpass, globalLayer, if_pos hlength]
      exact refines_pure ⟨rfl, layered_id⟩
    · have hchain := layered_buildGlobalChain env global
      rw [← bind_pure (planGlobal (some global))]
      apply refines_bind hchain
      rintro ⟨chain, names⟩ _ ⟨rfl, hlayered⟩
      exact refines_pure
        ⟨rfl, hlayered.wrapTrustedProxies env global.trustedProxies⟩

end

end Torii.Proxy
