import Torii.Proxy.Isolation

/-!
# The order of the middlewares

A request enters the global middlewares, then those of its route and then those of its path rule,
each layer in configured order with the missing defaults in front. The route is the one that the
request selects as the global middlewares pass it on, and the path rule the one that it selects
below the middlewares of the route.
-/

namespace Torii.Proxy

open Go Go.Http Torii.Middleware Torii.Netutil Torii.Metrics.Manager
open Torii.Metrics (Manager WellFormed serverIdOf machine wellFormed_run)

/-! ## Plans follow the configuration -/

section

variable (site : Site)

/-- The mux of a route has rules of the route only. -/
def RulesOf (pathRules : List PathRule) (mux : MuxPlan) : Prop :=
  ∀ pattern rule, (pattern, some rule) ∈ mux → rule ∈ pathRules

def PlanOf (target : RouteTarget) (plan : RoutePlan) : Prop :=
  plan.target = target ∧ ∀ mux, plan.mux = some mux → RulesOf target.paths mux

structure PlannedFrom (defaultTarget : Option RouteTarget) (routes : List Route)
    (plan : HostPlan) : Prop where
  routes : ∀ route ∈ plan.routes, ∃ target, ⟨route.1, target⟩ ∈ routes ∧ PlanOf target route.2
  default_ : ∀ route, plan.default_ = some route →
    ∃ target, defaultTarget = some target ∧ PlanOf target route

variable {site} {pathRules : List PathRule}

theorem rulesOf_planPattern {mux mux' : MuxPlan} (h : RulesOf pathRules mux) {pattern : String}
    {rule : Option PathRule} (hrule : ∀ r, rule = some r → r ∈ pathRules)
    (hplan : planPattern site mux pattern rule = .ok mux') : RulesOf pathRules mux' := by
  rw [planPattern] at hplan
  split at hplan
  · rw [← Except.ok.inj hplan]
    intro pattern' rule' hmem
    obtain hold | hnew := List.mem_append.mp hmem
    · exact h pattern' rule' hold
    · rw [List.mem_singleton, Prod.mk.injEq] at hnew
      exact hrule rule' hnew.2.symm
  · exact absurd hplan (by simp)

theorem rulesOf_planPathRule {rule : PathRule} (hrule : rule ∈ pathRules) {acc acc' : PathPlan}
    (h : RulesOf pathRules acc.mux) (hplan : planPathRule site acc rule = .ok acc') :
    RulesOf pathRules acc'.mux := by
  rw [planPathRule] at hplan
  split at hplan
  · exact absurd hplan (by simp)
  · dsimp only at hplan
    split at hplan
    · exact absurd hplan (by simp)
    · obtain ⟨-, -, hplan⟩ := Except.bind_eq_ok.mp hplan
      obtain ⟨appliedMw, -, hplan⟩ := Except.bind_eq_ok.mp hplan
      obtain ⟨mux, hmux, hplan⟩ := Except.bind_eq_ok.mp hplan
      rw [← Except.ok.inj hplan]
      exact rulesOf_planPattern h (fun r hr => Option.some.inj hr ▸ hrule) hmux

theorem rulesOf_planPaths {plan : MuxPlan × List String × List PathSnapshot}
    (hplan : planPaths site pathRules = .ok plan) : RulesOf pathRules plan.1 := by
  obtain ⟨acc, hacc, hplan⟩ := Except.bind_eq_ok.mp hplan
  obtain ⟨mux, hmux, hplan⟩ := Except.bind_eq_ok.mp hplan
  rw [← Except.ok.inj hplan]
  have hrules : RulesOf pathRules acc.mux :=
    Except.foldlM_induction (I := fun acc => RulesOf pathRules acc.mux) (by simp [RulesOf])
      (fun rule hrule acc acc' h => rulesOf_planPathRule hrule h) hacc
  rw [planCatchAll] at hmux
  split at hmux
  · exact rulesOf_planPattern hrules (by simp) hmux
  · rw [← Except.ok.inj hmux]
    exact hrules

theorem planOf_planRoute {target : RouteTarget} {plan : RoutePlan}
    (hplan : planRoute site target = .ok plan) : PlanOf target plan := by
  obtain ⟨-, -, hplan⟩ := Except.bind_eq_ok.mp hplan
  obtain ⟨⟨mux, backends, snapshots⟩, hpaths, hplan⟩ := Except.bind_eq_ok.mp hplan
  obtain ⟨appliedMw, -, hplan⟩ := Except.bind_eq_ok.mp hplan
  rw [← Except.ok.inj hplan]
  refine ⟨rfl, ?_⟩
  rintro mux' hmux
  rw [planRoutePaths] at hpaths
  split at hpaths
  · obtain ⟨paths, hpaths, heq⟩ := Except.map_eq_ok.mp hpaths
    obtain rfl : paths.1 = mux' := Option.some.inj ((Prod.mk.inj heq).1.trans hmux)
    exact rulesOf_planPaths (Except.mapError_eq_ok.mp hpaths)
  · rw [← (Prod.mk.inj (Except.ok.inj hpaths)).1] at hmux
    exact absurd hmux (by simp)

theorem planHosts_planned {defaultTarget : Option RouteTarget} {routes : List Route}
    {plan : HostPlan} (hplan : planHosts site defaultTarget routes = .ok plan) :
    PlannedFrom defaultTarget routes plan := by
  obtain ⟨acc, hacc, hplan⟩ := Except.bind_eq_ok.mp hplan
  obtain ⟨⟨default_, backends, snapshots⟩, hdefault, hplan⟩ := Except.bind_eq_ok.mp hplan
  dsimp only at hplan
  split at hplan
  · exact absurd hplan (by simp)
  · rw [← Except.ok.inj hplan]
    constructor
    · apply Except.foldlM_induction (I := fun acc => ∀ route ∈ acc.routes,
        ∃ target, ⟨route.1, target⟩ ∈ routes ∧ PlanOf target route.2) (by simp) _ hacc
      intro route hroute acc acc' h hadd
      rw [planAddRoute] at hadd
      split at hadd
      · rw [← Except.ok.inj hadd]
        exact h
      · rw [HostPlan.add.eq_def] at hadd
        split at hadd
        · rw [← Except.ok.inj hadd]
          exact h
        · exact absurd hadd (by simp)
        · next routePlan hrouteplan =>
          rw [← Except.ok.inj hadd]
          intro route' hmem
          obtain hold | hnew := List.mem_append.mp hmem
          · exact h route' hold
          · rw [List.mem_singleton.mp hnew]
            exact ⟨route.target, hroute, planOf_planRoute hrouteplan⟩
    · intro route hroute
      cases defaultTarget with
      | none =>
        rw [← (Prod.mk.inj (Except.ok.inj hdefault)).1] at hroute
        exact absurd hroute (by simp)
      | some target =>
        obtain ⟨routePlan, hrouteplan, hdefault⟩ := Except.bind_eq_ok.mp hdefault
        obtain rfl : routePlan = route :=
          Option.some.inj ((Prod.mk.inj (Except.ok.inj hdefault)).1.trans hroute)
        exact ⟨target, rfl, planOf_planRoute (Except.mapError_eq_ok.mp hrouteplan)⟩

end

/-! ## The matched route and path rule -/

structure Match where
  host : String
  target : RouteTarget
  rule : Option PathRule

structure Match.Configured (found : Match) (conf : HTTPListener) : Prop where
  route : ⟨found.host, found.target⟩ ∈ conf.routes ∨
    found.host = "_default" ∧ conf.default_ = some found.target
  rule : ∀ rule, found.rule = some rule → rule ∈ found.target.paths

section

variable (env : Env)

def matched (global : Option GlobalConfig) (port : Int) (plan : HostPlan) (request : Request) :
    Option Match := do
  let request ← globalPass env global request
  let (host, route) ← selectedRoute env plan request
  let passed := forwardAll env.toEnv (routeContext port host)
    (effective route.target.middlewares.configs route.target.disableDefaults)
    (arrival env route.target.trustedProxies request)
  some ⟨host, route.target, passed.bind fun request =>
    route.mux.bind fun mux => selectedRule env mux request⟩

/-- The middlewares of a request, in order: all layers, or the global one alone when no route
is selected. -/
def orderOf (global : Option GlobalConfig) (port : Int) : Option Match →
    List (BuildContext × String)
  | none => globalLayer global
  | some found => layers global port found.host found.target found.rule

theorem below_pathCourse (ctx : BuildContext) (mux : Option MuxPlan) (passed : Option Request) :
    below passed (pathCourse env ctx mux) = pathLayer ctx (passed.bind fun request =>
      mux.bind fun mux => selectedRule env mux request) := by
  cases passed with
  | none | some => rfl

theorem hostCourse_eq (global : Option GlobalConfig) (port : Int) (plan : HostPlan)
    (request : Request) : globalLayer global ++ below (globalPass env global request)
      (hostCourse env (listenerContext port) plan) =
        orderOf global port (matched env global port plan request) := by
  rw [matched]
  cases globalPass env global request with
  | none => exact List.append_nil _
  | some request =>
    rw [below, hostCourse, Option.bind_eq_bind, Option.bind_some]
    cases selectedRoute env plan request with
    | none => exact List.append_nil _
    | some found =>
      obtain ⟨host, route⟩ := found
      change globalLayer global ++ routeCourse env (routeContext port host) route request =
        globalLayer global ++ (_ ++ _)
      rw [routeCourse, below_pathCourse]

variable {request : Request} {conf : HTTPListener} {plan : HostPlan}

theorem mem_of_selectedRule {mux : MuxPlan} {rule : PathRule}
    (h : selectedRule env mux request = some rule) : ∃ pattern, (pattern, some rule) ∈ mux := by
  obtain ⟨pattern, -, hlookup⟩ := Option.bind_eq_some_iff.mp (Option.join_eq_some_iff.mp h)
  obtain ⟨before, after, hsplit, -⟩ := List.lookup_eq_some_iff.mp hlookup
  exact ⟨pattern, by simp [hsplit]⟩

theorem planOf_selectedRoute (hplan : PlannedFrom conf.default_ conf.routes plan) {host : String}
    {route : RoutePlan} (h : selectedRoute env plan request = some (host, route)) :
    ∃ target, PlanOf target route ∧
      (⟨host, target⟩ ∈ conf.routes ∨ host = "_default" ∧ conf.default_ = some target) := by
  obtain ⟨name, -, h⟩ := Option.bind_eq_some_iff.mp h
  split at h
  · next hfound =>
    obtain rfl := Option.some.inj h
    obtain ⟨pattern, hmem⟩ := exists_mem_of_contains env.lower hfound
    obtain ⟨route', hroute', heq⟩ := List.mem_map.mp hmem
    obtain rfl := (Prod.mk.inj heq).2
    obtain ⟨target, htarget, hof⟩ := hplan.routes _ hroute'
    exact ⟨target, hof, .inl htarget⟩
  · obtain ⟨route', hroute', heq⟩ := Option.map_eq_some_iff.mp h
    obtain ⟨rfl, rfl⟩ := Prod.mk.inj heq
    obtain ⟨target, htarget, hof⟩ := hplan.default_ route' hroute'
    exact ⟨target, hof, .inr ⟨rfl, htarget⟩⟩

theorem configured_matched {global : Option GlobalConfig} {port : Int}
    (hplan : planHosts env.site conf.default_ conf.routes = .ok plan) {found : Match}
    (h : matched env global port plan request = some found) : found.Configured conf := by
  obtain ⟨request', -, h⟩ := Option.bind_eq_some_iff.mp h
  obtain ⟨⟨host, route⟩, hselect, h⟩ := Option.bind_eq_some_iff.mp h
  rw [← Option.some.inj h]
  obtain ⟨target, ⟨rfl, hrules⟩, hroute⟩ :=
    planOf_selectedRoute env (planHosts_planned hplan) hselect
  refine ⟨hroute, ?_⟩
  intro rule hrule
  obtain ⟨passed, -, hrule⟩ := Option.bind_eq_some_iff.mp hrule
  obtain ⟨mux, hmux, hrule⟩ := Option.bind_eq_some_iff.mp hrule
  obtain ⟨pattern, hmem⟩ := mem_of_selectedRule env hrule
  exact hrules mux hmux pattern rule hmem

end

/-! ## Layers with their defaults -/

theorem layer_eq (ctx : BuildContext) (middlewares : List Config) (disableDefaults : Bool) :
    layer ctx middlewares disableDefaults =
      ((if disableDefaults then [] else missingDefaults middlewares) ++
        middlewares.map Config.type).map fun type => (ctx, type) := by
  rw [layer, effective]
  cases disableDefaults with
  | true => simp
  | false =>
    simp [applyDefaultMiddlewares_eq]
    rfl

theorem missingDefaults_applyDefaultMiddlewares (middlewares : List Config) :
    missingDefaults (applyDefaultMiddlewares middlewares) = [] := by
  rw [missingDefaults, List.filter_eq_nil_iff]
  intro name hname
  rw [decide_eq_true_eq, applyDefaultMiddlewares_eq]
  intro hall
  -- A default that the list lacks is one of those put in front.
  have hmissing : name ∈ missingDefaults middlewares :=
    List.mem_filter.mpr ⟨hname, decide_eq_true fun v hv =>
      hall v (List.mem_append_right _ hv)⟩
  exact hall _ (List.mem_append_left _ (List.mem_map_of_mem hmissing)) rfl

theorem applyDefaultMiddlewares_idem (middlewares : List Config) :
    applyDefaultMiddlewares (applyDefaultMiddlewares middlewares) =
      applyDefaultMiddlewares middlewares := by
  conv_lhs => rw [applyDefaultMiddlewares_eq, missingDefaults_applyDefaultMiddlewares]
  rfl

/-! ## The order along a request -/

section

variable {env : Env} {net : Interfaces} {m : ToriiProxy}

theorem wellFormed_add (h : WellFormed m.metricsManager) (conf : Listener) :
    WellFormed (torii.step m (.addHttpServer env net conf)).2.metricsManager := by
  rw [metricsManager_step]
  cases hrequest : (Op.addHttpServer env net conf).request m with
  | none => exact h
  | some request =>
    rw [request_add_eq_some hrequest]
    exact (refines_buildHostDispatcher env (scoped_listenerContext conf.port) conf.default_
      conf.routes _ h).1

theorem wellFormed_adds (h : WellFormed m.metricsManager) (listeners : List Listener) :
    WellFormed (torii.run m (listeners.map (.addHttpServer env net))).metricsManager := by
  apply torii.run_induction (fun m => WellFormed m.metricsManager)
    (fun op => ∃ conf, op = .addHttpServer env net conf) _ _ h
  · rintro m op ⟨conf, rfl⟩ h
    exact wellFormed_add h conf
  · intro op hop
    obtain ⟨conf, -, rfl⟩ := List.mem_map.mp hop
    exact ⟨conf, rfl⟩

theorem follows_of_builtFor (h : WellFormed m.metricsManager) {listeners : List Listener}
    {port : Int} {host : Handler}
    (hhost : host ∈ builtFor port m (listeners.map (.addHttpServer env net))) :
    ∃ conf ∈ listeners, conf.port = port ∧ ∃ plan,
      planHosts env.site conf.default_ conf.routes = .ok plan ∧
      ∀ r, Follows (host r) (hostCourse env (listenerContext port) plan r.toRequest) := by
  obtain ⟨before, op, after, hops, hmem⟩ := torii.mem_collect hhost
  obtain ⟨done, rest, rfl, rfl, hrest⟩ := List.map_eq_append_iff.mp hops
  obtain ⟨conf, rest, rfl, rfl, -⟩ := List.map_eq_cons_iff.mp hrest
  split at hmem
  · next hport =>
    cases hport
    refine ⟨conf, by simp, rfl, ?_⟩
    obtain ⟨request, backends, snapshots, manager, hrequest, hrun⟩ :=
      builtHost_eq_some_iff.mp (Option.mem_toList.mp hmem)
    rw [request_add_eq_some hrequest] at hrun
    obtain ⟨-, plan, hplan, hfollows, -⟩ :=
      (refines_buildHostDispatcher env (scoped_listenerContext conf.port) conf.default_
        conf.routes).of_ok (wellFormed_adds h done) hrun
    exact ⟨plan, hplan, hfollows⟩
  · exact absurd hmem (by simp)

theorem keepsPorts_adds (h : ∀ port, m.entry (.started port) = none) (listeners : List Listener) :
    torii.Steps (fun m op => op.KeepsPorts m) m (listeners.map (.addHttpServer env net)) := by
  apply torii.steps_of_invariant (fun m => ∀ port, m.entry (.started port) = none)
    (fun op => ∃ conf, op = .addHttpServer env net conf) _ _ _ h
  · rintro m op ⟨conf, rfl⟩ h
    exact ⟨fun _ => h conf.port, fun _ => trivial⟩
  · rintro m op ⟨conf, rfl⟩ h port
    rw [Option.eq_none_iff_forall_not_mem]
    intro server hentry
    cases origin hentry with
    | kept hold => exact absurd ((h port).symm.trans hold) (by simp)
    | shutdownFailed hop => simp at hop
  · intro op hop
    obtain ⟨conf, -, rfl⟩ := List.mem_map.mp hop
    exact ⟨conf, rfl⟩

end

/-- Whatever network `NewTorii` builds, a request to one of its servers enters the middlewares
of its layers in order, and all of them before a backend is reached; the layers have their
missing defaults in front, and completing a list twice is completing it once. -/
theorem middleware_order (env : Env) (net : Interfaces) (conf : NetworkConfig)
    (before : List Metrics.Op) (hasAcmeService : Bool) {m : ToriiProxy}
    (hm : newTorii env net conf (machine.run new before) hasAcmeService = some m) {port : Int}
    {server : MicroHttpServer} (hserver : m.stoppedHttpServers.lookup port = some server) :
    (∃ listener ∈ conf.httpListeners, listener.port = port ∧ ∃ plan,
      planHosts env.site listener.default_ listener.routes = .ok plan ∧ ∀ r,
        Follows (server.core.handler.handler m.gDispatcher r)
          (orderOf conf.global port (matched env conf.global port plan r.toRequest)) ∧
        ∀ found, matched env conf.global port plan r.toRequest = some found →
          found.Configured listener.toHTTPListener) ∧
      (∀ ctx middlewares disableDefaults, layer ctx middlewares disableDefaults =
        ((if disableDefaults then [] else missingDefaults middlewares) ++
          middlewares.map Config.type).map fun type => (ctx, type)) ∧
      ∀ middlewares, applyDefaultMiddlewares (applyDefaultMiddlewares middlewares) =
        applyDefaultMiddlewares middlewares := by
  refine ⟨?_, layer_eq, applyDefaultMiddlewares_idem⟩
  obtain ⟨dGlobal, mgr, hinit, rfl⟩ := newTorii_eq_run hm
  obtain ⟨wf, names, -, -, hlayered⟩ :=
    (refines_initGlobalDispatcher env conf.global).of_ok (wellFormed_run before).1 hinit
  have hsteps : torii.Steps (fun m op => op.KeepsPorts m) (.empty dGlobal mgr hasAcmeService)
      (conf.httpListeners.map (.addHttpServer env net)) := keepsPorts_adds (fun _ => rfl) _
  obtain ⟨host, hhost, hserve⟩ := (keptApart_run mgr hasAcmeService hsteps).serve_entry
    hlayered.passesPort (i := .stopped port) hserver
  obtain ⟨listener, hlistener, hport, plan, hplan, hfollows⟩ :=
    follows_of_builtFor wf (List.mem_of_getLast? hhost)
  refine ⟨listener, hlistener, hport, plan, hplan, fun r => ⟨?_, fun found =>
    configured_matched env hplan⟩⟩
  rw [hserve, ← hostCourse_eq, ← GlobalDispatcher.toRequest_entering dGlobal port r]
  exact hlayered.follows _ _ hfollows

/-! ## A network with three layers -/

section

def layeredListener : Listener where
  port := 8080
  bind := ipv4Flag
  routes :=
    [⟨"a.com",
      { backend := { address := "http://10.0.0.5" }
        middlewares := { configs := [{ type := "Metrics" }, { type := "Headers" }] }
        paths := [{ pattern := "/api/*", middlewares := headersOnly }] }⟩]

def layeredNetwork : NetworkConfig where
  httpListeners := [layeredListener]
  global := some oneGlobal

/-- The middlewares of a request below the path rule. -/
def layeredOrder : List (BuildContext × String) :=
  [(globalContext, "Headers")] ++
    (["RequestId", "RequestLog", "Metrics", "Headers"].map fun type =>
      (routeContext 8080 "a.com", type)) ++
    ["RequestId", "RequestLog", "Metrics", "Headers"].map fun type =>
      ((routeContext 8080 "a.com").withPath "/api/*", type)

theorem orderOf_layered : (planHosts sampleEnv.site layeredListener.default_
    layeredListener.routes).toOption.map (fun plan => orderOf (some oneGlobal) 8080
      (matched sampleEnv (some oneGlobal) 8080 plan sampleInbound.toRequest)) =
        some layeredOrder := by
  decide +kernel

/-- The middlewares of all three layers in their order. -/
theorem layered_network_in_order : ∃ m server,
    newTorii sampleEnv smallNet layeredNetwork (machine.run new []) false = some m ∧
      m.stoppedHttpServers.lookup 8080 = some server ∧
      Follows (server.core.handler.handler m.gDispatcher sampleInbound) layeredOrder := by
  have hsome : ((newTorii sampleEnv smallNet layeredNetwork (machine.run new []) false).bind
      fun m => m.stoppedHttpServers.lookup 8080).isSome = true := by
    decide +kernel
  obtain ⟨server, hserver⟩ := Option.isSome_iff_exists.mp hsome
  obtain ⟨m, hm, hserver⟩ := Option.bind_eq_some_iff.mp hserver
  obtain ⟨⟨listener, hlistener, -, plan, hplan, hfollows⟩, -⟩ :=
    middleware_order sampleEnv smallNet layeredNetwork [] false hm hserver
  obtain rfl := List.mem_singleton.mp hlistener
  have horder := orderOf_layered
  rw [hplan] at horder
  refine ⟨m, server, hm, hserver, ?_⟩
  rw [← Option.some.inj horder]
  exact (hfollows sampleInbound).1

end

end Torii.Proxy
