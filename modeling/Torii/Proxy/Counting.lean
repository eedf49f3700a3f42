import Torii.Metrics.Batch
import Torii.Proxy.Dispatch

/-!
# How often a request is counted

Every layer may contain `Metrics`, and by default every layer does. The contract of the builders is
`Accounted`: a handler sends one report for each reporting `Metrics` middleware that a request
enters, under a name that is live.
-/

namespace Torii.Proxy

open Go Go.Http Strconv Torii.Middleware Torii.Metrics Torii.Metrics.Manager Fallible

def enteredOf (events : List Event) : List (BuildContext × String) :=
  events.filterMap fun event =>
    match event with
    | .entered ctx type => some (ctx, type)
    | _ => none

def reportsOf (events : List Event) : List RequestMetric :=
  events.filterMap fun event =>
    match event with
    | .report metric => some metric
    | _ => none

/-- The name that an entered middleware reports under. -/
def reportedAs (entry : BuildContext × String) : Option String :=
  if entry.2 = "Metrics" then reportName entry.1 else none

/-- One report for each reporting middleware that was entered, all under live names. -/
structure Accounted (port : Int) (h : Manager) (events : List Event) : Prop where
  names : ((reportsOf events).map RequestMetric.connectionName).Perm
    ((enteredOf events).filterMap reportedAs)
  live : ∀ m ∈ reportsOf events, Tracked port h m.connectionName

section

variable {port : Int} {h h' : Manager} {events : List Event}

theorem Accounted.mono (ha : Accounted port h events) (hgrown : Grown h h') :
    Accounted port h' events :=
  ⟨ha.names, fun m hm => (ha.live m hm).mono hgrown⟩

theorem accounted_answered (who : String) : Accounted port h [.answered who] :=
  ⟨.nil, fun _ hm => by cases hm⟩

theorem accounted_proxied (address : String) : Accounted port h [.proxied address] :=
  ⟨.nil, fun _ hm => by cases hm⟩

variable {ctx : BuildContext} {type : String}

theorem Accounted.enter (ha : Accounted port h events) (hnone : reportedAs (ctx, type) = none) :
    Accounted port h (.entered ctx type :: events) := by
  refine ⟨?_, ha.live⟩
  change ((reportsOf events).map _).Perm (((ctx, type) :: enteredOf events).filterMap reportedAs)
  rw [List.filterMap_cons_none hnone]
  exact ha.names

theorem Accounted.enter_report (ha : Accounted port h events) {metric : RequestMetric}
    (hname : reportedAs (ctx, type) = some metric.connectionName)
    (hlive : Tracked port h metric.connectionName) :
    Accounted port h (.entered ctx type :: (events ++ [.report metric])) := by
  have hreports : reportsOf (.entered ctx type :: (events ++ [.report metric])) =
      reportsOf events ++ [metric] := by
    simp [reportsOf]
  have hentered : enteredOf (.entered ctx type :: (events ++ [.report metric])) =
      (ctx, type) :: enteredOf events := by
    simp [enteredOf]
  refine ⟨?_, ?_⟩
  · rw [hreports, hentered, List.filterMap_cons_some hname, List.map_append]
    exact (List.perm_append_singleton _ _).trans (ha.names.cons _)
  · rw [hreports]
    exact List.forall_mem_append.mpr ⟨ha.live, List.forall_mem_singleton.mpr hlive⟩

end

/-- The contract of a wrapper, from the state it was built in on. -/
def Transparent (port : Int) (h : Manager) (wrap : Handler → Handler) : Prop :=
  ∀ h', Grown h h' → ∀ next : Handler, (∀ r, Accounted port h' (next r)) →
    ∀ r, Accounted port h' (wrap next r)

theorem Transparent.mono {port : Int} {h h' : Manager} {wrap : Handler → Handler}
    (ht : Transparent port h wrap) (hgrown : Grown h h') : Transparent port h' wrap :=
  fun h'' hgrown' => ht h'' (hgrown.trans hgrown')

theorem transparent_id (port : Int) (h : Manager) : Transparent port h id :=
  fun _ _ _ hnext => hnext

/-- The contexts of a listener and of the global chain. -/
def Scoped (port : Int) (ctx : BuildContext) : Prop :=
  ctx.overrideMetricsName = globalMetricsConName ∨
    ctx.overrideMetricsName = "" ∧ ctx.port = port ∧ ctx.serverId = serverIdOf port

section

variable {port : Int} {ctx : BuildContext} {h : Manager}

theorem trackMetricsForConnection_global (wf : WellFormed h) (serverId : String) :
    h.trackMetricsForConnection serverId globalMetricsConName = some h := by
  obtain ⟨p, hp⟩ := wf.global
  rw [Manager.trackMetricsForConnection, rank, if_pos rfl, trackToDepth, hp]

variable {name : String}

theorem track_of_reportName (hctx : Scoped port ctx) (hname : reportName ctx = some name)
    (wf : WellFormed h) :
    ∃ h', Middleware.trackMetricsForConnection ctx.serverId name h = (.ok name, h') ∧
      WellFormed h' ∧ Grown h h' ∧ Tracked port h' name := by
  have hcon : (if ctx.overrideMetricsName = "" then (ctx.scopedName "metric").toOption
      else some ctx.overrideMetricsName) = some name := by
    rw [reportName] at hname
    grind
  rcases hctx with hglobal | ⟨hoverride, hport, hserver⟩
  · rw [hglobal, if_neg (by decide)] at hcon
    cases hcon
    have htrack := trackMetricsForConnection_global wf ctx.serverId
    exact ⟨h, by rw [Middleware.trackMetricsForConnection, htrack], wf, .refl h, wf.global,
      .inr rfl⟩
  · rw [hoverride, if_pos rfl, BuildContext.scopedName, BuildContext.portString, hport] at hcon
    by_cases hzero : port = 0
    · rw [if_pos hzero, if_pos rfl] at hcon
      cases hcon
    · rw [if_neg hzero, if_neg (itoa_ne_empty port)] at hcon
      cases hcon
      obtain ⟨h', htrack, wf', hgrown, hbound⟩ := track_spec wf port ctx.host ctx.path
      rw [hserver]
      exact ⟨h', by rw [Middleware.trackMetricsForConnection, htrack], wf', hgrown, hbound,
        .inl (family_buildConnectionName port ctx.host ctx.path)⟩

theorem ensures_track (hctx : Scoped port ctx) (hname : reportName ctx = some name)
    (wf : WellFormed h) :
    Ensures WellFormed Grown h
      (Middleware.trackMetricsForConnection ctx.serverId name)
      fun result h' => result = name ∧ Tracked port h' name := by
  obtain ⟨h', htrack, wf', hgrown, htracked⟩ := track_of_reportName hctx hname wf
  apply ensures_of_run htrack wf' hgrown
  rintro result ⟨⟩
  exact ⟨rfl, htracked⟩

variable (env : Middleware.Env) (hctx : Scoped port ctx) (wf : WellFormed h)

include hctx wf

theorem ensures_resolveReportFunc :
    Ensures WellFormed Grown h (resolveReportFunc ctx) fun result h' =>
      result = reportName ctx ∧ ∀ name, result = some name → Tracked port h' name := by
  rw [resolveReportFunc]
  cases hname : reportName ctx with
  | none =>
    apply ensures_pure wf
    exact ⟨rfl, fun name h => by cases h⟩
  | some name =>
    apply ensures_bind (ensures_track hctx hname wf)
    rintro result h' wf' - ⟨rfl, htracked⟩
    apply ensures_pure wf'
    refine ⟨rfl, ?_⟩
    rintro name ⟨⟩
    exact htracked

theorem ensures_middlewareFunc (conf : Config) :
    Ensures WellFormed Grown h (middlewareFunc env ctx conf) fun fn h' =>
      Transparent port h' fun next r => .entered ctx conf.type :: fn next r := by
  rw [middlewareFunc]
  split
  · next htype =>
    apply ensures_bind (ensures_resolveReportFunc hctx wf)
    rintro result h' wf' - ⟨hresult, htracked⟩
    apply ensures_pure wf'
    intro h'' hgrown next hnext r
    have hreported : reportedAs (ctx, conf.type) = result := by
      rw [reportedAs, if_pos htype, hresult]
    cases result with
    | none => exact (hnext r).enter hreported
    | some name => exact (hnext r).enter_report hreported ((htracked name rfl).mono hgrown)
  · next htype =>
    apply ensures_pure wf
    intro h' _ next hnext r
    apply Accounted.enter _ (if_neg htype)
    rw [otherMiddleware]
    cases env.forward ctx conf r.toRequest with
    | none => exact accounted_answered conf.type
    | some request => exact hnext _

theorem ensures_applyLoop (middlewares : List Config) :
    Ensures WellFormed Grown h (applyLoop env ctx middlewares) fun result h' =>
      Transparent port h' result.1 := by
  induction middlewares with
  | nil => exact ensures_pure wf (transparent_id port h)
  | cons conf rest ih =>
    rw [applyLoop]
    apply ensures_bind ih
    rintro ⟨inner, applied⟩ h' wf' - hinner
    cases getMiddleware conf.type with
    | error e => exact ensures_throw wf'
    | ok entry =>
      apply ensures_bind (ensures_middlewareFunc env hctx wf' _)
      intro fn h'' wf'' hgrown hfn
      apply ensures_pure wf''
      intro g hg next hnext
      exact hfn g hg _ (hinner g (hgrown.trans hg) next hnext)

theorem ensures_buildMiddlewareChain (middlewares : List Config) (disableDefaults : Bool) :
    Ensures WellFormed Grown h (buildMiddlewareChain env ctx middlewares disableDefaults)
      fun result h' => Transparent port h' result.1 := by
  rw [buildMiddlewareChain]
  split
  · exact ensures_pure wf (transparent_id port h)
  · exact ensures_applyLoop env hctx wf _

end

section

variable (env : Env) {port : Int} {ctx : BuildContext} {h : Manager}

theorem Scoped.withHost (hctx : Scoped port ctx) (host : String) :
    Scoped port (ctx.withHost host) := hctx

theorem Scoped.withPath (hctx : Scoped port ctx) (path : String) :
    Scoped port (ctx.withPath path) := hctx

variable {defaultHandler handler : Handler} {mux : List (String × Handler)}

theorem accounted_wrapTrustedProxies
    (hhandler : ∀ r, Accounted port h (handler r)) (cfg : Option TrustedProxiesConfig)
    (r : Inbound) : Accounted port h (wrapTrustedProxies env handler cfg r) := by
  cases cfg with
  | none => exact hhandler r
  | some cfg =>
    rw [wrapTrustedProxies]
    cases env.newTrustedProxyResolver cfg <;> split <;> exact hhandler _

variable {inner : Handler}

theorem accounted_setForwardedPrefix (hinner : ∀ r, Accounted port h (inner r)) (fwdPrefix : String)
    (r : Inbound) : Accounted port h (setForwardedPrefix fwdPrefix inner r) := by
  rw [setForwardedPrefix]
  split
  · exact hinner r
  · exact hinner _

theorem accounted_stripRulePrefix (hinner : ∀ r, Accounted port h (inner r)) (requested : Bool)
    (pre : String) (r : Inbound) : Accounted port h (stripRulePrefix requested pre inner r) := by
  rw [stripRulePrefix]
  split
  · beta_reduce
    cases Http.stripPrefix pre r.toRequest with
    | none => exact accounted_answered _
    | some request => exact hinner _
  · exact hinner r

theorem accounted_pathBaseHandler {rule : PathRule}
    (hdefault : ∀ r, Accounted port h (defaultHandler r))
    (hbase : pathBaseHandler env defaultHandler rule = .ok handler) (r : Inbound) :
    Accounted port h (handler r) := by
  rw [pathBaseHandler] at hbase
  split at hbase
  · cases hbase
    exact hdefault r
  · simp only [buildPathBackendHandler] at hbase
    split at hbase <;> cases hbase
    apply accounted_stripRulePrefix
    apply accounted_setForwardedPrefix
    exact fun _ => accounted_proxied _

def PathsAccounted (port : Int) (defaultHandler : Handler) (mux : List (String × Handler))
    (h : Manager) : Prop :=
  (∀ r, Accounted port h (defaultHandler r)) ∧
    ∀ entry ∈ mux, ∀ r, Accounted port h (entry.2 r)

theorem PathsAccounted.mono {h' : Manager} (hmux : PathsAccounted port defaultHandler mux h)
    (hgrown : Grown h h') : PathsAccounted port defaultHandler mux h' :=
  ⟨fun r => (hmux.1 r).mono hgrown, fun entry he r => (hmux.2 entry he r).mono hgrown⟩

theorem ensures_handleFunc (wf : WellFormed h) (hmux : PathsAccounted port defaultHandler mux h)
    (hhandler : ∀ r, Accounted port h (handler r)) (pattern : String) :
    Ensures WellFormed Grown h (handleFunc env mux pattern handler) fun mux' h' =>
      PathsAccounted port defaultHandler mux' h' := by
  rw [handleFunc]
  split
  · apply ensures_pure wf
    exact ⟨hmux.1, List.forall_mem_append.mpr ⟨hmux.2, List.forall_mem_singleton.mpr hhandler⟩⟩
  · exact ensures_throw wf

theorem accounted_servePaths (hmux : PathsAccounted port defaultHandler mux h) (r : Inbound) :
    Accounted port h (servePaths env mux r) := by
  rw [servePaths]
  split
  · exact accounted_answered _
  · next handler hselect =>
    obtain ⟨pattern, -, hlookup⟩ := Option.bind_eq_some_iff.mp hselect
    obtain ⟨before, after, hsplit, -⟩ := List.lookup_eq_some_iff.mp hlookup
    exact hmux.2 (pattern, handler) (by simp [hsplit]) r

theorem ensures_addCatchAll (wf : WellFormed h) {acc : PathBuild}
    (hacc : PathsAccounted port defaultHandler acc.mux h) :
    Ensures WellFormed Grown h (addCatchAll env defaultHandler acc)
      fun mux h' => PathsAccounted port defaultHandler mux h' := by
  simp only [addCatchAll]
  split
  · exact ensures_handleFunc env wf hacc hacc.1 "/"
  · exact ensures_pure wf hacc

theorem accounted_routeBaseHandler {target : RouteTarget}
    (hbase : routeBaseHandler env target = .ok handler) (r : Inbound) :
    Accounted port h (handler r) := by
  unfold routeBaseHandler at hbase
  split at hbase
  · dsimp only at hbase
    split at hbase <;> cases hbase
    exact accounted_proxied _
  · split at hbase <;> cases hbase
    exact accounted_answered _

/-- The invariant of the loop over the routes: the trie holds accounted handlers. -/
def TrieAccounted (port : Int) (trie : HostTrie Handler) (h : Manager) : Prop :=
  ∃ routes, trie = .insertAll env.lower routes ∧
    ∀ entry ∈ routes, ∀ r, Accounted port h (entry.2 r)

theorem TrieAccounted.mono {env : Env} {h' : Manager} {trie : HostTrie Handler}
    (htrie : TrieAccounted env port trie h) (hgrown : Grown h h') :
    TrieAccounted env port trie h' := by
  obtain ⟨routes, htrie, hroutes⟩ := htrie
  exact ⟨routes, htrie, fun entry he r => (hroutes entry he r).mono hgrown⟩

theorem accounted_serveHTTP {d : VirtualHostDispatcher}
    (htrie : TrieAccounted env port d.routeTrie h)
    (hdefault : ∀ handler, d.default_ = some handler → ∀ r, Accounted port h (handler r))
    (r : Inbound) : Accounted port h (d.serveHTTP env r) := by
  simp only [VirtualHostDispatcher.serveHTTP]
  split
  · exact accounted_answered _
  · next host _ =>
    split
    · next handler hcontains =>
      obtain ⟨routes, hroutes, hall⟩ := htrie
      rw [hroutes] at hcontains
      obtain ⟨pattern, hmem⟩ := exists_mem_of_contains env.lower hcontains
      exact hall _ hmem r
    · split
      · next handler hsome => exact hdefault handler hsome r
      · exact accounted_answered _

section

variable (hctx : Scoped port ctx) (wf : WellFormed h)

include hctx wf

/-- Step lemma: one path rule. -/
theorem ensures_addPathRule {acc : PathBuild}
    (hacc : PathsAccounted port defaultHandler acc.mux h) (rule : PathRule) :
    Ensures WellFormed Grown h (addPathRule env ctx defaultHandler acc rule)
      fun acc' h' => PathsAccounted port defaultHandler acc'.mux h' := by
  rw [addPathRule]
  split
  · exact ensures_throw wf
  · dsimp only
    split
    · exact ensures_throw wf
    · have hbase : Ensures WellFormed Grown h
          (Fallible.ofExcept (pathBaseHandler env defaultHandler rule))
          fun handler h' => ∀ r, Accounted port h' (handler r) :=
        ensures_ofExcept wf fun handler hok =>
          accounted_pathBaseHandler env hacc.1 hok
      apply ensures_bind hbase
      intro base h₁ wf₁ hgrown₁ hbase
      apply ensures_bind
        (ensures_buildMiddlewareChain env.toEnv (hctx.withPath rule.pattern) wf₁ _ _)
      rintro ⟨chain, appliedMw⟩ h₂ wf₂ hgrown₂ hchain
      have hhandler := accounted_wrapTrustedProxies env
        (hchain h₂ (.refl h₂) base fun r => (hbase r).mono hgrown₂) rule.trustedProxies
      apply ensures_bind
        (ensures_handleFunc env wf₂ (hacc.mono (hgrown₁.trans hgrown₂)) hhandler _)
      intro mux h₃ wf₃ _ hmux
      exact ensures_pure wf₃ hmux

theorem ensures_buildPathDispatcher (hdefault : ∀ r, Accounted port h (defaultHandler r))
    (pathRules : List PathRule) :
    Ensures WellFormed Grown h (buildPathDispatcher env ctx defaultHandler pathRules)
      fun result h' => ∀ r, Accounted port h' (result.1 r) := by
  rw [buildPathDispatcher]
  apply ensures_bind (ensures_foldlM (I := fun acc : PathBuild =>
    PathsAccounted port defaultHandler acc.mux) wf ⟨hdefault, by simp⟩
    fun rule _ acc s ws hacc => ensures_addPathRule env hctx ws hacc rule)
  intro acc h₁ wf₁ _ hacc
  apply ensures_bind (ensures_addCatchAll env wf₁ hacc)
  intro mux h₂ wf₂ _ hmux
  exact ensures_pure wf₂ (accounted_servePaths env hmux)

theorem ensures_buildRoutePaths {base : Handler} (hbase : ∀ r, Accounted port h (base r))
    (target : RouteTarget) :
    Ensures WellFormed Grown h (buildRoutePaths env ctx base target)
      fun result h' => ∀ r, Accounted port h' (result.1 r) := by
  rw [buildRoutePaths]
  split
  · apply ensures_mapError
    exact ensures_buildPathDispatcher env hctx wf hbase target.paths
  · exact ensures_pure wf hbase

theorem ensures_buildRouteHandler (target : RouteTarget) :
    Ensures WellFormed Grown h (buildRouteHandler env ctx target)
      fun result h' => ∀ r, Accounted port h' (result.1 r) := by
  rw [buildRouteHandler]
  have hbase : Ensures WellFormed Grown h
      (Fallible.ofExcept (routeBaseHandler env target))
      fun handler h' => ∀ r, Accounted port h' (handler r) :=
    ensures_ofExcept wf fun handler hok => accounted_routeBaseHandler env hok
  apply ensures_bind hbase
  intro base h₁ wf₁ _ hbase
  apply ensures_bind (ensures_buildRoutePaths env hctx wf₁ hbase target)
  rintro ⟨inner, backends, pathSnapshots⟩ h₂ wf₂ _ hinner
  apply ensures_bind (ensures_mapError _
    (ensures_buildMiddlewareChain env.toEnv hctx wf₂ _ _))
  rintro ⟨chain, appliedMw⟩ h₃ wf₃ hgrown₃ hchain
  apply ensures_pure wf₃
  exact accounted_wrapTrustedProxies env
    (hchain h₃ (.refl h₃) inner fun r => (hinner r).mono hgrown₃) target.trustedProxies

/-- Step lemma: one route. -/
theorem ensures_addRoute {acc : HostBuild} (hacc : TrieAccounted env port acc.routeTrie h)
    (route : Route) :
    Ensures WellFormed Grown h (addRoute env ctx acc route)
      fun acc' h' => TrieAccounted env port acc'.routeTrie h' := by
  rw [addRoute]
  split
  · exact ensures_pure wf hacc
  · apply ensures_bind (ensures_attempt
      (ensures_buildRouteHandler env (hctx.withHost route.host) wf route.target))
    intro built h' wf' hgrown hbuilt
    rcases built with (_ | _ | _) | ⟨handler, pathBackends, snapshot⟩
    · exact ensures_pure wf' (hacc.mono hgrown)
    · exact ensures_throw wf'
    · exact ensures_throw wf'
    · apply ensures_pure wf'
      obtain ⟨routes, htrie, hroutes⟩ := hacc.mono hgrown
      exact ⟨routes ++ [(route.host, handler)], by rw [insertAll_concat, htrie],
        List.forall_mem_append.mpr ⟨hroutes, List.forall_mem_singleton.mpr (hbuilt _ rfl)⟩⟩

variable (defaultTarget : Option RouteTarget)

theorem ensures_buildDefault :
    Ensures WellFormed Grown h (buildDefault env ctx defaultTarget)
      fun result h' => ∀ handler, result.1 = some handler → ∀ r, Accounted port h' (handler r) := by
  cases defaultTarget with
  | none =>
    apply ensures_pure wf
    intro handler hnone
    cases hnone
  | some target =>
    rw [buildDefault]
    apply ensures_bind (ensures_mapError _
      (ensures_buildRouteHandler env (hctx.withHost "_default") wf target))
    rintro ⟨handler, pathBackends, snapshot⟩ h' wf' - hhandler
    apply ensures_pure wf'
    rintro handler' ⟨⟩
    exact hhandler

theorem ensures_buildHostDispatcher (routes : List Route) :
    Ensures WellFormed Grown h (buildHostDispatcher env ctx defaultTarget routes)
      fun result h' => ∀ r, Accounted port h' (result.1 r) := by
  rw [buildHostDispatcher]
  apply ensures_bind (ensures_foldlM (I := fun acc : HostBuild =>
    TrieAccounted env port acc.routeTrie) wf ⟨[], rfl, by simp⟩
    fun route _ acc s ws hacc => ensures_addRoute env hctx ws hacc route)
  intro acc h₁ wf₁ _ hacc
  apply ensures_bind (ensures_buildDefault env hctx wf₁ defaultTarget)
  rintro ⟨default_, backends, snapshots⟩ h₂ wf₂ hgrown₂ hdefault
  dsimp only
  split
  · exact ensures_throw wf₂
  · apply ensures_pure wf₂
    exact accounted_serveHTTP env (d := ⟨acc.routeTrie, default_⟩) (hacc.mono hgrown₂) hdefault

end

theorem ensures_initGlobalDispatcher (wf : WellFormed h) (global : Option GlobalConfig) :
    Ensures WellFormed Grown h (initGlobalDispatcher env ctx global) fun d h' =>
      d.registeredHandlers = ∅ ∧
        ∀ chain, d.globalChain = some chain → Transparent port h' chain := by
  have hempty : ({} : GlobalDispatcher).registeredHandlers = ∅ ∧
      ∀ chain, ({} : GlobalDispatcher).globalChain = some chain → Transparent port h chain :=
    ⟨rfl, fun chain hchain => by cases hchain⟩
  cases global with
  | none => exact ensures_pure wf hempty
  | some global =>
    rw [initGlobalDispatcher]
    split
    · exact ensures_pure wf hempty
    · have hchain : Ensures WellFormed Grown h (buildGlobalChain env ctx global)
          fun result h' => Transparent port h' result.1 := by
        rw [buildGlobalChain]
        split
        · apply ensures_bind (ensures_buildMiddlewareChain env.toEnv (.inl rfl) wf _ _)
          rintro ⟨wrapped, appliedMw⟩ h' wf' - hwrapped
          exact ensures_pure wf' hwrapped
        · exact ensures_pure wf (transparent_id port h)
      apply ensures_bind hchain
      rintro ⟨chain, names⟩ h' wf' - htransparent
      apply ensures_pure wf'
      refine ⟨rfl, ?_⟩
      rintro _ ⟨⟩ g hg next hnext
      exact accounted_wrapTrustedProxies env (htransparent g hg next hnext) _

theorem accounted_registerHandler {d : GlobalDispatcher} {next : Handler}
    (hregistered : d.registeredHandlers = ∅)
    (hchain : ∀ chain, d.globalChain = some chain → Transparent port h chain)
    (hnext : ∀ r, Accounted port h (next r)) (listenerPort : Int) (r : Inbound) :
    Accounted port h ((d.registerHandler listenerPort next).1
      (d.registerHandler listenerPort next).2 r) := by
  unfold GlobalDispatcher.registerHandler
  split
  · next chain _ hsome =>
    apply hchain chain hsome h (.refl h)
    intro r
    rw [GlobalDispatcher.serveHTTP, hregistered]
    split
    · next handler hlookup =>
      rw [GoMap.lookup_insert'] at hlookup
      split at hlookup <;> cases hlookup
      exact hnext r
    · exact accounted_answered _
  · exact hnext r

theorem ensures_buildListener (wf : WellFormed h) (global : Option GlobalConfig)
    (conf : HTTPListener) :
    Ensures WellFormed Grown h (buildListener env global conf)
      fun serve h' => ∀ r, Accounted conf.port h' (serve r) := by
  rw [buildListener]
  apply ensures_bind (ensures_initGlobalDispatcher env wf global)
  rintro d h₁ wf₁ - ⟨hregistered, hchain⟩
  have hctx : Scoped conf.port
      ((buildMiddlewareContext.withPort conf.port).withServerId (serverIdOf conf.port)) :=
    .inr ⟨rfl, rfl, rfl⟩
  have hhosts := ensures_mapError (wrapError .hostDispatcher)
    (ensures_buildHostDispatcher env hctx wf₁ conf.default_ conf.routes)
  have hlistener : Ensures WellFormed Grown h₁
      (buildHandlerChain env buildMiddlewareContext (serverIdOf conf.port) conf d)
      fun result h' => ∀ r, Accounted conf.port h' (result.1.handler result.2 r) := by
    rw [buildHandlerChain]
    apply ensures_bind hhosts
    rintro ⟨hostHandler, backends, routeSnapshots⟩ h₂ wf₂ hgrown₂ hhost
    apply ensures_pure wf₂
    exact accounted_registerHandler hregistered (fun chain hsome =>
      (hchain chain hsome).mono hgrown₂) hhost conf.port
  apply ensures_bind hlistener
  rintro ⟨chain, d'⟩ h₂ wf₂ - hserve
  exact ensures_pure wf₂ hserve

end

/-! ### Requests that run through all layers -/

def globalContext : BuildContext :=
  (buildMiddlewareContext.withServerId "global").withOverrideMetricsName "global"

def routeContext (port : Int) (host : String) : BuildContext :=
  ((buildMiddlewareContext.withPort port).withServerId (serverIdOf port)).withHost host

def layer (ctx : BuildContext) (middlewares : List Config) (disableDefaults : Bool) :
    List (BuildContext × String) :=
  (effective middlewares disableDefaults).map fun conf => (ctx, conf.type)

def globalLayer (global : Option GlobalConfig) : List (BuildContext × String) :=
  match global with
  | none => []
  | some g =>
    if g.middlewares.configs.length = 0 then []
    else layer globalContext g.middlewares.configs g.disableDefaults

def pathLayer (ctx : BuildContext) (rule : Option PathRule) : List (BuildContext × String) :=
  match rule with
  | none => []
  | some rule => layer (ctx.withPath rule.pattern) rule.middlewares.configs rule.disableDefaults

def layers (global : Option GlobalConfig) (port : Int) (host : String) (target : RouteTarget)
    (rule : Option PathRule) : List (BuildContext × String) :=
  globalLayer global ++
    (layer (routeContext port host) target.middlewares.configs target.disableDefaults ++
      pathLayer (routeContext port host) rule)

/-- The request enters every middleware of all layers of a configured route. -/
structure RunsThrough (global : Option GlobalConfig) (conf : HTTPListener) (host : String)
    (target : RouteTarget) (rule : Option PathRule) (events : List Event) : Prop where
  route : ⟨host, target⟩ ∈ conf.routes ∨ host = "_default" ∧ conf.default_ = some target
  path : ∀ r ∈ rule, r ∈ target.paths
  entered : enteredOf events = layers global conf.port host target rule

/-- The number of `Metrics` in a layer: as configured, and at least one with the defaults. -/
def metricsIn (middlewares : List Config) (disableDefaults : Bool) : Nat :=
  if disableDefaults then middlewares.countP (·.type = "Metrics")
  else max 1 (middlewares.countP (·.type = "Metrics"))

def metricsInGlobal (global : Option GlobalConfig) : Nat :=
  match global with
  | none => 0
  | some g =>
    if g.middlewares.configs.length = 0 then 0
    else metricsIn g.middlewares.configs g.disableDefaults

def metricsInPath (rule : Option PathRule) : Nat :=
  match rule with
  | none => 0
  | some rule => metricsIn rule.middlewares.configs rule.disableDefaults

/-- The number of reporting `Metrics` in all layers: with port zero only the global ones
report. -/
def reportingMetrics (global : Option GlobalConfig) (port : Int) (target : RouteTarget)
    (rule : Option PathRule) : Nat :=
  metricsInGlobal global +
    if port = 0 then 0
    else metricsIn target.middlewares.configs target.disableDefaults + metricsInPath rule

theorem length_filterMap_layer (ctx : BuildContext) (middlewares : List Config)
    (disableDefaults : Bool) :
    ((layer ctx middlewares disableDefaults).filterMap reportedAs).length =
      if (reportName ctx).isSome then metricsIn middlewares disableDefaults else 0 := by
  rw [List.length_filterMap_eq_countP, layer, List.countP_map]
  by_cases hname : (reportName ctx).isSome
  · rw [if_pos hname, metricsIn, ← countP_metrics_effective]
    apply List.countP_congr
    intro conf _
    by_cases htype : conf.type = "Metrics" <;> simp [reportedAs, htype, hname]
  · rw [if_neg hname, List.countP_eq_zero]
    intro conf _
    by_cases htype : conf.type = "Metrics" <;> simp_all [reportedAs]

variable (global : Option GlobalConfig) (port : Int) (host : String) (target : RouteTarget)
  (rule : Option PathRule)

theorem isSome_reportName_routeContext (path : String) :
    (reportName ((routeContext port host).withPath path)).isSome ↔ port ≠ 0 := by
  have hserver : serverIdOf port ≠ "" := by
    intro h
    rw [← String.toList_inj] at h
    simp [serverIdOf] at h
  by_cases hport : port = 0 <;>
    simp [reportName, routeContext, buildMiddlewareContext, BuildContext.scopedName,
      BuildContext.portString, BuildContext.withPath, BuildContext.withHost,
      BuildContext.withServerId, BuildContext.withPort, hport, hserver, itoa_ne_empty,
      Except.toOption]

theorem length_filterMap_layers :
    ((layers global port host target rule).filterMap reportedAs).length =
      reportingMetrics global port target rule := by
  have hroute := isSome_reportName_routeContext port host ""
  have hglobal : (reportName globalContext).isSome := by decide
  rw [layers, List.filterMap_append, List.filterMap_append, List.length_append,
    List.length_append, length_filterMap_layer, reportingMetrics]
  congr 1
  · cases global with
    | none => rfl
    | some g =>
      rw [globalLayer, metricsInGlobal]
      split
      · rfl
      · rw [length_filterMap_layer, if_pos hglobal]
  · change (if (reportName ((routeContext port host).withPath "")).isSome then _ else _) + _ = _
    cases rule with
    | none => simp [hroute, pathLayer, metricsInPath]
    | some rule =>
      rw [pathLayer, length_filterMap_layer, metricsInPath]
      simp only [isSome_reportName_routeContext]
      by_cases hport : port = 0 <;> simp [hport]

theorem metricsIn_le (middlewares : ConfigSlice) (disableDefaults : Bool) :
    metricsIn middlewares.configs disableDefaults ≤ 2 ^ 59 := by
  have hcount := List.countP_le_length
    (p := fun conf : Config => decide (conf.type = "Metrics")) (l := middlewares.configs)
  have hlength := middlewares.length_lt
  rw [metricsIn]
  split <;> omega

/-- The number of reports of a request fits into 64 bits. -/
theorem reportingMetrics_lt : reportingMetrics global port target rule < 2 ^ 64 := by
  have hglobal : metricsInGlobal global ≤ 2 ^ 59 := by
    cases global with
    | none => exact Nat.zero_le _
    | some g =>
      rw [metricsInGlobal]
      split
      · exact Nat.zero_le _
      · exact metricsIn_le g.middlewares g.disableDefaults
  have hpath : metricsInPath rule ≤ 2 ^ 59 := by
    cases rule with
    | none => exact Nat.zero_le _
    | some rule => exact metricsIn_le rule.middlewares rule.disableDefaults
  have hroute := metricsIn_le target.middlewares target.disableDefaults
  rw [reportingMetrics]
  split <;> omega

def trackedReporters (h : Manager) (entries : List (BuildContext × String)) : Nat :=
  entries.countP fun entry =>
    (reportedAs entry).any fun name => (h.connectionMetricsMap.lookup name).isSome

theorem Accounted.countP_tracked {port : Int} {h : Manager} {events : List Event}
    (ha : Accounted port h events) (h' : Manager) :
    (reportsOf events).countP
        (fun m => (h'.connectionMetricsMap.lookup m.connectionName).isSome) =
      trackedReporters h' (enteredOf events) := by
  have hperm := ha.names.countP_eq fun name => (h'.connectionMetricsMap.lookup name).isSome
  rw [List.countP_map, List.countP_filterMap] at hperm
  refine hperm.trans (List.countP_congr ?_)
  intro entry _
  cases reportedAs entry <;> rfl

/-- A request that runs through all layers of its route is counted once at every node that
one of its reports reaches, exactly when at most one `Metrics` of the layers reports under a
name that is tracked. The listener is built in any reachable state of the metrics manager,
and the reports are processed in any later one; until the metrics of the listener are
removed, all `Metrics` of the layers report under tracked names. -/
theorem counted_once_iff (env : Env) (global : Option GlobalConfig) (conf : HTTPListener)
    (before after : List Op) {serve : Handler} {h : Manager}
    (hbuild : buildListener env global conf (machine.run new before) = (.ok serve, h))
    (r : Inbound) {host : String} {target : RouteTarget} {rule : Option PathRule}
    (hruns : RunsThrough global conf host target rule (serve r)) :
    (CountedOnce (machine.run h after) (reportsOf (serve r)) ↔
      trackedReporters (machine.run h after) (layers global conf.port host target rule) ≤ 1) ∧
    ((∀ op ∈ after, op ≠ .remove conf.port) →
      trackedReporters (machine.run h after) (layers global conf.port host target rule) =
        reportingMetrics global conf.port target rule) := by
  obtain ⟨wf, -, hpost⟩ :=
    (ensures_buildListener env (wellFormed_run before).1 global conf).run hbuild
  have haccounted := hpost serve rfl r
  have hlength : (reportsOf (serve r)).length = reportingMetrics global conf.port target rule := by
    have hperm := haccounted.names.length_eq
    rwa [List.length_map, hruns.entered, length_filterMap_layers] at hperm
  rw [← hruns.entered, ← haccounted.countP_tracked]
  refine ⟨?_, ?_⟩
  · apply countedOnce_iff
    · exact machine.run_invariant WellFormed (fun _ op hs => (wellFormed_step hs op).1) wf after
    · rw [hlength]
      exact reportingMetrics_lt global conf.port target rule
  · intro hafter
    rw [← hlength, List.countP_eq_length]
    intro m hm
    obtain ⟨⟨p, hp⟩, -⟩ := (tracked_run wf hafter).2 _ (haccounted.live m hm)
    rw [hp]
    rfl

section

def sampleMatches (pattern path : String) : Bool :=
  let stem := Strings.take pattern ((Strings.index pattern catchAll).getD pattern.length)
  if Strings.hasSuffix stem '/' then stem.toList.isPrefixOf path.toList else pattern = path

def sampleEnv : Env where
  forward _ conf request :=
    if hasTerminatingMiddleware [conf] then none else some request
  measure _ _ := sampleReport ""
  lower := Char.toLower
  muxAccepts patterns pattern := pattern ∉ patterns
  muxSelect patterns request := patterns.find? (sampleMatches · request.path)
  newReverseProxy _ _ := .ok ()
  newTrustedProxyResolver _ := .error "no valid trusted proxy CIDRs provided"

def sampleRule (disableDefaults : Bool) : PathRule where
  pattern := "/api/*"
  disableDefaults := disableDefaults

def sampleTarget (disableDefaults : Bool) : RouteTarget where
  backend := { address := "http://10.0.0.5" }
  paths := [sampleRule disableDefaults]

def sampleListener (disableDefaults : Bool) : HTTPListener where
  port := 8080
  routes := [⟨"a.com", sampleTarget disableDefaults⟩]

def sampleBuild (disableDefaults : Bool) : Except Failure Handler × Manager :=
  buildListener sampleEnv none (sampleListener disableDefaults) (machine.run new [])

def handlerOf (result : Except Failure Handler) : Handler :=
  match result with
  | .ok serve => serve
  | .error _ => fun _ => []

theorem eq_handlerOf {outcome : Except Failure Handler × Manager}
    (hok : outcome.1.isOk = true) : outcome = (.ok (handlerOf outcome.1), outcome.2) := by
  obtain ⟨result, h⟩ := outcome
  cases result with
  | ok serve => rfl
  | error failure => cases hok

def sampleServe (disableDefaults : Bool) : Handler := handlerOf (sampleBuild disableDefaults).1

def sampleInbound : Inbound where
  remoteAddr := "192.0.2.1:4711"
  header := ∅
  host := "a.com"
  path := "/api/users"

theorem sampleInbound_runsThrough (disableDefaults : Bool) :
    RunsThrough none (sampleListener disableDefaults) "a.com" (sampleTarget disableDefaults)
      (some (sampleRule disableDefaults)) (sampleServe disableDefaults sampleInbound) where
  route := .inl (List.mem_singleton.mpr rfl)
  path := by
    rintro rule ⟨⟩
    exact List.mem_singleton.mpr rfl
  entered := by
    cases disableDefaults <;> decide +kernel

/-- Without the defaults in the path rule, the request is counted once. -/
theorem counted_once_without_path_defaults :
    CountedOnce (machine.run (sampleBuild true).2 [])
      (reportsOf (sampleServe true sampleInbound)) :=
  (counted_once_iff sampleEnv none (sampleListener true) [] []
    (eq_handlerOf (by decide +kernel)) sampleInbound (sampleInbound_runsThrough true)).1.mpr
      (by decide +kernel)

/-- With the defaults in every layer, the route and its path rule both report: the host is
counted twice. -/
theorem default_layers_counted_twice :
    (sampleBuild false).1.isOk = true ∧
      RunsThrough none (sampleListener false) "a.com" (sampleTarget false)
        (some (sampleRule false)) (sampleServe false sampleInbound) ∧
      ∃ p, (sampleBuild false).2.connectionMetricsMap.lookup "metric-port-8080-host-a.com" =
          some p ∧
        requestCountAt (sampleBuild false).2 p = 0 ∧
        requestCountAt ((reportsOf (sampleServe false sampleInbound)).foldl updateConnectionMetrics
          (sampleBuild false).2) p = 2 :=
  ⟨by decide +kernel, sampleInbound_runsThrough false, 2, by decide +kernel, by decide +kernel,
    by decide +kernel⟩

end

end Torii.Proxy
