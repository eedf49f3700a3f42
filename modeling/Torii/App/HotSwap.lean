import Torii.App.Resubmission
import Torii.Proxy.Course
import Torii.Proxy.SamePlan

/-!
# Hot swap and rebuild

A hot swap leaves the settings of a server as they are, except for what it takes from the new chain.
It is made when `DoesConfigChangeRequireServerRestart` finds nothing that a new chain cannot change.
The comparison misses nothing, because the settings are always those of the current configuration
(`Current`). The interfaces and the files must be the same at every build.
-/

namespace Torii.App

open Go Torii.Proxy Torii.Netutil Torii.Metrics.Manager ToriiProxy MicroHttpServer
open Torii.Middleware (Handler)
open Torii.Metrics (Manager WellFormed serverIdOf machine wellFormed_run wellFormed_remove)

/-! ## Settings -/

inductive Protocol where
  | http (disableH2C : Bool)
  | https (useAcme disableHTTP2 : Bool) (keyFilePath certFilepath : String)

structure Settings extends Timeouts where
  serverId : String
  bindPort : Int
  iPV4BindInterface : String
  iPV6BindInterface : String
  middlewareChain : List String
  backends : List String
  routes : List RouteSnapshot
  protocol : Protocol

def coreSettings (core : ServerCore) (protocol : Protocol) : Settings :=
  { core with protocol }

def protocolOf : MicroHttpServer → Protocol
  | .http server => .http server.disableH2C
  | .https server =>
    .https server.useAcme server.disableHTTP2 server.keyFilePath server.certFilepath

def settings (server : MicroHttpServer) : Settings := coreSettings server.core (protocolOf server)

def configuredProtocol (conf : Listener) : Protocol :=
  match conf.tls with
  | some tls => .https tls.useAcme conf.disableHTTP2 tls.key tls.cert
  | none => .http conf.disableHTTP2

def configuredSettings (conf : Listener) (ipv4 ipv6 : String) (backends : List String)
    (routes : List RouteSnapshot) : Settings where
  toTimeouts := conf.toTimeouts
  serverId := serverIdOf conf.port
  bindPort := conf.port
  iPV4BindInterface := ipv4
  iPV6BindInterface := ipv6
  middlewareChain := collectMiddlewareNames routes
  backends := backends
  routes := routes
  protocol := configuredProtocol conf

variable (conf : Listener) (server : MicroHttpServer) (chain : Chain) (built : HandlerChain)

theorem settings_newServer (ipv4 ipv6 : String) (chain : Chain) (built : HandlerChain) :
    settings (newServer conf ipv4 ipv6 chain built) =
      configuredSettings conf ipv4 ipv6 built.backends built.routeSnapshots := by
  rw [newServer, configuredSettings, configuredProtocol]
  cases conf.tls with
  | none | some => rfl

theorem getCurrentConfig_newServer (ipv4 ipv6 : String) (chain : Chain) (built : HandlerChain) :
    (newServer conf ipv4 ipv6 chain built).getCurrentConfig = conf := by
  rw [newServer]
  split <;> rfl

@[simp] theorem protocolOf_withCore (core : ServerCore) :
    protocolOf (server.withCore core) = protocolOf server := by
  cases server with
  | http | https => rfl

theorem settings_swapped (conf : Listener) : settings (server.swapped chain built conf) =
      { settings server with
        middlewareChain := collectMiddlewareNames built.routeSnapshots
        backends := built.backends
        routes := built.routeSnapshots } := by
  rw [settings, swapped_core, swapped, updateServerMetadata,
    protocolOf_withCore, protocolOf_withCore]
  rfl

theorem getCurrentConfig_swapped (conf : Listener) :
    (server.swapped chain built conf).getCurrentConfig = conf := by
  rw [getCurrentConfig, swapped_core]

/-! ## Servers that are as their configuration says -/

structure Current (site : Site) (net : Interfaces) (names : List String) (port : Int)
    (server : MicroHttpServer) : Prop where
  port_eq : server.getCurrentConfig.port = port
  given : server.getCurrentConfig.toTimeouts.Given
  built : ∃ ipv4 ipv6 plan, listenerAddresses net server.getCurrentConfig = .ok (ipv4, ipv6) ∧
    planHosts site server.getCurrentConfig.default_ server.getCurrentConfig.routes = .ok plan ∧
    settings server = configuredSettings server.getCurrentConfig ipv4 ipv6 plan.backends
      (withGlobalNames names plan.snapshots)

structure SameBinding (a b : Listener) : Prop where
  port : a.port = b.port
  bind : a.bind = b.bind
  interface : a.interface = b.interface
  toTimeouts : a.toTimeouts = b.toTimeouts
  disableHTTP2 : a.disableHTTP2 = b.disableHTTP2
  tls : a.tls = b.tls

section

variable {site : Site} {net : Interfaces} {names : List String} {port : Int}
  {server : MicroHttpServer} {conf : Listener}

theorem Current.withCore (h : Current site net names port server) {core : ServerCore}
    (hconf : core.currentConfig = server.core.currentConfig)
    (hsettings : ∀ protocol, coreSettings core protocol = coreSettings server.core protocol) :
    Current site net names port (server.withCore core) := by
  have hcurrent : (server.withCore core).getCurrentConfig = server.getCurrentConfig := by
    rw [getCurrentConfig, core_withCore, hconf]
    rfl
  have hsame : settings (server.withCore core) = settings server := by
    rw [settings, core_withCore, protocolOf_withCore, hsettings]
    rfl
  constructor
  · rw [hcurrent]
    exact h.port_eq
  · rw [hcurrent]
    exact h.given
  · rw [hcurrent, hsame]
    exact h.built

theorem sameBinding_of_unchanged {current : Listener}
    (h : bindingChanged current conf = false) (htls : conf.tls = current.tls) :
    SameBinding conf current := by
  simp only [bindingChanged, Bool.or_eq_false_iff, bne_eq_false_iff_eq] at h
  obtain ⟨⟨⟨⟨hbind, hinterface⟩, hport⟩, htimeouts⟩, hhttp2⟩ := h
  exact ⟨hport.symm, hbind.symm, hinterface.symm, htimeouts.symm, hhttp2, htls⟩

theorem Current.sameBinding (h : Current site net names port server)
    (hrestart : server.doesConfigChangeRequireServerRestart conf = some false) :
    SameBinding conf server.getCurrentConfig := by
  obtain ⟨ipv4, ipv6, plan, -, -, hsettings⟩ := h.built
  have hprotocol : protocolOf server = configuredProtocol server.getCurrentConfig :=
    congrArg Settings.protocol hsettings
  cases server with
  | http server =>
    -- The server was built without TLS, so its configuration has none.
    have hnone : server.currentConfig.tls = none := by
      rw [configuredProtocol] at hprotocol
      split at hprotocol
      · exact absurd hprotocol (by simp [protocolOf])
      · next hnone => exact hnone
    have hrestart := Option.some.inj hrestart
    rw [ToriiHttpServer.doesConfigChangeRequireServerRestart, Bool.or_eq_false_iff,
      Option.isSome_eq_false_iff, Option.isNone_iff_eq_none] at hrestart
    exact sameBinding_of_unchanged hrestart.1 (hrestart.2.trans hnone.symm)
  | https server =>
    change server.doesConfigChangeRequireServerRestart conf = some false at hrestart
    rw [ToriiHttpsServer.doesConfigChangeRequireServerRestart] at hrestart
    split at hrestart
    · exact absurd hrestart (by simp)
    · next hbinding =>
      split at hrestart
      · exact absurd hrestart (by simp)
      · next newTLS hnew =>
        obtain ⟨tls, htls, hsame⟩ := Option.map_eq_some_iff.mp hrestart
        rw [bne_eq_false_iff_eq] at hsame
        refine sameBinding_of_unchanged (Bool.eq_false_iff.mpr hbinding) ?_
        rw [hnew, ← hsame]
        exact htls.symm

theorem SameBinding.listenerAddresses {a b : Listener} (h : SameBinding a b)
    (net : Interfaces) : listenerAddresses net a = listenerAddresses net b := by
  rw [Proxy.listenerAddresses, Proxy.listenerAddresses, h.interface, h.bind]

theorem SameBinding.configuredSettings {a b : Listener} (h : SameBinding a b)
    (ipv4 ipv6 : String) (backends : List String) (routes : List RouteSnapshot) :
    configuredSettings a ipv4 ipv6 backends routes =
      configuredSettings b ipv4 ipv6 backends routes := by
  rw [App.configuredSettings, App.configuredSettings, configuredProtocol, configuredProtocol,
    h.toTimeouts, h.port, h.tls, h.disableHTTP2]

end

/-! ## Builds -/

section

variable {env : Env} {net : Interfaces} {conf : Listener} {ipv4 ipv6 : String} {plan : HostPlan}

theorem plan_of_built {mgr manager : Manager} (wf : WellFormed mgr) {host : Handler}
    {backends : List String} {snapshots : List RouteSnapshot}
    (hhost : hostDispatcherOf env (serverIdOf conf.port) conf.toHTTPListener mgr =
      (.ok (host, backends, snapshots), manager)) :
    ∃ plan, planHosts env.site conf.default_ conf.routes = .ok plan ∧
      backends = plan.backends ∧ snapshots = plan.snapshots := by
  obtain ⟨-, plan, hplan, -, hmeta⟩ :=
    (refines_buildHostDispatcher env (scoped_listenerContext conf.port) conf.default_
      conf.routes).of_ok wf hhost
  exact ⟨plan, hplan, (Prod.mk.inj hmeta).1, (Prod.mk.inj hmeta).2⟩

variable {s : BuildState}

theorem buildHttpServer_of_plan (wf : WellFormed s.metricsManager) (hgiven : conf.toTimeouts.Given)
    (haddresses : listenerAddresses net conf = .ok (ipv4, ipv6))
    (hplan : planHosts env.site conf.default_ conf.routes = .ok plan) :
    ∃ fresh, (buildHttpServer env net conf s).1 = .ok fresh ∧ fresh.getCurrentConfig = conf ∧
      settings fresh = configuredSettings conf ipv4 ipv6 plan.backends
        (withGlobalNames s.gDispatcher.globalMwNames plan.snapshots) := by
  obtain ⟨⟨host, backends, snapshots⟩, manager, hhost, -, -, hmeta⟩ :=
    (refines_buildHostDispatcher env (scoped_listenerContext conf.port) conf.default_
      conf.routes).of_spec wf hplan
  obtain ⟨rfl, rfl⟩ := Prod.mk.inj hmeta
  have hdefaults := applyDefaultTimeouts_of_given hgiven
  rw [← hdefaults] at haddresses
  rw [buildHttpServer_of_addresses haddresses, hdefaults]
  rw [buildRuntimeChain_of_ok hhost]
  exact ⟨_, rfl, getCurrentConfig_newServer _ _ _ _ _, settings_newServer _ _ _ _ _⟩

theorem Current.rebuild {port : Int} {server : MicroHttpServer}
    (h : Current env.site net s.gDispatcher.globalMwNames port server)
    (wf : WellFormed s.metricsManager) :
    ∃ fresh, (buildHttpServer env net server.getCurrentConfig s).1 = .ok fresh ∧
      fresh.getCurrentConfig = server.getCurrentConfig ∧ settings server = settings fresh := by
  obtain ⟨ipv4, ipv6, plan, haddresses, hplan, hsettings⟩ := h.built
  obtain ⟨fresh, hfresh, hconf, hfreshSettings⟩ :=
    buildHttpServer_of_plan wf h.given haddresses hplan
  exact ⟨fresh, hfresh, hconf, hsettings.trans hfreshSettings.symm⟩

end

/-! ## Runs -/

/-- What holds of a registry in which hot swaps are checked and all builds see the same
interfaces and files. -/
structure Kept (site : Site) (net : Interfaces) (m : ToriiProxy) : Prop where
  metrics : WellFormed m.metricsManager
  servers : ∀ i server, m.entry i = some server →
    Current site net m.gDispatcher.globalMwNames i.port server

/-- The operation builds with these interfaces and files, and a hot swap needs no restart. -/
def Checked (site : Site) (net : Interfaces) (m : ToriiProxy) : Op → Prop
  | .addHttpServer env net' _ => env.site = site ∧ net' = net
  | .hotSwapHandler env port conf _ =>
    env.site = site ∧ m.doesConfigRequireServerRestart port conf = .ok false
  | _ => True

section

variable {site : Site} {net : Interfaces} {m : ToriiProxy} {op : Op}
  {conf : Listener} {server : MicroHttpServer}

theorem Kept.checked (h : Kept site net m) {port : Int}
    (hrestart : m.doesConfigRequireServerRestart port conf = .ok false)
    (hserver : m.findServer port = some server) :
    Current site net m.gDispatcher.globalMwNames port server ∧
      SameBinding conf server.getCurrentConfig ∧ server.getServerId = serverIdOf conf.port := by
  obtain ⟨server', hserver', hfalse⟩ := noRestart_iff.mp hrestart
  obtain rfl := Option.some.inj (hserver.symm.trans hserver')
  have hcurrent := h.servers (m.slotOf port) server ((m.entry_slotOf port).trans hserver)
  rw [port_slotOf] at hcurrent
  have hbinding := hcurrent.sameBinding hfalse
  obtain ⟨ipv4, ipv6, plan, -, -, hsettings⟩ := hcurrent.built
  have hserverId : server.getServerId = serverIdOf server.getCurrentConfig.port :=
    congrArg Settings.serverId hsettings
  exact ⟨hcurrent, hbinding, hserverId.trans (by rw [hbinding.port])⟩

theorem wellFormed_checked (h : Kept site net m) (hop : Checked site net m op) :
    WellFormed (torii.step m op).2.metricsManager := by
  have hbuilt (env : Env) (conf : Listener) := (refines_buildHostDispatcher env
    (scoped_listenerContext conf.port) conf.default_ conf.routes _ h.metrics).1
  rw [metricsManager_step]
  cases hrequest : op.request m with
  | none => exact h.metrics
  | some request =>
    cases op with
    | addHttpServer env net' conf =>
      rw [request_add_eq_some hrequest]
      exact hbuilt env conf
    | hotSwapHandler env port conf sameNils =>
      obtain ⟨server, hserver, rfl⟩ := request_hotSwap_eq_some hrequest
      rw [(h.checked hop.2 hserver).2.2]
      exact hbuilt env conf
    | startHttpProxy env port
    | stopHttpProxy port shutdown
    | deleteHttpProxy port shutdown => exact absurd hrequest (by simp [Op.request])

theorem coreSettings_stop (core : ServerCore) (shutdown : Option String) (protocol : Protocol) :
    coreSettings (core.stop shutdown).2 protocol = coreSettings core protocol := by
  rw [ServerCore.stop]
  split <;> rfl

theorem current_newServer {env : Env} {ipv4 ipv6 : String} {host : Handler}
    {backends : List String} {snapshots : List RouteSnapshot} {manager : Manager} (s : BuildState)
    (wf : WellFormed s.metricsManager)
    (haddresses : listenerAddresses net (applyDefaultTimeouts conf) = .ok (ipv4, ipv6))
    (hhost : hostDispatcherOf env (serverIdOf conf.port) conf.toHTTPListener s.metricsManager =
      (.ok (host, backends, snapshots), manager)) :
    Current env.site net s.gDispatcher.globalMwNames conf.port
      (newServer (applyDefaultTimeouts conf) ipv4 ipv6 (chainOf s conf.toHTTPListener host)
        (s.built conf.toHTTPListener host backends snapshots)) := by
  obtain ⟨plan, hplan, rfl, rfl⟩ := plan_of_built wf hhost
  constructor
  · rw [getCurrentConfig_newServer]
    rfl
  · rw [getCurrentConfig_newServer]
    exact conf.toTimeouts.given_withDefaults
  · rw [getCurrentConfig_newServer, settings_newServer]
    exact ⟨ipv4, ipv6, plan, haddresses, hplan, rfl⟩

theorem Current.swapped {names : List String} {port : Int} (h : Current site net names port server)
    (hbinding : SameBinding conf server.getCurrentConfig) {plan : HostPlan}
    (hplan : planHosts site conf.default_ conf.routes = .ok plan) (chain : Chain)
    (built : HandlerChain) (hbackends : built.backends = plan.backends)
    (hroutes : built.routeSnapshots = withGlobalNames names plan.snapshots) :
    Current site net names port (server.swapped chain built conf) := by
  obtain ⟨ipv4, ipv6, plan', haddresses, -, hsettings⟩ := h.built
  constructor
  · rw [getCurrentConfig_swapped, hbinding.port]
    exact h.port_eq
  · rw [getCurrentConfig_swapped, hbinding.toTimeouts]
    exact h.given
  · rw [getCurrentConfig_swapped]
    refine ⟨ipv4, ipv6, plan, ?_, hplan, ?_⟩
    · rw [hbinding.listenerAddresses]
      exact haddresses
    · rw [settings_swapped, hsettings, hbinding.configuredSettings, hbackends, hroutes]
      rfl

theorem Kept.step (h : Kept site net m) (hop : Checked site net m op) :
    Kept site net (torii.step m op).2 := by
  refine ⟨wellFormed_checked h hop, ?_⟩
  intro i server hentry
  rw [globalMwNames_step]
  cases origin hentry with
  | kept hold => exact h.servers i server hold
  | startFailed _ _ hserver | started _ hserver =>
    have hcurrent := h.servers _ _ (startable_eq_some.mp hserver).2.2
    exact hcurrent.withCore rfl fun _ => rfl
  | shutdownFailed hop' hserver hstop | stopped hserver hstop =>
    have hcurrent := h.servers _ _ (stoppable_eq_some.mp hserver).2.2
    exact hcurrent.withCore (currentConfig_stop _ _) (coreSettings_stop _ _)
  | added haddresses hhost =>
    obtain ⟨rfl, rfl⟩ := hop
    exact current_newServer m.toBuildState h.metrics haddresses hhost
  | swapped hold hchanged hhost =>
    obtain ⟨rfl, hrestart⟩ := hop
    obtain ⟨hcurrent, hbinding, hserverId⟩ :=
      h.checked hrestart ((m.entry_slotOf _).symm.trans hold)
    rw [hserverId] at hhost
    obtain ⟨plan, hplan, rfl, rfl⟩ := plan_of_built h.metrics hhost
    rw [port_slotOf]
    exact hcurrent.swapped hbinding hplan _ _ rfl rfl

end

def AgreesWithRebuild (env : Env) (net : Interfaces) (port : Int) (conf : Listener)
    (sameNils : Bool) (m : ToriiProxy) : Prop :=
  ∃ server fresh, (m.hotSwapHandler env port conf sameNils).2.findServer port = some server ∧
    (buildHttpServer env net conf m.toBuildState).1 = .ok fresh ∧
    settings server = settings fresh ∧
    sameListener server.getCurrentConfig fresh.getCurrentConfig = true

/-- A checked hot swap that succeeds agrees with a rebuild. -/
theorem Kept.agrees {net : Interfaces} {m : ToriiProxy} {env : Env} (h : Kept env.site net m)
    {port : Int} {conf : Listener} {sameNils : Bool}
    (hrestart : m.doesConfigRequireServerRestart port conf = .ok false)
    (hswap : (m.hotSwapHandler env port conf sameNils).1 = .ok ()) :
    AgreesWithRebuild env net port conf sameNils m := by
  have htransition := transition_hotSwap m env port conf sameNils
  rw [AgreesWithRebuild]
  rw [hswap] at htransition
  generalize (m.hotSwapHandler env port conf sameNils).2 = m' at htransition ⊢
  cases htransition with
  | unchanged hserver hsame =>
    obtain ⟨hcurrent, hbinding, -⟩ := h.checked hrestart hserver
    obtain ⟨ipv4, ipv6, plan, haddresses, hplan, hsettings⟩ := hcurrent.built
    rw [unchanged, Bool.and_eq_true] at hsame
    -- The plan of the equal configuration reports the same.
    have hrelated := related_planHosts env.site hsame.2
    rw [hplan] at hrelated
    cases hplan' : planHosts env.site conf.default_ conf.routes with
    | error failure =>
      rw [hplan'] at hrelated
      exact absurd hrelated id
    | ok plan' =>
      rw [hplan'] at hrelated
      rw [← hbinding.listenerAddresses] at haddresses
      obtain ⟨fresh, hfresh, hconf, hfreshSettings⟩ := buildHttpServer_of_plan
        h.metrics (hbinding.toTimeouts ▸ hcurrent.given) haddresses hplan'
      refine ⟨_, fresh, hserver, hfresh, ?_, ?_⟩
      · rw [hsettings, hfreshSettings, hbinding.configuredSettings, hrelated.backends,
          hrelated.snapshots]
      · rw [hconf]
        exact hsame.2
  | @swapped _ _ _ _ server host backends snapshots manager hserver hchanged hhost =>
    obtain ⟨hcurrent, hbinding, hserverId⟩ := h.checked hrestart hserver
    rw [hserverId] at hhost
    obtain ⟨plan, hplan, rfl, rfl⟩ := plan_of_built h.metrics hhost
    have hswapped := hcurrent.swapped hbinding hplan
      (chainOf m.toBuildState conf.toHTTPListener host)
      (m.built conf.toHTTPListener host plan.backends plan.snapshots) rfl rfl
    obtain ⟨fresh, hfresh, hconf, hsettings⟩ := hswapped.rebuild h.metrics
    rw [getCurrentConfig_swapped] at hfresh hconf
    refine ⟨_, fresh, findServer_updateServer _ _ _, hfresh, hsettings, ?_⟩
    rw [getCurrentConfig_swapped, hconf]
    exact sameListener_refl conf

/-! ## The service -/

def Uses (site : Site) (net : Interfaces) : ServiceOp → Prop
  | .addHttpListener env net' _ => env.site = site ∧ net' = net
  | .editProxy env _ _ => env.build.site = site ∧ env.net = net
  | _ => True

section

variable {site : Site} {net : Interfaces} {m : ToriiProxy}

theorem mem_performed {calls : List ProxyCall} {op : Op} (h : op ∈ performed calls m) :
    ∃ call ∈ calls, call.op = op := by
  induction calls generalizing m with
  | nil => exact absurd h (by simp [performed])
  | cons call calls ih =>
    rw [performed, List.mem_cons] at h
    obtain rfl | h := h
    · exact ⟨call, List.mem_cons_self, rfl⟩
    · split at h
      · obtain ⟨call', hcall', rfl⟩ := ih h
        exact ⟨call', List.mem_cons_of_mem _ hcall', rfl⟩
      · exact absurd h (by simp)

variable {ops : List Op} {op : ServiceOp}

theorem steps_checked (h : ∀ op ∈ ops, ∀ m, Checked site net m op) :
    torii.Steps (Checked site net) m ops :=
  torii.steps_of_invariant (fun _ => True) (fun op => ∀ m, Checked site net m op)
    (fun m _ hop _ => hop m) (fun _ _ _ _ => trivial) h trivial

theorem checked_editOps {env : EditEnv} (hsite : env.build.site = site) (hnet : env.net = net)
    (port : Int) (conf : Listener) (m : ToriiProxy) :
    torii.Steps (Checked site net) m (editOps env port conf m) := by
  rw [editOps]
  cases hrestart : m.doesConfigRequireServerRestart port conf with
  | error fault => trivial
  | ok restart =>
    cases restart with
    | false =>
      refine ⟨⟨hsite, hrestart⟩, ?_⟩
      split <;> trivial
    | true =>
      apply steps_checked
      intro op hop m'
      obtain ⟨call, hcall, rfl⟩ := mem_performed hop
      simp only [editCalls, restartCalls, if_true, List.mem_append, List.mem_cons,
        List.not_mem_nil, or_false] at hcall
      obtain (hstop | rfl | rfl) | hstart := hcall
      · split at hstop
        · rw [List.mem_singleton.mp hstop]
          trivial
        · exact absurd hstop (by simp)
      · trivial
      · exact ⟨hsite, hnet⟩
      · split at hstart
        · rw [List.mem_singleton.mp hstart]
          trivial
        · exact absurd hstart (by simp)

theorem checked_ops (hop : Uses site net op) (m : ToriiProxy) :
    torii.Steps (Checked site net) m (op.ops m) := by
  cases op with
  | start | stop =>
    apply steps_checked
    intro op hmem m'
    obtain ⟨port, -, rfl⟩ := List.mem_map.mp hmem
    trivial
  | startProxy | stopProxy | deleteProxy => exact ⟨trivial, trivial⟩
  | addHttpListener => exact ⟨hop, trivial⟩
  | editProxy env port conf => exact checked_editOps hop.1 hop.2 port conf m

theorem Kept.run (h : Kept site net m) (hops : torii.Steps (Checked site net) m ops) :
    Kept site net (torii.run m ops) :=
  torii.run_of_steps (Kept site net) (fun _ _ hop h => h.step hop) hops h

theorem Kept.service_step (h : Kept site net m) (hop : Uses site net op) :
    Kept site net (service.step m op).2 := by
  have hrun := h.run (checked_ops hop m)
  obtain hstep | ⟨port, shutdown, -, hstep⟩ := service_step_cases m op
  · rw [hstep]
    exact hrun
  · rw [hstep]
    exact ⟨wellFormed_remove hrun.metrics port, hrun.servers⟩

theorem kept_newTorii {env : Env} {conf : NetworkConfig} {before : List Metrics.Op}
    {hasAcmeService : Bool}
    (hm : newTorii env net conf (machine.run new before) hasAcmeService = some m) :
    Kept env.site net m := by
  obtain ⟨dGlobal, mgr, hinit, rfl⟩ := newTorii_eq_run hm
  obtain ⟨wf, -⟩ :=
    (refines_initGlobalDispatcher env conf.global).of_ok (wellFormed_run before).1 hinit
  have hempty : Kept env.site net (.empty dGlobal mgr hasAcmeService) := by
    refine ⟨wf, ?_⟩
    intro i server hentry
    cases i with
    | stopped | started => exact absurd hentry (by simp [empty])
  apply hempty.run
  apply steps_checked
  intro op hop m'
  obtain ⟨conf, -, rfl⟩ := List.mem_map.mp hop
  exact ⟨rfl, rfl⟩

end

/-- In every state of the service, if all builds see the same interfaces and files, a hot swap
that needs no restart and succeeds leaves the server as a rebuild would make it. -/
theorem hot_swap_agrees (env₀ : Env) (net : Interfaces) (network : NetworkConfig)
    (before : List Metrics.Op) (hasAcmeService : Bool) {m₀ : ToriiProxy}
    (hboot : newTorii env₀ net network (machine.run new before) hasAcmeService = some m₀)
    (ops : List ServiceOp) (hops : ∀ op ∈ ops, Uses env₀.site net op) (env : Env)
    (hsite : env.site = env₀.site) (port : Int) (conf : Listener) (sameNils : Bool)
    (hrestart : (service.run m₀ ops).doesConfigRequireServerRestart port conf = .ok false)
    (hswap : ((service.run m₀ ops).hotSwapHandler env port conf sameNils).1 = .ok ()) :
    AgreesWithRebuild env net port conf sameNils (service.run m₀ ops) := by
  have hrun : Kept env₀.site net (service.run m₀ ops) :=
    service.run_induction (Kept env₀.site net) (Uses env₀.site net)
      (fun _ _ hop h => h.service_step hop) hops (kept_newTorii hboot)
  rw [← hsite] at hrun
  exact hrun.agrees hrestart hswap

section

def movedGiven : Listener :=
  { givenListener with
    default_ := some
      { backend := { address := "http://127.0.0.1:4000" }, disableDefaults := true } }

/-- A started server gets another backend. -/
theorem swapped_backend_agrees :
    AgreesWithRebuild smallEnv smallNet 8080 movedGiven true
      (service.run smallTorii
        [.addHttpListener smallEnv smallNet givenListener, .startProxy smallStart 8080]) := by
  apply hot_swap_agrees smallEnv smallNet {} [] false rfl _ _ smallEnv rfl
  · decide +kernel
  · decide +kernel
  · intro op hop
    obtain rfl | rfl := List.mem_pair.mp hop
    · exact ⟨rfl, rfl⟩
    · trivial

def certListener : Listener :=
  { givenListener with
    routes :=
      [⟨"a.com",
        { backend :=
            { address := "https://10.0.0.6", tls := some { caCert := "/etc/torii/ca.pem" } }
          disableDefaults := true }⟩] }

/-- Reverse proxies with a CA certificate cannot be made. -/
def withoutCerts : Env :=
  { smallEnv with
    newReverseProxy := fun _ opts =>
      if opts.tls.any (·.caCert ≠ "") then .error "failed to read proxy backend CA certificate"
      else .ok () }

def certService : ToriiProxy :=
  service.run smallTorii [.addHttpListener smallEnv smallNet certListener]

/-- The configuration has not changed, so that the hot swap builds nothing, but a rebuild would
leave out the route whose certificate is gone. -/
theorem skipped_swap_differs :
    certService.doesConfigRequireServerRestart 8080 certListener = .ok false ∧
      (certService.hotSwapHandler withoutCerts 8080 certListener true).1 = .ok () ∧
      ((certService.hotSwapHandler withoutCerts 8080 certListener true).2.findServer 8080).map
          (fun server => (settings server).backends) =
        some ["https://10.0.0.6", "http://127.0.0.1:3000"] ∧
      (buildHttpServer withoutCerts smallNet certListener certService.toBuildState).1.toOption.map
          (fun fresh => (settings fresh).backends) = some ["http://127.0.0.1:3000"] := by
  decide +kernel

end

end Torii.App
