import Torii.Proxy.Course
import Torii.Proxy.Ports

/-!
# Ports and the shared dispatcher

With a global chain the servers of all ports have the same handler but for the port that it puts
into the context of a request. A server serves the host dispatcher that was built last for its port
(`Serving`), as long as a port has one server and a hot swap is given a configuration for the port
of the server; `EditProxy`, the only caller, sees to that, `HotSwapHandler` does not check it.
-/

namespace Torii.Proxy

open Go Go.Http Torii.Middleware Torii.Netutil Torii.Metrics.Manager GlobalDispatcher ToriiProxy
open Torii.Metrics (Manager serverIdOf machine wellFormed_run)

/-! ## The dispatcher -/

namespace GlobalDispatcher

variable {d : GlobalDispatcher} {port : Int} {next : Handler}

theorem registerHandler_of_none (h : d.chain = none) :
    d.registerHandler port next = (fun _ => next, d) := by
  rw [chain] at h
  rw [registerHandler]
  split
  · next hconfig hchain =>
    rw [hconfig, hchain] at h
    exact absurd h (by simp)
  · rfl

theorem registerHandler_of_some {globalChain : Handler → Handler} (h : d.chain = some globalChain) :
    d.registerHandler port next =
      (fun d r => globalChain d.serveHTTP { r with dispatchPort := some port },
        { d with registeredHandlers := d.registeredHandlers.insert port next }) := by
  rw [chain] at h
  split at h
  · next hconfig hchain =>
    rw [registerHandler, hconfig, hchain, Option.some.inj h]
  · exact absurd h (by simp)

@[simp] theorem chain_registerHandler (d : GlobalDispatcher) (port : Int) (next : Handler) :
    (d.registerHandler port next).2.chain = d.chain := by
  cases h : d.chain with
  | none => rw [registerHandler_of_none h, h]
  | some globalChain =>
    rw [registerHandler_of_some h]
    exact h

def entering (d : GlobalDispatcher) (port : Int) (r : Inbound) : Inbound :=
  match d.chain with
  | none => r
  | some _ => { r with dispatchPort := some port }

@[simp] theorem toRequest_entering (d : GlobalDispatcher) (port : Int) (r : Inbound) :
    (d.entering port r).toRequest = r.toRequest := by
  rw [entering]
  split <;> rfl

theorem serveHTTP_of_lookup {host : Handler} {r : Inbound} (hport : r.dispatchPort = some port)
    (hlookup : d.registeredHandlers.lookup port = some host) : d.serveHTTP r = host r := by
  rw [serveHTTP, hport, Option.getD_some, hlookup]

end GlobalDispatcher

/-! ## What a server serves -/

/-- A handler leads to a host dispatcher: it is what registering the dispatcher returns, and
the registration is still there. -/
structure LeadsTo (d : GlobalDispatcher) (port : Int) (host : Handler)
    (handler : GlobalDispatcher → Handler) : Prop where
  handler_eq : handler = (d.registerHandler port host).1
  registered : d.chain.isSome = true → d.registeredHandlers.lookup port = some host

/-- The global chain passes a request to the dispatcher with the port that it came with. -/
def PassesPort (wrap : Handler → Handler) : Prop :=
  ∀ next next' r, (∀ request, next (Inbound.withRequest r request) =
    next' (Inbound.withRequest r request)) → wrap next r = wrap next' r

theorem Layered.passesPort {wrap : Handler → Handler} {pass : Request → Option Request}
    {entries : List (BuildContext × String)} (h : Layered wrap pass entries) : PassesPort wrap :=
  fun next next' r hnext => h.calls next next' r fun request _ => hnext request

section

variable {d : GlobalDispatcher} {port : Int} {host : Handler}
  {handler : GlobalDispatcher → Handler}

theorem leadsTo_registerHandler (d : GlobalDispatcher) (port : Int) (host : Handler) :
    LeadsTo (d.registerHandler port host).2 port host (d.registerHandler port host).1 := by
  cases h : d.chain with
  | none =>
    rw [registerHandler_of_none h]
    refine ⟨by rw [registerHandler_of_none h], ?_⟩
    simp [h]
  | some globalChain =>
    have hchain := (d.chain_registerHandler port host).trans h
    refine ⟨?_, fun _ => ?_⟩
    · rw [registerHandler_of_some hchain,
        registerHandler_of_some h]
    · rw [registerHandler_of_some h]
      exact AList.lookup_insert _

theorem LeadsTo.registerHandler_of_ne (h : LeadsTo d port host handler) {port' : Int}
    (hport : port ≠ port') (next : Handler) :
    LeadsTo (d.registerHandler port' next).2 port host handler := by
  cases hchain : d.chain with
  | none =>
    rw [registerHandler_of_none hchain]
    exact h
  | some globalChain =>
    have hchain' := (d.chain_registerHandler port' next).trans hchain
    refine ⟨?_, fun _ => ?_⟩
    · rw [h.handler_eq, registerHandler_of_some hchain,
        registerHandler_of_some hchain']
    · rw [registerHandler_of_some hchain]
      exact (AList.lookup_insert_ne hport).trans (h.registered (by simp [hchain]))

theorem LeadsTo.serve (h : LeadsTo d port host handler) (hpass : PassesPort d.wrap) (r : Inbound) :
    handler d r = d.wrap host (d.entering port r) := by
  rw [h.handler_eq, entering]
  cases hchain : d.chain with
  | none =>
    rw [registerHandler_of_none hchain, wrap, hchain]
    rfl
  | some globalChain =>
    have hwrap : d.wrap = globalChain := by rw [wrap, hchain]; rfl
    rw [registerHandler_of_some hchain]
    rw [hwrap] at hpass ⊢
    apply hpass
    intro request
    exact serveHTTP_of_lookup rfl (h.registered (by simp [hchain]))

end

/-! ## Host dispatchers along a run -/

def Op.builtHost (m : ToriiProxy) (op : Op) : Option Handler :=
  (op.request m).bind fun request =>
    match (request.host m.metricsManager).1 with
    | .ok (host, _, _) => some host
    | .error _ => none

def builtFor (port : Int) (m : ToriiProxy) (ops : List Op) : List Handler :=
  torii.collect (fun m op => if op.port = port then (op.builtHost m).toList else []) m ops

def Op.latest (m : ToriiProxy) (op : Op) (hosts : Int → Option Handler) (port : Int) :
    Option Handler :=
  if op.port = port then (op.builtHost m).or (hosts port) else hosts port

def Op.Aligned : Op → Prop
  | .hotSwapHandler _ port conf _ => conf.port = port
  | _ => True

/-- The operation keeps ports apart: no server is added on the port of a started one, and
with a global chain a hot swap is for one port. -/
def Op.KeepsPorts (m : ToriiProxy) (op : Op) : Prop :=
  op.KeepsOneServer m ∧ (m.gDispatcher.chain.isSome = true → op.Aligned)

/-- Every server serves the host dispatcher that was built last for its port. -/
def Serving (hosts : Int → Option Handler) (m : ToriiProxy) : Prop :=
  ∀ i server, m.entry i = some server → ∃ host, hosts i.port = some host ∧
    LeadsTo m.gDispatcher i.port host server.core.handler.handler

section

variable {m : ToriiProxy} {op : Op} {server : MicroHttpServer} {manager : Manager} {host : Handler}

theorem builtHost_eq_none_of_failed {request : ChainRequest} {failure : Failure}
    (hrequest : op.request m = some request)
    (hhost : request.host m.metricsManager = (.error failure, manager)) :
    op.builtHost m = none := by
  rw [Op.builtHost, hrequest, Option.bind_some, hhost]

theorem builtHost_eq_some_iff :
    op.builtHost m = some host ↔ ∃ request backends snapshots manager,
      op.request m = some request ∧
        request.host m.metricsManager = (.ok (host, backends, snapshots), manager) := by
  rw [Op.builtHost, Option.bind_eq_some_iff]
  constructor
  · rintro ⟨request, hrequest, hhost⟩
    rcases hrun : request.host m.metricsManager with
      ⟨failure | ⟨host', backends, snapshots⟩, manager⟩
    · rw [hrun] at hhost
      exact absurd hhost (by simp)
    · rw [hrun] at hhost
      exact ⟨request, backends, snapshots, manager, hrequest, by rw [hrun, Option.some.inj hhost]⟩
  · rintro ⟨request, backends, snapshots, manager, hrequest, hhost⟩
    exact ⟨request, hrequest, by rw [hhost]⟩

theorem builtHost_eq_none_of_refused (h : op.Refused m) : op.builtHost m = none := by
  rw [Op.builtHost, request_eq_none_of_refused h, Option.bind_none]

@[simp] theorem handler_newServer (conf : Listener) (ipv4 ipv6 : String) (chain : Chain)
    (built : HandlerChain) : (newServer conf ipv4 ipv6 chain built).core.handler = chain := by
  rw [newServer]
  split <;> rfl

@[simp] theorem handler_stop (core : ServerCore) (shutdown : Option String) :
    (core.stop shutdown).2.handler = core.handler := by
  rw [ServerCore.stop]
  split <;> rfl

variable {conf : Listener} {backends : List String} {snapshots : List RouteSnapshot}

theorem builtHost_add {env : Env} {net : Interfaces} {ipv4 ipv6 : String}
    (haddresses : listenerAddresses net (applyDefaultTimeouts conf) = .ok (ipv4, ipv6))
    (hhost : hostDispatcherOf env (serverIdOf conf.port) conf.toHTTPListener m.metricsManager =
      (.ok (host, backends, snapshots), manager)) :
    (Op.addHttpServer env net conf).builtHost m = some host :=
  builtHost_eq_some_iff.mpr ⟨_, _, _, _, request_add haddresses, hhost⟩

theorem builtHost_hotSwap {env : Env} {port : Int} {sameNils : Bool}
    (hserver : m.findServer port = some server)
    (hchanged : unchanged sameNils server.getCurrentConfig conf = false)
    (hhost : hostDispatcherOf env server.getServerId conf.toHTTPListener m.metricsManager =
      (.ok (host, backends, snapshots), manager)) :
    (Op.hotSwapHandler env port conf sameNils).builtHost m = some host :=
  builtHost_eq_some_iff.mpr ⟨_, _, _, _, request_hotSwap hserver hchanged, hhost⟩

theorem handler_of_not_built (hnone : op.builtHost m = none) {i : Slot}
    (h : (torii.step m op).2.entry i = some server) :
    ∃ j server', m.entry j = some server' ∧ j.port = i.port ∧
      server.core.handler = server'.core.handler := by
  cases origin h with
  | kept hold => exact ⟨i, server, hold, rfl, rfl⟩
  | startFailed _ _ hserver | started _ hserver =>
    exact ⟨_, _, (startable_eq_some.mp hserver).2.2, rfl,
      congrArg (·.handler) (MicroHttpServer.core_withCore ..)⟩
  | shutdownFailed hop hserver hstop | stopped hserver hstop =>
    refine ⟨_, _, (stoppable_eq_some.mp hserver).2.2, rfl, ?_⟩
    rw [MicroHttpServer.core_withCore, handler_stop]
  | added haddresses hhost =>
    rw [builtHost_add haddresses hhost] at hnone
    exact absurd hnone (by simp)
  | swapped hold hchanged hhost =>
    rw [builtHost_hotSwap ((m.entry_slotOf _).symm.trans hold) hchanged hhost] at hnone
    exact absurd hnone (by simp)

theorem entry_eq_none_of_ne (hone : OneServer m) {i j : Slot} (hport : i.port = j.port)
    (hne : i ≠ j) (h : m.entry j = some server) : m.entry i = none := by
  have hport' := hone i.port
  cases i <;> cases j <;> grind [Slot.port, entry]

/-- What an operation does to the dispatcher: nothing, or it registers a new host dispatcher
and gives its handler to the server of the port. -/
inductive HostStep (m : ToriiProxy) (op : Op) (m' : ToriiProxy) : Prop where
  | idle (hnone : op.builtHost m = none) (hdispatcher : m'.gDispatcher = m.gDispatcher)
  | built (host : Handler) (hbuilt : op.builtHost m = some host)
      (hdispatcher : m'.gDispatcher = (m.gDispatcher.registerHandler op.port host).2)
      (hhandler : ∀ i server, i.port = op.port → m'.entry i = some server →
        server.core.handler.handler = (m.gDispatcher.registerHandler op.port host).1)

theorem registerHandler_aligned {d : GlobalDispatcher} {port port' : Int}
    (h : d.chain.isSome = true → port' = port) (host : Handler) :
    d.registerHandler port' host = d.registerHandler port host := by
  cases hchain : d.chain with
  | none =>
    rw [registerHandler_of_none hchain,
      registerHandler_of_none hchain]
  | some globalChain => rw [h (by simp [hchain])]

theorem host_step (hone : OneServer m) (hop : op.KeepsPorts m) :
    HostStep m op (torii.step m op).2 := by
  have htransition := transition m op
  generalize (torii.step m op).1 = answer at htransition
  generalize (torii.step m op).2 = m' at htransition ⊢
  cases htransition with
  | refused e hrefused => exact .idle (builtHost_eq_none_of_refused hrefused) rfl
  | startFailed | started => exact .idle rfl rfl
  | shutdownFailed hstops =>
    obtain rfl | rfl := hstops
    · exact .idle rfl rfl
    · exact .idle rfl rfl
  | stopped | deleted | dropped => exact .idle rfl rfl
  | buildFailed _ hrequest hhost | crashed hrequest _ hhost =>
    exact .idle (builtHost_eq_none_of_failed hrequest hhost) rfl
  | unchanged hserver hsame =>
    refine .idle ?_ rfl
    simp [Op.builtHost, Op.request, hserver, hsame]
  | added haddresses hhost =>
    refine .built _ (builtHost_add haddresses hhost) rfl ?_
    intro i server hport h
    cases i with
    | stopped port =>
      cases hport
      rw [entry_stopped, AList.lookup_insert] at h
      rw [← Option.some.inj h, handler_newServer]
      rfl
    | started port =>
      cases hport
      have hnone := hop.1 ⟨_, _, request_add haddresses, congrArg Prod.fst hhost⟩
      exact absurd (hnone.symm.trans h) (by simp)
  | @swapped env port conf sameNils server' host backends snapshots manager hserver hchanged
      hhost =>
      have hregister := registerHandler_aligned (d := m.gDispatcher) hop.2 host
      refine .built host (builtHost_hotSwap hserver hchanged hhost) ?_ ?_
      · rw [gDispatcher_updateServer]
        exact congrArg Prod.snd hregister
      · intro i server hport h
        rw [entry_updateServer, Function.update_apply] at h
        split at h
        · rw [← Option.some.inj h, swapped_core]
          exact congrArg Prod.fst hregister
        · next hi =>
          have hentry := (m.entry_slotOf port).trans hserver
          rw [entry_eq_none_of_ne hone (hport.trans (port_slotOf m port).symm) hi hentry] at h
          exact absurd h (by simp)

theorem serving_step {hosts : Int → Option Handler} (h : Serving hosts m) (hone : OneServer m)
    (hop : op.KeepsPorts m) : Serving (op.latest m hosts) (torii.step m op).2 := by
  intro i server hentry
  rw [Op.latest]
  cases host_step hone hop with
  | idle hnone hdispatcher =>
    obtain ⟨j, server', hold, hport, hhandler⟩ := handler_of_not_built hnone hentry
    obtain ⟨host, hhost, hleads⟩ := h j server' hold
    rw [hnone, Option.none_or, ite_self, hdispatcher, hhandler, ← hport]
    exact ⟨host, hhost, hleads⟩
  | built host hbuilt hdispatcher hhandler =>
    rw [hdispatcher]
    by_cases hport : i.port = op.port
    · rw [if_pos hport.symm, hbuilt, Option.some_or, hhandler i server hport hentry, hport]
      exact ⟨host, rfl, leadsTo_registerHandler _ _ _⟩
    · rw [entry_step_of_ne hport] at hentry
      obtain ⟨host', hhost', hleads⟩ := h i server hentry
      rw [if_neg (Ne.symm hport)]
      exact ⟨host', hhost', hleads.registerHandler_of_ne hport host⟩

theorem chain_step (hone : OneServer m) (hop : op.KeepsPorts m) :
    (torii.step m op).2.gDispatcher.chain = m.gDispatcher.chain := by
  cases host_step hone hop with
  | idle hnone hdispatcher => rw [hdispatcher]
  | built host hbuilt hdispatcher hhandler =>
    rw [hdispatcher, chain_registerHandler]

end

/-- What holds along a run that keeps ports apart. -/
structure KeptApart (dGlobal : GlobalDispatcher) (hosts : Int → Option Handler)
    (m : ToriiProxy) : Prop where
  consistent : Consistent m
  oneServer : OneServer m
  chain : m.gDispatcher.chain = dGlobal.chain
  serving : Serving hosts m

section

variable {dGlobal : GlobalDispatcher}

theorem KeptApart.step {hosts : Int → Option Handler} {m : ToriiProxy}
    (h : KeptApart dGlobal hosts m) {op : Op} (hop : op.KeepsPorts m) :
    KeptApart dGlobal (op.latest m hosts) (torii.step m op).2 where
  consistent := h.consistent.step op
  oneServer := (oneServer_step_iff h.consistent h.oneServer op).mpr hop.1
  chain := (chain_step h.oneServer hop).trans h.chain
  serving := serving_step h.serving h.oneServer hop

theorem keptApart_empty (dGlobal : GlobalDispatcher) (hosts : Int → Option Handler)
    (mgr : Manager) (hasAcmeService : Bool) :
    KeptApart dGlobal hosts (.empty dGlobal mgr hasAcmeService) where
  consistent := .empty dGlobal mgr hasAcmeService
  oneServer _ := .inl rfl
  chain := rfl
  serving i server hentry := by
    cases i with
    | stopped | started => exact absurd hentry (by simp [empty])

theorem latest_builtFor (m : ToriiProxy) (ops : List Op) (op : Op) :
    op.latest (torii.run m ops) (fun port => (builtFor port m ops).getLast?) =
      fun port => (builtFor port m (ops ++ [op])).getLast? := by
  funext port
  rw [Op.latest, builtFor, builtFor, Machine.collect_concat, List.getLast?_append]
  split
  · cases op.builtHost (torii.run m ops) with
    | none | some => rfl
  · rfl

theorem keptApart_run (mgr : Manager) (hasAcmeService : Bool) {ops : List Op}
    (hops : torii.Steps (fun m op => op.KeepsPorts m) (.empty dGlobal mgr hasAcmeService) ops) :
    KeptApart dGlobal (fun port => (builtFor port (.empty dGlobal mgr hasAcmeService) ops).getLast?)
      (torii.run (.empty dGlobal mgr hasAcmeService) ops) := by
  induction ops using List.reverseRecOn with
  | nil => exact keptApart_empty dGlobal _ mgr hasAcmeService
  | append_singleton ops op ih =>
    rw [Machine.steps_concat] at hops
    rw [Machine.run_concat, ← latest_builtFor]
    exact (ih hops.1).step hops.2

end

def ToriiProxy.serve (m : ToriiProxy) (port : Int) : Option Handler :=
  (m.startedHttpServers.lookup port).map fun server => server.core.handler.handler m.gDispatcher

variable {d d' : GlobalDispatcher}

theorem wrap_congr (h : d'.chain = d.chain) : d'.wrap = d.wrap := by
  rw [wrap, wrap, h]

theorem entering_congr (h : d'.chain = d.chain) : d'.entering = d.entering := by
  funext port r
  rw [entering, entering, h]

variable {hosts : Int → Option Handler} {dGlobal : GlobalDispatcher} {m : ToriiProxy} {port : Int}

theorem KeptApart.serve_entry (h : KeptApart dGlobal hosts m) (hpass : PassesPort dGlobal.wrap)
    {i : Slot} {server : MicroHttpServer} (hserver : m.entry i = some server) :
    ∃ host, hosts i.port = some host ∧ server.core.handler.handler m.gDispatcher =
      fun r => dGlobal.wrap host (dGlobal.entering i.port r) := by
  obtain ⟨host, hhost, hleads⟩ := h.serving i server hserver
  refine ⟨host, hhost, ?_⟩
  funext r
  rw [← wrap_congr h.chain] at hpass ⊢
  rw [← entering_congr h.chain]
  exact hleads.serve hpass r

theorem KeptApart.serve (h : KeptApart dGlobal hosts m) (hpass : PassesPort dGlobal.wrap)
    {handler : Handler} (hserve : m.serve port = some handler) :
    ∃ host, hosts port = some host ∧
      handler = fun r => dGlobal.wrap host (dGlobal.entering port r) := by
  obtain ⟨server, hserver, rfl⟩ := Option.map_eq_some_iff.mp hserve
  exact h.serve_entry hpass (i := .started port) hserver

theorem KeptApart.serve_step_of_ne (h : KeptApart dGlobal hosts m) (hpass : PassesPort dGlobal.wrap)
    {op : Op} (hop : op.KeepsPorts m) (hport : op.port ≠ port) :
    (torii.step m op).2.serve port = m.serve port := by
  have hentry : (torii.step m op).2.startedHttpServers.lookup port =
      m.startedHttpServers.lookup port :=
    entry_step_of_ne (m := m) (i := .started port) (Ne.symm hport)
  cases hserver : m.startedHttpServers.lookup port with
  | none => rw [ToriiProxy.serve, ToriiProxy.serve, hentry, hserver]; rfl
  | some server =>
    have hbefore : m.serve port = some (server.core.handler.handler m.gDispatcher) := by
      rw [ToriiProxy.serve, hserver]
      rfl
    have hafter : (torii.step m op).2.serve port =
        some (server.core.handler.handler (torii.step m op).2.gDispatcher) := by
      rw [ToriiProxy.serve, hentry, hserver]
      rfl
    obtain ⟨host, hhost, heq⟩ := h.serve hpass hbefore
    obtain ⟨host', hhost', heq'⟩ := (h.step hop).serve hpass hafter
    rw [Op.latest, if_neg hport, hhost] at hhost'
    obtain rfl := Option.some.inj hhost'
    rw [hbefore, hafter, heq, heq']

theorem KeptApart.serve_run_of_ne (h : KeptApart dGlobal hosts m) (hpass : PassesPort dGlobal.wrap)
    {ops : List Op} (hops : torii.Steps (fun m op => op.KeepsPorts m ∧ op.port ≠ port) m ops) :
    (torii.run m ops).serve port = m.serve port := by
  induction ops generalizing hosts m with
  | nil => rfl
  | cons op ops ih =>
    obtain ⟨⟨hop, hport⟩, hrest⟩ := hops
    rw [Machine.run_cons, ih (h.step hop) hrest, h.serve_step_of_ne hpass hop hport]

/-- After a run that keeps ports apart, a request on a started port goes through the global
chain once and then to the host dispatcher that was built last for the port, and operations
on other ports do not change that. -/
theorem ports_isolated (env : Env) (global : Option GlobalConfig) (before : List Metrics.Op)
    {dGlobal : GlobalDispatcher} {mgr : Manager}
    (hinit : initGlobalDispatcher env buildMiddlewareContext global (machine.run new before) =
      (.ok dGlobal, mgr)) (hasAcmeService : Bool) (ops : List Op)
    (hops : torii.Steps (fun m op => op.KeepsPorts m) (.empty dGlobal mgr hasAcmeService) ops)
    {port : Int} {handler : Handler}
    (hserve : (torii.run (.empty dGlobal mgr hasAcmeService) ops).serve port = some handler) :
    (∃ host, (builtFor port (.empty dGlobal mgr hasAcmeService) ops).getLast? = some host ∧
        handler = fun r => dGlobal.wrap host (dGlobal.entering port r)) ∧
      ∀ others, torii.Steps (fun m op => op.KeepsPorts m ∧ op.port ≠ port)
          (torii.run (.empty dGlobal mgr hasAcmeService) ops) others →
        (torii.run (torii.run (.empty dGlobal mgr hasAcmeService) ops) others).serve port =
          some handler := by
  obtain ⟨-, names, -, -, hlayered⟩ :=
    (refines_initGlobalDispatcher env global).of_ok (wellFormed_run before).1 hinit
  have hrun := keptApart_run mgr hasAcmeService hops
  refine ⟨hrun.serve hlayered.passesPort hserve, ?_⟩
  intro others hothers
  rw [hrun.serve_run_of_ne hlayered.passesPort hothers, hserve]

/-! ## Two ports behind a global chain -/

section

def headersOnly : ConfigSlice where
  configs := [{ type := "Headers" }]

def oneGlobal : GlobalConfig where
  middlewares := headersOnly
  disableDefaults := true

/-- What `initGlobalDispatcher` makes of it. -/
def oneGlobalBuild : Except Failure GlobalDispatcher × Manager :=
  initGlobalDispatcher smallEnv buildMiddlewareContext (some oneGlobal) (machine.run new [])

def behindGlobal : ToriiProxy :=
  .empty (oneGlobalBuild.1.toOption.getD {}) oneGlobalBuild.2 false

def twoPorts : List Op :=
  [addSmall 8080, addSmall 9090, .startHttpProxy smallStart 8080, .startHttpProxy smallStart 9090]

def smallInbound : Inbound where
  remoteAddr := "192.0.2.1:4711"
  header := ∅
  host := "a.com"
  path := "/"

def movedListener (port : Int) : Listener :=
  { smallListener port with
    default_ := some
      { backend := { address := "http://127.0.0.1:4000" }, disableDefaults := true } }

/-- A hot swap of the server on 8080 leaves the server on 9090 alone. -/
theorem two_ports_isolated : ∃ handler,
    (torii.run behindGlobal twoPorts).serve 9090 = some handler ∧
    (∃ host, (builtFor 9090 behindGlobal twoPorts).getLast? = some host ∧
        handler = fun r => (oneGlobalBuild.1.toOption.getD {}).wrap host
          ((oneGlobalBuild.1.toOption.getD {}).entering 9090 r)) ∧
    (torii.run (torii.run behindGlobal twoPorts)
      [.hotSwapHandler smallEnv 8080 (movedListener 8080) true]).serve 9090 = some handler := by
  have hinit : initGlobalDispatcher smallEnv buildMiddlewareContext (some oneGlobal)
      (machine.run new []) = (.ok (oneGlobalBuild.1.toOption.getD {}), oneGlobalBuild.2) := by
    rfl
  have hsome : ((torii.run behindGlobal twoPorts).serve 9090).isSome = true := by decide +kernel
  obtain ⟨handler, hserve⟩ := Option.isSome_iff_exists.mp hsome
  have hops : torii.Steps (fun m op => op.KeepsPorts m) behindGlobal twoPorts :=
    ⟨⟨fun _ => rfl, fun _ => trivial⟩, ⟨fun _ => rfl, fun _ => trivial⟩,
      ⟨trivial, fun _ => trivial⟩, ⟨trivial, fun _ => trivial⟩, trivial⟩
  obtain ⟨hhost, hothers⟩ := ports_isolated smallEnv (some oneGlobal) [] hinit false twoPorts hops
    hserve
  exact ⟨handler, hserve, hhost, hothers _ ⟨⟨⟨trivial, fun _ => rfl⟩, by decide⟩, trivial⟩⟩

/-- A hot swap of the server on 8080 with a configuration for 9090 changes what the server on
9090 answers. -/
theorem misaligned_swap_interferes :
    ((torii.run behindGlobal twoPorts).serve 9090).map (fun handler => handler smallInbound) =
        some [.entered globalContext "Headers", .proxied "http://127.0.0.1:3000"] ∧
      ((torii.run behindGlobal (twoPorts ++
          [.hotSwapHandler smallEnv 8080 (movedListener 9090) true])).serve 9090).map
          (fun handler => handler smallInbound) =
        some [.entered globalContext "Headers", .proxied "http://127.0.0.1:4000"] := by
  decide +kernel

end

end Torii.Proxy
