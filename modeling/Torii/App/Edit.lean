import Torii.App.System

/-!
# Edits that fail

An edit that needs a restart first removes the old server and then builds and starts the new one. By
then the old server is gone.
-/

namespace Torii.App

open Go Torii.Proxy Torii.Netutil ToriiProxy

/-- The port has the same configuration, and its server is in the same map. What a failed
`Shutdown` leaves behind is not part of it: such a server is still listed as started, but its flag
is down, its chain is cancelled and its sockets are closed. -/
structure SamePort (port : Int) (m m' : ToriiProxy) : Prop where
  config : m'.getProxyConfig port = m.getProxyConfig port
  started : m'.isStarted port = m.isStarted port

def FailsCleanly (env : EditEnv) (port : Int) (conf : Listener) (m : ToriiProxy) : Prop :=
  ∀ e, (editProxy env port conf m).1 = .error (.error e) →
    SamePort port m (editProxy env port conf m).2

/-- The old server can be removed: a started one is not hidden by a stopped one and its
`Shutdown` succeeds; the port of a stopped one is positive. -/
def Removable (env : EditEnv) (port : Int) (m : ToriiProxy) : Prop :=
  if m.isStarted port then (m.stoppable port).isSome = true ∧ env.shutdown = none
  else (m.droppable port).isSome = true

/-- There is no new server in place of the old one: it cannot be built, or it should be
started and is on another port or cannot start. -/
def RebuildFails (env : EditEnv) (port : Int) (conf : Listener) (wasStarted : Bool)
    (m : ToriiProxy) : Prop :=
  match (buildHttpServer env.build env.net conf m.toBuildState).1 with
  | .error (.error _) => True
  | .error .crash => False
  | .ok server =>
    wasStarted = true ∧
      (conf.port ≠ port ∨ server.canStart env.start m.hasAcmeService = false)

def Breaks (env : EditEnv) (port : Int) (conf : Listener) (m : ToriiProxy) : Prop :=
  m.doesConfigRequireServerRestart port conf = .ok true ∧ Removable env port m ∧
    RebuildFails env port conf (m.isStarted port) m

section

variable {port : Int} {m m' : ToriiProxy}

theorem samePort_of_lookup
    (hstopped : m'.stoppedHttpServers.lookup port = m.stoppedHttpServers.lookup port)
    (hstarted : m'.startedHttpServers.lookup port = m.startedHttpServers.lookup port) :
    SamePort port m m' := by
  constructor
  · rw [getProxyConfig, getProxyConfig, hstopped, hstarted]
  · rw [isStarted, isStarted, hstarted]

theorem samePort_refl (port : Int) (m : ToriiProxy) : SamePort port m m := ⟨rfl, rfl⟩

end

/-! ## Removing the old server -/

section

variable {m : ToriiProxy} {port : Int} {server : MicroHttpServer}

theorem stop_refused (h : m.stoppable port = none) (shutdown : Option String) :
    ∃ e, torii.step m (.stopHttpProxy port shutdown) = (.error (.error e), m) := by
  have htransition := transition m (.stopHttpProxy port shutdown)
  generalize torii.step m (.stopHttpProxy port shutdown) = result at htransition ⊢
  obtain ⟨answer, m'⟩ := result
  cases htransition with
  | refused e hrefused => exact ⟨e, rfl⟩
  | shutdownFailed hop hserver hstop =>
    obtain hop | hop := hop
    · cases hop
      exact absurd hserver (by simp [h])
    · exact absurd hop (by simp)
  | stopped hserver hstop => exact absurd hserver (by simp [h])
  | buildFailed e hrequest hhost | crashed hrequest => exact absurd hrequest (by simp [Op.request])

theorem stop_failed (h : Consistent m) (hserver : m.stoppable port = some server)
    (cause : String) :
    ∃ rt, torii.step m (.stopHttpProxy port (some cause)) =
      (.error (.error (.shutdown cause)),
        { m with
          runtime := rt
          startedHttpServers := m.startedHttpServers.insert port
            (server.withCore { server.core with isStarted := false }) }) := by
  obtain ⟨hpos, hstopped, hstarted⟩ := stoppable_eq_some.mp hserver
  have hstop := h.stop hstarted (some cause)
  rw [entry_stopped] at hstopped
  rw [entry_started] at hstarted
  have hport : ¬ port ≤ 0 := by omega
  refine ⟨m.runtime.cancelChain server.core.cancelChain, ?_⟩
  simp [torii, stopHttpProxy, hport, hstopped, hstarted, MicroHttpServer.stop, hstop]

theorem stop_succeeds (h : Consistent m) (hserver : m.stoppable port = some server) :
    torii.step m (.stopHttpProxy port none) =
      (.ok (),
        { m with
          runtime := m.runtime.cancelChain server.core.cancelChain
          stoppedHttpServers := m.stoppedHttpServers.insert port
            (server.withCore { server.core with isStarted := false })
          startedHttpServers := m.startedHttpServers.erase port }) := by
  obtain ⟨hpos, hstopped, hstarted⟩ := stoppable_eq_some.mp hserver
  have hstop := h.stop hstarted none
  rw [entry_stopped] at hstopped
  rw [entry_started] at hstarted
  have hport : ¬ port ≤ 0 := by omega
  simp [torii, stopHttpProxy, hport, hstopped, hstarted, MicroHttpServer.stop, hstop]

theorem delete_drops (hpos : 0 < port) (hstopped : (m.stoppedHttpServers.lookup port).isSome = true)
    (shutdown : Option String) :
    torii.step m (.deleteHttpProxy port shutdown) =
      (.ok (), { m with stoppedHttpServers := m.stoppedHttpServers.erase port }) := by
  have hport : ¬ port ≤ 0 := by omega
  simp [torii, deleteHttpProxy, hport, hstopped]

theorem delete_refused (m : ToriiProxy) (h : port ≤ 0) (shutdown : Option String) :
    torii.step m (.deleteHttpProxy port shutdown) = (.error (.error (.invalidPort port)), m) := by
  simp [torii, deleteHttpProxy, h]

/-- The server of a port is gone and the rest that a build depends on is as before. -/
structure Removed (port : Int) (m m' : ToriiProxy) : Prop where
  pos : 0 < port
  stopped : m'.stoppedHttpServers.lookup port = none
  started : m'.startedHttpServers.lookup port = none
  gDispatcher : m'.gDispatcher = m.gDispatcher
  metricsManager : m'.metricsManager = m.metricsManager
  created : m'.runtime.created = m.runtime.created
  hasAcmeService : m'.hasAcmeService = m.hasAcmeService

def removeCalls (env : EditEnv) (port : Int) (wasStarted : Bool) : List ProxyCall :=
  (if wasStarted then [⟨.stopOld, port, .stopHttpProxy port env.shutdown⟩] else []) ++
    [⟨.deleteOld, port, .deleteHttpProxy port env.shutdown⟩]

def rebuildCalls (env : EditEnv) (port : Int) (conf : Listener) (wasStarted : Bool) :
    List ProxyCall :=
  ⟨.recreate, port, .addHttpServer env.build env.net conf⟩ ::
    if wasStarted then [⟨.startNew, port, .startHttpProxy env.start port⟩] else []

theorem restartCalls_eq (env : EditEnv) (port : Int) (conf : Listener) (wasStarted : Bool) :
    restartCalls env port conf wasStarted =
      removeCalls env port wasStarted ++ rebuildCalls env port conf wasStarted := by
  cases wasStarted with
  | true | false => rfl

variable {wrapping : Wrapping} {calls : List ProxyCall} {m' : ToriiProxy}

theorem perform_cons_of_ok {onPort : Int} {op : Op} (h : torii.step m op = (.ok (), m')) :
    perform (⟨wrapping, onPort, op⟩ :: calls) m = perform calls m' := by
  simp [perform, Fallible.andThen, ProxyCall.make, Fallible.mapError, h]

theorem perform_cons_of_error {onPort : Int} {op : Op} {e : ProxyError}
    (h : torii.step m op = (.error (.error e), m')) :
    perform (⟨wrapping, onPort, op⟩ :: calls) m =
      (.error (.error (.wrapped wrapping onPort e)), m') := by
  simp only [perform, Fallible.andThen, ProxyCall.make, Fallible.mapError, h]
  rfl

/-- The first half of a restart goes through if the old server can be removed, and leaves the
port as it was otherwise. -/
def RemovesIf (able : Prop) (env : EditEnv) (port : Int) (wasStarted : Bool) (m : ToriiProxy) :
    Prop :=
  (able ∧ ∃ m', perform (removeCalls env port wasStarted) m = (.ok (), m') ∧ Removed port m m') ∨
    (¬ able ∧ ∃ e m', perform (removeCalls env port wasStarted) m = (.error (.error e), m') ∧
      SamePort port m m')

theorem removal_started (h : Consistent m) (env : EditEnv)
    (hstarted : m.startedHttpServers.lookup port = some server) :
    RemovesIf ((m.stoppable port).isSome = true ∧ env.shutdown = none) env port true m := by
  rw [RemovesIf, removeCalls, if_pos rfl, List.singleton_append]
  cases hstoppable : m.stoppable port with
  | none =>
    obtain ⟨e, hstep⟩ := stop_refused hstoppable env.shutdown
    exact .inr ⟨by simp, _, m, perform_cons_of_error hstep, samePort_refl port m⟩
  | some server' =>
    obtain ⟨hpos, hstopped, hserver'⟩ := stoppable_eq_some.mp hstoppable
    rw [entry_stopped] at hstopped
    cases hshutdown : env.shutdown with
    | some cause =>
      obtain ⟨rt, hstep⟩ := stop_failed h hstoppable cause
      refine .inr ⟨by simp, _, _, perform_cons_of_error hstep, ?_⟩
      constructor
      · rw [entry_started] at hserver'
        simp [getProxyConfig, hserver', MicroHttpServer.getCurrentConfig]
      · simp [isStarted, hstarted]
    | none =>
      refine .inl ⟨⟨rfl, rfl⟩, ?_⟩
      have hstep := stop_succeeds h hstoppable
      rw [perform_cons_of_ok hstep, perform_cons_of_ok (delete_drops hpos (by simp) _)]
      refine ⟨_, rfl, ⟨hpos, ?_, ?_, rfl, rfl, created_cancelChain _ _, rfl⟩⟩
      · simp
      · simp

theorem removal_stopped (env : EditEnv) (hstarted : m.startedHttpServers.lookup port = none)
    (hstopped : m.stoppedHttpServers.lookup port = some server) :
    RemovesIf ((m.droppable port).isSome = true) env port false m := by
  rw [RemovesIf, removeCalls, if_neg Bool.false_ne_true, List.nil_append, droppable]
  by_cases hpos : 0 < port
  · rw [if_pos hpos, hstopped]
    refine .inl ⟨rfl, ?_⟩
    rw [perform_cons_of_ok (delete_drops hpos (by simp [hstopped]) _)]
    exact ⟨_, rfl, ⟨hpos, by simp, hstarted, rfl, rfl, rfl, rfl⟩⟩
  · rw [if_neg hpos]
    have hstep := delete_refused m (show port ≤ 0 by omega) env.shutdown
    exact .inr ⟨by simp, _, m, perform_cons_of_error hstep, samePort_refl port m⟩

theorem removal (h : Consistent m) (env : EditEnv) (hserver : m.findServer port = some server) :
    RemovesIf (Removable env port m) env port (m.isStarted port) m := by
  rw [findServer] at hserver
  cases hstarted : m.startedHttpServers.lookup port with
  | some started =>
    have hwas : m.isStarted port = true := by rw [isStarted, hstarted]; rfl
    rw [Removable, hwas, if_pos rfl]
    exact removal_started h env hstarted
  | none =>
    have hwas : m.isStarted port = false := by rw [isStarted, hstarted]; rfl
    rw [hstarted] at hserver
    rw [Removable, hwas, if_neg (by simp)]
    exact removal_stopped env hstarted hserver

end

/-! ## Making the new server -/

section

variable {m m' : ToriiProxy} {port : Int}

theorem buildHttpServer_congr {s s' : BuildState} (hdispatcher : s'.gDispatcher = s.gDispatcher)
    (hmanager : s'.metricsManager = s.metricsManager)
    (hcreated : s'.runtime.created = s.runtime.created) (env : Env) (net : Interfaces)
    (conf : Listener) :
    (buildHttpServer env net conf s').1 = (buildHttpServer env net conf s).1 := by
  cases haddresses : listenerAddresses net (applyDefaultTimeouts conf) with
  | error e => rw [buildHttpServer_of_addresses_error haddresses,
      buildHttpServer_of_addresses_error haddresses]
  | ok addresses =>
    rw [buildHttpServer_of_addresses haddresses, buildHttpServer_of_addresses haddresses]
    simp only [buildRuntimeChain, hdispatcher, hmanager, hcreated]
    cases buildHandlerChain env buildMiddlewareContext (Metrics.serverIdOf conf.port)
        conf.toHTTPListener s.gDispatcher s.metricsManager with
    | mk result manager =>
      cases result with
      | ok built => rfl
      | error failure =>
        cases failure with
        | error | panic | fatal => rfl

theorem Removed.build (h : Removed port m m') (env : Env) (net : Interfaces) (conf : Listener) :
    (buildHttpServer env net conf m'.toBuildState).1 =
      (buildHttpServer env net conf m.toBuildState).1 :=
  buildHttpServer_congr h.gDispatcher h.metricsManager h.created env net conf

structure Lost (port : Int) (wasStarted : Bool) (m : ToriiProxy) : Prop where
  started : m.isStarted port = false
  config : wasStarted = true ∨ m.getProxyConfig port = none

theorem lost_of_lookup {wasStarted : Bool} (hstopped : m.stoppedHttpServers.lookup port = none)
    (hstarted : m.startedHttpServers.lookup port = none) : Lost port wasStarted m := by
  constructor
  · simp [isStarted, hstarted]
  · simp [getProxyConfig, hstopped, hstarted]

theorem start_rebuilt (h : Removed port m m') (env : StartEnv) (conf : Listener)
    (server : MicroHttpServer) (s : BuildState) :
    let added : ToriiProxy :=
      { m' with
        toBuildState := s
        stoppedHttpServers := m'.stoppedHttpServers.insert conf.port server }
    ((conf.port ≠ port ∨ server.canStart env m.hasAcmeService = false) ∧
        ∃ e lost, torii.step added (.startHttpProxy env port) = (.error (.error e), lost) ∧
          Lost port true lost) ∨
      (¬ (conf.port ≠ port ∨ server.canStart env m.hasAcmeService = false) ∧
        ∃ m'', torii.step added (.startHttpProxy env port) = (.ok (), m'')) := by
  intro added
  have hpos : ¬ port ≤ 0 := Int.not_le.mpr h.pos
  have hstarted : added.startedHttpServers.lookup port = none := h.started
  by_cases hport : conf.port = port
  · have hstopped : added.stoppedHttpServers.lookup port = some server := by
      simp [added, hport]
    obtain ⟨hcan, httpServer, hstart⟩ | ⟨hcan, e, httpServer, errorMessage, hstart⟩ :=
      server.start_cases env added.hasAcmeService
    · refine .inr ⟨?_, ?_⟩
      · rw [← h.hasAcmeService]
        simpa [hport] using hcan
      · simp [torii, startHttpProxy, hpos, hstarted, hstopped, hstart]
    · refine .inl ⟨.inr (h.hasAcmeService ▸ hcan), ?_⟩
      simp only [torii, startHttpProxy, hpos, hstarted, hstopped, hstart, if_false,
        Option.isSome_none, Bool.false_eq_true]
      exact ⟨_, _, rfl, ⟨by simp [isStarted, hstarted], .inl rfl⟩⟩
  · have hstopped : added.stoppedHttpServers.lookup port = none := by
      simp [added, Ne.symm hport, h.stopped]
    refine .inl ⟨.inl hport, ?_⟩
    simp only [torii, startHttpProxy, hpos, hstarted, hstopped, if_false,
      Option.isSome_none, Bool.false_eq_true]
    exact ⟨_, _, rfl, lost_of_lookup hstopped hstarted⟩

theorem rebuild_cases (h : Removed port m m') (env : EditEnv) (conf : Listener)
    (wasStarted : Bool) :
    (RebuildFails env port conf wasStarted m ∧
        ∃ e lost, perform (rebuildCalls env port conf wasStarted) m' = (.error (.error e), lost) ∧
          Lost port wasStarted lost) ∨
      (¬ RebuildFails env port conf wasStarted m ∧
        ∀ e, (perform (rebuildCalls env port conf wasStarted) m').1 ≠ .error (.error e)) := by
  rw [RebuildFails, ← h.build, rebuildCalls]
  cases hbuild : buildHttpServer env.build env.net conf m'.toBuildState with
  | mk result s =>
    cases result with
    | error fault =>
      have hstep : torii.step m' (.addHttpServer env.build env.net conf) =
          (.error (fault.map .buildServer), { m' with toBuildState := s }) := by
        simp only [torii, addHttpServer, hbuild]
      cases fault with
      | error e =>
        exact .inl ⟨trivial, _, _, perform_cons_of_error hstep,
          lost_of_lookup h.stopped h.started⟩
      | crash =>
        refine .inr ⟨id, ?_⟩
        simp [perform, Fallible.andThen, ProxyCall.make, Fallible.mapError, hstep, Fault.map]
    | ok server =>
      have hstep : torii.step m' (.addHttpServer env.build env.net conf) =
          (.ok (), { m' with
            toBuildState := s
            stoppedHttpServers := m'.stoppedHttpServers.insert conf.port server }) := by
        simp only [torii, addHttpServer, hbuild]
      rw [perform_cons_of_ok hstep]
      cases wasStarted with
      | false => exact .inr ⟨by simp, by simp [perform, Fallible.ret]⟩
      | true =>
        rw [if_pos rfl]
        obtain ⟨hfails, e, lost, hstart, hlost⟩ | ⟨hworks, m'', hstart⟩ :=
          start_rebuilt h env.start conf server s
        · exact .inl ⟨⟨rfl, hfails⟩, _, lost, perform_cons_of_error hstart, hlost⟩
        · refine .inr ⟨fun hfails => hworks hfails.2, ?_⟩
          rw [perform_cons_of_ok hstart]
          simp [perform, Fallible.ret]

theorem Lost.not_samePort (h : Lost port (m.isStarted port) m')
    (hregistered : m.getProxyConfig port ≠ none) : ¬ SamePort port m m' := by
  intro hsame
  obtain hwas | hnone := h.config
  · rw [← hsame.started, h.started] at hwas
    exact Bool.false_ne_true hwas
  · rw [hsame.config] at hnone
    exact hregistered hnone

end

/-! ## Failing edits -/

variable {port : Int} {m : ToriiProxy} {conf : Listener}

theorem getProxyConfig_ne_none {server : MicroHttpServer}
    (h : m.findServer port = some server) : m.getProxyConfig port ≠ none := by
  rw [findServer] at h
  rw [getProxyConfig]
  cases hstopped : m.stoppedHttpServers.lookup port with
  | some stopped => simp
  | none =>
    cases hstarted : m.startedHttpServers.lookup port with
    | some started => simp
    | none =>
      rw [hstarted, hstopped] at h
      exact absurd h (by simp)

theorem samePort_of_hotSwap {m' : ToriiProxy} {env : Env} {sameNils : Bool} {e : ProxyError}
    (h : torii.step m (.hotSwapHandler env port conf sameNils) = (.error (.error e), m')) :
    SamePort port m m' := by
  have htransition := transition m (.hotSwapHandler env port conf sameNils)
  rw [h] at htransition
  cases htransition with
  | refused => exact samePort_refl port _
  | shutdownFailed hop => exact absurd hop (by simp)
  | buildFailed => exact samePort_of_lookup rfl rfl

variable {env : EditEnv}

theorem failsCleanly_swap (h : m.doesConfigRequireServerRestart port conf = .ok false) :
    FailsCleanly env port conf m := by
  intro e he
  have hedit : editProxy env port conf m = perform [swapCall env port conf] m := by
    simp [editProxy, h, editCalls]
  rw [hedit] at he ⊢
  cases hstep : torii.step m (.hotSwapHandler env.build port conf env.sameNils) with
  | mk answer m' =>
    cases answer with
    | ok _ =>
      rw [swapCall, perform_cons_of_ok hstep] at he
      exact absurd he (by simp [perform, Fallible.ret])
    | error fault =>
      cases fault with
      | error cause =>
        rw [swapCall, perform_cons_of_error hstep]
        exact samePort_of_hotSwap hstep
      | crash =>
        simp [perform, Fallible.andThen, swapCall, ProxyCall.make, Fallible.mapError, hstep,
          Fault.map] at he

theorem failsCleanly_restart_iff (hm : Consistent m)
    (h : m.doesConfigRequireServerRestart port conf = .ok true) :
    FailsCleanly env port conf m ↔
      ¬ (Removable env port m ∧ RebuildFails env port conf (m.isStarted port) m) := by
  have hedit : editProxy env port conf m = Fallible.andThen
      (perform (removeCalls env port (m.isStarted port)))
      (fun _ => perform (rebuildCalls env port conf (m.isStarted port))) m := by
    simp [editProxy, h, editCalls, restartCalls_eq, perform_append]
  obtain ⟨server, hserver⟩ : ∃ server, m.findServer port = some server := by
    rw [← Option.ne_none_iff_exists']
    intro hnone
    rw [doesConfigRequireServerRestart, hnone] at h
    exact absurd h (by simp)
  rw [FailsCleanly, hedit, Fallible.andThen]
  obtain ⟨hremovable, m', hremove, hremoved⟩ | ⟨hremovable, e, m', hremove, hsame⟩ :=
    removal hm env hserver
  · simp only [hremove]
    rw [and_iff_right hremovable]
    obtain ⟨hfails, e, lost, hrebuild, hlost⟩ | ⟨hworks, hrebuild⟩ :=
      rebuild_cases hremoved env conf (m.isStarted port)
    · refine iff_of_false (fun hclean => ?_) (not_not_intro hfails)
      rw [hrebuild] at hclean
      exact hlost.not_samePort (getProxyConfig_ne_none hserver) (hclean e rfl)
    · exact iff_of_true (fun e he => absurd he (hrebuild e)) hworks
  · simp only [hremove]
    exact iff_of_true (fun _ _ => hsame) fun hboth => hremovable hboth.1

/-- An edit of a reachable registry that returns an error leaves the port as it was, unless it
needs a restart, can remove the old server and has no new one. -/
theorem edit_preserves_iff (dGlobal : GlobalDispatcher) (mgr : Metrics.Manager)
    (hasAcmeService : Bool) (ops : List ServiceOp) (env : EditEnv) (port : Int)
    (conf : Listener) :
    FailsCleanly env port conf (service.run (.empty dGlobal mgr hasAcmeService) ops) ↔
      ¬ Breaks env port conf (service.run (.empty dGlobal mgr hasAcmeService) ops) := by
  have hm := consistent_service dGlobal mgr hasAcmeService ops
  generalize service.run (.empty dGlobal mgr hasAcmeService) ops = m at hm ⊢
  cases hcheck : m.doesConfigRequireServerRestart port conf with
  | error fault =>
    refine iff_of_true (fun e he => ?_) fun hbreaks => ?_
    · rw [editProxy, hcheck]
      exact samePort_refl port m
    · rw [hbreaks.1] at hcheck
      exact absurd hcheck (by simp)
  | ok requiresRestart =>
    cases requiresRestart with
    | false =>
      refine iff_of_true (failsCleanly_swap hcheck) fun hbreaks => ?_
      rw [hbreaks.1] at hcheck
      exact absurd hcheck (by simp)
    | true =>
      rw [failsCleanly_restart_iff hm hcheck, Breaks, and_iff_right hcheck]

def smallEdit : EditEnv where
  build := smallEnv
  net := smallNet
  start := smallStart

def oneStarted : ToriiProxy :=
  service.run smallTorii
    [.addHttpListener smallEnv smallNet (smallListener 8080), .startProxy smallStart 8080]

def onUnknownInterface : Listener := { smallListener 8080 with interface := "eth9" }

/-- An edit that names an unknown interface returns an error, and the server is gone. -/
theorem failed_edit_removes :
    (oneStarted.getProxyConfig 8080).isSome = true ∧ oneStarted.isStarted 8080 = true ∧
      (editProxy smallEdit 8080 onUnknownInterface oneStarted).1 =
        .error (.error (.wrapped .recreate 8080
          (.buildServer (.bindAddresses "eth9" "no such network interface")))) ∧
      ((editProxy smallEdit 8080 onUnknownInterface oneStarted).2.getProxyConfig 8080).isSome =
        false ∧
      (editProxy smallEdit 8080 onUnknownInterface oneStarted).2.isStarted 8080 = false := by
  decide +kernel

end Torii.App
