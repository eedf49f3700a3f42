import Torii.App.Edit

/-!
# Submitting a configuration again

`buildHttpServer` fills in the timeouts that a configuration omits and keeps the result; an edit
compares what it is given with what was kept. The configuration that a server was added with is
therefore a change of the timeouts unless it gives them all.
-/

namespace Torii.App

open Go Torii.Proxy Torii.Netutil ToriiProxy MicroHttpServer

/-- An edit of the port with this configuration needs no restart. -/
def Accepts (c : Listener) (m : ToriiProxy) : Prop :=
  m.doesConfigRequireServerRestart c.port c = .ok false

/-- The operation closes the listeners of a server. -/
def closes (m : ToriiProxy) : Op → Bool
  | .stopHttpProxy port _ => (m.stoppable port).isSome
  | .deleteHttpProxy port _ => (m.stoppable port).isSome
  | _ => false

def EditKeepsListeners (m : ToriiProxy) : ServiceOp → Prop
  | .editProxy env port conf =>
    torii.Steps (fun m op => closes m op = false) m (editOps env port conf m)
  | _ => True

/-- The calls that start or stop servers, and edits with the configuration `c`. -/
def Resubmits (c : Listener) : ServiceOp → Prop
  | .start _ _ => True
  | .stop _ _ => True
  | .startProxy _ _ => True
  | .stopProxy _ _ => True
  | .editProxy _ port conf => port = c.port ∧ conf = c
  | .deleteProxy _ _ => False
  | .addHttpListener _ _ _ => False

def ResubmitsOp (c : Listener) : Op → Prop
  | .startHttpProxy _ _ => True
  | .stopHttpProxy _ _ => True
  | .hotSwapHandler _ port conf _ => port = c.port ∧ conf = c
  | .addHttpServer _ _ _ => False
  | .deleteHttpProxy _ _ => False

/-! ## Comparison with the current configuration -/

@[simp] theorem bindingChanged_self (conf : Listener) : bindingChanged conf conf = false := by
  simp [bindingChanged]

theorem bindingChanged_defaults (conf : Listener) :
    bindingChanged (applyDefaultTimeouts conf) conf = !decide conf.toTimeouts.Given := by
  have htimeouts : (conf.toTimeouts.withDefaults != conf.toTimeouts) =
      !decide conf.toTimeouts.Given := by
    by_cases hgiven : conf.toTimeouts.Given
    · simp [conf.toTimeouts.withDefaults_eq_self_iff.mpr hgiven, hgiven]
    · simpa [hgiven] using mt conf.toTimeouts.withDefaults_eq_self_iff.mp hgiven
  simp [bindingChanged, applyDefaultTimeouts, htimeouts]

theorem restart_withCore {server : MicroHttpServer} {core : ServerCore}
    (h : core.currentConfig = server.core.currentConfig) (conf : Listener) :
    (server.withCore core).doesConfigChangeRequireServerRestart conf =
      server.doesConfigChangeRequireServerRestart conf := by
  cases server <;> simp only [MicroHttpServer.core] at h <;>
    simp [MicroHttpServer.withCore, MicroHttpServer.doesConfigChangeRequireServerRestart,
      ToriiHttpServer.doesConfigChangeRequireServerRestart,
      ToriiHttpsServer.doesConfigChangeRequireServerRestart, h]

theorem restart_swapped {server : MicroHttpServer} {conf : Listener}
    (h : server.doesConfigChangeRequireServerRestart conf = some false) (chain : Chain)
    (built : HandlerChain) :
    (server.swapped chain built conf).doesConfigChangeRequireServerRestart conf = some false := by
  cases server with
  | http server =>
    have htls : conf.tls = none := by
      simp only [doesConfigChangeRequireServerRestart,
        ToriiHttpServer.doesConfigChangeRequireServerRestart, Option.some.injEq,
        Bool.or_eq_false_iff] at h
      simpa using h.2
    change some (bindingChanged conf conf || conf.tls.isSome) = some false
    rw [bindingChanged_self, htls]
    rfl
  | https server =>
    cases htls : conf.tls with
    | none =>
      simp [doesConfigChangeRequireServerRestart,
        ToriiHttpsServer.doesConfigChangeRequireServerRestart, htls] at h
    | some tls =>
      simp [swapped, updateServerMetadata, withCore, doesConfigChangeRequireServerRestart,
        ToriiHttpsServer.doesConfigChangeRequireServerRestart, htls]

theorem restart_newServer (conf : Listener) (ipv4 ipv6 : String) (chain : Chain)
    (built : HandlerChain) :
    (newServer (applyDefaultTimeouts conf) ipv4 ipv6 chain
        built).doesConfigChangeRequireServerRestart conf =
      some (!decide conf.toTimeouts.Given) := by
  have htls : (applyDefaultTimeouts conf).tls = conf.tls := rfl
  cases hconf : conf.tls with
  | none =>
    simp [newServer, htls, hconf, doesConfigChangeRequireServerRestart,
      ToriiHttpServer.doesConfigChangeRequireServerRestart, bindingChanged_defaults]
  | some tls =>
    simp only [newServer, htls, hconf, doesConfigChangeRequireServerRestart,
      ToriiHttpsServer.doesConfigChangeRequireServerRestart, bindingChanged_defaults]
    cases decide conf.toTimeouts.Given with
    | false => rfl
    | true => simp

/-! ## Runs -/

section

variable {m : ToriiProxy} {c : Listener} {server : MicroHttpServer} {port : Int} {op : ServiceOp}

theorem noRestart_iff {conf : Listener} :
    m.doesConfigRequireServerRestart port conf = .ok false ↔
      ∃ server, m.findServer port = some server ∧
        server.doesConfigChangeRequireServerRestart conf = some false := by
  rw [doesConfigRequireServerRestart]
  cases m.findServer port with
  | none => simp
  | some server =>
    simp only [Option.some.injEq, exists_eq_left']
    cases server.doesConfigChangeRequireServerRestart conf with
    | none | some => simp

theorem accepts_iff : Accepts c m ↔ ∃ server, m.findServer c.port = some server ∧
    server.doesConfigChangeRequireServerRestart c = some false :=
  noRestart_iff

theorem findServer_of_started
    (h : m.startedHttpServers.lookup port = some server) : m.findServer port = some server := by
  rw [findServer, h]

theorem findServer_of_stopped (hstarted : m.startedHttpServers.lookup port = none)
    (hstopped : m.stoppedHttpServers.lookup port = some server) :
    m.findServer port = some server := by
  rw [findServer, hstarted]
  exact hstopped

theorem findServer_of_startable
    (h : m.startable port = some server) : m.findServer port = some server := by
  obtain ⟨-, hstarted, hstopped⟩ := startable_eq_some.mp h
  exact findServer_of_stopped hstarted hstopped

theorem findServer_of_stoppable
    (h : m.stoppable port = some server) : m.findServer port = some server := by
  obtain ⟨-, -, hstarted⟩ := stoppable_eq_some.mp h
  exact findServer_of_started hstarted

@[simp] theorem currentConfig_stop (core : ServerCore) (shutdown : Option String) :
    (core.stop shutdown).2.currentConfig = core.currentConfig := by
  rw [ServerCore.stop]
  split <;> rfl

/-- A server that has changed apart from its configuration. -/
theorem accepts_withCore {core : ServerCore}
    (hfound : m.findServer c.port = some (server.withCore core))
    (hconfig : core.currentConfig = server.core.currentConfig)
    (hrestart : server.doesConfigChangeRequireServerRestart c = some false) : Accepts c m :=
  accepts_iff.mpr ⟨_, hfound, (restart_withCore hconfig c).trans hrestart⟩

theorem accepts_step (h : Accepts c m) {op : Op} (hop : ResubmitsOp c op) :
    Accepts c (torii.step m op).2 := by
  obtain ⟨server, hserver, hrestart⟩ := accepts_iff.mp h
  by_cases hport : c.port = op.port
  case neg =>
    exact accepts_iff.mpr ⟨server, (findServer_step_of_ne hport).trans hserver, hrestart⟩
  have htransition := transition m op
  generalize (torii.step m op).1 = answer at htransition
  generalize (torii.step m op).2 = m' at htransition ⊢
  cases htransition with
  | refused => exact h
  | @startFailed env port stopped e httpServer errorMessage hstartable hstart =>
    obtain rfl : c.port = port := hport
    obtain rfl := Option.some.inj ((findServer_of_startable hstartable).symm.trans hserver)
    obtain ⟨-, hstarted, -⟩ := startable_eq_some.mp hstartable
    exact accepts_withCore (findServer_of_stopped hstarted (AList.lookup_insert _)) rfl hrestart
  | @started env port stopped httpServer hstartable hstart =>
    obtain rfl : c.port = port := hport
    obtain rfl := Option.some.inj ((findServer_of_startable hstartable).symm.trans hserver)
    exact accepts_withCore (findServer_of_started (AList.lookup_insert _)) rfl hrestart
  | @shutdownFailed _ port shutdown started cause hop' hstoppable hstop =>
    obtain rfl : c.port = port := by
      obtain rfl | rfl := hop'
      · exact hport
      · exact hport
    obtain rfl := Option.some.inj ((findServer_of_stoppable hstoppable).symm.trans hserver)
    exact accepts_withCore (findServer_of_started (AList.lookup_insert _))
      (currentConfig_stop _ _) hrestart
  | @stopped port shutdown started hstoppable hstop =>
    obtain rfl : c.port = port := hport
    obtain rfl := Option.some.inj ((findServer_of_stoppable hstoppable).symm.trans hserver)
    exact accepts_withCore
      (findServer_of_stopped (AList.lookup_erase _ _) (AList.lookup_insert _))
      (currentConfig_stop _ _) hrestart
  | deleted | dropped => exact absurd hop id
  | buildFailed | crashed | unchanged => exact h
  | added => exact absurd hop id
  | @swapped env port conf sameNils found host backends snapshots manager hfound =>
    obtain ⟨rfl, rfl⟩ := hop
    obtain rfl := Option.some.inj (hfound.symm.trans hserver)
    exact accepts_iff.mpr
      ⟨_, findServer_updateServer _ _ _, restart_swapped hrestart _ _⟩

theorem accepts_run (h : Accepts c m) {ops : List Op} (hops : ∀ op ∈ ops, ResubmitsOp c op) :
    Accepts c (torii.run m ops) :=
  torii.run_induction (Accepts c) (ResubmitsOp c) (fun _ _ hop h => accepts_step h hop) hops h

theorem editOps_of_accepts (h : Accepts c m) (env : EditEnv) :
    editOps env c.port c m = [.hotSwapHandler env.build c.port c env.sameNils] := by
  rw [editOps, show m.doesConfigRequireServerRestart c.port c = .ok false from h]
  simp only [editCalls, Bool.false_eq_true, if_false, performed, swapCall]
  split <;> rfl

theorem resubmitsOp_of_mem_ops (h : Accepts c m) (hop : Resubmits c op) :
    ∀ op' ∈ op.ops m, ResubmitsOp c op' := by
  intro op' hop'
  cases op with
  | start | stop =>
    obtain ⟨port, -, rfl⟩ := List.mem_map.mp hop'
    trivial
  | startProxy | stopProxy =>
    rw [List.mem_singleton.mp hop']
    trivial
  | deleteProxy | addHttpListener => exact absurd hop id
  | editProxy =>
    obtain ⟨rfl, rfl⟩ := hop
    rw [ServiceOp.ops, editOps_of_accepts h] at hop'
    rw [List.mem_singleton.mp hop']
    exact ⟨rfl, rfl⟩

/-- Step lemma: the calls keep the configuration accepted. -/
theorem accepts_service_step (h : Accepts c m) (hop : Resubmits c op) :
    Accepts c (service.step m op).2 := by
  obtain hstep | ⟨port, shutdown, rfl, -⟩ := service_step_cases m op
  · rw [hstep]
    exact accepts_run h (resubmitsOp_of_mem_ops h hop)
  · exact absurd hop id

theorem editKeepsListeners_of_accepts (h : Accepts c m) (hop : Resubmits c op) :
    EditKeepsListeners m op := by
  cases op with
  | editProxy =>
    obtain ⟨rfl, rfl⟩ := hop
    rw [EditKeepsListeners, editOps_of_accepts h]
    exact ⟨rfl, trivial⟩
  | _ => trivial

theorem accepts_added_iff {env : Env} {net : Interfaces}
    (hstarted : m.startedHttpServers.lookup c.port = none)
    (hadd : (m.addHttpServer env net c).1 = .ok ()) :
    Accepts c (m.addHttpServer env net c).2 ↔ c.toTimeouts.Given := by
  have htransition := transition_add m env net c
  rw [hadd] at htransition
  generalize (m.addHttpServer env net c).2 = m' at htransition ⊢
  cases htransition with
  | added =>
    rw [Accepts, doesConfigRequireServerRestart]
    simp [findServer, hstarted, restart_newServer]

end

/-- After a server was added on an unused port with the configuration `c`, and while servers
are started, stopped and edited with `c`, no edit with `c` needs a restart and none closes a
listener, exactly when `c` gives every timeout. -/
theorem resubmission_iff (m : ToriiProxy) (env : Env) (net : Interfaces) (c : Listener)
    (hstarted : m.startedHttpServers.lookup c.port = none)
    (hadd : (m.addHttpServer env net c).1 = .ok ()) (ops : List ServiceOp)
    (hops : ∀ op ∈ ops, Resubmits c op) :
    service.Always (Accepts c) (m.addHttpServer env net c).2 ops ∧
        service.Steps EditKeepsListeners (m.addHttpServer env net c).2 ops ↔
      c.toTimeouts.Given := by
  have hadded := accepts_added_iff hstarted hadd
  rw [Machine.always_iff_steps, hadded, and_assoc, ← Machine.steps_and]
  refine and_iff_left_of_imp fun hgiven => ?_
  apply service.steps_of_invariant (Accepts c) (Resubmits c) _ _ hops (hadded.mpr hgiven)
  · intro m op hop h
    exact ⟨accepts_service_step h hop, editKeepsListeners_of_accepts h hop⟩
  · intro m op hop h
    exact accepts_service_step h hop

def givenListener : Listener := { smallListener 8080 with toTimeouts := defaultTimeouts }

/-- Edits of a started server with the configuration it was added with. -/
theorem resubmission_given :
    service.Always (Accepts givenListener)
        (smallTorii.addHttpServer smallEnv smallNet givenListener).2
        [.startProxy smallStart 8080, .editProxy smallEdit 8080 givenListener] ∧
      service.Steps EditKeepsListeners
        (smallTorii.addHttpServer smallEnv smallNet givenListener).2
        [.startProxy smallStart 8080, .editProxy smallEdit 8080 givenListener] := by
  apply (resubmission_iff smallTorii smallEnv smallNet givenListener rfl (by decide +kernel) _
    _).mpr (by decide)
  intro op hop
  obtain rfl | rfl := List.mem_pair.mp hop
  · trivial
  · exact ⟨rfl, rfl⟩

/-- With the timeouts omitted, the configuration that the server was just added with needs a
restart, and an edit of the started server begins by closing its listeners. -/
theorem omitted_timeouts_restart :
    (smallTorii.addHttpServer smallEnv smallNet (smallListener 8080)).1 = .ok () ∧
      (smallTorii.addHttpServer smallEnv smallNet
        (smallListener 8080)).2.doesConfigRequireServerRestart 8080 (smallListener 8080) =
          .ok true ∧
      (editOps smallEdit 8080 (smallListener 8080) oneStarted).head?.map (closes oneStarted) =
        some true := by
  decide +kernel

end Torii.App
