import Torii.Proxy.ChainLifetime

/-!
# One server for a port

`StopHttpProxy` and `DeleteHttpProxy` look at the stopped servers first, so a stopped server hides a
started one of the same port from both.
-/

namespace Torii.Proxy

open Go Ledger Torii.Netutil ToriiProxy MicroHttpServer

def OneServer (m : ToriiProxy) : Prop :=
  ∀ port, m.stoppedHttpServers.lookup port = none ∨ m.startedHttpServers.lookup port = none

/-- A call that stops the server of a port succeeds, and the server is not started any more. -/
def Stops (port : Int) (result : Answer × ToriiProxy) : Prop :=
  result.1 = .ok () ∧ result.2.startedHttpServers.lookup port = none

/-- Every started server can be stopped, by either operation, if `Shutdown` succeeds. -/
def CanBeStopped (m : ToriiProxy) : Prop :=
  ∀ port, (m.startedHttpServers.lookup port).isSome = true →
    Stops port (m.stopHttpProxy port none) ∧ Stops port (m.deleteHttpProxy port none)

def Op.KeepsOneServer (m : ToriiProxy) (op : Op) : Prop :=
  match op with
  | .addHttpServer _ _ conf => op.Builds m → m.startedHttpServers.lookup conf.port = none
  | _ => True

section

def Apart (L : Ledger Slot) : Prop :=
  ∀ port, L.held (.stopped port) = none ∨ L.held (.started port) = none

theorem oneServer_iff (m : ToriiProxy) : OneServer m ↔ Apart m.ledger := by
  simp [OneServer, Apart, ledger]

variable {L : Ledger Slot} {port : Int}

theorem Apart.mono {L' : Ledger Slot} (h : Apart L)
    (hheld : ∀ i, L.held i = none → L'.held i = none) : Apart L' :=
  fun port => (h port).imp (hheld _) (hheld _)

theorem Apart.drop (h : Apart L) (i : Slot) : Apart (L.apply (.drop i)) := by
  apply h.mono
  intro j hj
  rw [held_apply_drop, hj, ite_self]

theorem Apart.start (h : Apart L) :
    Apart (L.apply (.transfer (.stopped port) (.started port))) := by
  intro port'
  by_cases hport : port' = port
  · left
    rw [held_apply_transfer, if_neg (by simp), if_pos (by rw [hport])]
  · simpa [held_apply_transfer, hport] using h port'

theorem Apart.stop (h : Apart L) : Apart (L.apply (.transfer (.started port) (.stopped port))) := by
  intro port'
  by_cases hport : port' = port
  · right
    rw [held_apply_transfer, if_neg (by simp), if_pos (by rw [hport])]
  · simpa [held_apply_transfer, hport] using h port'

theorem apart_issue_iff (h : Apart L) :
    Apart (L.apply (.issue (.stopped port))) ↔ L.held (.started port) = none := by
  constructor
  · intro hafter
    simpa [held_apply_issue] using hafter port
  · intro hnone port'
    by_cases hport : port' = port
    · rw [hport]
      right
      rw [held_apply_issue, if_neg (by simp), hnone]
    · simpa [held_apply_issue, hport] using h port'

theorem Apart.replace (h : Apart L) {i : Slot} (hi : L.held i ≠ none) :
    Apart (L.apply (.issue i)) := by
  apply h.mono
  intro j hj
  rw [held_apply_issue, if_neg, hj]
  rintro rfl
  exact hi hj

end

variable {m : ToriiProxy} {op : Op}

theorem keepsOneServer_of_idle (h : op.Idle m) : op.KeepsOneServer m := by
  cases op with
  | addHttpServer => exact fun hbuilds => absurd hbuilds h
  | startHttpProxy | stopHttpProxy | deleteHttpProxy | hotSwapHandler => trivial

/-- Step lemma for the ports. -/
theorem oneServer_step_iff (h : Consistent m) (hone : OneServer m) (op : Op) :
    OneServer (torii.step m op).2 ↔ op.KeepsOneServer m := by
  obtain ⟨moves, heffect, hledger⟩ := ledger_step h.owned op
  rw [oneServer_iff] at hone
  rw [oneServer_iff, hledger]
  cases heffect with
  | idle hidle | spoil hidle | waste hidle => exact iff_of_true hone (keepsOneServer_of_idle hidle)
  | @add env net conf hbuilds =>
    have hkeeps : (Op.addHttpServer env net conf).KeepsOneServer m ↔
        m.ledger.held (.started conf.port) = none := by
      rw [Op.KeepsOneServer, forall_prop_of_true hbuilds]
      simp [ledger]
    rw [hkeeps]
    exact apart_issue_iff hone
  | start => exact iff_of_true hone.start trivial
  | shutdownFailed hop =>
    obtain rfl | rfl := hop
    · exact iff_of_true hone trivial
    · exact iff_of_true hone trivial
  | @stop port =>
    exact iff_of_true (Apart.stop (L := m.ledger.apply (.revoke (.started port))) hone) trivial
  | @delete port =>
    exact iff_of_true (Apart.drop (L := m.ledger.apply (.revoke (.started port))) hone _) trivial
  | drop hserver => exact iff_of_true (hone.drop _) trivial
  | @swap env port conf sameNils server hentry =>
    refine iff_of_true (Apart.replace (L := m.ledger.apply (.revoke (m.slotOf port))) hone ?_)
      trivial
    rw [held_apply_revoke, held_of_entry hentry]
    simp

def Call.KeepsOneServer (m : ToriiProxy) : Call → Prop
  | .single op => op.KeepsOneServer m
  | _ => True

theorem canBeStopped (h : Consistent m) (hone : OneServer m) : CanBeStopped m := by
  intro port hsome
  obtain ⟨server, hstarted⟩ := Option.isSome_iff_exists.mp hsome
  have hstopped : m.stoppedHttpServers.lookup port = none := by
    refine (hone port).resolve_right ?_
    simp [hstarted]
  have hpos := (h.listening port server hstarted).1
  have hstop : ∀ rt, server.stop none rt = (none, server.withCore
      { server.core with isStarted := false }, rt.cancelChain server.core.cancelChain) := by
    intro rt
    rw [stop, h.stop hstarted]
  have hport : ¬ port ≤ 0 := by omega
  refine ⟨⟨?_, ?_⟩, ⟨?_, ?_⟩⟩
  · simp [stopHttpProxy, hport, hstopped, hstarted, hstop]
  · simp [stopHttpProxy, hport, hstopped, hstarted, hstop]
  · simp [deleteHttpProxy, hport, hstopped, hstarted, hstop]
  · simp [deleteHttpProxy, hport, hstopped, hstarted, hstop]

theorem oneServer_run (h : Consistent m) (hone : OneServer m) {ops : List Op}
    (hops : ∀ op ∈ ops, ∀ m, op.KeepsOneServer m) : OneServer (torii.run m ops) := by
  have hrun : Consistent (torii.run m ops) ∧ OneServer (torii.run m ops) := by
    apply torii.run_induction (fun m => Consistent m ∧ OneServer m)
      (fun op => ∀ m, op.KeepsOneServer m) _ hops ⟨h, hone⟩
    rintro m op hop ⟨h, hone⟩
    exact ⟨h.step op, (oneServer_step_iff h hone op).mpr (hop m)⟩
  exact hrun.2

theorem Consistent.run (h : Consistent m) (ops : List Op) : Consistent (torii.run m ops) :=
  torii.run_invariant Consistent (fun _ op h => h.step op) h ops

theorem oneServer_call_iff (h : Consistent m) (hone : OneServer m)
    (call : Call) : OneServer (toriiCalls.step m call).2 ↔ call.KeepsOneServer m := by
  have hmany : ∀ (make : Int → Op) (ports : List Int),
      (∀ port m, (make port).KeepsOneServer m) → OneServer (torii.run m (ports.map make)) := by
    intro make ports hkeeps
    apply oneServer_run h hone
    intro op hop
    obtain ⟨port, -, rfl⟩ := List.mem_map.mp hop
    exact hkeeps port
  cases call with
  | single op => exact oneServer_step_iff h hone op
  | startAll | stopAll =>
    refine iff_of_true ?_ trivial
    rw [step_call]
    exact hmany _ _ fun _ _ => trivial

/-- In every state of a run each port has one server, and each started server can be stopped,
exactly when no call adds a server on a port with a started server. -/
theorem one_server_iff (dGlobal : GlobalDispatcher) (mgr : Metrics.Manager)
    (hasAcmeService : Bool) (calls : List Call) :
    toriiCalls.Always (fun m => OneServer m ∧ CanBeStopped m)
        (.empty dGlobal mgr hasAcmeService) calls ↔
      toriiCalls.Steps (fun m call => call.KeepsOneServer m)
        (.empty dGlobal mgr hasAcmeService) calls := by
  have hempty : OneServer (.empty dGlobal mgr hasAcmeService) := fun port => .inl rfl
  have hconsistent := Consistent.empty dGlobal mgr hasAcmeService
  apply toriiCalls.always_iff_of_invariant Consistent
  · intro m call h
    rw [step_call]
    exact h.run (call.ops m)
  · rintro m call h ⟨hone, -⟩
    rw [← oneServer_call_iff h hone]
    refine and_iff_left_of_imp fun hafter => canBeStopped ?_ hafter
    rw [step_call]
    exact h.run (call.ops m)
  · exact hconsistent
  · exact ⟨hempty, canBeStopped hconsistent hempty⟩

def hidden : ToriiProxy :=
  toriiCalls.run smallTorii
    [.single (addSmall 8080), .single (.startHttpProxy smallStart 8080), .single (addSmall 8080)]

/-- A server that is added on the port of a started one hides it: the started server cannot be
stopped, and a delete removes the other one. -/
theorem added_server_hides :
    (hidden.stoppedHttpServers.lookup 8080).isSome = true ∧
      (hidden.startedHttpServers.lookup 8080).isSome = true ∧
      (hidden.stopHttpProxy 8080 none).1 = .error (.error (.alreadyStopped 8080)) ∧
      ((hidden.deleteHttpProxy 8080 none).2.startedHttpServers.lookup 8080).isSome = true := by
  decide +kernel

/-! ## Reported status -/

/-- The flag of a server says which map it is in. -/
def StatusMatches (m : ToriiProxy) : Prop :=
  ∀ i server, m.entry i = some server → (server.core.isStarted = true ↔ i ∈ startedSlots)

def LeavesLive (m : ToriiProxy) (op : Op) : Prop :=
  ∀ port shutdown, op = .stopHttpProxy port shutdown ∨ op = .deleteHttpProxy port shutdown →
    (∃ fault, (torii.step m op).1 = .error fault) →
    ∀ server, (torii.step m op).2.startedHttpServers.lookup port = some server →
      server.context ∉ (torii.step m op).2.runtime.cancelled

/-- The operation is `AddHttpServer`. -/
def Op.isAdd : Op → Bool
  | .addHttpServer _ _ _ => true
  | _ => false

@[simp] theorem isStarted_newServer (conf : Listener) (ipv4 ipv6 : String) (chain : Chain)
    (built : HandlerChain) : (newServer conf ipv4 ipv6 chain built).core.isStarted = false := by
  rw [newServer]
  split <;> rfl

theorem stopped_notMem_startedSlots (port : Int) : .stopped port ∉ startedSlots := by
  rintro ⟨port', hport'⟩
  exact absurd hport' (by simp)

/-- A step whose `Shutdown` succeeds keeps the flags. -/
theorem statusMatches_step (h : Consistent m) (hstatus : StatusMatches m)
    (hop : ShutdownSucceeds m op) : StatusMatches (torii.step m op).2 := by
  intro i server hentry
  cases origin hentry with
  | kept hold => exact hstatus i server hold
  | startFailed httpServer errorMessage hserver hstart =>
    rw [core_withCore]
    exact hstatus _ _ (startable_eq_some.mp hserver).2.2
  | @started env port =>
    rw [core_withCore]
    exact iff_of_true rfl ⟨port, rfl⟩
  | shutdownFailed hop' hserver hstop =>
    rw [h.stop_fst hserver] at hstop
    rw [shutdownSucceeds_iff hop' hserver, hstop] at hop
    exact absurd hop (by simp)
  | stopped hserver hstop =>
    rw [core_withCore, h.stop (stoppable_eq_some.mp hserver).2.2]
    exact iff_of_false (by simp) (stopped_notMem_startedSlots _)
  | added =>
    rw [isStarted_newServer]
    exact iff_of_false (by simp) (stopped_notMem_startedSlots _)
  | swapped hold =>
    rw [swapped_core]
    exact hstatus _ _ hold

theorem entry_of_shutdown_failure (h : Consistent m) {port : Int}
    {cause : String} {server : MicroHttpServer}
    (hop : op = .stopHttpProxy port (some cause) ∨ op = .deleteHttpProxy port (some cause))
    (hserver : m.stoppable port = some server) : (torii.step m op).2.entry (.started port) =
      some (server.withCore { server.core with isStarted := false }) := by
  obtain ⟨hpos, hstopped, hstarted⟩ := stoppable_eq_some.mp hserver
  rw [entry_stopped] at hstopped
  have hstop := h.stop hstarted (some cause)
  rw [entry_started] at hstarted
  have hport : ¬ port ≤ 0 := by omega
  obtain rfl | rfl := hop
  · simp [torii, stopHttpProxy, hport, hstopped, hstarted, stop, hstop]
  · simp [torii, deleteHttpProxy, hport, hstopped, hstarted, stop, hstop]

theorem leavesLive_of_shutdownSucceeds (h : Consistent m) (hone : OneServer m)
    (hop : ShutdownSucceeds m op) : LeavesLive m op := by
  rintro port shutdown hstop ⟨fault, hfault⟩ server hserver
  have htransition := transition m op
  generalize (torii.step m op).1 = answer at htransition hfault
  generalize (torii.step m op).2 = m' at htransition hserver ⊢
  subst hfault
  cases htransition with
  | refused e hrefused =>
    have hstoppable : m.stoppable port = some server := by
      refine stoppable_eq_some.mpr ⟨(h.listening port server hserver).1, ?_, hserver⟩
      exact (hone port).resolve_right (by simp [hserver])
    obtain rfl | rfl := hstop
    · rw [show m.stoppable port = none from hrefused] at hstoppable
      exact absurd hstoppable (by simp)
    · rw [hrefused.2] at hstoppable
      exact absurd hstoppable (by simp)
  | startFailed => simp at hstop
  | shutdownFailed hop' hserver' hfailed =>
    rw [h.stop_fst hserver'] at hfailed
    rw [shutdownSucceeds_iff hop' hserver', hfailed] at hop
    exact absurd hop (by simp)
  | buildFailed e hrequest hhost | crashed hrequest =>
    obtain rfl | rfl := hstop
    · simp [Op.request] at hrequest
    · simp [Op.request] at hrequest

/-- Step lemma for the reported status. -/
theorem status_step_iff (h : Consistent m) (hone : OneServer m)
    (hstatus : StatusMatches m) (op : Op) :
    StatusMatches (torii.step m op).2 ∧ LeavesLive m op ↔ ShutdownSucceeds m op := by
  constructor
  · rintro ⟨hafter, -⟩
    have hstops : ∀ port shutdown,
        op = .stopHttpProxy port shutdown ∨ op = .deleteHttpProxy port shutdown →
        ∀ server, m.stoppable port = some server → shutdown = none := by
      intro port shutdown hop server hserver
      cases shutdown with
      | none => rfl
      | some cause =>
        have hentry := entry_of_shutdown_failure h hop hserver
        have hflag := (hafter _ _ hentry).mpr ⟨port, rfl⟩
        rw [core_withCore] at hflag
        exact absurd hflag (by simp)
    cases op with
    | stopHttpProxy port shutdown => exact hstops port shutdown (.inl rfl)
    | deleteHttpProxy port shutdown => exact hstops port shutdown (.inr rfl)
    | addHttpServer | startHttpProxy | hotSwapHandler => trivial
  · intro hop
    exact ⟨statusMatches_step h hstatus hop, leavesLive_of_shutdownSucceeds h hone hop⟩

def addAll (m : ToriiProxy) (listeners : List (Env × Interfaces × Listener)) : ToriiProxy :=
  torii.run m (listeners.map fun l => .addHttpServer l.1 l.2.1 l.2.2)

theorem addAll_spec (dGlobal : GlobalDispatcher) (mgr : Metrics.Manager) (hasAcmeService : Bool)
    (listeners : List (Env × Interfaces × Listener)) :
    OneServer (addAll (.empty dGlobal mgr hasAcmeService) listeners) ∧
      StatusMatches (addAll (.empty dGlobal mgr hasAcmeService) listeners) := by
  have hrun : Consistent (addAll (.empty dGlobal mgr hasAcmeService) listeners) ∧
      (∀ port, (addAll (.empty dGlobal mgr hasAcmeService) listeners).entry (.started port) =
        none) ∧ StatusMatches (addAll (.empty dGlobal mgr hasAcmeService) listeners) := by
    apply torii.run_induction (fun m => Consistent m ∧ (∀ port, m.entry (.started port) = none) ∧
      StatusMatches m) (fun op => op.isAdd = true)
    · rintro m op hop ⟨h, hnone, hstatus⟩
      cases op with
      | addHttpServer =>
        refine ⟨h.step _, ?_, statusMatches_step h hstatus trivial⟩
        intro port
        rw [Option.eq_none_iff_forall_not_mem]
        intro server hentry
        cases origin hentry with
        | kept hold => simp [hnone port] at hold
        | shutdownFailed hop' => simp at hop'
      | _ => exact absurd hop (by simp [Op.isAdd])
    · intro op hop
      obtain ⟨l, -, rfl⟩ := List.mem_map.mp hop
      rfl
    · refine ⟨.empty dGlobal mgr hasAcmeService, fun port => rfl, ?_⟩
      intro i server hentry
      cases i with
      | stopped | started => exact absurd hentry (by simp [empty])
  exact ⟨fun port => .inr (hrun.2.1 port), hrun.2.2⟩

/-- Once listeners were added and until more are, the flags match the maps and a failed stop
leaves a live chain, in every state and step of a run, exactly when `Shutdown` succeeds
whenever a started server is stopped. -/
theorem status_matches_iff (dGlobal : GlobalDispatcher) (mgr : Metrics.Manager)
    (hasAcmeService : Bool) (listeners : List (Env × Interfaces × Listener)) (ops : List Op)
    (hops : ∀ op ∈ ops, op.isAdd = false) :
    torii.Always StatusMatches (addAll (.empty dGlobal mgr hasAcmeService) listeners) ops ∧
        torii.Steps LeavesLive (addAll (.empty dGlobal mgr hasAcmeService) listeners) ops ↔
      torii.Steps ShutdownSucceeds (addAll (.empty dGlobal mgr hasAcmeService) listeners) ops := by
  obtain ⟨hone, hstatus⟩ := addAll_spec dGlobal mgr hasAcmeService listeners
  have hconsistent : Consistent (addAll (.empty dGlobal mgr hasAcmeService) listeners) :=
    (Consistent.empty dGlobal mgr hasAcmeService).run _
  rw [Machine.always_iff_steps, and_iff_right hstatus, ← Machine.steps_and]
  apply torii.steps_iff_of_invariant (fun m => Consistent m ∧ OneServer m ∧ StatusMatches m)
    (fun op => op.isAdd = false) _ _ hops ⟨hconsistent, hone, hstatus⟩
  · rintro m op - ⟨h, hone, hstatus⟩
    exact status_step_iff h hone hstatus op
  · rintro m op hop ⟨h, hone, hstatus⟩ hsucceeds
    refine ⟨h.step op, (oneServer_step_iff h hone op).mpr ?_,
      statusMatches_step h hstatus hsucceeds⟩
    cases op with
    | addHttpServer => exact absurd hop (by simp [Op.isAdd])
    | _ => trivial

def sampleListeners : List (Env × Interfaces × Listener) :=
  [(smallEnv, smallNet, smallListener 8080)]

/-- A server that is started and stopped without a failure. -/
theorem status_matches_small :
    torii.Always StatusMatches (addAll smallTorii sampleListeners)
        [.startHttpProxy smallStart 8080, .stopHttpProxy 8080 none] ∧
      torii.Steps LeavesLive (addAll smallTorii sampleListeners)
        [.startHttpProxy smallStart 8080, .stopHttpProxy 8080 none] :=
  (status_matches_iff {} .new false sampleListeners
    [.startHttpProxy smallStart 8080, .stopHttpProxy 8080 none] (by decide)).mpr
    ⟨trivial, fun _ _ => rfl, trivial⟩

/-- The registry after a `Shutdown` failed. -/
def failedStop : ToriiProxy :=
  torii.run (addAll smallTorii sampleListeners)
    [.startHttpProxy smallStart 8080, .stopHttpProxy 8080 (some "context deadline exceeded")]

/-- The server is still among the started ones, but it says that it is not, and its chain is
cancelled. -/
theorem failed_stop_status :
    (failedStop.startedHttpServers.lookup 8080).map (fun server =>
      (server.core.isStarted, decide (server.context ∈ failedStop.runtime.cancelled))) =
        some (false, true) := by
  decide +kernel

end Torii.Proxy
