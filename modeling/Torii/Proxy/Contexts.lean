import Torii.Lib.Ledger
import Torii.Proxy.Entries

/-!
# Runtime contexts of the servers

The registry as a ledger: the contexts are the tokens, the entries of the two maps are the slots
that hold them, and cancelling a context revokes its token.
-/

namespace Torii.Proxy

open Go Ledger Torii.Middleware Torii.Metrics Torii.Netutil MicroHttpServer ToriiProxy Function

def MicroHttpServer.context (server : MicroHttpServer) : Nat := server.core.handler.context

variable (server : MicroHttpServer)

@[simp] theorem context_withCore (core : ServerCore) :
    (server.withCore core).context = core.handler.context := by
  rw [context, core_withCore]

@[simp] theorem context_stop (shutdown : Option String) :
    (server.core.stop shutdown).2.handler.context = server.context := by
  rw [ServerCore.stop]
  split <;> rfl

@[simp] theorem context_newServer (conf : Listener) (ipv4 ipv6 : String) (chain : Chain)
    (built : HandlerChain) : (newServer conf ipv4 ipv6 chain built).context = chain.context := by
  rw [newServer]
  split <;> rfl

@[simp] theorem context_swapped (chain : Chain) (built : HandlerChain) (conf : Listener) :
    (server.swapped chain built conf).context = chain.context := by
  rw [swapped, updateServerMetadata, context_withCore,
    core_withCore]
  rfl

def heldIn (stopped started : GoMap Int MicroHttpServer) : Slot → Option Nat
  | .stopped port => (stopped.lookup port).map MicroHttpServer.context
  | .started port => (started.lookup port).map MicroHttpServer.context

section

variable (stopped started : GoMap Int MicroHttpServer) (port : Int) (server : MicroHttpServer)

theorem heldIn_insert_stopped : heldIn (stopped.insert port server) started =
    Function.update (heldIn stopped started) (.stopped port) (some server.context) := by
  funext i
  cases i <;> grind [heldIn, GoMap.lookup_insert', update_apply]

theorem heldIn_insert_started : heldIn stopped (started.insert port server) =
    Function.update (heldIn stopped started) (.started port) (some server.context) := by
  funext i
  cases i <;> grind [heldIn, GoMap.lookup_insert', update_apply]

theorem heldIn_erase_stopped : heldIn (stopped.erase port) started =
    Function.update (heldIn stopped started) (.stopped port) none := by
  funext i
  cases i <;> grind [heldIn, GoMap.lookup_erase', update_apply]

theorem heldIn_erase_started : heldIn stopped (started.erase port) =
    Function.update (heldIn stopped started) (.started port) none := by
  funext i
  cases i <;> grind [heldIn, GoMap.lookup_erase', update_apply]

end

namespace ToriiProxy

/-- The contexts of the registry and the entries that hold them. -/
def ledger (m : ToriiProxy) : Ledger Slot where
  held i := (m.entry i).map MicroHttpServer.context
  created := m.runtime.created
  issued := { t | t ∈ m.runtime.issued }
  revoked := { t | t ∈ m.runtime.cancelled }

theorem held_ledger (m : ToriiProxy) :
    m.ledger.held = heldIn m.stoppedHttpServers m.startedHttpServers := by
  funext i
  cases i with
  | stopped | started => rfl

/-- Every server can cancel the context of the chain that it serves. -/
def Owned (m : ToriiProxy) : Prop :=
  ∀ i server, m.entry i = some server →
    server.core.cancelChain = some server.context

end ToriiProxy

/-! ## The moves of an operation -/

namespace Op

def Builds (m : ToriiProxy) (op : Op) : Prop :=
  ∃ request built, op.request m = some request ∧
    (request.host m.metricsManager).1 = .ok built

/-- The operation leaves every chain where it is. -/
def Idle (m : ToriiProxy) (op : Op) : Prop :=
  match op with
  | .addHttpServer _ _ _ => ¬ op.Builds m
  | .startHttpProxy env port =>
    ∀ server, m.startable port = some server → server.canStart env m.hasAcmeService = false
  | .stopHttpProxy port _ => m.stoppable port = none
  | .deleteHttpProxy port _ => m.droppable port = none ∧ m.stoppable port = none
  | .hotSwapHandler _ _ _ _ => ¬ op.Builds m

end Op

inductive Effect (m : ToriiProxy) : Op → List (Move Slot) → Prop where
  | idle {op : Op} (hidle : op.Idle m) : Effect m op []
  | spoil {op : Op} (hidle : op.Idle m) : Effect m op [.spoil]
  | waste {op : Op} (hidle : op.Idle m) : Effect m op [.waste]
  | add {env : Env} {net : Interfaces} {conf : Listener}
      (hbuilds : (Op.addHttpServer env net conf).Builds m) :
      Effect m (.addHttpServer env net conf) [.issue (.stopped conf.port)]
  | start {env : StartEnv} {port : Int} {server : MicroHttpServer}
      (hserver : m.startable port = some server)
      (hstart : server.canStart env m.hasAcmeService = true) :
      Effect m (.startHttpProxy env port) [.transfer (.stopped port) (.started port)]
  | shutdownFailed {op : Op} {port : Int} {shutdown : Option String} {server : MicroHttpServer}
      (hop : op = .stopHttpProxy port shutdown ∨ op = .deleteHttpProxy port shutdown)
      (hserver : m.stoppable port = some server)
      (hstop : (server.core.stop shutdown).1 ≠ none) :
      Effect m op [.revoke (.started port)]
  | stop {port : Int} {shutdown : Option String} {server : MicroHttpServer}
      (hserver : m.stoppable port = some server) (hstop : (server.core.stop shutdown).1 = none) :
      Effect m (.stopHttpProxy port shutdown)
        [.revoke (.started port), .transfer (.started port) (.stopped port)]
  | delete {port : Int} {shutdown : Option String} {server : MicroHttpServer}
      (hserver : m.stoppable port = some server) (hstop : (server.core.stop shutdown).1 = none) :
      Effect m (.deleteHttpProxy port shutdown)
        [.revoke (.started port), .drop (.started port)]
  | drop {port : Int} {shutdown : Option String} {server : MicroHttpServer}
      (hserver : m.droppable port = some server) :
      Effect m (.deleteHttpProxy port shutdown) [.drop (.stopped port)]
  | swap {env : Env} {port : Int} {conf : Listener} {sameNils : Bool} {server : MicroHttpServer}
      (hentry : m.entry (m.slotOf port) = some server) :
      Effect m (.hotSwapHandler env port conf sameNils)
        [.revoke (m.slotOf port), .issue (m.slotOf port)]

section

variable {m : ToriiProxy} {i : Slot} {server : MicroHttpServer} {m' : ToriiProxy} {op : Op}

theorem held_of_entry (h : m.entry i = some server) : m.ledger.held i = some server.context := by
  change (m.entry i).map context = _
  rw [h]
  rfl

@[simp] theorem created_cancelChain (rt : Runtime) (cancel : Option Nat) :
    (rt.cancelChain cancel).created = rt.created := by
  cases cancel with
  | none | some => rfl

@[simp] theorem issued_cancelChain (rt : Runtime) (cancel : Option Nat) :
    (rt.cancelChain cancel).issued = rt.issued := by
  cases cancel with
  | none | some => rfl

theorem mem_cancelChain (hm : m.Owned) (h : m.entry i = some server) {rt : Runtime} (t : Nat) :
    t ∈ (rt.cancelChain server.core.cancelChain).cancelled ↔
      m.ledger.held i = some t ∨ t ∈ rt.cancelled := by
  rw [hm i server h, held_of_entry h, Option.some.injEq, eq_comm]
  exact List.mem_cons

theorem ledger_eq {L : Ledger Slot} (hheld : m'.ledger.held = L.held)
    (hcreated : m'.runtime.created = L.created)
    (hissued : ∀ t, t ∈ m'.runtime.issued ↔ t ∈ L.issued)
    (hrevoked : ∀ t, t ∈ m'.runtime.cancelled ↔ t ∈ L.revoked) : m'.ledger = L :=
  Ledger.ext hheld hcreated (Set.ext hissued) (Set.ext hrevoked)

variable {held : Slot → Option Nat}

theorem ledger_of_same_runtime (h : m'.runtime = m.runtime) (hheld : m'.ledger.held = held) :
    m'.ledger = { m.ledger with held } := by
  refine ledger_eq hheld ?_ ?_ ?_ <;> simp [h, ledger]

theorem ledger_of_cancelled (hm : m.Owned) (hentry : m.entry i = some server)
    (h : m'.runtime = m.runtime.cancelChain server.core.cancelChain) (hheld : m'.ledger.held = held)
    :
    m'.ledger = { m.ledger.apply (.revoke i) with held } := by
  refine ledger_eq hheld ?_ ?_ ?_
  · rw [h, created_cancelChain]
    rfl
  · intro t
    rw [h, issued_cancelChain]
    rfl
  · intro t
    rw [h]
    exact mem_cancelChain hm hentry t

theorem update_held (h : m.entry i = some server) :
    Function.update m.ledger.held i (some server.context) = m.ledger.held := by
  rw [← held_of_entry h, update_eq_self]

theorem update_update_held (h : m.entry i = some server) (j : Slot) :
    Function.update (Function.update m.ledger.held i none) j (some server.context) =
      (m.ledger.apply (.transfer i j)).held := by
  rw [← held_of_entry h]
  rfl

/-- A build that is not asked for, or that fails, is none. -/
theorem not_builds (h : ∀ request, op.request m = some request →
    ∀ built, (request.host m.metricsManager).1 ≠ .ok built) : ¬ op.Builds m := by
  rintro ⟨request, built, hrequest, hhost⟩
  exact h request hrequest built hhost

theorem idle_of_failed {request : ChainRequest} {failure : Failure} {manager : Manager}
    (hrequest : op.request m = some request)
    (hhost : request.host m.metricsManager = (.error failure, manager)) : op.Idle m := by
  have hbuilds : ¬ op.Builds m := by
    apply not_builds
    intro request' hrequest' built
    rw [hrequest] at hrequest'
    rw [← Option.some.inj hrequest', hhost]
    simp
  cases op with
  | addHttpServer | hotSwapHandler => exact hbuilds
  | startHttpProxy | stopHttpProxy | deleteHttpProxy => exact absurd hrequest (by simp [Op.request])

theorem idle_of_refused (h : op.Refused m) : op.Idle m := by
  cases op with
  | addHttpServer | hotSwapHandler =>
    apply not_builds
    simp [request_eq_none_of_refused h]
  | startHttpProxy env port =>
    intro server hserver
    rw [show m.startable port = none from h] at hserver
    exact absurd hserver (by simp)
  | stopHttpProxy | deleteHttpProxy => exact h

theorem ledger_step (hm : m.Owned) (op : Op) :
    ∃ moves, Effect m op moves ∧ (torii.step m op).2.ledger = m.ledger.applyAll moves := by
  have htransition := transition m op
  generalize (torii.step m op).1 = answer at htransition
  generalize (torii.step m op).2 = m' at htransition ⊢
  cases htransition with
  | refused e hrefused => exact ⟨[], .idle (idle_of_refused hrefused), rfl⟩
  | @startFailed env port server e httpServer errorMessage hserver hstart =>
    obtain ⟨-, -, hstopped⟩ := startable_eq_some.mp hserver
    refine ⟨[], .idle ?_, ?_⟩
    · intro server' hserver'
      rw [hserver] at hserver'
      rwa [← Option.some.inj hserver']
    · apply ledger_of_same_runtime rfl
      rw [held_ledger, heldIn_insert_stopped, context_withCore, ← m.held_ledger]
      exact update_held hstopped
  | @started env port server httpServer hserver hstart =>
    obtain ⟨-, -, hstopped⟩ := startable_eq_some.mp hserver
    refine ⟨_, .start hserver hstart, ?_⟩
    apply ledger_of_same_runtime rfl
    rw [held_ledger, heldIn_insert_started, heldIn_erase_stopped, context_withCore,
      ← m.held_ledger]
    exact update_update_held hstopped _
  | @shutdownFailed _ port shutdown server cause hop hserver hstop =>
    obtain ⟨-, -, hstarted⟩ := stoppable_eq_some.mp hserver
    refine ⟨_, .shutdownFailed hop hserver (by simp [hstop]), ?_⟩
    apply ledger_of_cancelled hm hstarted rfl
    rw [held_ledger, heldIn_insert_started, context_withCore, context_stop,
      ← m.held_ledger]
    exact update_held hstarted
  | @stopped port shutdown server hserver hstop =>
    obtain ⟨-, -, hstarted⟩ := stoppable_eq_some.mp hserver
    refine ⟨_, .stop hserver hstop, ?_⟩
    apply ledger_of_cancelled hm hstarted rfl
    rw [held_ledger, heldIn_insert_stopped, heldIn_erase_started, context_withCore,
      context_stop, ← m.held_ledger]
    exact update_update_held hstarted _
  | @deleted port shutdown server hserver hstop =>
    obtain ⟨-, -, hstarted⟩ := stoppable_eq_some.mp hserver
    refine ⟨_, .delete hserver hstop, ?_⟩
    apply ledger_of_cancelled hm hstarted rfl
    rw [held_ledger, heldIn_erase_started, ← m.held_ledger]
    rfl
  | @dropped port shutdown server hserver =>
    refine ⟨_, .drop hserver, ?_⟩
    apply ledger_of_same_runtime rfl
    rw [held_ledger, heldIn_erase_stopped, ← m.held_ledger]
  | buildFailed e hrequest hhost =>
    exact ⟨[.spoil], .spoil (idle_of_failed hrequest hhost),
      ledger_eq rfl rfl (fun t => Iff.rfl) (fun t => List.mem_cons)⟩
  | crashed hrequest hfailure hhost =>
    exact ⟨[.waste], .waste (idle_of_failed hrequest hhost),
      ledger_eq rfl rfl (fun t => Iff.rfl) (fun t => Iff.rfl)⟩
  | @unchanged env port conf sameNils server hserver hsame =>
    refine ⟨[], .idle ?_, rfl⟩
    apply not_builds
    simp [Op.request, hserver, hsame]
  | @added env net conf ipv4 ipv6 host backends snapshots manager haddresses hhost =>
    have hbuilds : (Op.addHttpServer env net conf).Builds m := by
      refine ⟨⟨env, serverIdOf conf.port, conf.toHTTPListener⟩, (host, backends, snapshots),
        ?_, ?_⟩
      · exact request_add haddresses
      · rw [ChainRequest.host, hhost]
    refine ⟨_, .add hbuilds, ledger_eq ?_ rfl (fun t => List.mem_cons) (fun t => Iff.rfl)⟩
    rw [held_ledger, heldIn_insert_stopped, context_newServer, ← m.held_ledger]
    rfl
  | @swapped env port conf sameNils server host backends snapshots manager hserver =>
    have hentry : m.entry (m.slotOf port) = some server := (m.entry_slotOf port).trans hserver
    refine ⟨_, .swap hentry, ledger_eq ?_ ?_ ?_ ?_⟩
    · funext i
      change ((updateServer _ port _).entry i).map _ = _
      rw [entry_updateServer, applyAll_cons, applyAll_cons, applyAll_nil,
        held_apply_issue, update_apply]
      split
      · rw [Option.map_some, context_swapped]
        rfl
      · rfl
    · rw [runtime_updateServer, created_cancelChain]
      rfl
    · intro t
      rw [runtime_updateServer, issued_cancelChain]
      exact List.mem_cons
    · intro t
      rw [runtime_updateServer]
      exact mem_cancelChain hm hentry t

end

/-! ## Invariant of the registry -/

/-- What holds in every state of the registry. -/
structure Consistent (m : ToriiProxy) : Prop where
  owned : m.Owned
  wellFormed : m.ledger.WellFormed
  listening : ∀ port server, m.entry (.started port) = some server →
    0 < port ∧ server.core.httpServer.isSome = true

@[simp] theorem cancelChain_newServer (conf : Listener) (ipv4 ipv6 : String) (chain : Chain)
    (built : HandlerChain) :
    (newServer conf ipv4 ipv6 chain built).core.cancelChain = some chain.context := by
  rw [newServer]
  split <;> rfl

variable (core : ServerCore) (shutdown : Option String)

@[simp] theorem cancelChain_stop : (core.stop shutdown).2.cancelChain = core.cancelChain := by
  rw [ServerCore.stop]
  split <;> rfl

@[simp] theorem httpServer_stop : (core.stop shutdown).2.httpServer = core.httpServer := by
  rw [ServerCore.stop]
  split <;> rfl

theorem swapped_core (server : MicroHttpServer) (chain : Chain) (built : HandlerChain)
    (conf : Listener) : (server.swapped chain built conf).core =
      { server.core with
        cancelChain := some chain.context
        handler := chain
        middlewareChain := collectMiddlewareNames built.routeSnapshots
        backends := built.backends
        routes := built.routeSnapshots
        currentConfig := conf } := by
  rw [swapped, updateServerMetadata,
    core_withCore, core_withCore]
  rfl

variable {m : ToriiProxy}

theorem owned_step (hm : m.Owned) (op : Op) : (torii.step m op).2.Owned := by
  intro i server hentry
  cases origin hentry with
  | kept hold => exact hm i server hold
  | startFailed httpServer errorMessage hserver hstart | started httpServer hserver hstart =>
    rw [core_withCore, context_withCore]
    exact hm _ _ (startable_eq_some.mp hserver).2.2
  | shutdownFailed hop hserver hstop | stopped hserver hstop =>
    rw [core_withCore, context_withCore, cancelChain_stop, context_stop]
    exact hm _ _ (stoppable_eq_some.mp hserver).2.2
  | added => rw [cancelChain_newServer, context_newServer]
  | swapped => rw [swapped_core, context_swapped]

/-- Step lemma: every operation keeps the invariant. -/
theorem Consistent.step (h : Consistent m) (op : Op) : Consistent (torii.step m op).2 := by
  refine ⟨owned_step h.owned op, ?_, ?_⟩
  · obtain ⟨moves, -, hledger⟩ := ledger_step h.owned op
    rw [hledger]
    exact h.wellFormed.applyAll moves
  · intro port server hentry
    generalize hi : Slot.started port = i at hentry
    cases origin hentry with
    | kept hold => exact h.listening port server (hi ▸ hold)
    | startFailed => exact absurd hi (by simp)
    | started httpServer hserver hstart =>
      rw [Slot.started.inj hi, core_withCore]
      exact ⟨(startable_eq_some.mp hserver).1, rfl⟩
    | shutdownFailed hop hserver hstop =>
      rw [Slot.started.inj hi, core_withCore, httpServer_stop]
      exact h.listening _ _ (stoppable_eq_some.mp hserver).2.2
    | stopped | added => exact absurd hi (by simp)
    | swapped hold =>
      rw [swapped_core]
      exact h.listening port _ (hi ▸ hold)

theorem Consistent.empty (dGlobal : GlobalDispatcher) (mgr : Metrics.Manager)
    (hasAcmeService : Bool) : Consistent (.empty dGlobal mgr hasAcmeService) := by
  have hnone : ∀ i, (ToriiProxy.empty dGlobal mgr hasAcmeService).entry i = none := by
    intro i
    cases i with
    | stopped | started => rfl
  refine ⟨?_, ⟨?_, ?_, ?_, ?_⟩, ?_⟩
  · simp [Owned, hnone]
  · simp [ledger, hnone]
  · simp [ledger, ToriiProxy.empty]
  · simp [ledger, ToriiProxy.empty]
  · simp [ledger, hnone]
  · simp [hnone]

/-- `Shutdown` decides whether a started server stops. -/
theorem Consistent.stop (h : Consistent m) {port : Int} {server : MicroHttpServer}
    (hserver : m.entry (.started port) = some server) (shutdown : Option String) :
    server.core.stop shutdown = (shutdown, { server.core with isStarted := false }) := by
  have hsome := (h.listening port server hserver).2
  rw [ServerCore.stop, if_neg]
  rw [Option.isNone_iff_eq_none]
  rintro hnone
  simp [hnone] at hsome

end Torii.Proxy
