import Torii.Proxy.Contexts

/-!
# Lifetime of the handler chains

A stopped server keeps its cancelled chain, so that starting it again serves a chain without its
background work. A stopped server that was never started has a live chain, which nobody cancels when
the server is deleted or replaced.
-/

namespace Torii.Proxy

open Go Ledger Torii.Netutil ToriiProxy

/-! ## Started servers have a live chain -/

def startedSlots : Set Slot := { i | ∃ port, i = .started port }

/-- The chain of every started server is live. Only the context that is stored with the server is
looked at: behind a global chain requests go through the dispatcher that all servers share. -/
def StartedLive (m : ToriiProxy) : Prop :=
  ∀ port server, m.startedHttpServers.lookup port = some server →
    server.context ∉ m.runtime.cancelled

def ShutdownSucceeds (m : ToriiProxy) : Op → Prop
  | .stopHttpProxy port shutdown => ∀ server, m.stoppable port = some server → shutdown = none
  | .deleteHttpProxy port shutdown => ∀ server, m.stoppable port = some server → shutdown = none
  | _ => True

/-- The operation does not start a server whose chain was cancelled, and `Shutdown` does not
fail for a server that it stops. -/
def KeepsLive (m : ToriiProxy) : Op → Prop
  | .startHttpProxy env port => ∀ server, m.startable port = some server →
      server.canStart env m.hasAcmeService = true → server.context ∉ m.runtime.cancelled
  | op => ShutdownSucceeds m op

theorem startedLive_iff (m : ToriiProxy) : StartedLive m ↔ Live startedSlots m.ledger := by
  constructor
  · rintro h i ⟨port, rfl⟩ t hheld
    obtain ⟨server, hserver, rfl⟩ := Option.map_eq_some_iff.mp hheld
    exact h port server hserver
  · intro h port server hserver
    exact h (.started port) ⟨port, rfl⟩ _ (held_of_entry hserver)

variable {m : ToriiProxy} {server : MicroHttpServer} {op : Op} {port : Int}

theorem keepsLive_of_idle (h : op.Idle m) : KeepsLive m op := by
  cases op with
  | startHttpProxy =>
    intro server hserver hstart
    rw [h server hserver] at hstart
    exact absurd hstart (by simp)
  | stopHttpProxy port shutdown =>
    intro server hserver
    rw [show m.stoppable port = none from h] at hserver
    exact absurd hserver (by simp)
  | deleteHttpProxy =>
    intro server hserver
    rw [h.2] at hserver
    exact absurd hserver (by simp)
  | addHttpServer | hotSwapHandler => trivial

theorem shutdownSucceeds_iff {shutdown : Option String}
    (hop : op = .stopHttpProxy port shutdown ∨ op = .deleteHttpProxy port shutdown)
    (hserver : m.stoppable port = some server) : ShutdownSucceeds m op ↔ shutdown = none := by
  obtain rfl | rfl := hop
  · simp [ShutdownSucceeds, hserver]
  · simp [ShutdownSucceeds, hserver]

theorem keepsLive_stop_iff {shutdown : Option String}
    (hop : op = .stopHttpProxy port shutdown ∨ op = .deleteHttpProxy port shutdown)
    (hserver : m.stoppable port = some server) : KeepsLive m op ↔ shutdown = none := by
  rw [← shutdownSucceeds_iff hop hserver]
  obtain rfl | rfl := hop
  · rfl
  · rfl

theorem Consistent.stop_fst (h : Consistent m) (hserver : m.stoppable port = some server)
    (shutdown : Option String) : (server.core.stop shutdown).1 = shutdown := by
  rw [h.stop (stoppable_eq_some.mp hserver).2.2]

/-- Step lemma for the started servers. -/
theorem startedLive_step_iff (h : Consistent m) (hlive : StartedLive m)
    (op : Op) : StartedLive (torii.step m op).2 ↔ KeepsLive m op := by
  obtain ⟨moves, heffect, hledger⟩ := ledger_step h.owned op
  rw [startedLive_iff] at hlive
  rw [startedLive_iff, hledger]
  cases heffect with
  | idle hidle | waste hidle => exact iff_of_true hlive (keepsLive_of_idle hidle)
  | spoil hidle => exact iff_of_true (hlive.spoil h.wellFormed) (keepsLive_of_idle hidle)
  | add hbuilds => exact iff_of_true ((hlive.diff _).issue h.wellFormed) trivial
  | @start env port server hserver hstart =>
    obtain ⟨-, -, hstopped⟩ := startable_eq_some.mp hserver
    have hkeeps : KeepsLive m (.startHttpProxy env port) ↔
        server.context ∉ m.runtime.cancelled := by
      simp [KeepsLive, hserver, hstart]
    rw [hkeeps, applyAll_cons, applyAll_nil]
    constructor
    · intro hafter
      refine hafter (.started port) ⟨port, rfl⟩ _ ?_
      rw [held_apply_transfer, if_pos rfl]
      exact held_of_entry hstopped
    · intro hvalid
      refine (hlive.diff _).transfer ?_
      intro _ t hheld
      rw [held_of_entry hstopped] at hheld
      rwa [← Option.some.inj hheld]
  | @shutdownFailed _ port shutdown server hop hserver hstop =>
    obtain ⟨-, -, hstarted⟩ := stoppable_eq_some.mp hserver
    rw [h.stop_fst hserver] at hstop
    rw [keepsLive_stop_iff hop hserver]
    refine iff_of_false ?_ hstop
    intro hafter
    exact hafter (.started port) ⟨port, rfl⟩ _ (held_of_entry hstarted)
      (.inl (held_of_entry hstarted))
  | @stop port shutdown server hserver hstop =>
    rw [h.stop_fst hserver] at hstop
    rw [keepsLive_stop_iff (.inl rfl) hserver]
    refine iff_of_true ((hlive.revoke h.wellFormed _).transfer ?_) hstop
    rintro ⟨port', hport'⟩
    exact absurd hport' (by simp)
  | delete hserver hstop =>
    rw [h.stop_fst hserver] at hstop
    rw [keepsLive_stop_iff (.inr rfl) hserver]
    exact iff_of_true (hlive.revoke h.wellFormed _).drop hstop
  | @drop port shutdown server hserver =>
    refine iff_of_true (hlive.diff _).drop ?_
    intro server' hserver'
    simp [droppable_of_stoppable hserver'] at hserver
  | swap hentry =>
    exact iff_of_true ((hlive.revoke h.wellFormed _).issue (h.wellFormed.apply _)) trivial

/-- Every started server has a live chain in every state of a run exactly when no step starts
a server whose chain was cancelled and no `Shutdown` of a started server fails. -/
theorem started_live_iff (dGlobal : GlobalDispatcher) (mgr : Metrics.Manager)
    (hasAcmeService : Bool) (ops : List Op) :
    torii.Always StartedLive (.empty dGlobal mgr hasAcmeService) ops ↔
      torii.Steps KeepsLive (.empty dGlobal mgr hasAcmeService) ops := by
  apply torii.always_iff_of_invariant Consistent
  · intro m op h
    exact h.step op
  · intro m op h hlive
    exact startedLive_step_iff h hlive op
  · exact .empty dGlobal mgr hasAcmeService
  · intro port server hserver
    exact absurd hserver (by simp [empty])

/-- A server that is stopped and started again serves a cancelled chain. -/
theorem restarted_server_cancelled :
    ¬ StartedLive (torii.run smallTorii [addSmall 8080, .startHttpProxy smallStart 8080,
      .stopHttpProxy 8080 none, .startHttpProxy smallStart 8080]) := by
  intro hlive
  have hcancelled : (((torii.run smallTorii [addSmall 8080, .startHttpProxy smallStart 8080,
      .stopHttpProxy 8080 none, .startHttpProxy smallStart 8080]).startedHttpServers.lookup
      8080).map MicroHttpServer.context = some 0) := by
    decide +kernel
  obtain ⟨server, hserver, hcontext⟩ := Option.map_eq_some_iff.mp hcancelled
  apply hlive 8080 server hserver
  rw [hcontext]
  decide +kernel

/-! ## No chain is lost -/

/-- Every chain that was built and whose context is not cancelled is the chain of a server
in one of the two maps. -/
def ChainsKept (m : ToriiProxy) : Prop :=
  ∀ context ∈ m.runtime.issued, context ∉ m.runtime.cancelled →
    ∃ i server, m.entry i = some server ∧ server.context = context

/-- The operation does not delete a stopped server whose chain is live, nor replace one by
adding a server. -/
def KeepsChains (m : ToriiProxy) (op : Op) : Prop :=
  match op with
  | .addHttpServer _ _ conf => op.Builds m → ∀ server,
      m.stoppedHttpServers.lookup conf.port = some server →
        server.context ∈ m.runtime.cancelled
  | .deleteHttpProxy port _ => ∀ server, m.droppable port = some server →
      server.context ∈ m.runtime.cancelled
  | _ => True

theorem chainsKept_iff (m : ToriiProxy) : ChainsKept m ↔ m.ledger.Kept := by
  constructor
  · intro h t hissued hvalid
    obtain ⟨i, server, hentry, rfl⟩ := h t hissued hvalid
    exact ⟨i, held_of_entry hentry⟩
  · intro h t hissued hvalid
    obtain ⟨i, hheld⟩ := h t hissued hvalid
    obtain ⟨server, hentry, hcontext⟩ := Option.map_eq_some_iff.mp hheld
    exact ⟨i, server, hentry, hcontext⟩

theorem spent_iff (m : ToriiProxy) (i : Slot) :
    m.ledger.Spent i ↔
      ∀ server, m.entry i = some server → server.context ∈ m.runtime.cancelled := by
  constructor
  · intro h server hentry
    exact h _ (held_of_entry hentry)
  · intro h t hheld
    obtain ⟨server, hentry, rfl⟩ := Option.map_eq_some_iff.mp hheld
    exact h server hentry

theorem spent_of_none {i : Slot} (h : m.entry i = none) : m.ledger.Spent i := by
  rw [spent_iff, h]
  simp

theorem keepsChains_of_idle (h : op.Idle m) : KeepsChains m op := by
  cases op with
  | addHttpServer => exact fun hbuilds => absurd hbuilds h
  | deleteHttpProxy =>
    intro server hserver
    rw [h.1] at hserver
    exact absurd hserver (by simp)
  | startHttpProxy | stopHttpProxy | hotSwapHandler => trivial

/-- Step lemma for the chains. -/
theorem chainsKept_step_iff (h : Consistent m) (hkept : ChainsKept m)
    (op : Op) : ChainsKept (torii.step m op).2 ↔ KeepsChains m op := by
  obtain ⟨moves, heffect, hledger⟩ := ledger_step h.owned op
  rw [chainsKept_iff] at hkept
  have hone := kept_apply_iff h.wellFormed hkept
  -- a token is revoked before its slot is emptied
  have htwo : ∀ i move, ((m.ledger.apply (.revoke i)).apply move).Kept ↔
      move.Safe (m.ledger.apply (.revoke i)) := fun i =>
    kept_apply_iff (h.wellFormed.apply _) ((hone (.revoke i)).mpr trivial)
  rw [chainsKept_iff, hledger]
  cases heffect with
  | idle hidle => exact iff_of_true hkept (keepsChains_of_idle hidle)
  | spoil hidle => exact iff_of_true ((hone .spoil).mpr trivial) (keepsChains_of_idle hidle)
  | waste hidle => exact iff_of_true ((hone .waste).mpr trivial) (keepsChains_of_idle hidle)
  | @add env net conf hbuilds =>
    have hkeeps : KeepsChains m (.addHttpServer env net conf) ↔
        m.ledger.Spent (.stopped conf.port) := by
      rw [spent_iff]
      exact forall_prop_of_true hbuilds
    rw [hkeeps]
    exact hone (.issue (.stopped conf.port))
  | start hserver hstart =>
    obtain ⟨-, hstarted, -⟩ := startable_eq_some.mp hserver
    exact iff_of_true ((hone (.transfer _ _)).mpr fun _ => spent_of_none hstarted) trivial
  | @shutdownFailed _ port shutdown server hop hserver hstop =>
    refine iff_of_true ((hone (.revoke (.started port))).mpr trivial) ?_
    obtain rfl | rfl := hop
    · trivial
    · simp [KeepsChains, droppable_of_stoppable hserver]
  | @stop port shutdown server hserver hstop =>
    obtain ⟨-, hstopped, -⟩ := stoppable_eq_some.mp hserver
    refine iff_of_true ((htwo (.started port) (.transfer _ _)).mpr ?_) trivial
    intro _ t hheld
    exact .inr (spent_of_none hstopped t hheld)
  | @delete port shutdown server hserver hstop =>
    refine iff_of_true ((htwo _ (.drop _)).mpr (spent_apply_revoke _ _)) ?_
    simp [KeepsChains, droppable_of_stoppable hserver]
  | @drop port shutdown server hserver =>
    obtain ⟨-, hstopped⟩ := droppable_eq_some.mp hserver
    have hkeeps : KeepsChains m (.deleteHttpProxy port shutdown) ↔
        m.ledger.Spent (.stopped port) := by
      rw [spent_iff, hstopped, KeepsChains, hserver]
    rw [hkeeps]
    exact hone (.drop (.stopped port))
  | swap hentry => exact iff_of_true ((htwo _ (.issue _)).mpr (spent_apply_revoke _ _)) trivial

/-- No chain is lost in any state of a run exactly when no step deletes or replaces a stopped
server whose chain is live. -/
theorem chains_kept_iff (dGlobal : GlobalDispatcher) (mgr : Metrics.Manager)
    (hasAcmeService : Bool) (ops : List Op) :
    torii.Always ChainsKept (.empty dGlobal mgr hasAcmeService) ops ↔
      torii.Steps KeepsChains (.empty dGlobal mgr hasAcmeService) ops := by
  apply torii.always_iff_of_invariant Consistent
  · intro m op h
    exact h.step op
  · intro m op h hkept
    exact chainsKept_step_iff h hkept op
  · exact .empty dGlobal mgr hasAcmeService
  · intro context hissued
    exact absurd hissued (by simp [empty])

theorem entry_of_no_keys (hstopped : m.stoppedHttpServers.keys = [])
    (hstarted : m.startedHttpServers.keys = []) (i : Slot) : m.entry i = none := by
  cases i with
  | stopped port => simp [AList.lookup_eq_none, AList.mem_keys, hstopped]
  | started port => simp [AList.lookup_eq_none, AList.mem_keys, hstarted]

/-- A server that is added and deleted leaves its chain behind. -/
theorem deleted_server_leaks :
    ¬ ChainsKept (torii.run smallTorii [addSmall 8080, .deleteHttpProxy 8080 none]) := by
  intro hkept
  obtain ⟨i, server, hentry, -⟩ := hkept 0 (by decide +kernel) (by decide +kernel)
  rw [entry_of_no_keys (by decide +kernel) (by decide +kernel)] at hentry
  exact absurd hentry (by simp)

end Torii.Proxy
