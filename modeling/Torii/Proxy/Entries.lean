import Torii.Proxy.Lifecycle

/-!
# The entries of the registry

The two maps of the registry as one family of entries: where a server of the next state comes from
(`origin`), and that an operation leaves other ports alone (`entry_step_of_ne`).
-/

namespace Torii.Proxy

open Go Torii.Middleware Torii.Metrics Torii.Netutil ToriiProxy

inductive Slot where
  | stopped (port : Int)
  | started (port : Int)
deriving DecidableEq

namespace ToriiProxy

def entry (m : ToriiProxy) : Slot → Option MicroHttpServer
  | .stopped port => m.stoppedHttpServers.lookup port
  | .started port => m.startedHttpServers.lookup port

variable (m : ToriiProxy) {server : MicroHttpServer} (port : Int)

@[simp] theorem entry_stopped : m.entry (.stopped port) = m.stoppedHttpServers.lookup port := rfl

@[simp] theorem entry_started : m.entry (.started port) = m.startedHttpServers.lookup port := rfl

/-- The entry of the server that `findServer` finds. -/
def slotOf (m : ToriiProxy) (port : Int) : Slot :=
  if (m.startedHttpServers.lookup port).isSome then .started port else .stopped port

theorem entry_slotOf : m.entry (m.slotOf port) = m.findServer port := by
  rw [slotOf, findServer]
  cases hstarted : m.startedHttpServers.lookup port with
  | none => rfl
  | some server => exact hstarted

theorem entry_updateServer (s : BuildState) (port : Int) (server : MicroHttpServer) :
    (updateServer { m with toBuildState := s } port server).entry =
      Function.update m.entry (m.slotOf port) (some server) := by
  funext i
  rw [updateServer, slotOf]
  split <;> cases i <;> simp [entry, GoMap.lookup_insert', Function.update_apply]

theorem findServer_updateServer (server : MicroHttpServer) :
    (m.updateServer port server).findServer port = some server := by
  rw [updateServer]
  split
  · simp [findServer]
  · next hnone =>
    have hstarted : m.startedHttpServers.lookup port = none := by simpa using hnone
    simp [findServer, hstarted]

@[simp] theorem runtime_updateServer (server : MicroHttpServer) :
    (m.updateServer port server).runtime = m.runtime := by
  rw [updateServer]
  split <;> rfl

@[simp] theorem gDispatcher_updateServer
    (server : MicroHttpServer) : (m.updateServer port server).gDispatcher = m.gDispatcher := by
  rw [updateServer]
  split <;> rfl

theorem startable_eq_some {m : ToriiProxy} {port : Int} :
    m.startable port = some server ↔
      0 < port ∧ m.entry (.started port) = none ∧ m.entry (.stopped port) = some server := by
  rw [startable, Option.ite_none_right_eq_some, and_assoc]
  rfl

theorem stoppable_eq_some {m : ToriiProxy} {port : Int} :
    m.stoppable port = some server ↔
      0 < port ∧ m.entry (.stopped port) = none ∧ m.entry (.started port) = some server := by
  rw [stoppable, Option.ite_none_right_eq_some, and_assoc]
  rfl

theorem droppable_eq_some {m : ToriiProxy} {port : Int} :
    m.droppable port = some server ↔ 0 < port ∧ m.entry (.stopped port) = some server := by
  rw [droppable, Option.ite_none_right_eq_some]
  rfl

theorem droppable_of_stoppable {m : ToriiProxy} {port : Int}
    (h : m.stoppable port = some server) : m.droppable port = none := by
  obtain ⟨hpos, hstopped, -⟩ := stoppable_eq_some.mp h
  rw [droppable, if_pos hpos]
  exact hstopped

end ToriiProxy

/-- Where a server comes from that is in an entry after an operation. -/
inductive Origin (m : ToriiProxy) : Op → Slot → MicroHttpServer → Prop where
  | kept {op : Op} {i : Slot} {server : MicroHttpServer} (hentry : m.entry i = some server) :
      Origin m op i server
  | startFailed {env : StartEnv} {port : Int} {server : MicroHttpServer}
      (httpServer : Option HttpServer) (errorMessage : String)
      (hserver : m.startable port = some server)
      (hstart : server.canStart env m.hasAcmeService = false) :
      Origin m (.startHttpProxy env port) (.stopped port)
        (server.withCore { server.core with httpServer, errorMessage })
  | started {env : StartEnv} {port : Int} {server : MicroHttpServer} (httpServer : HttpServer)
      (hserver : m.startable port = some server)
      (hstart : server.canStart env m.hasAcmeService = true) :
      Origin m (.startHttpProxy env port) (.started port)
        (server.withCore (server.core.opened httpServer))
  | shutdownFailed {op : Op} {port : Int} {shutdown : Option String} {server : MicroHttpServer}
      {cause : String}
      (hop : op = .stopHttpProxy port shutdown ∨ op = .deleteHttpProxy port shutdown)
      (hserver : m.stoppable port = some server)
      (hstop : (server.core.stop shutdown).1 = some cause) :
      Origin m op (.started port) (server.withCore (server.core.stop shutdown).2)
  | stopped {port : Int} {shutdown : Option String} {server : MicroHttpServer}
      (hserver : m.stoppable port = some server) (hstop : (server.core.stop shutdown).1 = none) :
      Origin m (.stopHttpProxy port shutdown) (.stopped port)
        (server.withCore (server.core.stop shutdown).2)
  | added {env : Env} {net : Interfaces} {conf : Listener} {ipv4 ipv6 : String} {host : Handler}
      {backends : List String} {snapshots : List RouteSnapshot} {manager : Manager}
      (haddresses : listenerAddresses net (applyDefaultTimeouts conf) = .ok (ipv4, ipv6))
      (hhost : hostDispatcherOf env (serverIdOf conf.port) conf.toHTTPListener m.metricsManager =
        (.ok (host, backends, snapshots), manager)) :
      Origin m (.addHttpServer env net conf) (.stopped conf.port)
        (newServer (applyDefaultTimeouts conf) ipv4 ipv6
          (chainOf m.toBuildState conf.toHTTPListener host)
          (m.built conf.toHTTPListener host backends snapshots))
  | swapped {env : Env} {port : Int} {conf : Listener} {sameNils : Bool}
      {server : MicroHttpServer} {host : Handler} {backends : List String}
      {snapshots : List RouteSnapshot} {manager : Manager}
      (hentry : m.entry (m.slotOf port) = some server)
      (hchanged : unchanged sameNils server.getCurrentConfig conf = false)
      (hhost : hostDispatcherOf env server.getServerId conf.toHTTPListener m.metricsManager =
        (.ok (host, backends, snapshots), manager)) :
      Origin m (.hotSwapHandler env port conf sameNils) (m.slotOf port)
        (server.swapped (chainOf m.toBuildState conf.toHTTPListener host)
          (m.built conf.toHTTPListener host backends snapshots) conf)

variable {m : ToriiProxy} {op : Op}

theorem origin {i : Slot} {server : MicroHttpServer} (h : (torii.step m op).2.entry i = some server)
    :
    Origin m op i server := by
  have htransition := transition m op
  generalize (torii.step m op).1 = answer at htransition
  generalize (torii.step m op).2 = m' at htransition h
  cases htransition with
  | refused => exact .kept h
  | startFailed e httpServer errorMessage hserver hstart =>
    cases i with
    | started port => exact .kept h
    | stopped port =>
      obtain ⟨rfl, rfl⟩ | ⟨-, hold⟩ := GoMap.lookup_insert_cases h
      · exact .startFailed httpServer errorMessage hserver hstart
      · exact .kept hold
  | started httpServer hserver hstart =>
    cases i with
    | started port =>
      obtain ⟨rfl, rfl⟩ | ⟨-, hold⟩ := GoMap.lookup_insert_cases h
      · exact .started httpServer hserver hstart
      · exact .kept hold
    | stopped port => exact .kept (GoMap.lookup_of_erase h).2
  | shutdownFailed hop hserver hstop =>
    cases i with
    | started port =>
      obtain ⟨rfl, rfl⟩ | ⟨-, hold⟩ := GoMap.lookup_insert_cases h
      · exact .shutdownFailed hop hserver hstop
      · exact .kept hold
    | stopped port => exact .kept h
  | stopped hserver hstop =>
    cases i with
    | started port => exact .kept (GoMap.lookup_of_erase h).2
    | stopped port =>
      obtain ⟨rfl, rfl⟩ | ⟨-, hold⟩ := GoMap.lookup_insert_cases h
      · exact .stopped hserver hstop
      · exact .kept hold
  | deleted =>
    cases i with
    | started port => exact .kept (GoMap.lookup_of_erase h).2
    | stopped port => exact .kept h
  | dropped hserver =>
    cases i with
    | started port => exact .kept h
    | stopped port => exact .kept (GoMap.lookup_of_erase h).2
  | buildFailed | crashed | unchanged => exact .kept h
  | added haddresses hhost =>
    cases i with
    | started port => exact .kept h
    | stopped port =>
      obtain ⟨rfl, rfl⟩ | ⟨-, hold⟩ := GoMap.lookup_insert_cases h
      · exact .added haddresses hhost
      · exact .kept hold
  | swapped hserver hchanged hhost =>
    rw [entry_updateServer, Function.update_apply] at h
    split at h
    · next hi =>
      rw [hi, ← Option.some.inj h]
      exact .swapped ((m.entry_slotOf _).trans hserver) hchanged hhost
    · exact .kept h

def Op.port : Op → Int
  | .addHttpServer _ _ conf => conf.port
  | .startHttpProxy _ port => port
  | .stopHttpProxy port _ => port
  | .deleteHttpProxy port _ => port
  | .hotSwapHandler _ port _ _ => port

def Slot.port : Slot → Int
  | .stopped port => port
  | .started port => port

@[simp] theorem port_slotOf (m : ToriiProxy) (port : Int) : (m.slotOf port).port = port := by
  rw [slotOf]
  split <;> rfl

theorem entry_step_of_ne {i : Slot} (h : i.port ≠ op.port) :
    (torii.step m op).2.entry i = m.entry i := by
  have htransition := transition m op
  generalize (torii.step m op).1 = answer at htransition
  generalize (torii.step m op).2 = m' at htransition ⊢
  have hinsert : ∀ (servers : GoMap Int MicroHttpServer) server,
      (servers.insert op.port server).lookup i.port = servers.lookup i.port :=
    fun servers server => AList.lookup_insert_ne h
  have herase : ∀ servers : GoMap Int MicroHttpServer,
      (servers.erase op.port).lookup i.port = servers.lookup i.port :=
    fun servers => AList.lookup_erase_ne h
  cases htransition with
  | refused => rfl
  | startFailed | added =>
    cases i with
    | started port => rfl
    | stopped port => exact hinsert _ _
  | started =>
    cases i with
    | started port => exact hinsert _ _
    | stopped port => exact herase _
  | shutdownFailed hop =>
    cases i with
    | started port =>
      obtain rfl | rfl := hop
      · exact hinsert _ _
      · exact hinsert _ _
    | stopped port => rfl
  | stopped =>
    cases i with
    | started port => exact herase _
    | stopped port => exact hinsert _ _
  | deleted =>
    cases i with
    | started port => exact herase _
    | stopped port => rfl
  | dropped hserver =>
    cases i with
    | started port => rfl
    | stopped port => exact herase _
  | buildFailed | crashed | unchanged => rfl
  | swapped =>
    rw [entry_updateServer, Function.update_of_ne]
    rintro rfl
    exact h (port_slotOf _ _)

theorem findServer_step_of_ne {port : Int} (h : port ≠ op.port) :
    (torii.step m op).2.findServer port = m.findServer port := by
  have hstarted := entry_step_of_ne (m := m) (i := .started port) h
  have hstopped := entry_step_of_ne (m := m) (i := .stopped port) h
  rw [entry_started, entry_started] at hstarted
  rw [entry_stopped, entry_stopped] at hstopped
  rw [findServer, findServer, hstarted, hstopped]

theorem globalMwNames_step (m : ToriiProxy) (op : Op) :
    (torii.step m op).2.gDispatcher.globalMwNames = m.gDispatcher.globalMwNames := by
  have htransition := transition m op
  generalize (torii.step m op).1 = answer at htransition
  generalize (torii.step m op).2 = m' at htransition ⊢
  cases htransition with
  | added => exact globalMwNames_registerHandler _ _ _
  | swapped =>
    rw [gDispatcher_updateServer]
    exact globalMwNames_registerHandler _ _ _
  | _ => rfl

end Torii.Proxy
