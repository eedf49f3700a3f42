import Torii.Proxy.Lifecycle

/-!
# The sockets of a server

What `start` of `proxy/http.go` and `proxy/https.go` does with its sockets. Closing a socket frees
it whatever `Close` reports. `buildHttpServer` asks the bind flags only whether an address is
missing, and hands over both addresses.
-/

namespace Torii.Proxy

open Go Strconv Torii.Metrics Torii.Netutil

/-- A listening socket: the network and the address of `net.Listen`. -/
structure Socket where
  network : String
  addr : String
deriving DecidableEq

inductive SocketEvent where
  | opened (socket : Socket)
  | closed (socket : Socket)

def SocketEvent.apply (sockets : List Socket) : SocketEvent → List Socket
  | .opened socket => sockets ++ [socket]
  | .closed socket => sockets.erase socket

def openAfter (events : List SocketEvent) : List Socket := events.foldl SocketEvent.apply []

namespace ServerCore

/-- The sockets that `buildNetListeners` opens. -/
def sockets (env : StartEnv) (m : ServerCore) : List Socket :=
  let addr4 := m.iPV4BindInterface ++ ":" ++ itoa m.bindPort
  let addr6 := "[" ++ m.iPV6BindInterface ++ "]:" ++ itoa m.bindPort
  (if m.iPV4BindInterface ≠ "" ∧ env.listen "tcp4" addr4 then [⟨"tcp4", addr4⟩] else []) ++
    (if m.iPV6BindInterface ≠ "" ∧ env.listen "tcp6" addr6 then [⟨"tcp6", addr6⟩] else [])

/-- One socket for every address that the server has. -/
def allSockets (m : ServerCore) : List Socket :=
  (if m.iPV4BindInterface ≠ "" then
      [⟨"tcp4", m.iPV4BindInterface ++ ":" ++ itoa m.bindPort⟩]
    else []) ++
    if m.iPV6BindInterface ≠ "" then
      [⟨"tcp6", "[" ++ m.iPV6BindInterface ++ "]:" ++ itoa m.bindPort⟩]
    else []

/-- The sockets are the listeners that `start` counts. -/
theorem map_addr_sockets (env : StartEnv) (m : ServerCore) :
    (m.sockets env).map Socket.addr = m.listeners env := by
  simp only [sockets, listeners, buildNetListeners, List.map_append]
  split <;> split <;> rfl

end ServerCore

def closeListeners (sockets : List Socket) : List SocketEvent := sockets.map .closed

def ToriiHttpServer.socketEvents (env : StartEnv) (m : ToriiHttpServer) : List SocketEvent :=
  let sockets := m.toServerCore.sockets env
  sockets.map .opened ++
    if sockets.length = 0 then []
    else if sockets.length ≠ m.numberOfRequiredListeners then closeListeners sockets
    else []

/-- The socket events of `ToriiHttpsServer.start`; `success` is set where it returns nil. -/
def ToriiHttpsServer.socketEvents (env : StartEnv) (hasTLS : Bool) (m : ToriiHttpsServer) :
    List SocketEvent :=
  let sockets := m.toServerCore.sockets env
  sockets.map .opened ++
    match (m.start env hasTLS).1 with
    | .ok () => []
    | .error _ => closeListeners sockets

namespace MicroHttpServer

/-- The sockets that are open after `start`. -/
def openSockets (server : MicroHttpServer) (env : StartEnv) (hasTLS : Bool) : List Socket :=
  match server with
  | .http server => openAfter (server.socketEvents env)
  | .https server => openAfter (server.socketEvents env hasTLS)

end MicroHttpServer

/-! ### All sockets or none -/

variable (sockets : List Socket)

theorem foldl_opened (acc : List Socket) :
    (sockets.map SocketEvent.opened).foldl SocketEvent.apply acc = acc ++ sockets := by
  induction sockets generalizing acc with
  | nil => simp
  | cons socket sockets ih => simp [ih, SocketEvent.apply]

theorem foldl_closed : (sockets.map SocketEvent.closed).foldl SocketEvent.apply sockets = [] := by
  induction sockets with
  | nil => rfl
  | cons socket sockets ih => simpa [SocketEvent.apply] using ih

theorem openAfter_opened : openAfter (sockets.map .opened ++ []) = sockets := by
  rw [openAfter, List.append_nil, foldl_opened, List.nil_append]

theorem openAfter_closed : openAfter (sockets.map .opened ++ closeListeners sockets) = [] := by
  rw [openAfter, List.foldl_append, foldl_opened, List.nil_append, closeListeners, foldl_closed]

theorem ToriiHttpServer.openAfter_socketEvents (env : StartEnv) (m : ToriiHttpServer) :
    openAfter (m.socketEvents env) =
      if m.checkListeners env "HTTP" = none then m.toServerCore.sockets env else [] := by
  have hlen : (m.toServerCore.sockets env).length = (m.listeners env).length := by
    rw [← ServerCore.map_addr_sockets, List.length_map]
  simp only [socketEvents, ServerCore.checkListeners_eq_none, hlen]
  by_cases hzero : (m.listeners env).length = 0
  · have hnil : m.toServerCore.sockets env = [] := by
      rw [← List.length_eq_zero_iff, hlen, hzero]
    rw [if_pos hzero, hnil, ite_self]
    rfl
  · rw [if_neg hzero]
    by_cases hcount : (m.listeners env).length = m.numberOfRequiredListeners
    · rw [if_neg (not_not.mpr hcount), if_pos ⟨hzero, hcount⟩, openAfter_opened]
    · rw [if_pos hcount, if_neg fun h => hcount h.2, openAfter_closed]

namespace MicroHttpServer

variable (server : MicroHttpServer) (env : StartEnv) (hasTLS : Bool)

theorem openSockets_eq :
    server.openSockets env hasTLS =
      match (server.start env hasTLS).1 with
      | .ok () => server.core.sockets env
      | .error _ => [] := by
  cases server with
  | http server =>
    rw [openSockets, ToriiHttpServer.openAfter_socketEvents, start, ToriiHttpServer.start]
    cases server.checkListeners env "HTTP" with
    | none | some => rfl
  | https server =>
    rw [openSockets, ToriiHttpsServer.socketEvents, start]
    cases (server.start env hasTLS).1 with
    | ok _ => exact openAfter_opened _
    | error e => exact openAfter_closed _

/-- A server that starts listens on every address it has. -/
theorem sockets_of_start (h : (server.start env hasTLS).1 = .ok ()) :
    server.core.sockets env = server.core.allSockets := by
  have hlisten : server.canListen env = true := by
    obtain ⟨hcan, -⟩ | ⟨-, e, httpServer, message, hstart⟩ := server.start_cases env hasTLS
    · exact (Bool.and_eq_true_iff.mp hcan).1
    · rw [hstart] at h
      cases h
  simp only [canListen, Bool.and_eq_true, Bool.or_eq_true, bne_iff_ne, beq_iff_eq] at hlisten
  obtain ⟨⟨-, h4⟩, h6⟩ := hlisten
  simp only [ServerCore.sockets, ServerCore.allSockets]
  congr 1
  · by_cases hempty : server.core.iPV4BindInterface = ""
    · simp [hempty]
    · simp [hempty, h4.resolve_left hempty]
  · by_cases hempty : server.core.iPV6BindInterface = ""
    · simp [hempty]
    · simp [hempty, h6.resolve_left hempty]

end MicroHttpServer

/-! ### The sockets and the bind flags -/

/-- There is one socket of each family that the flags select, and none of the other. -/
def Selected (bind : UInt8) (sockets : List Socket) : Prop :=
  sockets.countP (·.network = "tcp4") = (if bind &&& ipv4Flag ≠ 0 then 1 else 0) ∧
    sockets.countP (·.network = "tcp6") = if bind &&& ipv6Flag ≠ 0 then 1 else 0

theorem selected_allSockets_iff (bind : UInt8) (m : ServerCore) :
    Selected bind m.allSockets ↔
      (m.iPV4BindInterface ≠ "" ↔ bind &&& ipv4Flag ≠ 0) ∧
        (m.iPV6BindInterface ≠ "" ↔ bind &&& ipv6Flag ≠ 0) := by
  have hcount : ∀ p q : Prop, [Decidable p] → [Decidable q] →
      ((if p then 1 else 0) = (if q then 1 else 0) ↔ (p ↔ q)) := by
    intro p q _ _
    by_cases hp : p <;> by_cases hq : q <;> simp [hp, hq]
  have h4 : m.allSockets.countP (·.network = "tcp4") =
      if m.iPV4BindInterface ≠ "" then 1 else 0 := by
    rw [ServerCore.allSockets, List.countP_append]
    split <;> split <;> simp
  have h6 : m.allSockets.countP (·.network = "tcp6") =
      if m.iPV6BindInterface ≠ "" then 1 else 0 := by
    rw [ServerCore.allSockets, List.countP_append]
    split <;> split <;> simp
  rw [Selected, h4, h6, hcount, hcount]

/-- `start` returns nil with the sockets that the flags select, or an error with none open. -/
def AllOrNothing (bind : UInt8) (server : MicroHttpServer) (env : StartEnv) (hasTLS : Bool) :
    Prop :=
  match (server.start env hasTLS).1 with
  | .ok () => Selected bind (server.openSockets env hasTLS)
  | .error _ => server.openSockets env hasTLS = []

theorem allOrNothing_iff (bind : UInt8) (server : MicroHttpServer) (env : StartEnv)
    (hasTLS : Bool) :
    AllOrNothing bind server env hasTLS ↔
      ((server.start env hasTLS).1 = .ok () → Selected bind server.core.allSockets) := by
  rw [AllOrNothing, server.openSockets_eq env hasTLS]
  cases hstart : (server.start env hasTLS).1 with
  | ok _ => simp [server.sockets_of_start env hasTLS hstart]
  | error e => simp

/-- Everything that a server can ask for is there. -/
def allGranted : StartEnv where
  listen _ _ := true
  fileExists _ := true

theorem MicroHttpServer.start_allGranted {server : MicroHttpServer}
    (h : server.core.iPV4BindInterface ≠ "" ∨ server.core.iPV6BindInterface ≠ "") :
    (server.start allGranted true).1 = .ok () := by
  have hlisten : server.canListen allGranted = true := by
    simpa [canListen, allGranted] using h
  have hcertificates : server.hasCertificates allGranted true = true := by
    cases server with
    | http server => rfl
    | https server => simp [hasCertificates, allGranted]
  obtain ⟨-, httpServer, hstart⟩ | ⟨hcannot, -⟩ := server.start_cases allGranted true
  · rw [hstart]
  · rw [canStart, hlisten, hcertificates] at hcannot
    cases hcannot

section

variable {env : Env} {net : Interfaces} {conf : Listener} {s s' : BuildState}
  {server : MicroHttpServer} {ipv4 ipv6 : String}

theorem addresses_of_buildHttpServer (haddrs : listenerAddresses net conf = .ok (ipv4, ipv6))
    (h : buildHttpServer env net conf s = (.ok server, s')) :
    server.core.iPV4BindInterface = ipv4 ∧ server.core.iPV6BindInterface = ipv6 := by
  have haddrs' : listenerAddresses net (applyDefaultTimeouts conf) = .ok (ipv4, ipv6) := haddrs
  rw [buildHttpServer_of_addresses haddrs'] at h
  split at h
  · next chain built _ heq =>
    obtain ⟨hserver, -⟩ := Prod.mk.inj h
    obtain rfl := Except.ok.inj hserver
    rw [newServer]
    split <;> exact ⟨rfl, rfl⟩
  · cases h

theorem ne_empty_of_listenerAddresses (haddrs : listenerAddresses net conf = .ok (ipv4, ipv6)) :
    (conf.bind &&& ipv4Flag ≠ 0 → ipv4 ≠ "") ∧ (conf.bind &&& ipv6Flag ≠ 0 → ipv6 ≠ "") := by
  simp only [listenerAddresses] at haddrs
  grind

theorem bind_selects {bind : UInt8} (h : 1 ≤ bind ∧ bind ≤ 3) :
    bind &&& ipv4Flag ≠ 0 ∨ bind &&& ipv6Flag ≠ 0 := by
  obtain rfl | rfl | rfl : bind = 1 ∨ bind = 2 ∨ bind = 3 := by
    simp only [UInt8.le_iff_toNat_le, ← UInt8.toNat_inj] at h ⊢
    simp at h ⊢
    omega
  all_goals decide

/-- A listener with flags starts with just the sockets that they select, or not at all and with
none, exactly when the family that they leave out has no address. -/
theorem listens_as_configured_iff (hbind : 1 ≤ conf.bind ∧ conf.bind ≤ 3)
    (haddrs : listenerAddresses net conf = .ok (ipv4, ipv6))
    (hbuild : buildHttpServer env net conf s = (.ok server, s')) :
    (∀ startEnv hasTLS, AllOrNothing conf.bind server startEnv hasTLS) ↔
      (conf.bind &&& ipv4Flag = 0 → ipv4 = "") ∧ (conf.bind &&& ipv6Flag = 0 → ipv6 = "") := by
  obtain ⟨h4, h6⟩ := addresses_of_buildHttpServer haddrs hbuild
  obtain ⟨hne4, hne6⟩ := ne_empty_of_listenerAddresses haddrs
  have hselected : Selected conf.bind server.core.allSockets ↔
      (conf.bind &&& ipv4Flag = 0 → ipv4 = "") ∧ (conf.bind &&& ipv6Flag = 0 → ipv6 = "") := by
    rw [selected_allSockets_iff, h4, h6]
    constructor
    · rintro ⟨hsel4, hsel6⟩
      exact ⟨fun hbit => not_not.mp fun hne => hsel4.mp hne hbit,
        fun hbit => not_not.mp fun hne => hsel6.mp hne hbit⟩
    · rintro ⟨hno4, hno6⟩
      exact ⟨⟨fun hne hbit => hne (hno4 hbit), hne4⟩, ⟨fun hne hbit => hne (hno6 hbit), hne6⟩⟩
  rw [← hselected]
  constructor
  · intro h
    refine (allOrNothing_iff conf.bind server allGranted true).mp (h allGranted true) ?_
    apply MicroHttpServer.start_allGranted
    rw [h4, h6]
    exact (bind_selects hbind).imp hne4 hne6
  · intro h startEnv hasTLS
    exact (allOrNothing_iff conf.bind server startEnv hasTLS).mpr fun _ => h

end

def builtServer (conf : Listener) : Except (Fault ServerError) MicroHttpServer × BuildState :=
  buildHttpServer smallEnv smallNet conf ⟨{}, .new, {}⟩

def bothFamilies : Listener := { smallListener 8080 with bind := 3 }

theorem listens_as_configured_bothFamilies :
    ∃ server s', builtServer bothFamilies = (.ok server, s') ∧
      ∀ startEnv hasTLS, AllOrNothing bothFamilies.bind server startEnv hasTLS := by
  have hbuilt : (builtServer bothFamilies).1.isOk = true := by decide +kernel
  cases hbuild : builtServer bothFamilies with
  | mk result s' =>
    cases result with
    | error e =>
      rw [hbuild] at hbuilt
      cases hbuilt
    | ok server =>
      have haddrs : listenerAddresses smallNet bothFamilies = .ok ("0.0.0.0", "::") := by
        decide
      exact ⟨server, s', rfl,
        (listens_as_configured_iff (by decide) haddrs hbuild).mpr (by decide)⟩

/-- A listener for IPv4 alone is open on both families. -/
theorem listens_on_both_families :
    (smallListener 8080).bind = ipv4Flag ∧
      (builtServer (smallListener 8080)).1.map (·.openSockets smallStart false) =
        .ok [⟨"tcp4", "0.0.0.0:8080"⟩, ⟨"tcp6", "[::]:8080"⟩] := by
  decide +kernel

end Torii.Proxy
