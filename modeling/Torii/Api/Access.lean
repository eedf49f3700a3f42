import Torii.Api.Setup
import Torii.ApiKeys.Service
import Torii.Session.Registry

/-!
# Access to the API

`api/guard.go` and `api/handler_auth.go`, for any routes that `buildMux` may wrap. Requests
interleave: each one loads its session, is checked and answered, and saves its session. In between
sessions expire, and anything may happen to the users, the configuration and the API keys. The
session manager is any that does what `Session.Manager` assumes, and each access to its store may
fail.
-/

namespace Torii.Api

open Go ApiKeys Session

structure LoginRequest where
  username : String
  password : String

/-- `handleLogin`, with the body as `DecodeJSONBody` gives it, `handleLogout`, or a handler that
does not touch sessions, with its answer. -/
inductive Handler where
  | login (body : Except String LoginRequest)
  | logout
  | other (answer : Response)

structure ApplicationRoute where
  isAllowedBeforeFts : Bool := false
  isAllowedAfterFts : Bool := true
  isSecure : Bool := true
  scopes : List Scope := []
  handler : Handler

structure Request where
  cookie : Option Token
  authorization : String := ""
  route : ApplicationRoute

/-- A request, the outcome of reading the configuration and the user, the iteration orders and
failures of the checks of its key, and whether the step fails at the session store. -/
structure Input where
  request : Request
  gate : Env := ⟨.error "", none, []⟩
  userFault : Bool := false
  check : Scope → List String × Service.CheckFaults := fun _ => ([], ⟨false, false⟩)
  sessionFault : Bool := false

variable {M : Manager String}

/-- `encoderMatches` is `Matches` of the password encoder. -/
structure SystemService (M : Manager String) where
  encoderMatches : String → String → Bool
  keyEnv : ApiKeys.Env
  sessionConf : Config

structure SystemState (M : Manager String) where
  stores : Stores
  apiKeys : Service
  sessions : M.Store := M.empty
  issued : Nat := 0

/-! ## The guards; no response means that the next handler is called -/

def SystemState.isFtsDone (s : SystemState M) (gate : Env) : Bool :=
  (isFirstTimeSetupCompleted.run Stores.exec s.stores fun _ => gate).1

def checkIfRouteIsAllowedIfFtsIsNotDone (route : ApplicationRoute) (isFtsDone : Bool) :
    Option Response :=
  if route.isAllowedAfterFts && route.isAllowedBeforeFts then none
  else if route.isAllowedAfterFts && isFtsDone then none
  else if route.isAllowedBeforeFts && !isFtsDone then none
  else some (httpError "Forbidden" 403)

def isAuthenticatedRequest (session : M.Data) : Option Response :=
  if M.hasValidSession session then none else some (httpError "Unauthorized" 401)

/-- The loop over the required scopes. -/
def checkScopes (env : ApiKeys.Env) (rawKey : String) (input : Input) :
    List Scope → Service → Option Response × Service
  | [], s => (some (httpError "Forbidden" 403), s)
  | scope :: scopes, s =>
    match s.isKeyValidForScope env rawKey scope (input.check scope).1 (input.check scope).2 with
    | ((_, some _), s) => (some (httpError "Internal Server Error" 500), s)
    | ((true, none), s) => (none, s)
    | ((false, none), s) => checkScopes env rawKey input scopes s

def isAuthenticatedBySessionOrApiKey (env : ApiKeys.Env) (session : M.Data)
    (authorization : String) (scopes : List Scope) (input : Input) (s : Service) :
    Option Response × Service :=
  let unauthorized := some (httpError "Unauthorized" 401)
  if M.hasValidSession session then (none, s)
  else if authorization = "" then (unauthorized, s)
  else if !"Bearer ".toList.isPrefixOf authorization.toList then (unauthorized, s)
  else
    let rawKey := Strings.trimPrefix authorization "Bearer "
    if rawKey = "" then (unauthorized, s) else checkScopes env rawKey input scopes s

namespace SystemService

variable (svc : SystemService M)

/-- The guards of `buildMux` in front of a handler. -/
def guard (s : SystemState M) (r : Request) (session : M.Data) (input : Input) :
    Option Response × Service :=
  match checkIfRouteIsAllowedIfFtsIsNotDone r.route (s.isFtsDone input.gate) with
  | some refused => (some refused, s.apiKeys)
  | none =>
    if r.route.isSecure then
      if 0 < r.route.scopes.length then
        isAuthenticatedBySessionOrApiKey svc.keyEnv session r.authorization r.route.scopes input
          s.apiKeys
      else (isAuthenticatedRequest session, s.apiKeys)
    else (none, s.apiKeys)

/-! ## The handlers -/

def passwordMatchesForUser (s : SystemState M) (fault : Bool) (password username : String) : Bool :=
  if fault then false
  else
    match s.stores.users.getUserByUsername username with
    | .ok user => svc.encoderMatches password user.password
    | .error _ => false

/-- The answer, the session to save and the state. -/
def handle (s : SystemState M) (session : M.Data) (input : Input) :
    Handler → Response × M.Data × SystemState M
  | .login (.error _) => (httpError "Unauthorized" 401, session, s)
  | .login (.ok l) =>
    if svc.passwordMatchesForUser s input.userFault l.password l.username then
      match M.newSession s.sessions session (.issued s.issued) l.username input.sessionFault with
      | (false, session, _) => (httpError "Unauthorized" 401, session, s)
      | (true, session, sessions) =>
        (⟨200, ""⟩, session, { s with sessions := sessions, issued := s.issued + 1 })
    else (httpError "Unauthorized" 401, session, s)
  | .logout =>
    let (session, sessions) := M.logoutSession s.sessions session input.sessionFault
    (⟨200, ""⟩, session, { s with sessions := sessions })
  | .other answer => (answer, session, s)

def serve (s : SystemState M) (r : Request) (session : M.Data) (input : Input) :
    Response × M.Data × SystemState M :=
  match svc.guard s r session input with
  | (some refused, apiKeys) => (refused, session, { s with apiKeys := apiKeys })
  | (none, apiKeys) => svc.handle { s with apiKeys := apiKeys } session input r.route.handler

/-- Where a request is in `LoadAndSave`. -/
inductive Stage (M : Manager String) where
  | arriving
  | loaded (r : Request) (session : M.Data)
  | answered (session : M.Data)
  | finished

def Stage.session : Stage M → Option M.Data
  | .loaded _ session | .answered session => some session
  | .arriving | .finished => none

/-- What happens besides: any change of the users, of the configuration and of the keys, and the
end of a session that has expired. -/
inductive Event where
  | change (stores : Stores) (apiKeys : Service)
  | expire (token : Token)

/-- When the store fails for `LoadAndSave` itself, it answers instead of the handler. -/
def threads : Threads (SystemState M) (Stage M) Event Input (Option Response) where
  event
    | s, .change stores apiKeys => { s with stores := stores, apiKeys := apiKeys }
    | s, .expire token => { s with sessions := M.expire s.sessions token }
  step
    | s, .arriving, input =>
      if input.sessionFault then (some (httpError "Internal Server Error" 500), s, .finished)
      else (none, s, .loaded input.request (M.load svc.sessionConf s.sessions input.request.cookie))
    | s, .loaded r session, input =>
      let (response, session, s) := svc.serve s r session input
      (some response, s, .answered session)
    | s, .answered session, input =>
      if input.sessionFault then (some (httpError "Internal Server Error" 500), s, .finished)
      else (none, { s with sessions := (M.save s.sessions session).2 }, .finished)
    | s, .finished, _ => (none, s, .finished)

abbrev Pool (M : Manager String) := Threads.Pool (SystemState M) (Stage M)

abbrev Action := Threads.Action Event Input

/-- The state after actions from one without sessions and requests. -/
def reach (stores : Stores) (apiKeys : Service) (ops : List Action) : Pool M :=
  svc.threads.machine.run ⟨{ stores, apiKeys }, fun _ => .arriving⟩ ops

/-! ## Where sessions come from -/

/-- A login of a user whose stored password matches. -/
def LogsIn (s : SystemState M) (r : Request) (u : String) : Prop :=
  ∃ l user, r.route.handler = .login (.ok l) ∧ l.username = u ∧
    s.stores.users.getUserByUsername u = .ok user ∧
    svc.encoderMatches l.password user.password = true

variable {svc}

section

variable {s : SystemState M} {session : M.Data} {input : Input} {r : Request}

theorem user_of_passwordMatchesForUser {fault : Bool} {password username : String}
    (h : svc.passwordMatchesForUser s fault password username = true) :
    ∃ user, s.stores.users.getUserByUsername username = .ok user ∧
      svc.encoderMatches password user.password = true := by
  rw [passwordMatchesForUser] at h
  split at h
  · cases h
  · split at h
    · next user huser => exact ⟨user, huser, h⟩
    · cases h

/-- What a request may do to the sessions: forget one, and begin one. -/
structure Sessions (svc : SystemService M) (s : SystemState M) (r : Request)
    (session : M.Data) (after : M.Data × SystemState M) : Prop where
  stored : ∀ t u, M.lookup after.2.sessions t = some u → M.lookup s.sessions t = some u
  issued : s.issued ≤ after.2.issued
  held : (∀ P, (M.view session).Carries P → (M.view after.1).Carries P) ∨
    ∃ u, M.view after.1 = ⟨some (.issued s.issued), some u, .modified⟩ ∧ svc.LogsIn s r u ∧
      s.issued < after.2.issued

theorem Sessions.same {svc : SystemService M} {after : SystemState M}
    (h : after.sessions = s.sessions) (hissued : after.issued = s.issued) :
    Sessions svc s r session (session, after) :=
  ⟨fun _ _ ht => h ▸ ht, hissued.ge, .inl fun _ => id⟩

theorem serve_sessions (svc : SystemService M) (s : SystemState M) (r : Request)
    (session : M.Data) (input : Input) :
    Sessions svc s r session (svc.serve s r session input).2 := by
  rw [serve]
  split
  · exact .same rfl rfl
  · next apiKeys hguard =>
    cases hhandler : r.route.handler with
    | other answer => exact .same rfl rfl
    | logout =>
      exact ⟨fun t u => Manager.lookup_of_logoutSession, Nat.le_refl _,
        .inl fun P h => Manager.carries_logoutSession h _⟩
    | login body =>
      cases body with
      | error e => exact .same rfl rfl
      | ok l =>
        simp only [handle]
        split
        · next hmatch =>
          obtain ⟨user, huser, hmatches⟩ := user_of_passwordMatchesForUser hmatch
          cases input.sessionFault with
          | true => exact .same rfl rfl
          | false =>
            exact ⟨fun t u => Manager.lookup_of_newSession l.username false, Nat.le_succ _,
              .inr ⟨l.username, Manager.view_newSession, ⟨l, user, hhandler, rfl, huser, hmatches⟩,
                Nat.lt_succ_self _⟩⟩
        · exact .same rfl rfl

/-- The sessions that are stored or held by a request have a property. -/
def Holding (P : Token → String → Prop) (s : Pool M) : Prop :=
  (∀ t u, M.lookup s.shared.sessions t = some (some u) → P t u) ∧
    ∀ i, ∀ x ∈ (s.locals i).session, (M.view x).Carries P

theorem forall_update {P : M.Data → Prop} {locals : Nat → Stage M} {i : Nat} {stage : Stage M}
    (h : ∀ k, ∀ x ∈ (locals k).session, P x) (hi : ∀ x ∈ stage.session, P x) :
    ∀ k, ∀ x ∈ (Function.update locals i stage k).session, P x := by
  intro k
  by_cases hk : k = i
  · subst hk
    simpa using hi
  · simpa [hk] using h k

/-- A property of sessions may grow; it has to hold of a session that begins. -/
theorem Holding.step {P P' : Token → String → Prop} {s : Pool M} (h : Holding P s) (op : Action)
    (hgrow : ∀ t u, P t u → P' t u)
    (hlogin : ∀ i input r session u, op = .step i input → s.locals i = .loaded r session →
      svc.LogsIn s.shared r u →
      s.shared.issued < (svc.threads.machine.step s op).2.shared.issued →
      P' (.issued s.shared.issued) u) :
    Holding P' (svc.threads.machine.step s op).2 := by
  have hstored : ∀ t u, M.lookup s.shared.sessions t = some (some u) → P' t u :=
    fun t u ht => hgrow t u (h.1 t u ht)
  have hheld : ∀ k, ∀ x ∈ (s.locals k).session, (M.view x).Carries P' :=
    fun k x hx => (h.2 k x hx).mono hgrow
  cases op with
  | event e =>
    refine ⟨fun t u ht => hstored t u ?_, hheld⟩
    cases e with
    | change => exact ht
    | expire token =>
      change M.lookup (M.expire s.shared.sessions token) t = some (some u) at ht
      rw [M.lookup_expire, Option.ite_none_left_eq_some] at ht
      exact ht.2
  | step i input =>
    cases hstage : s.locals i with
    | arriving =>
      simp only [Threads.machine, hstage, threads]
      split
      · exact ⟨hstored, forall_update hheld (by rintro x ⟨⟩)⟩
      · refine ⟨hstored, forall_update hheld ?_⟩
        rintro x ⟨⟩
        exact Manager.carries_load hstored _ _
    | loaded r session =>
      have hserve := serve_sessions svc s.shared r session input
      simp only [Threads.machine, hstage] at hlogin ⊢
      refine ⟨fun t u ht => hstored t u (hserve.stored t _ ht), forall_update hheld fun x hx => ?_⟩
      obtain rfl : (svc.serve s.shared r session input).2.1 = x := Option.some.inj hx
      obtain hold | ⟨u, hview, hlogs, hissued⟩ := hserve.held
      · exact hold P' (hheld i session (by rw [hstage]; rfl))
      · rw [hview]
        intro v hv
        obtain rfl := Option.some.inj hv
        exact hlogin i input r session u rfl hstage hlogs hissued
    | answered session =>
      simp only [Threads.machine, hstage, threads]
      split
      · exact ⟨hstored, forall_update hheld (by rintro x ⟨⟩)⟩
      · refine ⟨fun t u ht => ?_, forall_update hheld (by rintro x ⟨⟩)⟩
        obtain hold | hnew := Manager.lookup_of_save (hheld i session (by rw [hstage]; rfl)) ht
        · exact hstored t u hold
        · exact hnew
    | finished =>
      simp only [Threads.machine, hstage, threads]
      exact ⟨hstored, forall_update hheld (by rintro x ⟨⟩)⟩

/-! ## Access -/

/-- The checks of a key for some scopes, as operations of the key service. -/
def keyChecks (rawKey : String) (input : Input) (scopes : List Scope) : List ApiKeys.Op :=
  scopes.map fun scope => .check rawKey scope (input.check scope).1 (input.check scope).2

/-- The key service says that the key is valid for one of the scopes, after it was asked for those
in front of it. -/
def ValidKey (env : ApiKeys.Env) (s : Service) (rawKey : String) (input : Input)
    (scopes : List Scope) : Prop :=
  ∃ before scope after, scopes = before ++ scope :: after ∧
    ((ApiKeys.machine env).step ((ApiKeys.machine env).run s (keyChecks rawKey input before))
      (.check rawKey scope (input.check scope).1 (input.check scope).2)).1 = .verdict true none

variable {env : ApiKeys.Env} {scopes : List Scope}

theorem validKey_of_checkScopes {s : Service} {rawKey : String}
    (h : (checkScopes env rawKey input scopes s).1 = none) :
    ValidKey env s rawKey input scopes := by
  induction scopes generalizing s with
  | nil => cases h
  | cons scope scopes ih =>
    rw [checkScopes] at h
    split at h
    · cases h
    · next s' hcheck => exact ⟨[], scope, scopes, rfl, by simp [keyChecks, ApiKeys.machine, hcheck]⟩
    · next s' hcheck =>
      obtain ⟨before, scope', after, rfl, hvalid⟩ := ih h
      refine ⟨scope :: before, scope', after, rfl, ?_⟩
      simpa [keyChecks, ApiKeys.machine, hcheck] using hvalid

theorem sessionOrApiKey_cases {s : Service} {authorization : String}
    (h : (isAuthenticatedBySessionOrApiKey env session authorization scopes input s).1 = none) :
    M.hasValidSession session = true ∨
      ∃ rawKey, authorization = "Bearer " ++ rawKey ∧ ValidKey env s rawKey input scopes := by
  revert h
  fun_cases isAuthenticatedBySessionOrApiKey env session authorization scopes input s
  case case1 hsession => exact fun _ => .inl hsession
  case case5 hbearer rawKey hempty =>
    refine fun h => .inr ⟨rawKey, ?_, validKey_of_checkScopes h⟩
    rw [Bool.not_eq_true, Bool.not_eq_false'] at hbearer
    obtain ⟨rest, hrest⟩ := List.isPrefixOf_iff_prefix.mp hbearer
    rw [← String.toList_inj, String.toList_append, ← hrest]
    simp [rawKey, Strings.trimPrefix, ← hrest]
  all_goals exact fun h => nomatch h

theorem guard_cases (h : (svc.guard s r session input).1 = none) :
    (r.route.isAllowedBeforeFts = true ∨ s.isFtsDone input.gate = true) ∧
      (r.route.isSecure = true → M.hasValidSession session = true ∨ ∃ rawKey,
        r.authorization = "Bearer " ++ rawKey ∧
          ValidKey svc.keyEnv s.apiKeys rawKey input r.route.scopes) := by
  rw [guard] at h
  split at h
  · cases h
  · next hallowed =>
    refine ⟨?_, fun hsecure => ?_⟩
    · rw [checkIfRouteIsAllowedIfFtsIsNotDone] at hallowed
      grind
    · rw [if_pos hsecure] at h
      split at h
      · exact sessionOrApiKey_cases h
      · rw [isAuthenticatedRequest] at h
        split at h
        · next hsession => exact .inl hsession
        · cases h

end

section

variable (svc) (stores : Stores) (apiKeys : Service) (ops : List Action)

/-- The token was issued by a login of the user. -/
def Began (t : Token) (u : String) : Prop :=
  ∃ before i input after r session, ops = before ++ .step i input :: after ∧
    (svc.reach stores apiKeys before).locals i = .loaded r session ∧
    svc.LogsIn (svc.reach stores apiKeys before).shared r u ∧
    t = .issued (svc.reach stores apiKeys before).shared.issued

theorem began_reach :
    Holding (svc.Began stores apiKeys ops) (svc.reach stores apiKeys ops) := by
  induction ops using List.reverseRecOn with
  | nil => exact ⟨fun t u h => by simp [reach, M.lookup_empty] at h, by rintro i x ⟨⟩⟩
  | append_singleton ops op ih =>
    rw [reach, Machine.run_concat]
    apply ih.step op
    · rintro t u ⟨before, i, input, after, r, session, rfl, hbegan⟩
      exact ⟨before, i, input, after ++ [op], r, session, by simp, hbegan⟩
    · rintro i input r session u rfl hstage hlogs -
      exact ⟨ops, i, input, [], r, session, rfl, hstage, hlogs, rfl⟩

/-- In every run, the handler of a secure route is only reached by a request with a session that
began with a login, or with an API key that is valid for one of the scopes of the route, and not
before the setup unless the route is open then. -/
theorem access_traced (i : Nat) (input : Input) (r : Request) (session : M.Data)
    (hstage : (svc.reach stores apiKeys ops).locals i = .loaded r session)
    (hsecure : r.route.isSecure = true)
    (hpass : (svc.guard (svc.reach stores apiKeys ops).shared r session input).1 = none) :
    (r.route.isAllowedBeforeFts = true ∨
        (svc.reach stores apiKeys ops).shared.isFtsDone input.gate = true) ∧
      ((∃ t u, (M.view session).token = some t ∧ (M.view session).value = some u ∧
          svc.Began stores apiKeys ops t u) ∨
        ∃ rawKey, r.authorization = "Bearer " ++ rawKey ∧
          ValidKey svc.keyEnv (svc.reach stores apiKeys ops).shared.apiKeys rawKey input
            r.route.scopes) := by
  obtain ⟨hdone, haccess⟩ := guard_cases hpass
  refine ⟨hdone, ?_⟩
  obtain hsession | hkey := haccess hsecure
  · obtain ⟨u, hu⟩ := Option.isSome_iff_exists.mp hsession
    have hbegan := (began_reach svc stores apiKeys ops).2 i session (by rw [hstage]; rfl)
    obtain ⟨t, ht, hbegan⟩ := hbegan.of_value hu
    exact .inl ⟨t, u, ht, hu, hbegan⟩
  · exact .inr hkey

end

/-- Passwords are stored as they are by `plainService`, and sessions have no idle timeout. -/
def plainSystem : SystemService (mapManager String) where
  encoderMatches password hashed := hashed = plainService.hash password []
  keyEnv := sampleEnv
  sessionConf := ⟨0, "", true, true, "lax"⟩

def adminStores : Stores :=
  ⟨⟨[⟨1, "admin", "hash of Passw0rd!", true, true⟩], by decide⟩, ⟨true⟩⟩

def loginInput : Input where
  request := ⟨none, "", { isSecure := false, handler := .login (.ok ⟨"admin", "Passw0rd!"⟩) }⟩

def logoutInput : Input := { request := ⟨some (.issued 0), "", { handler := .logout }⟩ }

/-- A login, and a request to log out that has loaded its session. -/
def loginRun : List Action := .replicate 3 (.step 0 loginInput) ++ [.step 1 logoutInput]

theorem loginRun_stage : (plainSystem.reach adminStores (.new 0) loginRun).locals 1 =
    .loaded logoutInput.request ⟨some (.issued 0), some "admin", .unmodified⟩ := rfl

theorem access_traced_loginRun :
    plainSystem.Began adminStores (.new 0) loginRun (.issued 0) "admin" := by
  obtain ⟨t, u, ht, hu, hbegan⟩ | ⟨rawKey, -, before, scope, after, hscopes, -⟩ := (access_traced
    plainSystem adminStores (.new 0) loginRun 1 logoutInput _ _ loginRun_stage rfl
    (by decide +kernel)).2
  · cases ht
    cases hu
    exact hbegan
  · simp [logoutInput] at hscopes

/-! ## Logging out -/

section

variable (svc) (stores : Stores) (apiKeys : Service) (ops : List Action) (i : Nat) (input : Input)
  (r : Request)

theorem issued_step (s : Pool M) (op : Action) :
    s.shared.issued ≤ (svc.threads.machine.step s op).2.shared.issued := by
  cases op with
  | event e => cases e <;> exact Nat.le_refl _
  | step i input =>
    cases hstage : s.locals i with
    | loaded r session =>
      simp only [Threads.machine, hstage]
      exact (serve_sessions svc s.shared r session input).issued
    | arriving | answered =>
      simp only [Threads.machine, hstage, threads]
      split <;> exact Nat.le_refl _
    | finished => simp [Threads.machine, hstage, threads]

def Old (s : Pool M) (t : Token) : Prop := ∃ n < s.shared.issued, t = .issued n

variable {svc} in
theorem Old.step {s : Pool M} {t : Token} (h : Old s t) (op : Action) :
    Old (svc.threads.machine.step s op).2 t := by
  obtain ⟨n, hn, rfl⟩ := h
  exact ⟨n, Nat.lt_of_lt_of_le hn (issued_step svc s op), rfl⟩

theorem old_reach : Holding (fun t _ => Old (svc.reach stores apiKeys ops) t)
    (svc.reach stores apiKeys ops) := by
  apply Machine.run_invariant _ (fun s => Holding (fun t _ => Old s t) s)
  · intro s op h
    apply h.step op (fun t u hold => hold.step op)
    rintro i input r session u rfl - - hissued
    exact ⟨_, hissued, rfl⟩
  · exact ⟨fun t u h => by simp [M.lookup_empty] at h, by rintro i x ⟨⟩⟩

/-- The session with the token is over: nobody has it, and its number is not issued again. -/
def Gone (t : Token) (s : Pool M) : Prop := Old s t ∧ Holding (fun t' _ => t' ≠ t) s

variable {svc} in
theorem Gone.step {t : Token} {s : Pool M} (h : Gone t s) (op : Action) :
    Gone t (svc.threads.machine.step s op).2 := by
  refine ⟨h.1.step op, h.2.step op (fun _ _ hne => hne) ?_⟩
  rintro - - - - - - - - - rfl
  obtain ⟨n, hn, hsame⟩ := h.1
  rw [Token.issued.injEq] at hsame
  omega

variable {i input r} in
theorem gone_of_logout {s : Pool M} {session : M.Data} {t : Token}
    (hstage : s.locals i = .loaded r session) (hlogout : r.route.handler = .logout)
    (hpass : (svc.guard s.shared r session input).1 = none) (hstore : input.sessionFault = false)
    (htoken : (M.view session).token = some t)
    (hothers : ∀ j, j ≠ i → ∀ x ∈ (s.locals j).session, (M.view x).Carries fun t' _ => t' ≠ t)
    (hold : Old s t) : Gone t (svc.threads.machine.step s (.step i input)).2 := by
  have hserve : svc.serve s.shared r session input = (⟨200, ""⟩,
      (M.destroy s.shared.sessions (M.remove session)).1, { s.shared with
        sessions := (M.destroy s.shared.sessions (M.remove session)).2
        apiKeys := (svc.guard s.shared r session input).2 }) := by
    rw [serve, show svc.guard s.shared r session input = (none, _) from Prod.ext hpass rfl]
    simp [hlogout, handle, Manager.logoutSession, hstore]
  refine ⟨hold.step _, ?_⟩
  simp only [Threads.machine, hstage, threads, hserve]
  constructor
  · rintro t' u ht' rfl
    rw [M.lookup_destroy, M.view_remove, htoken, if_pos rfl] at ht'
    cases ht'
  · intro k x hx
    obtain rfl | hk := eq_or_ne k i
    · obtain rfl : _ = x := by simpa [Stage.session] using hx
      rw [M.view_destroy]
      exact ⟨rfl, Status.noConfusion⟩
    · exact hothers k hk x (by simpa [hk] using hx)

/-- After a logout that has removed the session from the store, no request that arrives gets the
user by its token, in any run, if no other request held the session when it logged out. -/
theorem logout_final (session : M.Data) (t : Token) (u : String)
    (hstage : (svc.reach stores apiKeys ops).locals i = .loaded r session)
    (htoken : (M.view session).token = some t) (hvalue : (M.view session).value = some u)
    (hlogout : r.route.handler = .logout)
    (hpass : (svc.guard (svc.reach stores apiKeys ops).shared r session input).1 = none)
    (hstore : input.sessionFault = false)
    (hothers : ∀ j, j ≠ i → ∀ x ∈ ((svc.reach stores apiKeys ops).locals j).session,
      (M.view x).token ≠ some t) (later : List Action) :
    (M.view (M.load svc.sessionConf (svc.reach stores apiKeys
      (ops ++ .step i input :: later)).shared.sessions (some t))).value = none := by
  obtain ⟨-, hheld⟩ := old_reach svc stores apiKeys ops
  obtain ⟨t', ht', hold⟩ := (hheld i session (by rw [hstage]; rfl)).of_value hvalue
  obtain rfl := Option.some.inj (htoken.symm.trans ht')
  have hgone := gone_of_logout svc hstage hlogout hpass hstore htoken
    (fun j hj x hx => (hheld j x hx).ne (hothers j hj x hx)) hold
  have hlater := Machine.run_invariant svc.threads.machine (Gone t)
    (fun s op h => h.step op) hgone later
  rw [reach, Machine.run_append, Machine.run_cons]
  obtain ⟨t', value, ht', hlookup, hview⟩ | hview := M.load_cases svc.sessionConf _ (some t)
  · obtain rfl := Option.some.inj ht'
    rw [hview]
    cases value with
    | none => rfl
    | some u' => exact absurd rfl (hlater.2.1 t u' hlookup)
  · rw [hview]

end

theorem logout_final_loginRun : ((mapManager String).view ((mapManager String).load
    plainSystem.sessionConf (plainSystem.reach adminStores (.new 0) (loginRun ++ .replicate 2
      (.step 1 logoutInput))).shared.sessions (some (.issued 0)))).value = none := by
  apply logout_final plainSystem adminStores (.new 0) loginRun 1 logoutInput _ _ _ "admin"
    loginRun_stage rfl rfl rfl (by decide +kernel) rfl
  rintro (_ | _ | j) hj x hx
  · cases hx
  · exact absurd rfl hj
  · cases hx

end SystemService

end Torii.Api
