import Mathlib.Data.List.Nodup
import Torii.Lib.Program

/-!
# First-time setup

`api/handler_fts.go` with its two services. A request sets the password of the user `admin` and then
marks the setup as concluded, in two stores and under one lock. Any operation on a store can fail,
and then changes nothing.
-/

namespace Torii.Api

/-! ## Passwords -/

structure Unicode where
  isUpper : Char → Bool
  isNumber : Char → Bool
  isLetter : Char → Bool

inductive PasswordValidationError where
  | tooShort
  | missingUpper
  | missingNumber
  | missingSpecial
deriving DecidableEq

def PasswordValidationError.message : PasswordValidationError → String
  | .tooShort => "Password must be at least 8 characters long"
  | .missingUpper => "Password must contain at least one uppercase letter"
  | .missingNumber => "Password must contain at least one number"
  | .missingSpecial => "Password must contain at least one special character"

structure Found where
  hasUpper : Bool := false
  hasNumber : Bool := false
  hasSpecial : Bool := false

namespace Unicode

variable (u : Unicode)

def look (found : Found) (ch : Char) : Found :=
  if u.isUpper ch then { found with hasUpper := true }
  else if u.isNumber ch then { found with hasNumber := true }
  else if !u.isLetter ch && !u.isNumber ch then { found with hasSpecial := true }
  else found

/-- `IsValidPassword`; the length is in bytes. -/
def isValidPassword (password : String) : Except PasswordValidationError Unit :=
  if password.utf8ByteSize < 8 then .error .tooShort
  else
    let found := password.toList.foldl u.look {}
    if !found.hasUpper then .error .missingUpper
    else if !found.hasNumber then .error .missingNumber
    else if !found.hasSpecial then .error .missingSpecial
    else .ok ()

end Unicode

/-! ## The stores -/

structure User where
  id : Nat
  username : String
  password : String
  isFirstTimeLogin : Bool
  active : Bool
deriving DecidableEq

structure UserTable where
  rows : List User
  id_nodup : (rows.map User.id).Nodup

namespace UserTable

def getUserByUsername (t : UserTable) (username : String) : Except String User :=
  match t.rows.filter (·.username = username) with
  | [] => .error ("no user found for username " ++ username)
  | [user] => .ok user
  | _ => .error ("found more than one user with username " ++ username)

def replace (user row : User) : User := if row.id = user.id then user else row

theorem id_replace (user row : User) : (replace user row).id = row.id := by
  rw [replace]
  split
  · next h => exact h.symm
  · rfl

def updateUser (t : UserTable) (user : User) : UserTable where
  rows := t.rows.map (replace user)
  id_nodup := by
    have hids : User.id ∘ replace user = User.id := funext (id_replace user)
    rw [List.map_map, hids]
    exact t.id_nodup

def adminPassword (t : UserTable) : Option String :=
  (t.getUserByUsername "admin").toOption.map User.password

variable {t : UserTable} {username : String} {user : User}

theorem filter_of_getUserByUsername (h : t.getUserByUsername username = .ok user) :
    t.rows.filter (·.username = username) = [user] := by
  rw [getUserByUsername] at h
  grind

theorem getUserByUsername_updateUser (h : t.getUserByUsername username = .ok user)
    (password : String) :
    (t.updateUser { user with password := password }).getUserByUsername username =
      .ok { user with password := password } := by
  have hfilter := filter_of_getUserByUsername h
  have huser : user ∈ t.rows ∧ user.username = username := by
    have hmem : user ∈ t.rows.filter (·.username = username) := by simp [hfilter]
    simpa using hmem
  -- the row of the user is the only one with its number
  have hname : ∀ row ∈ t.rows,
      (replace { user with password := password } row).username = row.username := by
    intro row hrow
    rw [replace]
    split
    · next hid =>
      rw [List.inj_on_of_nodup_map t.id_nodup hrow huser.1 hid]
    · rfl
  have hrows : (t.updateUser { user with password := password }).rows.filter
      (·.username = username) = [{ user with password := password }] := by
    have hcongr : t.rows.filter ((fun row : User => decide (row.username = username)) ∘
        replace { user with password := password }) = [user] := by
      rw [← hfilter]
      apply List.filter_congr
      intro row hrow
      simp only [Function.comp_apply, hname row hrow]
    rw [updateUser, List.filter_map, hcongr]
    simp [replace]
  rw [getUserByUsername, hrows]

theorem adminPassword_updateUser (h : t.getUserByUsername "admin" = .ok user) (password : String) :
    (t.updateUser { user with password := password }).adminPassword = some password := by
  rw [adminPassword, getUserByUsername_updateUser h]
  rfl

end UserTable

structure SystemConfiguration where
  isFirstTimeSetupConcluded : Bool

structure Stores where
  users : UserTable
  conf : SystemConfiguration

/-- A user that was read is written back with another password. -/
def Stores.setPassword (s : Stores) (user : User) (password : String) : Stores :=
  { s with users := s.users.updateUser { user with password := password } }

def Stores.adminPassword (s : Stores) : Option String := s.users.adminPassword

theorem Stores.adminPassword_setPassword {s : Stores} {user : User}
    (h : s.users.getUserByUsername "admin" = .ok user) (password : String) :
    (s.setPassword user password).adminPassword = some password :=
  UserTable.adminPassword_updateUser h password

abbrev Salt := List UInt8

/-- The operations between which a request can be interrupted. -/
inductive SetupOp where
  | getSystemConfiguration
  | updateSystemConfiguration (conf : SystemConfiguration)
  | getUserByUsername (username : String)
  | updateUser (user : User)
  | generateSecureSalt

abbrev SetupOp.Result : SetupOp → Type
  | .getSystemConfiguration => Except String SystemConfiguration
  | .updateSystemConfiguration _ => Except String Unit
  | .getUserByUsername _ => Except String User
  | .updateUser _ => Except String Unit
  | .generateSecureSalt => Except String Salt

def SetupOp.isConfiguration : SetupOp → Bool
  | .getSystemConfiguration | .updateSystemConfiguration _ => true
  | _ => false

structure CompleteFtsRequest where
  password : String

/-- What comes from outside: a request as `DecodeJSONBody` gives it, the failure of an
operation, and random bytes. -/
structure Env where
  body : Except String CompleteFtsRequest
  fault : Option String
  salt : Salt

def Stores.perform (s : Stores) (salt : Salt) : (op : SetupOp) → op.Result × Stores
  | .getSystemConfiguration => (.ok s.conf, s)
  | .updateSystemConfiguration conf => (.ok (), { s with conf := conf })
  | .getUserByUsername username => (s.users.getUserByUsername username, s)
  | .updateUser user => (.ok (), { s with users := s.users.updateUser user })
  | .generateSecureSalt => (.ok salt, s)

def SetupOp.fail (e : String) : (op : SetupOp) → op.Result
  | .getSystemConfiguration => .error e
  | .updateSystemConfiguration _ => .error e
  | .getUserByUsername _ => .error e
  | .updateUser _ => .error e
  | .generateSecureSalt => .error e

def Stores.exec (op : SetupOp) (s : Stores) (env : Env) : op.Result × Stores :=
  match env.fault with
  | some e => (op.fail e, s)
  | none => s.perform env.salt op

namespace Calls

def getSystemConfiguration : Program SetupOp.Result (Except String SystemConfiguration) :=
  .perform SetupOp.getSystemConfiguration

def updateSystemConfiguration (conf : SystemConfiguration) :
    Program SetupOp.Result (Except String Unit) :=
  .perform (SetupOp.updateSystemConfiguration conf)

def getUserByUsername (username : String) : Program SetupOp.Result (Except String User) :=
  .perform (SetupOp.getUserByUsername username)

def updateUser (user : User) : Program SetupOp.Result (Except String Unit) :=
  .perform (SetupOp.updateUser user)

def generateSecureSalt : Program SetupOp.Result (Except String Salt) :=
  .perform SetupOp.generateSecureSalt

end Calls

/-! ## The services and the handler -/

/-- An error with its text. `errors.As` finds the validation error that it wraps. -/
structure WrappedError where
  text : String
  validation : Option PasswordValidationError := none

structure UserService where
  unicode : Unicode
  hash : String → Salt → String

open Calls in
def UserService.setPasswordForUser (svc : UserService) (password username : String) :
    Program SetupOp.Result (Except WrappedError Unit) := do
  match svc.unicode.isValidPassword password with
  | .error e => return .error ⟨"invalid password: " ++ e.message, some e⟩
  | .ok () =>
    match ← getUserByUsername username with
    | .error e => return .error { text := "failed to get user by username: " ++ e }
    | .ok user =>
      match ← generateSecureSalt with
      | .error e => return .error { text := "failed to encode password: " ++ e }
      | .ok salt =>
        match ← updateUser { user with password := svc.hash password salt } with
        | .error e => return .error { text := "failed to update user with new password: " ++ e }
        | .ok () => return .ok ()

open Calls in
/-- `IsFirstTimeSetupCompleted`: no setup without the store. -/
def isFirstTimeSetupCompleted : Program SetupOp.Result Bool := do
  match ← getSystemConfiguration with
  | .error _ => return true
  | .ok conf => return conf.isFirstTimeSetupConcluded

open Calls in
def completeFistTimeSetup : Program SetupOp.Result (Except WrappedError Unit) := do
  match ← getSystemConfiguration with
  | .error e => return .error { text := "failed to get system configuration: " ++ e }
  | .ok conf =>
    match ← updateSystemConfiguration { conf with isFirstTimeSetupConcluded := true } with
    | .error e => return .error { text := "failed to update system configuration: " ++ e }
    | .ok () => return .ok ()

structure Response where
  status : Nat
  body : String
deriving DecidableEq

def httpError (text : String) (status : Nat) : Response := ⟨status, text ++ "\n"⟩

/-- What `handleCompleteFts` does while it holds `ftsLock`. -/
def UserService.completeFts (svc : UserService) (f : CompleteFtsRequest) :
    Program SetupOp.Result Response := do
  if ← isFirstTimeSetupCompleted then return httpError "Forbidden" 403
  match ← svc.setPasswordForUser f.password "admin" with
  | .error e =>
    match e.validation with
    | some pve => return httpError ("Invalid password: " ++ pve.message) 400
    | none => return httpError "Internal Server Error" 500
  | .ok () =>
    match ← completeFistTimeSetup with
    | .error _ => return httpError "Internal Server Error" 500
    | .ok () => return ⟨200, ""⟩

/-- `handleCompleteFts` for any number of requests. -/
def UserService.handleCompleteFts (svc : UserService) :
    Server SetupOp.Result Stores Env (Except String CompleteFtsRequest) Response where
  exec := Stores.exec
  request := Env.body
  handle
    | .error _ => .error (httpError "Bad Request" 400)
    | .ok f => .ok (svc.completeFts f)

/-! ## Contracts -/

section

variable {Ok : Stores → SetupOp → Env → Prop} {s : Stores}

theorem wp_perform_op {op : SetupOp} {Q : op.Result → Stores → Prop}
    (hfail : ∀ env e, Ok s op env → env.fault = some e → Q (op.fail e) s)
    (hok : ∀ salt, Q (s.perform salt op).1 (s.perform salt op).2) :
    (Program.perform op).wp Stores.exec Ok Q s := by
  intro env henv
  rw [Program.wp, Stores.exec]
  split
  · next e hfault => exact hfail env e henv hfault
  · exact hok env.salt

theorem wp_isFirstTimeSetupCompleted {Q : Bool → Stores → Prop} (htrue : Q true s)
    (hfalse : s.conf.isFirstTimeSetupConcluded = false → Q false s) :
    isFirstTimeSetupCompleted.wp Stores.exec Ok Q s := by
  rw [isFirstTimeSetupCompleted, Program.wp_bind]
  apply wp_perform_op
  · exact fun _ _ _ _ => htrue
  · intro salt
    cases hconf : s.conf.isFirstTimeSetupConcluded with
    | true => simpa [Stores.perform, hconf] using htrue
    | false => simpa [Stores.perform, hconf] using hfalse hconf

variable {Q : Except WrappedError Unit → Stores → Prop}

theorem wp_setPasswordForUser (svc : UserService) (password username : String)
    (herror : ∀ e, Q (.error e) s)
    (hok : ∀ user salt, s.users.getUserByUsername username = .ok user →
      Q (.ok ()) (s.setPassword user (svc.hash password salt))) :
    (svc.setPasswordForUser password username).wp Stores.exec Ok Q s := by
  rw [UserService.setPasswordForUser]
  cases svc.unicode.isValidPassword password with
  | error e => exact herror _
  | ok valid =>
    rw [Program.wp_bind]
    apply wp_perform_op (fun _ _ _ _ => herror _)
    intro salt
    cases huser : s.users.getUserByUsername username with
    | error e => simpa [Stores.perform, huser] using herror _
    | ok user =>
      simp only [Stores.perform, huser, Program.wp_bind]
      apply wp_perform_op (fun _ _ _ _ => herror _)
      intro salt
      simp only [Stores.perform, Program.wp_bind]
      exact wp_perform_op (fun _ _ _ _ => herror _) fun _ => hok user salt huser

theorem wp_completeFistTimeSetup
    (herror : ∀ op env e, op.isConfiguration = true → Ok s op env → env.fault ≠ none →
      Q (.error e) s)
    (hok : Q (.ok ()) { s with conf := ⟨true⟩ }) :
    completeFistTimeSetup.wp Stores.exec Ok Q s := by
  rw [completeFistTimeSetup, Program.wp_bind]
  apply wp_perform_op
  · intro env e henv hfault
    exact herror _ env _ rfl henv (by simp [hfault])
  · intro _
    simp only [Stores.perform, Program.wp_bind]
    apply wp_perform_op
    · intro env e henv hfault
      exact herror _ env _ rfl henv (by simp [hfault])
    · exact fun _ => hok

theorem wp_completeFts (svc : UserService) (f : CompleteFtsRequest)
    {Q : Response → Stores → Prop} (hfail : ∀ r : Response, r.status ≠ 200 → Q r s)
    (hhalf : ∀ user salt op env (r : Response), r.status ≠ 200 →
      s.conf.isFirstTimeSetupConcluded = false → s.users.getUserByUsername "admin" = .ok user →
      op.isConfiguration = true → Ok (s.setPassword user (svc.hash f.password salt)) op env →
      env.fault ≠ none → Q r (s.setPassword user (svc.hash f.password salt)))
    (hok : ∀ user salt, s.conf.isFirstTimeSetupConcluded = false →
      s.users.getUserByUsername "admin" = .ok user →
      Q ⟨200, ""⟩ { s.setPassword user (svc.hash f.password salt) with conf := ⟨true⟩ }) :
    (svc.completeFts f).wp Stores.exec Ok Q s := by
  rw [UserService.completeFts, Program.wp_bind]
  apply wp_isFirstTimeSetupCompleted
  · exact hfail _ (by decide)
  · intro hconf
    simp only [Bool.false_eq_true, if_false, Program.wp_bind]
    apply wp_setPasswordForUser
    · intro e
      cases hvalid : e.validation with
      | some | none => simpa [hvalid] using hfail _ (by simp [httpError])
    · intro user salt huser
      simp only [Program.wp_bind]
      apply wp_completeFistTimeSetup
      · intro op env e hop henv hfault
        exact hhalf user salt op env _ (by decide) hconf huser hop henv hfault
      · exact hok user salt hconf huser

end

/-! ## Interleavings -/

abbrev Answer := Except String CompleteFtsRequest × Response

def successes (seen : List Answer) : List Answer := seen.filter (·.2.status = 200)

theorem successes_append (seen seen' : List Answer) :
    successes (seen ++ seen') = successes seen ++ successes seen' := List.filter_append ..

theorem successes_of_ne (r : Except String CompleteFtsRequest) {a : Response}
    (h : a.status ≠ 200) : successes [(r, a)] = [] := by
  simp [successes, h]

variable {svc : UserService}

theorem successes_of_refused {r : Except String CompleteFtsRequest} {a : Response}
    (h : svc.handleCompleteFts.handle r = .error a) : successes [(r, a)] = [] := by
  cases r with
  | error e =>
    cases h
    rfl
  | ok f => cases h

theorem guarded_successes {Ok : Stores → SetupOp → Env → Prop}
    (I : List Answer → Stores → Prop)
    (hbody : ∀ seen f s, I seen s → (svc.completeFts f).wp Stores.exec Ok
      (fun a s' => I (seen ++ successes [(.ok f, a)]) s') s)
    {s : Stores} (hs : I [] s) {ops : List (Threads.Action Empty Env)}
    (hops : svc.handleCompleteFts.machine.Steps (svc.handleCompleteFts.Allowed Ok)
      (svc.handleCompleteFts.start s) ops) :
    (∃ before, I (successes (svc.handleCompleteFts.answers (svc.handleCompleteFts.start s) ops))
      before) ∧
      ((svc.handleCompleteFts.machine.run
        (svc.handleCompleteFts.start s) ops).shared.locked = false →
      I (successes (svc.handleCompleteFts.answers (svc.handleCompleteFts.start s) ops))
        (svc.handleCompleteFts.machine.run
          (svc.handleCompleteFts.start s) ops).shared.state) := by
  apply Server.guarded (fun seen s => I (successes seen) s) _ _ hs hops
  · intro seen tail r a s hr h
    rw [successes_append, successes_append, successes_of_refused hr, List.append_nil,
      ← successes_append]
    exact h
  · intro seen r body s hr h
    cases r with
    | error e => cases hr
    | ok f =>
      cases hr
      simp only [successes_append]
      exact hbody (successes seen) f s h

/-- The first success concludes the setup, and a concluded setup allows no other. -/
def Single (successful : List Answer) (s : Stores) : Prop :=
  successful.length ≤ s.conf.isFirstTimeSetupConcluded.toNat

section

variable (svc : UserService) (s : Stores) (ops : List (Threads.Action Empty Env))

theorem allowed_of_any : svc.handleCompleteFts.machine.Steps
    (svc.handleCompleteFts.Allowed fun _ _ _ => True) (svc.handleCompleteFts.start s) ops := by
  apply Machine.steps_of_invariant _ (fun _ => True) (fun _ => True) _ _ (fun _ _ => trivial)
    trivial
  · rintro s (e | ⟨i, env⟩) - -
    · trivial
    · exact fun _ _ => trivial
  · exact fun _ _ _ _ => trivial

theorem single_success :
    (successes (svc.handleCompleteFts.answers (svc.handleCompleteFts.start s) ops)).length ≤ 1 := by
  have hbody : ∀ seen f s, Single seen s → (svc.completeFts f).wp Stores.exec
      (fun _ _ _ => True) (fun a s' => Single (seen ++ successes [(.ok f, a)]) s') s := by
    intro seen f s h
    apply wp_completeFts
    · intro r hr
      rw [successes_of_ne _ hr, List.append_nil]
      exact h
    · intro user salt op env r hr _ _ _ _ _
      rw [successes_of_ne _ hr, List.append_nil]
      exact h
    · intro user salt hconf huser
      have hnone : seen = [] := by simpa [Single, hconf] using h
      simp [Single, hnone, successes]
  obtain ⟨⟨before, hbefore⟩, -⟩ :=
    guarded_successes Single hbody (Nat.zero_le _) (allowed_of_any svc s ops)
  exact Nat.le_trans hbefore (Bool.toNat_le _)

/-- Once the setup is concluded, no request succeeds any more in any interleaving and whatever
fails, and whenever the lock is free the stores are as they were. -/
theorem concluded_setup_final (hdone : s.conf.isFirstTimeSetupConcluded = true) :
    successes (svc.handleCompleteFts.answers (svc.handleCompleteFts.start s) ops) = [] ∧
      ((svc.handleCompleteFts.machine.run
        (svc.handleCompleteFts.start s) ops).shared.locked = false →
        (svc.handleCompleteFts.machine.run
          (svc.handleCompleteFts.start s) ops).shared.state = s) := by
  have hbody : ∀ seen f s', seen = [] ∧ s' = s → (svc.completeFts f).wp Stores.exec
      (fun _ _ _ => True) (fun a s' => seen ++ successes [(.ok f, a)] = [] ∧ s' = s) s' := by
    rintro seen f s' ⟨rfl, hsame⟩
    subst hsame
    apply wp_completeFts
    · exact fun r hr => ⟨successes_of_ne _ hr, rfl⟩
    · exact fun user salt op env r hr hconf => absurd hdone (by simp [hconf])
    · exact fun user salt hconf => absurd hdone (by simp [hconf])
  obtain ⟨⟨-, hnone, -⟩, hstate⟩ := guarded_successes (fun seen s' => seen = [] ∧ s' = s) hbody
    ⟨rfl, rfl⟩ (allowed_of_any svc s ops)
  exact ⟨hnone, fun hfree => (hstate hfree).2⟩

end

/-- The stored password is that of the request that succeeded, or the initial one. -/
structure PasswordOf (svc : UserService) (initial : Option String) (successful : List Answer)
    (stored : Option String) : Prop where
  unchanged : successful = [] → stored = initial
  changed : ∀ x ∈ successful, ∃ f salt, x.1 = .ok f ∧ stored = some (svc.hash f.password salt)

/-- No operation on the configuration store fails between the change of the password and the
end of the setup. -/
def Steady (initial : Option String) (s : Stores) (op : SetupOp) (env : Env) : Prop :=
  op.isConfiguration = true → s.adminPassword ≠ initial →
    s.conf.isFirstTimeSetupConcluded = false → env.fault = none

instance (initial : Option String) (s : Stores) (op : SetupOp) (env : Env) :
    Decidable (Steady initial s op env) :=
  inferInstanceAs (Decidable (_ → _ → _ → _))

structure Settled (svc : UserService) (initial : Option String) (successful : List Answer)
    (s : Stores) : Prop where
  password : PasswordOf svc initial successful s.adminPassword
  concluded : s.conf.isFirstTimeSetupConcluded = false → successful = []

theorem Settled.completeFts {svc : UserService} {initial : Option String}
    (successful : List Answer) (f : CompleteFtsRequest) (s : Stores)
    (h : Settled svc initial successful s) :
    (svc.completeFts f).wp Stores.exec (Steady initial)
      (fun a s' => Settled svc initial (successful ++ successes [(.ok f, a)]) s') s := by
  apply wp_completeFts
  · intro r hr
    simpa [successes_of_ne _ hr] using h
  · intro user salt op env r hr hconf huser hop hsteady hfault
    -- the configuration store may only fail here if the password has not changed
    have hsame : (s.setPassword user (svc.hash f.password salt)).adminPassword = initial := by
      by_contra hne
      exact hfault (hsteady hop hne hconf)
    obtain rfl := h.concluded hconf
    rw [successes_of_ne _ hr, List.append_nil]
    exact ⟨⟨fun _ => hsame, fun x hx => absurd hx List.not_mem_nil⟩, fun _ => rfl⟩
  · intro user salt hconf huser
    obtain rfl := h.concluded hconf
    refine ⟨⟨fun hnil => absurd hnil (by simp [successes]), ?_⟩, fun hfalse => nomatch hfalse⟩
    intro x hx
    obtain rfl : x = (.ok f, ⟨200, ""⟩) := by simpa [successes] using hx
    exact ⟨f, salt, rfl, Stores.adminPassword_setPassword huser _⟩

/-- In every interleaving without a failure of the configuration store after a change of the
password, at most one request succeeds, and whenever the lock is free the password is that of
the successful request if there is one, and the initial one otherwise. -/
theorem setup_atomic (svc : UserService) (s : Stores) {ops : List (Threads.Action Empty Env)}
    (hops : svc.handleCompleteFts.machine.Steps
      (svc.handleCompleteFts.Allowed (Steady s.adminPassword))
      (svc.handleCompleteFts.start s) ops) :
    (successes (svc.handleCompleteFts.answers (svc.handleCompleteFts.start s) ops)).length ≤ 1 ∧
      ((svc.handleCompleteFts.machine.run
        (svc.handleCompleteFts.start s) ops).shared.locked = false →
      PasswordOf svc s.adminPassword
        (successes (svc.handleCompleteFts.answers (svc.handleCompleteFts.start s) ops))
        (svc.handleCompleteFts.machine.run
          (svc.handleCompleteFts.start s) ops).shared.state.adminPassword) := by
  refine ⟨single_success svc s ops, fun hfree => ?_⟩
  have hstart : Settled svc s.adminPassword [] s :=
    ⟨⟨fun _ => rfl, fun x hx => absurd hx List.not_mem_nil⟩, fun _ => rfl⟩
  exact ((guarded_successes _ Settled.completeFts hstart hops).2 hfree).password

/-- Letters and digits of ASCII, and a hash function that keeps the password. -/
def plainService : UserService where
  unicode := ⟨Char.isUpper, Char.isDigit, Char.isAlpha⟩
  hash password _ := "hash of " ++ password

def freshStores : Stores where
  users := ⟨[⟨1, "admin", "", true, true⟩], by decide⟩
  conf := ⟨false⟩

def goodRequest : Env := ⟨.ok ⟨"Passw0rd!"⟩, none, []⟩

def oneRequest (n : Nat) : List (Threads.Action Empty Env) :=
  (List.range 9).map fun k =>
    .step 0 (if k = n then { goodRequest with fault := some "disk full" } else goodRequest)

theorem concluded_setup_final_oneRequest : (plainService.handleCompleteFts.machine.run
      (plainService.handleCompleteFts.start { freshStores with conf := ⟨true⟩ })
      (oneRequest 9)).shared.state = { freshStores with conf := ⟨true⟩ } :=
  (concluded_setup_final plainService _ (oneRequest 9) rfl).2 (by decide +kernel)

theorem setup_atomic_oneRequest :
    (successes (plainService.handleCompleteFts.answers
      (plainService.handleCompleteFts.start freshStores) (oneRequest 9))).length = 1 ∧
    PasswordOf plainService freshStores.adminPassword
      (successes (plainService.handleCompleteFts.answers
        (plainService.handleCompleteFts.start freshStores) (oneRequest 9)))
      (plainService.handleCompleteFts.machine.run
        (plainService.handleCompleteFts.start freshStores)
        (oneRequest 9)).shared.state.adminPassword :=
  ⟨by decide +kernel, (setup_atomic plainService freshStores (by decide +kernel)).2
    (by decide +kernel)⟩

/-- The configuration cannot be read after the password was set: nobody succeeded, and the
password is another one. -/
theorem failed_setup_changes_password :
    (plainService.handleCompleteFts.machine.run
      (plainService.handleCompleteFts.start freshStores) (oneRequest 6)).shared.locked = false ∧
    ¬ PasswordOf plainService freshStores.adminPassword
      (successes (plainService.handleCompleteFts.answers
        (plainService.handleCompleteFts.start freshStores) (oneRequest 6)))
      (plainService.handleCompleteFts.machine.run
        (plainService.handleCompleteFts.start freshStores)
        (oneRequest 6)).shared.state.adminPassword := by
  refine ⟨by decide +kernel, fun h => ?_⟩
  have hnone : successes (plainService.handleCompleteFts.answers
      (plainService.handleCompleteFts.start freshStores) (oneRequest 6)) = [] :=
    List.length_eq_zero_iff.mp (by decide +kernel)
  exact absurd (h.unchanged hnone) (by decide +kernel)

end Torii.Api
