import Torii.Go.Map
import Torii.Go.Strings

/-!
# Session registries

`internal/session_store/registry.go` over a session manager of `scs`, which is a parameter with its
store (`Manager`). A registry uses one key, so a session holds at most one value. What fails in the
store changes nothing, and the caller gets an error. Tokens are random and never the same, so a
token is known by the number under which it was made, or it comes from elsewhere.
-/

namespace Torii.Session

open Go

inductive Token where
  | issued (n : Nat)
  | foreign (value : String)
deriving DecidableEq

inductive SameSite where
  | lax
  | strict
  | none
deriving DecidableEq

/-- `Config`; the timeout is in nanoseconds. -/
structure Config where
  idleTimeout : Int
  cookieDomain : String
  cookieSecure : Bool
  cookieHttpOnly : Bool
  cookieSameSite : String

def Config.sameSiteMode (lower : Char → Char) (c : Config) : SameSite :=
  let mode := Strings.toLower lower c.cookieSameSite
  if mode = "strict" then .strict else if mode = "none" then .none else .lax

structure Cookie where
  name : String
  domain : String
  httpOnly : Bool
  path : String
  persist : Bool
  sameSite : SameSite
  secure : Bool

/-- The cookie that `NewRegistryWithStore` sets up. -/
def newRegistryWithStore (lower : Char → Char) (cookieName cookiePath : String) (cfg : Config) :
    Cookie where
  name := cookieName
  domain := cfg.cookieDomain
  httpOnly := cfg.cookieHttpOnly
  path := cookiePath
  persist := true
  sameSite := cfg.sameSiteMode lower
  secure := cfg.cookieSecure

inductive Status where
  | unmodified
  | modified
  | destroyed
deriving DecidableEq

/-- The session in the context of a request: what `Token`, `Get` and `Status` say. -/
structure View (α : Type) where
  token : Option Token := none
  value : Option α := none
  status : Status := .unmodified

/-- A session manager with its store. `lookup` is what the store has under a token: the session with
its value, if it has one. -/
structure Manager (α : Type) where
  Store : Type
  Data : Type
  empty : Store
  lookup : Store → Token → Option (Option α)
  view : Data → View α
  load : Config → Store → Option Token → Data
  put : Data → α → Data
  remove : Data → Data
  renewToken : Store → Data → Token → Data × Store
  destroy : Store → Data → Data × Store
  commit : Store → Data → Store
  /-- The end of a session that has expired. -/
  expire : Store → Token → Store
  lookup_empty : ∀ t, lookup empty t = none
  /-- With an idle timeout a session that is found counts as modified. -/
  view_load_found : ∀ cfg s t value, lookup s t = some value →
    view (load cfg s (some t)) =
      ⟨some t, value, if 0 < cfg.idleTimeout then .modified else .unmodified⟩
  /-- For any other token the session is new. -/
  view_load_new : ∀ cfg s token, (∀ t ∈ token, lookup s t = none) → view (load cfg s token) = {}
  view_put : ∀ x v, view (put x v) = { view x with value := some v, status := .modified }
  view_remove : ∀ x, view (remove x) =
    { view x with
      value := none
      status := if (view x).value.isSome then .modified else (view x).status }
  view_renewToken : ∀ s x fresh, view (renewToken s x fresh).1 =
    { view x with token := some fresh, status := .modified }
  lookup_renewToken : ∀ s x fresh t, lookup (renewToken s x fresh).2 t =
    if (view x).token = some t then none else lookup s t
  view_destroy : ∀ s x, view (destroy s x).1 = { status := .destroyed }
  lookup_destroy : ∀ s x t, lookup (destroy s x).2 t =
    if (view x).token = some t then none else lookup s t
  lookup_commit : ∀ s x t, (view x).token = some t →
    ∀ t', lookup (commit s x) t' = if t' = t then some (view x).value else lookup s t'
  lookup_expire : ∀ s t t', lookup (expire s t) t' = if t' = t then none else lookup s t'

namespace Manager

variable {α : Type} (M : Manager α)

/-- `NewSession`; an error of the store is returned. -/
def newSession (s : M.Store) (x : M.Data) (fresh : Token) (value : α) (fault : Bool) :
    Bool × M.Data × M.Store :=
  if fault then (false, x, s)
  else
    let renewed := M.renewToken s x fresh
    (true, M.put renewed.1 value, renewed.2)

def hasValidSession (x : M.Data) : Bool := (M.view x).value.isSome

/-- `LogoutSession`; an error of `Destroy` is logged. -/
def logoutSession (s : M.Store) (x : M.Data) (fault : Bool) : M.Data × M.Store :=
  let x := M.remove x
  if fault then (x, s) else M.destroy s x

/-- The end of `LoadAndSave`: the token that the cookie is set to, and the store. -/
def save (s : M.Store) (x : M.Data) : Option Token × M.Store :=
  if (M.view x).status = .modified then ((M.view x).token, M.commit s x) else (none, s)

variable {M} {s : M.Store} {x : M.Data} {fresh t : Token} {value : α}

theorem load_cases (M : Manager α) (cfg : Config) (s : M.Store) (token : Option Token) :
    (∃ t value, token = some t ∧ M.lookup s t = some value ∧ M.view (M.load cfg s token) =
        ⟨some t, value, if 0 < cfg.idleTimeout then .modified else .unmodified⟩) ∨
      M.view (M.load cfg s token) = {} := by
  by_cases h : ∀ t ∈ token, M.lookup s t = none
  · exact .inr (M.view_load_new cfg s token h)
  · push Not at h
    obtain ⟨t, rfl, hfound⟩ := h
    obtain ⟨value, hvalue⟩ := Option.ne_none_iff_exists'.mp hfound
    exact .inl ⟨t, value, rfl, hvalue, M.view_load_found cfg s t value hvalue⟩

theorem view_newSession : M.view (M.newSession s x fresh value false).2.1 =
    ⟨some fresh, some value, .modified⟩ := by
  simp [newSession, M.view_put, M.view_renewToken]

end Manager

/-- The value has a property together with the token; without a token there is nothing to save. -/
def View.Carries {α : Type} (P : Token → α → Prop) (x : View α) : Prop :=
  match x.token with
  | some t => ∀ v ∈ x.value, P t v
  | none => x.value = none ∧ x.status ≠ .modified

namespace View.Carries

variable {α : Type} {P Q : Token → α → Prop} {x : View α} {t : Token} {v : α}

theorem mono (h : x.Carries P) (himp : ∀ t v, P t v → Q t v) : x.Carries Q := by
  obtain ⟨_ | t, value, status⟩ := x
  · exact h
  · exact fun v hv => himp t v (h v hv)

theorem of_value (h : x.Carries P) (hv : x.value = some v) : ∃ t, x.token = some t ∧ P t v := by
  obtain ⟨_ | t, value, status⟩ := x
  · cases h.1.symm.trans hv
  · exact ⟨t, rfl, h v hv⟩

theorem ne (h : x.Carries P) (ht : x.token ≠ some t) : x.Carries fun t' _ => t' ≠ t := by
  obtain ⟨_ | t', value, status⟩ := x
  · exact h
  · rintro v - rfl
    exact ht rfl

end View.Carries

namespace Manager

variable {α : Type} {M : Manager α} {s : M.Store} {x : M.Data} {t : Token} {v : α}
  {P : Token → α → Prop}

theorem carries_load (hstore : ∀ t v, M.lookup s t = some (some v) → P t v) (cfg : Config)
    (token : Option Token) : (M.view (M.load cfg s token)).Carries P := by
  obtain ⟨t, value, rfl, hlookup, hview⟩ | hview := M.load_cases cfg s token
  · rw [hview]
    rintro v rfl
    exact hstore t v hlookup
  · rw [hview]
    exact ⟨rfl, Status.noConfusion⟩

theorem carries_logoutSession (h : (M.view x).Carries P) (fault : Bool) :
    (M.view (M.logoutSession s x fault).1).Carries P := by
  rw [logoutSession]
  split
  · rw [M.view_remove]
    rw [View.Carries] at h ⊢
    cases htoken : (M.view x).token with
    | some t => simp
    | none =>
      rw [htoken] at h
      simpa [h.1] using h.2
  · rw [M.view_destroy]
    exact ⟨rfl, Status.noConfusion⟩

theorem lookup_of_newSession {fresh : Token} {value : Option α} (v : α) (fault : Bool)
    (h : M.lookup (M.newSession s x fresh v fault).2.2 t = some value) :
    M.lookup s t = some value := by
  rw [newSession] at h
  split at h
  · exact h
  · rw [M.lookup_renewToken, Option.ite_none_left_eq_some] at h
    exact h.2

theorem lookup_of_logoutSession {fault : Bool} {value : Option α}
    (h : M.lookup (M.logoutSession s x fault).2 t = some value) : M.lookup s t = some value := by
  rw [logoutSession] at h
  split at h
  · exact h
  · rw [M.lookup_destroy, Option.ite_none_left_eq_some] at h
    exact h.2

theorem lookup_of_save (hx : (M.view x).Carries P)
    (h : M.lookup (M.save s x).2 t = some (some v)) :
    M.lookup s t = some (some v) ∨ P t v := by
  rw [save] at h
  split at h
  · next hstatus =>
    rw [View.Carries] at hx
    split at hx
    · next t' htoken =>
      rw [M.lookup_commit s x t' htoken] at h
      split at h
      · next hsame => exact .inr (hsame ▸ hx v (Option.some.inj h))
      · exact .inl h
    · exact absurd hstatus hx.2
  · exact .inl h

end Manager

theorem lookup_elim_erase {α : Type} (s : GoMap Token α) (token : Option Token) (t : Token) :
    (token.elim s s.erase).lookup t = if token = some t then none else s.lookup t := by
  cases token with
  | none => simp
  | some t' =>
    rw [Option.elim_some, GoMap.lookup_erase']
    simp [eq_comm]

/-- A manager with its sessions in a map. -/
def mapManager (α : Type) : Manager α where
  Store := GoMap Token (Option α)
  Data := View α
  empty := ∅
  lookup s t := s.lookup t
  view x := x
  load cfg s token :=
    match token.bind fun t => (s.lookup t).map (t, ·) with
    | some (t, value) => ⟨some t, value, if 0 < cfg.idleTimeout then .modified else .unmodified⟩
    | none => {}
  put x v := { x with value := some v, status := .modified }
  remove x :=
    { x with value := none, status := if x.value.isSome then .modified else x.status }
  renewToken s x fresh :=
    ({ x with token := some fresh, status := .modified }, x.token.elim s s.erase)
  destroy s x := ({ status := .destroyed }, x.token.elim s s.erase)
  commit s x := x.token.elim s fun t => s.insert t x.value
  expire s t := s.erase t
  lookup_empty _ := rfl
  view_load_found cfg s t value h := by simp [h]
  view_load_new cfg s token h := by
    cases token with
    | none => rfl
    | some t => simp [h t rfl]
  view_put _ _ := rfl
  view_remove _ := rfl
  view_renewToken _ _ _ := rfl
  lookup_renewToken s x fresh t := lookup_elim_erase s x.token t
  view_destroy _ _ := rfl
  lookup_destroy s x t := lookup_elim_erase s x.token t
  lookup_commit s x t h t' := by
    rw [h]
    exact GoMap.lookup_insert' ..
  lookup_expire s t t' := GoMap.lookup_erase' ..

end Torii.Session
