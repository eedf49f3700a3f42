import Torii.Lib.CookieJar
import Torii.Lib.Machine
import Torii.Session.Registry

/-!
# TOTP middlewares

`middleware/totp_middleware.go` and `middleware/totp`, for two middlewares on one host and one
browser. Every middleware has a session manager with a store of its own, but all cookies have the
same name and path, so at most the domain tells them apart. A middleware looks at the leading one
only. The middlewares belong to two path rules, or one to a route and the other one to a path rule
of it. The browser decides under which domain a cookie is stored. The session manager is any that
does what `Session.Manager` assumes; its store is in memory and does not fail.
-/

namespace Torii.Middleware

open Go Session Function

/-! ## The middleware -/

namespace Totp

def cookieName : String := "torii-otp-id"

def cookiePath : String := "/"

structure SessionData where
  seedLabel : String
  scope : String
deriving DecidableEq

inductive Which where
  | first
  | second
deriving DecidableEq

/-- A TOTP middleware; the scope is the connection name of its build context. -/
structure TOTPMiddleware where
  label : String
  scope : String
  session : Session.Config

def defaultSession : Session.Config where
  idleTimeout := 30 * 60 * 1000000000
  cookieDomain := ""
  cookieSecure := false
  cookieHttpOnly := true
  cookieSameSite := "lax"

/-- A request. Whether the limiter of a middleware lets an attempt through and whether the code is
right is given for each of them, since both depend on the time. -/
structure Request where
  method : String
  verifyQuery : String
  accept : String
  limited : Which → Bool
  validCode : Which → Bool

def Request.isVerifyRequest (r : Request) : Bool := r.method = "POST" && r.verifyQuery = "verify"

def Request.acceptsHTML (r : Request) : Bool :=
  r.accept = "" || Strings.contains r.accept "text/html" || Strings.contains r.accept "*/*"

inductive Answer where
  | tooManyRequests
  | redirectAfterVerification
  | invalidCode
  | challenge
  | unauthorized
deriving DecidableEq

inductive Outcome where
  | passed
  | answered (k : Which) (answer : Answer)
deriving DecidableEq

variable {M : Manager SessionData}

variable (M) in
structure Stores where
  store : Which → M.Store
  issued : Nat

/-- Where the middlewares are: at two path rules, or one at a route and the other one at a path
rule of it. -/
inductive Arrangement where
  | pathRules
  | routeAndRule (outer : Which)
deriving DecidableEq

/-- The middlewares on the way of a request for the location of `k`. -/
def Arrangement.chain : Arrangement → Which → List Which
  | .pathRules, k => [k]
  | .routeAndRule outer, k => if k = outer then [outer] else [outer, k]

/-- The middlewares, their places, and the domain under which the browser keeps a cookie of the
host, if it takes it. -/
structure Setting (M : Manager SessionData) where
  lower : Char → Char
  accepts : Cookie → Option String
  site : Which → TOTPMiddleware
  arrangement : Arrangement

structure World (M : Manager SessionData) where
  stores : Stores M
  jar : CookieJar Token

def World.leading (w : World M) : Option (CookieKey × Token) := w.jar.leading cookieName

def hasValidSession (session : M.Data) (scope : String) : Bool :=
  match (M.view session).value with
  | some data => data.scope = scope
  | none => false

namespace Setting

variable (S : Setting M)

def cookieKey (k : Which) : Option CookieKey :=
  let cookie := newRegistryWithStore S.lower cookieName cookiePath (S.site k).session
  (S.accepts cookie).map (⟨cookie.name, ·, cookie.path⟩)

/-- What happens to a session after the request: the cookies that are set, and the stores. -/
def save (k : Which) (session : M.Data) (s : Stores M) : List (Which × Token) × Stores M :=
  let (token, store) := M.save (s.store k) session
  (token.toList.map (k, ·), { s with store := Function.update s.store k store })

/-- `ValidateAndStartSession`, with the answer of the handler. -/
def validateAndStartSession (r : Request) (k : Which) (session : M.Data) (s : Stores M) :
    Answer × M.Data × Stores M :=
  if r.limited k then (.tooManyRequests, session, s)
  else if !r.validCode k then (.invalidCode, session, s)
  else
    let (_, session, store) := M.newSession (s.store k) session (.issued s.issued)
      ⟨(S.site k).label, (S.site k).scope⟩ false
    (.redirectAfterVerification, session, ⟨Function.update s.store k store, s.issued + 1⟩)

/-- The part of the handler after `HasValidSession` was false. -/
def refuse (r : Request) (k : Which) (session : M.Data) (s : Stores M) :
    Answer × M.Data × Stores M :=
  if r.isVerifyRequest then S.validateAndStartSession r k session s
  else if r.method = "GET" && r.acceptsHTML then (.challenge, session, s)
  else (.unauthorized, session, s)

/-- A request that carries a token goes through a chain of middlewares. The cookies are in the
order in which they are set: the inner middleware has answered first. -/
def serve (r : Request) (token : Option Token) : List Which → Stores M →
    Outcome × List (Which × Token) × Stores M
  | [], s => (.passed, [], s)
  | k :: chain, s =>
    let session := M.load (S.site k).session (s.store k) token
    if hasValidSession session (S.site k).scope then
      let (outcome, cookies, s) := serve r token chain s
      let (cookie, s) := save k session s
      (outcome, cookies ++ cookie, s)
    else
      let (answer, session, s) := S.refuse r k session s
      let (cookie, s) := save k session s
      (.answered k answer, cookie, s)

def setCookie (jar : CookieJar Token) (cookie : Which × Token) : CookieJar Token :=
  match S.cookieKey cookie.1 with
  | some key => assign key cookie.2 jar
  | none => jar

/-- The browser sends one request after the other, each for the location of one of the
middlewares. -/
def browsing : Machine (World M) (Which × Request) Outcome where
  step w request :=
    let (outcome, cookies, stores) := S.serve request.2 (w.leading.map Prod.snd)
      (S.arrangement.chain request.1) w.stores
    (outcome, ⟨stores, cookies.foldl S.setCookie w.jar⟩)

/-- Nobody has verified yet; the browser may have cookies from elsewhere, which are in no
store. -/
def initial (jar : CookieJar String) : World M :=
  ⟨⟨fun _ => M.empty, 0⟩, jar.map fun e => (e.1, .foreign e.2)⟩

end Setting

@[simp] theorem lookup_initial (jar : CookieJar String) (k : Which) (t : Token) :
    M.lookup ((Setting.initial jar : World M).stores.store k) t = none :=
  M.lookup_empty t

/-! ## What a request does to the stores -/

def Stores.Holds (s : Stores M) (k : Which) (token : Option Token) : Prop :=
  ∃ t data, token = some t ∧ M.lookup (s.store k) t = some data

structure Known (S : Setting M) (s : Stores M) : Prop where
  scope : ∀ k t data, M.lookup (s.store k) t = some data →
    data.map SessionData.scope = some (S.site k).scope
  issued : ∀ k t data, M.lookup (s.store k) t = some data → ∃ n < s.issued, t = .issued n

structure Same (s s' : Stores M) : Prop where
  issued : s'.issued = s.issued
  lookup : ∀ k t, M.lookup (s'.store k) t = M.lookup (s.store k) t

/-- The store of `j` has one session more. -/
structure Grown (S : Setting M) (j : Which) (s s' : Stores M) : Prop where
  issued : s'.issued = s.issued + 1
  lookup : ∀ k t, M.lookup (s'.store k) t =
    if k = j ∧ t = .issued s.issued then some (some ⟨(S.site j).label, (S.site j).scope⟩)
    else M.lookup (s.store k) t

/-- The cookies are set to the token of the request, by middlewares that know it. -/
def Resaved (s : Stores M) (token : Option Token) (cookies : List (Which × Token)) : Prop :=
  ∀ e ∈ cookies, token = some e.2 ∧ s.Holds e.1 token

/-- What a chain can do: nobody verifies, or the first middleware that does not know the token
does. Then its cookie is set first, and the middlewares around it set theirs again if they have
an idle timeout. -/
inductive Served (S : Setting M) (s : Stores M) (token : Option Token) (chain : List Which) :
    Outcome → List (Which × Token) → Stores M → Prop where
  | quiet {outcome cookies s'} (hsame : Same s s') (hcookies : Resaved s token cookies)
      (hanswer : ∀ k, outcome ≠ .answered k .redirectAfterVerification)
      (hpassed : outcome = .passed ↔ ∀ k ∈ chain, s.Holds k token) :
      Served S s token chain outcome cookies s'
  | verified (outer : List Which) {j inner again s'} (hchain : chain = outer ++ j :: inner)
      (houter : ∀ k ∈ outer, s.Holds k token) (hj : ¬ s.Holds j token) (hgrown : Grown S j s s')
      (hagain : Resaved s token again)
      (hsilent : again = [] ↔ ∀ k ∈ outer, (S.site k).session.idleTimeout ≤ 0) :
      Served S s token chain (.answered j .redirectAfterVerification)
        ((j, .issued s.issued) :: again) s'

section

variable {S : Setting M} {s s' : Stores M} {k : Which} {token : Option Token} {session : M.Data}

theorem load_of_not_holds (h : ¬ s.Holds k token) (cfg : Session.Config) :
    M.view (M.load cfg (s.store k) token) = {} := by
  apply M.view_load_new
  intro t ht
  rw [Option.eq_none_iff_forall_ne_some]
  exact fun data hdata => h ⟨t, data, ht, hdata⟩

variable {data : Option SessionData} {s₁ s₂ s₃ : Stores M} {chain : List Which}

theorem Known.hasValidSession (hknown : Known S s) {t : Token}
    (h : M.lookup (s.store k) t = some data) :
    hasValidSession (M.load (S.site k).session (s.store k) (some t)) (S.site k).scope = true := by
  obtain ⟨d, rfl, hscope⟩ := Option.map_eq_some_iff.mp (hknown.scope k t data h)
  rw [Totp.hasValidSession, M.view_load_found _ _ _ _ h]
  exact decide_eq_true hscope

theorem not_hasValidSession (h : ¬ s.Holds k token) (cfg : Session.Config) (scope : String) :
    hasValidSession (M.load cfg (s.store k) token) scope = false := by
  rw [Totp.hasValidSession, load_of_not_holds h]

/-- A store that finds the same sessions. -/
theorem same_update {store : M.Store} (h : ∀ t, M.lookup store t = M.lookup (s.store k) t) :
    Same s { s with store := Function.update s.store k store } := by
  refine ⟨rfl, fun k' t => ?_⟩
  by_cases hk : k' = k
  · subst hk
    simp only [update_self, h]
  · simp only [update_of_ne hk]

theorem save_loaded {t : Token} {modified : Prop} [Decidable modified]
    (hview : M.view session = ⟨some t, data, if modified then .modified else .unmodified⟩)
    (h : M.lookup (s.store k) t = some data) :
    (Setting.save k session s).1 = (if modified then [(k, t)] else []) ∧
      Same s (Setting.save k session s).2 := by
  by_cases hmodified : modified
  · have hsave : M.save (s.store k) session = (some t, M.commit (s.store k) session) := by
      simp [Manager.save, hview, hmodified]
    simp only [Setting.save, hsave, if_pos hmodified]
    refine ⟨rfl, same_update fun t' => ?_⟩
    rw [M.lookup_commit _ _ t (by rw [hview]), hview]
    split
    · next hsame => rw [hsame, h]
    · rfl
  · have hsave : M.save (s.store k) session = (none, s.store k) := by
      simp [Manager.save, hview, hmodified]
    simp only [Setting.save, hsave, if_neg hmodified]
    exact ⟨rfl, same_update fun _ => rfl⟩

theorem save_new (hview : M.view session = {}) :
    (Setting.save k session s).1 = [] ∧ Same s (Setting.save k session s).2 := by
  have hsave : M.save (s.store k) session = (none, s.store k) := by simp [Manager.save, hview]
  simp only [Setting.save, hsave]
  exact ⟨rfl, same_update fun _ => rfl⟩

theorem save_newSession (S : Setting M) (k : Which) (s : Stores M) (hview : M.view session = {}) :
    let next := M.newSession (s.store k) session (.issued s.issued)
      ⟨(S.site k).label, (S.site k).scope⟩ false
    let saved := Setting.save k next.2.1 ⟨Function.update s.store k next.2.2, s.issued + 1⟩
    saved.1 = [(k, .issued s.issued)] ∧ Grown S k s saved.2 := by
  intro next
  have hnext : M.view next.2.1 = _ := Manager.view_newSession
  have hsave : ∀ store,
      M.save store next.2.1 = (some (.issued s.issued), M.commit store next.2.1) := by
    intro store
    simp [Manager.save, hnext]
  have hstore : ∀ t, M.lookup next.2.2 t = M.lookup (s.store k) t := by
    intro t
    simp [next, Manager.newSession, M.lookup_renewToken, hview]
  simp only [Setting.save, update_self, hsave]
  refine ⟨rfl, rfl, fun k' t => ?_⟩
  by_cases hk : k' = k
  · subst hk
    simp only [update_self, true_and]
    rw [M.lookup_commit _ _ _ (by rw [hnext]), hnext, hstore]
  · simp only [update_of_ne hk, hk, false_and, if_false]

theorem Same.trans (h : Same s₁ s₂) (h' : Same s₂ s₃) : Same s₁ s₃ :=
  ⟨h'.issued.trans h.issued, fun k t => (h'.lookup k t).trans (h.lookup k t)⟩

theorem Grown.trans_same {j : Which} (h : Grown S j s₁ s₂) (h' : Same s₂ s₃) : Grown S j s₁ s₃ :=
  ⟨h'.issued.trans h.issued, fun k t => (h'.lookup k t).trans (h.lookup k t)⟩

theorem refuse_cases (S : Setting M) (r : Request) (k : Which) (session : M.Data) (s : Stores M) :
    (∃ answer, answer ≠ .redirectAfterVerification ∧
        S.refuse r k session s = (answer, session, s)) ∨
      let next := M.newSession (s.store k) session (.issued s.issued)
        ⟨(S.site k).label, (S.site k).scope⟩ false
      S.refuse r k session s = (.redirectAfterVerification, next.2.1,
        ⟨Function.update s.store k next.2.2, s.issued + 1⟩) := by
  simp only [Setting.refuse, Setting.validateAndStartSession]
  split
  · split
    · exact .inl ⟨.tooManyRequests, by simp, rfl⟩
    · split
      · exact .inl ⟨.invalidCode, by simp, rfl⟩
      · exact .inr rfl
  · split
    · exact .inl ⟨.challenge, by simp, rfl⟩
    · exact .inl ⟨.unauthorized, by simp, rfl⟩

theorem served_of_not_holds (h : ¬ s.Holds k token) (r : Request) (chain : List Which) :
    Served S s token (k :: chain) (S.serve r token (k :: chain) s).1
      (S.serve r token (k :: chain) s).2.1 (S.serve r token (k :: chain) s).2.2 := by
  generalize hsession : M.load (S.site k).session (s.store k) token = session
  have hview : M.view session = {} := by rw [← hsession, load_of_not_holds h]
  have hserve : S.serve r token (k :: chain) s =
      (.answered k (S.refuse r k session s).1,
        Setting.save k (S.refuse r k session s).2.1 (S.refuse r k session s).2.2) := by
    rw [Setting.serve, if_neg (by rw [not_hasValidSession h]; decide), hsession]
  rw [hserve]
  obtain ⟨answer, hanswer, hrefuse⟩ | hrefuse := refuse_cases S r k session s
  · rw [hrefuse]
    refine .quiet (save_new hview).2 (by simp [Resaved, (save_new hview).1]) ?_ (by simp [h])
    rintro k' ⟨⟩
    exact hanswer rfl
  · obtain ⟨hcookies, hgrown⟩ := save_newSession S k s hview
    rw [hrefuse]
    dsimp only
    rw [hcookies]
    exact .verified [] rfl (by simp) h hgrown (by simp [Resaved]) (by simp)

theorem served_of_holds (hknown : Known S s) (h : s.Holds k token) (r : Request) (hk : k ∉ chain)
    (hserved : Served S s token chain (S.serve r token chain s).1 (S.serve r token chain s).2.1
      (S.serve r token chain s).2.2) :
    Served S s token (k :: chain) (S.serve r token (k :: chain) s).1
      (S.serve r token (k :: chain) s).2.1 (S.serve r token (k :: chain) s).2.2 := by
  obtain ⟨t, data, rfl, hlookup⟩ := id h
  have hvalid := hknown.hasValidSession hlookup
  have hview := M.view_load_found (S.site k).session (s.store k) t data hlookup
  have hserve : S.serve r (some t) (k :: chain) s =
      ((S.serve r (some t) chain s).1,
        (S.serve r (some t) chain s).2.1 ++ (Setting.save k
          (M.load (S.site k).session (s.store k) (some t)) (S.serve r (some t) chain s).2.2).1,
        (Setting.save k (M.load (S.site k).session (s.store k) (some t))
          (S.serve r (some t) chain s).2.2).2) := by
    rw [Setting.serve, if_pos hvalid]
  rw [hserve]
  generalize M.load (S.site k).session (s.store k) (some t) = session at hview
  have hresaved : ∀ s' : Stores M, M.lookup (s'.store k) t = some data →
      Resaved s (some t) (Setting.save k session s').1 := by
    intro s' hs' e he
    rw [(save_loaded hview hs').1] at he
    split at he
    · obtain rfl := List.mem_singleton.mp he
      exact ⟨rfl, h⟩
    · exact absurd he List.not_mem_nil
  generalize S.serve r (some t) chain s = served at hserved
  obtain ⟨outcome, cookies, s'⟩ := served
  cases hserved with
  | quiet hsame hcookies hanswer hpassed =>
    have hs' := (hsame.lookup k t).trans hlookup
    refine .quiet (hsame.trans (save_loaded hview hs').2) ?_ hanswer ?_
    · intro e he
      exact (List.mem_append.mp he).elim (hcookies e) (hresaved s' hs' e)
    · rw [hpassed, List.forall_mem_cons, and_iff_right h]
  | @verified outer j inner again _ hchain houter hj hgrown hagain hsilent =>
    have hne : k ≠ j := by
      rintro rfl
      exact hk (by simp [hchain])
    have hs' : M.lookup (s'.store k) t = some data := by
      rw [hgrown.lookup, if_neg (fun hsame => hne hsame.1), hlookup]
    refine .verified (k :: outer) (by rw [hchain]; rfl)
      (List.forall_mem_cons.mpr ⟨h, houter⟩) hj (hgrown.trans_same (save_loaded hview hs').2) ?_ ?_
    · intro e he
      exact (List.mem_append.mp he).elim (hagain e) (hresaved s' hs' e)
    · show again ++ (Setting.save k session s').1 = [] ↔ _
      rw [List.append_eq_nil_iff, hsilent, (save_loaded hview hs').1, List.forall_mem_cons]
      rw [and_comm]
      refine and_congr_left fun _ => ?_
      by_cases hidle : 0 < (S.site k).session.idleTimeout
      · simp [hidle]
      · simp [hidle, Int.not_lt.mp hidle]

theorem served (hknown : Known S s) (r : Request) (token : Option Token) (hnodup : chain.Nodup) :
    Served S s token chain (S.serve r token chain s).1 (S.serve r token chain s).2.1
      (S.serve r token chain s).2.2 := by
  induction chain with
  | nil =>
    refine .quiet ⟨rfl, fun _ _ => rfl⟩ (by simp [Setting.serve, Resaved]) ?_ ?_
    · rintro k ⟨⟩
    · simp [Setting.serve]
  | cons k chain ih =>
    obtain ⟨hk, hnodup⟩ := List.nodup_cons.mp hnodup
    by_cases h : s.Holds k token
    · exact served_of_holds hknown h r hk (ih hnodup)
    · exact served_of_not_holds h r chain

def attempt : Request where
  method := "POST"
  verifyQuery := "verify"
  accept := ""
  limited _ := false
  validCode _ := true

theorem serve_attempt (hknown : Known S s) {outer : List Which} {j : Which} (inner : List Which)
    (houter : ∀ k ∈ outer, s.Holds k token) (hj : ¬ s.Holds j token) :
    (S.serve attempt token (outer ++ j :: inner) s).1 =
      .answered j .redirectAfterVerification := by
  induction outer with
  | nil =>
    rw [List.nil_append, Setting.serve, if_neg (by rw [not_hasValidSession hj]; decide)]
    rfl
  | cons k outer ih =>
    obtain ⟨⟨t, data, rfl, hlookup⟩, houter⟩ := List.forall_mem_cons.mp houter
    rw [List.cons_append, Setting.serve, if_pos (hknown.hasValidSession hlookup)]
    exact ih houter

end

end Totp

end Torii.Middleware
