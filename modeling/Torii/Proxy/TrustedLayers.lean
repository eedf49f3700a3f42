import Torii.Proxy.Course
import Torii.Proxy.Lifecycle

/-!
# Trusted proxies at several layers

`wrapTrustedProxies` resolves the client address once per layer. The second pass starts from what
the first one answered. If that is no trusted proxy it stays. If it is one, the same header gives
the same host again, and the port survives the split and the join.
-/

namespace Torii.TrustedProxy

open Go Go.Http Go.Net

theorem answer_cases (m : Matcher) (remoteAddr port : String) (entries : List String) :
    answer m remoteAddr port entries = remoteAddr ∨
      ∃ client, ∀ addr port', answer m addr port' entries = joinHostPort client port' := by
  simp only [answer]
  cases rightmostClient m entries with
  | some client => exact .inr ⟨client, fun _ _ => rfl⟩
  | none =>
    by_cases hfirst : Strings.trimSpace (entries.headD "") = ""
    · exact .inl (if_neg (not_not_intro hfirst))
    · exact .inr ⟨_, fun _ _ => if_pos hfirst⟩

theorem resolve_resolve (m : Matcher) (req : Request) :
    m.resolve { req with remoteAddr := m.resolve req } = m.resolve req := by
  by_cases htrusted : ∃ port, RemoteTrusted m req.remoteAddr port
  · obtain ⟨port, htrusted⟩ := htrusted
    have hfirst := resolve_of_remoteTrusted m req htrusted
    by_cases hagain : ∃ port', RemoteTrusted m (m.resolve req) port'
    · obtain ⟨port', hagain⟩ := hagain
      have hsecond := resolve_of_remoteTrusted m { req with remoteAddr := m.resolve req } hagain
      obtain hpeer | ⟨client, hclient⟩ := answer_cases m req.remoteAddr port
        (Strings.split (req.header.get m.header) ',')
      · rw [hfirst, hpeer, hfirst, hpeer]
      · rw [hclient] at hfirst
        rw [hclient] at hsecond
        obtain ⟨host, -, hsplit, -, -⟩ := htrusted
        obtain ⟨host', -, hsplit', -, -⟩ := hagain
        rw [hfirst] at hsplit'
        rw [hsecond, hfirst, port_of_splitHostPort_join hsplit hsplit']
    · exact resolve_of_not_remoteTrusted m _ fun port' h => hagain ⟨port', h⟩
  · have hself := resolve_of_not_remoteTrusted m req fun port h => htrusted ⟨port, h⟩
    rw [hself, hself]

theorem resolve_congr (m : Matcher) {req req' : Request} (haddr : req'.remoteAddr = req.remoteAddr)
    (hheader : req'.header.get m.header = req.header.get m.header) :
    m.resolve req' = m.resolve req := by
  simp only [Matcher.resolve, haddr, hheader]

end Torii.TrustedProxy

namespace Torii.Proxy

open Go Go.Http Torii.Middleware Torii.TrustedProxy

/-- A layer that hands on only requests with the address and the forwarding header that it
was given. -/
def KeepsForwarding (header : String) (wrap : Handler → Handler) : Prop :=
  ∀ (next next' : Handler) (r : Inbound),
    (∀ r' : Inbound, r'.remoteAddr = r.remoteAddr →
      r'.header.get header = r.header.get header → next r' = next' r') → wrap next r = wrap next' r

theorem Layered.keepsForwarding {wrap : Handler → Handler} {pass : Request → Option Request}
    {entries : List (BuildContext × String)} (h : Layered wrap pass entries) {header : String}
    (hpass : ∀ request request', pass request = some request' →
      request'.remoteAddr = request.remoteAddr ∧
        request'.header.get header = request.header.get header) : KeepsForwarding header wrap := by
  intro next next' r hnext
  apply h.calls
  intro request hrequest
  obtain ⟨haddr, hheader⟩ := hpass _ _ hrequest
  exact hnext _ haddr hheader

section

variable (env : Env) (cfg : TrustedProxiesConfig)

theorem arrival_cases :
    (∀ request, arrival env (some cfg) request = request) ∨
      ∃ resolver, env.newTrustedProxyResolver cfg = .ok resolver ∧
        ∀ request, arrival env (some cfg) request =
          { request with remoteAddr := resolver.resolve request } := by
  simp only [arrival]
  split
  · exact .inl fun _ => rfl
  · cases hresolver : env.newTrustedProxyResolver cfg with
    | error e => exact .inl fun _ => rfl
    | ok resolver => exact .inr ⟨resolver, rfl, fun _ => rfl⟩

theorem wrapTrustedProxies_wrap {wrap : Handler → Handler} (handler : Handler)
    (hwrap : ∀ resolver, env.newTrustedProxyResolver cfg = .ok resolver →
      KeepsForwarding resolver.header wrap) :
    wrapTrustedProxies env (wrap (wrapTrustedProxies env handler (some cfg))) (some cfg) =
      wrapTrustedProxies env (wrap handler) (some cfg) := by
  funext r
  rw [wrapTrustedProxies_eq, wrapTrustedProxies_eq]
  obtain hnone | ⟨resolver, hresolver, harrival⟩ := arrival_cases env cfg
  · have hinner : wrapTrustedProxies env handler (some cfg) = handler := by
      funext r'
      rw [wrapTrustedProxies_eq, hnone]
      rfl
    rw [hinner]
  · apply hwrap resolver hresolver
    intro r' haddr hheader
    rw [harrival] at haddr hheader
    have hresolved : resolver.resolve r'.toRequest = r'.remoteAddr := by
      rw [resolve_congr resolver haddr hheader, haddr]
      exact resolve_resolve resolver r.toRequest
    rw [wrapTrustedProxies_eq, harrival, hresolved]
    rfl

/-- Resolving is idempotent. So three nested `WrapHandler`s of one matcher hand on what one
of them does, with the same `ClientIP`, and the same trusted proxies configured at the
global, the route and the path layer serve every request as if configured once, in front of
all middlewares, provided the middlewares in between leave the address and the forwarding
header alone. -/
theorem trustedProxies_once (m : Matcher) (req : Request) :
    m.resolve { req with remoteAddr := m.resolve req } = m.resolve req ∧
      (∀ {α : Type} (next : Request → String → α),
        m.wrapHandler (fun r _ => m.wrapHandler (fun r _ => m.wrapHandler next r) r) req =
          m.wrapHandler next req) ∧
      ∀ (global route : Handler → Handler) (handler : Handler),
        (∀ resolver, env.newTrustedProxyResolver cfg = .ok resolver →
          KeepsForwarding resolver.header global ∧ KeepsForwarding resolver.header route) →
        wrapTrustedProxies env (global (wrapTrustedProxies env
            (route (wrapTrustedProxies env handler (some cfg))) (some cfg))) (some cfg) =
          wrapTrustedProxies env (global (route handler)) (some cfg) := by
  refine ⟨resolve_resolve m req, ?_, ?_⟩
  · intro α next
    simp only [Matcher.wrapHandler_eq, resolve_resolve]
  · intro global route handler hkeeps
    rw [wrapTrustedProxies_wrap env cfg _ fun resolver h => (hkeeps resolver h).1]
    have hboth : ∀ resolver, env.newTrustedProxyResolver cfg = .ok resolver →
        KeepsForwarding resolver.header fun next => global (route next) := by
      intro resolver hresolver next next' r hnext
      obtain ⟨hglobal, hroute⟩ := hkeeps resolver hresolver
      apply hglobal
      intro r₁ haddr₁ hheader₁
      apply hroute
      intro r₂ haddr₂ hheader₂
      exact hnext r₂ (haddr₂.trans haddr₁) (hheader₂.trans hheader₁)
    exact wrapTrustedProxies_wrap env cfg handler hboth

end

def lanMatcher : Matcher := ⟨some (buildTrieTree ["10.0.0.0/8"]), "X-Forwarded-For"⟩

def lanEnv : Env := { smallEnv with newTrustedProxyResolver := fun _ => .ok lanMatcher }

def lanLayer (ctx : BuildContext) (next : Handler) : Handler :=
  fun r => .entered ctx "Headers" :: otherMiddleware lanEnv.toEnv ctx ⟨"Headers", none⟩ next r

/-- A request through two trusted hops, with the private network configured three times. -/
theorem trustedProxies_once_lan :
    lanMatcher.resolve (sampleRequest lanMatcher ["203.0.113.7, 10.0.0.2"]) = "203.0.113.7:4711" ∧
      lanMatcher.resolve { sampleRequest lanMatcher ["203.0.113.7, 10.0.0.2"] with
        remoteAddr := "203.0.113.7:4711" } = "203.0.113.7:4711" ∧
      ∀ (ctx ctx' : BuildContext) (handler : Handler) (cfg : TrustedProxiesConfig),
        wrapTrustedProxies lanEnv (lanLayer ctx (wrapTrustedProxies lanEnv
            (lanLayer ctx' (wrapTrustedProxies lanEnv handler (some cfg))) (some cfg)))
            (some cfg) =
          wrapTrustedProxies lanEnv (lanLayer ctx (lanLayer ctx' handler)) (some cfg) := by
  have hresolve : lanMatcher.resolve (sampleRequest lanMatcher ["203.0.113.7, 10.0.0.2"]) =
      "203.0.113.7:4711" := by decide +kernel
  have hkeeps : ∀ header ctx, KeepsForwarding header (lanLayer ctx) := by
    intro header ctx
    apply (layered_other lanEnv.toEnv ctx ⟨"Headers", none⟩).keepsForwarding
    intro request request' hpass
    cases hpass
    exact ⟨rfl, rfl⟩
  refine ⟨hresolve, ?_, ?_⟩
  · rw [← hresolve]
    exact (trustedProxies_once lanEnv {} lanMatcher _).1
  · intro ctx ctx' handler cfg
    exact (trustedProxies_once lanEnv cfg lanMatcher
      (sampleRequest lanMatcher ["203.0.113.7, 10.0.0.2"])).2.2 _ _ handler
      fun resolver _ => ⟨hkeeps resolver.header ctx, hkeeps resolver.header ctx'⟩

end Torii.Proxy
