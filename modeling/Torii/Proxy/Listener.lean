import Torii.Proxy.Dispatch

/-!
# Listener configurations

The whole of `config.HTTPListener`, the default timeouts of `proxy/config.go` and the comparison
that `HotSwapHandler` makes with `reflect.DeepEqual`. A nil slice is an empty list here, and nil
options behave as an empty map. Only `DeepEqual` tells nil from empty; its verdict on that is an
argument of `unchanged`.
-/

namespace Torii.Proxy

open Go Torii.Middleware

structure TLSConfig where
  useAcme : Bool := false
  cert : String := ""
  key : String := ""
deriving DecidableEq

structure Timeouts where
  readTimeout : Int := 0
  readHeaderTimeout : Int := 0
  writeTimeout : Int := 0
  idleTimeout : Int := 0
deriving DecidableEq

/-- `config.HTTPListener`. -/
structure Listener extends HTTPListener, Timeouts where
  bind : UInt8
  interface : String := ""
  tls : Option TLSConfig := none
  disableHTTP2 : Bool := false

def ipv4Flag : UInt8 := 1

def ipv6Flag : UInt8 := 2

def second : Int := 1000000000

def defaultTimeouts : Timeouts where
  readTimeout := 30 * second
  readHeaderTimeout := 10 * second
  writeTimeout := 30 * second
  idleTimeout := 120 * second

def orDefault (timeout byDefault : Int) : Int := if timeout = 0 then byDefault else timeout

/-- `applyDefaultTimeouts`, on the timeouts alone. -/
def Timeouts.withDefaults (t : Timeouts) : Timeouts where
  readTimeout := orDefault t.readTimeout defaultTimeouts.readTimeout
  readHeaderTimeout := orDefault t.readHeaderTimeout defaultTimeouts.readHeaderTimeout
  writeTimeout := orDefault t.writeTimeout defaultTimeouts.writeTimeout
  idleTimeout := orDefault t.idleTimeout defaultTimeouts.idleTimeout

def applyDefaultTimeouts (conf : Listener) : Listener :=
  { conf with toTimeouts := conf.toTimeouts.withDefaults }

def Timeouts.Given (t : Timeouts) : Prop :=
  t.readTimeout ≠ 0 ∧ t.readHeaderTimeout ≠ 0 ∧ t.writeTimeout ≠ 0 ∧ t.idleTimeout ≠ 0

instance (t : Timeouts) : Decidable t.Given :=
  inferInstanceAs (Decidable (_ ∧ _ ∧ _ ∧ _))

theorem orDefault_ne_zero {timeout byDefault : Int} (h : byDefault ≠ 0) :
    orDefault timeout byDefault ≠ 0 := by
  rw [orDefault]
  split
  · exact h
  · next hne => exact hne

theorem orDefault_eq_self {timeout byDefault : Int} (h : byDefault ≠ 0) :
    orDefault timeout byDefault = timeout ↔ timeout ≠ 0 := by
  rw [orDefault]
  split
  · next hzero =>
    rw [hzero]
    exact ⟨fun heq => absurd heq h, fun hne => absurd rfl hne⟩
  · next hne => exact ⟨fun _ => hne, fun _ => rfl⟩

theorem Timeouts.given_withDefaults (t : Timeouts) : t.withDefaults.Given :=
  ⟨orDefault_ne_zero (by decide), orDefault_ne_zero (by decide), orDefault_ne_zero (by decide),
    orDefault_ne_zero (by decide)⟩

theorem Timeouts.withDefaults_eq_self_iff (t : Timeouts) : t.withDefaults = t ↔ t.Given := by
  cases t with
  | mk =>
    rw [withDefaults, mk.injEq, orDefault_eq_self (by decide), orDefault_eq_self (by decide),
      orDefault_eq_self (by decide), orDefault_eq_self (by decide)]
    rfl

theorem applyDefaultTimeouts_of_given {conf : Listener} (h : conf.toTimeouts.Given) :
    applyDefaultTimeouts conf = conf := by
  rw [applyDefaultTimeouts, conf.toTimeouts.withDefaults_eq_self_iff.mpr h]

/-! ## Comparison of configurations -/

def sameList {α : Type} (same : α → α → Bool) : List α → List α → Bool
  | [], [] => true
  | x :: xs, y :: ys => same x y && sameList same xs ys
  | _, _ => false

def sameOptions (a b : GoMap String OptionValue) : Bool :=
  (a.entries.map fun e => (e.1, e.2)).isPerm (b.entries.map fun e => (e.1, e.2))

def sameConfig (a b : Config) : Bool :=
  a.type == b.type && sameOptions (a.options.getD ∅) (b.options.getD ∅)

def samePathRule (a b : PathRule) : Bool :=
  a.pattern == b.pattern && a.backend == b.backend && a.dropQuery == b.dropQuery &&
    a.stripPrefix == b.stripPrefix &&
    sameList sameConfig a.middlewares.configs b.middlewares.configs &&
    a.disableDefaults == b.disableDefaults && a.trustedProxies == b.trustedProxies

def sameTarget (a b : RouteTarget) : Bool :=
  a.backend == b.backend && sameList sameConfig a.middlewares.configs b.middlewares.configs &&
    sameList samePathRule a.paths b.paths && a.disableDefaults == b.disableDefaults &&
    a.trustedProxies == b.trustedProxies

def sameRoute (a b : Route) : Bool := a.host == b.host && sameTarget a.target b.target

def sameDefault : Option RouteTarget → Option RouteTarget → Bool
  | none, none => true
  | some a, some b => sameTarget a b
  | _, _ => false

/-- Two configurations are equal, where nil is the same as empty. -/
def sameListener (a b : Listener) : Bool :=
  a.port == b.port && a.bind == b.bind && a.interface == b.interface && a.tls == b.tls &&
    a.disableHTTP2 == b.disableHTTP2 && a.toTimeouts == b.toTimeouts &&
    sameList sameRoute a.routes b.routes && sameDefault a.default_ b.default_

/-- `reflect.DeepEqual(currentConfig, conf)`, where `sameNils` says whether nil and empty
stand in the same places. -/
def unchanged (sameNils : Bool) (currentConfig conf : Listener) : Bool :=
  sameNils && sameListener currentConfig conf

theorem sameList_refl {α : Type} {same : α → α → Bool} (h : ∀ x, same x x = true)
    (xs : List α) : sameList same xs xs = true := by
  induction xs with
  | nil => rfl
  | cons x xs ih => rw [sameList, h x, ih, Bool.and_self]

theorem sameConfig_refl (conf : Config) : sameConfig conf conf = true := by
  rw [sameConfig, beq_self_eq_true, Bool.true_and]
  exact List.isPerm_iff.mpr (.refl _)

theorem samePathRule_refl (rule : PathRule) : samePathRule rule rule = true := by
  simp [samePathRule, sameList_refl sameConfig_refl]

theorem sameTarget_refl (target : RouteTarget) : sameTarget target target = true := by
  simp [sameTarget, sameList_refl sameConfig_refl, sameList_refl samePathRule_refl]

theorem sameListener_refl (conf : Listener) : sameListener conf conf = true := by
  have hroutes : sameList sameRoute conf.routes conf.routes = true :=
    sameList_refl (fun route => by simp [sameRoute, sameTarget_refl]) _
  have hdefault : sameDefault conf.default_ conf.default_ = true := by
    cases conf.default_ with
    | none => rfl
    | some target => exact sameTarget_refl target
  simp [sameListener, hroutes, hdefault]

end Torii.Proxy
