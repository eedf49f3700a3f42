import Mathlib.Algebra.Group.Nat.Defs
import Torii.Go.Map

/-!
# The middleware registry

The table of `middleware/middleware.go` and the completion of a configured list by the missing
defaults, in front and in their fixed order. Of an entry the builders only read whether the
middleware ends the handling of a request.
-/

namespace Torii.Middleware

open Go

/-- A value in the options of a middleware. The numbers of JSON are floats, which are finite
there; a nested map is its bindings in the order of the keys. -/
inductive OptionValue where
  | null
  | bool (b : Bool)
  | int (n : Int)
  | float (x : Rat)
  | string (s : String)
  | list (values : List OptionValue)
  | map (fields : List (String × OptionValue))

mutual

def OptionValue.same : OptionValue → OptionValue → Bool
  | .null, .null => true
  | .bool a, .bool b => a == b
  | .int a, .int b => a == b
  | .float a, .float b => a == b
  | .string a, .string b => a == b
  | .list as, .list bs => sameValues as bs
  | .map as, .map bs => sameFields as bs
  | _, _ => false

def sameValues : List OptionValue → List OptionValue → Bool
  | [], [] => true
  | a :: as, b :: bs => a.same b && sameValues as bs
  | _, _ => false

def sameFields : List (String × OptionValue) → List (String × OptionValue) → Bool
  | [], [] => true
  | (key, a) :: as, (key', b) :: bs => key == key' && a.same b && sameFields as bs
  | _, _ => false

end

mutual

theorem OptionValue.same_iff (a b : OptionValue) : a.same b = true ↔ a = b := by
  cases a with
  | null | bool | int | float | string => cases b <;> simp [OptionValue.same]
  | list as =>
    cases b with
    | list bs =>
      rw [OptionValue.same, sameValues_iff as bs, OptionValue.list.injEq]
    | _ => simp [OptionValue.same]
  | map as =>
    cases b with
    | map bs =>
      rw [OptionValue.same, sameFields_iff as bs, OptionValue.map.injEq]
    | _ => simp [OptionValue.same]

theorem sameValues_iff (as bs : List OptionValue) : sameValues as bs = true ↔ as = bs := by
  cases as with
  | nil => cases bs <;> simp [sameValues]
  | cons a as =>
    cases bs with
    | nil => simp [sameValues]
    | cons b bs =>
      rw [sameValues, Bool.and_eq_true, OptionValue.same_iff a b, sameValues_iff as bs,
        List.cons.injEq]

theorem sameFields_iff (as bs : List (String × OptionValue)) :
    sameFields as bs = true ↔ as = bs := by
  cases as with
  | nil => cases bs <;> simp [sameFields]
  | cons a as =>
    cases bs with
    | nil => simp [sameFields]
    | cons b bs =>
      obtain ⟨key, a⟩ := a
      obtain ⟨key', b⟩ := b
      rw [sameFields, Bool.and_eq_true, Bool.and_eq_true, beq_iff_eq, OptionValue.same_iff a b,
        sameFields_iff as bs, List.cons.injEq, Prod.mk.injEq]

end

instance : DecidableEq OptionValue := fun a b => decidable_of_iff _ (OptionValue.same_iff a b)

structure Config where
  type : String
  options : Option (GoMap String OptionValue) := none

/-- `[]Config` as a slice in memory: an element takes 24 bytes and an allocation less than
`2 ^ 63`, so that sums of such lengths fit into 64 bits. -/
structure ConfigSlice where
  configs : List Config
  length_lt : configs.length < 2 ^ 59 := by decide

def ConfigSlice.empty : ConfigSlice where
  configs := []

/-- `RegistryEntry`, without its function. -/
structure RegistryEntry where
  terminates : Bool := false

def registry : List (String × RegistryEntry) :=
  [("Metrics", {}), ("RequestId", {}), ("RequestLog", {}), ("Headers", {}), ("RateLimiter", {}),
    ("CountryBlock", {}), ("IpFilter", {}), ("Redirect", { terminates := true }),
    ("BodySizeLimit", {}), ("Timeout", {}), ("HoneyPot", {}), ("UserAgentBlocker", {}),
    ("CircuitBreaker", {}), ("Cors", {}), ("StaticResponse", { terminates := true }),
    ("StaticFileServer", { terminates := true }), ("Compression", {}), ("BasicAuth", {}),
    ("TOTP", {}), ("CorazaWaf", {})]

inductive RegistryError where
  | emptyKey
  | notFound
deriving DecidableEq

def RegistryError.message : RegistryError → String
  | .emptyKey => "middleware key cannot be empty"
  | .notFound => "middleware not found"

def getMiddleware (key : String) : Except RegistryError RegistryEntry :=
  if key = "" then .error .emptyKey
  else
    match registry.lookup key with
    | none => .error .notFound
    | some entry => .ok entry

def hasTerminatingMiddleware (middlewares : List Config) : Bool :=
  middlewares.any fun m => ((registry.lookup m.type).map RegistryEntry.terminates).getD false

/-- `defaultMiddlewareOrder`; the keys of `defaultMiddlewares` are the same names. -/
def defaultMiddlewareOrder : List String := ["RequestId", "RequestLog", "Metrics"]

def presentDefaults (middlewares : List Config) : GoMap String Unit :=
  middlewares.foldl (fun present v =>
    if v.type ∈ defaultMiddlewareOrder then present.insert v.type () else present) ∅

def applyDefaultMiddlewares (middlewares : List Config) : List Config :=
  let present := presentDefaults middlewares
  if present.len = defaultMiddlewareOrder.length then middlewares
  else
    let missing := (defaultMiddlewareOrder.filter fun name => ! decide (name ∈ present)).map
      fun name => ({ type := name } : Config)
    if missing = [] then middlewares else missing ++ middlewares

variable (middlewares : List Config)

theorem mem_presentDefaults (name : String) :
    name ∈ presentDefaults middlewares ↔
      name ∈ defaultMiddlewareOrder ∧ ∃ v ∈ middlewares, v.type = name := by
  induction middlewares using List.reverseRecOn with
  | nil => simp [presentDefaults]
  | append_singleton middlewares v ih =>
    rw [presentDefaults, List.foldl_append, List.foldl_cons, List.foldl_nil]
    change name ∈ (if _ then (presentDefaults middlewares).insert v.type () else
      presentDefaults middlewares) ↔ _
    have hlast : (name ∈ defaultMiddlewareOrder ∧ ∃ w ∈ middlewares ++ [v], w.type = name) ↔
        name ∈ presentDefaults middlewares ∨ name ∈ defaultMiddlewareOrder ∧ v.type = name := by
      simp [ih, or_and_right, exists_or, and_or_left]
    rw [hlast]
    split
    · rw [AList.mem_insert]
      grind
    · grind

/-- All defaults are present once their number is reached. -/
theorem mem_presentDefaults_of_len {middlewares : List Config}
    (hlen : (presentDefaults middlewares).len = defaultMiddlewareOrder.length) {name : String}
    (hname : name ∈ defaultMiddlewareOrder) : name ∈ presentDefaults middlewares := by
  have hsub : (presentDefaults middlewares).keys ⊆ defaultMiddlewareOrder := by
    intro key hkey
    exact ((mem_presentDefaults middlewares key).mp hkey).1
  have hperm : (presentDefaults middlewares).keys.Perm defaultMiddlewareOrder := by
    apply (List.subperm_of_subset (presentDefaults middlewares).keys_nodup hsub).perm_of_length_le
    rw [← hlen, GoMap.len, AList.keys, List.keys, List.length_map]
  exact hperm.mem_iff.mpr hname

def missingDefaults (middlewares : List Config) : List String :=
  defaultMiddlewareOrder.filter fun name => ∀ v ∈ middlewares, v.type ≠ name

theorem applyDefaultMiddlewares_eq :
    applyDefaultMiddlewares middlewares =
      (missingDefaults middlewares).map (fun name => { type := name }) ++ middlewares := by
  have hmissing : (defaultMiddlewareOrder.filter
      fun name => ! decide (name ∈ presentDefaults middlewares)) = missingDefaults middlewares := by
    apply List.filter_congr
    intro name hname
    rw [Bool.eq_iff_iff]
    simp [mem_presentDefaults, hname]
  simp only [applyDefaultMiddlewares, hmissing]
  split
  · next hlen =>
    rw [← hmissing, List.filter_eq_nil_iff.mpr]
    · rfl
    · intro name hname
      simp [mem_presentDefaults_of_len hlen hname]
  · split
    · next hnil => rw [hnil, List.nil_append]
    · rfl

def effective (middlewares : List Config) (disableDefaults : Bool) : List Config :=
  if disableDefaults then middlewares else applyDefaultMiddlewares middlewares

theorem countP_metrics_effective (disableDefaults : Bool) :
    (effective middlewares disableDefaults).countP (·.type = "Metrics") =
      if disableDefaults then middlewares.countP (·.type = "Metrics")
      else max 1 (middlewares.countP (·.type = "Metrics")) := by
  cases disableDefaults with
  | true => rfl
  | false =>
    have hcount : (effective middlewares false).countP (·.type = "Metrics") =
        (missingDefaults middlewares).count "Metrics" +
          middlewares.countP (·.type = "Metrics") := by
      simp only [effective, Bool.false_eq_true, if_false, applyDefaultMiddlewares_eq,
        List.countP_append, List.countP_map]
      rfl
    rw [hcount]
    by_cases hpresent : ∃ v ∈ middlewares, v.type = "Metrics"
    · have hpos : 0 < middlewares.countP (·.type = "Metrics") := by
        rw [List.countP_pos_iff]
        simpa using hpresent
      have hnone : (missingDefaults middlewares).count "Metrics" = 0 := by
        obtain ⟨v, hv, htype⟩ := hpresent
        rw [List.count_eq_zero]
        intro hmem
        simp only [missingDefaults, List.mem_filter, decide_eq_true_eq] at hmem
        exact hmem.2 v hv htype
      rw [hnone, if_neg (by decide)]
      omega
    · have habsent : ∀ v ∈ middlewares, v.type ≠ "Metrics" :=
        fun v hv htype => hpresent ⟨v, hv, htype⟩
      have hzero : middlewares.countP (·.type = "Metrics") = 0 := by
        rw [List.countP_eq_zero]
        simpa using habsent
      have hone : (missingDefaults middlewares).count "Metrics" = 1 := by
        rw [missingDefaults, List.count_filter]
        · decide
        · exact decide_eq_true habsent
      rw [hzero, hone]
      rfl

end Torii.Middleware
