import Mathlib.Data.Rat.Floor
import Torii.Go.Netip
import Torii.Lib.TokenBucket
import Torii.Metrics.Names
import Torii.Util.Cache

/-!
# The rate limiter

`internal/ratelimit/limiter.go`. A `rate.Limiter` is an exact token bucket over rational time. An
entry of the client cache points to its limiter, so the limiters live in a heap: a limiter outlives
the entry that led to it. `allowClient` is cut into its three operations on shared memory, each with
a reading of the clock.
-/

namespace Torii.Ratelimit

open Go Strconv Torii.Util Torii.Metrics

/-! ## Limiters -/

def seconds (t : Nat) : ℚ := t / Time.second

theorem seconds_mono {t t' : Nat} (h : t ≤ t') : seconds t ≤ seconds t' :=
  div_le_div_of_nonneg_right (Nat.cast_le.mpr h) (Nat.cast_nonneg _)

structure RateLimiter where
  limit : ℚ
  burst : Int
  bucket : TokenBucket ℚ

def newLimiter (limit : ℚ) (burst : Int) : RateLimiter := ⟨limit, burst, .full burst⟩

def RateLimiter.allow (lim : RateLimiter) (now : Nat) : Bool × RateLimiter :=
  let next := lim.bucket.allow lim.limit lim.burst (seconds now)
  (next.1, { lim with bucket := next.2 })

/-- `clientEntry`: the address of the limiter, and the time of the last use. -/
structure ClientEntry where
  limiter : Nat
  lastSeen : Nat

instance : EvictableEntry ClientEntry where
  touch now entry := { entry with lastSeen := now }
  getLastReadAt entry := entry.lastSeen
  getLastReadAt_touch _ _ := rfl

structure Clients where
  cache : Cache ClientEntry
  limiters : Nat → RateLimiter
  allocated : Nat

/-- `Limiter`; what it holds in memory is apart. -/
structure Limiter where
  ratePerSecond : ℚ
  burst : Int
  retryAfter : String
  reasonPrefix : String
  rate_pos : 0 < ratePerSecond
  burst_pos : 0 < burst

/-- `globalLimiter` or `clientCache`, depending on the mode. -/
inductive Memory where
  | global (globalLimiter : RateLimiter)
  | perClient (clientCache : Clients)

/-! ## New -/

inductive Mode where
  | global
  | perClient
deriving DecidableEq

/-- What a `Limiter` reads of `util.CacheOptions`. -/
structure CacheOptions where
  maxEntries : Int
  ttl : Nat

structure Config where
  mode : String
  ratePerSecond : ℚ
  burst : Int
  cacheOptions : Option CacheOptions
  reasonPrefix : String

inductive NewError where
  | rate (got : ℚ)
  | burst (got : Int)
  | mode (got : String)
  | noCacheOptions
deriving DecidableEq

/-- The text of the error, with the formats `%f` and `%q`. -/
def NewError.message (formatF : ℚ → String) (quote : String → String) : NewError → String
  | .rate got => "rate-per-second must be positive, got " ++ formatF got
  | .burst got => "burst must be positive, got " ++ itoa got
  | .mode got => "invalid rate limit mode " ++ quote got
  | .noCacheOptions => "cache options are required for per-client rate limiting"

/-- `strings.EqualFold` with a word that has no letter with a fold outside ASCII. -/
def equalFold (s word : String) : Bool := s.toList.map Char.toLower = word.toList

def normalizeMode (mode : String) : Except NewError Mode :=
  if mode = "" then .ok .global
  else if equalFold mode "global" then .ok .global
  else if equalFold mode "per-client" then .ok .perClient
  else .error (.mode mode)

def computeRetryAfter (ratePerSecond : ℚ) : String :=
  if ratePerSecond ≤ 0 then "1" else itoa (max ⌈1 / ratePerSecond⌉ 1)

def Clients.empty (options : CacheOptions) : Clients where
  cache := ⟨options.maxEntries, options.ttl, ∅⟩
  limiters _ := newLimiter 0 0
  allocated := 0

def new (conf : Config) : Except NewError (Limiter × Memory) :=
  if hrate : conf.ratePerSecond ≤ 0 then .error (.rate conf.ratePerSecond)
  else if hburst : conf.burst ≤ 0 then .error (.burst conf.burst)
  else
    let l : Limiter :=
      { ratePerSecond := conf.ratePerSecond
        burst := conf.burst
        retryAfter := computeRetryAfter conf.ratePerSecond
        reasonPrefix := if conf.reasonPrefix = "" then "rate limit" else conf.reasonPrefix
        rate_pos := not_le.mp hrate
        burst_pos := not_le.mp hburst }
    match normalizeMode conf.mode with
    | .error err => .error err
    | .ok .global => .ok (l, .global (newLimiter conf.ratePerSecond conf.burst))
    | .ok .perClient =>
      match conf.cacheOptions with
      | none => .error .noCacheOptions
      | some options => .ok (l, .perClient (.empty options))

/-! ## Allow -/

inductive ClientIPError where
  | remoteAddr (addr : String)
  | invalidIP (ip : String)
deriving DecidableEq

def isIP (ip : String) : Bool :=
  match Netip.parseAddr ip with
  | none => false
  | some (.v4 _) => true
  | some (.v6 _ zone) => zone = ""

def getClientIP (remoteAddr : String) : Except ClientIPError String :=
  match Net.splitHostPort remoteAddr with
  | none => .error (.remoteAddr remoteAddr)
  | some (ip, _) => if isIP ip then .ok ip else .error (.invalidIP ip)

structure Decision where
  allowed : Bool
  retryAfter : String := ""
  key : String := ""
  reason : String := ""
  err : Option ClientIPError := none
deriving DecidableEq

namespace Clients

/-- `l.clientCache.GetValue(clientIP)`; the result is the address of the limiter. -/
def getEntry (c : Clients) (now : Nat) (ip : String) : Option Nat × Clients :=
  let found := c.cache.getValue now ip
  (found.1.map ClientEntry.limiter, { c with cache := found.2 })

def newEntry (l : Limiter) (c : Clients) (now : Nat) (order : List String) (ip : String) :
    Nat × Clients :=
  (c.allocated,
    { cache := c.cache.cacheValue now order ip ⟨c.allocated, 0⟩
      limiters := Function.update c.limiters c.allocated (newLimiter l.ratePerSecond l.burst)
      allocated := c.allocated + 1 })

def check (c : Clients) (now : Nat) (address : Nat) : Bool × Clients :=
  let next := (c.limiters address).allow now
  (next.1, { c with limiters := Function.update c.limiters address next.2 })

end Clients

/-- A call of `Allow` on a request, with the readings of the clock on its way and the order in
which `evictOldest` may range over the cache. -/
structure Call where
  remoteAddr : String
  looked : Nat
  cached : Nat
  checked : Nat
  order : List String := []

section

variable (formatG : ℚ → String) (l : Limiter)

def Limiter.clientDecision (ip : String) (allowed : Bool) (limit : ℚ) : Decision :=
  if allowed then { allowed := true, key := ip }
  else
    { allowed := false
      retryAfter := l.retryAfter
      key := ip
      reason := l.reasonPrefix ++ " of " ++ formatG limit ++ " req/s exceeded" }

/-- The decision for a request without a client address. -/
def Limiter.noClient (err : ClientIPError) : Decision where
  allowed := false
  retryAfter := l.retryAfter
  reason := "failed to extract client IP for " ++ l.reasonPrefix
  err := some err

def Limiter.allowGlobal (lim : RateLimiter) (now : Nat) : Decision × RateLimiter :=
  let next := lim.allow now
  if next.1 then ({ allowed := true }, next.2)
  else
    ({ allowed := false
       retryAfter := l.retryAfter
       reason := "global " ++ l.reasonPrefix ++ " of " ++ formatG lim.limit ++
         " req/s exceeded" }, next.2)

/-- The entry of `allowClient`. `GetValue` has no other error than a miss. -/
def Limiter.entryFor (c : Clients) (call : Call) (ip : String) : Nat × Clients :=
  let found := c.getEntry call.looked ip
  match found.1 with
  | some address => (address, found.2)
  | none => found.2.newEntry l call.cached call.order ip

def Limiter.allowClient (c : Clients) (call : Call) : Decision × Clients :=
  match getClientIP call.remoteAddr with
  | .error err => (l.noClient err, c)
  | .ok ip =>
    let entry := l.entryFor c call ip
    let checked := entry.2.check call.checked entry.1
    (l.clientDecision formatG ip checked.1 (entry.2.limiters entry.1).limit, checked.2)

def Limiter.allow (memory : Memory) (call : Call) : Decision × Memory :=
  match memory with
  | .global lim =>
    let next := l.allowGlobal formatG lim call.checked
    (next.1, .global next.2)
  | .perClient c =>
    let next := l.allowClient formatG c call
    (next.1, .perClient next.2)

end

/-! ## Entries -/

namespace Clients

def addressOf (c : Clients) (ip : String) : Option Nat :=
  (c.cache.cache.lookup ip).map ClientEntry.limiter

variable {c : Clients} {now : Nat} {ip ip' : String} {address : Nat}

/-- What is found after `GetValue` was there before. -/
theorem addressOf_getEntry (h : (c.getEntry now ip').2.addressOf ip = some address) :
    c.addressOf ip = some address := by
  obtain ⟨entry, hentry, rfl⟩ := Option.map_eq_some_iff.mp h
  rcases Cache.lookup_getValue hentry with ⟨rfl, old, hold, -, rfl⟩ | ⟨-, hold⟩
  · rw [addressOf, hold]
    rfl
  · rw [addressOf, hold]
    rfl

theorem addressOf_of_getEntry_some (h : (c.getEntry now ip).1 = some address) :
    c.addressOf ip = some address := by
  obtain ⟨entry, hentry, rfl⟩ := Option.map_eq_some_iff.mp h
  obtain ⟨old, hold, -, rfl⟩ := Cache.getValue_fst_eq_some.mp hentry
  rw [addressOf, hold]
  rfl

theorem addressOf_of_getEntry_none (h : (c.getEntry now ip).1 = none) :
    (c.getEntry now ip).2.addressOf ip = none := by
  have hmiss : (c.cache.getValue now ip).1 = none := by simpa [getEntry] using h
  rw [addressOf, Option.map_eq_none_iff]
  by_contra hsome
  obtain ⟨entry, hentry⟩ := Option.ne_none_iff_exists'.mp hsome
  rcases Cache.lookup_getValue hentry with ⟨-, old, hold, hfresh, rfl⟩ | ⟨hne, -⟩
  · have := Cache.getValue_fst_eq_some.mpr ⟨old, hold, hfresh, rfl⟩
    exact absurd (hmiss.symm.trans this) (by simp)
  · exact hne rfl

theorem addressOf_newEntry {l : Limiter} {order : List String}
    (h : (c.newEntry l now order ip').2.addressOf ip = some address) :
    ip = ip' ∧ address = c.allocated ∨ ip ≠ ip' ∧ c.addressOf ip = some address := by
  obtain ⟨entry, hentry, rfl⟩ := Option.map_eq_some_iff.mp h
  rcases Cache.lookup_cacheValue hentry with ⟨hip, rfl⟩ | ⟨hip, hold⟩
  · exact .inl ⟨hip, rfl⟩
  · refine .inr ⟨hip, ?_⟩
    rw [addressOf, hold]
    rfl

@[simp] theorem addressOf_newEntry_self (l : Limiter) (order : List String) :
    (c.newEntry l now order ip).2.addressOf ip = some c.allocated := by
  simp [addressOf, newEntry, Cache.cacheValue, EvictableEntry.touch]

end Clients

end Torii.Ratelimit
