import Torii.Lib.Threads
import Torii.Ratelimit.Limiter

/-!
# The rate of one client under concurrency

Requests of any clients run `allowClient` at the same time; time passes, the cache is swept and
clients are reset in between. Two requests of a client that both miss before one of them has stored
its entry get two buckets, each with a full burst.
-/

namespace Torii.Ratelimit

open Go Torii.Util TokenBucket Function Clients

structure Shared where
  now : Nat
  clients : Clients

/-- Where a request is in `allowClient`. -/
inductive Phase where
  | arriving (remoteAddr : String)
  | missed (ip : String)
  | checking (ip : String) (address : Nat)
  | decided (ip : String) (allowed : Bool)
  | noClient
deriving DecidableEq

inductive Event where
  | tick (d : Nat)
  | sweep
  | reset (ip : String)

def Shared.event (s : Shared) : Event → Shared
  | .tick d => { s with now := s.now + d }
  | .sweep => { s with clients.cache := s.clients.cache.sweep s.now }
  | .reset ip => { s with clients.cache := s.clients.cache.evict ip }

/-- One atomic step of `allowClient`; the input is the order of `evictOldest`. -/
def requestStep (l : Limiter) (s : Shared) (order : List String) : Phase → Shared × Phase
  | .arriving remoteAddr =>
    match getClientIP remoteAddr with
    | .error _ => (s, .noClient)
    | .ok ip =>
      let found := s.clients.getEntry s.now ip
      ({ s with clients := found.2 }, found.1.elim (.missed ip) (.checking ip))
  | .missed ip =>
    let entry := s.clients.newEntry l s.now order ip
    ({ s with clients := entry.2 }, .checking ip entry.1)
  | .checking ip address =>
    let checked := s.clients.check s.now address
    ({ s with clients := checked.2 }, .decided ip checked.1)
  | .decided ip allowed => (s, .decided ip allowed)
  | .noClient => (s, .noClient)

def requests (l : Limiter) : Threads Shared Phase Event (List String) Unit where
  event := Shared.event
  step s phase order := ((), requestStep l s order phase)

abbrev Pool := Threads.Pool Shared Phase

abbrev Action := Threads.Action Event (List String)

/-- No client is known, and every request comes from the address that is given for it. -/
def noClients (options : CacheOptions) (now : Nat) (remoteAddr : Nat → String) : Pool :=
  ⟨⟨now, .empty options⟩, fun i => .arriving (remoteAddr i)⟩

/-- The time, if the action allows a request of the client. -/
def allowedAt (ip : String) (s : Pool) : Action → List ℚ
  | .event _ => []
  | .step i _ =>
    match s.locals i with
    | .checking ip' address =>
      if ip' = ip ∧ (s.shared.clients.check s.shared.now address).1 then
        [seconds s.shared.now]
      else []
    | _ => []

/-- The action does not drop the entry of the client: it neither expires nor is evicted. -/
def KeepsEntry (l : Limiter) (ip : String) (s : Pool) (op : Action) : Prop :=
  (s.shared.clients.addressOf ip).isSome →
    (((requests l).machine.step s op).2.shared.clients.addressOf ip).isSome

instance (l : Limiter) (ip : String) (s : Pool) (op : Action) : Decidable (KeepsEntry l ip s op) :=
  inferInstanceAs (Decidable (_ → _))

/-- The action is not a request of the client that misses while another one has missed and
not yet stored its entry. -/
def SingleMiss (ip : String) (s : Pool) : Action → Prop
  | .event _ => True
  | .step i _ => ∀ remoteAddr, s.locals i = .arriving remoteAddr →
      getClientIP remoteAddr = .ok ip → s.shared.clients.addressOf ip = none →
      ∀ k, s.locals k ≠ .missed ip

variable {l : Limiter} {ip : String} {s : Pool} {remoteAddr : String} {e : Event}
  {sh : Shared} {order : List String} {address : Nat}

theorem requestStep_of_ok (h : getClientIP remoteAddr = .ok ip) :
    requestStep l sh order (.arriving remoteAddr) =
      ({ sh with clients := (sh.clients.getEntry sh.now ip).2 },
        (sh.clients.getEntry sh.now ip).1.elim (.missed ip) (.checking ip)) := by
  simp only [requestStep, h]

theorem requestStep_of_error {err : ClientIPError} (h : getClientIP remoteAddr = .error err) :
    requestStep l sh order (.arriving remoteAddr) = (sh, .noClient) := by
  simp only [requestStep, h]

/-! ## Where entries come from -/

theorem addressOf_event (h : (sh.event e).clients.addressOf ip = some address) :
    sh.clients.addressOf ip = some address := by
  obtain ⟨entry, hentry, rfl⟩ := Option.map_eq_some_iff.mp h
  cases e with
  | tick d => exact h
  | sweep =>
    rw [addressOf, Cache.lookup_sweep hentry]
    rfl
  | reset ip' =>
    rw [addressOf, (Cache.lookup_evict hentry).2]
    rfl

theorem addressOf_requestStep {phase : Phase}
    (h : (requestStep l sh order phase).1.clients.addressOf ip = some address)
    (hphase : phase ≠ .missed ip) : sh.clients.addressOf ip = some address := by
  cases phase with
  | arriving remoteAddr =>
    rw [requestStep] at h
    split at h
    · exact h
    · exact addressOf_getEntry h
  | missed ip' =>
    rcases addressOf_newEntry h with ⟨rfl, -⟩ | ⟨-, hold⟩
    · exact absurd rfl hphase
    · exact hold
  | checking | decided | noClient => exact h

def Phase.concerns (ip : String) : Phase → Prop
  | .missed ip' => ip' = ip
  | .checking ip' _ => ip' = ip
  | _ => False

/-! ## One bucket -/

structure Unserved (ip : String) (seen : List ℚ) (s : Pool) : Prop where
  noEntry : s.shared.clients.addressOf ip = none
  noneChecking : ∀ k address, s.locals k ≠ .checking ip address
  single : ∀ j k, s.locals j = .missed ip → s.locals k = .missed ip → j = k
  noneAllowed : seen = []

/-- The client has one limiter, which has allowed the requests seen so far. -/
structure Served (l : Limiter) (ip : String) (start len : ℚ) (address : Nat) (seen : List ℚ)
    (s : Pool) : Prop where
  entry : s.shared.clients.addressOf ip = some address
  checking : ∀ k address', s.locals k = .checking ip address' → address' = address
  noneMissed : ∀ k, s.locals k ≠ .missed ip
  lt_allocated : address < s.shared.clients.allocated
  limit : (s.shared.clients.limiters address).limit = l.ratePerSecond
  burst : (s.shared.clients.limiters address).burst = l.burst
  window : Window l.ratePerSecond l.burst start len (s.shared.clients.limiters address).bucket
    (seconds s.shared.now) (seen.countP (inWindow start len))

variable {start len : ℚ} {address i : Nat} {seen : List ℚ} {order : List String} {sh : Shared}
  {phase : Phase}

theorem step_requests (l : Limiter) (s : Pool) (i : Nat) (order : List String) :
    ((requests l).machine.step s (.step i order)).2 =
      ⟨(requestStep l s.shared order (s.locals i)).1,
        Function.update s.locals i (requestStep l s.shared order (s.locals i)).2⟩ := rfl

theorem Unserved.frame (h : Unserved ip seen s) (hentry : sh.clients.addressOf ip = none)
    (hself : ¬ phase.concerns ip) : Unserved ip seen ⟨sh, Function.update s.locals i phase⟩ := by
  have hold : ∀ k p, p.concerns ip → update s.locals i phase k = p → s.locals k = p := by
    intro k p hp hk
    obtain ⟨rfl, rfl⟩ | ⟨-, hk⟩ := Threads.update_cases hk
    · exact absurd hp hself
    · exact hk
  exact ⟨hentry, fun k address hk => h.noneChecking k address (hold k _ rfl hk),
    fun j k hj hk => h.single j k (hold j _ rfl hj) (hold k _ rfl hk), h.noneAllowed⟩

theorem Served.move {seen' : List ℚ} (h : Served l ip start len address seen s)
    (hentry : sh.clients.addressOf ip = some address)
    (hself : phase.concerns ip → phase = .checking ip address)
    (halloc : s.shared.clients.allocated ≤ sh.clients.allocated)
    (hlimit : (sh.clients.limiters address).limit = l.ratePerSecond)
    (hburst : (sh.clients.limiters address).burst = l.burst)
    (hwindow : Window l.ratePerSecond l.burst start len (sh.clients.limiters address).bucket
      (seconds sh.now) (seen'.countP (inWindow start len))) :
    Served l ip start len address seen' ⟨sh, Function.update s.locals i phase⟩ := by
  refine ⟨hentry, ?_, ?_, Nat.lt_of_lt_of_le h.lt_allocated halloc, hlimit, hburst, hwindow⟩
  · intro k address' hk
    obtain ⟨-, rfl⟩ | ⟨-, hk⟩ := Threads.update_cases hk
    · simpa using hself rfl
    · exact h.checking k address' hk
  · intro k hk
    obtain ⟨-, rfl⟩ | ⟨-, hk⟩ := Threads.update_cases hk
    · cases hself rfl
    · exact h.noneMissed k hk

/-- Frame lemma: the limiter stays as it is. -/
theorem Served.frame (h : Served l ip start len address seen s)
    (hentry : sh.clients.addressOf ip = some address)
    (hself : phase.concerns ip → phase = .checking ip address)
    (halloc : s.shared.clients.allocated ≤ sh.clients.allocated)
    (hlimiter : sh.clients.limiters address = s.shared.clients.limiters address)
    (hnow : sh.now = s.shared.now) :
    Served l ip start len address seen ⟨sh, Function.update s.locals i phase⟩ := by
  apply h.move hentry hself halloc
  · rw [hlimiter, h.limit]
  · rw [hlimiter, h.burst]
  · rw [hlimiter, hnow]
    exact h.window

theorem Unserved.newEntry (hlen : 0 ≤ len) (h : Unserved ip seen s)
    (hi : s.locals i = .missed ip) :
    Served l ip start len s.shared.clients.allocated seen
      ((requests l).machine.step s (.step i order)).2 := by
  rw [step_requests, hi]
  have hlimiter : (requestStep l s.shared order (.missed ip)).1.clients.limiters
      s.shared.clients.allocated = newLimiter l.ratePerSecond l.burst := update_self ..
  refine ⟨Clients.addressOf_newEntry_self .., ?_, ?_, Nat.lt_succ_self _, ?_, ?_, ?_⟩
  · intro k address' hk
    obtain ⟨-, hk⟩ | ⟨-, hk⟩ := Threads.update_cases hk
    · simpa [requestStep, Clients.newEntry, eq_comm] using hk
    · exact absurd hk (h.noneChecking k address')
  · intro k hk
    obtain ⟨-, hk⟩ | ⟨hki, hk⟩ := Threads.update_cases hk
    · cases hk
    · exact hki (h.single k i hk hi)
  · rw [hlimiter]
    rfl
  · rw [hlimiter]
    rfl
  · rw [hlimiter, h.noneAllowed]
    exact Window.of_full l.rate_pos.le (by exact_mod_cast l.burst_pos.le) hlen

theorem Unserved.event (h : Unserved ip seen s) (e : Event) :
    Unserved ip seen ((requests l).machine.step s (.event e)).2 := by
  refine ⟨?_, h.noneChecking, h.single, h.noneAllowed⟩
  rw [Option.eq_none_iff_forall_ne_some]
  intro address hentry
  exact absurd (addressOf_event hentry) (by simp [h.noEntry])

/-- A request of the client misses, and no other one has. -/
theorem Unserved.miss (h : Unserved ip seen s) (hentry : sh.clients.addressOf ip = none)
    (hnone : ∀ k, s.locals k ≠ .missed ip) :
    Unserved ip seen ⟨sh, Function.update s.locals i (.missed ip)⟩ := by
  have hmissed : ∀ k, update s.locals i (.missed ip) k = .missed ip → k = i := by
    intro k hk
    obtain ⟨rfl, -⟩ | ⟨-, hk⟩ := Threads.update_cases hk
    · rfl
    · exact absurd hk (hnone k)
  refine ⟨hentry, ?_, fun j k hj hk => (hmissed j hj).trans (hmissed k hk).symm, h.noneAllowed⟩
  intro k address hk
  obtain ⟨-, hk⟩ | ⟨-, hk⟩ := Threads.update_cases hk
  · cases hk
  · exact h.noneChecking k address hk

theorem Unserved.arrive (h : Unserved ip seen s) (hi : s.locals i = .arriving remoteAddr)
    (hentry : ((requests l).machine.step s (.step i order)).2.shared.clients.addressOf ip = none)
    (hmiss : SingleMiss ip s (.step i order)) :
    Unserved ip seen ((requests l).machine.step s (.step i order)).2 := by
  rw [step_requests, hi] at hentry ⊢
  cases hip : getClientIP remoteAddr with
  | error err =>
    rw [requestStep_of_error hip] at hentry ⊢
    exact h.frame hentry id
  | ok ip' =>
    rw [requestStep_of_ok hip] at hentry ⊢
    cases hfound : (s.shared.clients.getEntry s.shared.now ip').1 with
    | some address =>
      refine h.frame hentry ?_
      rintro rfl
      exact absurd (addressOf_of_getEntry_some hfound) (by simp [h.noEntry])
    | none =>
      by_cases hne : ip' = ip
      · subst hne
        exact h.miss hentry (hmiss remoteAddr hi hip h.noEntry)
      · exact h.frame hentry hne

theorem Unserved.step (hlen : 0 ≤ len) (h : Unserved ip seen s)
    (hmiss : SingleMiss ip s (.step i order)) :
    Unserved ip (seen ++ allowedAt ip s (.step i order))
        ((requests l).machine.step s (.step i order)).2 ∨
      ∃ address, Served l ip start len address (seen ++ allowedAt ip s (.step i order))
        ((requests l).machine.step s (.step i order)).2 := by
  by_cases hmissed : s.locals i = .missed ip
  · rw [allowedAt, hmissed]
    simp only [List.append_nil]
    exact .inr ⟨_, h.newEntry hlen hmissed⟩
  have hnone : ((requests l).machine.step s (.step i order)).2.shared.clients.addressOf ip =
      none := by
    rw [Option.eq_none_iff_forall_ne_some]
    intro address hentry
    exact absurd (addressOf_requestStep hentry hmissed) (by simp [h.noEntry])
  have hseen : allowedAt ip s (.step i order) = [] := by
    rw [allowedAt]
    split
    · next ip' address hphase =>
      rw [if_neg]
      rintro ⟨rfl, -⟩
      exact h.noneChecking i address hphase
    · rfl
  rw [hseen, List.append_nil]
  refine .inl ?_
  cases hphase : s.locals i with
  | arriving remoteAddr => exact h.arrive hphase hnone hmiss
  | missed ip' =>
    rw [hphase] at hmissed
    rw [step_requests, hphase] at hnone ⊢
    exact h.frame hnone (by simpa [Phase.concerns, requestStep] using hmissed)
  | _ =>
    rw [step_requests, hphase] at hnone ⊢
    exact h.frame hnone id

theorem Served.entry_event (h : Served l ip start len address seen s)
    (hkeep : KeepsEntry l ip s (.event e)) :
    (s.shared.event e).clients.addressOf ip = some address := by
  obtain ⟨address', haddress'⟩ := Option.isSome_iff_exists.mp (hkeep (by simp [h.entry]))
  rw [Threads.machine_event] at haddress'
  rw [← h.entry, addressOf_event haddress']
  exact haddress'

theorem Served.entry_step (h : Served l ip start len address seen s)
    (hkeep : KeepsEntry l ip s (.step i order)) :
    ((requests l).machine.step s (.step i order)).2.shared.clients.addressOf ip =
      some address := by
  obtain ⟨address', haddress'⟩ := Option.isSome_iff_exists.mp (hkeep (by simp [h.entry]))
  rw [← h.entry, addressOf_requestStep haddress' (h.noneMissed i)]
  exact haddress'

theorem Served.event (h : Served l ip start len address seen s)
    (hkeep : KeepsEntry l ip s (.event e)) :
    Served l ip start len address seen ((requests l).machine.step s (.event e)).2 := by
  cases e with
  | tick d =>
    exact ⟨h.entry, h.checking, h.noneMissed, h.lt_allocated, h.limit, h.burst,
      h.window.later l.rate_pos.le (seconds_mono (Nat.le_add_right _ d))⟩
  | sweep | reset =>
    exact ⟨h.entry_event hkeep, h.checking, h.noneMissed, h.lt_allocated, h.limit, h.burst,
      h.window⟩

theorem allowedAt_of_ne {ip' : String} {address' : Nat} (hi : s.locals i = .checking ip' address')
    (hne : ip' ≠ ip) : allowedAt ip s (.step i order) = [] := by
  rw [allowedAt, hi]
  exact if_neg fun h => hne h.1

theorem countP_allowedAt (hi : s.locals i = .checking ip address) :
    (allowedAt ip s (.step i order)).countP (inWindow start len) =
      if ((s.shared.clients.limiters address).allow s.shared.now).1 &&
        inWindow start len (seconds s.shared.now) then 1 else 0 := by
  rw [allowedAt, hi]
  cases hallow : ((s.shared.clients.limiters address).allow s.shared.now).1 with
  | true | false => simp [check, hallow]

theorem Served.check {ip' : String} (h : Served l ip start len address seen s)
    (hi : s.locals i = .checking ip' address) :
    Served l ip start len address (seen ++ allowedAt ip s (.step i order))
      ((requests l).machine.step s (.step i order)).2 := by
  rw [step_requests, hi]
  have hlimiter : (requestStep l s.shared order (.checking ip' address)).1.clients.limiters
      address = ((s.shared.clients.limiters address).allow s.shared.now).2 :=
    update_self ..
  refine h.move h.entry False.elim le_rfl ?_ ?_ ?_
  · rw [hlimiter]
    exact h.limit
  · rw [hlimiter]
    exact h.burst
  · rw [hlimiter, List.countP_append]
    by_cases hip : ip' = ip
    · subst hip
      rw [countP_allowedAt hi, RateLimiter.allow, h.limit, h.burst]
      exact h.window.allow l.rate_pos.le
    · -- a call that is not counted only lowers the level
      rw [allowedAt_of_ne hi hip, List.countP_nil, Nat.add_zero, RateLimiter.allow, h.limit,
        h.burst]
      exact h.window.allow_other

theorem Served.arrive (h : Served l ip start len address seen s)
    (hi : s.locals i = .arriving remoteAddr) (hkeep : KeepsEntry l ip s (.step i order)) :
    Served l ip start len address seen ((requests l).machine.step s (.step i order)).2 := by
  have hentry := h.entry_step hkeep
  rw [step_requests, hi] at hentry ⊢
  cases hip : getClientIP remoteAddr with
  | error err =>
    rw [requestStep_of_error hip] at hentry ⊢
    exact h.frame hentry False.elim le_rfl rfl rfl
  | ok ip' =>
    rw [requestStep_of_ok hip] at hentry ⊢
    refine h.frame hentry ?_ le_rfl rfl rfl
    cases hfound : (s.shared.clients.getEntry s.shared.now ip').1 with
    | some address' =>
      rintro rfl
      have haddress := addressOf_of_getEntry_some hfound
      rw [h.entry] at haddress
      rw [Option.elim_some, Option.some.inj haddress]
    | none =>
      rintro rfl
      -- the entry would have expired
      exact absurd ((addressOf_of_getEntry_none hfound).symm.trans hentry) (by simp)

/-- Step lemma: the client keeps its limiter. -/
theorem Served.step (h : Served l ip start len address seen s)
    (hkeep : KeepsEntry l ip s (.step i order)) :
    Served l ip start len address (seen ++ allowedAt ip s (.step i order))
      ((requests l).machine.step s (.step i order)).2 := by
  have hentry := h.entry_step hkeep
  cases hphase : s.locals i with
  | arriving remoteAddr =>
    simp only [allowedAt, hphase, List.append_nil]
    exact h.arrive hphase hkeep
  | missed ip' =>
    have hne : ip' ≠ ip := fun heq => h.noneMissed i (heq ▸ hphase)
    simp only [allowedAt, hphase, List.append_nil]
    rw [step_requests, hphase] at hentry ⊢
    exact h.frame hentry (fun heq => absurd heq hne) (Nat.le_succ _)
      (update_of_ne (Nat.ne_of_lt h.lt_allocated) ..) rfl
  | checking ip' address' =>
    by_cases haddress : address' = address
    · subst haddress
      exact h.check hphase
    · have hne : ip' ≠ ip := fun heq => haddress (h.checking i address' (heq ▸ hphase))
      rw [allowedAt_of_ne hphase hne, List.append_nil]
      rw [step_requests, hphase] at hentry ⊢
      exact h.frame hentry False.elim le_rfl (update_of_ne (Ne.symm haddress) ..) rfl
  | _ =>
    simp only [allowedAt, hphase, List.append_nil]
    rw [step_requests, hphase] at hentry ⊢
    exact h.frame hentry False.elim le_rfl rfl rfl

def OneLimiter (l : Limiter) (ip : String) (start len : ℚ) (seen : List ℚ) (s : Pool) : Prop :=
  Unserved ip seen s ∨ ∃ address, Served l ip start len address seen s

theorem oneLimiter_noClients (options : CacheOptions) (now : Nat) (remoteAddr : Nat → String) :
    OneLimiter l ip start len [] (noClients options now remoteAddr) := by
  refine .inl ⟨rfl, ?_, ?_, rfl⟩
  · exact fun k address => Phase.noConfusion
  · exact fun j k hj => Phase.noConfusion hj

theorem OneLimiter.step (hlen : 0 ≤ len) {op : Action} (h : OneLimiter l ip start len seen s)
    (hkeep : KeepsEntry l ip s op) (hmiss : SingleMiss ip s op) :
    OneLimiter l ip start len (seen ++ allowedAt ip s op) ((requests l).machine.step s op).2 := by
  cases op with
  | event e =>
    rw [allowedAt, List.append_nil]
    rcases h with hun | ⟨address, hserved⟩
    · exact .inl (hun.event e)
    · exact .inr ⟨address, hserved.event hkeep⟩
  | step =>
    rcases h with hun | ⟨address, hserved⟩
    · exact hun.step hlen hmiss
    · exact .inr ⟨address, hserved.step hkeep⟩

theorem OneLimiter.bound (hlen : 0 ≤ len) (h : OneLimiter l ip start len seen s) :
    ((seen.countP (inWindow start len) : Nat) : ℚ) ≤ l.burst + l.ratePerSecond * len := by
  rcases h with hun | ⟨address, hserved⟩
  · have hburst : (0 : ℚ) ≤ l.burst := by exact_mod_cast l.burst_pos.le
    have hgain := mul_nonneg l.rate_pos.le hlen
    rw [hun.noneAllowed, List.countP_nil, Nat.cast_zero]
    exact add_nonneg hburst hgain
  · exact hserved.window.bound

/-- In a run in which the entry of a client is not dropped and its requests do not miss
together, the number of its requests that are allowed in a window is bounded by the burst and
the rate. -/
theorem client_rate_bound (l : Limiter) (options : CacheOptions) (now : Nat)
    (remoteAddr : Nat → String) (ip : String) (ops : List Action)
    (hkeep : (requests l).machine.Steps (KeepsEntry l ip) (noClients options now remoteAddr) ops)
    (hmiss : (requests l).machine.Steps (SingleMiss ip) (noClients options now remoteAddr) ops)
    (start len : ℚ) (hlen : 0 ≤ len) :
    ((((requests l).machine.collect (allowedAt ip) (noClients options now remoteAddr) ops).countP
      (inWindow start len) : Nat) : ℚ) ≤ l.burst + l.ratePerSecond * len := by
  have hok := ((requests l).machine.steps_and _ _ _ _).mpr ⟨hkeep, hmiss⟩
  have hrun := (requests l).machine.collect_of_steps (f := allowedAt ip)
    (OneLimiter l ip start len) (fun _ _ _ hok h => h.step hlen hok.1 hok.2) hok
    (oneLimiter_noClients options now remoteAddr)
  exact hrun.bound hlen

def oneInASecond : Limiter := ⟨1, 1, "1", "rate limit", by decide +kernel, Int.one_pos⟩

def sameClient : Pool := noClients ⟨10, Time.hour⟩ 0 fun _ => "192.0.2.1:4711"

def oneMiss : List Action := [.step 0 [], .step 0 [], .step 0 [], .step 1 [], .step 1 []]

/-- Only one of the two requests is allowed. -/
theorem client_rate_bound_oneMiss :
    ((((requests oneInASecond).machine.collect (allowedAt "192.0.2.1") sameClient oneMiss).countP
      (inWindow 0 0) : Nat) : ℚ) ≤ oneInASecond.burst + oneInASecond.ratePerSecond * 0 := by
  apply client_rate_bound
  · decide +kernel
  · refine ⟨?_, ?_, ?_, ?_, ?_, trivial⟩
    · exact fun _ _ _ _ k => Phase.noConfusion
    · exact fun _ hphase => Phase.noConfusion hphase
    · exact fun _ hphase => Phase.noConfusion hphase
    · exact fun _ _ _ hnone => absurd hnone (by decide +kernel)
    · exact fun _ hphase => Phase.noConfusion hphase
  · exact le_rfl

def twoMisses : List Action :=
  [.step 0 [], .step 1 [], .step 0 [], .step 1 [], .step 0 [], .step 1 []]

def onePerClient : Config := ⟨"per-client", 1, 1, some ⟨10, Time.hour⟩, ""⟩

/-- Both are allowed in one instant, though no entry was dropped. Of the same two calls of
`Allow`, one after the other, the second one is refused. -/
theorem two_misses_exceed_rate :
    (requests oneInASecond).machine.Steps (KeepsEntry oneInASecond "192.0.2.1") sameClient
        twoMisses ∧
      ¬ ((((requests oneInASecond).machine.collect (allowedAt "192.0.2.1") sameClient
        twoMisses).countP (inWindow 0 0) : Nat) : ℚ) ≤
          oneInASecond.burst + oneInASecond.ratePerSecond * 0 ∧
      ∃ memory, new onePerClient = .ok (oneInASecond, memory) ∧
        let first := oneInASecond.allow (fun _ => "1") memory ⟨"192.0.2.1:4711", 0, 0, 0, []⟩
        let second := oneInASecond.allow (fun _ => "1") first.2 ⟨"192.0.2.1:4711", 0, 0, 0, []⟩
        first.1.allowed = true ∧ second.1.allowed = false := by
  have hretry : computeRetryAfter 1 = "1" := by decide +kernel
  have hmode : normalizeMode "per-client" = .ok .perClient := by decide +kernel
  refine ⟨by decide +kernel, by decide +kernel, .perClient sameClient.shared.clients, ?_,
    by decide +kernel⟩
  rw [new, dif_neg (by decide +kernel), dif_neg (by decide +kernel)]
  simp only [onePerClient, hretry, hmode, if_true]
  rfl

end Torii.Ratelimit
