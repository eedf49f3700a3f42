import Torii.Lib.Machine
import Torii.Ratelimit.Limiter

/-!
# Expiry of idle clients

The client cache drops an entry that was not used for the time to live, and the next request of the
client gets a full bucket. The proof looks at the cache and the limiters in memory as one map
(`view`).
-/

namespace Torii.Ratelimit

open Go Torii.Util TokenBucket Clients

/-! ## The limiter of each client -/

namespace Clients

/-- The limiter of a client and the time of the last use. -/
def view (c : Clients) (ip : String) : Option (RateLimiter × Nat) :=
  (c.cache.cache.lookup ip).map fun entry => (c.limiters entry.limiter, entry.lastSeen)

/-- Entries point to limiters in memory, and no two of them to the same one. -/
structure WellFormed (c : Clients) : Prop where
  allocated : ∀ ip entry, c.cache.cache.lookup ip = some entry → entry.limiter < c.allocated
  distinct : ∀ ip ip' entry entry', c.cache.cache.lookup ip = some entry →
    c.cache.cache.lookup ip' = some entry' → entry.limiter = entry'.limiter → ip = ip'

/-- The limiter that a request of the client uses. -/
def found (l : Limiter) (c : Clients) (now : Nat) (ip : String) : RateLimiter :=
  match c.view ip with
  | none => newLimiter l.ratePerSecond l.burst
  | some (lim, seen) =>
    if c.cache.ttl < now - seen then newLimiter l.ratePerSecond l.burst else lim

variable {c : Clients}

section

variable {l : Limiter} {now seen : Nat} {ip : String} {lim : RateLimiter}

theorem found_of_none (h : c.view ip = none) :
    c.found l now ip = newLimiter l.ratePerSecond l.burst := by
  simp only [found, h]

theorem found_of_expired (h : c.view ip = some (lim, seen)) (hexpired : c.cache.ttl < now - seen) :
    c.found l now ip = newLimiter l.ratePerSecond l.burst := by
  simp only [found, h, if_pos hexpired]

theorem found_of_fresh (h : c.view ip = some (lim, seen))
    (hfresh : ¬ c.cache.ttl < now - seen) : c.found l now ip = lim := by
  simp only [found, h, if_neg hfresh]

end

theorem wellFormed_empty (options : CacheOptions) : (empty options).WellFormed :=
  ⟨fun _ _ h => absurd h (by simp [empty]), fun _ _ _ _ h => absurd h (by simp [empty])⟩

/-- Dropping or touching entries keeps the pointers apart. -/
theorem WellFormed.of_addresses {c' : Clients} (h : c.WellFormed)
    (hlookup : ∀ ip entry', c'.cache.cache.lookup ip = some entry' →
      ∃ entry, c.cache.cache.lookup ip = some entry ∧ entry.limiter = entry'.limiter)
    (halloc : c'.allocated = c.allocated) : c'.WellFormed := by
  refine ⟨?_, ?_⟩
  · intro ip entry' hentry'
    obtain ⟨entry, hentry, heq⟩ := hlookup ip entry' hentry'
    rw [halloc, ← heq]
    exact h.allocated ip entry hentry
  · intro ip₁ ip₂ entry₁ entry₂ h₁ h₂ heq
    obtain ⟨old₁, hold₁, heq₁⟩ := hlookup ip₁ entry₁ h₁
    obtain ⟨old₂, hold₂, heq₂⟩ := hlookup ip₂ entry₂ h₂
    exact h.distinct ip₁ ip₂ old₁ old₂ hold₁ hold₂ (by rw [heq₁, heq₂, heq])

theorem WellFormed.newEntry (h : c.WellFormed) (l : Limiter) {now : Nat} {order : List String}
    {ip : String} : (c.newEntry l now order ip).2.WellFormed := by
  have hlookup : ∀ ip' entry', (c.newEntry l now order ip).2.cache.cache.lookup ip' = some entry' →
      ip' = ip ∧ entry'.limiter = c.allocated ∨ c.cache.cache.lookup ip' = some entry' := by
    intro ip' entry' hentry'
    rcases Cache.lookup_cacheValue hentry' with ⟨hip, rfl⟩ | ⟨-, hold⟩
    · exact .inl ⟨hip, rfl⟩
    · exact .inr hold
  refine ⟨?_, ?_⟩
  · intro ip' entry' hentry'
    rcases hlookup ip' entry' hentry' with ⟨-, heq⟩ | hold
    · rw [heq]
      exact Nat.lt_succ_self _
    · exact Nat.lt_succ_of_lt (h.allocated ip' entry' hold)
  · intro ip₁ ip₂ entry₁ entry₂ h₁ h₂ heq
    rcases hlookup ip₁ entry₁ h₁ with ⟨hip₁, heq₁⟩ | hold₁ <;>
      rcases hlookup ip₂ entry₂ h₂ with ⟨hip₂, heq₂⟩ | hold₂
    · rw [hip₁, hip₂]
    · have := h.allocated ip₂ entry₂ hold₂
      omega
    · have := h.allocated ip₁ entry₁ hold₁
      omega
    · exact h.distinct ip₁ ip₂ entry₁ entry₂ hold₁ hold₂ heq

theorem lookup_getEntry_of_ne {now : Nat} {ip ip' : String} (hne : ip' ≠ ip) :
    (c.getEntry now ip).2.cache.cache.lookup ip' = c.cache.cache.lookup ip' := by
  simp only [getEntry, Cache.getValue]
  split
  · rfl
  · split
    · simp [hne]
    · simp [hne]

theorem WellFormed.getEntry (h : c.WellFormed) (now : Nat) (ip : String) :
    (c.getEntry now ip).2.WellFormed := by
  refine h.of_addresses ?_ rfl
  intro ip' entry' hentry'
  rcases Cache.lookup_getValue hentry' with ⟨rfl, old, hold, -, rfl⟩ | ⟨-, hold⟩
  · exact ⟨old, hold, rfl⟩
  · exact ⟨entry', hold, rfl⟩

end Clients

structure Entry (l : Limiter) (c : Clients) (call : Call) (ip : String) (p : Nat × Clients) :
    Prop where
  wellFormed : p.2.WellFormed
  entry : ∃ seen, p.2.cache.cache.lookup ip = some ⟨p.1, seen⟩ ∧
    call.looked ≤ seen ∧ seen ≤ call.cached
  limiter : p.2.limiters p.1 = c.found l call.looked ip
  others : ∀ ip', ip' ≠ ip → p.2.view ip' = c.view ip'
  ttl : p.2.cache.ttl = c.cache.ttl
  maxEntries : p.2.cache.maxEntries = c.cache.maxEntries

variable {l : Limiter} {c : Clients} {call : Call} {ip : String}

theorem entry_of_hit (hwf : c.WellFormed) (hcached : call.looked ≤ call.cached)
    {entry : ClientEntry} (hentry : c.cache.cache.lookup ip = some entry)
    (hfresh : ¬ c.cache.ttl < call.looked - entry.lastSeen) :
    Entry l c call ip (l.entryFor c call ip) := by
  have hget : c.getEntry call.looked ip = (some entry.limiter,
      { c with
        cache.cache := c.cache.cache.insert ip { entry with lastSeen := call.looked } }) := by
    simp [getEntry, Cache.getValue, hentry, EvictableEntry.getLastReadAt, hfresh,
      EvictableEntry.touch]
  have hfor : l.entryFor c call ip = (entry.limiter, (c.getEntry call.looked ip).2) := by
    simp only [Limiter.entryFor, hget]
  rw [hfor]
  refine ⟨hwf.getEntry _ _, ⟨call.looked, ?_, le_rfl, hcached⟩, ?_, ?_, ?_, ?_⟩
  · simp [hget]
  · rw [found_of_fresh (by rw [view, hentry]; rfl) hfresh, hget]
  · intro ip' hne
    rw [view, lookup_getEntry_of_ne hne]
    rfl
  · simp [hget]
  · simp [hget]

theorem Clients.found_of_miss {now : Nat} (hmiss : (c.getEntry now ip).1 = none) :
    c.found l now ip = newLimiter l.ratePerSecond l.burst := by
  cases hentry : c.cache.cache.lookup ip with
  | none => exact found_of_none (by simp [view, hentry])
  | some entry =>
    apply found_of_expired (by rw [view, hentry]; rfl)
    by_contra hfresh
    simp [getEntry, Cache.getValue, hentry, EvictableEntry.getLastReadAt, hfresh] at hmiss

theorem entry_of_miss (hwf : c.WellFormed) (hcached : call.looked ≤ call.cached)
    (hmiss : (c.getEntry call.looked ip).1 = none)
    (hroom : ((c.getEntry call.looked ip).2.cache.cache.len : Int) < c.cache.maxEntries) :
    Entry l c call ip (l.entryFor c call ip) := by
  have hmax : (c.getEntry call.looked ip).2.cache.maxEntries = c.cache.maxEntries := by
    simp only [getEntry, Cache.getValue]
    split
    · rfl
    · split <;> rfl
  have hfor : l.entryFor c call ip =
      (c.getEntry call.looked ip).2.newEntry l call.cached call.order ip := by
    simp only [Limiter.entryFor, hmiss]
  have hcache : ((c.getEntry call.looked ip).2.newEntry l call.cached call.order ip).2.cache =
      { (c.getEntry call.looked ip).2.cache with
        cache :=
          (c.getEntry call.looked ip).2.cache.cache.insert ip ⟨c.allocated, call.cached⟩ } := by
    simp only [newEntry, Cache.cacheValue]
    rw [if_neg (by omega)]
    rfl
  rw [hfor]
  refine ⟨(hwf.getEntry _ _).newEntry l, ⟨call.cached, ?_, hcached, le_rfl⟩, ?_, ?_, ?_, ?_⟩
  · rw [hcache]
    simp [newEntry, getEntry]
  · rw [found_of_miss hmiss]
    exact Function.update_self ..
  · intro ip' hne
    have hlookup : ((c.getEntry call.looked ip).2.newEntry l call.cached call.order
        ip).2.cache.cache.lookup ip' = c.cache.cache.lookup ip' := by
      rw [hcache, GoMap.lookup_insert', if_neg hne, lookup_getEntry_of_ne hne]
    rw [view, view, hlookup]
    cases hentry : c.cache.cache.lookup ip' with
    | none => rfl
    | some entry =>
      have hold := Nat.ne_of_lt (hwf.allocated ip' entry hentry)
      simp [newEntry, getEntry, Function.update_of_ne hold]
  · rw [hcache]
    exact Cache.ttl_getValue ..
  · rw [hcache]
    exact hmax

theorem allowClient_spec (formatG : ℚ → String) (hip : getClientIP call.remoteAddr = .ok ip)
    (hentry : Entry l c call ip (l.entryFor c call ip)) :
    (l.allowClient formatG c call).1 = l.clientDecision formatG ip
        ((c.found l call.looked ip).allow call.checked).1 (c.found l call.looked ip).limit ∧
      (∃ seen, call.looked ≤ seen ∧ seen ≤ call.cached ∧
        (l.allowClient formatG c call).2.view ip =
          some (((c.found l call.looked ip).allow call.checked).2, seen)) ∧
      (∀ ip', ip' ≠ ip → (l.allowClient formatG c call).2.view ip' = c.view ip') ∧
      (l.allowClient formatG c call).2.WellFormed ∧
      (l.allowClient formatG c call).2.cache.ttl = c.cache.ttl ∧
      (l.allowClient formatG c call).2.cache.maxEntries = c.cache.maxEntries := by
  obtain ⟨seen, hlookup, hlooked, hcached⟩ := hentry.entry
  have hcall : l.allowClient formatG c call =
      (l.clientDecision formatG ip
        ((l.entryFor c call ip).2.check call.checked (l.entryFor c call ip).1).1
        ((l.entryFor c call ip).2.limiters (l.entryFor c call ip).1).limit,
        ((l.entryFor c call ip).2.check call.checked (l.entryFor c call ip).1).2) := by
    simp only [Limiter.allowClient, hip]
  rw [hcall]
  simp only [check, hentry.limiter]
  refine ⟨trivial, ⟨seen, hlooked, hcached, ?_⟩, ?_, ?_, hentry.ttl, hentry.maxEntries⟩
  · simp [view, hlookup]
  · intro ip' hne
    rw [← hentry.others ip' hne, view, view]
    cases hentry' : (l.entryFor c call ip).2.cache.cache.lookup ip' with
    | none => rfl
    | some entry' =>
      have hother : entry'.limiter ≠ (l.entryFor c call ip).1 := fun heq =>
        hne (hentry.wellFormed.distinct ip' ip entry' _ hentry' hlookup heq)
      simp [Function.update_of_ne hother]
  · exact hentry.wellFormed.of_addresses (fun ip' entry' h => ⟨entry', h, rfl⟩) rfl

/-! ## Runs -/

inductive Op where
  | allow (call : Call)
  | sweep (now : Nat)

def Op.client : Op → Option String
  | .allow call => (getClientIP call.remoteAddr).toOption
  | .sweep _ => none

/-- The limiter of the program, which drops idle clients. -/
def expiring (formatG : ℚ → String) (l : Limiter) : Machine Clients Op (Option Decision) where
  step c
    | .allow call =>
      let next := l.allowClient formatG c call
      (some next.1, next.2)
    | .sweep now => (none, { c with cache := c.cache.sweep now })

def persistent (formatG : ℚ → String) (l : Limiter) :
    Machine (String → RateLimiter) Op (Option Decision) where
  step lims
    | .allow call =>
      match getClientIP call.remoteAddr with
      | .error err => (some (l.noClient err), lims)
      | .ok ip =>
        let next := (lims ip).allow call.checked
        (some (l.clientDecision formatG ip next.1 (lims ip).limit),
          Function.update lims ip next.2)
    | .sweep _ => (none, lims)

/-- Calls and sweeps one after the other, and the readings of the clock in each call. -/
def Chronological (now : Nat) : List Op → Prop
  | [] => True
  | .allow call :: ops =>
    now ≤ call.looked ∧ call.looked ≤ call.cached ∧ call.cached ≤ call.checked ∧
      Chronological call.checked ops
  | .sweep now' :: ops => now ≤ now' ∧ Chronological now' ops

/-- The limiter `lim` is what the client would have if it were never dropped. A call takes at
most the time `d`. -/
structure Tracks (l : Limiter) (d : ℚ) (now : Nat) (c : Clients) (ip : String)
    (lim : RateLimiter) : Prop where
  limit : lim.limit = l.ratePerSecond
  burst : lim.burst = l.burst
  nonneg : 0 ≤ lim.bucket.tokens
  last : lim.bucket.last ≤ seconds now
  absent : c.view ip = none →
    Same l.ratePerSecond l.burst (seconds now) (full l.burst) lim.bucket
  present : ∀ lim' seen, c.view ip = some (lim', seen) →
    lim'.limit = l.ratePerSecond ∧ lim'.burst = l.burst ∧
      Same l.ratePerSecond l.burst (seconds now) lim'.bucket lim.bucket ∧
      lim.bucket.last ≤ seconds seen + d ∧ seen ≤ now

variable {d : ℚ} {now now' : Nat} {c' : Clients} {lim : RateLimiter}

theorem Tracks.later (h : Tracks l d now c ip lim) (hnow : now ≤ now') :
    Tracks l d now' c ip lim := by
  have hle := seconds_mono hnow
  refine ⟨h.limit, h.burst, h.nonneg, h.last.trans hle, fun hnone => (h.absent hnone).later hle, ?_⟩
  intro lim' seen hview
  obtain ⟨hlimit, hburst, hsame, hlast, hseen⟩ := h.present lim' seen hview
  exact ⟨hlimit, hburst, hsame.later hle, hlast, hseen.trans hnow⟩

/-- The time to live is enough for a bucket to fill, and for a call. -/
def LongEnough (l : Limiter) (d : ℚ) (ttl : Nat) : Prop :=
  l.burst / l.ratePerSecond + d ≤ seconds ttl

theorem Tracks.same_full (h : Tracks l d now c ip lim) {ttl seen : Nat} {lim' : RateLimiter}
    (httl : LongEnough l d ttl) (hview : c.view ip = some (lim', seen))
    (hexpired : ttl < now - seen) :
    Same l.ratePerSecond l.burst (seconds now) (full l.burst) lim.bucket := by
  obtain ⟨-, -, -, hlast, -⟩ := h.present lim' seen hview
  apply TokenBucket.same_full h.nonneg l.rate_pos.le
  have helapsed : seconds seen + seconds ttl ≤ seconds now := by
    rw [seconds, seconds, seconds, ← add_div, ← Nat.cast_add]
    exact seconds_mono (show seen + ttl ≤ now by omega)
  rw [LongEnough] at httl
  rw [← div_le_iff₀' l.rate_pos]
  linarith

theorem Tracks.found (h : Tracks l d now c ip lim) (httl : LongEnough l d c.cache.ttl) :
    (c.found l now ip).limit = l.ratePerSecond ∧ (c.found l now ip).burst = l.burst ∧
      Same l.ratePerSecond l.burst (seconds now) (c.found l now ip).bucket lim.bucket := by
  cases hview : c.view ip with
  | none =>
    rw [found_of_none hview]
    exact ⟨rfl, rfl, h.absent hview⟩
  | some entry =>
    obtain ⟨lim', seen⟩ := entry
    by_cases hexpired : c.cache.ttl < now - seen
    · rw [found_of_expired hview hexpired]
      exact ⟨rfl, rfl, h.same_full httl hview hexpired⟩
    · rw [found_of_fresh hview hexpired]
      obtain ⟨hlimit, hburst, hsame, -, -⟩ := h.present lim' seen hview
      exact ⟨hlimit, hburst, hsame⟩

theorem Tracks.drop (h : Tracks l d now c ip lim) (httl : LongEnough l d c.cache.ttl)
    (hview : c'.view ip = c.view ip ∨ c'.view ip = none ∧
      ∃ lim' seen, c.view ip = some (lim', seen) ∧ c.cache.ttl < now - seen) :
    Tracks l d now c' ip lim := by
  rcases hview with heq | ⟨hnone, lim', seen, hsome, hexpired⟩
  · exact ⟨h.limit, h.burst, h.nonneg, h.last, heq ▸ h.absent, heq ▸ h.present⟩
  · refine ⟨h.limit, h.burst, h.nonneg, h.last, fun _ => h.same_full httl hsome hexpired, ?_⟩
    intro lim' seen hsome'
    exact absurd (hnone.symm.trans hsome') (by simp)

theorem Tracks.allow (h : Tracks l d call.looked c ip lim) (httl : LongEnough l d c.cache.ttl)
    (hd : seconds call.checked ≤ seconds call.looked + d) (hcached : call.looked ≤ call.cached)
    (hchecked : call.cached ≤ call.checked)
    {seen : Nat} (hlooked : call.looked ≤ seen) (hseen : seen ≤ call.cached)
    (hview : c'.view ip = some (((c.found l call.looked ip).allow call.checked).2, seen)) :
    ((c.found l call.looked ip).allow call.checked).1 = (lim.allow call.checked).1 ∧
      Tracks l d call.checked c' ip (lim.allow call.checked).2 := by
  obtain ⟨hlimit, hburst, hsame⟩ := h.found httl
  have hle := seconds_mono (hcached.trans hchecked)
  obtain ⟨hverdict, hsame'⟩ := hsame.allow hle
  have hlast : (lim.bucket.allow l.ratePerSecond l.burst (seconds call.checked)).2.last ≤
      seconds call.looked + d := last_allow_le (by linarith [h.last]) hd
  simp only [RateLimiter.allow, hlimit, hburst, h.limit, h.burst] at hview ⊢
  refine ⟨hverdict, rfl, rfl, tokens_allow_nonneg h.nonneg, ?_, ?_, ?_⟩
  · exact last_allow_le (h.last.trans hle) le_rfl
  · intro hnone
    exact absurd (hview.symm.trans hnone) (by simp)
  · intro lim' seen' hsome
    obtain ⟨rfl, rfl⟩ := Prod.mk.inj (Option.some.inj (hview.symm.trans hsome))
    exact ⟨rfl, rfl, hsame', by linarith [seconds_mono hlooked], hseen.trans hchecked⟩

/-- The program and the limiters that are never dropped, at an instant. The clients are in a
set that fits into the cache. -/
structure Related (l : Limiter) (d : ℚ) (clients : Finset String) (now : Nat) (c : Clients)
    (lims : String → RateLimiter) : Prop where
  wellFormed : c.WellFormed
  ttl : LongEnough l d c.cache.ttl
  room : (clients.card : Int) ≤ c.cache.maxEntries
  known : ∀ ip, c.view ip ≠ none → ip ∈ clients
  tracks : ∀ ip, Tracks l d now c ip (lims ip)

variable {clients : Finset String} {lims : String → RateLimiter}

theorem related_empty (l : Limiter) {options : CacheOptions} (httl : LongEnough l d options.ttl)
    (hroom : (clients.card : Int) ≤ options.maxEntries) :
    Related l d clients 0 (.empty options) fun _ => newLimiter l.ratePerSecond l.burst := by
  have hview : ∀ ip, (empty options).view ip = none := by simp [view, empty]
  refine ⟨wellFormed_empty options, httl, hroom, fun ip h => absurd (hview ip) h, ?_⟩
  intro ip
  refine ⟨rfl, rfl, ?_, ?_, fun _ _ _ => rfl, fun _ _ h => ?_⟩
  · simpa [newLimiter, full] using l.burst_pos.le
  · simp [newLimiter, full, seconds]
  · exact absurd ((hview ip).symm.trans h) (by simp)

theorem Related.later (h : Related l d clients now c lims) (hnow : now ≤ now') :
    Related l d clients now' c lims :=
  ⟨h.wellFormed, h.ttl, h.room, h.known, fun ip => (h.tracks ip).later hnow⟩

theorem view_sweep (c : Clients) (now : Nat) (ip : String) :
    ({ c with cache := c.cache.sweep now } : Clients).view ip = c.view ip ∨
      ({ c with cache := c.cache.sweep now } : Clients).view ip = none ∧
        ∃ lim seen, c.view ip = some (lim, seen) ∧ c.cache.ttl < now - seen := by
  simp only [view, Cache.sweep, GoMap.lookup_filter]
  cases hentry : c.cache.cache.lookup ip with
  | none => exact .inl rfl
  | some entry =>
    by_cases hold : entry.lastSeen < now - c.cache.ttl
    · refine .inr ⟨?_, _, _, rfl, by omega⟩
      simp only [EvictableEntry.getLastReadAt, hold, decide_true, Option.filter_some]
      rfl
    · refine .inl ?_
      simp only [EvictableEntry.getLastReadAt, hold, decide_false, Option.filter_some]
      rfl

/-- Step lemma for a sweep. -/
theorem Related.sweep (h : Related l d clients now c lims) (hnow : now ≤ now') :
    Related l d clients now' { c with cache := c.cache.sweep now' } lims := by
  refine ⟨?_, h.ttl, h.room, ?_, ?_⟩
  · exact h.wellFormed.of_addresses
      (fun ip entry hentry => ⟨entry, Cache.lookup_sweep hentry, rfl⟩) rfl
  · intro ip hview
    apply h.known ip
    rcases view_sweep c now' ip with heq | ⟨hnone, -⟩
    · rwa [← heq]
    · exact absurd hnone hview
  · intro ip
    exact ((h.tracks ip).later hnow).drop h.ttl (view_sweep c now' ip)

theorem Related.entry (h : Related l d clients now c lims) (hcached : call.looked ≤ call.cached)
    (hclient : ip ∈ clients) : Entry l c call ip (l.entryFor c call ip) := by
  cases hfound : (c.getEntry call.looked ip).1 with
  | some address =>
    obtain ⟨entry, hentry, -⟩ := Option.map_eq_some_iff.mp hfound
    obtain ⟨old, hold, hfresh, -⟩ := Cache.getValue_fst_eq_some.mp hentry
    exact entry_of_hit h.wellFormed hcached hold (Nat.not_lt.mpr hfresh)
  | none =>
    apply entry_of_miss h.wellFormed hcached hfound
    have hnone : ip ∉ (c.getEntry call.looked ip).2.cache.cache := by
      rw [← AList.lookup_eq_none]
      simpa [addressOf] using addressOf_of_getEntry_none hfound
    have hknown : ∀ ip' ∈ (c.getEntry call.looked ip).2.cache.cache, ip' ∈ clients := by
      intro ip' hip'
      obtain ⟨entry', hentry'⟩ := GoMap.mem_iff_exists_lookup.mp hip'
      apply h.known
      rcases Cache.lookup_getValue hentry' with ⟨rfl, old, hold, -, -⟩ | ⟨-, hold⟩
      · simp [view, hold]
      · simp [view, hold]
    have hlt := GoMap.len_lt_card hknown hclient hnone
    have := h.room
    omega

/-- Step lemma for a call. -/
theorem Related.allow (formatG : ℚ → String) (h : Related l d clients now c lims)
    (hnow : now ≤ call.looked) (hcached : call.looked ≤ call.cached)
    (hchecked : call.cached ≤ call.checked) (hd : seconds call.checked ≤ seconds call.looked + d)
    (hip : getClientIP call.remoteAddr = .ok ip) (hclient : ip ∈ clients) :
    (l.allowClient formatG c call).1 =
        l.clientDecision formatG ip ((lims ip).allow call.checked).1 (lims ip).limit ∧
      Related l d clients call.checked (l.allowClient formatG c call).2
        (Function.update lims ip ((lims ip).allow call.checked).2) := by
  obtain ⟨hdecision, ⟨seen, hlooked, hseen, hview⟩, hothers, hwf, httl, hmax⟩ :=
    allowClient_spec formatG hip (h.entry hcached hclient)
  have htracks := (h.tracks ip).later hnow
  obtain ⟨hverdict, htracks'⟩ :=
    htracks.allow h.ttl hd hcached hchecked hlooked hseen hview
  refine ⟨?_, hwf, httl ▸ h.ttl, hmax ▸ h.room, ?_, ?_⟩
  · rw [hdecision, hverdict, (htracks.found h.ttl).1, htracks.limit]
  · intro ip' hip'
    by_cases heq : ip' = ip
    · exact heq ▸ hclient
    · exact h.known ip' (by rwa [← hothers ip' heq])
  · intro ip'
    by_cases heq : ip' = ip
    · subst heq
      rw [Function.update_self]
      exact htracks'
    · rw [Function.update_of_ne heq]
      have hlater := (h.tracks ip').later (hnow.trans (hcached.trans hchecked))
      exact hlater.drop h.ttl (.inl (hothers ip' heq))

/-- Run lemma: the two machines give the same decisions. -/
theorem Related.run (formatG : ℚ → String) {ops : List Op} (h : Related l d clients now c lims)
    (hops : Chronological now ops)
    (hd : ∀ call, .allow call ∈ ops → seconds call.checked ≤ seconds call.looked + d)
    (hclients : ∀ ip ∈ ops.filterMap Op.client, ip ∈ clients) :
    ((expiring formatG l).trace c ops).map Prod.snd =
      ((persistent formatG l).trace lims ops).map Prod.snd := by
  induction ops generalizing now c lims with
  | nil => rfl
  | cons op ops ih =>
    have hd' : ∀ call, .allow call ∈ ops → seconds call.checked ≤ seconds call.looked + d :=
      fun call hcall => hd call (List.mem_cons_of_mem _ hcall)
    have hclients' : ∀ ip ∈ ops.filterMap Op.client, ip ∈ clients := by
      intro ip hmem
      apply hclients ip
      simp only [List.mem_filterMap] at hmem ⊢
      obtain ⟨op', hop', heq⟩ := hmem
      exact ⟨op', List.mem_cons_of_mem _ hop', heq⟩
    simp only [Machine.trace, List.map_cons]
    cases op with
    | sweep now' => exact congrArg₂ _ rfl (ih (h.sweep hops.1) hops.2 hd' hclients')
    | allow call =>
      obtain ⟨hnow, hcached, hchecked, hrest⟩ := hops
      cases hip : getClientIP call.remoteAddr with
      | error err =>
        have hstep : l.allowClient formatG c call = (l.noClient err, c) := by
          simp only [Limiter.allowClient, hip]
        have hlater := h.later (hnow.trans (hcached.trans hchecked))
        simp only [expiring, persistent, hip, hstep]
        exact congrArg₂ _ rfl (ih hlater hrest hd' hclients')
      | ok ip =>
        have hclient : ip ∈ clients := by
          apply hclients
          simp [Op.client, hip, Except.toOption]
        obtain ⟨hdecision, hrelated⟩ := h.allow formatG hnow hcached hchecked
          (hd call List.mem_cons_self) hip hclient
        simp only [expiring, persistent, hip, hdecision]
        exact congrArg₂ _ rfl (ih hrelated hrest hd' hclients')

/-- Dropping idle clients is invisible: the decisions are those of one limiter for each client
that is never dropped. A call takes at most the time `d`, and the time to live is that much
longer than a bucket needs to fill. -/
theorem expiry_invisible (formatG : ℚ → String) (l : Limiter) (options : CacheOptions)
    (ops : List Op) (hops : Chronological 0 ops) (d : ℚ)
    (hd : ∀ call, .allow call ∈ ops → seconds call.checked ≤ seconds call.looked + d)
    (hclients : ((ops.filterMap Op.client).toFinset.card : Int) ≤ options.maxEntries)
    (httl : l.burst / l.ratePerSecond + d ≤ seconds options.ttl) :
    ((expiring formatG l).trace (.empty options) ops).map Prod.snd =
      ((persistent formatG l).trace (fun _ => newLimiter l.ratePerSecond l.burst) ops).map
        Prod.snd :=
  (related_empty l httl hclients).run formatG hops hd fun _ h => List.mem_toFinset.mpr h

def callAt (now : Nat) : Call := ⟨"192.0.2.1:4711", now, now, now, []⟩

/-- Two requests in each second, without a burst. -/
def twoInASecond : Limiter := ⟨2, 1, "1", "rate limit", by decide +kernel, Int.one_pos⟩

/-- A time to live of half a second is enough for two requests in a second: the client is
dropped by the sweep after one second, and its second call is allowed as without the sweep. -/
theorem expiry_invisible_second :
    ((expiring (fun _ => "2") twoInASecond).trace (.empty ⟨1, 500000000⟩)
        [.allow (callAt 0), .sweep Time.second, .allow (callAt Time.second)]).map Prod.snd =
      ((persistent (fun _ => "2") twoInASecond).trace (fun _ => newLimiter 2 1)
        [.allow (callAt 0), .sweep Time.second, .allow (callAt Time.second)]).map Prod.snd := by
  refine expiry_invisible _ twoInASecond ⟨1, 500000000⟩ _ ?_ 0 ?_ ?_ ?_
  · exact ⟨by decide, by decide, by decide, by decide, by decide, by decide, by decide, trivial⟩
  · intro call hcall
    simp only [List.mem_cons, Op.allow.injEq, reduceCtorEq, List.not_mem_nil, or_false,
      false_or] at hcall
    rcases hcall with rfl | rfl <;> exact (add_zero _).ge
  · decide +kernel
  · decide +kernel

end Torii.Ratelimit
