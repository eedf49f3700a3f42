import Torii.Lib.Machine
import Torii.Util.Cache

/-!
# Runs of the evicting cache

At strictly increasing times no two entries carry the same time (`Ordered`) and the time of an entry
is that of its last use (`Dated`), so `evictOldest` finds the least recently used entry, whatever
the order of the iteration. A TTL is not negative here: a negative one acts as the TTL 0 does.
-/

namespace Torii.Util

open Go EvictableEntry GoMap

/-- A method of `Cache`; `CacheValue` comes with the order of the iteration over the map. -/
inductive CacheOp (T : Type*) where
  | cacheValue (order : List String) (key : String) (value : T)
  | getValue (key : String)
  | evict (key : String)
  | deleteEntry (key : String)
  | sweep

structure CacheCall (T : Type*) where
  time : Nat
  op : CacheOp T

/-- `uaCacheEntry`, an entry with nothing but an address and its time. -/
structure UaCacheEntry where
  ip : String
  lastSeen : Nat
deriving DecidableEq

instance : EvictableEntry UaCacheEntry where
  touch now entry := { entry with lastSeen := now }
  getLastReadAt entry := entry.lastSeen
  getLastReadAt_touch _ _ := rfl

inductive CacheReply (T : Type*) where
  | done
  | value (result : Option T)
  | deleted (err : Option String)

namespace Cache

variable {T : Type*}

def newCache (maxEntries : Int) (ttl : Nat) : Cache T := ⟨maxEntries, ttl, ∅⟩

/-- The key that a call used: `CacheValue` and a successful `GetValue` use theirs. -/
def usedKey : CacheCall T × CacheReply T → Option String
  | (⟨_, .cacheValue _ key _⟩, _) => some key
  | (⟨_, .getValue key⟩, .value (some _)) => some key
  | _ => none

def lastUse (key : String) (history : List (CacheCall T × CacheReply T)) : Option Nat :=
  (history.filter (usedKey · = some key)).getLast?.map (·.1.time)

/-- The calls come at strictly increasing times, all of them before `now`. -/
def Timed (ops : List (CacheCall T)) (now : Nat) : Prop :=
  (ops.map CacheCall.time ++ [now]).Pairwise (· < ·)

def LeastRecent (history : List (CacheCall T × CacheReply T)) (c : Cache T) (key : String) : Prop :=
  key ∈ c.cache ∧ ∀ other ∈ c.cache, other ≠ key →
    ∃ t t', lastUse key history = some t ∧ lastUse other history = some t' ∧ t < t'

def Caches (key : String) (call : CacheCall T) : Prop :=
  ∃ order value, call.op = .cacheValue order key value

/-- The call takes the entry under the key away although it may be fresh: the key is evicted or
deleted, or it is the least recently used one when another key is cached in a full cache. -/
def Drops (history : List (CacheCall T × CacheReply T)) (c : Cache T) (key : String)
    (call : CacheCall T) : Prop :=
  match call.op with
  | .cacheValue _ other _ => other ≠ key ∧ c.maxEntries ≤ c.cache.len ∧ LeastRecent history c key
  | .evict other => other = key
  | .deleteEntry other => other = key
  | .getValue _ => False
  | .sweep => False

variable [EvictableEntry T]

def step (c : Cache T) (call : CacheCall T) : CacheReply T × Cache T :=
  match call.op with
  | .cacheValue order key value => (.done, c.cacheValue call.time order key value)
  | .getValue key => (.value (c.getValue call.time key).1, (c.getValue call.time key).2)
  | .evict key => (.done, c.evict key)
  | .deleteEntry key => (.deleted (c.deleteEntry key).1, (c.deleteEntry key).2)
  | .sweep => (.done, c.sweep call.time)

def calls : Machine (Cache T) (CacheCall T) (CacheReply T) := ⟨step⟩

def Dropped (start : Cache T) (before since : List (CacheCall T)) (key : String) : Prop :=
  ∃ mid call rest, since = mid ++ call :: rest ∧
    Drops (calls.trace start (before ++ mid)) (calls.run start (before ++ mid)) key call

/-- The entry is the value, touched at some instants. -/
def TouchedFrom (value entry : T) : Prop :=
  ∃ times : List Nat, entry = times.foldl (fun e t => touch t e) value

theorem TouchedFrom.touch {value entry : T} (h : TouchedFrom value entry) (now : Nat) :
    TouchedFrom value (touch now entry) := by
  obtain ⟨times, rfl⟩ := h
  exact ⟨times ++ [now], by simp⟩

variable {c : Cache T} {call : CacheCall T}

omit [EvictableEntry T] in
theorem timed_concat {ops : List (CacheCall T)} {now : Nat} :
    Timed (ops ++ [call]) now ↔ Timed ops call.time ∧ call.time < now := by
  simp only [Timed, List.map_append, List.map_cons, List.map_nil, List.pairwise_append,
    List.mem_append, List.mem_singleton, List.pairwise_singleton]
  constructor
  · rintro ⟨hops, -, hnow⟩
    exact ⟨hops, hnow _ (.inr rfl) _ rfl⟩
  · rintro ⟨hops, hnow⟩
    refine ⟨hops, trivial, ?_⟩
    rintro t (ht | rfl) _ rfl
    · exact (hops.2.2 t ht _ rfl).trans hnow
    · exact hnow

omit [EvictableEntry T] in
theorem lastUse_concat (key : String) (history : List (CacheCall T × CacheReply T))
    (event : CacheCall T × CacheReply T) :
    lastUse key (history ++ [event]) =
      if usedKey event = some key then some event.1.time else lastUse key history := by
  unfold lastUse
  split
  · next h => simp [h]
  · next h => simp [h]

/-! ### One step -/

omit [EvictableEntry T] in
/-- `DeleteEntry` leaves what `Evict` leaves. -/
theorem deleteEntry_snd (c : Cache T) (key : String) : (c.deleteEntry key).2 = c.evict key := by
  unfold deleteEntry
  split
  · rfl
  · next h =>
    have herase : c.cache.erase key = c.cache := by
      apply AList.ext
      exact List.kerase_of_notMem_keys h
    rw [evict, herase]

theorem settings_step (c : Cache T) (call : CacheCall T) :
    (c.step call).2.maxEntries = c.maxEntries ∧ (c.step call).2.ttl = c.ttl := by
  unfold step
  split
  · simp
  · simp
  · exact ⟨rfl, rfl⟩
  · rw [deleteEntry_snd]
    exact ⟨rfl, rfl⟩
  · exact ⟨rfl, rfl⟩

@[simp] theorem maxEntries_step (c : Cache T) (call : CacheCall T) :
    (c.step call).2.maxEntries = c.maxEntries :=
  (settings_step c call).1

@[simp] theorem ttl_step (c : Cache T) (call : CacheCall T) :
    (c.step call).2.ttl = c.ttl :=
  (settings_step c call).2

theorem lookup_step {key : String} {entry : T} (h : (c.step call).2.cache.lookup key = some entry) :
    usedKey (call, (c.step call).1) = some key ∧ getLastReadAt entry = call.time ∨
      usedKey (call, (c.step call).1) ≠ some key ∧ c.cache.lookup key = some entry := by
  obtain ⟨now, op⟩ := call
  cases op with
  | cacheValue order k value =>
    obtain ⟨rfl, rfl⟩ | ⟨hne, hold⟩ := lookup_cacheValue h
    · exact .inl ⟨rfl, getLastReadAt_touch now value⟩
    · exact .inr ⟨by simpa [usedKey] using hne.symm, hold⟩
  | getValue k =>
    obtain ⟨rfl, old, hold, hfresh, rfl⟩ | ⟨hne, hold⟩ := lookup_getValue h
    · have hreply := getValue_fst_eq_some.mpr ⟨old, hold, hfresh, rfl⟩
      exact .inl ⟨by simp [step, usedKey, hreply], getLastReadAt_touch now old⟩
    · refine .inr ⟨?_, hold⟩
      simp only [step]
      cases (c.getValue now k).1 with
      | none => simp [usedKey]
      | some _ => simpa [usedKey] using hne.symm
  | evict k => exact .inr ⟨by simp [usedKey], (lookup_evict h).2⟩
  | deleteEntry k =>
    simp only [step, deleteEntry_snd] at h
    exact .inr ⟨by simp [usedKey], (lookup_evict h).2⟩
  | sweep => exact .inr ⟨by simp [usedKey], lookup_sweep h⟩

theorem len_evictOldest_lt (order : List String) (hpos : 0 < c.cache.len) :
    (c.evictOldest order).cache.len < c.cache.len := by
  obtain ⟨hnone, -⟩ | ⟨oldest, -, hmem, -, heq⟩ := evictOldest_cases c order
  · obtain ⟨key, hkey⟩ := List.exists_mem_of_length_pos (c.cache.len_eq_length_keys ▸ hpos)
    exact absurd (AList.mem_keys.mpr hkey) (AList.lookup_eq_none.mp (hnone key))
  · obtain ⟨entry, hentry⟩ := mem_iff_exists_lookup.mp hmem
    rw [heq, ← len_erase hentry]
    exact Nat.lt_succ_self _

theorem len_step_le (hmax : 1 ≤ c.maxEntries)
    (hroom : (c.cache.len : Int) ≤ c.maxEntries) (call : CacheCall T) :
    ((c.step call).2.cache.len : Int) ≤ c.maxEntries := by
  obtain ⟨now, op⟩ := call
  cases op with
  | cacheValue order key value =>
    simp only [step, cacheValue]
    split
    · have hlt := len_evictOldest_lt order (c := c) (by omega)
      have hinsert := len_insert_le (c.evictOldest order).cache key (touch now value)
      omega
    · have hinsert := len_insert_le c.cache key (touch now value)
      omega
  | getValue key =>
    simp only [step, getValue]
    split
    · exact hroom
    · next entry hentry =>
      split
      · have herase := len_erase_le c.cache key
        simp only
        omega
      · rw [len_insert_of_mem (mem_of_lookup hentry)]
        exact hroom
  | evict key =>
    have herase := len_erase_le c.cache key
    simp only [step, evict]
    omega
  | deleteEntry key =>
    have herase := len_erase_le c.cache key
    simp only [step, deleteEntry_snd, evict]
    omega
  | sweep =>
    simp only [step, sweep]
    exact (Int.ofNat_le.mpr (len_filter_le _ _)).trans hroom

/-! ### What holds after every run -/

/-- The bound is kept, and the entries carry different times, all of them before `now`. -/
structure Ordered (now : Nat) (c : Cache T) : Prop where
  room : (c.cache.len : Int) ≤ c.maxEntries
  past : ∀ {key entry}, c.cache.lookup key = some entry → getLastReadAt entry < now
  distinct : ∀ {key key' entry entry'}, c.cache.lookup key = some entry →
    c.cache.lookup key' = some entry' → getLastReadAt entry = getLastReadAt entry' → key = key'

theorem ordered_newCache {maxEntries : Int} (hmax : 1 ≤ maxEntries) (ttl now : Nat) :
    Ordered now (newCache maxEntries ttl : Cache T) where
  room := by
    have : (newCache maxEntries ttl : Cache T).cache.len = 0 := rfl
    change ((newCache maxEntries ttl : Cache T).cache.len : Int) ≤ maxEntries
    omega
  past h := by simp [newCache] at h
  distinct h := by simp [newCache] at h

theorem Ordered.step {now : Nat} (h : Ordered call.time c)
    (hmax : 1 ≤ c.maxEntries) (hnow : call.time < now) : Ordered now (c.step call).2 where
  room := by
    rw [maxEntries_step]
    exact len_step_le hmax h.room call
  past hentry := by
    obtain ⟨-, htime⟩ | ⟨-, hold⟩ := lookup_step hentry
    · omega
    · exact (h.past hold).trans hnow
  distinct hentry hentry' htimes := by
    obtain ⟨hused, htime⟩ | ⟨-, hold⟩ := lookup_step hentry <;>
      obtain ⟨hused', htime'⟩ | ⟨-, hold'⟩ := lookup_step hentry'
    · exact Option.some.inj (hused.symm.trans hused')
    · have := h.past hold'
      omega
    · have := h.past hold
      omega
    · exact h.distinct hold hold' htimes

/-- The time of an entry is that of the last use of its key. -/
def Dated (history : List (CacheCall T × CacheReply T)) (c : Cache T) : Prop :=
  ∀ {key entry}, c.cache.lookup key = some entry → lastUse key history = some (getLastReadAt entry)

theorem Dated.step {history : List (CacheCall T × CacheReply T)}
    (h : Dated history c) (call : CacheCall T) :
    Dated (history ++ [(call, (c.step call).1)]) (c.step call).2 := by
  intro key entry hentry
  rw [lastUse_concat]
  obtain ⟨hused, htime⟩ | ⟨hused, hold⟩ := lookup_step hentry
  · rw [if_pos hused, htime]
  · rw [if_neg hused]
    exact h hold

section

variable {maxEntries : Int} {ttl : Nat}

@[simp] theorem maxEntries_run (c : Cache T) (ops : List (CacheCall T)) :
    (calls.run c ops).maxEntries = c.maxEntries :=
  calls.run_invariant (fun s => s.maxEntries = c.maxEntries)
    (fun s op hs => (maxEntries_step s op).trans hs) rfl ops

@[simp] theorem ttl_run (c : Cache T) (ops : List (CacheCall T)) :
    (calls.run c ops).ttl = c.ttl :=
  calls.run_invariant (fun s => s.ttl = c.ttl) (fun s op hs => (ttl_step s op).trans hs) rfl ops

theorem ordered_run (hmax : 1 ≤ maxEntries) {ops : List (CacheCall T)} {now : Nat}
    (htimed : Timed ops now) : Ordered now (calls.run (newCache maxEntries ttl) ops) := by
  induction ops using List.reverseRecOn generalizing now with
  | nil => exact ordered_newCache hmax ttl now
  | append_singleton ops call ih =>
    obtain ⟨hops, hnow⟩ := timed_concat.mp htimed
    rw [calls.run_concat]
    exact (ih hops).step (by simpa [newCache] using hmax) hnow

theorem dated_run (ops : List (CacheCall T)) :
    Dated (calls.trace (newCache maxEntries ttl) ops) (calls.run (newCache maxEntries ttl) ops) :=
  calls.trace_induction (fun history c => Dated history c) (by simp [Dated, newCache])
    (fun _ _ call h => h.step call) ops

end

/-! ### The least recently used entry -/

section

variable {history : List (CacheCall T × CacheReply T)} {c : Cache T} {now : Nat}

omit [EvictableEntry T] in
theorem LeastRecent.unique {key key' : String} (h : LeastRecent history c key)
    (h' : LeastRecent history c key') : key = key' := by
  by_contra hne
  obtain ⟨t, t', ht, ht', hlt⟩ := h.2 key' h'.1 (Ne.symm hne)
  obtain ⟨u, u', hu, hu', hlt'⟩ := h'.2 key h.1 hne
  rw [ht', Option.some.injEq] at hu
  rw [ht, Option.some.injEq] at hu'
  omega

theorem leastRecent_of_le (hordered : Ordered now c) (hdated : Dated history c) {oldest : String}
    (hmem : oldest ∈ c.cache)
    (hmin : ∀ key ∈ c.cache, lastRead c.cache oldest ≤ lastRead c.cache key) :
    LeastRecent history c oldest := by
  refine ⟨hmem, fun other hother hne => ?_⟩
  obtain ⟨entry, hentry⟩ := mem_iff_exists_lookup.mp hmem
  obtain ⟨entry', hentry'⟩ := mem_iff_exists_lookup.mp hother
  have hle := hmin other hother
  rw [lastRead_eq hentry, lastRead_eq hentry'] at hle
  refine ⟨_, _, hdated hentry, hdated hentry', Nat.lt_of_le_of_ne hle fun heq => ?_⟩
  exact hne (hordered.distinct hentry' hentry heq.symm)

theorem lookup_cacheValue_of_full (hordered : Ordered now c) (hdated : Dated history c)
    (hmax : 1 ≤ c.maxEntries) (hfull : c.maxEntries ≤ c.cache.len) (order : List String)
    (key : String) (value : T) :
    ∃ oldest, LeastRecent history c oldest ∧ ∀ other ≠ key,
      (c.cacheValue now order key value).cache.lookup other =
        if other = oldest then none else c.cache.lookup other := by
  obtain ⟨hnone, heq⟩ | ⟨oldest, -, hmem, hmin, heq⟩ := evictOldest_cases c order
  · have hlt := len_evictOldest_lt order (c := c) (by omega)
    rw [heq] at hlt
    exact absurd hlt (Nat.lt_irrefl _)
  · refine ⟨oldest, leastRecent_of_le hordered hdated hmem hmin, fun other hother => ?_⟩
    simp [cacheValue, if_pos hfull, heq, lookup_insert', lookup_erase', if_neg hother]

/-- What `CacheValue` does to another key. -/
theorem lookup_cacheValue_of_ne (hordered : Ordered now c) (hdated : Dated history c)
    (hmax : 1 ≤ c.maxEntries) (order : List String) {key other : String} (hne : other ≠ key)
    (value : T) :
    c.maxEntries ≤ c.cache.len ∧ LeastRecent history c other ∧
        (c.cacheValue now order key value).cache.lookup other = none ∨
      ¬ (c.maxEntries ≤ c.cache.len ∧ LeastRecent history c other) ∧
        (c.cacheValue now order key value).cache.lookup other = c.cache.lookup other := by
  by_cases hfull : c.maxEntries ≤ c.cache.len
  · obtain ⟨oldest, hleast, hlookup⟩ :=
      lookup_cacheValue_of_full hordered hdated hmax hfull order key value
    by_cases heq : other = oldest
    · subst heq
      exact .inl ⟨hfull, hleast, by rw [hlookup other hne, if_pos rfl]⟩
    · refine .inr ⟨fun h => heq (h.2.unique hleast), ?_⟩
      rw [hlookup other hne, if_neg heq]
  · refine .inr ⟨fun h => hfull h.1, ?_⟩
    rw [lookup_cacheValue_of_room (Int.not_le.mp hfull), if_neg hne]

end

/-! ### What happens to a cached value -/

section

variable {history : List (CacheCall T × CacheReply T)} {c : Cache T} {key : String}

omit [EvictableEntry T] in
/-- `Evict` removes its key and leaves the others alone. -/
theorem lookup_evict_cases (c : Cache T) (k key : String) :
    k = key ∧ (c.evict k).cache.lookup key = none ∨
      k ≠ key ∧ (c.evict k).cache.lookup key = c.cache.lookup key := by
  by_cases hne : k = key
  · subst hne
    exact .inl ⟨rfl, by simp [evict]⟩
  · exact .inr ⟨hne, by simp [evict, Ne.symm hne]⟩

theorem lookup_step_of_none (hcall : ¬ Caches key call) (h : c.cache.lookup key = none) :
    (c.step call).2.cache.lookup key = none := by
  cases hafter : (c.step call).2.cache.lookup key with
  | none => rfl
  | some entry =>
    exfalso
    obtain ⟨hused, -⟩ | ⟨-, hold⟩ := lookup_step hafter
    · obtain ⟨now, op⟩ := call
      cases op with
      | cacheValue order k value =>
        obtain rfl : k = key := Option.some.inj hused
        exact hcall ⟨order, value, rfl⟩
      | getValue k =>
        obtain ⟨rfl, old, hold, -⟩ | ⟨-, hold⟩ := lookup_getValue hafter
        · rw [h] at hold
          cases hold
        · rw [h] at hold
          cases hold
      | evict | deleteEntry | sweep => cases hused
    · rw [h] at hold
      cases hold

theorem lookup_step_of_some (hordered : Ordered call.time c) (hdated : Dated history c)
    (hmax : 1 ≤ c.maxEntries) (hcall : ¬ Caches key call) {entry : T}
    (h : c.cache.lookup key = some entry) :
    Drops history c key call ∧ (c.step call).2.cache.lookup key = none ∨
      ¬ Drops history c key call ∧
        ((c.step call).2.cache.lookup key = some entry ∨
          (c.step call).2.cache.lookup key = some (touch call.time entry) ∨
          (c.step call).2.cache.lookup key = none ∧ c.ttl < call.time - getLastReadAt entry) := by
  obtain ⟨now, op⟩ := call
  cases op with
  | cacheValue order k value =>
    have hne : k ≠ key := by
      rintro rfl
      exact hcall ⟨order, value, rfl⟩
    obtain ⟨hfull, hleast, hlookup⟩ | ⟨hnot, hlookup⟩ :=
      lookup_cacheValue_of_ne hordered hdated hmax order hne.symm value
    · exact .inl ⟨⟨hne, hfull, hleast⟩, hlookup⟩
    · exact .inr ⟨fun hdrops => hnot hdrops.2, .inl (hlookup.trans h)⟩
  | getValue k =>
    refine .inr ⟨id, ?_⟩
    simp only [step]
    by_cases hne : key = k
    · subst hne
      by_cases hfresh : c.Fresh now entry
      · refine .inr (.inl ?_)
        rw [lookup_getValue_self]
        exact getValue_fst_eq_some.mpr ⟨entry, h, hfresh, rfl⟩
      · refine .inr (.inr ⟨?_, Nat.not_le.mp hfresh⟩)
        simp only [getValue, h, if_pos (Nat.not_le.mp hfresh), lookup_erase', if_true]
    · exact .inl ((lookup_getValue_of_ne c now hne).trans h)
  | evict k | deleteEntry k =>
    simp only [step, Drops, deleteEntry_snd]
    exact (lookup_evict_cases c k key).imp_right
      fun ⟨hne, hlookup⟩ => ⟨hne, .inl (hlookup.trans h)⟩
  | sweep =>
    refine .inr ⟨id, ?_⟩
    simp only [step, sweep, lookup_filter, h, Option.filter_some]
    by_cases hold : getLastReadAt entry < now - c.ttl
    · refine .inr (.inr ⟨by simp [hold], ?_⟩)
      omega
    · exact .inl (by simp [hold])

theorem exists_lookup_of_usedKey (h : usedKey (call, (c.step call).1) = some key) :
    ∃ entry, (c.step call).2.cache.lookup key = some entry := by
  obtain ⟨now, op⟩ := call
  cases op with
  | cacheValue order k value =>
    obtain rfl : k = key := Option.some.inj h
    exact ⟨touch now value, by simp [step, cacheValue]⟩
  | getValue k =>
    cases hreply : (c.getValue now k).1 with
    | none => simp [step, usedKey, hreply] at h
    | some entry =>
      obtain rfl : k = key := by simpa [step, usedKey, hreply] using h
      exact ⟨entry, by simp only [step, lookup_getValue_self, hreply]⟩
  | evict | deleteEntry | sweep => cases h

end

/-! ### What happens to a cached value over a run -/

section

variable {maxEntries : Int} {ttl : Nat}

def reached (maxEntries : Int) (ttl : Nat) (ops : List (CacheCall T)) : Cache T :=
  calls.run (newCache maxEntries ttl) ops

/-- The calls with their replies, from an empty cache. -/
def historyOf (maxEntries : Int) (ttl : Nat) (ops : List (CacheCall T)) :
    List (CacheCall T × CacheReply T) :=
  calls.trace (newCache maxEntries ttl) ops

/-- More than the TTL has passed since the last use of the key. -/
def Idle (maxEntries : Int) (ttl : Nat) (ops : List (CacheCall T)) (now : Nat) (key : String) :
    Prop :=
  ∃ t, lastUse key (historyOf maxEntries ttl ops) = some t ∧ ttl < now - t

theorem dropped_concat (start : Cache T) (before since : List (CacheCall T)) (call : CacheCall T)
    (key : String) :
    Dropped start before (since ++ [call]) key ↔
      Dropped start before since key ∨
        Drops (calls.trace start (before ++ since)) (calls.run start (before ++ since)) key
          call := by
  constructor
  · rintro ⟨mid, call', rest, heq, hdrops⟩
    cases rest using List.reverseRecOn with
    | nil =>
      obtain ⟨rfl, hcall⟩ := List.append_inj' heq rfl
      obtain rfl : call = call' := by simpa using hcall
      exact .inr hdrops
    | append_singleton rest last =>
      rw [← List.cons_append, ← List.append_assoc] at heq
      obtain ⟨rfl, -⟩ := List.append_inj' heq rfl
      exact .inl ⟨mid, call', rest, rfl, hdrops⟩
  · rintro (⟨mid, call', rest, rfl, hdrops⟩ | hdrops)
    · exact ⟨mid, call', rest ++ [call], by simp, hdrops⟩
    · exact ⟨since, call, [], rfl, hdrops⟩

variable {ops : List (CacheCall T)} {key : String} {now : Nat}

theorem Idle.concat (h : Idle maxEntries ttl ops call.time key) (hnow : call.time < now)
    (hnone : ((reached maxEntries ttl ops).step call).2.cache.lookup key = none) :
    Idle maxEntries ttl (ops ++ [call]) now key := by
  obtain ⟨t, ht, hlt⟩ := h
  refine ⟨t, ?_, by omega⟩
  rw [historyOf, calls.trace_concat, lastUse_concat, if_neg]
  · exact ht
  · intro hused
    obtain ⟨entry, hentry⟩ := exists_lookup_of_usedKey hused
    exact absurd (hnone.symm.trans hentry) nofun

theorem lookup_reached_concat (ops : List (CacheCall T)) (t : Nat) (order : List String)
    (key : String) (value : T) :
    (reached maxEntries ttl (ops ++ [⟨t, .cacheValue order key value⟩])).cache.lookup key =
      some (touch t value) := by
  rw [reached, calls.run_concat]
  simp [calls, step, cacheValue]

theorem fate_run (hmax : 1 ≤ maxEntries) {first since : List (CacheCall T)} {value entry : T}
    (hfirst : (reached maxEntries ttl first).cache.lookup key = some entry)
    (hentry : TouchedFrom value entry) (hsince : ∀ call ∈ since, ¬ Caches key call)
    (htimed : Timed (first ++ since) now) :
    Dropped (newCache maxEntries ttl) first since key ∧
        (reached maxEntries ttl (first ++ since)).cache.lookup key = none ∨
      ¬ Dropped (newCache maxEntries ttl) first since key ∧
        ((∃ entry, (reached maxEntries ttl (first ++ since)).cache.lookup key = some entry ∧
            TouchedFrom value entry) ∨
          (reached maxEntries ttl (first ++ since)).cache.lookup key = none ∧
            Idle maxEntries ttl (first ++ since) now key) := by
  induction since using List.reverseRecOn generalizing now with
  | nil =>
    refine .inr ⟨?_, .inl ⟨entry, by simpa using hfirst, hentry⟩⟩
    rintro ⟨mid, call, rest, heq, -⟩
    simp at heq
  | append_singleton since call ih =>
    rw [← List.append_assoc] at htimed ⊢
    obtain ⟨hbefore, hnow⟩ := timed_concat.mp htimed
    have hcall : ¬ Caches key call := hsince call (by simp)
    have ih := ih (fun call' hcall' => hsince call' (by simp [hcall'])) hbefore
    have hstep : reached maxEntries ttl (first ++ since ++ [call]) =
        ((reached maxEntries ttl (first ++ since)).step call).2 := calls.run_concat ..
    have hmax' : 1 ≤ (reached maxEntries ttl (first ++ since)).maxEntries := by
      simpa [reached, newCache] using hmax
    rw [dropped_concat, hstep]
    obtain ⟨hdropped, hnone⟩ | ⟨hkept, ⟨old, hold, htouched⟩ | ⟨hnone, hidle⟩⟩ := ih
    · exact .inl ⟨.inl hdropped, lookup_step_of_none hcall hnone⟩
    · obtain ⟨hdrops, hgone⟩ | ⟨hstays, hafter⟩ := lookup_step_of_some (ordered_run hmax hbefore)
        (dated_run (first ++ since)) hmax' hcall hold
      · exact .inl ⟨.inr hdrops, hgone⟩
      · refine .inr ⟨fun h => h.elim hkept hstays, ?_⟩
        obtain hsame | htouch | ⟨hgone, hexpired⟩ := hafter
        · exact .inl ⟨old, hsame, htouched⟩
        · exact .inl ⟨_, htouch, htouched.touch call.time⟩
        · have hidle : Idle maxEntries ttl (first ++ since) call.time key :=
            ⟨_, dated_run (first ++ since) hold, by simpa [reached, newCache] using hexpired⟩
          exact .inr ⟨hgone, hidle.concat hnow hgone⟩
    · have hgone := lookup_step_of_none hcall hnone
      by_cases hdrops : Drops (calls.trace (newCache maxEntries ttl) (first ++ since))
          (calls.run (newCache maxEntries ttl) (first ++ since)) key call
      · exact .inl ⟨.inr hdrops, hgone⟩
      · exact .inr ⟨fun h => h.elim hkept hdrops, .inr ⟨hgone, hidle.concat hnow hgone⟩⟩

/-- `GetValue` misses a key that is idle. -/
theorem getValue_of_idle (h : Idle maxEntries ttl ops now key) :
    ((reached maxEntries ttl ops).getValue now key).1 = none := by
  obtain ⟨t, ht, hlt⟩ := h
  cases hvalue : ((reached maxEntries ttl ops).getValue now key).1 with
  | none => rfl
  | some entry =>
    obtain ⟨old, hold, hfresh, -⟩ := getValue_fst_eq_some.mp hvalue
    have htime : some (getLastReadAt old) = some t := (dated_run ops hold).symm.trans ht
    have hfresh : now - getLastReadAt old ≤ ttl := by
      simpa [Fresh, reached, newCache] using hfresh
    rw [Option.some.injEq] at htime
    omega

/-- `GetValue` finds an entry that is not idle. -/
theorem getValue_of_not_idle {entry : T} (h : ¬ Idle maxEntries ttl ops now key)
    (hentry : (reached maxEntries ttl ops).cache.lookup key = some entry) :
    ((reached maxEntries ttl ops).getValue now key).1 = some (touch now entry) := by
  refine getValue_fst_eq_some.mpr ⟨entry, hentry, ?_, rfl⟩
  by_contra hstale
  refine h ⟨_, dated_run ops hentry, ?_⟩
  simpa only [Fresh, reached, ttl_run, newCache, Nat.not_le] using hstale

theorem getValue_of_none (h : c.cache.lookup key = none) (now : Nat) :
    (c.getValue now key).1 = none := by
  simp [getValue, h]

/-- What the cache promises after `ops` for a call at `now`. -/
structure BoundedLru (maxEntries : Int) (ttl : Nat) (ops : List (CacheCall T)) (now : Nat) :
    Prop where
  /-- There are never more entries than allowed. -/
  bounded : ((reached maxEntries ttl ops).cache.len : Int) ≤ maxEntries
  /-- `CacheValue` removes no entry while there is room. -/
  room : ((reached maxEntries ttl ops).cache.len : Int) < maxEntries →
    ∀ order key value, ∀ other ≠ key,
      ((reached maxEntries ttl ops).cacheValue now order key value).cache.lookup other =
        (reached maxEntries ttl ops).cache.lookup other
  /-- In a full cache it removes exactly the least recently used one. -/
  full : maxEntries ≤ (reached maxEntries ttl ops).cache.len →
    ∀ order key value, ∃ oldest,
      LeastRecent (historyOf maxEntries ttl ops) (reached maxEntries ttl ops) oldest ∧
      ∀ other ≠ key,
        ((reached maxEntries ttl ops).cacheValue now order key value).cache.lookup other =
          if other = oldest then none else (reached maxEntries ttl ops).cache.lookup other
  /-- `GetValue` misses the last value cached under a key exactly when it was dropped since then
  or not used for longer than the TTL, and otherwise returns it. -/
  returns : ∀ before t order key value since,
    ops = before ++ ⟨t, .cacheValue order key value⟩ :: since →
    (∀ call ∈ since, ¬ Caches key call) →
      (((reached maxEntries ttl ops).getValue now key).1 = none ↔
        Dropped (newCache maxEntries ttl) (before ++ [⟨t, .cacheValue order key value⟩]) since key ∨
          Idle maxEntries ttl ops now key) ∧
      ∀ entry, ((reached maxEntries ttl ops).getValue now key).1 = some entry →
        TouchedFrom value entry
  /-- `GetValue` misses a key that was never cached. -/
  absent : ∀ key, (∀ call ∈ ops, ¬ Caches key call) →
    ((reached maxEntries ttl ops).getValue now key).1 = none

theorem lookup_run_of_not_caches (h : ∀ call ∈ ops, ¬ Caches key call) :
    (reached maxEntries ttl ops).cache.lookup key = none :=
  calls.run_induction (fun c => c.cache.lookup key = none) (fun call => ¬ Caches key call)
    (fun _ _ hcall hnone => lookup_step_of_none hcall hnone) h rfl

/-- At strictly increasing times the cache is a bounded cache that drops the least recently used
entry, and loses a value in no other way than by `Evict`, `DeleteEntry` and its TTL. -/
theorem boundedLru_run (hmax : 1 ≤ maxEntries) (ttl : Nat) (ops : List (CacheCall T)) (now : Nat)
    (htimed : Timed ops now) : BoundedLru maxEntries ttl ops now := by
  have hordered : Ordered now (reached maxEntries ttl ops) := ordered_run hmax htimed
  have hmaxEntries : (reached maxEntries ttl ops).maxEntries = maxEntries := by
    simp [reached, newCache]
  refine ⟨hordered.room.trans_eq hmaxEntries, ?_, ?_, ?_, ?_⟩
  · intro hroom order key value other hne
    rw [lookup_cacheValue_of_room (hmaxEntries.symm ▸ hroom), if_neg hne]
  · intro hfull order key value
    exact lookup_cacheValue_of_full hordered (dated_run ops) (hmaxEntries.symm ▸ hmax)
      (hmaxEntries.symm ▸ hfull) order key value
  · rintro before t order key value since rfl hsince
    have hfirst : (reached maxEntries ttl _).cache.lookup key = some (touch t value) :=
      lookup_reached_concat before t order key value
    rw [List.append_cons before _ since] at htimed ⊢
    generalize before ++ [⟨t, .cacheValue order key value⟩] = first at hfirst htimed ⊢
    obtain ⟨hdropped, hnone⟩ | ⟨hkept, ⟨entry, hentry, htouched⟩ | ⟨hnone, hidle⟩⟩ :=
      fate_run hmax hfirst ⟨[t], rfl⟩ hsince htimed
    · simp [getValue_of_none hnone, hdropped]
    · by_cases hidle : Idle maxEntries ttl (first ++ since) now key
      · simp [getValue_of_idle hidle, hidle]
      · rw [getValue_of_not_idle hidle hentry]
        refine ⟨by simp [hkept, hidle], ?_⟩
        rintro _ ⟨⟩
        exact htouched.touch now
    · simp [getValue_of_none hnone, hidle]
  · intro key hkey
    exact getValue_of_none (lookup_run_of_not_caches hkey) now

end

/-- Two addresses are cached, one after the other. -/
def twoEntries : List (CacheCall UaCacheEntry) :=
  [⟨1, .cacheValue [] "192.0.2.1" ⟨"192.0.2.1", 0⟩⟩,
    ⟨2, .cacheValue [] "192.0.2.2" ⟨"192.0.2.2", 0⟩⟩]

theorem boundedLru_twoEntries : Timed twoEntries 3 ∧ BoundedLru 2 60 twoEntries 3 := by
  have htimed : Timed twoEntries 3 := by simp [Timed, twoEntries]
  exact ⟨htimed, boundedLru_run (by decide) 60 twoEntries 3 htimed⟩

/-! ### Caching a key that is there -/

section

theorem argmin_rangeKeys_ne {m : GoMap String T} {key other oldest : String} (hother : other ∈ m)
    (hne : other ≠ key) (hle : lastRead m other ≤ lastRead m key)
    (hmin : (m.rangeKeys [other]).argmin (lastRead m) = some oldest) : oldest ≠ key := by
  rintro rfl
  have hindex := List.index_of_argmin hmin (mem_rangeKeys.mpr hother) hle
  have hzero : (m.rangeKeys [other]).idxOf other = 0 := by
    simp [rangeKeys, hother]
  rw [hzero, Nat.le_zero] at hindex
  simp [rangeKeys, hother, hne] at hindex

theorem refresh_frame_iff_of_mem {key : String} (hkey : key ∈ c.cache) :
    (∀ now order value, ∀ other ≠ key,
        (c.cacheValue now order key value).cache.lookup other = c.cache.lookup other) ↔
      (c.cache.len : Int) < c.maxEntries ∨
        ∀ other ∈ c.cache, other ≠ key → lastRead c.cache key < lastRead c.cache other := by
  obtain ⟨entry, hentry⟩ := mem_iff_exists_lookup.mp hkey
  constructor
  · intro hframe
    by_contra hnot
    simp only [not_or, Int.not_lt, not_forall, Nat.not_lt] at hnot
    obtain ⟨hfull, other, hother, hne, hle⟩ := hnot
    obtain ⟨hnone, -⟩ | ⟨oldest, hmin, hmem, -, heq⟩ := evictOldest_cases c [other]
    · rw [hnone key] at hentry
      cases hentry
    · have holdest := argmin_rangeKeys_ne hother hne hle hmin
      have hlost := hframe 0 [other] entry oldest holdest
      simp only [cacheValue, if_pos hfull, heq, lookup_insert', if_neg holdest,
        lookup_erase', if_true] at hlost
      exact AList.lookup_eq_none.mp hlost.symm hmem
  · rintro (hroom | holdest) now order value other hne
    · rw [lookup_cacheValue_of_room hroom, if_neg hne]
    · simp only [cacheValue, lookup_insert', if_neg hne]
      split
      · obtain ⟨-, heq⟩ | ⟨oldest, -, hmem, hmin, heq⟩ := evictOldest_cases c order
        · rw [heq]
        · have hself : oldest = key := by
            by_contra hdiff
            exact absurd (hmin key hkey) (Nat.not_le.mpr (holdest oldest hmem hdiff))
          rw [heq, hself, lookup_erase', if_neg hne]
      · rfl

/-- In a reachable state, caching a key that is there leaves the other keys alone exactly when
the cache is not full or no other entry is as old. -/
theorem refresh_frame_iff (maxEntries : Int) (ttl : Nat) (ops : List (CacheCall T)) (key : String)
    (hkey : key ∈ (reached maxEntries ttl ops).cache) :
    (∀ now order value, ∀ other ≠ key,
        ((reached maxEntries ttl ops).cacheValue now order key value).cache.lookup other =
          (reached maxEntries ttl ops).cache.lookup other) ↔
      ((reached maxEntries ttl ops).cache.len : Int) < maxEntries ∨
        ∀ other ∈ (reached maxEntries ttl ops).cache, other ≠ key →
          lastRead (reached maxEntries ttl ops).cache key <
            lastRead (reached maxEntries ttl ops).cache other := by
  have hmaxEntries : (reached maxEntries ttl ops).maxEntries = maxEntries := by
    simp [reached, newCache]
  simpa only [hmaxEntries] using refresh_frame_iff_of_mem hkey

theorem refresh_frame_oldest :
    "192.0.2.1" ∈ (reached 2 60 twoEntries).cache ∧
      ∀ now order value, ∀ other ≠ "192.0.2.1",
        ((reached 2 60 twoEntries).cacheValue now order "192.0.2.1" value).cache.lookup other =
          (reached 2 60 twoEntries).cache.lookup other := by
  have hkey : "192.0.2.1" ∈ (reached 2 60 twoEntries).cache := by decide
  refine ⟨hkey, (refresh_frame_iff 2 60 twoEntries _ hkey).mpr (.inr ?_)⟩
  decide

/-- Caching the second address again in a full cache drops the first one. -/
theorem refresh_evicts_other :
    "192.0.2.2" ∈ (reached 2 60 twoEntries).cache ∧
      "192.0.2.1" ∈ (reached 2 60 twoEntries).cache ∧
      "192.0.2.1" ∉ ((reached 2 60 twoEntries).cacheValue 3 [] "192.0.2.2"
        ⟨"192.0.2.2", 0⟩).cache := by
  decide

end

end Cache

end Torii.Util
