import Mathlib.Data.List.MinMax
import Torii.Go.Map
import Torii.Go.Time

/-!
# The evicting cache

`Cache` of `internal/util/evict_cache.go`. The lock makes each operation atomic; counters,
notifications and the cleanup ticker do not touch the entries and are left out. `evictOldest` ranges
over a map, so it takes the order of the iteration.
-/

namespace Torii.Util

open Go

/-- `EvictableEntry`; `Touch` reads the clock. -/
class EvictableEntry (T : Type*) where
  touch : Nat → T → T
  getLastReadAt : T → Nat
  getLastReadAt_touch : ∀ now entry, getLastReadAt (touch now entry) = now

open EvictableEntry

structure Cache (T : Type*) where
  maxEntries : Int
  ttl : Nat
  cache : GoMap String T

namespace Cache

variable {T : Type*} [EvictableEntry T]

/-- One turn of the loop of `evictOldest`; the state is empty while `first` is true. -/
def older (m : GoMap String T) (oldest : Option (String × Nat)) (key : String) :
    Option (String × Nat) :=
  match m.lookup key with
  | none => oldest
  | some entry =>
    match oldest with
    | none => some (key, getLastReadAt entry)
    | some (oldestKey, oldestTime) =>
      if getLastReadAt entry < oldestTime then some (key, getLastReadAt entry)
      else some (oldestKey, oldestTime)

def evictOldest (c : Cache T) (order : List String) : Cache T :=
  match (c.cache.rangeKeys order).foldl (older c.cache) none with
  | none => c
  | some (oldestKey, _) => { c with cache := c.cache.erase oldestKey }

def cacheValue (c : Cache T) (now : Nat) (order : List String) (key : String) (value : T) :
    Cache T :=
  let c := if c.maxEntries ≤ c.cache.len then c.evictOldest order else c
  { c with cache := c.cache.insert key (touch now value) }

/-- `GetValue`; `none` is `ErrCacheMiss`. -/
def getValue (c : Cache T) (now : Nat) (key : String) : Option T × Cache T :=
  match c.cache.lookup key with
  | none => (none, c)
  | some entry =>
    if c.ttl < now - getLastReadAt entry then
      (none, { c with cache := c.cache.erase key })
    else
      (some (touch now entry), { c with cache := c.cache.insert key (touch now entry) })

def evict (c : Cache T) (key : String) : Cache T := { c with cache := c.cache.erase key }

/-- `DeleteEntry`, with its error. -/
def deleteEntry (c : Cache T) (key : String) : Option String × Cache T :=
  if key ∈ c.cache then (none, { c with cache := c.cache.erase key })
  else (some ("key " ++ key ++ " not found in cache"), c)

def sweep (c : Cache T) (now : Nat) : Cache T :=
  { c with cache := c.cache.filter fun _ entry => ! decide (getLastReadAt entry < now - c.ttl) }

/-- An entry that `GetValue` would return. -/
def Fresh (c : Cache T) (now : Nat) (entry : T) : Prop := now - getLastReadAt entry ≤ c.ttl

/-- The time of the last read of the entry under a key. -/
def lastRead (m : GoMap String T) (key : String) : Nat := ((m.lookup key).map getLastReadAt).getD 0

variable (c : Cache T) {entry : T} (now : Nat) (order : List String) (key : String)

theorem lastRead_eq {m : GoMap String T} {key : String}
    (h : m.lookup key = some entry) : lastRead m key = getLastReadAt entry := by
  simp [lastRead, h]

theorem foldl_older {m : GoMap String T} {keys : List String} (h : ∀ key ∈ keys, key ∈ m) :
    keys.foldl (older m) none =
      (keys.argmin (lastRead m)).map fun key => (key, lastRead m key) := by
  induction keys using List.reverseRecOn with
  | nil => rfl
  | append_singleton keys key ih =>
    obtain ⟨entry, hentry⟩ := GoMap.mem_iff_exists_lookup.mp (h key (by simp))
    rw [List.foldl_append, ih fun k hk => h k (by simp [hk]), List.argmin_concat]
    cases keys.argmin (lastRead m) with
    | none => simp [older, hentry, lastRead_eq hentry]
    | some oldest =>
      simp only [Option.map_some, List.foldl_cons, List.foldl_nil, older, hentry,
        lastRead_eq hentry]
      split
      · simp [lastRead_eq hentry]
      · simp

theorem evictOldest_cases : (∀ key, c.cache.lookup key = none) ∧ c.evictOldest order = c ∨
      ∃ oldest, (c.cache.rangeKeys order).argmin (lastRead c.cache) = some oldest ∧
        oldest ∈ c.cache ∧ (∀ key ∈ c.cache, lastRead c.cache oldest ≤ lastRead c.cache key) ∧
        c.evictOldest order = { c with cache := c.cache.erase oldest } := by
  have hfold : (c.cache.rangeKeys order).foldl (older c.cache) none = _ :=
    foldl_older fun _ hkey => GoMap.mem_rangeKeys.mp hkey
  cases hmin : (c.cache.rangeKeys order).argmin (lastRead c.cache) with
  | none =>
    rw [hmin] at hfold
    refine .inl ⟨fun key => ?_, by rw [evictOldest, hfold]; rfl⟩
    rw [AList.lookup_eq_none, ← GoMap.mem_rangeKeys, List.argmin_eq_none.mp hmin]
    exact List.not_mem_nil
  | some oldest =>
    rw [hmin] at hfold
    refine .inr ⟨oldest, rfl, GoMap.mem_rangeKeys.mp (List.argmin_mem hmin), ?_, ?_⟩
    · intro key hkey
      exact List.le_of_mem_argmin (GoMap.mem_rangeKeys.mpr hkey) hmin
    · rw [evictOldest, hfold]
      rfl

theorem lookup_evictOldest {c : Cache T} {order : List String} {key : String}
    (h : (c.evictOldest order).cache.lookup key = some entry) :
    c.cache.lookup key = some entry := by
  unfold evictOldest at h
  split at h
  · exact h
  · exact (GoMap.lookup_of_erase h).2

@[simp] theorem ttl_evictOldest : (c.evictOldest order).ttl = c.ttl := by
  unfold evictOldest
  split <;> rfl

@[simp] theorem ttl_cacheValue (value : T) : (c.cacheValue now order key value).ttl = c.ttl := by
  simp only [cacheValue]
  split <;> simp

@[simp] theorem ttl_getValue : (c.getValue now key).2.ttl = c.ttl := by
  unfold getValue
  split
  · rfl
  · split <;> rfl

@[simp] theorem maxEntries_getValue : (c.getValue now key).2.maxEntries = c.maxEntries := by
  unfold getValue
  split
  · rfl
  · split <;> rfl

@[simp] theorem maxEntries_evictOldest : (c.evictOldest order).maxEntries = c.maxEntries := by
  unfold evictOldest
  split <;> rfl

@[simp] theorem maxEntries_cacheValue (value : T) :
    (c.cacheValue now order key value).maxEntries = c.maxEntries := by
  simp only [cacheValue]
  split <;> simp

/-- While there is room, `CacheValue` evicts nothing. -/
theorem lookup_cacheValue_of_room {c : Cache T} (hroom : (c.cache.len : Int) < c.maxEntries)
    (now : Nat) (order : List String) (key k : String) (value : T) :
    (c.cacheValue now order key value).cache.lookup k =
      if k = key then some (touch now value) else c.cache.lookup k := by
  simp [cacheValue, if_neg (Int.not_le.mpr hroom), GoMap.lookup_insert']

/-- `GetValue` leaves the other keys alone. -/
theorem lookup_getValue_of_ne {key k : String} (hne : k ≠ key) :
    (c.getValue now key).2.cache.lookup k = c.cache.lookup k := by
  unfold getValue
  split
  · rfl
  · split
    · rw [GoMap.lookup_erase', if_neg hne]
    · rw [GoMap.lookup_insert', if_neg hne]

theorem lookup_getValue_self :
    (c.getValue now key).2.cache.lookup key = (c.getValue now key).1 := by
  unfold getValue
  cases hold : c.cache.lookup key with
  | none => exact hold
  | some old =>
    simp only
    split
    · simp
    · simp

theorem lookup_cacheValue {c : Cache T} {now : Nat} {order : List String} {key k : String}
    {value : T} (h : (c.cacheValue now order key value).cache.lookup k = some entry) :
    k = key ∧ entry = touch now value ∨ k ≠ key ∧ c.cache.lookup k = some entry := by
  obtain heq | ⟨hk, h⟩ := GoMap.lookup_insert_cases h
  · exact .inl heq
  · refine .inr ⟨hk, ?_⟩
    split at h
    · exact lookup_evictOldest h
    · exact h

/-- `GetValue` returns exactly the fresh entry, touched. -/
theorem getValue_fst_eq_some {c : Cache T} {now : Nat} {key : String} :
    (c.getValue now key).1 = some entry ↔
      ∃ old, c.cache.lookup key = some old ∧ c.Fresh now old ∧ entry = touch now old := by
  unfold getValue Fresh
  cases c.cache.lookup key with
  | none => simp
  | some old =>
    simp only [Option.some.injEq, exists_eq_left']
    split
    · next hstale => simp [Nat.not_le.mpr hstale]
    · next hfresh => simp [Nat.not_lt.mp hfresh, eq_comm]

theorem lookup_getValue {c : Cache T} {now : Nat} {key k : String}
    (h : (c.getValue now key).2.cache.lookup k = some entry) :
    k = key ∧ (∃ old, c.cache.lookup key = some old ∧ c.Fresh now old ∧ entry = touch now old) ∨
      k ≠ key ∧ c.cache.lookup k = some entry := by
  unfold getValue at h
  cases hold : c.cache.lookup key with
  | none =>
    rw [hold] at h
    refine .inr ⟨?_, h⟩
    rintro rfl
    change c.cache.lookup k = some entry at h
    rw [hold] at h
    cases h
  | some old =>
    simp only [hold] at h
    split at h
    · exact .inr (GoMap.lookup_of_erase h)
    · next hfresh =>
      obtain ⟨hk, hentry⟩ | hother := GoMap.lookup_insert_cases h
      · exact .inl ⟨hk, old, rfl, Nat.not_lt.mp hfresh, hentry⟩
      · exact .inr hother

omit [EvictableEntry T] in
theorem lookup_evict {c : Cache T} {key k : String}
    (h : (c.evict key).cache.lookup k = some entry) : k ≠ key ∧ c.cache.lookup k = some entry :=
  GoMap.lookup_of_erase h

theorem lookup_sweep {c : Cache T} {now : Nat} {k : String}
    (h : (c.sweep now).cache.lookup k = some entry) : c.cache.lookup k = some entry := by
  rw [sweep, GoMap.lookup_filter, Option.filter_eq_some_iff] at h
  exact h.1

end Cache

end Torii.Util
