import Torii.Util.CacheRuns

/-!
# Sweeps cannot be observed

A swept cache is smaller than one that was not swept, so a later `CacheValue` may evict an entry
from one of them only. The entry is then an expired one: when the oldest entry of a full cache is
fresh, all of its entries are, and the other cache has no room for anything else (`Crowded`).
-/

namespace Torii.Util.Cache

open Go EvictableEntry

variable {T : Type*}

def getResult : CacheCall T × CacheReply T → Option (Nat × String × Option T)
  | (⟨time, .getValue key⟩, .value result) => some (time, key, result)
  | _ => none

def unswept (call : CacheCall T) : Option (CacheCall T) :=
  match call.op with
  | .cacheValue _ key value => some ⟨call.time, .cacheValue [] key value⟩
  | .sweep => none
  | _ => some call

variable [EvictableEntry T]

instance (c : Cache T) (now : Nat) (entry : T) : Decidable (c.Fresh now entry) :=
  inferInstanceAs (Decidable (now - getLastReadAt entry ≤ c.ttl))

def freshEntry (c : Cache T) (now : Nat) (key : String) : Option T :=
  (c.cache.lookup key).filter fun entry => c.Fresh now entry

/-- The first half of `CacheValue`. -/
def makeRoom (c : Cache T) (order : List String) : Cache T :=
  if c.maxEntries ≤ c.cache.len then c.evictOldest order else c

theorem cacheValue_eq (c : Cache T) (now : Nat) (order : List String) (key : String) (value : T) :
    c.cacheValue now order key value =
      { c.makeRoom order with cache := (c.makeRoom order).cache.insert key (touch now value) } :=
  rfl

/-! ### The fresh entries after a call -/

section

variable {c : Cache T} {now : Nat} {key : String}

theorem freshEntry_eq_some {entry : T} :
    c.freshEntry now key = some entry ↔ c.cache.lookup key = some entry ∧ c.Fresh now entry := by
  simp [freshEntry, Option.filter_eq_some_iff]

theorem freshEntry_of_not_fresh {entry : T} (hentry : c.cache.lookup key = some entry)
    (h : ¬ c.Fresh now entry) : c.freshEntry now key = none := by
  simp [freshEntry, hentry, h]

theorem freshEntry_later {now' : Nat} (h : now ≤ now') (key : String) :
    c.freshEntry now' key =
      (c.freshEntry now key).filter fun entry => now' - getLastReadAt entry ≤ c.ttl := by
  rw [freshEntry, freshEntry, Option.filter_filter]
  congr 1
  funext entry
  have hearlier : now' - getLastReadAt entry ≤ c.ttl → now - getLastReadAt entry ≤ c.ttl :=
    Nat.le_trans (Nat.sub_le_sub_right h _)
  rw [← Bool.decide_and, decide_eq_decide]
  exact ⟨fun hlater => ⟨hearlier hlater, hlater⟩, fun hboth => hboth.2⟩

/-- `GetValue` sees the fresh entries only. -/
theorem getValue_fst (c : Cache T) (now : Nat) (key : String) :
    (c.getValue now key).1 = (c.freshEntry now key).map (touch now) := by
  apply Option.ext
  intro entry
  rw [getValue_fst_eq_some, Option.map_eq_some_iff]
  constructor
  · rintro ⟨old, hold, hfresh, rfl⟩
    exact ⟨old, freshEntry_eq_some.mpr ⟨hold, hfresh⟩, rfl⟩
  · rintro ⟨old, hold, rfl⟩
    obtain ⟨hlookup, hfresh⟩ := freshEntry_eq_some.mp hold
    exact ⟨old, hlookup, hfresh, rfl⟩

theorem fresh_touch (c : Cache T) (now : Nat) (entry : T) : c.Fresh now (touch now entry) := by
  rw [Fresh, getLastReadAt_touch, Nat.sub_self]
  exact Nat.zero_le _

theorem freshEntry_getValue (k : String) :
    (c.getValue now k).2.freshEntry now key =
      if key = k then (c.freshEntry now k).map (touch now) else c.freshEntry now key := by
  have hsame : ∀ entry, (c.getValue now k).2.Fresh now entry ↔ c.Fresh now entry := fun entry => by
    rw [Fresh, Fresh, ttl_getValue]
  split
  · next heq =>
    subst heq
    rw [freshEntry, lookup_getValue_self, getValue_fst]
    cases c.freshEntry now key with
    | none => rfl
    | some old =>
      exact Option.filter_some_pos (decide_eq_true ((hsame _).mpr (fresh_touch c now old)))
  · next hne => simp [freshEntry, lookup_getValue_of_ne c now hne, hsame]

theorem freshEntry_erase (k : String) :
    freshEntry { c with cache := c.cache.erase k } now key =
      if key = k then none else c.freshEntry now key := by
  simp only [freshEntry, GoMap.lookup_erase']
  split <;> rfl

theorem freshEntry_insert (k : String) (value : T) :
    freshEntry { c with cache := c.cache.insert k (touch now value) } now key =
      if key = k then some (touch now value) else c.freshEntry now key := by
  simp only [freshEntry, GoMap.lookup_insert']
  split
  · exact Option.filter_some_pos (decide_eq_true (fresh_touch c now value))
  · rfl

theorem freshEntry_sweep (c : Cache T) (now : Nat) (key : String) :
    (c.sweep now).freshEntry now key = c.freshEntry now key := by
  simp only [freshEntry, sweep, GoMap.lookup_filter, Option.filter_filter]
  congr 1
  funext entry
  by_cases hold : getLastReadAt entry < now - c.ttl
  · have hstale : ¬ now - getLastReadAt entry ≤ c.ttl := by omega
    simp [Fresh, hold, hstale]
  · simp [Fresh, hold]

end

/-! ### Full caches with fresh entries only -/

/-- A full cache with fresh entries only, of which `oldest` is the oldest. -/
structure Crowded (now : Nat) (c : Cache T) (oldest : String) : Prop where
  full : c.maxEntries ≤ c.cache.len
  mem : oldest ∈ c.cache
  fresh : ∀ {key entry}, c.cache.lookup key = some entry → c.Fresh now entry
  least : ∀ key ∈ c.cache, lastRead c.cache oldest ≤ lastRead c.cache key

section

variable {c : Cache T} {now : Nat} {oldest : String}

theorem freshEntry_makeRoom_of_crowded (hordered : Ordered now c) (h : Crowded now c oldest)
    (order : List String) (key : String) :
    (c.makeRoom order).freshEntry now key =
      if key = oldest then none else c.freshEntry now key := by
  rw [makeRoom, if_pos h.full]
  obtain ⟨hnone, -⟩ | ⟨found, -, hmem, hmin, heq⟩ := evictOldest_cases c order
  · exact absurd h.mem (AList.lookup_eq_none.mp (hnone oldest))
  · obtain ⟨entry, hentry⟩ := GoMap.mem_iff_exists_lookup.mp h.mem
    obtain ⟨entry', hentry'⟩ := GoMap.mem_iff_exists_lookup.mp hmem
    have htimes : lastRead c.cache oldest = lastRead c.cache found :=
      Nat.le_antisymm (h.least found hmem) (hmin oldest h.mem)
    rw [lastRead_eq hentry, lastRead_eq hentry'] at htimes
    rw [heq, hordered.distinct hentry hentry' htimes]
    exact freshEntry_erase found

theorem freshEntry_makeRoom_of_not_crowded (h : ∀ oldest, ¬ Crowded now c oldest)
    (order : List String) (key : String) :
    (c.makeRoom order).freshEntry now key = c.freshEntry now key := by
  unfold makeRoom
  split
  · next hfull =>
    obtain ⟨-, heq⟩ | ⟨found, -, hmem, hmin, heq⟩ := evictOldest_cases c order
    · rw [heq]
    · obtain ⟨entry, hentry⟩ := GoMap.mem_iff_exists_lookup.mp hmem
      -- the oldest entry is stale, since otherwise the cache would be crowded
      have hstale : ¬ c.Fresh now entry := by
        intro hfresh
        refine h found ⟨hfull, hmem, fun {key' entry'} hentry' => ?_, hmin⟩
        have hle := hmin key' (GoMap.mem_of_lookup hentry')
        rw [lastRead_eq hentry, lastRead_eq hentry'] at hle
        exact Nat.le_trans (Nat.sub_le_sub_left hle now) hfresh
      rw [heq, freshEntry_erase]
      split
      · next hkey => rw [hkey, freshEntry_of_not_fresh hentry hstale]
      · rfl
  · rfl

end

/-! ### Two caches side by side -/

/-- Two caches with the same bounds that agree on the entries that are still fresh. -/
structure Alike (now : Nat) (c c' : Cache T) : Prop where
  left : Ordered now c
  right : Ordered now c'
  maxEntries : c'.maxEntries = c.maxEntries
  ttl : c'.ttl = c.ttl
  fresh : ∀ key, c'.freshEntry now key = c.freshEntry now key

namespace Alike

variable {now : Nat} {c c' : Cache T}

theorem symm (h : Alike now c c') : Alike now c' c :=
  ⟨h.right, h.left, h.maxEntries.symm, h.ttl.symm, fun key => (h.fresh key).symm⟩

theorem freshEntry_later (h : Alike now c c') {now' : Nat} (hnow : now ≤ now') (key : String) :
    c'.freshEntry now' key = c.freshEntry now' key := by
  rw [Cache.freshEntry_later hnow, Cache.freshEntry_later hnow, h.fresh, h.ttl]

theorem later (h : Alike now c c') {now' : Nat} (hnow : now ≤ now') : Alike now' c c' where
  left := ⟨h.left.room, fun hentry => (h.left.past hentry).trans_le hnow, h.left.distinct⟩
  right := ⟨h.right.room, fun hentry => (h.right.past hentry).trans_le hnow, h.right.distinct⟩
  maxEntries := h.maxEntries
  ttl := h.ttl
  fresh := h.freshEntry_later hnow

theorem lookup (h : Alike now c c') {key : String} {entry : T}
    (hentry : c.cache.lookup key = some entry) (hfresh : c.Fresh now entry) :
    c'.cache.lookup key = some entry := by
  have hsome : c.freshEntry now key = some entry := freshEntry_eq_some.mpr ⟨hentry, hfresh⟩
  rw [← h.fresh] at hsome
  exact (freshEntry_eq_some.mp hsome).1

theorem crowded (h : Alike now c c') {oldest : String} (hcrowded : Crowded now c oldest) :
    Crowded now c' oldest := by
  have hsub : ∀ key ∈ c.cache, key ∈ c'.cache := by
    intro key hkey
    obtain ⟨entry, hentry⟩ := GoMap.mem_iff_exists_lookup.mp hkey
    exact GoMap.mem_of_lookup (h.lookup hentry (hcrowded.fresh hentry))
  have hroom := h.right.room
  have hfull := hcrowded.full
  have hmax := h.maxEntries
  have hle := GoMap.len_le_of_forall_mem hsub
  have hback : ∀ key ∈ c'.cache, key ∈ c.cache := fun key =>
    GoMap.mem_of_forall_mem hsub (by omega)
  have hlookup : ∀ key ∈ c'.cache, c'.cache.lookup key = c.cache.lookup key := by
    intro key hkey
    obtain ⟨entry, hentry⟩ := GoMap.mem_iff_exists_lookup.mp (hback key hkey)
    rw [hentry, h.lookup hentry (hcrowded.fresh hentry)]
  refine ⟨by omega, hsub _ hcrowded.mem, fun {key entry} hentry => ?_, fun key hkey => ?_⟩
  · rw [hlookup key (GoMap.mem_of_lookup hentry)] at hentry
    rw [Fresh, h.ttl]
    exact hcrowded.fresh hentry
  · rw [lastRead, lastRead, hlookup oldest (hsub _ hcrowded.mem), hlookup key hkey]
    exact hcrowded.least key (hback key hkey)

theorem freshEntry_makeRoom (h : Alike now c c') (order order' : List String) (key : String) :
    (c'.makeRoom order').freshEntry now key = (c.makeRoom order).freshEntry now key := by
  by_cases hcrowded : ∃ oldest, Crowded now c oldest
  · obtain ⟨oldest, hcrowded⟩ := hcrowded
    rw [freshEntry_makeRoom_of_crowded h.right (h.crowded hcrowded),
      freshEntry_makeRoom_of_crowded h.left hcrowded, h.fresh]
  · have hnot : ∀ oldest, ¬ Crowded now c oldest := fun oldest hold => hcrowded ⟨oldest, hold⟩
    have hnot' : ∀ oldest, ¬ Crowded now c' oldest := fun oldest hold =>
      hnot oldest (h.symm.crowded hold)
    rw [freshEntry_makeRoom_of_not_crowded hnot', freshEntry_makeRoom_of_not_crowded hnot, h.fresh]

theorem step {call call' : CacheCall T} (h : Alike call.time c c') (hmax : 1 ≤ c.maxEntries)
    (hcall : unswept call = some call') (hnow : call.time < now) :
    Alike now (c.step call).2 (c'.step call').2 ∧
      getResult (call, (c.step call).1) = getResult (call', (c'.step call').1) := by
  suffices hfresh : call'.time = call.time ∧
      (∀ key, (c'.step call').2.freshEntry call.time key =
        (c.step call).2.freshEntry call.time key) ∧
      getResult (call, (c.step call).1) = getResult (call', (c'.step call').1) by
    obtain ⟨htime, hfresh, hresult⟩ := hfresh
    have hmax' : 1 ≤ c'.maxEntries := h.maxEntries.symm ▸ hmax
    have hright : Ordered call'.time c' := htime.symm ▸ h.right
    have halike : Alike (call.time + 1) (c.step call).2 (c'.step call').2 := by
      refine ⟨h.left.step hmax (by omega), hright.step hmax' (by omega), ?_, ?_, fun key => ?_⟩
      · rw [maxEntries_step, maxEntries_step, h.maxEntries]
      · rw [ttl_step, ttl_step, h.ttl]
      · rw [Cache.freshEntry_later (Nat.le_succ call.time), hfresh, ttl_step, h.ttl,
          ← ttl_step c call, ← Cache.freshEntry_later (Nat.le_succ call.time)]
    exact ⟨halike.later hnow, hresult⟩
  obtain ⟨t, op⟩ := call
  cases op with
  | cacheValue order =>
    cases hcall
    refine ⟨rfl, fun k => ?_, rfl⟩
    simp only [Cache.step, cacheValue_eq, freshEntry_insert, h.freshEntry_makeRoom order []]
  | getValue key =>
    cases hcall
    refine ⟨rfl, fun k => ?_, ?_⟩
    · simp only [Cache.step, freshEntry_getValue, h.fresh]
    · simp only [Cache.step, getResult, getValue_fst, h.fresh]
  | evict | deleteEntry =>
    cases hcall
    refine ⟨rfl, fun k => ?_, rfl⟩
    simp [Cache.step, deleteEntry_snd, evict, freshEntry_erase, h.fresh]
  | sweep => cases hcall

theorem sweep {call : CacheCall T} (h : Alike call.time c c') (hmax : 1 ≤ c.maxEntries)
    (hcall : call.op = .sweep) (hnow : call.time < now) : Alike now (c.step call).2 c' := by
  have hordered : Ordered now (c.step call).2 := h.left.step hmax hnow
  have hstep : (c.step call).2 = c.sweep call.time := by rw [Cache.step, hcall]
  rw [hstep] at hordered ⊢
  refine ⟨hordered, (h.later hnow.le).right, h.maxEntries, h.ttl, fun key => ?_⟩
  rw [Cache.freshEntry_later hnow.le, h.fresh, ← freshEntry_sweep, h.ttl]
  exact (Cache.freshEntry_later (c := c.sweep call.time) hnow.le key).symm

end Alike

omit [EvictableEntry T] in
/-- A call that `unswept` leaves out is a sweep. -/
theorem op_of_unswept_eq_none {call : CacheCall T} (h : unswept call = none) :
    call.op = .sweep := by
  obtain ⟨t, op⟩ := call
  cases op with
  | sweep => rfl
  | _ => cases h

/-- The results of `GetValue` do not depend on the sweeps. -/
theorem getResults_unswept {ops : List (CacheCall T)} {now : Nat} {c c' : Cache T}
    (h : Alike now c c') (hmax : 1 ≤ c.maxEntries)
    (hnow : ∀ call ∈ ops, now ≤ call.time) (htimes : ops.Pairwise (·.time < ·.time)) :
    (calls.trace c ops).filterMap getResult =
      (calls.trace c' (ops.filterMap unswept)).filterMap getResult := by
  induction ops generalizing now c c' with
  | nil => rfl
  | cons call ops ih =>
    obtain ⟨hlater, htimes⟩ := List.pairwise_cons.mp htimes
    have halike : Alike call.time c c' := h.later (hnow call List.mem_cons_self)
    have hmax' : 1 ≤ (calls.step c call).2.maxEntries := by
      change 1 ≤ (c.step call).2.maxEntries
      rwa [maxEntries_step]
    rw [Machine.trace, List.filterMap_cons]
    cases hcall : unswept call with
    | none =>
      have hop := op_of_unswept_eq_none hcall
      have hresult : getResult (call, (calls.step c call).1) = none := by
        obtain ⟨t, op⟩ := call
        subst hop
        rfl
      rw [hresult, List.filterMap_cons_none hcall]
      exact ih (halike.sweep hmax hop (Nat.lt_succ_self _)) hmax' hlater htimes
    | some call' =>
      obtain ⟨hstep, hreply⟩ := halike.step hmax hcall (Nat.lt_succ_self _)
      have hrest := ih hstep hmax' hlater htimes
      have hresult : getResult (call, (calls.step c call).1) =
          getResult (call', (calls.step c' call').1) := hreply
      rw [List.filterMap_cons_some hcall, Machine.trace, List.filterMap_cons, hresult]
      cases getResult (call', (calls.step c' call').1) with
      | none => exact hrest
      | some result => exact congrArg (result :: ·) hrest

theorem alike_newCache {maxEntries : Int} (hmax : 1 ≤ maxEntries) (ttl : Nat) :
    Alike 0 (newCache maxEntries ttl : Cache T) (newCache maxEntries ttl) :=
  ⟨ordered_newCache hmax ttl 0, ordered_newCache hmax ttl 0, rfl, rfl, fun _ => rfl⟩

/-- Two sequences of calls at strictly increasing times that differ in their sweeps only, and in
the orders in which the map is ranged over, give the same results of `GetValue`. -/
theorem sweeps_unobservable {maxEntries : Int} (hmax : 1 ≤ maxEntries) (ttl : Nat)
    (ops ops' : List (CacheCall T)) (htimes : ops.Pairwise (·.time < ·.time))
    (htimes' : ops'.Pairwise (·.time < ·.time))
    (hsame : ops.filterMap unswept = ops'.filterMap unswept) :
    (historyOf maxEntries ttl ops).filterMap getResult =
      (historyOf maxEntries ttl ops').filterMap getResult := by
  have halike := alike_newCache (T := T) hmax ttl
  rw [historyOf, historyOf, getResults_unswept halike hmax (fun _ _ => Nat.zero_le _) htimes,
    getResults_unswept halike hmax (fun _ _ => Nat.zero_le _) htimes', hsame]

/-- A sweep between two cached addresses and a `GetValue` of the first. -/
theorem sweeps_unobservable_twoEntries :
    (historyOf 2 5 (twoEntries ++ [⟨8, .getValue "192.0.2.1"⟩])).filterMap getResult =
      (historyOf 2 5 (twoEntries ++ [⟨7, .sweep⟩, ⟨8, .getValue "192.0.2.1"⟩])).filterMap
        getResult :=
  sweeps_unobservable (by decide) 5 _ _ (by decide) (by decide) rfl

end Torii.Util.Cache
