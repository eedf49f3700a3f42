import Torii.ApiKeys.Store
import Torii.Go.Calendar
import Torii.Lib.Machine
import Torii.Util.Cache

/-!
# The API key service

`internal/service/api_key_service.go`: the table of keys behind a cache keyed by the hashed key.
Part of an operation are the random raw key, the iteration orders of the maps, and which store calls
fail.
-/

namespace Torii.ApiKeys

open Go Torii.Util

/-- What the service is configured with: the keyed hash and the text form of instants. -/
structure Env where
  hash : String → String
  layout : Time.RFC3339

/-- `CreateApiKeyRequest`; a nil slice of scopes is the empty one. -/
structure CreateApiKeyRequest where
  keyAlias : String
  scopes : List String
  expiryDate : Nat

structure CacheEntry where
  allowedScopes : GoMap String UInt8
  expiresAt : Nat
  lastSeen : Nat

instance : EvictableEntry CacheEntry where
  touch now entry := { entry with lastSeen := now }
  getLastReadAt := CacheEntry.lastSeen
  getLastReadAt_touch _ _ := rfl

inductive CreateError where
  | invalidRequest
  | invalidScopes
  | invalidAlias
  | invalidExpiryDate
  | duplicatedAlias
  | failedToCreate (cause : StoreError)
deriving DecidableEq

def CreateError.message : CreateError → String
  | .invalidRequest => "invalid API key request: no data"
  | .invalidScopes => "invalid API key request: invalid scopes"
  | .invalidAlias => "invalid API key request: invalid alias"
  | .invalidExpiryDate => "invalid API key request: invalid expiry date"
  | .duplicatedAlias => "invalid API key request: duplicated alias"
  | .failedToCreate _ => "failed to create API key: "

structure Service where
  now : Nat
  store : Store
  cache : Cache CacheEntry

namespace Service

/-- `NewApiKeyService` on an empty table, some time after the Unix epoch. -/
def new (sinceEpoch : Nat) : Service where
  now := Time.unixEpoch + sinceEpoch
  store := .empty
  cache := ⟨10000, Time.hour, ∅⟩

/-- `warmCache`; `fault` says that `GetApiKeyByRawKey` fails. -/
def warmCache (env : Env) (s : Service) (order : List String) (fault : Bool)
    (hashedKey : String) : Service :=
  if fault then s
  else
    match s.store.getApiKeyByRawKey env.layout hashedKey with
    | none => s
    | some apiKey =>
      let scopes : GoMap String UInt8 :=
        apiKey.scopes.keys.foldl (fun m scope => m.insert scope 1) ∅
      { s with cache := s.cache.cacheValue s.now order hashedKey ⟨scopes, apiKey.expires, s.now⟩ }

/-- Which store calls of `IsKeyValidForScope` fail. -/
structure CheckFaults where
  query : Bool
  warm : Bool

/-- `IsKeyValidForScope`: the verdict, with the error of the store if there is one. -/
def isKeyValidForScope (env : Env) (s : Service) (key : String) (scope : Scope)
    (order : List String) (faults : CheckFaults) : (Bool × Option StoreError) × Service :=
  let hashedKey := env.hash key
  let (found, cache) := s.cache.getValue s.now hashedKey
  match found with
  | some entry =>
    if entry.expiresAt ≠ 0 ∧ entry.expiresAt < s.now then
      ((false, none), { s with cache := cache.evict hashedKey })
    else ((decide (scope ∈ entry.allowedScopes), none), { s with cache := cache })
  | none =>
    let s := { s with cache := cache }
    if faults.query then ((false, some .unavailable), s)
    else
      let valid := s.store.isKeyValidForScope env.layout s.now hashedKey scope
      ((valid, none), if valid then s.warmCache env order faults.warm hashedKey else s)

/-- `GetApiKey`: the key itself is never returned. -/
def getApiKey (env : Env) (s : Service) (keyAlias : String) : Option ApiKey :=
  (s.store.getApiKey env.layout keyAlias).map fun apiKey => { apiKey with key := "" }

def scopeMap : List String → Scopes → Option Scopes
  | [], m => some m
  | scope :: scopes, m =>
    match availableScopesMap.lookup scope with
    | none => none
    | some b => scopeMap scopes (m.insert scope b)

/-- Which store calls of `CreateApiKey` fail. -/
structure CreateFaults where
  lookup : Bool
  insert : Bool

/-- `CreateApiKey`; `rawKey` is the result of `generateApiKey`. -/
def createApiKey (env : Env) (s : Service) (request : Option CreateApiKeyRequest)
    (rawKey : String) (order : List Scope) (faults : CreateFaults) :
    Except CreateError ApiKey × Service :=
  match request with
  | none => (.error .invalidRequest, s)
  | some req =>
    if req.keyAlias = "" then (.error .invalidAlias, s)
    else if req.scopes = [] then (.error .invalidScopes, s)
    else if req.expiryDate ≠ 0 ∧ req.expiryDate < s.now then (.error .invalidExpiryDate, s)
    -- a failing lookup does not stop the creation
    else if faults.lookup = false ∧ (s.getApiKey env req.keyAlias).isSome then
      (.error .duplicatedAlias, s)
    else
      match scopeMap req.scopes ∅ with
      | none => (.error .invalidScopes, s)
      | some scopes =>
        let dbKey : ApiKey :=
          { id := 0, keyAlias := req.keyAlias, key := env.hash rawKey, scopes := scopes,
            expires := req.expiryDate, createdAt := Time.unix s.now }
        let result :=
          if faults.insert then .error .unavailable
          else s.store.newApiKey env.layout order dbKey
        match result with
        | .error cause => (.error (.failedToCreate cause), s)
        | .ok store => (.ok { dbKey with key := rawKey }, { s with store := store })

def deleteApiKey (s : Service) (keyAlias : String) (fault : Bool) : Option StoreError × Service :=
  if fault then (some .unavailable, s)
  else (none, { s with store := s.store.deleteApiKey keyAlias })

end Service

inductive Op where
  | create (request : Option CreateApiKeyRequest) (rawKey : String) (order : List Scope)
      (faults : Service.CreateFaults)
  | delete (keyAlias : String) (fault : Bool)
  | check (key : String) (scope : Scope) (order : List String) (faults : Service.CheckFaults)
  | evict (hashedKey : String)
  | sweep
  | tick (d : Nat)

inductive Out where
  | created (result : Except CreateError ApiKey)
  | deleted (err : Option StoreError)
  | verdict (valid : Bool) (err : Option StoreError)
  | done

def machine (env : Env) : Machine Service Op Out where
  step s op :=
    match op with
    | .create request rawKey order faults =>
      let (result, s) := s.createApiKey env request rawKey order faults
      (.created result, s)
    | .delete keyAlias fault =>
      let (err, s) := s.deleteApiKey keyAlias fault
      (.deleted err, s)
    | .check key scope order faults =>
      let ((valid, err), s) := s.isKeyValidForScope env key scope order faults
      (.verdict valid err, s)
    | .evict hashedKey => (.done, { s with cache := s.cache.evict hashedKey })
    | .sweep => (.done, { s with cache := s.cache.sweep s.now })
    | .tick d => (.done, { s with now := s.now + d })

/-! ### What one step can do -/

section

variable {env : Env} {s : Service}

/-- A cached entry that `IsKeyValidForScope` answers from, scope apart. -/
def Live (s : Service) (hashedKey : String) (entry : CacheEntry) : Prop :=
  s.cache.cache.lookup hashedKey = some entry ∧ s.cache.Fresh s.now entry ∧
    (entry.expiresAt = 0 ∨ s.now ≤ entry.expiresAt)

/-- The entry was cached before, up to the time of its last read, which only a fresh entry
has renewed. -/
def Kept (s : Service) (hashedKey : String) (entry : CacheEntry) : Prop :=
  s.cache.cache.lookup hashedKey = some entry ∨
    ∃ old, s.cache.cache.lookup hashedKey = some old ∧ s.cache.Fresh s.now old ∧
      entry = { old with lastSeen := s.now }

/-- The entry was read from a row that allows some scope. -/
def FromRow (env : Env) (s : Service) (hashedKey : String) (entry : CacheEntry) : Prop :=
  ∃ row ∈ s.store.rows, row.key = hashedKey ∧
    entry.expiresAt = (row.expiresAt.bind env.layout.parse).getD 0 ∧
    (∃ scope, scope ∈ entry.allowedScopes) ∧
    ∀ scope, scope ∈ entry.allowedScopes ↔ scope ∈ unmarshalScopes row.scopes

/-- A row that `IsKeyValidForScope` of the store accepts, scope apart. -/
def Unexpired (layout : Time.RFC3339) (now : Nat) (row : Row) : Prop :=
  ∀ text t, row.expiresAt = some text → layout.parse text = some t → now ≤ t

variable {scope : Scope} {entry : CacheEntry} {key : String}

theorem store_isKeyValidForScope {layout : Time.RFC3339} {store : Store} {now : Nat}
    (h : store.isKeyValidForScope layout now key scope = true) :
    ∃ row, store.rows.find? (·.key = key) = some row ∧ Unexpired layout now row ∧
      scope ∈ unmarshalScopes row.scopes := by
  unfold Store.isKeyValidForScope at h
  cases hrow : store.rows.find? (·.key = key) with
  | none => simp [hrow] at h
  | some row =>
    simp only [hrow, Bool.if_false_left, Bool.and_eq_true, Bool.not_eq_true',
      decide_eq_true_iff] at h
    refine ⟨row, rfl, ?_, h.2⟩
    intro text t htext hparse
    simpa [htext, hparse] using h.1

theorem mem_foldl_insert (scopes : List String) (m : GoMap String UInt8) (scope : String) :
    scope ∈ scopes.foldl (fun m scope => m.insert scope 1) m ↔ scope ∈ scopes ∨ scope ∈ m := by
  induction scopes generalizing m with
  | nil => simp
  | cons s scopes ih =>
    rw [List.foldl_cons, ih, AList.mem_insert, List.mem_cons]
    exact or_left_comm.trans or_assoc.symm

variable {order : List String} {faults : Service.CheckFaults} {hashedKey : String}

theorem verdict_true_cases {err : Option StoreError}
    (h : ((machine env).step s (.check key scope order faults)).1 = .verdict true err) :
    (∃ entry, Live s (env.hash key) entry ∧ scope ∈ entry.allowedScopes) ∨
      ∃ row ∈ s.store.rows, row.key = env.hash key ∧ Unexpired env.layout s.now row ∧
        scope ∈ unmarshalScopes row.scopes := by
  simp only [machine, Out.verdict.injEq] at h
  replace h := h.1
  unfold Service.isKeyValidForScope at h
  cases hfound : s.cache.getValue s.now (env.hash key) with
  | mk found cache =>
    simp only [hfound] at h
    cases found with
    | some entry =>
      have hget := Cache.getValue_fst_eq_some.mp (congrArg Prod.fst hfound)
      obtain ⟨old, hlookup, hfresh, rfl⟩ := hget
      simp only at h
      split at h
      · cases h
      · next hexp =>
        refine .inl ⟨old, ⟨hlookup, hfresh, ?_⟩, of_decide_eq_true h⟩
        by_cases hzero : old.expiresAt = 0
        · exact .inl hzero
        · exact .inr (Nat.not_lt.mp fun hlt => hexp ⟨hzero, hlt⟩)
    | none =>
      simp only at h
      split at h
      · cases h
      · obtain ⟨row, hrow, hexp, hscope⟩ := store_isKeyValidForScope h
        have hmem := List.mem_of_find?_eq_some hrow
        have hkey := List.find?_some hrow
        exact .inr ⟨row, hmem, by simpa using hkey, hexp, hscope⟩

theorem verdict_of_live (h : Live s (env.hash key) entry) (hscope : scope ∈ entry.allowedScopes) :
    ((machine env).step s (.check key scope order faults)).1 = .verdict true none := by
  obtain ⟨hlookup, hfresh, hexp⟩ := h
  have hget : (s.cache.getValue s.now (env.hash key)).1 =
      some (EvictableEntry.touch s.now entry) :=
    Cache.getValue_fst_eq_some.mpr ⟨entry, hlookup, hfresh, rfl⟩
  have hnot : ¬ (entry.expiresAt ≠ 0 ∧ entry.expiresAt < s.now) := by omega
  simp only [machine, Service.isKeyValidForScope, hget]
  simp [EvictableEntry.touch, hnot, hscope]

theorem mem_scopeMap {scopes : List String} {m result : Scopes}
    (h : Service.scopeMap scopes m = some result) (hm : ∀ scope ∈ m, scope ∈ availableScopesMap) :
    ∀ scope ∈ result, scope ∈ availableScopesMap := by
  induction scopes generalizing m with
  | nil =>
    cases h
    exact hm
  | cons name scopes ih =>
    rw [Service.scopeMap] at h
    cases havail : availableScopesMap.lookup name with
    | none => simp [havail] at h
    | some b =>
      simp only [havail] at h
      apply ih h
      intro scope hscope
      rcases (AList.mem_insert _).mp hscope with rfl | hscope
      · exact GoMap.mem_of_lookup havail
      · exact hm scope hscope

theorem createApiKey_cases (env : Env) (s : Service) (request : Option CreateApiKeyRequest)
    (rawKey : String) (order : List Scope) (faults : Service.CreateFaults) :
    (∃ err, s.createApiKey env request rawKey order faults = (.error err, s)) ∨
      ∃ (key : ApiKey) (store : Store),
        s.createApiKey env request rawKey order faults = (.ok key, { s with store := store }) ∧
        s.store.newApiKey env.layout order { key with key := env.hash rawKey } = .ok store ∧
        key.key = rawKey ∧ (key.expires = 0 ∨ s.now ≤ key.expires) ∧
        ∀ scope ∈ key.scopes, scope ∈ availableScopesMap := by
  unfold Service.createApiKey
  cases request with
  | none => exact .inl ⟨_, rfl⟩
  | some req =>
    simp only
    split
    · exact .inl ⟨_, rfl⟩
    · split
      · exact .inl ⟨_, rfl⟩
      · split
        · exact .inl ⟨_, rfl⟩
        · next hexpiry =>
          split
          · exact .inl ⟨_, rfl⟩
          · cases hscopes : Service.scopeMap req.scopes ∅ with
            | none => exact .inl ⟨_, rfl⟩
            | some scopes =>
              simp only
              split
              · exact .inl ⟨_, rfl⟩
              · next store hstore =>
                refine .inr ⟨_, store, rfl, ?_, rfl, ?_, mem_scopeMap hscopes (by simp)⟩
                · split at hstore
                  · cases hstore
                  · exact hstore
                · change req.expiryDate = 0 ∨ s.now ≤ req.expiryDate
                  omega

theorem warmCache_cases (order : List String) (fault : Bool) (hashedKey : String) :
    s.warmCache env order fault hashedKey = s ∨
      ∃ row entry, s.store.rows.find? (·.key = hashedKey) = some row ∧
        s.warmCache env order fault hashedKey =
          { s with cache := s.cache.cacheValue s.now order hashedKey entry } ∧
        entry.expiresAt = (row.expiresAt.bind env.layout.parse).getD 0 ∧
        ∀ scope, scope ∈ entry.allowedScopes ↔ scope ∈ unmarshalScopes row.scopes := by
  unfold Service.warmCache
  split
  · exact .inl rfl
  · unfold Store.getApiKeyByRawKey
    cases hrow : s.store.rows.find? (·.key = hashedKey) with
    | none => exact .inl rfl
    | some row =>
      refine .inr ⟨row, _, rfl, rfl, rfl, ?_⟩
      intro scope
      rw [mem_foldl_insert]
      simp [Store.rowApiKey, AList.mem_keys]

theorem kept_of_getValue {k : String}
    (h : (s.cache.getValue s.now hashedKey).2.cache.lookup k = some entry) : Kept s k entry := by
  obtain ⟨rfl, old, hold, hfresh, rfl⟩ | ⟨-, hold⟩ := Cache.lookup_getValue h
  · exact .inr ⟨old, hold, hfresh, rfl⟩
  · exact .inl hold

theorem warmCache_snd (order : List String) (fault : Bool)
    (hvalid : s.store.isKeyValidForScope env.layout s.now hashedKey scope = true) :
    ∃ cache, s.warmCache env order fault hashedKey = { s with cache := cache } ∧
      cache.ttl = s.cache.ttl ∧
      ∀ k entry, cache.cache.lookup k = some entry →
        s.cache.cache.lookup k = some entry ∨ FromRow env s k entry := by
  obtain ⟨row, hrow, -, hscope⟩ := store_isKeyValidForScope hvalid
  obtain hwarm | ⟨row', entry, hrow', hwarm, hexp, hscopes⟩ :=
    warmCache_cases order fault hashedKey
  · exact ⟨s.cache, hwarm, rfl, fun _ _ h => .inl h⟩
  · refine ⟨_, hwarm, by simp, ?_⟩
    intro k e h
    obtain ⟨rfl, rfl⟩ | ⟨-, h⟩ := Cache.lookup_cacheValue h
    · obtain rfl : row' = row := Option.some.inj (hrow'.symm.trans hrow)
      have hkey := List.find?_some hrow
      exact .inr ⟨row', List.mem_of_find?_eq_some hrow, by simpa using hkey, hexp,
        ⟨scope, (hscopes scope).mpr hscope⟩, hscopes⟩
    · exact .inl h

theorem isKeyValidForScope_snd (env : Env) (s : Service) (key : String) (scope : Scope)
    (order : List String) (faults : Service.CheckFaults) :
    ∃ cache, (s.isKeyValidForScope env key scope order faults).2 = { s with cache := cache } ∧
      cache.ttl = s.cache.ttl ∧
      ∀ k entry, cache.cache.lookup k = some entry → Kept s k entry ∨ FromRow env s k entry := by
  have httl := Cache.ttl_getValue s.cache s.now (env.hash key)
  have hkept : ∀ k entry, (s.cache.getValue s.now (env.hash key)).2.cache.lookup k = some entry →
      Kept s k entry ∨ FromRow env s k entry := fun k entry h => .inl (kept_of_getValue h)
  cases hfound : s.cache.getValue s.now (env.hash key) with
  | mk found cache =>
    rw [hfound] at httl hkept
    cases found with
    | some entry =>
      simp only [Service.isKeyValidForScope, hfound]
      split
      · exact ⟨_, rfl, httl, fun k entry h => hkept k entry (Cache.lookup_evict h).2⟩
      · exact ⟨cache, rfl, httl, hkept⟩
    | none =>
      simp only [Service.isKeyValidForScope, hfound]
      split
      · exact ⟨cache, rfl, httl, hkept⟩
      · split
        · next hvalid =>
          obtain ⟨warmed, hwarm, hwarmTtl, hentries⟩ :=
            warmCache_snd (s := { s with cache := cache }) order faults.warm hvalid
          rw [hwarm]
          refine ⟨warmed, rfl, hwarmTtl.trans httl, ?_⟩
          intro k entry h
          exact (hentries k entry h).elim (hkept k entry) .inr
        · exact ⟨cache, rfl, httl, hkept⟩

/-- Step lemma for the clock and the lifetime of entries. -/
theorem clock_step (env : Env) (s : Service) (op : Op) :
    s.now ≤ ((machine env).step s op).2.now ∧
      ((machine env).step s op).2.cache.ttl = s.cache.ttl := by
  cases op with
  | create request rawKey order faults =>
    obtain ⟨err, h⟩ | ⟨key, store, h, -⟩ :=
      createApiKey_cases env s request rawKey order faults <;>
      simp [machine, h]
  | delete keyAlias fault => cases fault <;> simp [machine, Service.deleteApiKey]
  | check key scope order faults =>
    obtain ⟨cache, h, httl, -⟩ := isKeyValidForScope_snd env s key scope order faults
    simp [machine, h, httl]
  | evict hashedKey => simp [machine, Cache.evict]
  | sweep => simp [machine, Cache.sweep]
  | tick d => simp [machine]

theorem rows_step (op : Op) {row : Row} (h : row ∈ ((machine env).step s op).2.store.rows) :
    row ∈ s.store.rows ∨
      ∃ (key : ApiKey) (request : Option CreateApiKeyRequest) (order : List Scope)
        (faults : Service.CreateFaults), op = .create request key.key order faults ∧
        ((machine env).step s op).1 = .created (.ok key) ∧
        row = Store.newRow env.layout order s.store.nextId { key with key := env.hash key.key } ∧
        (key.expires = 0 ∨ s.now ≤ key.expires) ∧
        ∀ scope ∈ key.scopes, scope ∈ availableScopesMap := by
  cases op with
  | create request rawKey order faults =>
    obtain ⟨err, hcreate⟩ | ⟨key, store, hcreate, hstore, rfl, hexp, hscopes⟩ :=
      createApiKey_cases env s request rawKey order faults
    · simp only [machine, hcreate] at h
      exact .inl h
    · simp only [machine, hcreate] at h ⊢
      rcases (Store.mem_of_newApiKey hstore row).mp h with rfl | h
      · exact .inr ⟨key, request, order, faults, rfl, rfl, rfl, hexp, hscopes⟩
      · exact .inl h
  | delete keyAlias fault =>
    cases fault with
    | false => exact .inl (Store.mem_deleteApiKey.mp h).1
    | true => exact .inl h
  | check key scope order faults =>
    obtain ⟨cache, hcheck, -, -⟩ :=
      isKeyValidForScope_snd env s key scope order faults
    simp only [machine, hcheck] at h
    exact .inl h
  | evict | sweep | tick => exact .inl h

/-- Step lemma for the cache. -/
theorem cache_step (op : Op) {k : String}
    (h : ((machine env).step s op).2.cache.cache.lookup k = some entry) :
    Kept s k entry ∨ FromRow env s k entry := by
  cases op with
  | create request rawKey order faults =>
    obtain ⟨err, hcreate⟩ | ⟨key, store, hcreate, -⟩ :=
      createApiKey_cases env s request rawKey order faults
    · simp only [machine, hcreate] at h
      exact .inl (.inl h)
    · simp only [machine, hcreate] at h
      exact .inl (.inl h)
  | delete keyAlias fault =>
    cases fault with
    | false | true => exact .inl (.inl h)
  | check key scope order faults =>
    obtain ⟨cache, hcheck, -, hentries⟩ :=
      isKeyValidForScope_snd env s key scope order faults
    simp only [machine, hcheck] at h
    exact hentries k entry h
  | evict hashedKey => exact .inl (.inl (Cache.lookup_evict h).2)
  | sweep => exact .inl (.inl (Cache.lookup_sweep h))
  | tick d => exact .inl (.inl h)

end

/-! ### A concrete environment -/

/-- A raw key as `rand.Text` generates them. -/
def sampleKey : String := "GEZDGNBVGY3TQOJQGEZDGNBVGY"

/-- HMAC-SHA256 of the sample key under the secret `0123456789abcdef0123456789abcdef`; any
other text is only marked. -/
def sampleHash (key : String) : String :=
  if key = sampleKey then "03332f637209e44bfee35806f09f2401dbc85d1b0f3f2b2babe4004f7165af77"
  else "hmac:" ++ key

def sampleEnv : Env := ⟨sampleHash, Time.rfc3339⟩

theorem sampleHash_injective : Function.Injective sampleHash := by
  have hmark : ∀ key : String,
      "hmac:" ++ key ≠ "03332f637209e44bfee35806f09f2401dbc85d1b0f3f2b2babe4004f7165af77" := by
    intro key h
    have hlist := congrArg String.toList h
    rw [String.toList_append] at hlist
    simp at hlist
  intro a b h
  unfold sampleHash at h
  split at h <;> split at h
  · simp_all
  · exact absurd h.symm (hmark b)
  · exact absurd h (hmark a)
  · rw [← String.toList_inj] at h ⊢
    simpa using h

end Torii.ApiKeys
