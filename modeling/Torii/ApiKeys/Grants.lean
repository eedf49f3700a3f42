import Torii.ApiKeys.Service

/-!
# What a granted check proves

Every row and every cached entry goes back to a key that `CreateApiKey` returned earlier in the run
(`Justified`): through the hash and the text forms of the scopes and of the expiry date, which has
lost its fraction of a second.
-/

namespace Torii.ApiKeys

open Go Torii.Util

def createdKeys (history : List (Op × Out)) : List ApiKey :=
  history.filterMap fun
    | (_, .created (.ok key)) => some key
    | _ => none

/-- The expiry date as it is written to the table. -/
def expiryText (env : Env) (key : ApiKey) : Option String :=
  if key.expires ≠ 0 then some (env.layout.format key.expires) else none

structure RowOf (env : Env) (key : ApiKey) (row : Row) : Prop where
  hashed : row.key = env.hash key.key
  scopes : ∀ scope, scope ∈ unmarshalScopes row.scopes ↔ scope ∈ key.scopes
  expiresAt : row.expiresAt = expiryText env key

structure EntryOf (env : Env) (key : ApiKey) (hashedKey : String) (entry : CacheEntry) : Prop where
  hashed : hashedKey = env.hash key.key
  scopes : ∀ scope, scope ∈ entry.allowedScopes ↔ scope ∈ key.scopes
  expiresAt : entry.expiresAt = ((expiryText env key).bind env.layout.parse).getD 0

structure Justified (env : Env) (keys : List ApiKey) (s : Service) : Prop where
  clock : Time.unixEpoch ≤ s.now
  expiries : ∀ key ∈ keys, key.expires = 0 ∨ Time.unixEpoch ≤ key.expires
  rows : ∀ row ∈ s.store.rows, ∃ key ∈ keys, RowOf env key row
  entries : ∀ k entry, s.cache.cache.lookup k = some entry → ∃ key ∈ keys, EntryOf env key k entry

theorem availableScopes_plain : ∀ scope ∈ availableScopesMap, PlainScope scope := by
  intro scope hscope
  have hkeys : ∀ scope ∈ availableScopesMap.keys, PlainScope scope := by decide
  exact hkeys scope (AList.mem_keys.mp hscope)

theorem rowOf_newRow (env : Env) (order : List Scope) (id : Nat) {key : ApiKey}
    (hscopes : ∀ scope ∈ key.scopes, scope ∈ availableScopesMap) :
    RowOf env key (Store.newRow env.layout order id { key with key := env.hash key.key }) where
  hashed := rfl
  scopes := mem_unmarshalScopes_marshalScopes order
    fun scope hscope => availableScopes_plain scope (hscopes scope hscope)
  expiresAt := rfl

theorem justified_new (env : Env) (sinceEpoch : Nat) : Justified env [] (.new sinceEpoch) where
  clock := Nat.le_add_right _ _
  expiries := by simp
  rows := by simp [Service.new, Store.empty]
  entries := by simp [Service.new]

section

variable {env : Env}

theorem mem_createdKeys_concat {history : List (Op × Out)} {op : Op} {out : Out} {key : ApiKey} :
    key ∈ createdKeys (history ++ [(op, out)]) ↔
      key ∈ createdKeys history ∨ out = .created (.ok key) := by
  simp only [createdKeys, List.filterMap_append, List.mem_append]
  refine or_congr_right ?_
  cases out with
  | created result =>
    cases result with
    | error err => simp
    | ok key' => simp [eq_comm]
  | deleted | verdict | done => simp

theorem expires_of_created {s : Service} {op : Op} {key : ApiKey}
    (h : ((machine env).step s op).1 = .created (.ok key)) :
    key.expires = 0 ∨ s.now ≤ key.expires := by
  cases op with
  | create request rawKey order faults =>
    obtain ⟨err, hcreate⟩ | ⟨key', store, hcreate, -, -, hexp, -⟩ :=
      createApiKey_cases env s request rawKey order faults
    · simp [machine, hcreate] at h
    · simp only [machine, hcreate, Out.created.injEq, Except.ok.injEq] at h
      exact h ▸ hexp
  | _ => simp [machine] at h

theorem justified_step (history : List (Op × Out)) (s : Service) (op : Op)
    (h : Justified env (createdKeys history) s) :
    Justified env (createdKeys (history ++ [(op, ((machine env).step s op).1)]))
      ((machine env).step s op).2 where
  clock := Nat.le_trans h.clock (clock_step env s op).1
  expiries := by
    intro key hkey
    rcases mem_createdKeys_concat.mp hkey with hkey | hkey
    · exact h.expiries key hkey
    · exact (expires_of_created hkey).imp_right (Nat.le_trans h.clock)
  rows := by
    intro row hrow
    rcases rows_step op hrow with hrow | ⟨key, request, order, faults, -, hout, rfl, -, hscopes⟩
    · obtain ⟨key, hkey, hof⟩ := h.rows row hrow
      exact ⟨key, mem_createdKeys_concat.mpr (.inl hkey), hof⟩
    · exact ⟨key, mem_createdKeys_concat.mpr (.inr hout), rowOf_newRow env order _ hscopes⟩
  entries := by
    intro k entry hentry
    rcases cache_step op hentry with (hold | ⟨old, hold, -, rfl⟩) | hrow
    · obtain ⟨key, hkey, hof⟩ := h.entries k entry hold
      exact ⟨key, mem_createdKeys_concat.mpr (.inl hkey), hof⟩
    · obtain ⟨key, hkey, hof⟩ := h.entries k old hold
      exact ⟨key, mem_createdKeys_concat.mpr (.inl hkey), hof.hashed, hof.scopes, hof.expiresAt⟩
    · obtain ⟨row, hrow, hk, hexp, -, hscopes⟩ := hrow
      obtain ⟨key, hkey, hof⟩ := h.rows row hrow
      refine ⟨key, mem_createdKeys_concat.mpr (.inl hkey), hk ▸ hof.hashed, ?_, ?_⟩
      · intro scope
        rw [hscopes, hof.scopes]
      · rw [hexp, hof.expiresAt]

theorem justified_run (env : Env) (sinceEpoch : Nat) (ops : List Op) :
    Justified env (createdKeys ((machine env).trace (.new sinceEpoch) ops))
      ((machine env).run (.new sinceEpoch) ops) :=
  (machine env).trace_induction (fun history s => Justified env (createdKeys history) s)
    (justified_new env sinceEpoch) justified_step ops

theorem parse_expiryText (env : Env) {key : ApiKey} (hzero : key.expires ≠ 0)
    (hepoch : Time.unixEpoch ≤ key.expires) (hyear : key.expires < Time.year10000) :
    ∃ text t, expiryText env key = some text ∧ env.layout.parse text = some t ∧ t ≠ 0 ∧
      t ≤ key.expires := by
  refine ⟨_, _, if_pos hzero, env.layout.parse_format _ hyear, ?_, Time.truncSecond_le _⟩
  have hsecond : Time.second ≤ Time.unixEpoch := by decide
  exact Nat.ne_of_gt (Time.truncSecond_pos (Nat.le_trans hsecond hepoch))

end

/-- In every run, a check answers true only if an earlier creation returned exactly this raw
key, with the scope among its scopes and with no expiry date or one that is not over. The
dates that RFC 3339 can write are those before the year 10000: either the clock or all the
expiry dates stay below it. -/
theorem granted_of_created (env : Env) (hhash : Function.Injective env.hash) (sinceEpoch : Nat)
    (ops : List Op) (key : String) (scope : Scope) (order : List String)
    (faults : Service.CheckFaults)
    (hyear : ((machine env).run (.new sinceEpoch) ops).now < Time.year10000 ∨
      ∀ created ∈ createdKeys ((machine env).trace (.new sinceEpoch) ops),
        created.expires < Time.year10000)
    (hgrant : ((machine env).step ((machine env).run (.new sinceEpoch) ops)
      (.check key scope order faults)).1 = .verdict true none) :
    ∃ created ∈ createdKeys ((machine env).trace (.new sinceEpoch) ops),
      created.key = key ∧ scope ∈ created.scopes ∧
        (created.expires = 0 ∨
          ((machine env).run (.new sinceEpoch) ops).now ≤ created.expires) := by
  have hjust := justified_run env sinceEpoch ops
  -- a date that RFC 3339 cannot write is not over, since then the clock is below it
  have hexpiry : ∀ created ∈ createdKeys ((machine env).trace (.new sinceEpoch) ops),
      (∀ text t, expiryText env created = some text → env.layout.parse text = some t → t ≠ 0 →
        ((machine env).run (.new sinceEpoch) ops).now ≤ t) →
      created.expires = 0 ∨ ((machine env).run (.new sinceEpoch) ops).now ≤ created.expires := by
    intro created hmem hnow
    by_cases hzero : created.expires = 0
    · exact .inl hzero
    · have hepoch := (hjust.expiries created hmem).resolve_left hzero
      by_cases hlt : created.expires < Time.year10000
      · obtain ⟨text, t, htext, hparse, hne, hle⟩ := parse_expiryText env hzero hepoch hlt
        exact .inr (Nat.le_trans (hnow text t htext hparse hne) hle)
      · have hclock := hyear.resolve_right fun hall => hlt (hall created hmem)
        omega
  rcases verdict_true_cases hgrant with ⟨entry, hlive, hscope⟩ | ⟨row, hrow, hkey, hexp, hscope⟩
  · obtain ⟨hlookup, -, hunexpired⟩ := hlive
    obtain ⟨created, hmem, hof⟩ := hjust.entries _ entry hlookup
    refine ⟨created, hmem, (hhash hof.hashed).symm, (hof.scopes scope).mp hscope, ?_⟩
    apply hexpiry created hmem
    intro text t htext hparse hne
    have ht : entry.expiresAt = t := by simp [hof.expiresAt, htext, hparse]
    omega
  · obtain ⟨created, hmem, hof⟩ := hjust.rows row hrow
    refine ⟨created, hmem, hhash (hof.hashed.symm.trans hkey), (hof.scopes scope).mp hscope, ?_⟩
    apply hexpiry created hmem
    rintro text t htext hparse -
    exact hexp text t (hof.expiresAt.trans htext) hparse

/-- A key created in 2026 that expires in 2030, checked right after its creation. -/
theorem granted_sampleKey :
    let ops : List Op := [.create (some ⟨"ci", ["read_stats"], Time.unixEpoch +
      1893456000 * Time.second⟩) sampleKey [] ⟨false, false⟩]
    let s := (machine sampleEnv).run (.new (1767225600 * Time.second)) ops
    ((machine sampleEnv).step s (.check sampleKey "read_stats" [] ⟨false, false⟩)).1 =
        .verdict true none ∧
      ∃ created ∈ createdKeys
          ((machine sampleEnv).trace (.new (1767225600 * Time.second)) ops),
        created.key = sampleKey ∧ "read_stats" ∈ created.scopes ∧
          (created.expires = 0 ∨ s.now ≤ created.expires) := by
  intro ops s
  have hgrant : ((machine sampleEnv).step s (.check sampleKey "read_stats" [] ⟨false, false⟩)).1 =
      .verdict true none := by
    simp only [machine, Out.verdict.injEq]
    decide +kernel
  exact ⟨hgrant, granted_of_created sampleEnv sampleHash_injective (1767225600 * Time.second) ops
    sampleKey "read_stats" [] ⟨false, false⟩ (.inl (by decide +kernel)) hgrant⟩

end Torii.ApiKeys
