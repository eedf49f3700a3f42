import Torii.ApiKeys.Service

/-!
# When revocation is final

`DeleteApiKey` leaves the cache alone. Without a live entry the key is dead and stays so: an entry
only enters the cache from a row, only a fresh entry is touched, and raw keys do not repeat. With
one, every further check renews the entry.
-/

namespace Torii.ApiKeys

open Go Torii.Util

def rawKeys (ops : List Op) : List String :=
  ops.filterMap fun
    | .create _ rawKey _ _ => some rawKey
    | _ => none

/-- Neither the table nor the cache answers for the key. -/
structure Dead (s : Service) (hashedKey : String) : Prop where
  rows : ∀ row ∈ s.store.rows, row.key ≠ hashedKey
  entries : ∀ entry, ¬ Live s hashedKey entry

section

variable {env : Env} {s : Service}

theorem Dead.verdict {key : String} (h : Dead s (env.hash key)) (scope : Scope)
    (order : List String) (faults : Service.CheckFaults) :
    ∃ err, ((machine env).step s (.check key scope order faults)).1 = .verdict false err := by
  obtain ⟨valid, err, hout⟩ : ∃ valid err,
      ((machine env).step s (.check key scope order faults)).1 = .verdict valid err := ⟨_, _, rfl⟩
  cases valid with
  | false => exact ⟨err, hout⟩
  | true =>
    obtain ⟨entry, hlive, -⟩ | ⟨row, hrow, hkey, -⟩ := verdict_true_cases hout
    · exact absurd hlive (h.entries entry)
    · exact absurd hkey (h.rows row hrow)

theorem live_of_live_step {op : Op} {k : String} {entry : CacheEntry}
    (h : Live ((machine env).step s op).2 k entry) :
    (∃ old, Live s k old) ∨ ∃ row ∈ s.store.rows, row.key = k := by
  obtain ⟨hlookup, hfresh, hexp⟩ := h
  obtain ⟨hclock, httl⟩ := clock_step env s op
  rcases cache_step op hlookup with (hold | ⟨old, hold, holdfresh, rfl⟩) | hrow
  · refine .inl ⟨entry, hold, ?_, ?_⟩
    · unfold Cache.Fresh at hfresh ⊢
      omega
    · omega
  · refine .inl ⟨old, hold, holdfresh, ?_⟩
    change old.expiresAt = 0 ∨ ((machine env).step s op).2.now ≤ old.expiresAt at hexp
    omega
  · obtain ⟨row, hrow, hkey, -⟩ := hrow
    exact .inr ⟨row, hrow, hkey⟩

theorem Dead.step {k : String} (h : Dead s k) (op : Op)
    (hop : ∀ request rawKey order faults, op = .create request rawKey order faults →
      env.hash rawKey ≠ k) : Dead ((machine env).step s op).2 k where
  rows := by
    intro row hrow
    rcases rows_step op hrow with hrow | ⟨key, request, order, faults, rfl, -, rfl, -, -⟩
    · exact h.rows row hrow
    · exact hop request key.key order faults rfl
  entries := by
    intro entry hlive
    obtain ⟨old, hold⟩ | ⟨row, hrow, hkey⟩ := live_of_live_step hlive
    · exact h.entries old hold
    · exact h.rows row hrow hkey

theorem Dead.run {k : String} (h : Dead s k) {ops : List Op}
    (hops : ∀ rawKey ∈ rawKeys ops, env.hash rawKey ≠ k) : Dead ((machine env).run s ops) k := by
  apply (machine env).run_induction (fun s => Dead s k) (fun op => ∀ request rawKey order faults,
    op = .create request rawKey order faults → env.hash rawKey ≠ k)
    (fun s op hop hdead => hdead.step op hop) _ h
  rintro op hop request rawKey order faults rfl
  exact hops rawKey (List.mem_filterMap.mpr ⟨_, hop, rfl⟩)

end

theorem rows_rawKeys (env : Env) (sinceEpoch : Nat) (ops : List Op) :
    ∀ row ∈ ((machine env).run (.new sinceEpoch) ops).store.rows,
      ∃ rawKey ∈ rawKeys ops, row.key = env.hash rawKey := by
  have hrun := (machine env).trace_induction (s := .new sinceEpoch)
    (fun history s => ∀ row ∈ s.store.rows,
      ∃ rawKey ∈ rawKeys (history.map Prod.fst), row.key = env.hash rawKey)
    (by simp [Service.new, Store.empty]) ?_ ops
  · simpa using hrun
  · intro history s op h row hrow
    simp only [List.map_append, rawKeys, List.filterMap_append, List.mem_append] at h ⊢
    rcases rows_step op hrow with hrow | ⟨key, request, order, faults, rfl, -, rfl, -, -⟩
    · obtain ⟨rawKey, hmem, hkey⟩ := h row hrow
      exact ⟨rawKey, .inl hmem, hkey⟩
    · exact ⟨key.key, .inr (by simp), rfl⟩

theorem exists_allowedScope (env : Env) (sinceEpoch : Nat) (ops : List Op) {k : String}
    {entry : CacheEntry}
    (h : ((machine env).run (.new sinceEpoch) ops).cache.cache.lookup k = some entry) :
    ∃ scope, scope ∈ entry.allowedScopes := by
  refine (machine env).run_invariant (fun s => ∀ k entry, s.cache.cache.lookup k = some entry →
    ∃ scope, scope ∈ entry.allowedScopes) ?_ (by simp [Service.new]) _ k entry h
  intro s op hs k entry hentry
  rcases cache_step op hentry with (hold | ⟨old, hold, -, rfl⟩) | ⟨row, -, -, -, hscope, -⟩
  · exact hs k entry hold
  · exact hs k old hold
  · exact hscope

theorem dead_of_delete {env : Env} {s : Service} {keyAlias rawKey : String}
    (hstored : ∃ row ∈ s.store.rows, row.keyAlias = keyAlias ∧ row.key = env.hash rawKey)
    (hcache : ∀ entry, ¬ Live s (env.hash rawKey) entry) :
    Dead ((machine env).step s (.delete keyAlias false)).2 (env.hash rawKey) where
  rows := by
    intro row hrow hkey
    obtain ⟨hrow, hne⟩ := Store.mem_deleteApiKey.mp hrow
    obtain ⟨stored, hstored, halias, hstoredKey⟩ := hstored
    -- the column `KEY` is unique, so this is the deleted row
    have heq : row = stored :=
      List.inj_on_of_nodup_map s.store.key_nodup hrow hstored (hkey.trans hstoredKey.symm)
    exact hne (heq ▸ halias)
  entries := hcache

/-- For every run up to a successful `DeleteApiKey` of the alias under which a raw key is
stored, with raw keys that never repeat: in every continuation each later check of that key
is negative, for every scope, exactly when the cache held no live entry of the key at the
deletion. -/
theorem revocation_final_iff (env : Env) (hhash : Function.Injective env.hash) (sinceEpoch : Nat)
    (before : List Op) (hfresh : (rawKeys before).Nodup) (keyAlias rawKey : String)
    (hstored : ∃ row ∈ ((machine env).run (.new sinceEpoch) before).store.rows,
      row.keyAlias = keyAlias ∧ row.key = env.hash rawKey) :
    (∀ after : List Op, (rawKeys (before ++ after)).Nodup →
      ∀ (scope : Scope) (order : List String) (faults : Service.CheckFaults),
        ∃ err, ((machine env).step
          ((machine env).run (.new sinceEpoch) (before ++ .delete keyAlias false :: after))
          (.check rawKey scope order faults)).1 = .verdict false err) ↔
      ∀ entry, ¬ Live ((machine env).run (.new sinceEpoch) before) (env.hash rawKey) entry := by
  constructor
  · intro hfinal entry hlive
    obtain ⟨scope, hscope⟩ := exists_allowedScope env sinceEpoch before hlive.1
    obtain ⟨err, hout⟩ := hfinal [] (by simpa using hfresh) scope [] ⟨false, false⟩
    rw [Machine.run_concat] at hout
    -- the deletion changes neither the cache nor the clock
    have hlive' : Live ((machine env).step ((machine env).run (.new sinceEpoch) before)
        (.delete keyAlias false)).2 (env.hash rawKey) entry := hlive
    rw [verdict_of_live hlive' hscope] at hout
    cases hout
  · intro hcache after hnodup scope order faults
    rw [Machine.run_append, Machine.run_cons]
    apply Dead.verdict
    apply (dead_of_delete hstored hcache).run
    intro rawKey' hlater hsame
    obtain ⟨row, hrow, -, hkey⟩ := hstored
    obtain ⟨generated, hgenerated, hrowKey⟩ := rows_rawKeys env sinceEpoch before row hrow
    have hgen : generated = rawKey' := hhash ((hrowKey.symm.trans hkey).trans hsame.symm)
    simp only [rawKeys, List.filterMap_append] at hnodup
    exact (List.nodup_append.mp hnodup).2.2 _ hgenerated _ (by simpa [rawKeys] using hlater) hgen

/-- A key that was never checked is dead from its deletion on. -/
theorem revocation_final_sampleKey :
    let before : List Op := [.create (some ⟨"ci", ["read_stats"], 0⟩) sampleKey [] ⟨false, false⟩]
    ∀ after : List Op, (rawKeys (before ++ after)).Nodup →
      ∀ (scope : Scope) (order : List String) (faults : Service.CheckFaults),
        ∃ err, ((machine sampleEnv).step ((machine sampleEnv).run
          (.new (1767225600 * Time.second)) (before ++ .delete "ci" false :: after))
          (.check sampleKey scope order faults)).1 = .verdict false err := by
  intro before
  have hrows : (((machine sampleEnv).run (.new (1767225600 * Time.second)) before).store.rows.map
      fun row => (row.keyAlias, row.key)) = [("ci", sampleHash sampleKey)] := by decide +kernel
  have hempty : (((machine sampleEnv).run (.new (1767225600 * Time.second))
      before).cache.cache.lookup (sampleHash sampleKey)).isNone = true := by decide +kernel
  refine (revocation_final_iff sampleEnv sampleHash_injective (1767225600 * Time.second) before
    (by decide) "ci" sampleKey ?_).mpr ?_
  · obtain ⟨row, hrow, hpair⟩ := List.mem_map.mp (hrows ▸ List.mem_singleton_self _)
    exact ⟨row, hrow, congrArg Prod.fst hpair, congrArg Prod.snd hpair⟩
  · rintro entry ⟨hlookup, -⟩
    have hnone := Option.isNone_iff_eq_none.mp hempty
    cases hnone.symm.trans hlookup

/-- A key that was checked once is still accepted after its deletion. -/
theorem revoked_key_accepted :
    let before : List Op := [.create (some ⟨"ci", ["read_stats"], 0⟩) sampleKey [] ⟨false, false⟩,
      .check sampleKey "read_stats" [] ⟨false, false⟩]
    let s := (machine sampleEnv).run (.new (1767225600 * Time.second)) before
    s.store.rows.map (fun row => (row.keyAlias, row.key)) = [("ci", sampleHash sampleKey)] ∧
      ((machine sampleEnv).step s (.delete "ci" false)).1 = .deleted none ∧
      ((machine sampleEnv).step ((machine sampleEnv).step s (.delete "ci" false)).2
        (.check sampleKey "read_stats" [] ⟨false, false⟩)).1 = .verdict true none := by
  refine ⟨by decide +kernel, rfl, ?_⟩
  simp only [machine, Out.verdict.injEq]
  decide +kernel

end Torii.ApiKeys
