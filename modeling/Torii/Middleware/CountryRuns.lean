import Mathlib.Data.List.Chain
import Torii.Middleware.CountryFilter
import Torii.Util.CacheRuns

/-!
# Runs of the country filter

An entry for an address is made by a request of that address, from the database of that moment, and
from then on only its time changes (`lookup_step`). A reload does not touch the entries, and every
request renews the one that it reads.
-/

namespace Torii.Middleware.Country

open Go Go.Netip Torii.Util

/-- An operation on a filter. A request comes with the order of the iteration over the map and with
the context that it has so far, a reload with the reader that it opened, if it succeeded. -/
inductive FilterOp where
  | request (order : List String) (ctx : RequestContext) (ip : Addr)
  | evict (key : String)
  | deleteEntry (key : String)
  | sweep
  | reload (loaded : Option Reader)

structure FilterCall where
  time : Nat
  op : FilterOp

namespace Filter

/-- One operation; a request is answered with the verdict and its new context. -/
def step (c : Filter) (call : FilterCall) : Option (Bool × RequestContext) × Filter :=
  match call.op with
  | .request order ctx ip =>
    let (answer, c) := c.isFromAllowedCountry call.time order ctx ip
    (some answer, c)
  | .evict key => (none, { c with clientCache := c.clientCache.evict key })
  | .deleteEntry key => (none, { c with clientCache := (c.clientCache.deleteEntry key).2 })
  | .sweep => (none, { c with clientCache := c.clientCache.sweep call.time })
  | .reload loaded => (none, c.reloadDB loaded)

def calls : Machine Filter FilterCall (Option (Bool × RequestContext)) := ⟨step⟩

def entryOf (c : Filter) (ip : Addr) : Option ClientEntry :=
  c.clientCache.cache.lookup ip.string

end Filter

def FilterCall.asked (call : FilterCall) : Option Addr :=
  match call.op with
  | .request _ _ ip => some ip
  | _ => none

/-- The operation takes the entry for an address away. -/
def FilterCall.Removes (call : FilterCall) (ip : Addr) : Prop :=
  call.op = .evict ip.string ∨ call.op = .deleteEntry ip.string

def FilterCall.Reloads (call : FilterCall) : Prop := ∃ db, call.op = .reload (some db)

def Faithful (c : Settings) (db : Reader) (ip : Addr) (entry : ClientEntry) : Prop :=
  c.decision (db.lookup ip) = some (entry.isAllowed, entry.countryCode, entry.continentCode)

theorem Faithful.touch {c : Settings} {db : Reader} {ip : Addr} {entry : ClientEntry}
    (h : Faithful c db ip entry) (now : Nat) :
    Faithful c db ip (EvictableEntry.touch now entry) := h

/-! ### One request -/

namespace Filter

variable {c : Filter} {now : Nat} {order : List String} {ctx : RequestContext} {ip : Addr}

theorem lookupIPAndCacheValue_cases (c : Filter) (now : Nat) (order : List String)
    (ctx : RequestContext) (ip : Addr) :
    (c.decision (c.db.lookup ip) = none ∧
        c.lookupIPAndCacheValue now order ctx ip = (none, ctx, c)) ∨
      ∃ entry ctx', Faithful c.toSettings c.db ip entry ∧
        c.lookupIPAndCacheValue now order ctx ip = (some entry, ctx',
          { c with clientCache := c.clientCache.cacheValue now order ip.string entry }) := by
  unfold lookupIPAndCacheValue Faithful
  cases c.db.lookup ip with
  | undecodable => exact .inl ⟨rfl, rfl⟩
  | notFound => exact .inr ⟨_, _, rfl, rfl⟩
  | record raw =>
    refine .inr ⟨_, _, ?_, rfl⟩
    simp only [Settings.decision, Settings.isAllowed_fst _ ctx]

def afterGet (c : Filter) (now : Nat) (ip : Addr) : Filter :=
  { c with clientCache := (c.clientCache.getValue now ip.string).2 }

variable {entry : ClientEntry} {call : FilterCall}

theorem isFromAllowedCountry_of_hit (hlan : ¬ c.inLan ip = true)
    (hget : (c.clientCache.getValue now ip.string).1 = some entry) :
    c.isFromAllowedCountry now order ctx ip = (c.verdict ctx (some entry), c.afterGet now ip) := by
  refine (if_neg hlan).trans ?_
  simp only [hget]
  rfl

theorem isFromAllowedCountry_of_miss {c' : Filter} {ctx' : RequestContext}
    {entry : Option ClientEntry} (hlan : ¬ c.inLan ip = true)
    (hget : (c.clientCache.getValue now ip.string).1 = none)
    (hlookup : (c.afterGet now ip).lookupIPAndCacheValue now order ctx ip = (entry, ctx', c')) :
    c.isFromAllowedCountry now order ctx ip = (c'.verdict ctx' entry, c') := by
  rw [afterGet] at hlookup
  refine (if_neg hlan).trans ?_
  simp only [hget, hlookup]

theorem isFromAllowedCountry_cases (c : Filter) (now : Nat) (order : List String)
    (ctx : RequestContext) (ip : Addr) :
    (c.inLan ip = true ∧ c.isFromAllowedCountry now order ctx ip = ((true, ctx), c)) ∨
      c.inLan ip = false ∧
        ((∃ old, c.entryOf ip = some old ∧ c.clientCache.Fresh now old ∧
            c.isFromAllowedCountry now order ctx ip =
              (c.verdict ctx (some (EvictableEntry.touch now old)), c.afterGet now ip)) ∨
          (c.decision (c.db.lookup ip) = none ∧ (c.afterGet now ip).entryOf ip = none ∧
            c.isFromAllowedCountry now order ctx ip =
              (c.verdict ctx none, c.afterGet now ip)) ∨
          ∃ entry ctx', Faithful c.toSettings c.db ip entry ∧
            c.isFromAllowedCountry now order ctx ip =
              (c.verdict ctx' (some entry), { c with clientCache :=
                (c.afterGet now ip).clientCache.cacheValue now order ip.string entry })) := by
  by_cases hlan : c.inLan ip = true
  · exact .inl ⟨hlan, if_pos hlan⟩
  · right
    refine ⟨by simpa using hlan, ?_⟩
    cases hget : (c.clientCache.getValue now ip.string).1 with
    | some entry =>
      obtain ⟨old, hold, hfresh, rfl⟩ := Cache.getValue_fst_eq_some.mp hget
      exact .inl ⟨old, hold, hfresh, isFromAllowedCountry_of_hit hlan hget⟩
    | none =>
      right
      obtain ⟨hnone, heq⟩ | ⟨entry, ctx', hfaithful, heq⟩ :=
        (c.afterGet now ip).lookupIPAndCacheValue_cases now order ctx ip
      · refine .inl ⟨hnone, ?_, isFromAllowedCountry_of_miss hlan hget heq⟩
        exact (Cache.lookup_getValue_self c.clientCache now ip.string).trans hget
      · exact .inr ⟨entry, ctx', hfaithful, isFromAllowedCountry_of_miss hlan hget heq⟩

theorem isAllowed_of_faithful {db : Reader} (hlan : c.inLan ip = false)
    (h : Faithful c.toSettings db ip entry) : entry.isAllowed = c.uncached db ip := by
  have huncached : c.uncached db ip = ((c.decision (db.lookup ip)).map Prod.fst).getD c.onUnknown :=
    if_neg (by simpa using hlan)
  rw [huncached, h]
  rfl

/-- A verdict is that of the database, or of a fresh entry. -/
theorem verdict_cases (c : Filter) (now : Nat) (order : List String) (ctx : RequestContext)
    (ip : Addr) :
    (c.isFromAllowedCountry now order ctx ip).1.1 = c.uncached c.db ip ∨
      c.inLan ip = false ∧ ∃ old, c.entryOf ip = some old ∧ c.clientCache.Fresh now old ∧
        (c.isFromAllowedCountry now order ctx ip).1.1 = old.isAllowed := by
  obtain ⟨hlan, heq⟩ | ⟨hlan, ⟨old, hold, hfresh, heq⟩ | ⟨hnone, -, heq⟩ |
    ⟨entry, ctx', hfaithful, heq⟩⟩ := c.isFromAllowedCountry_cases now order ctx ip
  · left
    rw [heq]
    exact (if_pos hlan).symm
  · right
    refine ⟨hlan, old, hold, hfresh, ?_⟩
    rw [heq]
    rfl
  · left
    have huncached : c.uncached c.db ip =
        ((c.decision (c.db.lookup ip)).map Prod.fst).getD c.onUnknown :=
      if_neg (by simpa using hlan)
    rw [heq, huncached, hnone]
    rfl
  · left
    rw [heq, ← isAllowed_of_faithful hlan hfaithful]
    rfl

theorem entryOf_afterGet_of_ne (now : Nat) {other : Addr} (hne : ip ≠ other) :
    (c.afterGet now other).entryOf ip = c.entryOf ip :=
  Cache.lookup_getValue_of_ne c.clientCache now fun heq => hne (Addr.string_inj heq)

theorem entryOf_request_self (hlan : c.inLan ip = false)
    (h : (c.isFromAllowedCountry now order ctx ip).2.entryOf ip = some entry) :
    entry.lastSeen = now ∧ ((∃ old, c.entryOf ip = some old ∧ c.clientCache.Fresh now old ∧
          entry = EvictableEntry.touch now old) ∨ Faithful c.toSettings c.db ip entry) := by
  obtain ⟨hin, -⟩ | ⟨-, ⟨old, hold, hfresh, heq⟩ | ⟨-, hnone, heq⟩ |
    ⟨made, ctx', hfaithful, heq⟩⟩ := c.isFromAllowedCountry_cases now order ctx ip
  · rw [hlan] at hin
    cases hin
  · have hself : (c.afterGet now ip).entryOf ip = (c.clientCache.getValue now ip.string).1 :=
      Cache.lookup_getValue_self c.clientCache now ip.string
    rw [heq, hself, Cache.getValue_fst_eq_some.mpr ⟨old, hold, hfresh, rfl⟩] at h
    cases h
    exact ⟨rfl, .inl ⟨old, hold, hfresh, rfl⟩⟩
  · rw [heq, hnone] at h
    cases h
  · rw [heq] at h
    obtain ⟨-, rfl⟩ | ⟨hne, -⟩ := Cache.lookup_cacheValue h
    · exact ⟨rfl, .inr (hfaithful.touch now)⟩
    · exact absurd rfl hne

theorem entryOf_request_other {other : Addr} (hne : ip ≠ other)
    (h : (c.isFromAllowedCountry now order ctx other).2.entryOf ip = some entry) :
    c.entryOf ip = some entry := by
  obtain ⟨-, heq⟩ | ⟨-, ⟨old, -, -, heq⟩ | ⟨-, -, heq⟩ | ⟨made, ctx', -, heq⟩⟩ :=
    c.isFromAllowedCountry_cases now order ctx other
  · rwa [heq] at h
  · rwa [heq, entryOf_afterGet_of_ne now hne] at h
  · rwa [heq, entryOf_afterGet_of_ne now hne] at h
  · rw [heq] at h
    obtain ⟨hkey, -⟩ | ⟨-, hold⟩ := Cache.lookup_cacheValue h
    · exact absurd (Addr.string_inj hkey) hne
    · rwa [← entryOf_afterGet_of_ne now hne]

/-! ### One step -/

theorem settings_request (c : Filter) (now : Nat) (order : List String) (ctx : RequestContext)
    (ip : Addr) :
    (c.isFromAllowedCountry now order ctx ip).2.toSettings = c.toSettings ∧
      (c.isFromAllowedCountry now order ctx ip).2.db = c.db ∧
      (c.isFromAllowedCountry now order ctx ip).2.clientCache.ttl = c.clientCache.ttl := by
  obtain ⟨-, heq⟩ | ⟨-, ⟨old, -, -, heq⟩ | ⟨-, -, heq⟩ | ⟨made, ctx', -, heq⟩⟩ :=
    c.isFromAllowedCountry_cases now order ctx ip
  all_goals
    rw [heq]
    exact ⟨rfl, rfl, by simp [afterGet]⟩

theorem settings_step (c : Filter) (call : FilterCall) :
    (c.step call).2.toSettings = c.toSettings ∧
      (c.step call).2.clientCache.ttl = c.clientCache.ttl := by
  obtain ⟨time, op⟩ := call
  cases op with
  | request order ctx ip =>
    obtain ⟨hsettings, -, httl⟩ := settings_request c time order ctx ip
    exact ⟨hsettings, httl⟩
  | evict key => exact ⟨rfl, rfl⟩
  | deleteEntry key =>
    refine ⟨rfl, ?_⟩
    simp only [step, Cache.deleteEntry_snd]
    rfl
  | sweep => exact ⟨rfl, rfl⟩
  | reload loaded => cases loaded <;> exact ⟨rfl, rfl⟩

theorem db_step (c : Filter) (h : ¬ call.Reloads) : (c.step call).2.db = c.db := by
  obtain ⟨time, op⟩ := call
  cases op with
  | request order ctx ip => exact (settings_request c time order ctx ip).2.1
  | evict | deleteEntry | sweep => rfl
  | reload loaded =>
    cases loaded with
    | none => rfl
    | some db => exact absurd ⟨db, rfl⟩ h

theorem entryOf_step (hlan : c.inLan ip = false) (h : (c.step call).2.entryOf ip = some entry) :
    (call.asked ≠ some ip ∧ ¬ call.Removes ip ∧ c.entryOf ip = some entry) ∨
      call.asked = some ip ∧ entry.lastSeen = call.time ∧
        ((∃ old, c.entryOf ip = some old ∧ c.clientCache.Fresh call.time old ∧
            entry = EvictableEntry.touch call.time old) ∨ Faithful c.toSettings c.db ip entry) := by
  obtain ⟨time, op⟩ := call
  cases op with
  | request order ctx other =>
    by_cases hother : ip = other
    · subst hother
      exact .inr ⟨rfl, entryOf_request_self hlan h⟩
    · refine .inl ⟨?_, ?_, entryOf_request_other hother h⟩
      · simpa [FilterCall.asked] using Ne.symm hother
      · simp [FilterCall.Removes]
  | evict | deleteEntry =>
    simp only [step, entryOf, Cache.deleteEntry_snd] at h
    obtain ⟨hne, hold⟩ := Cache.lookup_evict h
    exact .inl ⟨by simp [FilterCall.asked], by simpa [FilterCall.Removes] using Ne.symm hne, hold⟩
  | sweep =>
    exact .inl ⟨by simp [FilterCall.asked], by simp [FilterCall.Removes], Cache.lookup_sweep h⟩
  | reload loaded =>
    refine .inl ⟨by simp [FilterCall.asked], by simp [FilterCall.Removes], ?_⟩
    cases loaded with
    | none | some => exact h

/-! ### One database -/

def Current (c : Filter) : Prop :=
  ∀ ip entry, c.inLan ip = false → c.entryOf ip = some entry →
    Faithful c.toSettings c.db ip entry

theorem Current.step (h : c.Current) (hcall : ¬ call.Reloads) : (c.step call).2.Current := by
  have hsettings := (settings_step c call).1
  intro ip entry hlan hentry
  have hlan' : c.inLan ip = false := by rwa [hsettings] at hlan
  rw [hsettings, db_step c hcall]
  obtain ⟨-, -, hold⟩ | ⟨-, -, ⟨old, hold, -, rfl⟩ | hfaithful⟩ := entryOf_step hlan' hentry
  · exact h ip entry hlan' hold
  · exact (h ip old hlan' hold).touch call.time
  · exact hfaithful

theorem Current.verdict_eq (h : c.Current) (now : Nat) (order : List String) (ctx : RequestContext)
    (ip : Addr) : (c.isFromAllowedCountry now order ctx ip).1.1 = c.uncached c.db ip := by
  obtain heq | ⟨hlan, old, hold, -, heq⟩ := c.verdict_cases now order ctx ip
  · exact heq
  · rw [heq, isAllowed_of_faithful hlan (h ip old hlan hold)]

end Filter

open Country.Filter

/-- The cache cannot be noticed while the database stays. -/
theorem caching_transparent {cfg : FilterConfig} {db : Reader} {f : Filter}
    (hnew : newFilter cfg (.ok db) = .ok f) {ops : List FilterCall}
    (hfixed : ∀ call ∈ ops, ¬ call.Reloads) :
    ∀ event ∈ calls.trace f ops,
      event.2.map Prod.fst = event.1.asked.map (cfg.uncachedPolicy db) := by
  obtain ⟨hdb, hcache, hconfigured⟩ := newFilter_eq_ok hnew
  refine calls.trace_of_invariant
    (fun c => c.toSettings = f.toSettings ∧ c.db = db ∧ c.Current) (fun call => ¬ call.Reloads)
    (fun call answer => answer.map Prod.fst = call.asked.map (cfg.uncachedPolicy db))
    ?_ ?_ hfixed ⟨rfl, (Except.ok.inj hdb).symm, ?_⟩
  · rintro c ⟨time, op⟩ - ⟨hsettings, rfl, hcurrent⟩
    cases op with
    | request order ctx ip =>
      have hverdict := hcurrent.verdict_eq time order ctx ip
      rw [hsettings, hconfigured.uncached_eq] at hverdict
      exact congrArg some hverdict
    | evict | deleteEntry | sweep | reload => rfl
  · rintro c call hcall ⟨hsettings, hdb, hcurrent⟩
    exact ⟨(settings_step c call).1.trans hsettings, (db_step c hcall).trans hdb,
      hcurrent.step hcall⟩
  · intro ip entry _ hentry
    simp [entryOf, hcache] at hentry

/-- A filter for one country, with a TTL of ten instants. -/
def sampleConfig : FilterConfig where
  maxEntries := 100
  ttl := 10
  countryMode := .allowList
  countryCodes := ["PT"]
  continentMode := .allowList
  continentCodes := []
  countryField := "country.iso_code"
  continentField := ""
  onUnknown := false
  lanAllowList := []

/-- A database that has every address in one country. -/
def everywhere (code : String) : Reader where
  lookup _ := .record [("country", .map [("iso_code", .string code)])]

def sampleFilter : Filter where
  countryMode := .allowList
  countries := codeSet ["PT"]
  hasCountryList := true
  continentMode := .allowList
  continents := ∅
  hasContinentList := false
  countryFieldPath := ["country", "iso_code"]
  continentFieldPath := []
  onUnknown := false
  lanAllowList := none
  db := everywhere "PT"
  clientCache := ⟨100, 10, ∅⟩

theorem newFilter_sampleConfig :
    newFilter sampleConfig (.ok (everywhere "PT")) = .ok sampleFilter := by rfl

/-- The address `203.0.113.7`. -/
def sampleAddr : Addr := .v4 0xcb007107#32

def ask (time : Nat) : FilterCall := ⟨time, .request [] {} sampleAddr⟩

theorem not_reloads_ask (time : Nat) : ¬ (ask time).Reloads := by
  rintro ⟨db, hop⟩
  cases hop

theorem caching_transparent_sample :
    (calls.trace sampleFilter [ask 0, ask 5, ask 30]).map (fun event => event.2.map Prod.fst) =
      (calls.trace sampleFilter [ask 0, ask 5, ask 30]).map fun event =>
        event.1.asked.map (sampleConfig.uncachedPolicy (everywhere "PT")) := by
  apply List.map_congr_left
  apply caching_transparent newFilter_sampleConfig
  simp [not_reloads_ask]

/-! ### Reloads -/

def requestTimes (ip : Addr) (ops : List FilterCall) : List Nat :=
  (ops.filter (·.asked = some ip)).map (·.time)

/-- No two neighbours are further apart than the TTL. -/
def Unbroken (ttl : Nat) (times : List Nat) : Prop := times.IsChain fun a b => b - a ≤ ttl

instance (ttl : Nat) (times : List Nat) : Decidable (Unbroken ttl times) :=
  inferInstanceAs (Decidable (List.IsChain _ _))

theorem requestTimes_concat (ip : Addr) (ops : List FilterCall) (call : FilterCall) :
    requestTimes ip (ops ++ [call]) =
      requestTimes ip ops ++ if call.asked = some ip then [call.time] else [] := by
  simp only [requestTimes, List.filter_append, List.map_append]
  split
  · next h => simp [h]
  · next h => simp [h]

theorem unbroken_concat {ttl time last : Nat} {times : List Nat} (h : Unbroken ttl times)
    (hlast : times.getLast? = some last) (hgap : time - last ≤ ttl) :
    Unbroken ttl (times ++ [time]) :=
  List.IsChain.append h (List.isChain_singleton time) (by
    intro x hx y hy
    obtain rfl : last = x := Option.some.inj (hlast.symm.trans hx)
    obtain rfl : time = y := by simpa using hy
    exact hgap)

theorem not_removes_of_asked {call : FilterCall} {ip : Addr} (h : call.asked = some ip) :
    ¬ call.Removes ip := by
  rintro (hop | hop)
  · simp [FilterCall.asked, hop] at h
  · simp [FilterCall.asked, hop] at h

namespace Filter

variable {c : Filter} {ip : Addr}

theorem settings_run (c : Filter) (ops : List FilterCall) :
    (calls.run c ops).toSettings = c.toSettings ∧
      (calls.run c ops).clientCache.ttl = c.clientCache.ttl :=
  calls.run_invariant
    (fun s => s.toSettings = c.toSettings ∧ s.clientCache.ttl = c.clientCache.ttl)
    (fun s call hs =>
      ⟨(settings_step s call).1.trans hs.1, (settings_step s call).2.trans hs.2⟩) ⟨rfl, rfl⟩ _

theorem inLan_run (c : Filter) (ops : List FilterCall) (ip : Addr) :
    (calls.run c ops).inLan ip = c.inLan ip := by
  rw [(settings_run c ops).1]

variable {ops : List FilterCall} {entry : ClientEntry}

theorem db_run (c : Filter) (h : ∀ call ∈ ops, ¬ call.Reloads) : (calls.run c ops).db = c.db :=
  calls.run_induction (fun s => s.db = c.db) (fun call => ¬ call.Reloads)
    (fun s _ hcall hs => (db_step s hcall).trans hs) h rfl

theorem lastSeen_run (hempty : c.entryOf ip = none) (hlan : c.inLan ip = false)
    (h : (calls.run c ops).entryOf ip = some entry) :
    (requestTimes ip ops).getLast? = some entry.lastSeen := by
  induction ops using List.reverseRecOn generalizing entry with
  | nil =>
    rw [calls.run_nil, hempty] at h
    cases h
  | append_singleton ops call ih =>
    rw [calls.run_concat] at h
    have hlan' : (calls.run c ops).inLan ip = false := by rw [inLan_run, hlan]
    rw [requestTimes_concat]
    obtain ⟨hasked, -, hold⟩ | ⟨hasked, htime, -⟩ := entryOf_step hlan' h
    · rw [if_neg hasked, List.append_nil]
      exact ih hold
    · rw [if_pos hasked, List.getLast?_concat, htime]

theorem entryOf_run (hlan : c.inLan ip = false) (hfixed : ∀ call ∈ ops, ¬ call.Reloads)
    (h : (calls.run c ops).entryOf ip = some entry) :
    Faithful c.toSettings c.db ip entry ∨
      ∃ old, c.entryOf ip = some old ∧ (∀ call ∈ ops, ¬ call.Removes ip) ∧
        Unbroken c.clientCache.ttl (old.lastSeen :: requestTimes ip ops) ∧
        (old.lastSeen :: requestTimes ip ops).getLast? = some entry.lastSeen := by
  induction ops using List.reverseRecOn generalizing entry with
  | nil => exact .inr ⟨entry, h, by simp, List.isChain_singleton _, rfl⟩
  | append_singleton ops call ih =>
    obtain ⟨hops, hcall⟩ := List.forall_mem_append.mp hfixed
    rw [calls.run_concat] at h
    have hlan' : (calls.run c ops).inLan ip = false := by rw [inLan_run, hlan]
    obtain ⟨hsettings, httl⟩ := settings_run c ops
    rw [requestTimes_concat]
    obtain ⟨hasked, hremoves, hold⟩ | ⟨hasked, htime, ⟨old', hold', hfresh, rfl⟩ | hfaithful⟩ :=
      entryOf_step hlan' h
    · rw [if_neg hasked, List.append_nil]
      obtain hfaithful | ⟨old, hstart, hkept, hchain, hlast⟩ := ih hops hold
      · exact .inl hfaithful
      · refine .inr ⟨old, hstart, ?_, hchain, hlast⟩
        exact List.forall_mem_append.mpr ⟨hkept, by simpa using hremoves⟩
    · rw [if_pos hasked]
      obtain hfaithful | ⟨old, hstart, hkept, hchain, hlast⟩ := ih hops hold'
      · exact .inl (hfaithful.touch call.time)
      · have hgap : call.time - old'.lastSeen ≤ c.clientCache.ttl := by
          rw [← httl]
          exact hfresh
        refine .inr ⟨old, hstart, ?_, unbroken_concat hchain hlast hgap, ?_⟩
        · exact List.forall_mem_append.mpr ⟨hkept, by simpa using not_removes_of_asked hasked⟩
        · rw [← List.cons_append, List.getLast?_concat, htime]
    · rw [hsettings, db_run c hops] at hfaithful
      exact .inl hfaithful

theorem verdict_run (hfixed : ∀ call ∈ ops, ¬ call.Reloads) {now : Nat}
    (hgone : c.inLan ip = false → ∀ old, c.entryOf ip = some old →
      (∃ call ∈ ops, call.Removes ip) ∨
        ¬ Unbroken c.clientCache.ttl (old.lastSeen :: requestTimes ip ops ++ [now]))
    (order : List String) (ctx : RequestContext) :
    ((calls.run c ops).isFromAllowedCountry now order ctx ip).1.1 = c.uncached c.db ip := by
  obtain ⟨hsettings, httl⟩ := settings_run c ops
  obtain heq | ⟨hlan, entry, hentry, hfresh, heq⟩ :=
    (calls.run c ops).verdict_cases now order ctx ip
  · rw [heq, hsettings, db_run c hfixed]
  · rw [inLan_run] at hlan
    rw [heq]
    obtain hfaithful | ⟨old, hold, hkept, hchain, hlast⟩ := entryOf_run hlan hfixed hentry
    · exact isAllowed_of_faithful hlan hfaithful
    · have hgap : now - entry.lastSeen ≤ c.clientCache.ttl := by
        rw [← httl]
        exact hfresh
      obtain ⟨call, hcall, hremoves⟩ | hpause := hgone hlan old hold
      · exact absurd hremoves (hkept call hcall)
      · exact absurd (unbroken_concat hchain hlast hgap) hpause

end Filter

/-- The entry that a client has from before a reload is gone when the client asks at `now`: it was
taken away, there was none, or the client paused for longer than the TTL. -/
def Renewed (ttl : Nat) (ip : Addr) (before after : List FilterCall) (now : Nat) : Prop :=
  (∃ call ∈ after, call.Removes ip) ∨
    ∀ last ∈ (requestTimes ip before).getLast?,
      ¬ Unbroken ttl (last :: requestTimes ip after ++ [now])

/-- A reload takes effect for the clients that pause. -/
theorem reload_takes_effect {cfg : FilterConfig} {loaded : Except String Reader} {f : Filter}
    (hnew : newFilter cfg loaded = .ok f) {before after : List FilterCall} {t now : Nat}
    {db : Reader} {order : List String} {ctx : RequestContext} {ip : Addr}
    (hlast : ∀ call ∈ after, ¬ call.Reloads) (hrenewed : Renewed cfg.ttl ip before after now) :
    ((calls.step (calls.run f (before ++ ⟨t, .reload (some db)⟩ :: after))
        ⟨now, .request order ctx ip⟩).1).map Prod.fst = some (cfg.uncachedPolicy db ip) := by
  obtain ⟨-, hcache, hconfigured⟩ := newFilter_eq_ok hnew
  have hsettings := (settings_run f before).1
  have httl : (calls.run f before).clientCache.ttl = cfg.ttl := by
    rw [(settings_run f before).2, hcache]
  have hrun : calls.run f (before ++ ⟨t, .reload (some db)⟩ :: after) =
      calls.run { calls.run f before with db } after := calls.run_append f before _
  rw [hrun]
  suffices hverdict : ((calls.run { calls.run f before with db } after).isFromAllowedCountry
      now order ctx ip).1.1 = (calls.run f before).uncached db ip by
    rw [hsettings, hconfigured.uncached_eq] at hverdict
    exact congrArg some hverdict
  apply verdict_run hlast
  intro hlan old hold
  have hlan' : f.inLan ip = false := by rwa [hsettings] at hlan
  have htimes := lastSeen_run (by simp [entryOf, hcache]) hlan' hold
  obtain hremoved | hpause := hrenewed
  · exact .inl hremoved
  · have hbroken := hpause old.lastSeen htimes
    rw [← httl] at hbroken
    exact .inr hbroken

/-- After a pause the client is answered from the new database. -/
theorem reload_takes_effect_sample :
    Renewed sampleConfig.ttl sampleAddr [ask 0] [] 12 ∧
      ((calls.step (calls.run sampleFilter ([ask 0] ++ ⟨1, .reload (some (everywhere "US"))⟩ :: []))
          (ask 12)).1).map Prod.fst =
        some (sampleConfig.uncachedPolicy (everywhere "US") sampleAddr) := by
  have hrenewed : Renewed sampleConfig.ttl sampleAddr [ask 0] [] 12 := by
    right
    intro last hlast
    obtain rfl : 0 = last := by simpa [requestTimes, ask, FilterCall.asked] using hlast
    decide
  exact ⟨hrenewed, reload_takes_effect newFilter_sampleConfig (by simp) hrenewed⟩

/-- A client that asks every eight instants is answered from the old database long after the
TTL. -/
theorem busyClient_not_reloaded :
    1 + sampleConfig.ttl < 24 ∧
      ((calls.step (calls.run sampleFilter
            ([ask 0] ++ ⟨1, .reload (some (everywhere "US"))⟩ :: [ask 8, ask 16]))
          (ask 24)).1).map Prod.fst ≠
        some (sampleConfig.uncachedPolicy (everywhere "US") sampleAddr) := by
  decide +kernel

end Torii.Middleware.Country
