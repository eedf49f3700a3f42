import Torii.Go.NetipText
import Torii.Middleware.Request
import Torii.Netutil.SubnetEntries
import Torii.Util.Cache

/-!
# Country filter

`middleware/country/country_db.go`. The reader of the database is a parameter. Every function takes
the instant at which it runs, and where it stores into the cache also the order in which that ranges
over its map. The ticker that calls `reloadDB` and the dashboard's description of an entry are left
out.
-/

namespace Torii.Middleware.Country

open Go Go.Netip Torii.Netutil Torii.Util

/-! ### The database -/

/-- A value in a record: a text, a map or anything else. -/
inductive GeoValue where
  | string (s : String)
  | map (fields : List (String × GeoValue))
  | other

/-- The result of `Lookup`. An error of the search is not found. -/
inductive Result where
  | notFound
  | undecodable
  | record (raw : List (String × GeoValue))

structure Reader where
  lookup : Addr → Result

/-- The loop of `extractFieldByPath`. -/
def walk : GeoValue → List String → Option GeoValue
  | current, [] => some current
  | .map fields, part :: path =>
    match fields.lookup part with
    | none => none
    | some current => walk current path
  | _, _ :: _ => none

def GeoValue.text : Option GeoValue → String
  | some (.string s) => s
  | _ => ""

def extractFieldByPath (raw : List (String × GeoValue)) (path : List String) : String :=
  match path with
  | [] => ""
  | [key] => GeoValue.text (raw.lookup key)
  | path => GeoValue.text (walk (.map raw) path)

def splitFieldPath (field : String) : List String :=
  if field = "" then []
  else if ! Strings.contains field "." then [field]
  else Strings.split field '.'

/-! ### The filter -/

inductive ListMode where
  | allowList
  | blockList
deriving DecidableEq

/-- `clientEntry`, without its logger. -/
structure ClientEntry where
  ip : String
  isAllowed : Bool
  lastSeen : Nat
  countryCode : String
  continentCode : String
deriving DecidableEq

instance : EvictableEntry ClientEntry where
  touch now entry := { entry with lastSeen := now }
  getLastReadAt entry := entry.lastSeen
  getLastReadAt_touch _ _ := rfl

structure Settings where
  countryMode : ListMode
  countries : GoMap String UInt8
  hasCountryList : Bool
  continentMode : ListMode
  continents : GoMap String UInt8
  hasContinentList : Bool
  countryFieldPath : List String
  continentFieldPath : List String
  onUnknown : Bool
  lanAllowList : Option SubnetTrie

structure Filter extends Settings where
  db : Reader
  clientCache : Cache ClientEntry

/-- The arguments of `NewFilter`, with those of `CacheOptions` that the cache reads. -/
structure FilterConfig where
  maxEntries : Int
  ttl : Nat
  countryMode : ListMode
  countryCodes : List String
  continentMode : ListMode
  continentCodes : List String
  countryField : String
  continentField : String
  onUnknown : Bool
  lanAllowList : List String

inductive NewFilterError where
  | noList
  | load (cause : String)
  | lan (cause : InsertError)

def NewFilterError.message (insertError : InsertError → String) : NewFilterError → String
  | .noList => "at least one of country-list or continent-list must be specified"
  | .load cause => cause
  | .lan cause => "failed to build lan ip allow list: " ++ insertError cause

def codeSet (codes : List String) : GoMap String UInt8 :=
  codes.foldl (fun set code => set.insert code 0) ∅

/-- The list that `NewFilter` builds, and `NewUaBlocker` too; without entries there is none. -/
def buildLanAllowList (entries : List String) : Except InsertError (Option SubnetTrie) :=
  if entries = [] then .ok none
  else
    match SubnetTrie.newFromStrings entries with
    | .error cause => .error cause
    | .ok trie => .ok (some trie)

/-- `NewFilter`; `loaded` is what the loader and `OpenBytes` return. -/
def newFilter (cfg : FilterConfig) (loaded : Except String Reader) :
    Except NewFilterError Filter :=
  if cfg.countryCodes = [] ∧ cfg.continentCodes = [] then .error .noList
  else
    match loaded with
    | .error cause => .error (.load cause)
    | .ok db =>
      match buildLanAllowList cfg.lanAllowList with
      | .error cause => .error (.lan cause)
      | .ok lanAllowList =>
        .ok {
          db, lanAllowList
          clientCache := ⟨cfg.maxEntries, cfg.ttl, ∅⟩
          countryMode := cfg.countryMode
          countries := codeSet cfg.countryCodes
          hasCountryList := cfg.countryCodes ≠ []
          continentMode := cfg.continentMode
          continents := codeSet cfg.continentCodes
          hasContinentList := cfg.continentCodes ≠ []
          countryFieldPath := splitFieldPath cfg.countryField
          continentFieldPath := splitFieldPath cfg.continentField
          onUnknown := cfg.onUnknown }

structure RequestContext where
  countryCode : String := ""
  continentCode : String := ""
  blockInfo : Option BlockInfo := none
deriving DecidableEq

/-- `CreateAndAddBlockInfoToRequestContext` for the filter. -/
def RequestContext.block (ctx : RequestContext) (reason : String) : RequestContext :=
  { ctx with blockInfo := some ⟨"country-block", reason, "country.blocked"⟩ }

def inAllowList (lanAllowList : Option SubnetTrie) (ip : Addr) : Bool :=
  match lanAllowList with
  | none => false
  | some trie => trie.contains ip

namespace Settings

variable (c : Settings)

def inLan (ip : Addr) : Bool := inAllowList c.lanAllowList ip

def evalList (set : GoMap String UInt8) (mode : ListMode) (code : String) : Bool :=
  if code = "" then c.onUnknown
  else
    match mode with
    | .allowList => (set.lookup code).isSome
    | .blockList => !(set.lookup code).isSome

def continentPolicy (ctx : RequestContext) (continentCode : String) : Bool × RequestContext :=
  let allowed := c.evalList c.continents c.continentMode continentCode
  (allowed, if allowed then ctx else ctx.block ("continent " ++ continentCode ++ " blocked"))

def isAllowed (ctx : RequestContext) (countryCode continentCode : String) :
    Bool × RequestContext :=
  if c.hasCountryList && c.hasContinentList then
    match c.countries.lookup countryCode with
    | some _ =>
      match c.countryMode with
      | .allowList => (true, ctx)
      | .blockList => (false, ctx.block ("country " ++ countryCode ++ " blocked"))
    | none => c.continentPolicy ctx continentCode
  else if c.hasCountryList then
    if countryCode = "" then (c.onUnknown, ctx)
    else (c.evalList c.countries c.countryMode countryCode, ctx)
  else if continentCode = "" then (c.onUnknown, ctx)
  else (c.evalList c.continents c.continentMode continentCode, ctx)

def recordEntry (now : Nat) (ctx : RequestContext) (ip : Addr) (raw : List (String × GeoValue)) :
    ClientEntry × RequestContext :=
  let countryCode := extractFieldByPath raw c.countryFieldPath
  let continentCode := extractFieldByPath raw c.continentFieldPath
  let allowed := c.isAllowed ctx countryCode continentCode
  ({ ip := ip.string, isAllowed := allowed.1, lastSeen := now, countryCode, continentCode },
    allowed.2)

def unknownEntry (now : Nat) (ip : Addr) : ClientEntry where
  ip := ip.string
  isAllowed := c.onUnknown
  lastSeen := now
  countryCode := "unknown"
  continentCode := "unknown"

end Settings

namespace Filter

def lookupIPAndCacheValue (c : Filter) (now : Nat) (order : List String) (ctx : RequestContext)
    (ip : Addr) : Option ClientEntry × RequestContext × Filter :=
  match c.db.lookup ip with
  | .undecodable => (none, ctx, c)
  | .record raw =>
    let (entry, ctx) := c.recordEntry now ctx ip raw
    (some entry, ctx,
      { c with clientCache := c.clientCache.cacheValue now order ip.string entry })
  | .notFound =>
    let entry := c.unknownEntry now ip
    (some entry, ctx,
      { c with clientCache := c.clientCache.cacheValue now order ip.string entry })

def verdict (c : Filter) (ctx : RequestContext) : Option ClientEntry → Bool × RequestContext
  | none => (c.onUnknown, if c.onUnknown then ctx else ctx.block "blocked due to unknown country")
  | some entry =>
    let ctx := { ctx with
      countryCode := entry.countryCode, continentCode := entry.continentCode }
    (entry.isAllowed, if entry.isAllowed then ctx else
      ctx.block ("blocked country " ++ entry.countryCode ++ ", continent " ++
        entry.continentCode))

def isFromAllowedCountry (c : Filter) (now : Nat) (order : List String) (ctx : RequestContext)
    (ip : Addr) : (Bool × RequestContext) × Filter :=
  if c.inLan ip then ((true, ctx), c)
  else
    let (cached, clientCache) := c.clientCache.getValue now ip.string
    let c := { c with clientCache }
    match cached with
    | some entry => (c.verdict ctx (some entry), c)
    | none =>
      let (entry, ctx, c) := c.lookupIPAndCacheValue now order ctx ip
      (c.verdict ctx entry, c)

/-- `reloadDB`; `loaded` is what the loader and `OpenBytes` return. -/
def reloadDB (c : Filter) (loaded : Option Reader) : Filter :=
  match loaded with
  | none => c
  | some reader => { c with db := reader }

end Filter

/-! ### The policy -/

def fieldAt (raw : List (String × GeoValue)) (field : String) : String :=
  if field = "" then "" else GeoValue.text (walk (.map raw) (Strings.split field '.'))

namespace FilterConfig

variable (cfg : FilterConfig)

def inLan (ip : Addr) : Bool :=
  match SubnetTrie.newFromStrings cfg.lanAllowList with
  | .error _ => false
  | .ok trie => trie.contains ip

def listDecides (mode : ListMode) (codes : List String) (code : String) : Bool :=
  if code = "" then cfg.onUnknown
  else
    match mode with
    | .allowList => code ∈ codes
    | .blockList => code ∉ codes

def listsDecide (country continent : String) : Bool :=
  if cfg.countryCodes ≠ [] ∧ cfg.continentCodes ≠ [] then
    if country ∈ cfg.countryCodes then cfg.countryMode = .allowList
    else cfg.listDecides cfg.continentMode cfg.continentCodes continent
  else if cfg.countryCodes ≠ [] then cfg.listDecides cfg.countryMode cfg.countryCodes country
  else cfg.listDecides cfg.continentMode cfg.continentCodes continent

/-- The policy of a filter that asks its database each time. -/
def uncachedPolicy (db : Reader) (ip : Addr) : Bool :=
  if cfg.inLan ip then true
  else
    match db.lookup ip with
    | .notFound => cfg.onUnknown
    | .undecodable => cfg.onUnknown
    | .record raw => cfg.listsDecide (fieldAt raw cfg.countryField) (fieldAt raw cfg.continentField)

end FilterConfig

/-! ### The policy of a filter -/

theorem extractFieldByPath_of_ne_nil (raw : List (String × GeoValue)) {path : List String}
    (h : path ≠ []) : extractFieldByPath raw path = GeoValue.text (walk (.map raw) path) := by
  match path, h with
  | [key], _ =>
    simp only [extractFieldByPath, walk]
    cases raw.lookup key with
    | none | some => rfl
  | _ :: _ :: _, _ => rfl

theorem split_of_not_contains {field : String} (h : Strings.contains field "." = false) :
    Strings.split field '.' = [field] := by
  have hdot : '.' ∉ field.toList := by
    intro hmem
    have hoccurs : ".".toList <:+: field.toList := by
      obtain ⟨before, after, hsplit⟩ := List.append_of_mem hmem
      exact ⟨before, after, by simp [hsplit]⟩
    rw [← Strings.contains_iff_occurs (by decide), h] at hoccurs
    cases hoccurs
  have hjoin : Strings.join [field] '.' = field := by simp [Strings.join]
  have hsplit := Strings.split_join (List.cons_ne_nil field []) (by simpa using hdot)
  rwa [hjoin] at hsplit

theorem extractFieldByPath_splitFieldPath (raw : List (String × GeoValue)) (field : String) :
    extractFieldByPath raw (splitFieldPath field) = fieldAt raw field := by
  rw [splitFieldPath, fieldAt]
  split
  · rfl
  · split
    · next h =>
        rw [Bool.not_eq_true'] at h
        rw [extractFieldByPath_of_ne_nil raw (List.cons_ne_nil _ _), split_of_not_contains h]
    · rw [extractFieldByPath_of_ne_nil raw (Strings.split_ne_nil field '.')]

theorem lookup_codeSet (codes : List String) (code : String) :
    ((codeSet codes).lookup code).isSome = decide (code ∈ codes) := by
  have hfold : ∀ set : GoMap String UInt8,
      ((codes.foldl (fun set code => set.insert code 0) set).lookup code).isSome =
        (decide (code ∈ codes) || (set.lookup code).isSome) := by
    induction codes with
    | nil => simp
    | cons first codes ih =>
      intro set
      rw [List.foldl_cons, ih, GoMap.lookup_insert']
      by_cases hfirst : code = first
      · simp [hfirst]
      · simp [hfirst]
  rw [codeSet, hfold ∅]
  simp

namespace Settings

variable (c : Settings)

/-- The decision about a result of the database, with the codes that go with it. -/
def decision : Result → Option (Bool × String × String)
  | .notFound => some (c.onUnknown, "unknown", "unknown")
  | .undecodable => none
  | .record raw =>
    let countryCode := extractFieldByPath raw c.countryFieldPath
    let continentCode := extractFieldByPath raw c.continentFieldPath
    some ((c.isAllowed {} countryCode continentCode).1, countryCode, continentCode)

def uncached (db : Reader) (ip : Addr) : Bool :=
  if c.inLan ip then true
  else ((c.decision (db.lookup ip)).map Prod.fst).getD c.onUnknown

theorem isAllowed_fst (ctx : RequestContext) (countryCode continentCode : String) :
    (c.isAllowed ctx countryCode continentCode).1 =
      (c.isAllowed {} countryCode continentCode).1 := by
  simp only [isAllowed, continentPolicy]
  grind

end Settings

structure Configured (cfg : FilterConfig) (c : Settings) : Prop where
  countryMode : c.countryMode = cfg.countryMode
  countries : c.countries = codeSet cfg.countryCodes
  hasCountryList : c.hasCountryList = decide (cfg.countryCodes ≠ [])
  continentMode : c.continentMode = cfg.continentMode
  continents : c.continents = codeSet cfg.continentCodes
  hasContinentList : c.hasContinentList = decide (cfg.continentCodes ≠ [])
  countryFieldPath : c.countryFieldPath = splitFieldPath cfg.countryField
  continentFieldPath : c.continentFieldPath = splitFieldPath cfg.continentField
  onUnknown : c.onUnknown = cfg.onUnknown
  lanAllowList : buildLanAllowList cfg.lanAllowList = .ok c.lanAllowList

theorem newFilter_eq_ok {cfg : FilterConfig} {loaded : Except String Reader} {f : Filter}
    (h : newFilter cfg loaded = .ok f) :
    loaded = .ok f.db ∧ f.clientCache = ⟨cfg.maxEntries, cfg.ttl, ∅⟩ ∧
      Configured cfg f.toSettings := by
  unfold newFilter at h
  split at h
  · cases h
  · split at h
    · cases h
    · split at h
      · cases h
      · next hlan =>
          cases h
          exact ⟨rfl, rfl, ⟨rfl, rfl, rfl, rfl, rfl, rfl, rfl, rfl, rfl, hlan⟩⟩

namespace Configured

variable {cfg : FilterConfig} {c : Settings} (h : Configured cfg c)

include h

theorem inLan_eq (ip : Addr) : c.inLan ip = cfg.inLan ip := by
  have hlan := h.lanAllowList
  rw [buildLanAllowList] at hlan
  rw [FilterConfig.inLan, Settings.inLan]
  split at hlan
  · next hnil =>
      rw [← Except.ok.inj hlan, hnil]
      exact (SubnetTrie.contains_new ip).symm
  · split at hlan
    · cases hlan
    · rw [← Except.ok.inj hlan, inAllowList]

theorem evalList_eq (mode : ListMode) (codes : List String) (code : String) :
    c.evalList (codeSet codes) mode code = cfg.listDecides mode codes code := by
  simp only [Settings.evalList, FilterConfig.listDecides, h.onUnknown, lookup_codeSet]
  split
  · rfl
  · cases mode with
    | allowList => rfl
    | blockList => exact decide_not.symm

/-- `isAllowed` is the policy of the lists. -/
theorem isAllowed_eq (country continent : String) :
    (c.isAllowed {} country continent).1 = cfg.listsDecide country continent := by
  have hfound := lookup_codeSet cfg.countryCodes country
  -- with one list an empty code is asked for twice
  have honce : ∀ mode codes code, code = "" → cfg.listDecides mode codes code = cfg.onUnknown :=
    fun _ _ _ hcode => if_pos hcode
  simp only [Settings.isAllowed, FilterConfig.listsDecide, Settings.continentPolicy,
    h.hasCountryList, h.hasContinentList, h.countries, h.continents, h.countryMode,
    h.continentMode, h.onUnknown, h.evalList_eq]
  by_cases hcountry : cfg.countryCodes = []
  · simp only [hcountry, ne_eq, not_true_eq_false, decide_false, Bool.false_and, false_and,
      Bool.false_eq_true, if_false]
    split
    · next hempty => exact (honce _ _ _ hempty).symm
    · rfl
  · by_cases hcontinent : cfg.continentCodes = []
    · simp only [hcountry, hcontinent, ne_eq, not_true_eq_false, not_false_eq_true, decide_true,
        decide_false, Bool.and_false, and_false, Bool.false_eq_true, if_false, if_true]
      split
      · next hempty => exact (honce _ _ _ hempty).symm
      · rfl
    · simp only [hcountry, hcontinent, ne_eq, not_false_eq_true, decide_true, Bool.and_self,
        and_self, if_true]
      cases hlookup : (codeSet cfg.countryCodes).lookup country with
      | none =>
        have hmem : country ∉ cfg.countryCodes := by simpa [hlookup] using hfound
        rw [if_neg hmem]
      | some byte =>
        have hmem : country ∈ cfg.countryCodes := by simpa [hlookup] using hfound
        rw [if_pos hmem]
        cases cfg.countryMode with
        | allowList | blockList => rfl

theorem uncached_eq (db : Reader) (ip : Addr) : c.uncached db ip = cfg.uncachedPolicy db ip := by
  rw [Settings.uncached, FilterConfig.uncachedPolicy, h.inLan_eq]
  split
  · rfl
  · cases db.lookup ip with
    | notFound | undecodable => exact h.onUnknown
    | record raw =>
      simp [Settings.decision, h.isAllowed_eq, h.countryFieldPath, h.continentFieldPath,
        extractFieldByPath_splitFieldPath]

end Configured

end Torii.Middleware.Country
