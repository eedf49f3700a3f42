import Mathlib.Data.Rat.Cast.Defs
import Torii.Middleware.CacheOptions

/-!
# Options from YAML and from JSON

In the configuration file an integer is an `int`, and over the admin API every number is a
`float64`. The parsers of `middleware/config_parser.go` accept both forms; `ParseCacheOptions` reads
"max-cache-size" as an `int` only.
-/

namespace Torii.Middleware

open Go Torii.Util OptionValue

mutual

def OptionValue.jsonForm : OptionValue → OptionValue
  | .null => .null
  | .bool b => .bool b
  | .int n => if n.natAbs ≤ 2 ^ 53 then .float n else .int n
  | .float x => .float x
  | .string s => .string s
  | .list values => .list (jsonValues values)
  | .map fields => .map (jsonFields fields)

def jsonValues : List OptionValue → List OptionValue
  | [] => []
  | value :: values => value.jsonForm :: jsonValues values

def jsonFields : List (String × OptionValue) → List (String × OptionValue)
  | [] => []
  | (key, value) :: fields => (key, value.jsonForm) :: jsonFields fields

end

/-- The options that JSON gives for those of a YAML document. -/
def jsonOptions (opts : GoMap String OptionValue) : GoMap String OptionValue where
  entries := opts.entries.map (Sigma.map id fun _ => OptionValue.jsonForm)
  nodupKeys := by
    rw [List.NodupKeys, List.keys, List.map_map]
    exact opts.nodupKeys

@[simp] theorem lookup_jsonOptions (opts : GoMap String OptionValue) (key : String) :
    (jsonOptions opts).lookup key = (opts.lookup key).map OptionValue.jsonForm :=
  List.dlookup_map₂ (f := fun _ => jsonForm) key

/-! ### Numbers -/

variable {v : Int}

theorem float64_of_dvd (h : 2 ^ (v.natAbs.log2 - 52) ∣ v.natAbs) : float64 v = v := by
  have hpos : 0 < 2 ^ (v.natAbs.log2 - 52) := Nat.two_pow_pos _
  simp only [float64, Nat.mod_eq_zero_of_dvd h, Nat.mul_zero, Nat.not_lt_zero, hpos.ne', false_and,
    or_false, if_false, Nat.div_mul_cancel h, Int.sign_mul_natAbs]

/-- Up to `2 ^ 53` every integer is a float. -/
theorem float64_of_natAbs_le (h : v.natAbs ≤ 2 ^ 53) : float64 v = v := by
  apply float64_of_dvd
  obtain heq | hlt := h.eq_or_lt
  · rw [heq, Nat.log2_two_pow]
    decide
  · have hulp : v.natAbs.log2 - 52 = 0 := by
      by_cases hzero : v.natAbs = 0
      · simp [hzero]
      · have := (Nat.log2_lt hzero).mpr hlt
        omega
    simp [hulp]

theorem truncate_intCast (h : v.natAbs ≤ 2 ^ 53) : truncate v = v := by
  have hbound : -2 ^ 63 ≤ v ∧ v < 2 ^ 63 := by omega
  simp only [truncate, Rat.num_intCast, Rat.den_intCast, Nat.cast_one, Int.tdiv_one, if_pos hbound]

/-- The value under a key in the two forms: a small integer becomes a float, a list or a map
keeps its type, and the rest stays. -/
inductive JsonRead : Option OptionValue → Option OptionValue → Prop where
  | int {n : Int} (hn : n.natAbs ≤ 2 ^ 53) : JsonRead (some (.int n)) (some (.float n))
  | same (value : Option OptionValue) : JsonRead value value
  | list (values values' : List OptionValue) : JsonRead (some (.list values)) (some (.list values'))
  | map (fields fields' : List (String × OptionValue)) :
      JsonRead (some (.map fields)) (some (.map fields'))

section

variable (opts : GoMap String OptionValue) (key : String)

theorem jsonRead_lookup : JsonRead (opts.lookup key) ((jsonOptions opts).lookup key) := by
  rw [lookup_jsonOptions]
  cases opts.lookup key with
  | none => exact .same none
  | some value =>
    cases value with
    | int n =>
      rw [Option.map_some, jsonForm]
      split
      · next hn => exact .int hn
      · exact .same _
    | list values => exact .list values _
    | map fields => exact .map fields _
    | null | bool | float | string => exact .same _

variable (default : String) (defaultValue : Int)

theorem parseIntOpt_json :
    parseIntOpt (jsonOptions opts) key defaultValue = parseIntOpt opts key defaultValue := by
  unfold parseIntOpt
  have hread := jsonRead_lookup opts key
  generalize opts.lookup key = v, (jsonOptions opts).lookup key = v' at hread ⊢
  cases hread with
  | int hn => simp only [truncate_intCast hn]
  | same | list | map => rfl

theorem parseIntOptRequired_json :
    parseIntOptRequired (jsonOptions opts) key = parseIntOptRequired opts key := by
  unfold parseIntOptRequired
  have hread := jsonRead_lookup opts key
  generalize opts.lookup key = v, (jsonOptions opts).lookup key = v' at hread ⊢
  cases hread with
  | int hn => simp only [truncate_intCast hn]
  | same | list | map => rfl

theorem parseFloatOptRequired_json :
    parseFloatOptRequired (jsonOptions opts) key = parseFloatOptRequired opts key := by
  unfold parseFloatOptRequired
  have hread := jsonRead_lookup opts key
  generalize opts.lookup key = v, (jsonOptions opts).lookup key = v' at hread ⊢
  cases hread with
  | int hn => simp only [float64_of_natAbs_le hn]
  | same | list | map => rfl

theorem parseIntOptStrict_json :
    parseIntOptStrict (jsonOptions opts) key defaultValue =
      parseIntOptStrict opts key defaultValue := by
  unfold parseIntOptStrict
  have hread := jsonRead_lookup opts key
  generalize opts.lookup key = v, (jsonOptions opts).lookup key = v' at hread ⊢
  cases hread with
  | int hn => simp only [truncate_intCast hn]
  | same | list | map => rfl

theorem stringOr_json : stringOr (jsonOptions opts) key default = stringOr opts key default := by
  unfold stringOr
  have hread := jsonRead_lookup opts key
  generalize opts.lookup key = v, (jsonOptions opts).lookup key = v' at hread ⊢
  cases hread <;> rfl

theorem cacheNameOr_json : cacheNameOr (jsonOptions opts) default = cacheNameOr opts default := by
  unfold cacheNameOr
  have hread := jsonRead_lookup opts "cache-name"
  generalize opts.lookup "cache-name" = v, (jsonOptions opts).lookup "cache-name" = v' at hread ⊢
  cases hread <;> rfl

/-- "max-cache-size" is read from an `int` only. -/
theorem maxCacheSize_json :
    maxCacheSize (jsonOptions opts) = maxCacheSize opts ↔
      ∀ n, opts.lookup "max-cache-size" = some (.int n) → n.natAbs ≤ 2 ^ 53 →
        n = defaultMaxEntries := by
  unfold maxCacheSize
  cases hlookup : opts.lookup "max-cache-size" with
  | none => simp [lookup_jsonOptions, hlookup]
  | some value =>
    rw [lookup_jsonOptions, hlookup, Option.map_some]
    cases value with
    | int n =>
      by_cases hn : n.natAbs ≤ 2 ^ 53
      · rw [jsonForm, if_pos hn]
        constructor
        · rintro heq _ ⟨⟩ -
          exact heq.symm
        · exact fun h => (h n rfl hn).symm
      · rw [jsonForm, if_neg hn]
        refine iff_of_true rfl ?_
        rintro _ ⟨⟩ hle
        exact absurd hle hn
    | null | bool | float | string | list | map => exact iff_of_true rfl nofun

end

/-! ### The options of a cache -/

def BadDuration (opts : GoMap String OptionValue) : Prop :=
  (∃ err, parseTimeString (stringOr opts "cache-ttl" defaultCacheTtl) = .error err) ∨
    ∃ err, parseTimeString (stringOr opts "cleanup-interval" defaultCleanupInterval) = .error err

variable {opts : GoMap String OptionValue}

theorem parseCacheOptions_of_bad (h : BadDuration opts) (now : Int) :
    ∃ err, parseCacheOptions now opts = .error err ∧
      parseCacheOptions now (jsonOptions opts) = .error err := by
  unfold parseCacheOptions
  rw [stringOr_json, stringOr_json]
  cases httl : parseTimeString (stringOr opts "cache-ttl" defaultCacheTtl) with
  | error err => exact ⟨_, rfl, rfl⟩
  | ok ttl =>
    obtain ⟨err, herr⟩ | ⟨err, herr⟩ := h
    · rw [httl] at herr
      cases herr
    · exact ⟨.cleanupInterval err, by rw [herr], by rw [herr]⟩

theorem parseCacheOptions_of_not_bad (h : ¬ BadDuration opts) (now : Int) :
    ∃ cacheOpts : CacheOptions,
      parseCacheOptions now opts = .ok { cacheOpts with maxEntries := maxCacheSize opts } ∧
      parseCacheOptions now (jsonOptions opts) =
        .ok { cacheOpts with maxEntries := maxCacheSize (jsonOptions opts) } := by
  unfold parseCacheOptions
  rw [stringOr_json, stringOr_json, cacheNameOr_json]
  cases httl : parseTimeString (stringOr opts "cache-ttl" defaultCacheTtl) with
  | error err => exact absurd (.inl ⟨err, httl⟩) h
  | ok ttl =>
    cases hcleanup : parseTimeString
        (stringOr opts "cleanup-interval" defaultCleanupInterval) with
    | error err => exact absurd (.inr ⟨err, hcleanup⟩) h
    | ok cleanupInterval =>
      let name := cacheNameOr opts ("cache-" ++ Strconv.itoa now)
      exact ⟨⟨name.1, false, name.2, "", "", "", "", "", 0, ttl, cleanupInterval⟩, rfl, rfl⟩

/-- Two runs of a parser give equal results or both fail. -/
def SameOutcome {ε α : Type} (a b : Except ε α) : Prop :=
  a = b ∨ (∃ err, a = .error err) ∧ ∃ err, b = .error err

structure SameMeaning (opts : GoMap String OptionValue) : Prop where
  cacheOptions : ∀ now,
    SameOutcome (parseCacheOptions now opts) (parseCacheOptions now (jsonOptions opts))
  middlewareCacheOptions : ∀ now ctx type runtime,
    SameOutcome (parseMiddlewareCacheOptions now ctx ⟨type, some opts⟩ runtime)
      (parseMiddlewareCacheOptions now ctx ⟨type, some (jsonOptions opts)⟩ runtime)
  intOpt : ∀ key defaultValue,
    parseIntOpt opts key defaultValue = parseIntOpt (jsonOptions opts) key defaultValue
  intOptRequired : ∀ key,
    SameOutcome (parseIntOptRequired opts key) (parseIntOptRequired (jsonOptions opts) key)
  floatOptRequired : ∀ key,
    SameOutcome (parseFloatOptRequired opts key) (parseFloatOptRequired (jsonOptions opts) key)
  intOptStrict : ∀ key defaultValue,
    SameOutcome (parseIntOptStrict opts key defaultValue)
      (parseIntOptStrict (jsonOptions opts) key defaultValue)

theorem sameOutcome_parseCacheOptions (now : Int) (opts : GoMap String OptionValue) :
    SameOutcome (parseCacheOptions now opts) (parseCacheOptions now (jsonOptions opts)) ↔
      maxCacheSize (jsonOptions opts) = maxCacheSize opts ∨ BadDuration opts := by
  by_cases hbad : BadDuration opts
  · obtain ⟨err, hyaml, hjson⟩ := parseCacheOptions_of_bad hbad now
    exact iff_of_true (.inl (hyaml.trans hjson.symm)) (.inr hbad)
  · obtain ⟨cacheOpts, hyaml, hjson⟩ := parseCacheOptions_of_not_bad hbad now
    rw [hyaml, hjson, or_iff_left hbad]
    constructor
    · rintro (heq | ⟨⟨err, herr⟩, -⟩)
      · have hopts := Except.ok.inj heq
        exact (congrArg CacheOptions.maxEntries hopts).symm
      · cases herr
    · intro hsize
      exact .inl (by rw [hsize])

/-- Options mean the same in YAML and in JSON exactly when "max-cache-size" is no integer up to
`2 ^ 53` other than the default, or the options are refused because of a duration. -/
theorem sameMeaning_iff (opts : GoMap String OptionValue) :
    SameMeaning opts ↔
      (∀ n, opts.lookup "max-cache-size" = some (.int n) → n.natAbs ≤ 2 ^ 53 → n = 100000) ∨
        BadDuration opts := by
  rw [← show defaultMaxEntries = 100000 from rfl, ← maxCacheSize_json]
  constructor
  · intro h
    exact (sameOutcome_parseCacheOptions 0 opts).mp (h.cacheOptions 0)
  · intro h
    refine ⟨fun now => (sameOutcome_parseCacheOptions now opts).mpr h, ?_,
      fun key d => (parseIntOpt_json opts key d).symm,
      fun key => .inl (parseIntOptRequired_json opts key).symm,
      fun key => .inl (parseFloatOptRequired_json opts key).symm,
      fun key d => .inl (parseIntOptStrict_json opts key d).symm⟩
    intro now ctx type runtime
    unfold parseMiddlewareCacheOptions
    obtain heq | ⟨⟨err, hyaml⟩, ⟨err', hjson⟩⟩ := (sameOutcome_parseCacheOptions now opts).mpr h
    · exact .inl (by rw [Option.getD_some, Option.getD_some, heq])
    · exact .inr ⟨⟨err, by rw [Option.getD_some, hyaml]⟩, ⟨err', by rw [Option.getD_some, hjson]⟩⟩

/-- A limit of 500 entries is lost on its way through JSON. -/
theorem json_loses_max_cache_size :
    let opts := (∅ : GoMap String OptionValue).insert "max-cache-size" (.int 500)
    (parseCacheOptions 0 opts).map CacheOptions.maxEntries = .ok 500 ∧
      (parseCacheOptions 0 (jsonOptions opts)).map CacheOptions.maxEntries = .ok 100000 := by
  decide +kernel

end Torii.Middleware
