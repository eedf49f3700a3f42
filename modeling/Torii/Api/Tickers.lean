import Torii.Api.ProxyConfig
import Torii.Go.Time
import Torii.Middleware.CacheOptions

/-!
# Tickers

`time.NewTicker` panics when its duration is not positive. Two durations of the configuration end
there: the cleanup interval of a cache and the refresh interval of trusted proxies.
-/

namespace Torii.Api

open Go Torii.Util Torii.Middleware Torii.Proxy Torii.TrustedProxy

/-- A `ProxyPresetResolver`, with the ranges that it fetches. -/
structure Preset where
  defaultHeader : String
  defaultRefresh : Int
  resolve : List String

/-- `CloudFlarePreset`, when `Resolve` returned the given ranges. -/
def cloudflarePreset (cidrs : List String) : Preset :=
  ⟨"CF-Connecting-IP", 24 * Time.hour, cidrs⟩

/-- The registry after the `init` of the preset, the only one that is added. -/
def resolverRegistry (cidrs : List String) : GoMap String Preset :=
  AList.singleton "cloudflare" (cloudflarePreset cidrs)

inductive PresetError where
  | ranges (err : ResolverError)
  | unknown (presetName : String)
  | noValidCIDRs (presetName : String)

/-- `NewTrustedProxyResolverFromPreset`, with the duration of the ticker that is started. -/
def newTrustedProxyResolverFromPreset (lower : Char → Char) (registry : GoMap String Preset)
    (presetName : String) (extraCIDRs : List String) (header : String) (refreshInterval : Int) :
    Except PresetError (Matcher × Option Int) :=
  if presetName = "" then
    ((newTrustedProxyResolver extraCIDRs header).mapError .ranges).map (·, none)
  else
    match registry.lookup (Strings.toLower lower presetName) with
    | none => .error (.unknown presetName)
    | some preset =>
      let trie := buildTrieTree (preset.resolve ++ extraCIDRs)
      if trie.isEmpty then .error (.noValidCIDRs presetName)
      else
        .ok (⟨some trie, if header = "" then preset.defaultHeader else header⟩,
          some (if refreshInterval = 0 then preset.defaultRefresh else refreshInterval))

def targetProxies (t : RouteTarget) : List TrustedProxiesConfig :=
  t.trustedProxies.toList ++ t.paths.flatMap (·.trustedProxies.toList)

def listenerProxies (conf : Listener) : List TrustedProxiesConfig :=
  (conf.default_.toList ++ conf.routes.map Route.target).flatMap targetProxies

def refreshTicker (lower : Char → Char) (registry : GoMap String Preset)
    (cfg : TrustedProxiesConfig) : Option Int :=
  (newTrustedProxyResolverFromPreset lower registry cfg.preset cfg.ranges cfg.header
    cfg.refreshInterval).toOption.bind Prod.snd

def refreshTickers (lower : Char → Char) (registry : GoMap String Preset) (conf : Listener) :
    List Int :=
  (listenerProxies conf).filterMap (refreshTicker lower registry)

def RouteTargetDTO.proxies (t : RouteTargetDTO) : List TrustedProxiesDTO :=
  t.trustedProxies.toList ++ t.paths.flatMap (·.trustedProxies.toList)

def CreateProxyServerRequest.proxies (req : CreateProxyServerRequest) : List TrustedProxiesDTO :=
  (req.default_.toList ++ req.routes.map RouteDTO.target).flatMap RouteTargetDTO.proxies

section

variable {time : DurationFormat} {lower : Char → Char}

theorem targetProxies_convert (t : RouteTargetDTO) :
    targetProxies (convertRouteTarget time t) =
      t.proxies.filterMap fun dto => convertTrustedProxies time (some dto) := by
  have hsingle : ∀ tp : Option TrustedProxiesDTO, (convertTrustedProxies time tp).toList =
      tp.toList.filterMap fun dto => convertTrustedProxies time (some dto) := by
    intro tp
    cases tp with
    | none => rfl
    | some dto => cases h : convertTrustedProxies time (some dto) <;> simp [h]
  simp [targetProxies, RouteTargetDTO.proxies, convertRouteTarget, hsingle, List.flatMap_map,
    List.filterMap_flatMap, convertPathRule]

theorem targets_of_mapM {dtos : List RouteDTO} {routes : List Route}
    (h : dtos.mapM (convertRoute time) = .ok routes) :
    routes.map Route.target = dtos.map fun r => convertRouteTarget time r.target := by
  induction dtos generalizing routes with
  | nil =>
    cases h
    rfl
  | cons dto dtos ih =>
    obtain ⟨route, rest, hroute, hrest, rfl⟩ := Except.mapM_cons_eq_ok h
    rw [convertRoute] at hroute
    split at hroute
    · cases hroute
    · cases hroute
      rw [List.map_cons, List.map_cons, ih hrest]

theorem listenerProxies_convert {req : CreateProxyServerRequest} {conf : Listener}
    (hconf : convertToHTTPListener time req = .ok conf) :
    listenerProxies conf =
      req.proxies.filterMap fun dto => convertTrustedProxies time (some dto) := by
  obtain ⟨timeouts, -, hconf⟩ := Except.bind_eq_ok.mp hconf
  obtain ⟨routes, hroutes, hconf⟩ := Except.bind_eq_ok.mp hconf
  cases hconf
  have hdefault : (req.default_.map (convertRouteTarget time)).toList =
      req.default_.toList.map (convertRouteTarget time) := by cases req.default_ <;> rfl
  simp [listenerProxies, CreateProxyServerRequest.proxies, targets_of_mapM hroutes, hdefault,
    List.flatMap_map, List.filterMap_flatMap, targetProxies_convert]

variable {cfg : TrustedProxiesConfig} {text : String}

theorem convertTrustedProxies_eq_some {dto : TrustedProxiesDTO} :
    convertTrustedProxies time (some dto) = some cfg ↔ ¬ (dto.preset = "" ∧ dto.ranges = []) ∧
      cfg = ⟨dto.preset, dto.ranges, dto.header, convertInterval time dto.refreshInterval⟩ := by
  rw [convertTrustedProxies]
  split
  · next h => simp [h]
  · next h =>
    exact ⟨fun hcfg => ⟨h, (Option.some.inj hcfg).symm⟩, fun hcfg => congrArg _ hcfg.2.symm⟩

theorem convertInterval_of_parse {d : Int} (h : time.parse text = .ok d) :
    convertInterval time text = d := by
  have hne : text ≠ "" := by
    rintro rfl
    exact time.parse_empty d h
  simp [convertInterval, hne, h]

theorem parse_of_convertInterval (h : convertInterval time text ≠ 0) :
    time.parse text = .ok (convertInterval time text) := by
  rw [convertInterval] at h ⊢
  split at h
  · next hne =>
    rw [if_pos hne]
    cases hparse : time.parse text with
    | ok d => rfl
    | error err => simp [hparse] at h
  · exact absurd rfl h

/-- The trusted proxies name the registered preset. -/
def TrustedProxiesDTO.Registered (lower : Char → Char) (dto : TrustedProxiesDTO) : Prop :=
  Strings.toLower lower dto.preset = "cloudflare"

theorem lookup_resolverRegistry (cidrs : List String) (name : String) :
    (resolverRegistry cidrs).lookup name =
      if name = "cloudflare" then some (cloudflarePreset cidrs) else none := by
  split
  · next h =>
    rw [h]
    rfl
  · next h =>
    rw [AList.lookup_eq_none]
    simpa [resolverRegistry, AList.mem_keys, AList.keys_singleton] using h

theorem ne_cloudflare_of_empty (lower : Char → Char) :
    Strings.toLower lower "" ≠ "cloudflare" := by
  simp [Strings.toLower]

/-- The ticker of a preset whose ranges were fetched. -/
theorem refreshTicker_eq_some {cidrs : List String} {d : Int}
    (hfetched : (buildTrieTree (cidrs ++ cfg.ranges)).isEmpty = false) :
    refreshTicker lower (resolverRegistry cidrs) cfg = some d ↔
      Strings.toLower lower cfg.preset = "cloudflare" ∧
        d = if cfg.refreshInterval = 0 then 24 * (Time.hour : Int) else cfg.refreshInterval := by
  rw [refreshTicker, newTrustedProxyResolverFromPreset, lookup_resolverRegistry]
  by_cases hempty : cfg.preset = ""
  · have hname := ne_cloudflare_of_empty lower
    cases newTrustedProxyResolver cfg.ranges cfg.header <;>
      simp [hempty, hname, Except.mapError, Except.map, Except.toOption]
  · by_cases hname : Strings.toLower lower cfg.preset = "cloudflare"
    · rw [if_neg hempty, if_pos hname]
      simp only [cloudflarePreset, hfetched, hname, true_and]
      exact ⟨fun h => (Option.some.inj h).symm, fun h => congrArg _ h.symm⟩
    · rw [if_neg hempty, if_neg hname]
      simp [hname, Except.toOption]

end

/-- When the ranges of the preset can be fetched, the tickers of an accepted configuration have
positive durations exactly when the product of the cleanup interval is positive after it was cut
to 64 bits, and no refresh interval of a registered preset is negative. -/
theorem tickers_positive_iff (time : DurationFormat) (lower : Char → Char) (now : Int)
    (cidrs : List String) (configMap : GoMap String OptionValue) (opts : CacheOptions)
    (req : CreateProxyServerRequest) (conf : Listener)
    (hopts : parseCacheOptions now configMap = .ok opts)
    (hconf : convertToHTTPListener time req = .ok conf)
    (hfetched : ∀ cfg ∈ listenerProxies conf,
      (buildTrieTree (cidrs ++ cfg.ranges)).isEmpty = false) :
    (0 < opts.cleanupInterval ∧ ∀ d ∈ refreshTickers lower (resolverRegistry cidrs) conf, 0 < d) ↔
      (∀ n unit, Written acceptedSuffixes
          (stringOr configMap "cleanup-interval" defaultCleanupInterval) n unit →
        0 < (n * unit).bmod (2 ^ 64)) ∧
      ∀ dto ∈ req.proxies, dto.Registered lower →
        ∀ d, time.parse dto.refreshInterval = .ok d → 0 ≤ d := by
  apply and_congr
  · have hread : (parseTimeString
        (stringOr configMap "cleanup-interval" defaultCleanupInterval)).toOption =
          some opts.cleanupInterval := by
      rw [parseCacheOptions] at hopts
      split at hopts
      · cases hopts
      · split at hopts
        · cases hopts
        · next _ hcleanup =>
          cases hopts
          rw [hcleanup]
          rfl
    constructor
    · intro hpos n unit hwritten
      have hvalue := parseTimeString_eq_some_iff.mpr ⟨n, unit, hwritten, rfl⟩
      rwa [Option.some.inj (hvalue.symm.trans hread)]
    · intro hall
      obtain ⟨n, unit, hwritten, hvalue⟩ := parseTimeString_eq_some_iff.mp hread
      exact hvalue ▸ hall n unit hwritten
  · rw [listenerProxies_convert hconf] at hfetched
    simp only [refreshTickers, listenerProxies_convert hconf]
    simp only [List.mem_filterMap] at hfetched ⊢
    constructor
    · intro hpos dto hdto hname d hparse
      by_contra hneg
      have hzero : d ≠ 0 := by omega
      have hnone : ¬ (dto.preset = "" ∧ dto.ranges = []) := by
        rintro ⟨hempty, -⟩
        rw [TrustedProxiesDTO.Registered, hempty] at hname
        exact ne_cloudflare_of_empty lower hname
      have hcfg : convertTrustedProxies time (some dto) =
          some ⟨dto.preset, dto.ranges, dto.header, d⟩ :=
        convertTrustedProxies_eq_some.mpr ⟨hnone, by rw [convertInterval_of_parse hparse]⟩
      have hticker := (refreshTicker_eq_some (hfetched _ ⟨dto, hdto, hcfg⟩)).mpr
        ⟨hname, (if_neg hzero).symm⟩
      exact hneg (hpos d ⟨_, ⟨dto, hdto, hcfg⟩, hticker⟩).le
    · rintro hnonneg d ⟨cfg, ⟨dto, hdto, hcfg⟩, hticker⟩
      obtain ⟨hname, rfl⟩ := (refreshTicker_eq_some (hfetched cfg ⟨dto, hdto, hcfg⟩)).mp hticker
      obtain ⟨-, rfl⟩ := convertTrustedProxies_eq_some.mp hcfg
      split
      · decide
      · next hinterval =>
        have hle := hnonneg dto hdto hname _ (parse_of_convertInterval hinterval)
        exact lt_of_le_of_ne hle (Ne.symm hinterval)

theorem length_noMiddlewares : ([] : List MiddlewareConfigDTO).length < 2 ^ 59 := by decide

/-- A listener that trusts the preset. -/
def presetRequest (refreshInterval : String) : CreateProxyServerRequest where
  port := 8080
  bind := 0
  default_ := some
    { backend := { address := "http://127.0.0.1:3000" }
      middlewares := ⟨[], length_noMiddlewares⟩
      trustedProxies := some { preset := "cloudflare", refreshInterval } }

theorem convert_presetRequest (time : DurationFormat) (text : String) :
    ∃ conf, convertToHTTPListener time (presetRequest text) = .ok conf ∧
      listenerProxies conf = [⟨"cloudflare", [], "", convertInterval time text⟩] :=
  ⟨_, rfl, rfl⟩

theorem fetched_private : (buildTrieTree ["10.0.0.0/8"]).isEmpty = false := by decide +kernel

/-- A minute between two refreshes, and the default cleanup interval. -/
theorem tickers_positive_minute :
    ∃ opts conf, parseCacheOptions 0 ∅ = .ok opts ∧
      convertToHTTPListener nanoseconds (presetRequest "60000000000ns") = .ok conf ∧
      0 < opts.cleanupInterval ∧
        ∀ d ∈ refreshTickers id (resolverRegistry ["10.0.0.0/8"]) conf, 0 < d := by
  obtain ⟨conf, hconf, hproxies⟩ := convert_presetRequest nanoseconds "60000000000ns"
  have hfetched : ∀ cfg ∈ listenerProxies conf,
      (buildTrieTree (["10.0.0.0/8"] ++ cfg.ranges)).isEmpty = false := by
    simpa [hproxies] using fetched_private
  refine ⟨_, conf, rfl, hconf, (tickers_positive_iff nanoseconds id 0 ["10.0.0.0/8"] ∅ _ _ conf rfl
    hconf hfetched).mpr ⟨?_, fun _ _ _ _ hparse => nonneg_of_parseNanoseconds hparse⟩⟩
  intro n unit hwritten
  have hvalue := parseTimeString_eq_some_iff.mpr ⟨n, unit, hwritten, rfl⟩
  have hhour : (parseTimeString
      (stringOr ∅ "cleanup-interval" defaultCleanupInterval)).toOption = some Time.hour := by
    decide +kernel
  rw [← Option.some.inj (hhour.symm.trans hvalue)]
  decide

/-- The durations in nanoseconds, and one that is negative. -/
def signedDurations : DurationFormat where
  parse text := if text = "-1s" then .ok (-Time.second) else nanoseconds.parse text
  string := nanoseconds.string
  parse_le := by
    intro text d h
    split at h
    · cases h
      decide
    · exact nanoseconds.parse_le h
  parse_empty := nanoseconds.parse_empty
  parse_string := by
    intro d hpos hle
    have hparse := nanoseconds.parse_string hpos hle
    split
    · next htext =>
      rw [htext] at hparse
      exact absurd hparse nofun
    · exact hparse

/-- A cleanup interval of zero and a negative refresh interval are accepted. -/
theorem nonpositive_tickers_accepted :
    (∃ opts, parseCacheOptions 0 (AList.singleton "cleanup-interval" (.string "0s")) = .ok opts ∧
      opts.cleanupInterval = 0) ∧
    ∃ conf, convertToHTTPListener signedDurations (presetRequest "-1s") = .ok conf ∧
      -(Time.second : Int) ∈ refreshTickers id (resolverRegistry ["10.0.0.0/8"]) conf := by
  refine ⟨⟨_, rfl, by decide⟩, ?_⟩
  obtain ⟨conf, hconf, hproxies⟩ := convert_presetRequest signedDurations "-1s"
  refine ⟨conf, hconf, ?_⟩
  rw [refreshTickers, hproxies]
  exact List.mem_filterMap.mpr ⟨_, List.mem_singleton_self _,
    (refreshTicker_eq_some fetched_private).mpr ⟨by decide +kernel, by decide +kernel⟩⟩

end Torii.Api
