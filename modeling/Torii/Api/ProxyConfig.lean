import Torii.Lib.Refinement
import Torii.Proxy.Listener

/-!
# Proxy configurations over the API

`convertToHTTPListener` and `configToDTO` of `api/handler_proxy.go`. Durations travel as text, and a
duration of zero as no text; trusted proxies without a preset and without ranges travel as none.
-/

namespace Torii.Api

open Go Torii.Middleware Torii.Proxy

/-! ## Transfer objects -/

structure TLSConfigDTO where
  useAcme : Bool := false
  cert : String := ""
  key : String := ""

structure BackendTlsConfigDTO where
  insecureSkipVerify : Bool := false
  caCert : String := ""
  clientCert : String := ""
  clientKey : String := ""

structure BackendConfigDTO where
  address : String
  replaceHostHeader : Bool := false
  tls : Option BackendTlsConfigDTO := none

structure MiddlewareConfigDTO where
  type : String
  options : Option (GoMap String OptionValue) := none

/-- `[]MiddlewareConfigDTO`, whose elements are as large as those of `ConfigSlice`. -/
structure MiddlewareSliceDTO where
  dtos : List MiddlewareConfigDTO := []
  length_lt : dtos.length < 2 ^ 59 := by decide

structure TrustedProxiesDTO where
  preset : String := ""
  ranges : List String := []
  header : String := ""
  refreshInterval : String := ""

structure PathRuleDTO where
  pattern : String
  backend : Option BackendConfigDTO := none
  dropQuery : Option Bool := none
  stripPrefix : Option Bool := none
  middlewares : MiddlewareSliceDTO := {}
  disableDefaults : Bool := false
  trustedProxies : Option TrustedProxiesDTO := none

structure RouteTargetDTO where
  backend : BackendConfigDTO
  middlewares : MiddlewareSliceDTO := {}
  paths : List PathRuleDTO := []
  disableDefaults : Bool := false
  trustedProxies : Option TrustedProxiesDTO := none

structure RouteDTO where
  host : String
  target : RouteTargetDTO

structure CreateProxyServerRequest where
  port : Int
  bind : Int
  interface : String := ""
  tls : Option TLSConfigDTO := none
  disableHTTP2 : Bool := false
  readTimeout : String := ""
  readHeaderTimeout : String := ""
  writeTimeout : String := ""
  idleTimeout : String := ""
  routes : List RouteDTO := []
  default_ : Option RouteTargetDTO := none

/-- The largest duration: 64 bits, in nanoseconds. -/
def maxDuration : Int := 9223372036854775807

/-- `time.ParseDuration` and `Duration.String`, which are inverse on positive durations. -/
structure DurationFormat where
  parse : String → Except String Int
  string : Int → String
  parse_le : ∀ {text d}, parse text = .ok d → d ≤ maxDuration
  parse_empty : ∀ d, parse "" ≠ .ok d
  parse_string : ∀ {d}, 0 < d → d ≤ maxDuration → parse (string d) = .ok d

inductive ConvertError where
  | duration (field text cause : String)
  | emptyHost
deriving DecidableEq

def ConvertError.message (quote : String → String) : ConvertError → String
  | .duration field text cause => "invalid " ++ field ++ " " ++ quote text ++ ": " ++ cause
  | .emptyHost => "host-based route must have a non-empty host"

/-! ## From requests to configurations -/

section

variable (time : DurationFormat)

/-- A timeout of the request; an empty text is zero. -/
def convertTimeout (field text : String) : Except ConvertError Int :=
  if text ≠ "" then (time.parse text).mapError (.duration field text) else .ok 0

/-- A refresh interval of the request; a text that does not parse is dropped. -/
def convertInterval (text : String) : Int :=
  if text ≠ "" then
    match time.parse text with
    | .ok d => d
    | .error _ => 0
  else 0

def convertTrustedProxies : Option TrustedProxiesDTO → Option TrustedProxiesConfig
  | none => none
  | some dto =>
    if dto.preset = "" ∧ dto.ranges = [] then none
    else
      some
        { preset := dto.preset
          ranges := dto.ranges
          header := dto.header
          refreshInterval := convertInterval time dto.refreshInterval }

def backendTLSConfigFromDTO (dto : Option BackendTlsConfigDTO) : Option BackendTlsConfig :=
  dto.map fun dto => ⟨dto.insecureSkipVerify, dto.caCert, dto.clientCert, dto.clientKey⟩

def backendConfigFromDTO (dto : BackendConfigDTO) : BackendConfig :=
  ⟨dto.address, dto.replaceHostHeader, backendTLSConfigFromDTO dto.tls⟩

def convertMiddlewares (dtos : MiddlewareSliceDTO) : ConfigSlice where
  configs := dtos.dtos.map fun m => ⟨m.type, m.options⟩
  length_lt := by simpa using dtos.length_lt

def convertPathRule (p : PathRuleDTO) : PathRule where
  pattern := p.pattern
  backend := p.backend.map backendConfigFromDTO
  dropQuery := p.dropQuery
  stripPrefix := p.stripPrefix
  middlewares := convertMiddlewares p.middlewares
  disableDefaults := p.disableDefaults
  trustedProxies := convertTrustedProxies time p.trustedProxies

def convertRouteTarget (dto : RouteTargetDTO) : RouteTarget where
  backend := backendConfigFromDTO dto.backend
  middlewares := convertMiddlewares dto.middlewares
  paths := dto.paths.map (convertPathRule time)
  disableDefaults := dto.disableDefaults
  trustedProxies := convertTrustedProxies time dto.trustedProxies

def convertRoute (r : RouteDTO) : Except ConvertError Route :=
  if r.host = "" then .error .emptyHost else .ok ⟨r.host, convertRouteTarget time r.target⟩

/-- The timeouts, read in the order of the source. -/
def convertTimeouts (req : CreateProxyServerRequest) : Except ConvertError Timeouts := do
  let readTimeout ← convertTimeout time "read_timeout" req.readTimeout
  let readHeaderTimeout ← convertTimeout time "read_header_timeout" req.readHeaderTimeout
  let writeTimeout ← convertTimeout time "write_timeout" req.writeTimeout
  let idleTimeout ← convertTimeout time "idle_timeout" req.idleTimeout
  pure ⟨readTimeout, readHeaderTimeout, writeTimeout, idleTimeout⟩

def convertToHTTPListener (req : CreateProxyServerRequest) : Except ConvertError Listener := do
  let timeouts ← convertTimeouts time req
  let routes ← req.routes.mapM (convertRoute time)
  pure
    { toTimeouts := timeouts
      port := req.port
      bind := UInt8.ofInt req.bind
      interface := req.interface
      tls := req.tls.map fun tls => ⟨tls.useAcme, tls.cert, tls.key⟩
      disableHTTP2 := req.disableHTTP2
      default_ := req.default_.map (convertRouteTarget time)
      routes := routes }

/-! ## From configurations to requests -/

def durationToDTO (d : Int) : String := if 0 < d then time.string d else ""

def trustedProxiesToDTO : Option TrustedProxiesConfig → Option TrustedProxiesDTO
  | none => none
  | some tp =>
    if tp.preset = "" ∧ tp.ranges = [] then none
    else
      some
        { preset := tp.preset
          ranges := tp.ranges
          header := tp.header
          refreshInterval := durationToDTO time tp.refreshInterval }

def backendTLSConfigToDTO (c : Option BackendTlsConfig) : Option BackendTlsConfigDTO :=
  c.map fun c => ⟨c.insecureSkipVerify, c.caCert, c.clientCert, c.clientKey⟩

def backendConfigToDTO (c : BackendConfig) : BackendConfigDTO :=
  ⟨c.address, c.replaceHostHeader, backendTLSConfigToDTO c.tls⟩

/-- The loop over the middlewares of a configuration. -/
def middlewaresToDTO (slice : ConfigSlice) : MiddlewareSliceDTO where
  dtos := slice.configs.map fun m => ⟨m.type, m.options⟩
  length_lt := by simpa using slice.length_lt

def pathRuleToDTO (p : PathRule) : PathRuleDTO where
  pattern := p.pattern
  backend := p.backend.map backendConfigToDTO
  dropQuery := p.dropQuery
  stripPrefix := p.stripPrefix
  middlewares := middlewaresToDTO p.middlewares
  disableDefaults := p.disableDefaults
  trustedProxies := trustedProxiesToDTO time p.trustedProxies

def routeTargetToDTO (t : RouteTarget) : RouteTargetDTO where
  backend := backendConfigToDTO t.backend
  middlewares := middlewaresToDTO t.middlewares
  paths := t.paths.map (pathRuleToDTO time)
  disableDefaults := t.disableDefaults
  trustedProxies := trustedProxiesToDTO time t.trustedProxies

def configToDTO (conf : Listener) : CreateProxyServerRequest where
  port := conf.port
  bind := conf.bind.toNat
  interface := conf.interface
  disableHTTP2 := conf.disableHTTP2
  tls := conf.tls.map fun tls => ⟨tls.useAcme, tls.cert, tls.key⟩
  readTimeout := durationToDTO time conf.readTimeout
  readHeaderTimeout := durationToDTO time conf.readHeaderTimeout
  writeTimeout := durationToDTO time conf.writeTimeout
  idleTimeout := durationToDTO time conf.idleTimeout
  default_ := conf.default_.map (routeTargetToDTO time)
  routes := conf.routes.map fun route => ⟨route.host, routeTargetToDTO time route.target⟩

/-! ## Round trips -/

/-- A duration that a request can give: not negative, and a 64-bit integer. -/
def Representable (d : Int) : Prop := 0 ≤ d ∧ d ≤ maxDuration

variable {d : Int} {field text : String} {routes : List Route}

theorem convertTimeout_durationToDTO (field : String) (h : Representable d) :
    convertTimeout time field (durationToDTO time d) = .ok d := by
  rw [durationToDTO]
  split
  · next hpos =>
    have hparse := time.parse_string hpos h.2
    have hne : time.string d ≠ "" := by
      intro hempty
      rw [hempty] at hparse
      exact time.parse_empty d hparse
    rw [convertTimeout, if_pos hne, hparse]
    rfl
  · next hpos =>
    obtain rfl : d = 0 := by
      have hnonneg := h.1
      omega
    rfl

theorem convertInterval_of_convertTimeout (h : convertTimeout time field text = .ok d) :
    convertInterval time text = d := by
  rw [convertTimeout] at h
  rw [convertInterval]
  split at h
  · next hne =>
    rw [if_pos hne]
    cases hparse : time.parse text with
    | error e => simp [hparse, Except.mapError] at h
    | ok d' => simpa [hparse, Except.mapError] using h
  · next hempty =>
    rw [if_neg hempty]
    exact Except.ok.inj h

/-- Trusted proxies that are not dropped, with a refresh interval that reads back. -/
def ProxiesRepresentable (tp : Option TrustedProxiesConfig) : Prop :=
  ∀ cfg ∈ tp, ¬ (cfg.preset = "" ∧ cfg.ranges = []) ∧ Representable cfg.refreshInterval

theorem convertTrustedProxies_toDTO {tp : Option TrustedProxiesConfig}
    (h : ProxiesRepresentable tp) :
    convertTrustedProxies time (trustedProxiesToDTO time tp) = tp := by
  cases tp with
  | none => rfl
  | some cfg =>
    obtain ⟨hgiven, hinterval⟩ := h cfg rfl
    have hparse := convertInterval_of_convertTimeout time
      (convertTimeout_durationToDTO time "refresh_interval" hinterval)
    rw [trustedProxiesToDTO, if_neg hgiven, convertTrustedProxies, if_neg hgiven, hparse]

@[simp] theorem backendConfigFromDTO_toDTO (c : BackendConfig) :
    backendConfigFromDTO (backendConfigToDTO c) = c := by
  obtain ⟨address, replaceHostHeader, tls⟩ := c
  cases tls with
  | none | some => rfl

@[simp] theorem convertMiddlewares_toDTO (slice : ConfigSlice) :
    convertMiddlewares (middlewaresToDTO slice) = slice := by
  obtain ⟨configs, hlength⟩ := slice
  simp only [convertMiddlewares, middlewaresToDTO, List.map_map]
  congr 1
  exact List.map_id configs

theorem convertPathRule_toDTO {p : PathRule} (h : ProxiesRepresentable p.trustedProxies) :
    convertPathRule time (pathRuleToDTO time p) = p := by
  have hbackend : (p.backend.map backendConfigToDTO).map backendConfigFromDTO = p.backend := by
    cases hp : p.backend with
    | none => rfl
    | some backend => simp
  simp [convertPathRule, pathRuleToDTO, hbackend, convertTrustedProxies_toDTO time h]

/-- The trusted proxies of a route and of its paths. -/
def TargetRepresentable (t : RouteTarget) : Prop :=
  ProxiesRepresentable t.trustedProxies ∧ ∀ p ∈ t.paths, ProxiesRepresentable p.trustedProxies

theorem convertRouteTarget_toDTO {t : RouteTarget} (h : TargetRepresentable t) :
    convertRouteTarget time (routeTargetToDTO time t) = t := by
  have hpaths : (t.paths.map (pathRuleToDTO time)).map (convertPathRule time) = t.paths := by
    rw [List.map_map]
    refine (List.map_congr_left fun p hp => ?_).trans (List.map_id _)
    exact convertPathRule_toDTO time (h.2 p hp)
  simp [convertRouteTarget, routeTargetToDTO, hpaths, convertTrustedProxies_toDTO time h.1]

structure ListenerRepresentable (conf : Listener) : Prop where
  readTimeout : Representable conf.readTimeout
  readHeaderTimeout : Representable conf.readHeaderTimeout
  writeTimeout : Representable conf.writeTimeout
  idleTimeout : Representable conf.idleTimeout
  default_ : ∀ t ∈ conf.default_, TargetRepresentable t
  routes : ∀ route ∈ conf.routes, route.host ≠ "" ∧ TargetRepresentable route.target

theorem mapM_convertRoute_toDTO
    (h : ∀ route ∈ routes, route.host ≠ "" ∧ TargetRepresentable route.target) :
    (routes.map fun route => (⟨route.host, routeTargetToDTO time route.target⟩ : RouteDTO)).mapM
      (convertRoute time) = .ok routes := by
  induction routes with
  | nil => rfl
  | cons route routes ih =>
    obtain ⟨hhost, htarget⟩ := h route (by simp)
    have hroute : convertRoute time ⟨route.host, routeTargetToDTO time route.target⟩ =
        .ok route := by
      rw [convertRoute, if_neg hhost, convertRouteTarget_toDTO time htarget]
    rw [List.map_cons, List.mapM_cons, hroute, ih fun route' h' => h route' (by simp [h'])]
    rfl

theorem ofInt_toNat (b : UInt8) : UInt8.ofInt (b.toNat : Int) = b := by
  have hlt := b.toNat_lt
  apply UInt8.toNat_inj.mp
  simp only [UInt8.ofInt, UInt8.toNat_ofNat']
  omega

theorem convertToHTTPListener_toDTO {conf : Listener} (h : ListenerRepresentable conf) :
    convertToHTTPListener time (configToDTO time conf) = .ok conf := by
  have htimeouts : convertTimeouts time (configToDTO time conf) = .ok conf.toTimeouts := by
    simp only [convertTimeouts, configToDTO, convertTimeout_durationToDTO time _ h.readTimeout,
      convertTimeout_durationToDTO time _ h.readHeaderTimeout,
      convertTimeout_durationToDTO time _ h.writeTimeout,
      convertTimeout_durationToDTO time _ h.idleTimeout]
    rfl
  have hdefault : (conf.default_.map (routeTargetToDTO time)).map (convertRouteTarget time) =
      conf.default_ := by
    cases hd : conf.default_ with
    | none => rfl
    | some t => simp [convertRouteTarget_toDTO time (h.default_ t hd)]
  have htls : (conf.tls.map fun tls => (⟨tls.useAcme, tls.cert, tls.key⟩ : TLSConfigDTO)).map
      (fun tls => (⟨tls.useAcme, tls.cert, tls.key⟩ : TLSConfig)) = conf.tls := by
    cases conf.tls with
    | none | some => rfl
  rw [convertToHTTPListener, htimeouts]
  simp only [configToDTO, hdefault, htls, ofInt_toNat, mapM_convertRoute_toDTO time h.routes]
  rfl

/-! ## Configurations from requests -/

def TrustedProxiesDTO.durations (tp : Option TrustedProxiesDTO) : List String :=
  tp.toList.map TrustedProxiesDTO.refreshInterval

def RouteTargetDTO.durations (t : RouteTargetDTO) : List String :=
  TrustedProxiesDTO.durations t.trustedProxies ++
    t.paths.flatMap fun p => TrustedProxiesDTO.durations p.trustedProxies

def CreateProxyServerRequest.durations (r : CreateProxyServerRequest) : List String :=
  [r.readTimeout, r.readHeaderTimeout, r.writeTimeout, r.idleTimeout] ++
    r.default_.toList.flatMap RouteTargetDTO.durations ++
    r.routes.flatMap fun route => route.target.durations

def NonNegative (texts : List String) : Prop :=
  ∀ text ∈ texts, ∀ d, time.parse text = .ok d → 0 ≤ d

theorem representable_convertTimeout {texts : List String} (h : NonNegative time texts)
    (htext : text ∈ texts) (hconvert : convertTimeout time field text = .ok d) :
    Representable d := by
  rw [convertTimeout] at hconvert
  split at hconvert
  · cases hparse : time.parse text with
    | error e => simp [hparse, Except.mapError] at hconvert
    | ok d' =>
      obtain rfl : d' = d := by simpa [hparse, Except.mapError] using hconvert
      exact ⟨h text htext d' hparse, time.parse_le hparse⟩
  · cases hconvert
    exact ⟨le_rfl, by decide⟩

theorem representable_convertInterval (h : ∀ d, time.parse text = .ok d → 0 ≤ d) :
    Representable (convertInterval time text) := by
  have hzero : Representable 0 := ⟨le_rfl, by decide⟩
  rw [convertInterval]
  split
  · cases hparse : time.parse text with
    | error e => exact hzero
    | ok d => exact ⟨h d hparse, time.parse_le hparse⟩
  · exact hzero

theorem representable_convertTrustedProxies {tp : Option TrustedProxiesDTO}
    (h : NonNegative time (TrustedProxiesDTO.durations tp)) :
    ProxiesRepresentable (convertTrustedProxies time tp) := by
  intro cfg hcfg
  cases tp with
  | none => cases hcfg
  | some dto =>
    rw [convertTrustedProxies] at hcfg
    split at hcfg
    · cases hcfg
    · next hgiven =>
      cases hcfg
      exact ⟨hgiven, representable_convertInterval time
        (h dto.refreshInterval (by simp [TrustedProxiesDTO.durations]))⟩

theorem representable_convertRouteTarget {t : RouteTargetDTO}
    (h : NonNegative time t.durations) : TargetRepresentable (convertRouteTarget time t) := by
  constructor
  · apply representable_convertTrustedProxies
    intro text htext
    exact h text (by simp [RouteTargetDTO.durations, htext])
  · intro p hp
    obtain ⟨dto, hdto, rfl⟩ := List.mem_map.mp hp
    apply representable_convertTrustedProxies
    intro text htext
    exact h text (List.mem_append_right _ (List.mem_flatMap.mpr ⟨dto, hdto, htext⟩))

/-- Loop lemma: every route comes from one of the request. -/
theorem mem_of_mapM_convertRoute {dtos : List RouteDTO}
    (h : dtos.mapM (convertRoute time) = .ok routes) {route : Route} (hroute : route ∈ routes) :
    ∃ dto ∈ dtos, dto.host ≠ "" ∧ route = ⟨dto.host, convertRouteTarget time dto.target⟩ := by
  obtain ⟨dto, hdto, hconvert⟩ := (Except.mem_mapM h).mp hroute
  refine ⟨dto, hdto, ?_⟩
  rw [convertRoute] at hconvert
  grind

theorem representable_convertToHTTPListener {r : CreateProxyServerRequest} {c : Listener}
    (h : NonNegative time r.durations) (hconvert : convertToHTTPListener time r = .ok c) :
    ListenerRepresentable c := by
  obtain ⟨timeouts, htimeouts, hconvert⟩ := Except.bind_eq_ok.mp hconvert
  obtain ⟨routes, hroutes, hc⟩ := Except.bind_eq_ok.mp hconvert
  obtain ⟨read, hread, htimeouts⟩ := Except.bind_eq_ok.mp htimeouts
  obtain ⟨readHeader, hreadHeader, htimeouts⟩ := Except.bind_eq_ok.mp htimeouts
  obtain ⟨write, hwrite, htimeouts⟩ := Except.bind_eq_ok.mp htimeouts
  obtain ⟨idle, hidle, htimeouts⟩ := Except.bind_eq_ok.mp htimeouts
  cases htimeouts
  cases hc
  have hmem : ∀ text ∈ [r.readTimeout, r.readHeaderTimeout, r.writeTimeout, r.idleTimeout],
      text ∈ r.durations := by
    intro text htext
    rw [CreateProxyServerRequest.durations, List.append_assoc]
    exact List.mem_append_left _ htext
  refine ⟨representable_convertTimeout time h (hmem _ (by simp)) hread,
    representable_convertTimeout time h (hmem _ (by simp)) hreadHeader,
    representable_convertTimeout time h (hmem _ (by simp)) hwrite,
    representable_convertTimeout time h (hmem _ (by simp)) hidle, ?_, ?_⟩
  · intro t ht
    obtain ⟨dto, hdto, rfl⟩ := Option.map_eq_some_iff.mp ht
    apply representable_convertRouteTarget
    intro text htext
    apply h text
    simp [CreateProxyServerRequest.durations, hdto, htext]
  · intro route hroute
    obtain ⟨dto, hdto, hhost, rfl⟩ := mem_of_mapM_convertRoute time hroutes hroute
    refine ⟨hhost, representable_convertRouteTarget time fun text htext => h text ?_⟩
    exact List.mem_append_right _ (List.mem_flatMap.mpr ⟨dto, hdto, htext⟩)

/-- A configuration that was made from a request without negative durations, read over the
API and sent back, is the same configuration. -/
theorem convertToHTTPListener_roundTrip {r : CreateProxyServerRequest} {c : Listener}
    (h : NonNegative time r.durations) (hconvert : convertToHTTPListener time r = .ok c) :
    convertToHTTPListener time (configToDTO time c) = .ok c :=
  convertToHTTPListener_toDTO time (representable_convertToHTTPListener time h hconvert)

end

/-! ## Durations in nanoseconds -/

/-- The number before the unit `ns`. -/
def parseNanoseconds (text : String) : Except String Int :=
  let digits := text.toList.dropLast.dropLast
  if text.toList = digits ++ ['n', 's'] ∧ digits ≠ [] ∧ digits.all Char.isDigit = true ∧
      (Nat.ofDigitChars 10 digits 0 : Int) ≤ maxDuration then
    .ok (Nat.ofDigitChars 10 digits 0)
  else .error ("time: invalid duration " ++ text)

theorem nonneg_of_parseNanoseconds {text : String} {d : Int}
    (h : parseNanoseconds text = .ok d) : 0 ≤ d := by
  rw [parseNanoseconds] at h
  grind

/-- The durations that are written in nanoseconds alone. -/
def nanoseconds : DurationFormat where
  parse := parseNanoseconds
  string d := String.ofList (Nat.toDigits 10 d.toNat ++ ['n', 's'])
  parse_le := by
    intro text d h
    rw [parseNanoseconds] at h
    split at h
    · next hvalid =>
      cases h
      exact hvalid.2.2.2
    · cases h
  parse_empty := by
    intro d
    simp [parseNanoseconds]
  parse_string := by
    intro d hpos hle
    have hdigits : (Nat.toDigits 10 d.toNat ++ ['n', 's']).dropLast.dropLast =
        Nat.toDigits 10 d.toNat := by
      rw [show ['n', 's'] = ['n'] ++ ['s'] from rfl, ← List.append_assoc, List.dropLast_concat,
        List.dropLast_concat]
    simp only [parseNanoseconds, String.toList_ofList, hdigits, Nat.ofDigitChars_ten_toDigits]
    rw [if_pos]
    · exact congrArg _ (Int.toNat_of_nonneg hpos.le)
    · refine ⟨trivial, Nat.toDigits_ne_nil, List.all_eq_true.mpr fun c hc => ?_, by omega⟩
      exact Nat.isDigit_of_mem_toDigits (by decide) (by decide) hc

def sampleRequest : CreateProxyServerRequest where
  port := 8080
  bind := 257
  readTimeout := "5000ns"
  tls := some { cert := "cert.pem", key := "key.pem" }
  routes := [⟨"example.org",
    { backend := { address := "http://127.0.0.1:3000", tls := some { caCert := "ca.pem" } }
      middlewares := { dtos := [{ type := "RequestId" }] }
      paths := [{ pattern := "/api", backend := some { address := "http://127.0.0.1:3001" } }]
      trustedProxies := some { ranges := ["10.0.0.0/8"], refreshInterval := "60ns" } }⟩]

/-- The configuration of the request reads back. -/
theorem roundTrip_sampleRequest :
    ∃ c, convertToHTTPListener nanoseconds sampleRequest = .ok c ∧
      convertToHTTPListener nanoseconds (configToDTO nanoseconds c) = .ok c := by
  have hnonneg : NonNegative nanoseconds sampleRequest.durations :=
    fun _ _ _ h => nonneg_of_parseNanoseconds h
  have hok : (convertToHTTPListener nanoseconds sampleRequest).isOk = true := by decide +kernel
  cases hc : convertToHTTPListener nanoseconds sampleRequest with
  | error e => simp [hc, Except.isOk, Except.toBool] at hok
  | ok c => exact ⟨c, rfl, convertToHTTPListener_roundTrip nanoseconds hnonneg hc⟩

end Torii.Api
