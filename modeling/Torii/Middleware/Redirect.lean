import Torii.Go.Net
import Torii.Go.UrlText
import Torii.Lib.Refinement
import Torii.Middleware.Options

/-!
# Redirects

`middleware/redirect_middleware.go`. The reverse proxy of an internal redirect is a parameter, and
so is `url.Parse`. Of the answer of `http.Redirect` the status and the `Location` field are kept;
every URL that the middleware hands to it has a scheme, so that it is only made ASCII there.
-/

namespace Torii.Middleware

open Go Go.Url Torii.Util

/-! ### The configuration -/

inductive RedirectMode where
  | internal
  | external
  | externalSchemeOnly
deriving DecidableEq

def RedirectMode.parse (mode : String) : Option RedirectMode :=
  if mode = "internal" then some .internal
  else if mode = "external" then some .external
  else if mode = "external-scheme-only" then some .externalSchemeOnly
  else none

structure ProxyTlsOptions where
  insecureSkipVerify : Bool
  caCert : String
  clientCert : String
  clientKey : String

structure RedirectOptions where
  mode : RedirectMode
  statusCode : Int
  targetUrl : Parts
  dropPath : Bool
  dropQuery : Bool
  tls : Option ProxyTlsOptions

inductive RedirectError where
  | optionsNil
  | option (cause : OptionError)
  | mode
  | statusCode (raw : OptionValue)
  | scheme
  | target (text : String)

def RedirectError.message (sprint : OptionValue → String) (splitErr : String → String) :
    RedirectError → String
  | .optionsNil => "options cannot be nil"
  | .option cause => cause.message
  | .mode => "invalid 'mode' option: must be 'internal', 'external', or 'external-scheme-only'"
  | .statusCode raw => "invalid 'status-code' option: " ++ sprint raw
  | .scheme => "'target' for external-scheme-only mode must be 'http' or 'https'"
  | .target text => "'target' option is not a valid URL or host:port: " ++ splitErr text

/-- `strconv.Atoi` of `%v` of a value. A number with a fraction, or too large to be written out, has
a point or an exponent in its text. -/
def statusCodeOf : OptionValue → Option Int
  | .int n => some n
  | .float x => if x.den = 1 then some x.num else none
  | .string s => Strconv.parseInt s.toList
  | _ => none

/-- The `status-code` option, which an internal redirect does not have. -/
def parseStatusCode (mode : RedirectMode) (opts : GoMap String OptionValue) :
    Except RedirectError Int :=
  if mode = .internal then .ok 0
  else
    match opts.lookup "status-code" with
    | none => .ok 302
    | some raw =>
      match statusCodeOf raw with
      | none => .error (.statusCode raw)
      | some code => if code < 300 ∨ 399 < code then .error (.statusCode raw) else .ok code

def parseRedirectTLSOptions (opts : GoMap String OptionValue) :
    Except OptionError (Option ProxyTlsOptions) := do
  let insecureSkipVerify := parseBoolOpt opts "insecure-skip-verify" false
  let caCert ← parseStringOpt opts "ca-cert" ""
  let clientCert ← parseStringOpt opts "client-cert" ""
  let clientKey ← parseStringOpt opts "client-key" ""
  if ! insecureSkipVerify ∧ caCert = "" ∧ clientCert = "" ∧ clientKey = "" then return none
  else return some { insecureSkipVerify, caCert, clientCert, clientKey }

/-- A target of which the text can be cut again. -/
structure WellFormed (u : Parts) : Prop where
  scheme : ∀ c ∈ u.scheme, c ≠ ':' ∧ nonASCII c = false
  user : ∀ user ∈ u.user, ∀ c ∈ user, c ∉ delimiters
  path : ∀ c ∈ u.path.head?, c = '/'
  rawPath : ∀ c ∈ u.rawPath.head?, c = '/'
  rawPath_eq : u.rawPath = [] ∨ unescape u.rawPath = some u.path
  rawQuery : '#' ∉ u.rawQuery

/-- `url.Parse`; nothing for an error. -/
structure UrlParser where
  parse : String → Option Parts
  wellFormed : ∀ {s u}, parse s = some u → u.scheme ≠ [] → u.host ≠ [] → WellFormed u

section

variable (url : UrlParser) (lower : Char → Char)

def hostPortTarget (mode : RedirectMode) (target : String) : Except RedirectError Parts :=
  match Net.splitHostPort target with
  | none => .error (.target target)
  | some (host, port) =>
    .ok {
      scheme := if mode = .internal then "http".toList else []
      host := (Net.joinHostPort host port).toList }

def schemeTarget (target : String) : Except RedirectError Parts :=
  let scheme := Strings.toLower lower (Strings.trimSuffixText target "://")
  if scheme ≠ "http" ∧ scheme ≠ "https" then .error .scheme
  else .ok { scheme := scheme.toList, host := [] }

def parseTarget (mode : RedirectMode) (target : String) : Except RedirectError Parts :=
  if mode = .externalSchemeOnly then schemeTarget lower target
  else
    match url.parse target with
    | none => hostPortTarget mode target
    | some parsed =>
      if parsed.scheme = [] ∨ parsed.host = [] then hostPortTarget mode target else .ok parsed

/-- `parseRedirectConf`. The path and the query are dropped by default, unless only the scheme is
changed. -/
def parseRedirectConf (conf : Config) : Except RedirectError RedirectOptions :=
  match conf.options with
  | none => .error .optionsNil
  | some opts => do
      let modeText ← (parseStringOpt opts "mode" "external").mapError .option
      match RedirectMode.parse modeText with
      | none => .error .mode
      | some mode =>
        let statusCode ← parseStatusCode mode opts
        let target ← (parseStringRequired opts "target").mapError .option
        let tls ← (parseRedirectTLSOptions opts).mapError .option
        let targetUrl ← parseTarget url lower mode target
        return {
          mode, statusCode, targetUrl, tls
          dropPath := parseBoolOpt opts "drop-path" (mode ≠ .externalSchemeOnly)
          dropQuery := parseBoolOpt opts "drop-query" (mode ≠ .externalSchemeOnly) }

end

/-! ### The middleware -/

/-- The parts of `*http.Request` that a redirect reads, as the server's parser leaves them. The
asterisk stands alone. -/
structure RedirectRequest where
  host : List Char
  tls : Bool := false
  path : List Char
  rawPath : List Char := []
  rawQuery : List Char := []
  path_eq : path = ['*'] ∧ rawPath = [] ∨ ∀ c ∈ path.head?, c = '/'
  rawPath_head : ∀ c ∈ rawPath.head?, c = '/'
  rawPath_eq : rawPath = [] ∨ unescape rawPath = some path

def RedirectRequest.escapedPath (r : RedirectRequest) : List Char :=
  escapedPathOf r.path r.rawPath

def inferScheme (u : Parts) (r : RedirectRequest) : Parts :=
  if u.scheme = [] then { u with scheme := if r.tls then "https".toList else "http".toList } else u

/-- `buildRedirectURL` of an `externalRedirecter`. -/
def externalRedirectURL (opts : RedirectOptions) (r : RedirectRequest) : List Char :=
  let u := inferScheme opts.targetUrl r
  let u := if opts.dropPath then u else { u with path := trimSlash u.path ++ r.path }
  let u :=
    if opts.dropQuery then u
    else if u.rawQuery ≠ [] ∧ r.rawQuery ≠ [] then
      { u with rawQuery := u.rawQuery ++ '&' :: r.rawQuery }
    else if r.rawQuery ≠ [] then { u with rawQuery := r.rawQuery }
    else u
  u.string

/-- `buildRedirectURL` of a `schemeOnlyRedirecter`. -/
def schemeOnlyRedirectURL (opts : RedirectOptions) (r : RedirectRequest) : List Char :=
  let u : Parts := { scheme := opts.targetUrl.scheme, host := r.host }
  let u := if opts.dropPath then u else { u with path := r.path }
  let u := if opts.dropQuery then u else { u with rawQuery := r.rawQuery }
  u.string

inductive RedirectAnswer (Proxy : Type) where
  /-- The `503` of a middleware that fails closed. -/
  | misconfigured
  /-- The request goes to the proxy. -/
  | proxied (proxy : Proxy)
  | redirect (location : List Char) (statusCode : Int)

/-- `http.Redirect` of a URL with a scheme. -/
def httpRedirect {Proxy : Type} (url : List Char) (code : Int) : RedirectAnswer Proxy :=
  .redirect (hexEscapeNonASCII url) code

def redirectMiddleware {Proxy : Type} (url : UrlParser) (lower : Char → Char)
    (newInternalRedirecter : RedirectOptions → Option Proxy) (conf : Config)
    (r : RedirectRequest) : RedirectAnswer Proxy :=
  match parseRedirectConf url lower conf with
  | .error _ => .misconfigured
  | .ok opts =>
    match opts.mode with
    | .external => httpRedirect (externalRedirectURL opts r) opts.statusCode
    | .externalSchemeOnly => httpRedirect (schemeOnlyRedirectURL opts r) opts.statusCode
    | .internal =>
      match newInternalRedirecter opts with
      | none => .misconfigured
      | some proxy => .proxied proxy

/-! ### Where a redirect leads -/

/-- The raw queries of a target and of a request together. -/
def joinQueries (a b : List Char) : List Char :=
  if a = [] then b else if b = [] then a else a ++ '&' :: b

/-- The location leads to the path and the query of the request below those of the target. -/
@[mk_iff]
structure Preserves (target : Parts) (r : RedirectRequest) (location : List Char) : Prop where
  path : wirePath location = trimSlash target.escapedPath ++ r.escapedPath
  query : wireQuery location = joinQueries target.rawQuery r.rawQuery

/-- The path is written as both sides wrote it: both have the encoding that the library would
choose, or the request adds nothing to a target with an encoding of its own. -/
def KeepsPath (target : Parts) (r : RedirectRequest) : Prop :=
  escape (trimSlash target.path) = trimSlash target.escapedPath ∧ escape r.path = r.escapedPath ∨
    Unchanged target.path target.rawPath r.path ∧
      (r.path = [] ∨ target.rawPath.getLast? = some '/')

/-- The query is written as both sides wrote it: it holds nothing that starts a fragment, and only
ASCII. -/
def KeepsQuery (target : Parts) (r : RedirectRequest) : Prop :=
  '#' ∉ r.rawQuery ∧ ∀ c ∈ joinQueries target.rawQuery r.rawQuery, nonASCII c = false

def joinTarget (base : Parts) (r : RedirectRequest) : Parts :=
  { base with
    path := trimSlash base.path ++ r.path
    rawQuery := joinQueries base.rawQuery r.rawQuery }

variable {opts : RedirectOptions}

theorem externalRedirectURL_eq (hpath : opts.dropPath = false) (hquery : opts.dropQuery = false)
    (r : RedirectRequest) :
    externalRedirectURL opts r = (joinTarget (inferScheme opts.targetUrl r) r).string := by
  simp only [externalRedirectURL, joinTarget, joinQueries, hpath, hquery, Bool.false_eq_true,
    if_false]
  by_cases ha : (inferScheme opts.targetUrl r).rawQuery = []
  · by_cases hb : r.rawQuery = []
    · simp [ha, hb]
    · simp [ha, hb]
  · by_cases hb : r.rawQuery = []
    · simp [ha, hb]
    · simp [ha, hb]

theorem schemeOnlyRedirectURL_eq (hpath : opts.dropPath = false) (hquery : opts.dropQuery = false)
    (r : RedirectRequest) :
    schemeOnlyRedirectURL opts r =
      (joinTarget { scheme := opts.targetUrl.scheme, host := r.host } r).string := by
  simp [schemeOnlyRedirectURL, joinTarget, joinQueries, hpath, hquery, trimSlash]

theorem RedirectRequest.unescape_escapedPath (r : RedirectRequest) :
    unescape r.escapedPath = some r.path :=
  unescape_escapedPathOf

theorem RedirectRequest.escapedPath_of_slash {r : RedirectRequest} (h : r.path = ['/']) :
    r.escapedPath = ['/'] := by
  have hdecode := r.unescape_escapedPath
  rw [h] at hdecode
  refine eq_slash_of_unescape ?_ hdecode
  rw [RedirectRequest.escapedPath]
  exact head_escapedPathOf (by simp [h]) r.rawPath_head

section

variable {base : Parts} (hbase : WellFormed base)

include hbase

theorem readable_joinTarget (hscheme : base.scheme ≠ []) (r : RedirectRequest) :
    (joinTarget base r).Readable where
  scheme_ne_nil := hscheme
  scheme := hbase.scheme
  user := hbase.user

theorem keepsQuery_iff (r : RedirectRequest) :
    KeepsQuery base r ↔
      (hexEscapeNonASCII (joinQueries base.rawQuery r.rawQuery)).takeWhile (· ≠ '#') =
        joinQueries base.rawQuery r.rawQuery := by
  rw [takeWhile_hexEscapeNonASCII_eq_iff]
  have hhash : '#' ∈ joinQueries base.rawQuery r.rawQuery ↔ '#' ∈ r.rawQuery := by
    have hbaseQuery := hbase.rawQuery
    rw [joinQueries]
    split
    · rfl
    · split
      · next h => simp [h, hbaseQuery]
      · simp [hbaseQuery]
  rw [hhash, KeepsQuery]

theorem head_escapedPath : ∀ c ∈ base.escapedPath.head?, c = '/' :=
  head_escapedPathOf hbase.path hbase.rawPath

theorem trimSlash_escapedPath (h : trimSlash base.path = []) :
    trimSlash base.escapedPath = [] := by
  have hdecode : unescape base.escapedPath = some base.path := unescape_escapedPathOf
  rw [trimSlash_eq_nil_iff]
  obtain hnil | hroot := (trimSlash_eq_nil_iff base.path).mp h
  · rw [hnil] at hdecode
    exact .inl (eq_nil_of_unescape hdecode)
  · rw [hroot] at hdecode
    exact .inr (eq_slash_of_unescape (head_escapedPath hbase) hdecode)

variable {r : RedirectRequest}

theorem not_preserves_of_star (hscheme : base.scheme ≠ [])
    (h : trimSlash base.path ++ r.path = ['*']) :
    ¬ Preserves base r (hexEscapeNonASCII (joinTarget base r).string) ∧ ¬ KeepsPath base r := by
  have htrim : trimSlash base.path = [] := by
    cases htrim : trimSlash base.path with
    | nil => rfl
    | cons c rest =>
      rw [htrim] at h
      have hstar : c = '*' := (List.cons.inj h).1
      have hslash := head_trimSlash hbase.path c (by rw [htrim, List.head?_cons, Option.mem_some])
      exact absurd (hstar.symm.trans hslash) (by decide)
  have hpath : r.path = ['*'] := by simpa [htrim] using h
  have hescaped : r.escapedPath = ['*'] := by
    obtain ⟨-, hraw⟩ | hhead := r.path_eq
    · simp [RedirectRequest.escapedPath, escapedPathOf, hraw, hpath]
    · exact absurd (hhead '*' (by simp [hpath])) (by decide)
  constructor
  · rintro ⟨hread, -⟩
    rw [trimSlash_escapedPath hbase htrim, hescaped] at hread
    have hhead := (readable_joinTarget hbase hscheme r).head_wirePath_string
      (by simp [joinTarget, hpath]) '*' (by simp [hread])
    exact absurd hhead (by decide)
  · rintro (⟨-, hescape⟩ | ⟨⟨-, -, hsame⟩, -⟩)
    · rw [hpath, hescaped] at hescape
      exact absurd hescape (by decide)
    · rw [h] at hsame
      exact absurd (hbase.path '*' (by simp [← hsame])) (by decide)

theorem head_join (hstar : trimSlash base.path ++ r.path ≠ ['*']) :
    ∀ c ∈ (trimSlash base.path ++ r.path).head?, c = '/' := by
  intro c hc
  rw [List.head?_append, Option.mem_def, Option.or_eq_some_iff] at hc
  obtain hc | ⟨hnone, hc⟩ := hc
  · exact head_trimSlash hbase.path c hc
  · obtain ⟨hpath, -⟩ | hhead := r.path_eq
    · rw [List.head?_eq_none_iff] at hnone
      exact absurd (by rw [hnone, hpath, List.nil_append]) hstar
    · exact hhead c hc

theorem preserves_joinTarget_iff (hscheme : base.scheme ≠ []) (r : RedirectRequest) :
    Preserves base r (hexEscapeNonASCII (joinTarget base r).string) ↔
      KeepsPath base r ∧ KeepsQuery base r := by
  by_cases hstar : trimSlash base.path ++ r.path = ['*']
  · obtain ⟨hleft, hright⟩ := not_preserves_of_star hbase hscheme hstar
    simp [hleft, hright]
  · have hread := readable_joinTarget hbase hscheme r
    have htext : (joinTarget base r).pathText =
        escapedPathOf (trimSlash base.path ++ r.path) base.rawPath :=
      Parts.pathText_of_head (head_escapedPathOf (head_join hbase hstar) hbase.rawPath)
    have hhead : ∀ c ∈ (joinTarget base r).pathText.head?, c = '/' := by
      rw [htext]
      exact head_escapedPathOf (head_join hbase hstar) hbase.rawPath
    have hpath := escapedPathOf_trimSlash_append_iff hbase.rawPath_eq r.unescape_escapedPath
      RedirectRequest.escapedPath_of_slash hstar
    rw [preserves_iff, hread.wirePath_string hhead, hread.wireQuery_string hhead, htext,
      keepsQuery_iff hbase]
    exact and_congr_left fun _ => hpath

end

/-! ### Configured redirects -/

section

variable {url : UrlParser} {lower : Char → Char}
  {scheme : List Char} {mode : RedirectMode} {target : String} {u : Parts}

theorem ascii_of_mem_schemes (h : scheme ∈ ["".toList, "http".toList, "https".toList]) :
    ∀ c ∈ scheme, c ≠ ':' ∧ nonASCII c = false := by
  have hall : ["".toList, "http".toList, "https".toList].all
      (fun scheme => scheme.all fun c => c ≠ ':' ∧ nonASCII c = false) = true := by decide
  intro c hc
  exact of_decide_eq_true (List.all_eq_true.mp (List.all_eq_true.mp hall scheme h) c hc)

theorem wellFormed_of_host (host : List Char)
    (hscheme : scheme ∈ ["".toList, "http".toList, "https".toList]) :
    WellFormed { scheme, host } where
  scheme := ascii_of_mem_schemes hscheme
  user := by simp
  path := by simp
  rawPath := by simp
  rawPath_eq := .inl rfl
  rawQuery := by simp

theorem wellFormed_of_hostPortTarget (h : hostPortTarget mode target = .ok u) : WellFormed u := by
  rw [hostPortTarget] at h
  split at h
  · cases h
  · cases h
    apply wellFormed_of_host
    split
    · decide
    · decide

theorem schemeTarget_eq_ok (h : schemeTarget lower target = .ok u) :
    ∃ scheme ∈ ["http".toList, "https".toList], u = { scheme, host := [] } := by
  simp only [schemeTarget] at h
  split at h
  · cases h
  · next hscheme =>
      rw [← not_or, not_not] at hscheme
      refine ⟨_, ?_, (Except.ok.inj h).symm⟩
      obtain heq | heq := hscheme
      · rw [heq]
        exact List.mem_cons_self
      · rw [heq]
        exact List.mem_cons_of_mem _ List.mem_cons_self

theorem wellFormed_of_parseTarget (h : parseTarget url lower mode target = .ok u) :
    WellFormed u := by
  rw [parseTarget] at h
  split at h
  · obtain ⟨scheme, hmem, rfl⟩ := schemeTarget_eq_ok h
    exact wellFormed_of_host _ (List.mem_cons_of_mem _ hmem)
  · split at h
    · exact wellFormed_of_hostPortTarget h
    · next hparse =>
        split at h
        · exact wellFormed_of_hostPortTarget h
        · next hne =>
            cases h
            rw [not_or] at hne
            exact url.wellFormed hparse hne.1 hne.2

theorem parseTarget_of_parseRedirectConf {conf : Config} {opts : RedirectOptions}
    (h : parseRedirectConf url lower conf = .ok opts) :
    ∃ target, parseTarget url lower opts.mode target = .ok opts.targetUrl := by
  rw [parseRedirectConf] at h
  split at h
  · cases h
  · obtain ⟨modeText, -, h⟩ := Except.bind_eq_ok.mp h
    split at h
    · cases h
    · obtain ⟨statusCode, -, h⟩ := Except.bind_eq_ok.mp h
      obtain ⟨target, -, h⟩ := Except.bind_eq_ok.mp h
      obtain ⟨tls, -, h⟩ := Except.bind_eq_ok.mp h
      obtain ⟨targetUrl, htarget, h⟩ := Except.bind_eq_ok.mp h
      cases h
      exact ⟨target, htarget⟩

theorem wellFormed_inferScheme (h : WellFormed u) (r : RedirectRequest) :
    WellFormed (inferScheme u r) := by
  rw [inferScheme]
  split
  · refine { h with scheme := ascii_of_mem_schemes ?_ }
    dsimp only
    split
    · decide
    · decide
  · exact h

theorem scheme_inferScheme (u : Parts) (r : RedirectRequest) : (inferScheme u r).scheme ≠ [] := by
  rw [inferScheme]
  split
  · dsimp only
    split
    · decide
    · decide
  · next h => exact h

theorem preserves_inferScheme_iff (u : Parts) (r : RedirectRequest) (location : List Char) :
    (Preserves (inferScheme u r) r location ↔ Preserves u r location) ∧
      (KeepsPath (inferScheme u r) r ↔ KeepsPath u r) ∧
      (KeepsQuery (inferScheme u r) r ↔ KeepsQuery u r) := by
  rw [inferScheme]
  split
  · simp [preserves_iff, KeepsPath, KeepsQuery, Parts.escapedPath]
  · simp

/-- Which redirects to the outside preserve the request. -/
theorem redirect_preserves_iff {Proxy : Type}
    (newInternalRedirecter : RedirectOptions → Option Proxy) {conf : Config}
    {opts : RedirectOptions} (hconf : parseRedirectConf url lower conf = .ok opts)
    (hmode : opts.mode ≠ .internal) (hpath : opts.dropPath = false)
    (hquery : opts.dropQuery = false) (r : RedirectRequest) :
    ∃ location,
      redirectMiddleware url lower newInternalRedirecter conf r =
        .redirect location opts.statusCode ∧
      (Preserves opts.targetUrl r location ↔
        KeepsPath opts.targetUrl r ∧ KeepsQuery opts.targetUrl r) := by
  obtain ⟨target, htarget⟩ := parseTarget_of_parseRedirectConf hconf
  have hwell := wellFormed_of_parseTarget htarget
  cases hm : opts.mode with
  | internal => exact absurd hm hmode
  | external =>
    refine ⟨hexEscapeNonASCII (externalRedirectURL opts r), ?_, ?_⟩
    · simp only [redirectMiddleware, hconf, hm, httpRedirect]
    · have hiff := preserves_joinTarget_iff (wellFormed_inferScheme hwell r)
        (scheme_inferScheme opts.targetUrl r) r
      obtain ⟨hsame, hpathSame, hquerySame⟩ := preserves_inferScheme_iff opts.targetUrl r
        (hexEscapeNonASCII (externalRedirectURL opts r))
      rwa [← externalRedirectURL_eq hpath hquery, hsame, hpathSame, hquerySame] at hiff
  | externalSchemeOnly =>
    refine ⟨hexEscapeNonASCII (schemeOnlyRedirectURL opts r), ?_, ?_⟩
    · simp only [redirectMiddleware, hconf, hm, httpRedirect]
    · have hschemeTarget : schemeTarget lower target = .ok opts.targetUrl := by
        simpa [parseTarget, hm] using htarget
      obtain ⟨scheme, hmem, htarget⟩ := schemeTarget_eq_ok hschemeTarget
      have hne : ∀ scheme ∈ ["http".toList, "https".toList], scheme ≠ [] := by decide
      have hiff := preserves_joinTarget_iff
        (wellFormed_of_host r.host (List.mem_cons_of_mem _ hmem)) (hne scheme hmem) r
      rw [schemeOnlyRedirectURL_eq hpath hquery, htarget]
      -- the host of the request takes the place of the missing one
      rw [preserves_iff, KeepsPath, KeepsQuery] at hiff ⊢
      exact hiff

end

/-! ### Samples -/

def sampleTarget : Parts where
  scheme := "https".toList
  host := "h".toList

def sampleParser : UrlParser where
  parse s := if s = "https://h" then some sampleTarget else none
  wellFormed {s u} h _ _ := by
    obtain ⟨-, rfl⟩ : s = "https://h" ∧ sampleTarget = u := by simpa using h
    exact wellFormed_of_host _ (by decide)

/-- A redirect that keeps the path and the query. -/
def keepingConfig : Config where
  type := "Redirect"
  options := some (AList.insert "drop-query" (.bool false)
    (AList.insert "drop-path" (.bool false) (AList.insert "target" (.string "https://h") ∅)))

def keepingOptions : RedirectOptions where
  mode := .external
  statusCode := 302
  targetUrl := sampleTarget
  dropPath := false
  dropQuery := false
  tls := none

theorem parse_keepingConfig :
    parseRedirectConf sampleParser Char.toLower keepingConfig = .ok keepingOptions := by rfl

def plainRequest : RedirectRequest where
  host := "proxy".toList
  path := "/a".toList
  rawQuery := "x=1".toList
  path_eq := .inr fun _ hc => (Option.some.inj hc).symm
  rawPath_head := by simp
  rawPath_eq := .inl rfl

theorem redirect_preserves_plainRequest :
    ∃ location,
      redirectMiddleware sampleParser Char.toLower (fun _ => some ()) keepingConfig plainRequest =
        .redirect location 302 ∧ Preserves sampleTarget plainRequest location := by
  obtain ⟨location, hlocation, hiff⟩ := redirect_preserves_iff (fun _ => some ())
    parse_keepingConfig (by decide) rfl rfl plainRequest
  refine ⟨location, hlocation, hiff.mpr ⟨.inl ?_, ?_⟩⟩
  · decide
  · have hascii : (joinQueries sampleTarget.rawQuery plainRequest.rawQuery).all
        (fun c => nonASCII c = false) = true := by decide
    exact ⟨by decide, fun c hc => of_decide_eq_true (List.all_eq_true.mp hascii c hc)⟩

def encodedRequest : RedirectRequest where
  host := "proxy".toList
  path := "/a/b".toList
  rawPath := "/a%2Fb".toList
  path_eq := .inr fun _ hc => (Option.some.inj hc).symm
  rawPath_head := fun _ hc => (Option.some.inj hc).symm
  rawPath_eq := .inr (by decide)

/-- An encoded slash becomes one that separates two segments. -/
theorem encodedSlash_not_preserved :
    redirectMiddleware sampleParser Char.toLower (fun _ => some ()) keepingConfig encodedRequest =
        .redirect "https://h/a/b".toList 302 ∧
      ¬ Preserves sampleTarget encodedRequest "https://h/a/b".toList := by
  refine ⟨rfl, fun h => ?_⟩
  exact absurd h.path (by decide)

end Torii.Middleware
