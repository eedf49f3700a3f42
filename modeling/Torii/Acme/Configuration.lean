import Torii.Go.Map
import Torii.Go.Strings
import Torii.Go.Time

/-!
# The ACME configuration

The configuration in the database (`internal/domain/acme.go`, `internal/sqlite/acme.go`), the DNS
providers, and how `SeedFromYAML` and `Bootstrap` of `internal/service/acme` use them.
-/

namespace Torii.Acme

open Go

/-! ## The database -/

/-- `domain.AcmeConfiguration`, without the columns that nothing reads. -/
structure AcmeConfiguration where
  email : String
  dnsProvider : String
  serializedFields : String
  caDirURL : String
  renewalCheckInterval : Int
  enabled : Bool
  domains : List String
  dnsResolvers : List String

def AcmeConfiguration.isValid (conf : AcmeConfiguration) : Bool :=
  conf.email ≠ "" && conf.dnsProvider ≠ "" && conf.serializedFields ≠ "" && conf.caDirURL ≠ ""

/-- The functions of Go's library that are used on texts and durations. -/
structure Platform where
  lower : Char → Char
  parseDuration : String → Option Int
  durationString : Int → String
  quoteJSON : String → String
  resolveValue : String → Except String String

structure Row where
  email : String
  dnsProvider : String
  caDirURL : String
  renewalCheckInterval : String
  enabled : Bool
  serializedFields : String
  acmeDomains : String
  dnsResolvers : String

def defaultRenewalInterval : Int := 12 * Time.hour

def splitColumn (text : String) : List String :=
  if text = "" then [] else Strings.split text ','

/-- The row that `SaveConfiguration` writes. -/
def AcmeConfiguration.row (p : Platform) (conf : AcmeConfiguration) : Row where
  email := conf.email
  dnsProvider := conf.dnsProvider
  caDirURL := conf.caDirURL
  renewalCheckInterval := p.durationString conf.renewalCheckInterval
  enabled := conf.enabled
  serializedFields := conf.serializedFields
  acmeDomains := Strings.join conf.domains ','
  dnsResolvers := Strings.join conf.dnsResolvers ','

/-- The configuration that `GetConfiguration` reads. -/
def Row.configuration (p : Platform) (row : Row) : AcmeConfiguration where
  email := row.email
  dnsProvider := row.dnsProvider
  caDirURL := row.caDirURL
  renewalCheckInterval := (p.parseDuration row.renewalCheckInterval).getD defaultRenewalInterval
  enabled := row.enabled
  serializedFields := row.serializedFields
  domains := splitColumn row.acmeDomains
  dnsResolvers := splitColumn row.dnsResolvers

/-- The tables of the database: the configuration, and the keys of the accounts and of the
certificates. -/
structure AcmeStore where
  configuration : Option Row := none
  accounts : List String := []
  certificates : List String := []

namespace AcmeStore

/-- The outcome of a database operation: the text of the error if it fails. -/
abbrev Fault := Option String

def getConfiguration (p : Platform) (fault : Fault) (store : AcmeStore) :
    Except String (Option AcmeConfiguration) :=
  match fault with
  | some err => .error err
  | none => .ok (store.configuration.map (Row.configuration p))

def saveConfiguration (p : Platform) (fault : Fault) (store : AcmeStore)
    (conf : AcmeConfiguration) : Option String × AcmeStore :=
  match fault with
  | some err => (some err, store)
  | none => (none, { store with configuration := some (conf.row p) })

/-- `ResetAll` of the store: one transaction. -/
def resetAll (fault : Fault) (store : AcmeStore) : Option String × AcmeStore :=
  match fault with
  | some err => (some err, store)
  | none => (none, {})

end AcmeStore

/-! ## DNS providers -/

/-- The registered providers: only one. -/
inductive DNSProvider where
  | cloudflare
deriving DecidableEq

def DNSProvider.name : DNSProvider → String
  | .cloudflare => "cloudflare"

def getDNSProvider (name : String) : Option DNSProvider :=
  if name = DNSProvider.cloudflare.name then some .cloudflare else none

def DNSProvider.isValidMap : DNSProvider → GoMap String String → Bool
  | .cloudflare, confMap => (confMap.lookup "api_token").isSome

/-- `json.Marshal` of a map of strings: the keys in order. -/
def marshal (p : Platform) (confMap : GoMap String String) : String :=
  let pairs := (confMap.entries.mergeSort fun a b => a.1 ≤ b.1).map fun e =>
    p.quoteJSON e.1 ++ ":" ++ p.quoteJSON e.2
  "\x7b" ++ Strings.join pairs ',' ++ "\x7d"

/-- `Serialize`; `none` is the error of `IsValidMap`. -/
def DNSProvider.serialize (p : Platform) (provider : DNSProvider)
    (confMap : GoMap String String) : Option String :=
  if provider.isValidMap confMap then some (marshal p confMap) else none

def normalizeDNSResolvers (lower : Char → Char) (resolvers : List String) : List String :=
  (resolvers.foldl (fun (normalized, seen) resolver =>
    let r := Strings.trimSpace resolver
    let key := Strings.toLower lower r
    if r = "" ∨ key ∈ seen then (normalized, seen)
    else (normalized ++ [r], key :: seen)) (([], []) : List String × List String)).1

/-! ## The manager -/

/-- The part of `LegoAcmeManager` that runs the renewal loop; `started` is `cancelFunc != nil`. -/
structure Manager where
  renewalInterval : Int
  started : Bool := false
deriving DecidableEq

def Manager.start (m : Manager) : Manager := { m with started := true }

def Manager.stop (m : Manager) : Manager := { m with started := false }

/-- What the calls of `NewLegoAcmeManager` to other libraries and to the network return. -/
structure Lego where
  account : AcmeConfiguration → Option String
  client : AcmeConfiguration → Option String
  unmarshal : String → Except String (GoMap String String)
  dnsProviderConfig : String → Option String
  setDNS01Provider : List String → Option String
  register : AcmeConfiguration → Option String

inductive ManagerError where
  | emailRequired
  | providerRequired
  | account (err : String)
  | client (err : String)
  | unsupportedProvider (name : String)
  | unmarshal (provider err : String)
  | tokenRequired (provider : String)
  | dnsProvider (provider err : String)
  | dns01 (err : String)
  | registration (err : String)
deriving DecidableEq

def ManagerError.message (quote : String → String) : ManagerError → String
  | .emailRequired => "acme: email is required"
  | .providerRequired => "acme: dns-provider is required"
  | .account err => "acme: account init: " ++ err
  | .client err => "acme: lego client: " ++ err
  | .unsupportedProvider name => "acme: unsupported DNS provider: " ++ quote name
  | .unmarshal provider err => "acme: dns provider " ++ quote provider ++
      ": cloudflare: failed to unmarshal credentials: " ++ err
  | .tokenRequired provider => "acme: dns provider " ++ quote provider ++
      ": cloudflare: api_token is required"
  | .dnsProvider provider err => "acme: dns provider " ++ quote provider ++ ": " ++ err
  | .dns01 err => "acme: set dns-01 provider: " ++ err
  | .registration err => "acme: registration: " ++ err

/-- `none` is no error. -/
def check {ε : Type} (wrap : String → ε) : Option String → Except ε Unit
  | none => .ok ()
  | some err => .error (wrap err)

def DNSProvider.create (lego : Lego) (provider : DNSProvider) (blob : String) :
    Except ManagerError Unit :=
  match lego.unmarshal blob with
  | .error err => .error (.unmarshal provider.name err)
  | .ok creds =>
    if provider.isValidMap creds then
      let token := (creds.lookup "api_token").getD ""
      if token = "" then .error (.tokenRequired provider.name)
      else check (.dnsProvider provider.name) (lego.dnsProviderConfig token)
    else .error (.tokenRequired provider.name)

/-- The account, the client, the DNS-01 provider and the registration of a new manager. -/
def connect (p : Platform) (lego : Lego) (conf : AcmeConfiguration) : Except ManagerError Unit := do
  check .account (lego.account conf)
  check .client (lego.client conf)
  match getDNSProvider conf.dnsProvider with
  | none => .error (.unsupportedProvider conf.dnsProvider)
  | some provider =>
    provider.create lego conf.serializedFields
    check .dns01
      (lego.setDNS01Provider (normalizeDNSResolvers p.lower conf.dnsResolvers))
    check .registration (lego.register conf)

def newLegoAcmeManager (p : Platform) (lego : Lego) (conf : AcmeConfiguration) :
    Except ManagerError Manager :=
  if conf.email = "" then .error .emailRequired
  else if conf.dnsProvider = "" then .error .providerRequired
  else
    match connect p lego conf with
    | .error err => .error err
    | .ok _ =>
      .ok
        { renewalInterval :=
            if conf.renewalCheckInterval ≤ 0 then defaultRenewalInterval
            else conf.renewalCheckInterval }

/-! ## Bootstrap -/

structure AcmeConfig where
  email : String
  dnsProvider : String
  credentials : GoMap String String
  caDirURL : String
  renewalCheckInterval : String
  enabled : Bool
  domains : List String
  dnsResolvers : List String

inductive SeedError where
  | provider (name : String)
  | credential (key err : String)
  | invalidCredentials
  | intervalFormat (text : String)
  | intervalTooShort (interval : Int)
  | save (err : String)
deriving DecidableEq

def SeedError.message (quote : String → String) (p : Platform) : SeedError → String
  | .provider name => "invalid DNS provider " ++ quote name ++ ": unsupported DNS provider: " ++
      quote name
  | .credential key err => "failed to resolve credential " ++ quote key ++ ": " ++ err
  | .invalidCredentials =>
    "invalid DNS provider credentials: cloudflare: api_token is required"
  | .intervalFormat text => "invalid renewal-check-interval " ++ quote text
  | .intervalTooShort interval =>
    "renewal-check-interval must be at least 1h, got " ++ p.durationString interval
  | .save err => "failed to save seeded ACME config: " ++ err

/-- The credentials with their values resolved; `order` is that of the range loop. -/
def resolveCredentials (p : Platform) (order : List String) (credentials : GoMap String String) :
    Except SeedError (GoMap String String) :=
  (credentials.rangeKeys order).foldlM (fun resolved k =>
    match p.resolveValue ((credentials.lookup k).getD "") with
    | .error err => .error (.credential k err)
    | .ok val => .ok (resolved.insert k val)) ∅

/-- The renewal interval of a text, with the errors for a bad format and a short interval. -/
def parseInterval {ε : Type} (p : Platform) (badFormat : ε) (tooShort : Int → ε) (text : String) :
    Except ε Int :=
  if text = "" then .ok defaultRenewalInterval
  else
    match p.parseDuration text with
    | none => .error badFormat
    | some parsed => if parsed < Time.hour then .error (tooShort parsed) else .ok parsed

def seedConfiguration (p : Platform) (order : List String) (yaml : AcmeConfig) :
    Except SeedError AcmeConfiguration :=
  match getDNSProvider yaml.dnsProvider with
  | none => .error (.provider yaml.dnsProvider)
  | some provider => do
      let resolved ← resolveCredentials p order yaml.credentials
      match provider.serialize p resolved with
      | none => .error .invalidCredentials
      | some sf =>
        let renewalInterval ← parseInterval p (.intervalFormat yaml.renewalCheckInterval)
          .intervalTooShort yaml.renewalCheckInterval
        return {
          email := yaml.email
          dnsProvider := provider.name
          caDirURL := yaml.caDirURL
          renewalCheckInterval := renewalInterval
          enabled := yaml.enabled
          serializedFields := sf
          domains := yaml.domains
          dnsResolvers := normalizeDNSResolvers p.lower yaml.dnsResolvers }

def seedFromYAML (p : Platform) (order : List String) (fault : AcmeStore.Fault)
    (yaml : AcmeConfig) (store : AcmeStore) : Except SeedError AcmeConfiguration × AcmeStore :=
  match seedConfiguration p order yaml with
  | .error err => (.error err, store)
  | .ok conf =>
    let saved := store.saveConfiguration p fault conf
    match saved.1 with
    | some err => (.error (.save err), store)
    | none => (.ok conf, saved.2)

/-- What `Bootstrap` meets outside: the database, the order of a range loop and the ACME
library. -/
structure BootEnv where
  read : AcmeStore.Fault := none
  save : AcmeStore.Fault := none
  order : List String := []
  lego : Lego

/-- The configuration that `Bootstrap` uses: the stored one, or the one from the YAML file if
there is none or it cannot be read. -/
def bootConfiguration (p : Platform) (env : BootEnv) (yaml : Option AcmeConfig)
    (store : AcmeStore) : Except SeedError (Option AcmeConfiguration) × AcmeStore :=
  match (store.getConfiguration p env.read).toOption.join with
  | some conf => (.ok (some conf), store)
  | none =>
    match yaml with
    | none => (.ok none, store)
    | some yaml =>
      if yaml.email ≠ "" ∧ yaml.dnsProvider ≠ "" then
        let seeded := seedFromYAML p env.order env.save yaml store
        (seeded.1.map some, seeded.2)
      else (.ok none, store)

def bootstrap (p : Platform) (env : BootEnv) (yaml : Option AcmeConfig) (store : AcmeStore) :
    Except SeedError (Option Manager) × AcmeStore :=
  let boot := bootConfiguration p env yaml store
  match boot.1 with
  | .error err => (.error err, boot.2)
  | .ok none => (.ok none, boot.2)
  | .ok (some conf) =>
    if conf.isValid then (.ok (newLegoAcmeManager p env.lego conf).toOption, boot.2)
    else (.ok none, boot.2)

end Torii.Acme
