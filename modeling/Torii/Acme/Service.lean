import Torii.Acme.Configuration
import Torii.Go.Strconv
import Torii.Lib.Machine
import Torii.Lib.Refinement

/-!
# The ACME service

`internal/service/acme_service.go` and its restarts: `NewAcmeService` on the same store and `Start`.
`Start` does not look at the flag, and `Bootstrap` wants a CA URL that the other two validators
leave optional.
-/

namespace Torii.Acme

open Go AcmeStore

structure AcmeService where
  store : AcmeStore
  legoManager : Option Manager := none

structure SaveAcmeConfigRequest where
  email : String
  caDirURL : String
  renewalCheckInterval : String
  enabled : Bool
  dnsProvider : String
  credentialMap : GoMap String String
  domains : List String
  dnsResolvers : List String

inductive ServiceError where
  | alreadyConfigured
  | notConfigured
  | managerNotInitialized
  | emailRequired
  | dnsProviderRequired
  | invalidDNSProvider
  | invalidDNSProviderCfg
  | invalidRenewalFmt
  | renewalTooShort
  | checkExisting (err : String)
  | save (err : String)
  | managerExists
  | initRead (err : String)
  | initCreate (err : ManagerError)
  | read (err : String)
  | updateEnabled (err : String)
  | updateDomains (err : String)
  | reset (err : String)
deriving DecidableEq

def ServiceError.message (quote : String → String) : ServiceError → String
  | .alreadyConfigured => "ACME is already configured; reset to reconfigure"
  | .notConfigured => "no ACME configuration exists"
  | .managerNotInitialized => "ACME manager is not initialized"
  | .emailRequired => "email is required"
  | .dnsProviderRequired => "DNS provider is required"
  | .invalidDNSProvider => "invalid DNS provider"
  | .invalidDNSProviderCfg => "invalid DNS provider configuration"
  | .invalidRenewalFmt => "invalid renewal interval format (use Go duration, e.g. 12h, 6h30m)"
  | .renewalTooShort => "renewal interval must be at least 1h"
  | .checkExisting err => "failed to check existing configuration: " ++ err
  | .save err => "failed to save ACME configuration: " ++ err
  | .managerExists => "configuration saved but failed to initialize ACME manager: " ++
      "ACME manager is already initialized"
  | .initRead err => "configuration saved but failed to initialize ACME manager: " ++
      "failed to read ACME configuration: " ++ err
  | .initCreate err => "configuration saved but failed to initialize ACME manager: " ++
      "failed to create ACME manager: " ++ err.message quote
  | .read err => "failed to read ACME configuration: " ++ err
  | .updateEnabled err => "failed to update ACME enabled state: " ++ err
  | .updateDomains err => "failed to update ACME domains: " ++ err
  | .reset err => "failed to reset ACME data: " ++ err

/-- The errors whose text begins with "configuration saved but". -/
def ServiceError.configurationSaved : ServiceError → Bool
  | .managerExists | .initRead _ | .initCreate _ => true
  | _ => false

def requestConfiguration (p : Platform) (req : SaveAcmeConfigRequest) :
    Except ServiceError AcmeConfiguration :=
  if req.email = "" then .error .emailRequired
  else if req.dnsProvider = "" then .error .dnsProviderRequired
  else
    match getDNSProvider req.dnsProvider with
    | none => .error .invalidDNSProvider
    | some provider => do
        let renewalInterval ← parseInterval p .invalidRenewalFmt (fun _ => .renewalTooShort)
          req.renewalCheckInterval
        match provider.serialize p req.credentialMap with
        | none => .error .invalidDNSProviderCfg
        | some sf =>
          return {
            email := req.email
            dnsProvider := provider.name
            caDirURL := req.caDirURL
            renewalCheckInterval := renewalInterval
            enabled := req.enabled
            serializedFields := sf
            domains := req.domains
            dnsResolvers := normalizeDNSResolvers p.lower req.dnsResolvers }

/-- The database in one operation, read before and after it is written, the certificates as they
are listed and revoked, and the ACME library. -/
structure ServiceEnv where
  read : AcmeStore.Fault := none
  write : AcmeStore.Fault := none
  reread : AcmeStore.Fault := none
  list : AcmeStore.Fault := none
  revoke : String → AcmeStore.Fault := fun _ => none
  lego : Lego

/-- `LegoAcmeManager.ResetAll`, with the certificates that are revoked. -/
def managerResetAll (env : ServiceEnv) (store : AcmeStore) :
    Option String × List String × AcmeStore :=
  let certs := if env.list.isSome then [] else store.certificates
  let revoked := certs.filter fun d => (env.revoke d).isNone
  let reset := store.resetAll env.write
  (reset.1.map ("acme: failed to reset store: " ++ ·), revoked, reset.2)

namespace AcmeService

variable (p : Platform) (env : ServiceEnv) (svc : AcmeService)

/-- `initializeLegoAcmeManager`. The row is there: it has just been saved. -/
def initializeLegoAcmeManager : Except ServiceError AcmeService :=
  if svc.legoManager.isSome then .error .managerExists
  else
    match svc.store.getConfiguration p env.reread with
    | .error err => .error (.initRead err)
    | .ok none => .error .notConfigured
    | .ok (some conf) =>
      match newLegoAcmeManager p env.lego conf with
      | .error err => .error (.initCreate err)
      | .ok newMgr =>
        .ok { svc with legoManager := some (if conf.enabled then newMgr.start else newMgr) }

def saveConfiguration (req : SaveAcmeConfigRequest) : Option ServiceError × AcmeService :=
  match svc.store.getConfiguration p env.read with
  | .error err => (some (.checkExisting err), svc)
  | .ok (some _) => (some .alreadyConfigured, svc)
  | .ok none =>
    match requestConfiguration p req with
    | .error err => (some err, svc)
    | .ok conf =>
      let saved := svc.store.saveConfiguration p env.write conf
      match saved.1 with
      | some err => (some (.save err), svc)
      | none =>
        let svc := { svc with store := saved.2 }
        match svc.initializeLegoAcmeManager p env with
        | .error err => (some err, svc)
        | .ok svc => (none, svc)

def toggleEnabled (enabled : Bool) : Option ServiceError × AcmeService :=
  match svc.store.getConfiguration p env.read with
  | .error err => (some (.read err), svc)
  | .ok none => (some .notConfigured, svc)
  | .ok (some conf) =>
    match svc.legoManager with
    | none => (some .managerNotInitialized, svc)
    | some currentManager =>
      let saved := svc.store.saveConfiguration p env.write { conf with enabled }
      match saved.1 with
      | some err => (some (.updateEnabled err), svc)
      | none =>
        (none,
          { store := saved.2
            legoManager :=
              some (if enabled then currentManager.start else currentManager.stop) })

def updateDomains (domains : List String) : Option ServiceError × AcmeService :=
  match svc.store.getConfiguration p env.read with
  | .error err => (some (.read err), svc)
  | .ok none => (some .notConfigured, svc)
  | .ok (some conf) =>
    let saved := svc.store.saveConfiguration p env.write { conf with domains }
    match saved.1 with
    | some err => (some (.updateDomains err), svc)
    | none => (none, { svc with store := saved.2 })

/-- `ResetAll`. With a manager the errors are only logged. -/
def resetAll : Option ServiceError × AcmeService :=
  match svc.legoManager with
  | some _ => (none, ⟨(managerResetAll env svc.store).2.2, none⟩)
  | none =>
    let reset := svc.store.resetAll env.write
    (reset.1.map .reset, ⟨reset.2, none⟩)

end AcmeService

/-- `NewAcmeService`. An error of `Bootstrap` is only logged. -/
def newAcmeService (p : Platform) (env : BootEnv) (yaml : Option AcmeConfig) (store : AcmeStore) :
    AcmeService :=
  let boot := bootstrap p env yaml store
  ⟨boot.2, boot.1.toOption.join⟩

def AcmeService.start (svc : AcmeService) : AcmeService :=
  { svc with legoManager := svc.legoManager.map Manager.start }

inductive ServiceOp where
  | saveConfiguration (env : ServiceEnv) (req : SaveAcmeConfigRequest)
  | toggleEnabled (env : ServiceEnv) (enabled : Bool)
  | updateDomains (env : ServiceEnv) (domains : List String)
  | resetAll (env : ServiceEnv)
  | restart (env : BootEnv) (yaml : Option AcmeConfig)

def service (p : Platform) : Machine AcmeService ServiceOp (Option ServiceError) where
  step svc
    | .saveConfiguration env req => svc.saveConfiguration p env req
    | .toggleEnabled env enabled => svc.toggleEnabled p env enabled
    | .updateDomains env domains => svc.updateDomains p env domains
    | .resetAll env => svc.resetAll env
    | .restart env yaml => (none, (newAcmeService p env yaml svc.store).start)

/-! ## The renewal loop and the stored flag -/

/-- The stored configuration has `Enabled = true`. -/
def AcmeStore.enabled (store : AcmeStore) : Bool := store.configuration.any Row.enabled

/-- If there is a manager, its renewal loop runs exactly when the stored flag is set. -/
def RenewalMatches (svc : AcmeService) : Prop :=
  ∀ m, svc.legoManager = some m → (m.started = true ↔ svc.store.enabled = true)

def ManagerStored (svc : AcmeService) : Prop :=
  svc.legoManager.isSome → svc.store.configuration.isSome

/-- The configuration with which a process starts: the stored one, or else an accepted one
from the YAML file. -/
def StartsWith (p : Platform) (env : BootEnv) (yaml : Option AcmeConfig) (store : AcmeStore)
    (conf : AcmeConfiguration) : Prop :=
  (env.read = none ∧ ∃ row, store.configuration = some row ∧ conf = row.configuration p) ∨
    ((env.read ≠ none ∨ store.configuration = none) ∧ ∃ y, yaml = some y ∧
      y.email ≠ "" ∧ y.dnsProvider ≠ "" ∧ env.save = none ∧
      seedConfiguration p env.order y = .ok conf)

/-- The operation is not a restart with a disabled configuration from which a manager can be
made. -/
def StartsEnabled (p : Platform) (svc : AcmeService) : ServiceOp → Prop
  | .restart env yaml => ∀ conf m, StartsWith p env yaml svc.store conf → conf.isValid = true →
      newLegoAcmeManager p env.lego conf = .ok m → conf.enabled = true
  | _ => True

variable {p : Platform} {svc : AcmeService} {store : AcmeStore}
  {conf : AcmeConfiguration} {fault : AcmeStore.Fault} {yaml : Option AcmeConfig}
  {order : List String} {y : AcmeConfig}

theorem stored_eq_some_iff : (store.getConfiguration p fault).toOption.join = some conf ↔
      fault = none ∧ ∃ row, store.configuration = some row ∧ conf = row.configuration p := by
  cases fault with
  | none => simp [getConfiguration, Except.toOption, eq_comm]
  | some err => simp [getConfiguration, Except.toOption]

theorem stored_eq_none_iff : (store.getConfiguration p fault).toOption.join = none ↔
      fault ≠ none ∨ store.configuration = none := by
  cases fault with
  | none | some => simp [getConfiguration, Except.toOption]

theorem seedFromYAML_ok (store : AcmeStore) : (seedFromYAML p order fault y store).1 = .ok conf ↔
      fault = none ∧ seedConfiguration p order y = .ok conf := by
  rw [seedFromYAML]
  cases seedConfiguration p order y with
  | error err => simp
  | ok conf' =>
    cases fault with
    | none | some => simp [saveConfiguration]

theorem seedFromYAML_store (h : (seedFromYAML p order fault y store).1 = .ok conf) :
    (seedFromYAML p order fault y store).2.configuration = some (conf.row p) := by
  obtain ⟨rfl, hconf⟩ := (seedFromYAML_ok _).mp h
  simp [seedFromYAML, hconf, saveConfiguration]

section

variable {env : BootEnv} {yaml : Option AcmeConfig} {conf : AcmeConfiguration}

/-- The configuration with which `Bootstrap` goes on. -/
theorem bootConfiguration_ok_iff :
    (bootConfiguration p env yaml store).1 = .ok (some conf) ↔
      StartsWith p env yaml store conf := by
  rw [StartsWith, ← stored_eq_some_iff, ← stored_eq_none_iff (p := p)]
  cases hstored : (store.getConfiguration p env.read).toOption.join with
  | some conf' => simp [bootConfiguration, hstored]
  | none =>
    cases yaml with
    | none => simp [bootConfiguration, hstored]
    | some y =>
      simp only [bootConfiguration, hstored, reduceCtorEq, false_or, true_and,
        Option.some.injEq, exists_eq_left']
      split
      · next hy =>
        rw [← and_assoc, and_iff_right hy, ← seedFromYAML_ok store]
        cases (seedFromYAML p env.order env.save y store).1 with
        | error | ok => simp [Except.map]
      · next hy =>
        simp only [Except.ok.injEq, reduceCtorEq, false_iff]
        exact fun h => hy ⟨h.1, h.2.1⟩

theorem bootConfiguration_stored
    (h : (bootConfiguration p env yaml store).1 = .ok (some conf)) :
    (bootConfiguration p env yaml store).2.configuration.isSome ∧
      (bootConfiguration p env yaml store).2.enabled = conf.enabled := by
  rcases bootConfiguration_ok_iff.mp h with
    ⟨hread, row, hrow, rfl⟩ | ⟨hnone, y, rfl, he, hd, hsave, hconf⟩
  · have hstored := stored_eq_some_iff (p := p).mpr ⟨hread, row, hrow, rfl⟩
    simp [bootConfiguration, hstored, hrow, enabled, Row.configuration]
  · have hstored := stored_eq_none_iff (p := p).mpr hnone
    have hseeded := seedFromYAML_store ((seedFromYAML_ok store).mpr ⟨hsave, hconf⟩)
    simp [bootConfiguration, hstored, he, hd, hseeded, enabled, AcmeConfiguration.row]

theorem restart_spec (p : Platform) (env : BootEnv) (yaml : Option AcmeConfig)
    (store : AcmeStore) :
    (∃ conf m, StartsWith p env yaml store conf ∧ conf.isValid = true ∧
      newLegoAcmeManager p env.lego conf = .ok m ∧
      (newAcmeService p env yaml store).start.legoManager = some m.start ∧
      (newAcmeService p env yaml store).start.store.configuration.isSome ∧
      (newAcmeService p env yaml store).start.store.enabled = conf.enabled) ∨
    ((newAcmeService p env yaml store).start.legoManager = none ∧
      ¬ ∃ conf m, StartsWith p env yaml store conf ∧ conf.isValid = true ∧
        newLegoAcmeManager p env.lego conf = .ok m) := by
  simp only [← bootConfiguration_ok_iff, AcmeService.start, newAcmeService, bootstrap]
  cases hboot : (bootConfiguration p env yaml store).1 with
  | error err => simp [Except.toOption]
  | ok conf =>
    cases conf with
    | none => simp [Except.toOption]
    | some conf =>
      obtain ⟨hsome, henabled⟩ := bootConfiguration_stored hboot
      by_cases hvalid : conf.isValid = true
      · cases hcreate : newLegoAcmeManager p env.lego conf with
        | error err => simp [Except.toOption, hvalid, hcreate]
        | ok m =>
          refine .inl ⟨conf, m, rfl, hvalid, hcreate, ?_⟩
          simp [Except.toOption, hvalid, hcreate, hsome, henabled]
      · simp [Except.toOption, hvalid]

end

theorem newLegoAcmeManager_ok {lego : Lego} {m : Manager}
    (h : newLegoAcmeManager p lego conf = .ok m) :
    conf.email ≠ "" ∧ conf.dnsProvider ≠ "" ∧ m.started = false := by
  rw [newLegoAcmeManager] at h
  grind

/-! ## Steps of the service -/

section

variable {env : ServiceEnv}

theorem saveConfiguration_none_iff :
    (store.saveConfiguration p fault conf).1 = none ↔ fault = none := by
  cases fault with
  | none | some => simp [saveConfiguration]

theorem saveConfiguration_store (h : (store.saveConfiguration p fault conf).1 = none) :
    (store.saveConfiguration p fault conf).2 =
      { store with configuration := some (conf.row p) } := by
  rw [saveConfiguration_none_iff.mp h]
  rfl

structure InStep (svc : AcmeService) : Prop where
  stored : ManagerStored svc
  renewal : RenewalMatches svc

theorem inStep_of_no_manager (h : svc.legoManager = none) : InStep svc :=
  ⟨fun hsome => absurd hsome (by simp [h]), fun m hm => absurd (h.symm.trans hm) (by simp)⟩

theorem getConfiguration_ok {conf : Option AcmeConfiguration}
    (h : store.getConfiguration p fault = .ok conf) :
    conf = store.configuration.map (Row.configuration p) := by
  cases fault with
  | none => exact (Except.ok.inj h).symm
  | some err => exact absurd h (by simp [getConfiguration])

/-- What `initializeLegoAcmeManager` does when it succeeds. -/
theorem initialize_ok {svc' : AcmeService}
    (h : svc.initializeLegoAcmeManager p env = .ok svc') :
    ∃ row m, svc.store.configuration = some row ∧ m.started = row.enabled ∧
      svc' = { svc with legoManager := some m } := by
  rw [AcmeService.initializeLegoAcmeManager] at h
  split at h
  · cases h
  · split at h
    · cases h
    · cases h
    · next conf hread =>
      split at h
      · cases h
      · next newMgr hcreate =>
        obtain ⟨row, hrow, rfl⟩ := Option.map_eq_some_iff.mp (getConfiguration_ok hread).symm
        obtain ⟨-, -, hstopped⟩ := newLegoAcmeManager_ok hcreate
        cases h
        refine ⟨row, _, hrow, ?_, rfl⟩
        cases henabled : row.enabled with
        | true => simp [Row.configuration, henabled, Manager.start]
        | false => simp [Row.configuration, henabled, hstopped]

variable {err : ServiceError}

theorem initialize_error (hstored : svc.store.configuration.isSome)
    (h : svc.initializeLegoAcmeManager p env = .error err) : err.configurationSaved = true := by
  rw [AcmeService.initializeLegoAcmeManager] at h
  split at h
  · cases h
    rfl
  · split at h
    · cases h
      rfl
    · next hread =>
      rw [Option.map_eq_none_iff.mp (getConfiguration_ok hread).symm] at hstored
      cases hstored
    · split at h
      · cases h
        rfl
      · cases h

theorem parseInterval_error {ε : Type} {badFormat : ε} {tooShort : Int → ε} {text : String}
    {err : ε} (h : parseInterval p badFormat tooShort text = .error err) :
    err = badFormat ∨ ∃ interval, err = tooShort interval := by
  rw [parseInterval] at h
  grind

theorem requestConfiguration_error {req : SaveAcmeConfigRequest}
    (h : requestConfiguration p req = .error err) :
    err.configurationSaved = false ∧ err ≠ .alreadyConfigured := by
  simp only [requestConfiguration, bind, Except.bind, pure, Except.pure] at h
  grind [parseInterval_error, ServiceError.configurationSaved]

theorem saveConfiguration_cases (p : Platform) (env : ServiceEnv) (svc : AcmeService)
    (req : SaveAcmeConfigRequest) :
    (∃ err, err.configurationSaved = false ∧
      (err = .alreadyConfigured → svc.store.configuration ≠ none) ∧
      svc.saveConfiguration p env req = (some err, svc)) ∨
      ∃ conf, svc.store.configuration = none ∧ requestConfiguration p req = .ok conf ∧
        ((∃ err, err.configurationSaved = true ∧ svc.saveConfiguration p env req =
          (some err,
            ⟨{ svc.store with configuration := some (conf.row p) }, svc.legoManager⟩)) ∨
        ∃ m, m.started = conf.enabled ∧ svc.saveConfiguration p env req =
          (none, ⟨{ svc.store with configuration := some (conf.row p) }, some m⟩)) := by
  rw [AcmeService.saveConfiguration]
  split
  · exact .inl ⟨.checkExisting _, rfl, nofun, rfl⟩
  · next conf hread =>
    refine .inl ⟨_, rfl, fun _ hnone => ?_, rfl⟩
    have hstored := getConfiguration_ok hread
    rw [hnone] at hstored
    cases hstored
  · next hread =>
    split
    · next err hrequest =>
      obtain ⟨hsaved, hother⟩ := requestConfiguration_error hrequest
      exact .inl ⟨_, hsaved, fun h => absurd h hother, rfl⟩
    · next conf hconf =>
      simp only
      split
      · exact .inl ⟨.save _, rfl, nofun, rfl⟩
      · next hsaved =>
        rw [saveConfiguration_store hsaved]
        refine .inr ⟨conf, Option.map_eq_none_iff.mp (getConfiguration_ok hread).symm, hconf, ?_⟩
        split
        · next err hinit => exact .inl ⟨_, initialize_error rfl hinit, rfl⟩
        · next svc' hinit =>
          obtain ⟨row, m, hrow, hstarted, rfl⟩ := initialize_ok hinit
          cases hrow
          exact .inr ⟨m, hstarted, rfl⟩

theorem InStep.saveConfiguration (h : InStep svc) (req : SaveAcmeConfigRequest) :
    InStep (svc.saveConfiguration p env req).2 := by
  rcases saveConfiguration_cases p env svc req with
    ⟨err, -, -, heq⟩ | ⟨conf, hnone, -, ⟨err, -, heq⟩ | ⟨m, hstarted, heq⟩⟩
  · rw [heq]
    exact h
  · -- nothing was stored before, so there was no manager
    rw [heq]
    apply inStep_of_no_manager
    by_contra hsome
    have hstored := h.stored (Option.isSome_iff_ne_none.mpr hsome)
    rw [hnone] at hstored
    cases hstored
  · rw [heq]
    refine ⟨fun _ => rfl, ?_⟩
    rintro m' ⟨⟩
    rw [hstarted]
    rfl

theorem InStep.toggleEnabled (h : InStep svc) (enabled : Bool) :
    InStep (svc.toggleEnabled p env enabled).2 := by
  rw [AcmeService.toggleEnabled]
  split
  · exact h
  · exact h
  · next conf hread =>
    split
    · exact h
    · next currentManager hmanager =>
      simp only
      split
      · exact h
      · next hsaved =>
        rw [saveConfiguration_store hsaved]
        refine ⟨fun _ => rfl, ?_⟩
        intro m hm
        rw [← Option.some.inj hm]
        cases enabled with
        | true => simp [enabled, AcmeConfiguration.row, Manager.start]
        | false => simp [enabled, AcmeConfiguration.row, Manager.stop]

theorem InStep.updateDomains (h : InStep svc) (domains : List String) :
    InStep (svc.updateDomains p env domains).2 := by
  rw [AcmeService.updateDomains]
  split
  · exact h
  · exact h
  · next conf hread =>
    simp only
    split
    · exact h
    · next hsaved =>
      obtain ⟨row, hrow, rfl⟩ := Option.map_eq_some_iff.mp (getConfiguration_ok hread).symm
      rw [saveConfiguration_store hsaved]
      refine ⟨fun _ => rfl, ?_⟩
      intro m hm
      rw [h.renewal m hm]
      simp [enabled, hrow, AcmeConfiguration.row, Row.configuration]

theorem inStep_resetAll : InStep (svc.resetAll env).2 := by
  apply inStep_of_no_manager
  rw [AcmeService.resetAll]
  split <;> rfl

end

variable {env : BootEnv} {req : SaveAcmeConfigRequest}

theorem renewalMatches_restart_iff :
    RenewalMatches (newAcmeService p env yaml svc.store).start ↔
      StartsEnabled p svc (.restart env yaml) := by
  rcases restart_spec p env yaml svc.store with
    ⟨conf, m, hstarts, hvalid, hcreate, hmanager, -, henabled⟩ | ⟨hmanager, hno⟩
  · constructor
    · intro hmatches conf' m' hstarts' _ _
      have hconf : conf' = conf := by
        rw [← bootConfiguration_ok_iff] at hstarts hstarts'
        simpa using hstarts'.symm.trans hstarts
      rw [hconf, ← henabled]
      exact (hmatches _ hmanager).mp rfl
    · intro hstart m' hm'
      rw [← Option.some.inj (hmanager.symm.trans hm'), henabled]
      exact iff_of_true rfl (hstart conf m hstarts hvalid hcreate)
  · refine iff_of_true (inStep_of_no_manager hmanager).renewal ?_
    intro conf m hstarts hvalid hcreate
    exact absurd ⟨conf, m, hstarts, hvalid, hcreate⟩ hno

theorem managerStored_restart : ManagerStored (newAcmeService p env yaml store).start := by
  rcases restart_spec p env yaml store with
    ⟨-, -, -, -, -, -, hstored, -⟩ | ⟨hmanager, -⟩
  · exact fun _ => hstored
  · exact (inStep_of_no_manager hmanager).stored

theorem InStep.step (h : InStep svc) {op : ServiceOp} (hop : StartsEnabled p svc op) :
    InStep ((service p).step svc op).2 := by
  cases op with
  | saveConfiguration env req => exact h.saveConfiguration req
  | toggleEnabled env enabled => exact h.toggleEnabled enabled
  | updateDomains env domains => exact h.updateDomains domains
  | resetAll env => exact inStep_resetAll
  | restart => exact ⟨managerStored_restart, renewalMatches_restart_iff.mpr hop⟩

theorem renewalMatches_step_iff (h : InStep svc) (op : ServiceOp) :
    RenewalMatches ((service p).step svc op).2 ↔ StartsEnabled p svc op := by
  refine ⟨?_, fun hop => (h.step hop).renewal⟩
  cases op with
  | restart => exact renewalMatches_restart_iff.mp
  | _ => exact fun _ => trivial

/-- From a store on, in every state the renewal loop of the manager runs exactly when the
stored configuration is enabled, if and only if no restart finds a disabled configuration from
which a manager can be made. -/
theorem renewal_matches_enabled_iff (p : Platform) (store : AcmeStore) (ops : List ServiceOp) :
    (service p).Always RenewalMatches ⟨store, none⟩ ops ↔
      (service p).Steps (StartsEnabled p) ⟨store, none⟩ ops := by
  have hstart : InStep ⟨store, none⟩ := inStep_of_no_manager rfl
  rw [Machine.always_iff_steps, and_iff_right hstart.renewal]
  apply (service p).steps_iff_of_invariant InStep (fun _ => True) _ _ (fun _ _ => trivial) hstart
  · intro svc op _ h
    exact renewalMatches_step_iff h op
  · intro svc op _ h hop
    exact h.step hop

/-- The library on whole hours, of which only the default interval is read back, and on texts
that need no escapes. -/
def plainPlatform : Platform where
  lower := Char.toLower
  parseDuration text := if text = "12h0m0s" then some defaultRenewalInterval else none
  durationString d := Strconv.itoa (d / Time.hour) ++ "h0m0s"
  quoteJSON text := "\"" ++ text ++ "\""
  resolveValue := .ok

def workingLego : Lego where
  account _ := none
  client _ := none
  unmarshal _ := .ok (AList.singleton "api_token" "secret")
  dnsProviderConfig _ := none
  setDNS01Provider _ := none
  register _ := none

def disabledRequest : SaveAcmeConfigRequest where
  email := "admin@example.com"
  caDirURL := "https://acme.example.com/directory"
  renewalCheckInterval := ""
  enabled := false
  dnsProvider := "cloudflare"
  credentialMap := AList.singleton "api_token" "secret"
  domains := []
  dnsResolvers := []

/-- A disabled configuration is saved, and the process restarts: the loop runs. -/
theorem restart_runs_disabled :
    let svc := (service plainPlatform).run ⟨{}, none⟩
      [.restart { lego := workingLego } none,
        .saveConfiguration { lego := workingLego } disabledRequest,
        .restart { lego := workingLego } none]
    svc.legoManager.map Manager.started = some true ∧ svc.store.enabled = false := by
  decide +kernel

/-! ## A saved configuration after a restart -/

theorem serialize_ne_empty {provider : DNSProvider} {confMap : GoMap String String} {sf : String}
    (h : provider.serialize p confMap = some sf) : sf ≠ "" := by
  rw [DNSProvider.serialize] at h
  split at h
  · rw [← Option.some.inj h, marshal]
    simp [← String.toList_inj]
  · cases h

theorem name_ne_empty (provider : DNSProvider) : provider.name ≠ "" := by
  cases provider
  decide

theorem requestConfiguration_ok (h : requestConfiguration p req = .ok conf) :
    conf.dnsProvider ≠ "" ∧ conf.serializedFields ≠ "" ∧ conf.caDirURL = req.caDirURL := by
  simp only [requestConfiguration, bind, Except.bind, pure, Except.pure] at h
  grind [name_ne_empty, serialize_ne_empty]

theorem seedConfiguration_ok (h : seedConfiguration p order y = .ok conf) :
    conf.dnsProvider ≠ "" ∧ conf.serializedFields ≠ "" ∧ conf.caDirURL = y.caDirURL := by
  rw [seedConfiguration] at h
  split at h
  · cases h
  · next provider _ =>
    obtain ⟨resolved, -, h⟩ := Except.bind_eq_ok.mp h
    split at h
    · cases h
    · next sf hsf =>
      obtain ⟨interval, -, h⟩ := Except.bind_eq_ok.mp h
      cases h
      exact ⟨name_ne_empty provider, serialize_ne_empty hsf, rfl⟩

/-- A manager can be made from the stored configuration. -/
def CreatesManager (p : Platform) (lego : Lego) (store : AcmeStore) : Prop :=
  ∀ row ∈ store.configuration, (newLegoAcmeManager p lego (row.configuration p)).isOk = true

instance (p : Platform) (lego : Lego) (store : AcmeStore) :
    Decidable (CreatesManager p lego store) :=
  inferInstanceAs (Decidable (∀ _ ∈ _, _))

def Boots (p : Platform) (boot : BootEnv) (yaml : Option AcmeConfig) (store : AcmeStore) : Prop :=
  ∃ m, (bootstrap p boot yaml store).1 = .ok (some m)

theorem boots_iff {boot : BootEnv} (hread : boot.read = none)
    (hstore : store.configuration = some (conf.row p))
    (hcreates : CreatesManager p boot.lego store) (hprovider : conf.dnsProvider ≠ "")
    (hfields : conf.serializedFields ≠ "") : Boots p boot yaml store ↔ conf.caDirURL ≠ "" := by
  obtain ⟨m, hm⟩ : ∃ m, newLegoAcmeManager p boot.lego ((conf.row p).configuration p) = .ok m := by
    have hok := hcreates _ hstore
    cases hcreate : newLegoAcmeManager p boot.lego ((conf.row p).configuration p) with
    | error err => simp [hcreate, Except.isOk, Except.toBool] at hok
    | ok m => exact ⟨m, rfl⟩
  obtain ⟨hemail, -, -⟩ := newLegoAcmeManager_ok hm
  have hboot : bootConfiguration p boot yaml store =
      (.ok (some ((conf.row p).configuration p)), store) := by
    simp [bootConfiguration, getConfiguration, hread, hstore, Except.toOption]
  have hvalid : ((conf.row p).configuration p).isValid = true ↔ conf.caDirURL ≠ "" := by
    simp only [Row.configuration, AcmeConfiguration.row] at hemail
    simp only [AcmeConfiguration.isValid, Row.configuration, AcmeConfiguration.row,
      Bool.and_eq_true]
    constructor
    · exact fun h => of_decide_eq_true h.2
    · exact fun h => ⟨⟨⟨decide_eq_true hemail, decide_eq_true hprovider⟩, decide_eq_true hfields⟩,
        decide_eq_true h⟩
  rw [← hvalid, Boots, bootstrap, hboot]
  cases hcase : ((conf.row p).configuration p).isValid with
  | true => simp [hcase, hm, Except.toOption]
  | false => simp [hcase]

theorem saveConfiguration_accepted {env : ServiceEnv}
    (h : (svc.saveConfiguration p env req).1 = none) :
    ∃ conf, requestConfiguration p req = .ok conf ∧
      (svc.saveConfiguration p env req).2.store.configuration = some (conf.row p) := by
  rcases saveConfiguration_cases p env svc req with
    ⟨err, -, -, heq⟩ | ⟨conf, -, hconf, ⟨err, -, heq⟩ | ⟨m, -, heq⟩⟩
  · rw [heq] at h
    cases h
  · rw [heq] at h
    cases h
  · rw [heq]
    exact ⟨conf, hconf, rfl⟩

/-- A configuration that was accepted by the API or from the YAML file, and from which a
manager can be made, gives a manager after a restart exactly when it names a CA URL. -/
theorem survives_restart_iff (p : Platform) (boot : BootEnv) (hread : boot.read = none)
    (yaml : Option AcmeConfig) :
    (∀ (env : ServiceEnv) (svc : AcmeService) (req : SaveAcmeConfigRequest),
      (svc.saveConfiguration p env req).1 = none →
      CreatesManager p boot.lego (svc.saveConfiguration p env req).2.store →
      (Boots p boot yaml (svc.saveConfiguration p env req).2.store ↔ req.caDirURL ≠ "")) ∧
    (∀ (order : List String) (fault : AcmeStore.Fault) (y : AcmeConfig) (store : AcmeStore)
      (conf : AcmeConfiguration), (seedFromYAML p order fault y store).1 = .ok conf →
      CreatesManager p boot.lego (seedFromYAML p order fault y store).2 →
      (Boots p boot yaml (seedFromYAML p order fault y store).2 ↔ y.caDirURL ≠ "")) := by
  constructor
  · intro env svc req haccepted hcreates
    obtain ⟨conf, hconf, hstore⟩ := saveConfiguration_accepted haccepted
    obtain ⟨hprovider, hfields, hurl⟩ := requestConfiguration_ok hconf
    rw [boots_iff hread hstore hcreates hprovider hfields, hurl]
  · intro order fault y store conf haccepted hcreates
    have hstore := seedFromYAML_store haccepted
    obtain ⟨-, hconf⟩ := (seedFromYAML_ok _).mp haccepted
    obtain ⟨hprovider, hfields, hurl⟩ := seedConfiguration_ok hconf
    rw [boots_iff hread hstore hcreates hprovider hfields, hurl]

/-- With a CA URL the configuration survives. -/
theorem survives_restart_with_url :
    Boots plainPlatform { lego := workingLego } none
      (AcmeService.saveConfiguration plainPlatform { lego := workingLego } ⟨{}, none⟩
        disabledRequest).2.store :=
  ((survives_restart_iff plainPlatform { lego := workingLego } rfl none).1 { lego := workingLego }
    ⟨{}, none⟩ disabledRequest (by decide +kernel) (by decide +kernel)).mpr (by decide)

/-- A request that leaves the CA to the default is accepted, and its manager is created and
started, but after a restart there is none. -/
theorem default_ca_lost_after_restart :
    let req := { disabledRequest with caDirURL := "", enabled := true }
    let saved := AcmeService.saveConfiguration plainPlatform { lego := workingLego } ⟨{}, none⟩ req
    saved.1 = none ∧ saved.2.legoManager.map Manager.started = some true ∧
      CreatesManager plainPlatform workingLego saved.2.store ∧
      (newAcmeService plainPlatform { lego := workingLego } none saved.2.store).legoManager =
        none := by
  decide +kernel

end Torii.Acme
