import Torii.Acme.Service

/-!
# Saving and resetting

What `AcmeService.ResetAll` and a failed `SaveConfiguration` leave behind. With a manager an error
of the store is only logged, like those of the revocations.
-/

namespace Torii.Acme

open Go

/-- If the reset succeeds, all tables are empty, there is no manager, and the next
configuration is not refused because of an earlier one. -/
def AcmeService.ResetComplete (env : ServiceEnv) (svc : AcmeService) : Prop :=
  (svc.resetAll env).1 = none →
    (svc.resetAll env).2 = ⟨{}, none⟩ ∧ ∀ p senv req,
      ((svc.resetAll env).2.saveConfiguration p senv req).1 ≠ some .alreadyConfigured

theorem resetAll_of_write {env : ServiceEnv} (hwrite : env.write = none) (svc : AcmeService) :
    svc.resetAll env = (none, ⟨{}, none⟩) := by
  obtain ⟨store, legoManager⟩ := svc
  cases legoManager with
  | none | some => simp [AcmeService.resetAll, managerResetAll, AcmeStore.resetAll, hwrite]

theorem saveConfiguration_of_empty (p : Platform) (env : ServiceEnv)
    (req : SaveAcmeConfigRequest) :
    ((⟨{}, none⟩ : AcmeService).saveConfiguration p env req).1 ≠ some .alreadyConfigured := by
  intro hanswer
  rcases saveConfiguration_cases p env ⟨{}, none⟩ req with
    ⟨err, -, hstored, heq⟩ | ⟨conf, -, -, ⟨err, hsaved, heq⟩ | ⟨m, -, heq⟩⟩
  · rw [heq] at hanswer
    exact hstored (Option.some.inj hanswer) rfl
  · rw [heq] at hanswer
    cases hanswer
    cases hsaved
  · rw [heq] at hanswer
    cases hanswer

/-- A reset that succeeds is complete exactly when there is no manager, the store can be reset,
or there is nothing in the store. -/
theorem resetComplete_iff (env : ServiceEnv) (svc : AcmeService) :
    svc.ResetComplete env ↔ svc.legoManager = none ∨ env.write = none ∨ svc.store = {} := by
  obtain ⟨store, legoManager⟩ := svc
  rw [AcmeService.ResetComplete]
  cases hwrite : env.write with
  | none =>
    rw [resetAll_of_write hwrite]
    exact iff_of_true (fun _ => ⟨rfl, saveConfiguration_of_empty⟩) (.inr (.inl rfl))
  | some err =>
    cases legoManager with
    | none =>
      refine iff_of_true (fun hanswer => ?_) (.inl rfl)
      simp [AcmeService.resetAll, AcmeStore.resetAll, hwrite] at hanswer
    | some m =>
      have hafter : (⟨store, some m⟩ : AcmeService).resetAll env = (none, ⟨store, none⟩) := by
        simp [AcmeService.resetAll, managerResetAll, AcmeStore.resetAll, hwrite]
      rw [hafter]
      simp only [reduceCtorEq, false_or]
      constructor
      · exact fun h => (AcmeService.mk.inj (h trivial).1).1
      · rintro rfl _
        exact ⟨rfl, saveConfiguration_of_empty⟩

def savedRow : Row where
  email := "admin@example.com"
  dnsProvider := "cloudflare"
  caDirURL := "https://acme.example.com/directory"
  renewalCheckInterval := "12h0m0s"
  enabled := false
  serializedFields := "\x7b\"api_token\":\"secret\"\x7d"
  acmeDomains := ""
  dnsResolvers := ""

/-- The database is locked: the reset succeeds and the configuration is still there. -/
theorem lockedStore_not_reset :
    let svc : AcmeService :=
      ⟨{ configuration := some savedRow }, some ⟨defaultRenewalInterval, true⟩⟩
    let env : ServiceEnv := { write := some "database is locked", lego := workingLego }
    (svc.resetAll env).1 = none ∧ ¬ svc.ResetComplete env ∧
      ((svc.resetAll env).2.saveConfiguration plainPlatform { lego := workingLego }
        disabledRequest).1 = some .alreadyConfigured := by
  refine ⟨rfl, fun h => ?_, by decide +kernel⟩
  cases (AcmeService.mk.inj (h rfl).1).1

/-! ## Saving that fails -/

/-- A failed `SaveConfiguration` installs no manager, and it leaves the store as it was unless
the error says that the configuration was saved. -/
theorem saveConfiguration_failed (p : Platform) (env : ServiceEnv) (svc : AcmeService)
    (req : SaveAcmeConfigRequest) (err : ServiceError) (hstore : svc.store.configuration = none)
    (hmanager : svc.legoManager = none) (herr : (svc.saveConfiguration p env req).1 = some err) :
    (svc.saveConfiguration p env req).2.legoManager = none ∧
      (err.configurationSaved = false →
        (svc.saveConfiguration p env req).2.store.configuration = none) ∧
      (err.configurationSaved = true → ∃ conf, requestConfiguration p req = .ok conf ∧
        (svc.saveConfiguration p env req).2.store.configuration = some (conf.row p)) := by
  rcases saveConfiguration_cases p env svc req with
    ⟨err', hsaved, -, heq⟩ | ⟨conf, -, hconf, ⟨err', hsaved, heq⟩ | ⟨m, -, heq⟩⟩
  · rw [heq] at herr ⊢
    cases herr
    exact ⟨hmanager, fun _ => hstore, fun h => absurd (hsaved.symm.trans h) nofun⟩
  · rw [heq] at herr ⊢
    cases herr
    exact ⟨hmanager, fun h => absurd (hsaved.symm.trans h) nofun, fun _ => ⟨conf, hconf, rfl⟩⟩
  · rw [heq] at herr
    cases herr

/-- An ACME library without a network. -/
def offlineLego : Lego := { workingLego with register := fun _ => some "no route to host" }

/-- The registration fails: the configuration is stored, and a retry is refused. -/
theorem offline_configuration_saved :
    let svc : AcmeService := ⟨{}, none⟩
    let env : ServiceEnv := { lego := offlineLego }
    let failed := svc.saveConfiguration plainPlatform env disabledRequest
    failed.1 = some (.initCreate (.registration "no route to host")) ∧
      failed.2.store.configuration.isSome = true ∧
      (failed.2.saveConfiguration plainPlatform env disabledRequest).1 =
        some .alreadyConfigured := by
  decide +kernel

/-- Without an email nothing is stored. -/
theorem saveConfiguration_failed_email :
    ((⟨{}, none⟩ : AcmeService).saveConfiguration plainPlatform { lego := workingLego }
      { disabledRequest with email := "" }).2.store.configuration = none :=
  (saveConfiguration_failed plainPlatform { lego := workingLego } ⟨{}, none⟩
    { disabledRequest with email := "" } .emailRequired rfl rfl rfl).2.1 rfl

end Torii.Acme
