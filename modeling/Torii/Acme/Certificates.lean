import Torii.Go.Map
import Torii.Go.Strings
import Torii.Go.Time
import Torii.Lib.Machine

/-!
# Certificates of the ACME manager

`domain.go`, `renewal.go` and `certificate.go` of `internal/service/acme`. The table by which names
are lowered is a parameter. Persisting the certificates changes nothing that is served and is left
out.
-/

namespace Torii.Acme

open Go Strings

/-! ## Domains -/

/-- `strings.HasPrefix(d, "*.")`. -/
def isWildcard (d : String) : Bool := "*.".toList.isPrefixOf d.toList

/-- What follows the first dot, unless the dot comes first. -/
def parentOf (d : String) : Option String :=
  match Strings.index d "." with
  | none => none
  | some idx => if 0 < idx then some (String.ofList (d.toList.drop (idx + 1))) else none

/-- `unique` of `resolveDomains`: the first occurrence of every lowered name. -/
def uniqueDomains (lower : Char → Char) (all : List String) : List String :=
  all.foldl (fun unique d =>
    let dl := Strings.toLower lower d
    if dl ∈ unique then unique else unique ++ [dl]) []

def wildcardParents (unique : List String) : List String :=
  (unique.filter isWildcard).map fun d => String.ofList (d.toList.drop 2)

def covered (parents : List String) (d : String) : Bool :=
  match parentOf d with
  | none => false
  | some parent => parent ∈ parents

/-- `resolveDomains`, for what the supplier returns. -/
def resolveDomains (lower : Char → Char) (all : List String) : List String :=
  let unique := uniqueDomains lower all
  let parents := wildcardParents unique
  if parents = [] then unique
  else unique.filter fun d => isWildcard d || ! covered parents d

structure Grouping where
  batches : List (List String) := []
  parentGroups : List (String × List String) := []

/-- One turn of the loop of `groupDomainBatches`. -/
def groupStep (g : Grouping) (d : String) : Grouping :=
  if isWildcard d then { g with batches := g.batches ++ [[d]] }
  else
    match parentOf d with
    | none => { g with batches := g.batches ++ [[d]] }
    | some parent =>
      { g with
        parentGroups :=
          assign parent ((g.parentGroups.lookup parent).getD [] ++ [d]) g.parentGroups }

def groupDomainBatches (domains : List String) : List (List String) :=
  let g := domains.foldl groupStep {}
  g.batches ++ g.parentGroups.map Prod.snd

/-! ## Certificates -/

/-- A `tls.Certificate`: `NotAfter` of its leaf, if the leaf can be parsed. -/
structure Certificate where
  notAfter : Option Nat
deriving DecidableEq

abbrev CertCache := GoMap String Certificate

def renewalMargin : Nat := 30 * 24 * Time.hour

def needsRenewal (now : Nat) (cert : Certificate) : Bool :=
  match cert.notAfter with
  | none => true
  | some notAfter => (notAfter : Int) - now < renewalMargin

/-- The answer of the CA and what becomes of it. -/
inductive Issued where
  | issued (notAfter : Nat)
  | refused (err : String)
  | badKeyPair (err : String)
  | badLeaf (err : String)

def Issued.error : Issued → Option String
  | .issued _ => none
  | .refused err => some ("obtain: " ++ err)
  | .badKeyPair err => some ("parse obtained cert: " ++ err)
  | .badLeaf err => some ("parse leaf: " ++ err)

def obtainCertificate (issue : List String → Issued) (cache : CertCache) (batch : List String) :
    Option String × CertCache :=
  match issue batch with
  | .issued notAfter => (none, batch.foldl (fun c d => c.insert d ⟨some notAfter⟩) cache)
  | failed => (failed.error, cache)

def getCertificate (lower : Char → Char) (cache : CertCache) (serverName : String) :
    Option Certificate :=
  let name := Strings.toLower lower serverName
  match cache.lookup name with
  | some cert => some cert
  | none =>
    match parentOf name with
    | none => none
    | some parent => cache.lookup ("*." ++ parent)

/-- A call of `EnsureCertificates`: the instant, the domains that are supplied and the CA. -/
structure Check where
  now : Nat
  supplied : List String
  issue : List String → Issued

def needed (lower : Char → Char) (cache : CertCache) (check : Check) : List String :=
  (resolveDomains lower check.supplied).filter fun d =>
    match cache.lookup d with
    | none => true
    | some cert => needsRenewal check.now cert

def obtainStep (issue : List String → Issued) (acc : Option String × CertCache)
    (batch : List String) : Option String × CertCache :=
  let next := obtainCertificate issue acc.2 batch
  (acc.1.or next.1, next.2)

/-- `EnsureCertificates`, with its first error. -/
def ensureCertificates (lower : Char → Char) (cache : CertCache) (check : Check) :
    Option String × CertCache :=
  (groupDomainBatches (needed lower cache check)).foldl (obtainStep check.issue) (none, cache)

def manager (lower : Char → Char) : Machine CertCache Check (Option String) where
  step := ensureCertificates lower

/-! ## Which names are renewed -/

section

variable {lower : Char → Char} {all unique : List String} {d : String}

theorem mem_uniqueDomains :
    d ∈ uniqueDomains lower all ↔ ∃ d' ∈ all, Strings.toLower lower d' = d := by
  have hloop : ∀ acc, d ∈ all.foldl (fun unique d =>
      if toLower lower d ∈ unique then unique
      else unique ++ [toLower lower d]) acc ↔
        d ∈ acc ∨ ∃ d' ∈ all, toLower lower d' = d := by
    induction all with
    | nil => simp
    | cons d' all ih =>
      intro acc
      rw [List.foldl_cons, ih]
      by_cases hmem : toLower lower d' ∈ acc
      · rw [if_pos hmem]
        simp only [List.mem_cons, exists_eq_or_imp]
        constructor
        · rintro (hacc | hex)
          · exact .inl hacc
          · exact .inr (.inr hex)
        · rintro (hacc | rfl | hex)
          · exact .inl hacc
          · exact .inl hmem
          · exact .inr hex
      · rw [if_neg hmem]
        simp [List.mem_cons, or_false, or_assoc, eq_comm (a := d)]
  simpa [uniqueDomains] using hloop []

theorem isWildcard_iff : isWildcard d = true ↔ ∃ parent, d = "*." ++ parent := by
  rw [isWildcard, List.isPrefixOf_iff_prefix]
  constructor
  · rintro ⟨rest, hrest⟩
    refine ⟨String.ofList rest, ?_⟩
    simp [← String.toList_inj, ← hrest]
  · rintro ⟨parent, rfl⟩
    rw [String.toList_append]
    exact List.prefix_append ..

theorem mem_wildcardParents {parent : String} :
    parent ∈ wildcardParents unique ↔ "*." ++ parent ∈ unique := by
  have hdrop : ∀ p : String, String.ofList (("*." ++ p).toList.drop 2) = p := by
    intro p
    rw [String.toList_append]
    exact String.ofList_toList
  simp only [wildcardParents, List.mem_map, List.mem_filter]
  constructor
  · rintro ⟨d, ⟨hd, hwild⟩, rfl⟩
    obtain ⟨p, rfl⟩ := isWildcard_iff.mp hwild
    rwa [hdrop]
  · intro h
    exact ⟨_, ⟨h, isWildcard_iff.mpr ⟨parent, rfl⟩⟩, hdrop parent⟩

theorem mem_resolveDomains :
    d ∈ resolveDomains lower all ↔ d ∈ uniqueDomains lower all ∧
      (isWildcard d = true ∨ covered (wildcardParents (uniqueDomains lower all)) d = false) := by
  simp only [resolveDomains]
  split
  · next hnone =>
    have : covered (wildcardParents (uniqueDomains lower all)) d = false := by
      rw [hnone, covered]
      split <;> rfl
    simp [this]
  · simp

end

/-! ## Batches -/

def Grouping.Has (g : Grouping) (d : String) : Prop :=
  (∃ batch ∈ g.batches, d ∈ batch) ∨ ∃ group ∈ g.parentGroups, d ∈ group.2

variable {parent d : String} {groups : List (String × List String)}

theorem perm_assign :
    ((assign parent ((groups.lookup parent).getD [] ++ [d]) groups).map Prod.snd).flatten.Perm
      (d :: (groups.map Prod.snd).flatten) := by
  induction groups with
  | nil => simp [assign]
  | cons group groups ih =>
    obtain ⟨parent', members⟩ := group
    rw [lookup_cons_eq, assign]
    by_cases h : parent' = parent
    · rw [if_pos h.symm, if_pos h]
      simp
    · rw [if_neg (Ne.symm h), if_neg h]
      simp only [List.map_cons, List.flatten_cons]
      exact (ih.append_left members).trans List.perm_middle

theorem mem_assign_append {d' : String} :
    (∃ group ∈ assign parent ((groups.lookup parent).getD [] ++ [d']) groups, d ∈ group.2) ↔
      (∃ group ∈ groups, d ∈ group.2) ∨ d = d' := by
  simpa [← List.flatMap_def, or_comm] using (@perm_assign parent d' groups).mem_iff (a := d)

theorem has_groupStep {g : Grouping} {d' : String} : (groupStep g d').Has d ↔ g.Has d ∨ d = d' := by
  have hsingle : ({ g with batches := g.batches ++ [[d']] } : Grouping).Has d ↔
      g.Has d ∨ d = d' := by
    simp only [Grouping.Has, List.mem_append, List.mem_singleton, or_and_right, exists_or,
      exists_eq_left]
    exact or_right_comm
  rw [groupStep]
  split
  · exact hsingle
  · split
    · exact hsingle
    · simp only [Grouping.Has, mem_assign_append, or_assoc]

theorem mem_groupDomainBatches {domains : List String} :
    (∃ batch ∈ groupDomainBatches domains, d ∈ batch) ↔ d ∈ domains := by
  have hloop : ∀ g : Grouping, (domains.foldl groupStep g).Has d ↔ g.Has d ∨ d ∈ domains := by
    induction domains with
    | nil => simp
    | cons d' domains ih =>
      intro g
      rw [List.foldl_cons, ih, has_groupStep, List.mem_cons, or_assoc]
  have hempty : ¬ ({} : Grouping).Has d := by simp [Grouping.Has]
  have hdomains := (hloop {}).trans (or_iff_right hempty)
  rw [← hdomains]
  simp only [groupDomainBatches, Grouping.Has, List.mem_append, List.mem_map, or_and_right,
    exists_or]
  simp

/-! ## After EnsureCertificates -/

section

variable {lower : Char → Char} {cache : CertCache} {check : Check} {d : String}

/-- Every answer of the CA is a certificate that is valid for more than thirty days. -/
def Check.Issues (check : Check) : Prop :=
  ∀ batch, ∃ notAfter, check.issue batch = .issued notAfter ∧
    (renewalMargin : Int) < (notAfter : Int) - check.now

variable {cert : Certificate} {batches : List (List String)}

theorem lookup_foldl_insert {batch : List String} :
    (batch.foldl (fun c d => c.insert d cert) cache).lookup d =
      if d ∈ batch then some cert else cache.lookup d := by
  induction batch generalizing cache with
  | nil => simp
  | cons d' batch ih =>
    rw [List.foldl_cons, ih, GoMap.lookup_insert']
    by_cases hmem : d ∈ batch
    · simp [hmem]
    · simp [hmem]

theorem lookup_obtainStep (hissues : check.Issues) (acc : Option String × CertCache)
    (batch : List String) :
    ∃ cert, needsRenewal check.now cert = false ∧
      (obtainStep check.issue acc batch).2.lookup d =
        if d ∈ batch then some cert else acc.2.lookup d := by
  obtain ⟨notAfter, hissue, hvalid⟩ := hissues batch
  refine ⟨⟨some notAfter⟩, ?_, ?_⟩
  · simp only [needsRenewal, decide_eq_false_iff_not]
    omega
  · simp only [obtainStep, obtainCertificate, hissue]
    exact lookup_foldl_insert

/-- The names outside the batches keep their certificates. -/
theorem lookup_obtain_of_not_mem (hissues : check.Issues) (acc : Option String × CertCache)
    (hd : ¬ ∃ batch ∈ batches, d ∈ batch) :
    (batches.foldl (obtainStep check.issue) acc).2.lookup d = acc.2.lookup d := by
  induction batches generalizing acc with
  | nil => rfl
  | cons batch batches ih =>
    simp only [List.mem_cons, exists_eq_or_imp, not_or] at hd
    obtain ⟨cert, -, hlookup⟩ := lookup_obtainStep (d := d) hissues acc batch
    rw [List.foldl_cons, ih _ hd.2, hlookup, if_neg hd.1]

theorem lookup_obtain_of_mem (hissues : check.Issues) (acc : Option String × CertCache)
    (hd : ∃ batch ∈ batches, d ∈ batch) :
    ∃ cert, (batches.foldl (obtainStep check.issue) acc).2.lookup d = some cert ∧
      needsRenewal check.now cert = false := by
  induction batches using List.reverseRecOn with
  | nil => exact absurd hd (by simp)
  | append_singleton batches batch ih =>
    obtain ⟨cert, hcert, hlookup⟩ := lookup_obtainStep (d := d) hissues
      (batches.foldl (obtainStep check.issue) acc) batch
    rw [List.foldl_append, List.foldl_cons, List.foldl_nil, hlookup]
    by_cases hlast : d ∈ batch
    · exact ⟨cert, if_pos hlast, hcert⟩
    · rw [if_neg hlast]
      apply ih
      simpa [hlast] using hd

theorem fresh_of_resolved (cache : CertCache) (hissues : check.Issues)
    (hd : d ∈ resolveDomains lower check.supplied) :
    ∃ cert, (ensureCertificates lower cache check).2.lookup d = some cert ∧
      needsRenewal check.now cert = false := by
  by_cases hneed : d ∈ needed lower cache check
  · exact lookup_obtain_of_mem hissues _ (mem_groupDomainBatches.mpr hneed)
  · rw [ensureCertificates, lookup_obtain_of_not_mem hissues _ (mt mem_groupDomainBatches.mp hneed)]
    rw [needed, List.mem_filter, not_and] at hneed
    specialize hneed hd
    cases hcert : cache.lookup d with
    | none => simp [hcert] at hneed
    | some cert => exact ⟨cert, rfl, by simpa [hcert] using hneed⟩

theorem lookup_of_not_resolved (hissues : check.Issues)
    (hd : d ∉ resolveDomains lower check.supplied) :
    (ensureCertificates lower cache check).2.lookup d = cache.lookup d := by
  apply lookup_obtain_of_not_mem hissues
  rw [mem_groupDomainBatches, needed, List.mem_filter]
  exact fun h => hd h.1

def Check.concrete (lower : Char → Char) (check : Check) : List String :=
  check.supplied.filter fun d => ! isWildcard (Strings.toLower lower d)

def Check.covers (lower : Char → Char) (check : Check) (d : String) : Bool :=
  covered (wildcardParents (uniqueDomains lower check.supplied)) (Strings.toLower lower d)

/-- For every concrete name of the list the manager serves a certificate that does not need
renewal. -/
def ServesFresh (lower : Char → Char) (check : Check) (cache : CertCache) : Prop :=
  ∀ d ∈ check.concrete lower, ∃ cert, getCertificate lower cache d = some cert ∧
    needsRenewal check.now cert = false

/-- No covered name of the list has a certificate of its own that needs renewal. -/
def OwnFresh (lower : Char → Char) (cache : CertCache) (check : Check) : Prop :=
  ∀ d ∈ check.concrete lower, check.covers lower d = true →
    ∀ cert ∈ cache.lookup (Strings.toLower lower d), needsRenewal check.now cert = false

instance : Decidable (OwnFresh lower cache check) :=
  inferInstanceAs (Decidable (∀ _ ∈ _, _ → ∀ _ ∈ _, _))

theorem getCertificate_of_own (h : cache.lookup (Strings.toLower lower d) = some cert) :
    getCertificate lower cache d = some cert := by
  simp only [getCertificate, h]

theorem getCertificate_of_wildcard {parent : String}
    (h : cache.lookup (Strings.toLower lower d) = none)
    (hparent : parentOf (Strings.toLower lower d) = some parent) :
    getCertificate lower cache d = cache.lookup ("*." ++ parent) := by
  simp only [getCertificate, h, hparent]

/-- Step lemma: what one call leaves behind. -/
theorem servesFresh_iff (hissues : check.Issues) :
    ServesFresh lower check (ensureCertificates lower cache check).2 ↔
      OwnFresh lower cache check := by
  have hconcrete : ∀ d ∈ check.concrete lower,
      toLower lower d ∈ uniqueDomains lower check.supplied ∧
        isWildcard (toLower lower d) = false := by
    intro d hd
    rw [Check.concrete, List.mem_filter, Bool.not_eq_true'] at hd
    exact ⟨mem_uniqueDomains.mpr ⟨d, hd.1, rfl⟩, hd.2⟩
  have hkept : ∀ d ∈ check.concrete lower, check.covers lower d = true →
      (ensureCertificates lower cache check).2.lookup (toLower lower d) =
        cache.lookup (toLower lower d) := by
    intro d hd hcovers
    apply lookup_of_not_resolved hissues
    rw [mem_resolveDomains, (hconcrete d hd).2, ← Check.covers, hcovers]
    simp
  constructor
  · intro hserves d hd hcovers cert hown
    obtain ⟨cert', hcert', hfresh⟩ := hserves d hd
    rw [getCertificate_of_own ((hkept d hd hcovers).trans hown)] at hcert'
    rwa [Option.some.inj hcert']
  · intro hown d hd
    cases hcovers : check.covers lower d with
    | false =>
      obtain ⟨cert, hcert, hfresh⟩ := fresh_of_resolved cache hissues
        (mem_resolveDomains.mpr ⟨(hconcrete d hd).1, .inr hcovers⟩)
      exact ⟨cert, getCertificate_of_own hcert, hfresh⟩
    | true =>
      cases hcert : cache.lookup (toLower lower d) with
      | some cert =>
        exact ⟨cert, getCertificate_of_own ((hkept d hd hcovers).trans hcert),
          hown d hd hcovers cert hcert⟩
      | none =>
        -- the wildcard that covers the name is in the list, so it was renewed
        rw [Check.covers, covered] at hcovers
        cases hparent : parentOf (toLower lower d) with
        | none => simp [hparent] at hcovers
        | some parent =>
          have hwild : "*." ++ parent ∈ uniqueDomains lower check.supplied :=
            mem_wildcardParents.mp (by simpa [hparent] using hcovers)
          rw [getCertificate_of_wildcard _ hparent]
          · exact fresh_of_resolved cache hissues
              (mem_resolveDomains.mpr ⟨hwild, .inl (isWildcard_iff.mpr ⟨parent, rfl⟩)⟩)
          · rw [hkept d hd _, hcert]
            simpa [Check.covers, covered, hparent] using hcovers

end

/-- In a run in which the CA always issues certificates for more than thirty days, the manager
serves fresh certificates after every call exactly when, at every call, no covered name has a
certificate of its own that needs renewal. -/
theorem certificates_fresh_iff (lower : Char → Char) (cache : CertCache) (checks : List Check)
    (hissues : ∀ check ∈ checks, check.Issues) :
    (manager lower).Steps
        (fun cache check => ServesFresh lower check ((manager lower).step cache check).2)
        cache checks ↔
      (manager lower).Steps (OwnFresh lower) cache checks := by
  apply (manager lower).steps_iff_of_invariant (fun _ => True) Check.Issues _ _ hissues trivial
  · intro cache check hcheck _
    exact servesFresh_iff hcheck
  · exact fun _ _ _ _ _ => trivial

def day : Nat := 24 * Time.hour

/-- A CA whose certificates are valid for ninety days. -/
def ninetyDays (now : Nat) (supplied : List String) : Check where
  now := now
  supplied := supplied
  issue _ := .issued (now + 90 * day)

theorem ninetyDays_issues (now : Nat) (supplied : List String) :
    (ninetyDays now supplied).Issues := by
  intro batch
  refine ⟨now + 90 * day, rfl, ?_⟩
  simp only [renewalMargin, ninetyDays, day, Time.hour, Time.second]
  omega

/-- Without a wildcard in the list the certificates stay fresh. -/
theorem certificates_fresh_concrete :
    (manager Char.toLower).Steps
      (fun cache check => ServesFresh Char.toLower check
        ((manager Char.toLower).step cache check).2) ∅
      [ninetyDays 0 ["a.example.com"], ninetyDays (70 * day) ["a.example.com"]] := by
  refine (certificates_fresh_iff Char.toLower ∅ _ ?_).mpr ?_
  · intro check hcheck
    simp only [List.mem_cons, List.not_mem_nil, or_false] at hcheck
    rcases hcheck with rfl | rfl
    · exact ninetyDays_issues _ _
    · exact ninetyDays_issues _ _
  · decide +kernel

/-- The own certificate of a name that a wildcard covers later is served when it is about to
expire. -/
theorem covered_certificate_stale :
    let first := ninetyDays 0 ["a.example.com"]
    let second := ninetyDays (70 * day) ["a.example.com", "*.example.com"]
    let cache := (manager Char.toLower).run ∅ [first, second]
    first.Issues ∧ second.Issues ∧ "a.example.com" ∈ second.concrete Char.toLower ∧
      getCertificate Char.toLower cache "a.example.com" = some ⟨some (90 * day)⟩ ∧
      needsRenewal second.now ⟨some (90 * day)⟩ = true := by
  refine ⟨ninetyDays_issues _ _, ninetyDays_issues _ _, ?_, ?_, ?_⟩
  · decide
  · decide +kernel
  · decide +kernel

end Torii.Acme
