import Torii.Acme.Certificates

/-!
# Names and wildcards of the ACME manager

`resolveDomains`, `groupDomainBatches` and `isCertDomainActive` look for the first dot behind a
label: a name that begins with a dot is below no parent, is covered by no wildcard and is in no
group.
-/

namespace Torii.Acme

open Go Strings

/-- The name is a single label in front of the parent. -/
def Below (d parent : String) : Prop :=
  ∃ label, label ≠ [] ∧ '.' ∉ label ∧ d.toList = label ++ '.' :: parent.toList

theorem indexList_label {label rest : List Char} (hlabel : '.' ∉ label) :
    Strings.indexList ['.'] (label ++ '.' :: rest) = some label.length := by
  have hself : indexList ['.'] ('.' :: rest) = some 0 :=
    indexList_append_self ['.'] rest
  simp [indexList_append_of_notMem hlabel, hself]

theorem parentOf_eq_some_iff {d parent : String} : parentOf d = some parent ↔ Below d parent := by
  have hdot : ".".toList = ['.'] := rfl
  simp only [parentOf, index, hdot]
  constructor
  · intro h
    by_cases hmem : '.' ∈ d.toList
    · obtain ⟨label, rest, hd, hlabel⟩ := List.eq_append_cons_of_mem hmem
      simp only [hd, indexList_label hlabel, List.length_pos_iff] at h
      split at h
      · next hne =>
        cases h
        exact ⟨label, hne, hlabel, by simp [hd]⟩
      · cases h
    · rw [(indexList_eq_none_iff (by simp)).mpr
        (mt (List.singleton_infix_iff _ _).mp hmem)] at h
      cases h
  · rintro ⟨label, hne, hlabel, hd⟩
    simp [hd, indexList_label hlabel, List.length_pos_iff.mpr hne]

theorem Below.unique {d parent parent' : String} (h : Below d parent) (h' : Below d parent') :
    parent' = parent :=
  Option.some.inj ((parentOf_eq_some_iff.mpr h').symm.trans (parentOf_eq_some_iff.mpr h))

theorem below_wildcard (parent : String) : Below ("*." ++ parent) parent :=
  ⟨['*'], by simp, by simp, String.toList_append⟩

/-! ## The names that are resolved -/

section

variable {lower : Char → Char} {all : List String} {d : String}

theorem nodup_uniqueDomains : (uniqueDomains lower all).Nodup := by
  rw [uniqueDomains]
  apply List.foldlRecOn all _ (motive := List.Nodup) List.nodup_nil
  intro unique hunique d _
  dsimp only
  split
  · exact hunique
  · next hnew =>
    exact List.nodup_append.mpr ⟨hunique, List.nodup_singleton _, by
      rintro a ha b hb rfl
      exact hnew (List.mem_singleton.mp hb ▸ ha)⟩

theorem nodup_resolveDomains : (resolveDomains lower all).Nodup := by
  simp only [resolveDomains]
  split
  · exact nodup_uniqueDomains
  · exact nodup_uniqueDomains.filter _

theorem covered_iff {unique : List String} :
    covered (wildcardParents unique) d = true ↔
      ∃ parent, "*." ++ parent ∈ unique ∧ Below d parent := by
  simp only [covered, ← mem_wildcardParents, ← parentOf_eq_some_iff]
  cases parentOf d with
  | none | some => simp

theorem wildcard_mem_resolveDomains {parent : String} :
    "*." ++ parent ∈ resolveDomains lower all ↔ "*." ++ parent ∈ uniqueDomains lower all := by
  rw [mem_resolveDomains]
  exact and_iff_left (.inl (isWildcard_iff.mpr ⟨parent, rfl⟩))

end

/-! ## The batches -/

namespace Grouping

def names (g : Grouping) : List String :=
  g.batches.flatten ++ (g.parentGroups.map Prod.snd).flatten

/-- A name that is alone, or the names below one parent. -/
structure Sound (g : Grouping) : Prop where
  single : ∀ batch ∈ g.batches, ∃ d, batch = [d]
  grouped : ∀ group ∈ g.parentGroups, ∀ d ∈ group.2, isWildcard d = false ∧ Below d group.1

end Grouping

theorem perm_groupStep (g : Grouping) (d : String) : (groupStep g d).names.Perm (d :: g.names) := by
  have hsingle : ({ g with batches := g.batches ++ [[d]] } : Grouping).names.Perm
      (d :: g.names) := by
    simp [Grouping.names, List.perm_middle]
  rw [groupStep]
  split
  · exact hsingle
  · split
    · exact hsingle
    · exact (perm_assign.append_left _).trans List.perm_middle

theorem Grouping.Sound.groupStep {g : Grouping} (h : g.Sound) (d : String) :
    (groupStep g d).Sound := by
  have hsingle : ({ g with batches := g.batches ++ [[d]] } : Grouping).Sound := by
    refine ⟨fun batch hbatch => ?_, h.grouped⟩
    obtain hold | hnew := List.mem_append.mp hbatch
    · exact h.single batch hold
    · exact ⟨d, List.mem_singleton.mp hnew⟩
  rw [Acme.groupStep]
  split
  · exact hsingle
  · next hwild =>
    split
    · exact hsingle
    · next parent hparent =>
      refine ⟨h.single, fun group hgroup => ?_⟩
      obtain rfl | hold := mem_assign hgroup
      · intro d' hd'
        obtain hmember | hlast := List.mem_append.mp hd'
        · cases hlookup : g.parentGroups.lookup parent with
          | none => simp [hlookup] at hmember
          | some members =>
            obtain ⟨before, after, heq, -⟩ := List.lookup_eq_some_iff.mp hlookup
            refine h.grouped (parent, members) ?_ d' (by simpa [hlookup] using hmember)
            simp [heq]
        · rw [List.mem_singleton.mp hlast]
          exact ⟨by simpa using hwild, parentOf_eq_some_iff.mp hparent⟩
      · exact h.grouped group hold

theorem perm_groupDomainBatches (domains : List String) :
    (groupDomainBatches domains).flatten.Perm domains := by
  have hloop : ∀ g : Grouping, (domains.foldl groupStep g).names.Perm (domains ++ g.names) := by
    induction domains with
    | nil => exact fun g => .refl _
    | cons d domains ih =>
      intro g
      exact (ih _).trans (((perm_groupStep g d).append_left domains).trans List.perm_middle)
  simpa [groupDomainBatches, Grouping.names] using hloop {}

theorem batch_cases {domains batch : List String} (hbatch : batch ∈ groupDomainBatches domains) :
    (∃ d, batch = [d]) ∨ ∃ parent, ∀ d ∈ batch, isWildcard d = false ∧ Below d parent := by
  have hsound : (domains.foldl groupStep {}).Sound :=
    List.foldlRecOn domains groupStep (motive := Grouping.Sound)
      ⟨by simp, by simp⟩ fun _ h d _ => h.groupStep d
  obtain hsingle | hgroup := List.mem_append.mp hbatch
  · exact .inl (hsound.single batch hsingle)
  · obtain ⟨group, hmem, rfl⟩ := List.mem_map.mp hgroup
    exact .inr ⟨group.1, hsound.grouped group hmem⟩

/-- The resolved names are distinct, none of them is covered by another, and they cover the
supplied ones. The batches hold each of them once: a wildcard is alone, and names that share a
batch share their parent. -/
theorem batches_cover (lower : Char → Char) (all : List String) :
    (resolveDomains lower all).Nodup ∧
      (∀ d ∈ resolveDomains lower all, isWildcard d = false →
        ∀ parent, Below d parent → "*." ++ parent ∉ resolveDomains lower all) ∧
      (∀ d ∈ all, Strings.toLower lower d ∈ resolveDomains lower all ∨
        ∃ parent, "*." ++ parent ∈ resolveDomains lower all ∧
          Below (Strings.toLower lower d) parent) ∧
      (groupDomainBatches (resolveDomains lower all)).flatten.Perm (resolveDomains lower all) ∧
      (∀ batch ∈ groupDomainBatches (resolveDomains lower all),
        ∀ d ∈ batch, isWildcard d = true → batch = [d]) ∧
      ∀ batch ∈ groupDomainBatches (resolveDomains lower all),
        1 < batch.length → ∃ parent, ∀ d ∈ batch, Below d parent := by
  refine ⟨nodup_resolveDomains, ?_, ?_, perm_groupDomainBatches _, ?_, ?_⟩
  · intro d hd hconcrete parent hbelow hwild
    have hcovered := covered_iff.mpr ⟨parent, wildcard_mem_resolveDomains.mp hwild, hbelow⟩
    obtain ⟨-, hcases⟩ := mem_resolveDomains.mp hd
    simp [hconcrete, hcovered] at hcases
  · intro d hd
    have hunique : toLower lower d ∈ uniqueDomains lower all :=
      mem_uniqueDomains.mpr ⟨d, hd, rfl⟩
    by_cases hcovered : covered (wildcardParents (uniqueDomains lower all))
        (toLower lower d) = true
    · obtain ⟨parent, hwild, hbelow⟩ := covered_iff.mp hcovered
      exact .inr ⟨parent, wildcard_mem_resolveDomains.mpr hwild, hbelow⟩
    · exact .inl (mem_resolveDomains.mpr ⟨hunique, .inr (by simpa using hcovered)⟩)
  · intro batch hbatch d hd hwild
    obtain ⟨d', rfl⟩ | ⟨parent, hgroup⟩ := batch_cases hbatch
    · rw [List.mem_singleton.mp hd]
    · rw [(hgroup d hd).1] at hwild
      cases hwild
  · intro batch hbatch hmany
    obtain ⟨d', rfl⟩ | ⟨parent, hgroup⟩ := batch_cases hbatch
    · exact absurd hmany (Nat.lt_irrefl 1)
    · exact ⟨parent, fun d hd => (hgroup d hd).2⟩

/-! ## Active certificates -/

/-- `isCertDomainActive`; all values of the map are `true`. -/
def isCertDomainActive (certDomain : String) (activeDomains : List String) : Bool :=
  if certDomain ∈ activeDomains then true
  else if isWildcard certDomain then
    let parent := String.ofList (certDomain.toList.drop 2)
    activeDomains.any fun host => parentOf host = some parent
  else
    match parentOf certDomain with
    | none => false
    | some parent => "*." ++ parent ∈ activeDomains

/-- A host name: its labels are not empty, and it has no `*`. -/
def Concrete (d : String) : Prop :=
  '*' ∉ d.toList ∧ ∀ label ∈ d.toList.splitOn '.', label ≠ []

/-- A name that a listener has: a host name, or the wildcard of one. -/
def ActiveDomain (d : String) : Prop :=
  Concrete d ∨ ∃ parent, Concrete parent ∧ d = "*." ++ parent

/-- The host is an active domain, or a single label below a wildcard that is one. -/
def Reaches (activeDomains : List String) (host : String) : Prop :=
  host ∈ activeDomains ∨ ∃ parent, "*." ++ parent ∈ activeDomains ∧ Below host parent

/-- `GetCertificate` finds something for the host when the cache has this certificate only. -/
def Finds (lower : Char → Char) (certDomain host : String) : Prop :=
  ∃ cert, getCertificate lower ((∅ : CertCache).insert certDomain ⟨none⟩) host = some cert

/-- A `*` in the first label, which is not the whole label. -/
def PartialWildcard (d : String) : Prop :=
  ∃ label rest, '.' ∉ label ∧ '*' ∈ label ∧ label ≠ ['*'] ∧ d.toList = label ++ '.' :: rest

theorem isCertDomainActive_cases {certDomain : String} {activeDomains : List String} :
    isCertDomainActive certDomain activeDomains = true ↔
      certDomain ∈ activeDomains ∨
      (∃ parent, certDomain = "*." ++ parent ∧ ∃ host ∈ activeDomains, Below host parent) ∨
      isWildcard certDomain = false ∧
        ∃ parent, Below certDomain parent ∧ "*." ++ parent ∈ activeDomains := by
  rw [isCertDomainActive]
  split
  · next hmem => simp [hmem]
  · next hmem =>
    split
    · next hwild =>
      obtain ⟨parent, rfl⟩ := isWildcard_iff.mp hwild
      have hinj : ∀ parent', "*." ++ parent = "*." ++ parent' ↔ parent = parent' := by
        simp [← String.toList_inj]
      simp [hmem, hwild, hinj, parentOf_eq_some_iff]
    · next hwild =>
      have hnot : ¬ ∃ parent, certDomain = "*." ++ parent ∧
          ∃ host ∈ activeDomains, Below host parent :=
        fun ⟨parent, hparent, _⟩ => hwild (isWildcard_iff.mpr ⟨parent, hparent⟩)
      simp only [hmem, hnot, hwild, false_or, true_and]
      simp only [← parentOf_eq_some_iff]
      cases parentOf certDomain with
      | none | some => simp

theorem finds_iff {lower : Char → Char} {certDomain host : String} :
    Finds lower certDomain host ↔ Strings.toLower lower host = certDomain ∨
      ∃ parent, Below (Strings.toLower lower host) parent ∧ "*." ++ parent = certDomain := by
  simp only [Finds, getCertificate, GoMap.lookup_insert', AList.lookup_empty]
  by_cases hown : toLower lower host = certDomain
  · simp [hown]
  · simp only [hown, if_false, false_or, ← parentOf_eq_some_iff]
    cases parentOf (toLower lower host) with
    | none => simp
    | some parent =>
      by_cases hwild : "*." ++ parent = certDomain
      · simp [hwild]
      · simp [hwild]

section

variable {lower : Char → Char} {d parent : String}

theorem toLower_eq_self_iff : Strings.toLower lower d = d ↔ ∀ c ∈ d.toList, lower c = c := by
  rw [toLower, ← String.toList_inj, String.toList_ofList]
  simpa using @List.map_inj_left _ _ d.toList lower id

theorem below_toLower (hdot : ∀ c, lower c = '.' → c = '.')
    (hwild : Strings.toLower lower ("*." ++ parent) = "*." ++ parent) (h : Below d parent) :
    Below (Strings.toLower lower d) parent := by
  obtain ⟨label, hne, hlabel, hd⟩ := h
  have hkept := toLower_eq_self_iff.mp hwild
  have hparent : parent.toList.map lower = parent.toList := by
    simpa using List.map_congr_left (g := id) fun c hc => hkept c (by simp [hc])
  refine ⟨label.map lower, by simpa using hne, ?_, ?_⟩
  · intro hmem
    obtain ⟨c, hc, hlower⟩ := List.mem_map.mp hmem
    exact hlabel (hdot c hlower ▸ hc)
  · rw [toLower, String.toList_ofList, hd, List.map_append, List.map_cons, hparent,
      hkept '.' (by simp)]

theorem Concrete.of_below (h : Concrete parent) {label : List Char} (hne : label ≠ [])
    (hdot : '.' ∉ label) (hstar : '*' ∉ label) (hd : d.toList = label ++ '.' :: parent.toList) :
    Concrete d := by
  have hcut : (label ++ '.' :: parent.toList).splitOn '.' =
      label.splitOn '.' ++ parent.toList.splitOn '.' :=
    List.splitOnP_append_cons label parent.toList (by simp)
  have hlabel : label.splitOn '.' = [label] :=
    List.splitOnP_eq_singleton fun c hc => beq_eq_false_iff_ne.mpr fun hsep => hdot (hsep ▸ hc)
  refine ⟨by simp [hd, hstar, h.1], ?_⟩
  rw [hd, hcut, hlabel]
  exact List.forall_mem_cons.mpr ⟨hne, h.2⟩

theorem ActiveDomain.concrete_parent (h : ActiveDomain ("*." ++ parent)) : Concrete parent := by
  obtain hconcrete | ⟨parent', hparent, heq⟩ := h
  · exact absurd (by simp) hconcrete.1
  · have hbelow : Below ("*." ++ parent) parent' := heq ▸ below_wildcard parent'
    rwa [(below_wildcard parent).unique hbelow] at hparent

end

/-- For certificate names without a partial wildcard, the status of a certificate tells whether
some host that a listener serves gets it. -/
theorem isCertDomainActive_iff (lower : Char → Char) (hdot : ∀ c, lower c = '.' → c = '.')
    (certDomain : String) (activeDomains : List String)
    (hcert : Strings.toLower lower certDomain = certDomain)
    (hactive : ∀ d ∈ activeDomains, ActiveDomain d ∧ Strings.toLower lower d = d)
    (hwhole : ¬ PartialWildcard certDomain) :
    isCertDomainActive certDomain activeDomains = true ↔
      ∃ host, Concrete host ∧ Reaches activeDomains host ∧ Finds lower certDomain host := by
  rw [isCertDomainActive_cases]
  constructor
  · have hmember : certDomain ∈ activeDomains →
        ∃ host, Concrete host ∧ Reaches activeDomains host ∧ Finds lower certDomain host := by
      intro hmem
      obtain hconcrete | ⟨parent, hparent, rfl⟩ := (hactive _ hmem).1
      · exact ⟨certDomain, hconcrete, .inl hmem, finds_iff.mpr (.inl hcert)⟩
      · have hlabel : ("a." ++ parent).toList = ['a'] ++ '.' :: parent.toList :=
          String.toList_append
        have hbelow : Below ("a." ++ parent) parent := ⟨['a'], by simp, by simp, hlabel⟩
        exact ⟨"a." ++ parent, hparent.of_below (by simp) (by simp) (by simp) hlabel,
          .inr ⟨parent, hmem, hbelow⟩,
          finds_iff.mpr (.inr ⟨parent, below_toLower hdot hcert hbelow, rfl⟩)⟩
    rintro (hmem | ⟨parent, rfl, host, hhost, hbelow⟩ | ⟨hwild, parent, hbelow, hmem⟩)
    · exact hmember hmem
    · obtain hconcrete | ⟨parent', -, rfl⟩ := (hactive _ hhost).1
      · refine ⟨host, hconcrete, .inl hhost, finds_iff.mpr (.inr ⟨parent, ?_, rfl⟩)⟩
        rwa [(hactive _ hhost).2]
      · rw [(below_wildcard parent').unique hbelow] at hmember ⊢
        exact hmember hhost
    · have hparent := (hactive _ hmem).1.concrete_parent
      refine ⟨certDomain, ?_, .inr ⟨parent, hmem, hbelow⟩, finds_iff.mpr (.inl hcert)⟩
      obtain ⟨label, hne, hlabel, hd⟩ := hbelow
      refine hparent.of_below hne hlabel (fun hstar => hwhole ?_) hd
      refine ⟨label, _, hlabel, hstar, ?_, hd⟩
      rintro rfl
      rw [isWildcard_iff.mpr ⟨parent, by simp [← String.toList_inj, hd]⟩] at hwild
      cases hwild
  · rintro ⟨host, hconcrete, hreach, hfinds⟩
    -- the host, lowered, is active or below an active wildcard
    have hlowered : Reaches activeDomains (toLower lower host) := by
      obtain hmem | ⟨parent, hmem, hbelow⟩ := hreach
      · exact .inl ((hactive _ hmem).2.symm ▸ hmem)
      · exact .inr ⟨parent, hmem, below_toLower hdot (hactive _ hmem).2 hbelow⟩
    obtain rfl | ⟨parent, hbelow, rfl⟩ := finds_iff.mp hfinds
    · obtain hmem | ⟨parent, hmem, hbelow⟩ := hlowered
      · exact .inl hmem
      · cases hwild : isWildcard (toLower lower host) with
        | false => exact .inr (.inr ⟨rfl, parent, hbelow, hmem⟩)
        | true =>
          obtain ⟨parent', heq⟩ := isWildcard_iff.mp hwild
          rw [heq] at hbelow ⊢
          rw [(below_wildcard parent').unique hbelow] at hmem
          exact .inl hmem
    · obtain hmem | ⟨parent', hmem, hbelow'⟩ := hlowered
      · exact .inr (.inl ⟨parent, rfl, _, hmem, hbelow⟩)
      · exact .inl (hbelow.unique hbelow' ▸ hmem)

theorem eq_of_toLower {c x : Char} (hx : x.isLower = false) (h : c.toLower = x) : c = x := by
  by_cases hupper : c.val ≥ 'A'.val ∧ c.val ≤ 'Z'.val
  · have hall : ∀ n < 91, 65 ≤ n → (Char.ofNat n).toLower.isLower = true := by decide
    have hlower := hall c.toNat (Nat.lt_succ_of_le hupper.2) hupper.1
    rw [Char.ofNat_toNat, h, hx] at hlower
    cases hlower
  · exact (show c.toLower = c from dif_neg hupper).symm.trans h

/-- The certificate of a wildcard is active for a host below it. -/
theorem isCertDomainActive_wildcard :
    ∃ host, Concrete host ∧ Reaches ["a.example.com"] host ∧
      Finds Char.toLower "*.example.com" host := by
  refine (isCertDomainActive_iff Char.toLower (fun c => eq_of_toLower rfl) "*.example.com"
    ["a.example.com"] rfl ?_ ?_).mp (by decide +kernel)
  · intro d hd
    rw [List.mem_singleton.mp hd]
    exact ⟨.inl ⟨by decide, by decide +kernel⟩, rfl⟩
  · rintro ⟨label, rest, hdot, -, hne, heq⟩
    have hindex : indexList ['.'] "*.example.com".toList = some label.length :=
      heq ▸ indexList_label hdot
    have hlength : label.length = 1 := (Option.some.inj hindex).symm
    obtain ⟨c, rfl⟩ := List.length_eq_one_iff.mp hlength
    have hstar : '*' = c := (List.cons.inj heq).1
    exact hne (by rw [hstar])

/-- A partial wildcard is active through its parent, but no host name is found in its cache. -/
theorem partialWildcard_active :
    Strings.toLower Char.toLower "a*b.example.com" = "a*b.example.com" ∧
      (ActiveDomain "*.example.com" ∧
        Strings.toLower Char.toLower "*.example.com" = "*.example.com") ∧
      isCertDomainActive "a*b.example.com" ["*.example.com"] = true ∧
      ¬ ∃ host, Concrete host ∧ Reaches ["*.example.com"] host ∧
        Finds Char.toLower "a*b.example.com" host := by
  refine ⟨rfl, ⟨.inr ⟨"example.com", ⟨by decide, by decide +kernel⟩, rfl⟩, rfl⟩,
    by decide +kernel, ?_⟩
  rintro ⟨host, hconcrete, -, hfinds⟩
  obtain hown | ⟨parent, -, hwild⟩ := finds_iff.mp hfinds
  · have hlowered : host.toList.map Char.toLower = "a*b.example.com".toList := by
      rw [← hown, toLower, String.toList_ofList]
    have hstar : '*' ∈ host.toList.map Char.toLower := by
      rw [hlowered]
      decide
    obtain ⟨c, hc, hlower⟩ := List.mem_map.mp hstar
    exact hconcrete.1 (eq_of_toLower rfl hlower ▸ hc)
  · have hhead := congrArg (fun d => d.toList.head?) hwild
    rw [String.toList_append] at hhead
    cases hhead

end Torii.Acme
