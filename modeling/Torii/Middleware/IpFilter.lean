import Torii.Lib.Machine
import Torii.TrustedProxy.Matcher

/-!
# IP filter

`middleware/ip_filter`: an allow list that is built once and wins, and a block list that a refresh
replaces as a whole. A list with an invalid entry is not built at all, so a refresh with such a list
leaves the one in place.
-/

namespace Torii.Middleware

open Go Go.Netip Torii.Netutil Torii.TrustedProxy

/-! ## Lists and loaders -/

structure IpList where
  trie : SubnetTrie

def buildIpList (entries : List String) : Except InsertError IpList :=
  match SubnetTrie.newFromStrings entries with
  | .error e => .error e
  | .ok trie => .ok ⟨trie⟩

/-- `IpList.Contains`; `none` is the parse error. -/
def IpList.contains (l : IpList) (ip : String) : Option Bool := l.trie.containsFromString ip

structure IpLoader where
  isRefreshable : Bool
  startRefreshTimer : Except String (List String)
  loadAllowedIps : Except String (List String)
  loadBlockedIps : Except String (List String)

def newStaticLoader (allowedIps blockedIps : List String) : IpLoader where
  isRefreshable := false
  startRefreshTimer := .ok []
  loadAllowedIps := .ok allowedIps
  loadBlockedIps := .ok blockedIps

inductive FilterError where
  | loader (cause : String)
  | list (cause : InsertError)
deriving DecidableEq

/-! ## The filter -/

/-- `IpFilter`; the pointer to the block list is atomic. -/
structure IpFilter where
  allowList : Option IpList
  blockList : Option IpList

def loadIpList (ips : Except String (List String)) : Except FilterError IpList :=
  match ips with
  | .error e => .error (.loader e)
  | .ok ips =>
    match buildIpList ips with
    | .error e => .error (.list e)
    | .ok list => .ok list

def newIpFilter (loader : IpLoader) : Except FilterError IpFilter :=
  match loadIpList loader.loadAllowedIps with
  | .error e => .error e
  | .ok allowList =>
    -- The timer of a refreshable loader makes the first fetch.
    match loadIpList (if loader.isRefreshable then loader.startRefreshTimer
      else loader.loadBlockedIps) with
    | .error e => .error e
    | .ok blockList => .ok ⟨some allowList, some blockList⟩

def IpFilter.replaceBlockList (f : IpFilter) (ips : List String) :
    Except InsertError Unit × IpFilter :=
  match buildIpList ips with
  | .error e => (.error e, f)
  | .ok newList => (.ok (), { f with blockList := some newList })

/-- `IsBlocked`; `none` is the error for an address that does not parse. -/
def IpFilter.isBlocked (f : IpFilter) (ip : String) : Option Bool :=
  match f.allowList with
  | none => blockedBy f.blockList
  | some allowList =>
    match allowList.contains ip with
    | none => none
    | some true => some false
    | some false => blockedBy f.blockList
where
  /-- The second half, without a block list nothing is blocked. -/
  blockedBy : Option IpList → Option Bool
    | none => some false
    | some blockList => blockList.contains ip

def replacing : Machine IpFilter (List String) (Except InsertError Unit) :=
  ⟨IpFilter.replaceBlockList⟩

/-! ## Verdicts -/

def AllValid (entries : List String) : Prop := ∀ entry ∈ entries, (entryPrefix entry).isSome

instance (entries : List String) : Decidable (AllValid entries) :=
  inferInstanceAs (Decidable (∀ entry ∈ entries, _))

def listOf (entries : List String) : IpList := ⟨.insertAll (entries.filterMap entryPrefix)⟩

variable {entries : List String}

theorem buildIpList_of_allValid (h : AllValid entries) :
    buildIpList entries = .ok (listOf entries) := by
  have hok := (SubnetTrie.newFromStrings_ok_iff _ entries).mpr ⟨h, rfl⟩
  rw [buildIpList, hok]
  rfl

theorem buildIpList_of_not_allValid (h : ¬ AllValid entries) :
    ∃ e, buildIpList entries = .error e := by
  rw [buildIpList]
  cases hbuild : SubnetTrie.newFromStrings entries with
  | error e => exact ⟨e, rfl⟩
  | ok trie => exact absurd ((SubnetTrie.newFromStrings_ok_iff trie entries).mp hbuild).1 h

/-- The filter of an allow list and a block list. -/
def filterOf (allowed blocked : List String) : IpFilter :=
  ⟨some (listOf allowed), some (listOf blocked)⟩

variable (allowed blocked : List String) (lists : List (List String)) (ips : List String)

theorem newIpFilter_static_iff (f : IpFilter) :
    newIpFilter (newStaticLoader allowed blocked) = .ok f ↔
      AllValid allowed ∧ AllValid blocked ∧ f = filterOf allowed blocked := by
  simp only [newIpFilter, newStaticLoader, loadIpList, Bool.false_eq_true, if_false]
  by_cases hallowed : AllValid allowed
  · by_cases hblocked : AllValid blocked
    · simp [buildIpList_of_allValid, hallowed, hblocked, filterOf, eq_comm]
    · obtain ⟨e, he⟩ := buildIpList_of_not_allValid hblocked
      simp [buildIpList_of_allValid, hallowed, hblocked, he]
  · obtain ⟨e, he⟩ := buildIpList_of_not_allValid hallowed
    simp [hallowed, he]

theorem step_replacing :
    (replacing.step (filterOf allowed blocked) ips).2 =
      filterOf allowed (if AllValid ips then ips else blocked) := by
  by_cases hips : AllValid ips
  · simp [replacing, IpFilter.replaceBlockList, buildIpList_of_allValid hips, hips, filterOf]
  · obtain ⟨e, he⟩ := buildIpList_of_not_allValid hips
    simp [replacing, IpFilter.replaceBlockList, he, hips]

/-- The most recent list made only of valid entries. -/
def latestValid (blocked : List String) (lists : List (List String)) : List String :=
  (lists.filter fun ips => decide (AllValid ips)).getLastD blocked

theorem latestValid_concat : latestValid blocked (lists ++ [ips]) =
      if AllValid ips then ips else latestValid blocked lists := by
  by_cases hips : AllValid ips
  · simp [latestValid, List.filter_append, hips]
  · simp [latestValid, List.filter_append, hips]

theorem run_replacing :
    replacing.run (filterOf allowed blocked) lists =
      filterOf allowed (latestValid blocked lists) := by
  induction lists using List.reverseRecOn with
  | nil => rfl
  | append_singleton lists ips ih =>
    rw [Machine.run_concat, ih, step_replacing, latestValid_concat]

theorem isBlocked_filterOf {ip : String} {a : Addr} (hip : parseAddr ip = some a) :
    (filterOf allowed blocked).isBlocked ip =
      some (!(listOf allowed).trie.contains a && (listOf blocked).trie.contains a) := by
  have hcontains : ∀ entries, (listOf entries).contains ip =
      some ((listOf entries).trie.contains a) := by
    intro entries
    simp [IpList.contains, SubnetTrie.containsFromString, hip]
  simp only [IpFilter.isBlocked, filterOf, hcontains]
  cases (listOf allowed).trie.contains a with
  | true => rfl
  | false => simp [IpFilter.isBlocked.blockedBy, hcontains]

def NoZeroLength (entries : List String) : Prop :=
  ∀ entry ∈ entries, ∀ p, entryPrefix entry = some p → 1 ≤ p.bits

theorem contains_listOf (h : NoZeroLength entries) (a : Addr) :
    (listOf entries).trie.contains a = true ↔ InSomeEntry entries a := by
  have hbits : ∀ p ∈ entries.filterMap entryPrefix, 1 ≤ p.bits := by
    intro p hp
    obtain ⟨entry, hentry, hprefix⟩ := List.mem_filterMap.mp hp
    exact h entry hentry p hprefix
  show (SubnetTrie.insertAll _).contains a = true ↔ _
  rw [(SubnetTrie.contains_insertAll_eq_set _ hbits).1]
  constructor
  · rintro ⟨p, hp, hmem⟩
    obtain ⟨entry, hentry, hprefix⟩ := List.mem_filterMap.mp hp
    exact ⟨entry, hentry, p, hprefix, hmem⟩
  · rintro ⟨entry, hentry, p, hprefix, hmem⟩
    exact ⟨p, List.mem_filterMap.mpr ⟨entry, hentry, hprefix⟩, hmem⟩

theorem latestValid_cases :
    latestValid blocked lists = blocked ∨ latestValid blocked lists ∈ lists := by
  induction lists using List.reverseRecOn with
  | nil => exact .inl rfl
  | append_singleton lists ips ih =>
    rw [latestValid_concat]
    split
    · exact .inr (by simp)
    · exact ih.imp id fun h => List.mem_append_left _ h

/-- A filter made from two lists and refreshed with any others. It blocks an address exactly
when no allow entry holds it and some entry of the latest valid list does; a list with an
invalid entry is refused and changes no verdict. An entry of the other family holds no
address, and the zone of an address is not looked at. -/
theorem isBlocked_after_refreshes {allowed blocked : List String} {f : IpFilter}
    (hnew : newIpFilter (newStaticLoader allowed blocked) = .ok f)
    (lists : List (List String)) (hallowed : NoZeroLength allowed)
    (hblocked : NoZeroLength blocked) (hlists : ∀ ips ∈ lists, NoZeroLength ips) :
    (∀ ip a, parseAddr ip = some a →
      ∃ verdict, (replacing.run f lists).isBlocked ip = some verdict ∧
        (verdict = true ↔
          ¬ InSomeEntry allowed a ∧ InSomeEntry (latestValid blocked lists) a)) ∧
      ∀ ips, ¬ AllValid ips →
        (∃ e, (replacing.step (replacing.run f lists) ips).1 = .error e) ∧
          ∀ ip, (replacing.step (replacing.run f lists) ips).2.isBlocked ip =
            (replacing.run f lists).isBlocked ip := by
  obtain ⟨-, -, rfl⟩ := (newIpFilter_static_iff allowed blocked f).mp hnew
  rw [run_replacing]
  refine ⟨?_, ?_⟩
  · intro ip a hip
    refine ⟨_, isBlocked_filterOf allowed _ hip, ?_⟩
    have hlatest : NoZeroLength (latestValid blocked lists) := by
      obtain hfirst | hmem := latestValid_cases blocked lists
      · rwa [hfirst]
      · exact hlists _ hmem
    rw [Bool.and_eq_true, Bool.not_eq_true', ← Bool.not_eq_true, contains_listOf hallowed,
      contains_listOf hlatest]
  · intro ips hips
    refine ⟨?_, ?_⟩
    · obtain ⟨e, he⟩ := buildIpList_of_not_allValid hips
      exact ⟨e, by simp [replacing, IpFilter.replaceBlockList, he]⟩
    · intro ip
      rw [step_replacing, if_neg hips]

/-- A network is blocked except for one of its addresses; a bad list is then refused and a
good one taken. -/
theorem isBlocked_after_two_refreshes :
    ∃ f, newIpFilter (newStaticLoader ["10.0.0.7"] ["10.0.0.0/8"]) = .ok f ∧
      (∃ verdict, (replacing.run f [["10.1.0.0/16", "bad"], ["fd00::/8"]]).isBlocked "fd00::1" =
        some verdict ∧ (verdict = true ↔ ¬ InSomeEntry ["10.0.0.7"] (.v6 (0xfd <<< 120 + 1) "") ∧
          InSomeEntry ["fd00::/8"] (.v6 (0xfd <<< 120 + 1) ""))) ∧
      ∀ ip, (replacing.run f [["10.1.0.0/16", "bad"]]).isBlocked ip = f.isBlocked ip := by
  have hzero : ∀ entries ∈ [["10.0.0.7"], ["10.0.0.0/8"], ["10.1.0.0/16", "bad"], ["fd00::/8"]],
      NoZeroLength entries := by
    intro entries hentries entry hentry p hp
    have hall : ∀ entries ∈ [["10.0.0.7"], ["10.0.0.0/8"], ["10.1.0.0/16", "bad"], ["fd00::/8"]],
        ∀ entry ∈ entries, ∀ p ∈ entryPrefix entry, 1 ≤ p.bits := by decide +kernel
    exact hall entries hentries entry hentry p hp
  have hnew : newIpFilter (newStaticLoader ["10.0.0.7"] ["10.0.0.0/8"]) =
      .ok (filterOf ["10.0.0.7"] ["10.0.0.0/8"]) :=
    (newIpFilter_static_iff _ _ _).mpr ⟨by decide +kernel, by decide +kernel, rfl⟩
  have hlatest : latestValid ["10.0.0.0/8"] [["10.1.0.0/16", "bad"], ["fd00::/8"]] =
      ["fd00::/8"] := by decide +kernel
  refine ⟨_, hnew, ?_, ?_⟩
  · have hverdict := (isBlocked_after_refreshes hnew [["10.1.0.0/16", "bad"], ["fd00::/8"]]
      (hzero _ (by simp)) (hzero _ (by simp))
      (fun ips hips => hzero ips (by simp at hips ⊢; tauto))).1
    rw [hlatest] at hverdict
    exact hverdict "fd00::1" _ (by decide +kernel)
  · exact ((isBlocked_after_refreshes hnew [] (hzero _ (by simp)) (hzero _ (by simp))
      (by simp)).2 ["10.1.0.0/16", "bad"] (by decide +kernel)).2

end Torii.Middleware
