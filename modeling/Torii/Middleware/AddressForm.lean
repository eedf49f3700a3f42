import Torii.Middleware.CountryFilter
import Torii.Middleware.IpFilter

/-!
# Two forms of one address

An IPv4 address `a` can also be written as the IPv6 address `::ffff:a`, and nothing in the program
brings the two to one form. So the checks by address (IP filter, LAN allow lists of the country
filter and of the user-agent blocker, trusted proxies) ask the IPv4 entries about `a` and the IPv6
entries about `::ffff:a`.
-/

namespace Torii.Middleware

open Go Go.Netip Torii.Netutil Torii.TrustedProxy SubnetTrie Country

def Ua.isIpInAllowList (lanAllowList : Option SubnetTrie) (ip : Addr) : Bool :=
  Country.inAllowList lanAllowList ip

/-! ## Entries of one family -/

/-- The IPv4-mapped IPv6 form `::ffff:a`. -/
def mapped (a : BitVec 32) : Addr := .v6 (0xffff#96 ++ a) ""

example : parseAddr "::ffff:10.0.0.1" = some (mapped 0x0A000001) := by decide +kernel

def ownFamily (entries : List String) (a : Addr) : List Prefix :=
  (entries.filterMap entryPrefix).filter fun p => p.addr.is4 = a.is4

/-- An entry of the family of the address holds it, and no `/0` of the family follows. -/
def Held (entries : List String) (a : Addr) : Prop :=
  ∃ earlier p later, ownFamily entries a = earlier ++ p :: later ∧ 1 ≤ p.bits ∧
    p.contains a.withoutZone = true ∧ ∀ q ∈ later, q.bits ≠ 0

theorem contains_insert_of_family_ne (t : SubnetTrie) {p : Prefix} {a : Addr}
    (h : p.addr.is4 ≠ a.is4) : (t.insert p).contains a = t.contains a := by
  by_cases hpos : 1 ≤ p.bits
  · have hno : p.contains a.withoutZone = false := by
      rw [← Bool.not_eq_true]
      intro hmem
      exact h (by simpa using is4_of_contains hmem)
    rw [contains_insert_of_pos t hpos, hno, Bool.false_or]
  · rw [contains_insert_of_zero t (by omega), bne_iff_ne.mpr h, Bool.true_and]

theorem contains_insertAll_filter (ps : List Prefix) (a : Addr) :
    (SubnetTrie.insertAll (ps.filter fun p => p.addr.is4 = a.is4)).contains a =
      (SubnetTrie.insertAll ps).contains a := by
  have hconcat : ∀ qs p, insertAll (qs ++ [p]) = (insertAll qs).insert p := by
    intro qs p
    simp [insertAll]
  induction ps using List.reverseRecOn with
  | nil => rfl
  | append_singleton ps p ih =>
    rw [List.filter_append, hconcat ps p]
    by_cases hfam : p.addr.is4 = a.is4
    · rw [List.filter_cons_of_pos (by simpa using hfam), List.filter_nil, hconcat]
      by_cases hpos : 1 ≤ p.bits
      · simp only [contains_insert_of_pos _ hpos, ih]
      · simp [contains_insert_of_zero _ (show p.bits = 0 by omega), ih]
    · rw [List.filter_cons_of_neg (by simpa using hfam), List.filter_nil, List.append_nil, ih,
        contains_insert_of_family_ne _ hfam]

theorem contains_listOf_iff_held (entries : List String) (a : Addr) :
    (listOf entries).trie.contains a = true ↔ Held entries a := by
  show (insertAll (entries.filterMap entryPrefix)).contains a = true ↔ _
  rw [← contains_insertAll_filter, contains_insertAll]
  constructor
  · rintro ⟨earlier, p, later, hsplit, hpos, hmem, hlater⟩
    refine ⟨earlier, p, later, hsplit, hpos, hmem, fun q hq hzero => hlater q hq hzero ?_⟩
    have hown : q ∈ ownFamily entries a := by
      rw [ownFamily, hsplit]
      simp [hq]
    simpa using (List.mem_filter.mp hown).2
  · rintro ⟨earlier, p, later, hsplit, hpos, hmem, hlater⟩
    exact ⟨earlier, p, later, hsplit, hpos, hmem, fun q hq hzero => absurd hzero (hlater q hq)⟩

/-! ## The four checks -/

theorem inAllowList_iff_held {entries : List String} {lanAllowList : Option SubnetTrie}
    (h : buildLanAllowList entries = .ok lanAllowList) (a : Addr) :
    inAllowList lanAllowList a = true ↔ Held entries a := by
  rw [← contains_listOf_iff_held]
  cases entries with
  | nil =>
    cases h
    simp [inAllowList, listOf, insertAll, contains_new]
  | cons entry entries =>
    rw [buildLanAllowList, if_neg (by simp)] at h
    cases hbuild : newFromStrings (entry :: entries) with
    | error e => simp [hbuild] at h
    | ok trie =>
      obtain ⟨-, rfl⟩ := (newFromStrings_ok_iff trie _).mp hbuild
      rw [hbuild] at h
      cases h
      rfl

theorem isTrusted_iff_held {entries : List String} {header : String} {m : Matcher}
    (h : newTrustedProxyResolver entries header = .ok m) (a : Addr) :
    m.isTrusted a = true ↔ Held entries a := by
  rw [← contains_listOf_iff_held]
  simp only [newTrustedProxyResolver, buildTrieTree_eq] at h
  split at h
  · cases h
  · cases h
    rfl

theorem isBlocked_eq_iff {allowed blocked : List String} {ip ip' : String} {a a' : Addr}
    (hip : parseAddr ip = some a) (hip' : parseAddr ip' = some a') :
    (filterOf allowed blocked).isBlocked ip = (filterOf allowed blocked).isBlocked ip' ↔
      (¬ Held allowed a ∧ Held blocked a ↔ ¬ Held allowed a' ∧ Held blocked a') := by
  rw [isBlocked_filterOf _ _ hip, isBlocked_filterOf _ _ hip', Option.some.injEq, Bool.eq_iff_iff]
  simp only [Bool.and_eq_true, Bool.not_eq_true', ← Bool.not_eq_true, contains_listOf_iff_held]

/-- An IPv4 address and its IPv4-mapped form. `Held` asks only the entries of the family of
the address, so each check treats the two alike exactly when the IPv4 entries of its list
hold the address if and only if the IPv6 entries hold the mapped form; for the IP filter
that is said of the verdict of both lists, after any refreshes. -/
theorem addressForm_iff (a : BitVec 32) :
    (∀ allowed blocked f, newIpFilter (newStaticLoader allowed blocked) = .ok f →
      ∀ lists ip ip', parseAddr ip = some (.v4 a) → parseAddr ip' = some (mapped a) →
        ((replacing.run f lists).isBlocked ip = (replacing.run f lists).isBlocked ip' ↔
          (¬ Held allowed (.v4 a) ∧ Held (latestValid blocked lists) (.v4 a) ↔
            ¬ Held allowed (mapped a) ∧ Held (latestValid blocked lists) (mapped a)))) ∧
      (∀ entries lanAllowList, buildLanAllowList entries = .ok lanAllowList →
        (∀ c : Country.Settings, c.lanAllowList = lanAllowList →
          (c.inLan (.v4 a) = c.inLan (mapped a) ↔
            (Held entries (.v4 a) ↔ Held entries (mapped a)))) ∧
        (Ua.isIpInAllowList lanAllowList (.v4 a) = Ua.isIpInAllowList lanAllowList (mapped a) ↔
          (Held entries (.v4 a) ↔ Held entries (mapped a)))) ∧
      ∀ entries header m, newTrustedProxyResolver entries header = .ok m →
        (m.isTrusted (.v4 a) = m.isTrusted (mapped a) ↔
          (Held entries (.v4 a) ↔ Held entries (mapped a))) := by
  refine ⟨?_, ?_, ?_⟩
  · intro allowed blocked f hnew lists ip ip' hip hip'
    obtain ⟨-, -, rfl⟩ := (newIpFilter_static_iff allowed blocked f).mp hnew
    rw [run_replacing]
    exact isBlocked_eq_iff hip hip'
  · intro entries lanAllowList hbuild
    have hlan : inAllowList lanAllowList (.v4 a) = inAllowList lanAllowList (mapped a) ↔
        (Held entries (.v4 a) ↔ Held entries (mapped a)) := by
      rw [Bool.eq_iff_iff, inAllowList_iff_held hbuild, inAllowList_iff_held hbuild]
    refine ⟨?_, hlan⟩
    rintro c rfl
    exact hlan
  · intro entries header m hm
    rw [Bool.eq_iff_iff, isTrusted_iff_held hm, isTrusted_iff_held hm]

/-- A list with both forms of a network treats both forms of its addresses alike. -/
theorem addressForm_both_listed :
    ∃ m, newTrustedProxyResolver ["10.0.0.0/8", "::ffff:10.0.0.0/104"] "" = .ok m ∧
      m.isTrusted (.v4 0x0A000001) = m.isTrusted (mapped 0x0A000001) := by
  have hheld : ∀ a ∈ [Addr.v4 0x0A000001, mapped 0x0A000001],
      Held ["10.0.0.0/8", "::ffff:10.0.0.0/104"] a := by
    intro a ha
    rw [← contains_listOf_iff_held]
    have hall : ∀ a ∈ [Addr.v4 0x0A000001, mapped 0x0A000001],
        (listOf ["10.0.0.0/8", "::ffff:10.0.0.0/104"]).trie.contains a = true := by
      decide +kernel
    exact hall a ha
  have hm : newTrustedProxyResolver ["10.0.0.0/8", "::ffff:10.0.0.0/104"] "" =
      .ok ⟨some (buildTrieTree ["10.0.0.0/8", "::ffff:10.0.0.0/104"]), "X-Forwarded-For"⟩ := rfl
  refine ⟨_, hm, ((addressForm_iff 0x0A000001).2.2 _ _ _ hm).mpr ?_⟩
  exact iff_of_true (hheld _ (by simp)) (hheld _ (by simp))

/-- With `10.0.0.0/8` in each list, `10.0.0.1` is found by all four checks and
`::ffff:10.0.0.1` by none. -/
theorem mapped_form_escapes :
    let f := filterOf [] ["10.0.0.0/8"]
    newIpFilter (newStaticLoader [] ["10.0.0.0/8"]) = .ok f ∧
      f.isBlocked "10.0.0.1" = some true ∧ f.isBlocked "::ffff:10.0.0.1" = some false ∧
      ∃ lan m, buildLanAllowList ["10.0.0.0/8"] = .ok lan ∧
        (∀ c : Country.Settings, c.lanAllowList = lan →
          c.inLan (.v4 0x0A000001) = true ∧ c.inLan (mapped 0x0A000001) = false) ∧
        Ua.isIpInAllowList lan (.v4 0x0A000001) = true ∧
        Ua.isIpInAllowList lan (mapped 0x0A000001) = false ∧
        newTrustedProxyResolver ["10.0.0.0/8"] "" = .ok m ∧
        m.isTrusted (.v4 0x0A000001) = true ∧ m.isTrusted (mapped 0x0A000001) = false := by
  have hnew := (newIpFilter_static_iff [] ["10.0.0.0/8"] _).mpr
    ⟨by decide +kernel, by decide +kernel, rfl⟩
  refine ⟨hnew, by decide +kernel, by decide +kernel, some (buildTrieTree ["10.0.0.0/8"]),
    ⟨some (buildTrieTree ["10.0.0.0/8"]), "X-Forwarded-For"⟩, ?_⟩
  have hlan : inAllowList (some (buildTrieTree ["10.0.0.0/8"])) (.v4 0x0A000001) = true ∧
      inAllowList (some (buildTrieTree ["10.0.0.0/8"])) (mapped 0x0A000001) = false := by
    decide +kernel
  refine ⟨?_, ?_, hlan.1, hlan.2, rfl, by decide +kernel, by decide +kernel⟩
  swap
  · intro c hc
    rw [Country.Settings.inLan, Country.Settings.inLan, hc]
    exact hlan
  have hok := (newFromStrings_ok_iff (buildTrieTree ["10.0.0.0/8"]) _).mpr
    ⟨by decide +kernel, buildTrieTree_eq _⟩
  simp [buildLanAllowList, hok]

end Torii.Middleware
