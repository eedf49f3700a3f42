import Torii.Go.Http
import Torii.Netutil.SubnetEntries

/-!
# Trusted proxies

`Matcher` of `internal/trustedproxy` and its construction from a list of addresses and CIDRs. The
atomic pointer to the trie is an `Option`: a matcher that was never stored to trusts nothing.
-/

namespace Torii.TrustedProxy

open Go Go.Netip Torii.Netutil SubnetTrie

structure Matcher where
  trusted : Option SubnetTrie
  header : String

def Matcher.isTrusted (m : Matcher) (addr : Addr) : Bool :=
  match m.trusted with
  | none => false
  | some trie => trie.contains addr

inductive ResolverError where
  | noValidCIDRs
deriving DecidableEq

def ResolverError.message : ResolverError → String
  | .noValidCIDRs => "no valid trusted proxy CIDRs provided"

/-- `buildTrieTree`: an invalid entry is logged and skipped. -/
def buildTrieTree (cidrs : List String) : SubnetTrie :=
  cidrs.foldl (fun trie cidr =>
    match trie.insertFromString cidr with
    | .error _ => trie
    | .ok trie => trie) .new

def newTrustedProxyResolver (cidrs : List String) (header : String) :
    Except ResolverError Matcher :=
  let trie := buildTrieTree cidrs
  if trie.isEmpty then .error .noValidCIDRs
  else .ok ⟨some trie, if header = "" then "X-Forwarded-For" else header⟩

theorem buildTrieTree_eq (cidrs : List String) :
    buildTrieTree cidrs = .insertAll (cidrs.filterMap entryPrefix) := by
  have hrun : ∀ t : SubnetTrie, cidrs.foldl (fun trie cidr =>
      match trie.insertFromString cidr with
      | .error _ => trie
      | .ok trie => trie) t = (cidrs.filterMap entryPrefix).foldl insert t := by
    induction cidrs with
    | nil => intro t; rfl
    | cons cidr cidrs ih =>
      intro t
      rw [List.foldl_cons, insertFromString_eq]
      cases hp : entryPrefix cidr with
      | none | some => simp [hp, ih]
  exact hrun .new

def InSomeEntry (entries : List String) (a : Addr) : Prop :=
  ∃ entry ∈ entries, ∃ p, entryPrefix entry = some p ∧ p.contains a.withoutZone = true

theorem exists_mem_prefix (p : Prefix) : ∃ a : Addr, p.contains a.withoutZone = true := by
  have hagree : ∀ {w : Nat} (n : Nat) (x : BitVec w), Prefix.agree n x x = true := by
    simp [Prefix.agree]
  obtain ⟨addr, bits, hle⟩ := p
  refine ⟨addr, ?_⟩
  cases addr <;> simp [Prefix.contains, Addr.withoutZone, hagree]

theorem inSomeEntry_of_contains {entries : List String} {a : Addr}
    (h : (SubnetTrie.insertAll (entries.filterMap entryPrefix)).contains a = true) :
    InSomeEntry entries a := by
  obtain ⟨earlier, p, later, hsplit, -, hmem, -⟩ := (contains_insertAll _ a).mp h
  have hp : p ∈ entries.filterMap entryPrefix := by simp [hsplit]
  obtain ⟨entry, hentry, hpfx⟩ := List.mem_filterMap.mp hp
  exact ⟨entry, hentry, p, hpfx, hmem⟩

/-- For a list that `NewSubnetTrieFromStrings` accepts: every address of every entry is
found, a non-empty list gives a non-empty trie, and a trusted-proxy resolver for it exists
and trusts exactly those addresses. All this holds exactly when the entries `/0` are
covered by later entries. -/
theorem newTrustedProxyResolver_honours_iff {entries : List String} {t : SubnetTrie}
    (ht : SubnetTrie.newFromStrings entries = .ok t) (header : String) :
    ((∀ entry ∈ entries, ∀ p, entryPrefix entry = some p →
        ∀ a : Addr, p.contains a.withoutZone = true → t.contains a = true) ∧
      (entries ≠ [] → t.isEmpty = false) ∧
      (entries ≠ [] → ∃ m, newTrustedProxyResolver entries header = .ok m ∧
        ∀ a : Addr, m.isTrusted a = true ↔ InSomeEntry entries a)) ↔
      ZeroLengthCovered (entries.filterMap entryPrefix) := by
  obtain ⟨hvalid, rfl⟩ := (newFromStrings_ok_iff t entries).mp ht
  rw [← insertAll_honours_iff]
  constructor
  · rintro ⟨hall, -, -⟩ p hp
    obtain ⟨entry, hentry, hpfx⟩ := List.mem_filterMap.mp hp
    exact hall entry hentry p hpfx
  · intro hall
    have hfound : ∀ entry ∈ entries, ∀ p, entryPrefix entry = some p →
        ∀ a : Addr, p.contains a.withoutZone = true →
          (insertAll (entries.filterMap entryPrefix)).contains a = true :=
      fun entry hentry p hpfx => hall p (List.mem_filterMap.mpr ⟨entry, hentry, hpfx⟩)
    have hempty : entries ≠ [] →
        (insertAll (entries.filterMap entryPrefix)).isEmpty = false := by
      intro hne
      obtain ⟨entry, rest, rfl⟩ := List.exists_cons_of_ne_nil hne
      obtain ⟨p, hp⟩ := Option.isSome_iff_exists.mp (hvalid entry (by simp))
      obtain ⟨a, ha⟩ := exists_mem_prefix p
      by_contra hemp
      have hno := contains_of_isEmpty (Bool.of_not_eq_false hemp) a
      rw [hfound entry (by simp) p hp a ha] at hno
      cases hno
    refine ⟨hfound, hempty, ?_⟩
    intro hne
    refine ⟨⟨some (.insertAll (entries.filterMap entryPrefix)),
      if header = "" then "X-Forwarded-For" else header⟩, ?_, ?_⟩
    · simp [newTrustedProxyResolver, buildTrieTree_eq, hempty hne]
    · intro a
      constructor
      · exact inSomeEntry_of_contains
      · rintro ⟨entry, hentry, p, hpfx, hmem⟩
        exact hfound entry hentry p hpfx a hmem

/-- A private network and one address, none of length zero. -/
theorem newTrustedProxyResolver_honours_lan :
    ∃ t, SubnetTrie.newFromStrings ["192.168.0.0/16", "fd00::1"] = .ok t ∧
      ((∀ entry ∈ ["192.168.0.0/16", "fd00::1"], ∀ p, entryPrefix entry = some p →
          ∀ a : Addr, p.contains a.withoutZone = true → t.contains a = true) ∧
        t.isEmpty = false ∧
        ∃ m, newTrustedProxyResolver ["192.168.0.0/16", "fd00::1"] "" = .ok m ∧
          ∀ a : Addr, m.isTrusted a = true ↔ InSomeEntry ["192.168.0.0/16", "fd00::1"] a) := by
  have hpos : ∀ p ∈ ["192.168.0.0/16", "fd00::1"].filterMap entryPrefix, p.bits ≠ 0 := by
    decide +kernel
  obtain ⟨t, ht⟩ : ∃ t, newFromStrings ["192.168.0.0/16", "fd00::1"] = .ok t :=
    ⟨_, (newFromStrings_ok_iff _ _).mpr ⟨by decide +kernel, rfl⟩⟩
  obtain ⟨hfound, hempty, hresolver⟩ := (newTrustedProxyResolver_honours_iff ht "").mpr
    fun _ p _ hsplit hp => absurd hp (hpos p (by rw [hsplit]; simp))
  exact ⟨t, ht, hfound, hempty (by simp), hresolver (by simp)⟩

/-- The list of the single entry `0.0.0.0/0` is accepted and then holds nothing: no address
is found, the trie is empty, and no resolver is made. -/
theorem zeroLength_entry_lost :
    ∃ t p, SubnetTrie.newFromStrings ["0.0.0.0/0"] = .ok t ∧
      entryPrefix "0.0.0.0/0" = some p ∧ p.contains (.v4 0xCB007107) = true ∧
      t.contains (.v4 0xCB007107) = false ∧ t.isEmpty = true ∧
      newTrustedProxyResolver ["0.0.0.0/0"] "" = .error .noValidCIDRs := by
  have hentry : entryPrefix "0.0.0.0/0" = some ⟨.v4 0, 0, by decide⟩ := by decide +kernel
  refine ⟨.insertAll [⟨.v4 0, 0, by decide⟩], ⟨.v4 0, 0, by decide⟩, ?_, hentry, ?_⟩
  · rw [newFromStrings_ok_iff]
    simp [hentry]
  · rw [newTrustedProxyResolver, buildTrieTree_eq]
    have hempty : (insertAll [⟨.v4 0, 0, by decide⟩]).isEmpty = true := by
      decide +kernel
    simp only [List.filterMap_cons, List.filterMap_nil, hentry, hempty, if_true, and_true]
    decide +kernel

end Torii.TrustedProxy
