import Torii.Netutil.SubnetTrie

/-!
# Building a subnet trie from strings

`InsertFromString` reads an entry as a CIDR and then as a plain address. `NewSubnetTrieFromStrings`
stops at a bad entry, `buildTrieTree` skips it. An entry `/0` is lost, and takes the earlier entries
of its family with it (`insertAll_honours_iff`).
-/

namespace Torii.Netutil

open Go Go.Netip

inductive EntryError where
  | invalid (entry : String)
deriving DecidableEq

def EntryError.message : EntryError → String
  | .invalid entry => "invalid IP or CIDR: " ++ entry

/-- The error of `NewSubnetTrieFromStrings`: `failed to insert %q: %v`. -/
structure InsertError where
  entry : String
  cause : EntryError
deriving DecidableEq

namespace SubnetTrie

/-- `InsertIP`: a `/32` or a `/128`. -/
def insertIP (t : SubnetTrie) (addr : Addr) : SubnetTrie :=
  t.insert (.of addr (if addr.is4 then 32 else 128)
    (by cases addr <;> simp [Addr.bitLen, Addr.is4]))

def insertFromString (t : SubnetTrie) (ipOrCIDR : String) : Except EntryError SubnetTrie :=
  match parsePrefix ipOrCIDR with
  | some p => .ok (t.insert p)
  | none =>
    match parseAddr ipOrCIDR with
    | none => .error (.invalid ipOrCIDR)
    | some addr => .ok (t.insertIP addr)

/-- `ContainsFromString`; `none` is the parse error. -/
def containsFromString (t : SubnetTrie) (ipStr : String) : Option Bool :=
  (parseAddr ipStr).map t.contains

/-- The loop of `NewSubnetTrieFromStrings`. -/
def insertStrings (t : SubnetTrie) : List String → Except InsertError SubnetTrie
  | [] => .ok t
  | entry :: entries =>
    match t.insertFromString entry with
    | .error cause => .error ⟨entry, cause⟩
    | .ok t => t.insertStrings entries

def newFromStrings (entries : List String) : Except InsertError SubnetTrie :=
  new.insertStrings entries

end SubnetTrie

def entryPrefix (entry : String) : Option Prefix :=
  match parsePrefix entry with
  | some p => some p
  | none => (parseAddr entry).map fun addr => .of addr addr.bitLen (Nat.le_refl _)

namespace SubnetTrie

theorem insertFromString_eq (t : SubnetTrie) (entry : String) :
    t.insertFromString entry =
      match entryPrefix entry with
      | some p => .ok (t.insert p)
      | none => .error (.invalid entry) := by
  rw [insertFromString, entryPrefix]
  cases parsePrefix entry with
  | some p => rfl
  | none =>
    cases parseAddr entry with
    | none => rfl
    | some addr => cases addr <;> rfl

theorem insertStrings_ok_iff (t u : SubnetTrie) (entries : List String) :
    t.insertStrings entries = .ok u ↔
      (∀ entry ∈ entries, (entryPrefix entry).isSome) ∧
        u = (entries.filterMap entryPrefix).foldl insert t := by
  induction entries generalizing t with
  | nil =>
    simp only [insertStrings, Except.ok.injEq, List.not_mem_nil, false_implies, implies_true,
      List.filterMap_nil, List.foldl_nil, true_and]
    exact eq_comm
  | cons entry entries ih =>
    rw [insertStrings, insertFromString_eq]
    cases hp : entryPrefix entry with
    | none => simp [hp]
    | some p => simp [ih, hp]

theorem newFromStrings_ok_iff (u : SubnetTrie) (entries : List String) :
    newFromStrings entries = .ok u ↔
      (∀ entry ∈ entries, (entryPrefix entry).isSome) ∧
        u = insertAll (entries.filterMap entryPrefix) :=
  insertStrings_ok_iff new u entries

end SubnetTrie

/-- Each prefix of length zero is followed by longer prefixes of its family that together
hold every address of that family. -/
def ZeroLengthCovered (ps : List Prefix) : Prop :=
  ∀ earlier p later, ps = earlier ++ p :: later → p.bits = 0 →
    ∀ a : Addr, a.is4 = p.addr.is4 → ∃ q ∈ later, 1 ≤ q.bits ∧ q.contains a.withoutZone = true

theorem is4_of_contains {p : Prefix} {a : Addr} (h : p.contains a = true) :
    p.addr.is4 = a.is4 := by
  obtain ⟨addr, bits, hle⟩ := p
  cases addr <;> cases a <;> simp_all [Prefix.contains, Addr.is4]

theorem contains_of_bits_zero {p : Prefix} (hp : p.bits = 0) {a : Addr}
    (hfam : a.is4 = p.addr.is4) : p.contains a.withoutZone = true := by
  obtain ⟨addr, bits, hle⟩ := p
  subst hp
  have hagree : ∀ {w : Nat} (x y : BitVec w), Prefix.agree 0 x y = true :=
    fun x y => (Prefix.agree_iff (Nat.zero_le _) x y).mpr fun i hi => absurd hi (Nat.not_lt_zero i)
  cases addr <;> cases a <;> simp_all [Prefix.contains, Addr.withoutZone, Addr.is4]

private theorem exists_last {α : Type*} {P : α → Prop} {l : List α} (h : ∃ x ∈ l, P x) :
    ∃ earlier x later, l = earlier ++ x :: later ∧ P x ∧ ∀ y ∈ later, ¬ P y := by
  induction l with
  | nil => simp at h
  | cons x l ih =>
    by_cases hl : ∃ y ∈ l, P y
    · obtain ⟨earlier, y, later, rfl, hy, hlater⟩ := ih hl
      exact ⟨x :: earlier, y, later, rfl, hy, hlater⟩
    · have hx : P x := by
        obtain ⟨y, hy, hPy⟩ := h
        rcases List.mem_cons.mp hy with rfl | hy
        · exact hPy
        · exact absurd ⟨y, hy, hPy⟩ hl
      exact ⟨[], x, l, rfl, hx, fun y hy hPy => hl ⟨y, hy, hPy⟩⟩

private theorem eq_or_mem_of_split {α : Type*} {earlier before later after : List α} {x y : α}
    (h : earlier ++ x :: later = before ++ y :: after) : x = y ∨ y ∈ later ∨ x ∈ after := by
  obtain ⟨mid, -, hmid⟩ | ⟨mid, -, hmid⟩ := List.append_eq_append_iff.mp h
  · cases mid <;> simp_all
  · cases mid <;> simp_all

theorem insertAll_honours_iff (ps : List Prefix) :
    (∀ p ∈ ps, ∀ a : Addr, p.contains a.withoutZone = true →
        (SubnetTrie.insertAll ps).contains a = true) ↔ ZeroLengthCovered ps := by
  constructor
  · rintro h earlier p later rfl hp a hfam
    have hin := h p (by simp) a (contains_of_bits_zero hp hfam)
    obtain ⟨before, q, after, hsplit, hq, hmem, hafter⟩ :=
      (SubnetTrie.contains_insertAll _ a).mp hin
    -- the entry that answers stands after `p`, since no `/0` of the family follows it
    obtain rfl | hlater | hp' := eq_or_mem_of_split hsplit
    · omega
    · exact ⟨q, hlater, hq, hmem⟩
    · exact absurd hfam.symm (hafter p hp' hp)
  · intro hcov p hp a hmem
    rw [SubnetTrie.contains_insertAll]
    have hfam : p.addr.is4 = a.is4 := by simpa using is4_of_contains hmem
    by_cases hzero : ∃ z ∈ ps, z.bits = 0 ∧ z.addr.is4 = a.is4
    · obtain ⟨earlier, z, later, rfl, ⟨hz, hzfam⟩, hlast⟩ := exists_last hzero
      obtain ⟨q, hq, hqpos, hqmem⟩ := hcov earlier z later rfl hz a hzfam.symm
      obtain ⟨before, after, rfl⟩ := List.append_of_mem hq
      refine ⟨earlier ++ z :: before, q, after, by simp, hqpos, hqmem, ?_⟩
      intro r hr hr0 hrfam
      exact hlast r (by simp [hr]) ⟨hr0, hrfam⟩
    · obtain ⟨before, after, rfl⟩ := List.append_of_mem hp
      have hno : ∀ z ∈ before ++ p :: after, z.bits = 0 → z.addr.is4 ≠ a.is4 :=
        fun z hz hz0 hzfam => hzero ⟨z, hz, hz0, hzfam⟩
      refine ⟨before, p, after, rfl, ?_, hmem, fun r hr => hno r (by simp [hr])⟩
      by_contra hpos
      exact hno p hp (by omega) hfam

end Torii.Netutil
