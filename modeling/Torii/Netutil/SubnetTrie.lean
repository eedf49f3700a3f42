import Mathlib.Data.List.Induction
import Torii.Go.Netip

/-!
# The subnet trie

`internal/netutil/subnet_trie.go` keeps two binary tries, one per address family. An insertion stops
at a terminal node, and drops the subtree below the node that it makes terminal. The root is never
tested, so an insertion of length zero only empties its family.
-/

namespace Torii.Netutil

open Go Go.Netip

/-- `*trieNode`: the nil pointer, or a node with its two children. -/
inductive TrieNode where
  | nil
  | node (terminal : Bool) (zero one : TrieNode)
deriving DecidableEq

namespace TrieNode

/-- `&trieNode{}`. -/
def new : TrieNode := .node false .nil .nil

/-- The field `terminal`; a nil pointer is never asked. -/
def terminal : TrieNode → Bool
  | .nil => false
  | .node terminal _ _ => terminal

def child : TrieNode → Bool → TrieNode
  | .nil, _ => .nil
  | .node _ zero one, bit => if bit then one else zero

def setChild : TrieNode → Bool → TrieNode → TrieNode
  | .nil, _, _ => .nil
  | .node terminal zero one, bit, c => if bit then .node terminal zero c else .node terminal c one

def childOrNew (t : TrieNode) (bit : Bool) : TrieNode :=
  match t.child bit with
  | .nil => new
  | c => c

def insert : TrieNode → List Bool → TrieNode
  | _, [] => .node true .nil .nil
  | t, bit :: bits =>
    let node := t.childOrNew bit
    -- a broader subnet already covers this range
    if node.terminal then t.setChild bit node else t.setChild bit (node.insert bits)

def contains : TrieNode → List Bool → Bool
  | _, [] => false
  | t, bit :: bits =>
    match t.child bit with
    | .nil => false
    | c => if c.terminal then true else c.contains bits

/-- Everything below a terminal node is in the set, as is everything its children hold. -/
def covers (t : TrieNode) (bits : List Bool) : Bool := t.terminal || t.contains bits

/-- The child that `insert` leaves under `bit` when `path` remains below it. -/
def descend (t : TrieNode) (bit : Bool) (path : List Bool) : TrieNode :=
  if (t.childOrNew bit).terminal then t.childOrNew bit else (t.childOrNew bit).insert path

variable (t : TrieNode) (bit : Bool) (bits : List Bool)

theorem insert_cons (path : List Bool) :
    t.insert (bit :: path) = t.setChild bit (t.descend bit path) := by
  rw [insert, descend]
  split <;> simp_all

theorem contains_cons : t.contains (bit :: bits) = (t.child bit).covers bits := by
  rw [contains, covers]
  split
  · next h =>
    rw [h]
    cases bits <;> rfl
  · cases (t.child bit).terminal <;> simp

theorem covers_childOrNew : (t.childOrNew bit).covers bits = t.contains (bit :: bits) := by
  rw [contains_cons, childOrNew]
  split
  · next h =>
    rw [h]
    cases bits with
    | nil => rfl
    | cons b bits => cases b <;> rfl
  · rfl

theorem childOrNew_ne_nil : t.childOrNew bit ≠ .nil := by
  unfold childOrNew
  split
  · simp [new]
  · next h => exact h

theorem terminal_setChild (c : TrieNode) : (t.setChild bit c).terminal = t.terminal := by
  cases t <;> cases bit <;> rfl

theorem setChild_ne_nil {t : TrieNode} (ht : t ≠ .nil) (bit : Bool) (c : TrieNode) :
    t.setChild bit c ≠ .nil := by
  cases t with
  | nil => exact absurd rfl ht
  | node => cases bit <;> simp [setChild]

theorem contains_setChild {t : TrieNode} (ht : t ≠ .nil) (bit b : Bool) (c : TrieNode)
    (bits : List Bool) :
    (t.setChild bit c).contains (b :: bits) =
      if b = bit then c.covers bits else t.contains (b :: bits) := by
  simp only [contains_cons]
  cases t with
  | nil => exact absurd rfl ht
  | node => cases bit <;> cases b <;> rfl

theorem insert_ne_nil {t : TrieNode} (ht : t ≠ .nil) (path : List Bool) :
    t.insert path ≠ .nil := by
  cases path with
  | nil => simp [insert]
  | cons => rw [insert_cons]; exact setChild_ne_nil ht _ _

theorem covers_descend (path bits : List Bool) :
    (t.descend bit path).covers bits = (path.isPrefixOf bits || t.contains (bit :: bits)) := by
  induction path generalizing t bit bits with
  | nil =>
    rw [descend]
    split
    · next hterm => simp [covers, hterm]
    · simp [insert, covers, terminal]
  | cons next path ih =>
    have hold := covers_childOrNew t bit bits
    rw [descend]
    split
    · next hterm =>
      -- the early return: the broader prefix already covers every extension
      have hall : (t.childOrNew bit).covers bits = true := by simp [covers, hterm]
      rw [← hold, hall, Bool.or_true]
    · next hterm =>
      rw [Bool.not_eq_true] at hterm
      rw [← hold, insert_cons, covers, terminal_setChild, hterm, Bool.false_or, covers, hterm,
        Bool.false_or]
      cases bits with
      | nil => rfl
      | cons b bits =>
        rw [contains_setChild (childOrNew_ne_nil t bit), ih]
        by_cases hb : b = next
        · subst hb
          simp [List.isPrefixOf]
        · simp [hb, Ne.symm hb, List.isPrefixOf]

theorem contains_insert {t : TrieNode} (ht : t ≠ .nil) {path : List Bool} (hpath : path ≠ [])
    (bits : List Bool) :
    (t.insert path).contains bits = (path.isPrefixOf bits || t.contains bits) := by
  cases path with
  | nil => exact absurd rfl hpath
  | cons bit path =>
    cases bits with
    | nil => rfl
    | cons b bits =>
      rw [insert_cons, contains_setChild ht, covers_descend]
      by_cases hb : b = bit
      · subst hb
        simp [List.isPrefixOf]
      · simp [hb, Ne.symm hb, List.isPrefixOf]

theorem contains_insert_nil : (t.insert []).contains bits = false := by
  cases bits with
  | nil => rfl
  | cons b bits => cases b <;> rfl

theorem contains_of_children_nil {t : TrieNode} (hzero : t.child false = .nil)
    (hone : t.child true = .nil) (bits : List Bool) : t.contains bits = false := by
  cases bits with
  | nil => rfl
  | cons b bits => cases b <;> simp [contains, hzero, hone]

end TrieNode

/-- `SubnetTrie`: both roots are allocated once and never replaced. -/
structure SubnetTrie where
  v4 : TrieNode
  v6 : TrieNode
  v4_ne_nil : v4 ≠ .nil
  v6_ne_nil : v6 ≠ .nil

namespace SubnetTrie

/-- `NewSubnetTrie`. -/
def new : SubnetTrie := ⟨.new, .new, by simp [TrieNode.new], by simp [TrieNode.new]⟩

def insert (t : SubnetTrie) (p : Prefix) : SubnetTrie :=
  match p.masked.addr with
  | .v4 a =>
    { t with
      v4 := t.v4.insert (bitsOf (bytes a) p.masked.bits)
      v4_ne_nil := TrieNode.insert_ne_nil t.v4_ne_nil _ }
  | .v6 a _ =>
    { t with
      v6 := t.v6.insert (bitsOf (bytes a) p.masked.bits)
      v6_ne_nil := TrieNode.insert_ne_nil t.v6_ne_nil _ }

def contains (t : SubnetTrie) (addr : Addr) : Bool :=
  match addr with
  | .v4 a => t.v4.contains (bitsOf (bytes a) ((bytes a).length * 8))
  | .v6 a _ => t.v6.contains (bitsOf (bytes a) ((bytes a).length * 8))

def isEmpty (t : SubnetTrie) : Bool :=
  t.v4.child false = .nil && t.v4.child true = .nil &&
    t.v6.child false = .nil && t.v6.child true = .nil

/-- The insertions of a whole list, from the empty trie. -/
def insertAll (ps : List Prefix) : SubnetTrie := ps.foldl insert new

theorem contains_new (a : Addr) : new.contains a = false := by
  cases a <;> exact TrieNode.contains_of_children_nil rfl rfl _

theorem contains_of_isEmpty {t : SubnetTrie} (h : t.isEmpty = true) (a : Addr) :
    t.contains a = false := by
  simp only [isEmpty, Bool.and_eq_true, decide_eq_true_iff] at h
  obtain ⟨⟨⟨h40, h41⟩, h60⟩, h61⟩ := h
  cases a with
  | v4 a => exact TrieNode.contains_of_children_nil h40 h41 _
  | v6 => exact TrieNode.contains_of_children_nil h60 h61 _

theorem contains_insert_of_pos (t : SubnetTrie) {p : Prefix} (hp : 1 ≤ p.bits) (a : Addr) :
    (t.insert p).contains a = (p.contains a.withoutZone || t.contains a) := by
  obtain ⟨addr, bits, hle⟩ := p
  have hpath : ∀ raw, bitsOf raw bits ≠ [] := by
    intro raw h
    have hlen := congrArg List.length h
    simp only [length_bitsOf, List.length_nil] at hlen
    exact absurd hlen (Nat.ne_of_gt hp)
  cases addr with
  | v4 b =>
    cases a with
    | v4 a =>
      have hbits := Prefix.isPrefixOf_bitsOf (w := 32) (by decide) hle b a
      simpa [insert, contains, Prefix.masked, Prefix.contains, Addr.withoutZone,
        TrieNode.contains_insert t.v4_ne_nil (hpath _)] using congrArg (· || _) hbits
    | v6 => simp [insert, contains, Prefix.masked, Prefix.contains, Addr.withoutZone]
  | v6 b pzone =>
    cases a with
    | v4 a => simp [insert, contains, Prefix.masked, Prefix.contains, Addr.withoutZone]
    | v6 a zone =>
      have hbits := Prefix.isPrefixOf_bitsOf (w := 128) (by decide) hle b a
      simpa [insert, contains, Prefix.masked, Prefix.contains, Addr.withoutZone,
        TrieNode.contains_insert t.v6_ne_nil (hpath _)] using congrArg (· || _) hbits

theorem contains_insert_of_zero (t : SubnetTrie) {p : Prefix} (hp : p.bits = 0) (a : Addr) :
    (t.insert p).contains a = (p.addr.is4 != a.is4 && t.contains a) := by
  obtain ⟨addr, bits, hle⟩ := p
  subst hp
  cases addr <;> cases a <;>
    simp [insert, contains, Prefix.masked, Addr.is4, bitsOf, TrieNode.contains_insert_nil]

theorem exists_split_concat {α : Type*} (P Q : α → Prop) (xs : List α) (last : α) :
    (∃ earlier x later, xs ++ [last] = earlier ++ x :: later ∧ P x ∧ ∀ y ∈ later, Q y) ↔
      P last ∨
        Q last ∧ ∃ earlier x later, xs = earlier ++ x :: later ∧ P x ∧ ∀ y ∈ later, Q y := by
  constructor
  · rintro ⟨earlier, x, later, hsplit, hx, hlater⟩
    obtain rfl | ⟨later, y, rfl⟩ := List.eq_nil_or_concat later
    · obtain ⟨-, hlast⟩ := List.append_inj' hsplit rfl
      obtain rfl : last = x := by simpa using hlast
      exact .inl hx
    · have hsplit' : xs ++ [last] = (earlier ++ x :: later) ++ [y] := by simpa using hsplit
      obtain ⟨hxs, hlast⟩ := List.append_inj' hsplit' rfl
      obtain rfl : last = y := by simpa using hlast
      exact .inr ⟨hlater last (by simp), earlier, x, later, hxs, hx,
        fun y hy => hlater y (by simp [hy])⟩
  · rintro (hlast | ⟨hlast, earlier, x, later, rfl, hx, hlater⟩)
    · exact ⟨xs, last, [], rfl, hlast, by simp⟩
    · refine ⟨earlier, x, later ++ [last], by simp, hx, ?_⟩
      intro y hy
      obtain hy | hy := List.mem_append.mp hy
      · exact hlater y hy
      · rwa [List.mem_singleton.mp hy]

theorem contains_insertAll (ps : List Prefix) (a : Addr) :
    (insertAll ps).contains a = true ↔
      ∃ earlier p later, ps = earlier ++ p :: later ∧ 1 ≤ p.bits ∧
        p.contains a.withoutZone = true ∧ ∀ q ∈ later, q.bits = 0 → q.addr.is4 ≠ a.is4 := by
  induction ps using List.reverseRecOn with
  | nil => simp [insertAll, contains_new]
  | append_singleton ps last ih =>
    have hstep : insertAll (ps ++ [last]) = (insertAll ps).insert last := by
      simp [insertAll]
    have hsplit := exists_split_concat
      (fun p : Prefix => 1 ≤ p.bits ∧ p.contains a.withoutZone = true)
      (fun q => q.bits = 0 → q.addr.is4 ≠ a.is4) ps last
    simp only [and_assoc] at hsplit
    rw [hstep, hsplit, ← ih]
    by_cases hpos : 1 ≤ last.bits
    · have hne : last.bits ≠ 0 := by omega
      rw [contains_insert_of_pos _ hpos, Bool.or_eq_true]
      simp only [hpos, hne, true_and, false_implies]
    · have hzero : last.bits = 0 := by omega
      rw [contains_insert_of_zero _ hzero, Bool.and_eq_true, bne_iff_ne]
      simp [hzero]

/-- Without prefixes of length zero the trie is the set of the inserted prefixes, so the
order of the insertions does not matter. The walk reads only bits, so a zone is ignored. -/
theorem contains_insertAll_eq_set (ps : List Prefix) (hbits : ∀ p ∈ ps, 1 ≤ p.bits) :
    (∀ a : Addr, (insertAll ps).contains a = true ↔
      ∃ p ∈ ps, p.contains a.withoutZone = true) ∧
    ∀ qs : List Prefix, qs.Perm ps →
      ∀ a : Addr, (insertAll qs).contains a = (insertAll ps).contains a := by
  have hset : ∀ qs : List Prefix, (∀ p ∈ qs, 1 ≤ p.bits) → ∀ a : Addr,
      (insertAll qs).contains a = true ↔ ∃ p ∈ qs, p.contains a.withoutZone = true := by
    intro qs hqs a
    rw [contains_insertAll]
    constructor
    · rintro ⟨earlier, p, later, rfl, -, hmem, -⟩
      exact ⟨p, by simp, hmem⟩
    · rintro ⟨p, hp, hmem⟩
      obtain ⟨earlier, later, rfl⟩ := List.append_of_mem hp
      refine ⟨earlier, p, later, rfl, hqs p hp, hmem, ?_⟩
      intro q hq hq0
      have := hqs q (by simp [hq])
      omega
  refine ⟨hset ps hbits, ?_⟩
  intro qs hperm a
  rw [Bool.eq_iff_iff, hset ps hbits, hset qs fun p hp => hbits p (hperm.mem_iff.mp hp)]
  simp only [hperm.mem_iff]

/-- Nested IPv4 prefixes and one IPv6 prefix, the narrow one inserted before the broad one. -/
theorem contains_nested_eq_set :
    let ps : List Prefix := [⟨.v4 0x0A010000, 16, by decide⟩, ⟨.v4 0x0A000000, 8, by decide⟩,
      ⟨.v6 0xFD000000000000000000000000000000 "", 8, by decide⟩]
    (∀ p ∈ ps, 1 ≤ p.bits) ∧ (insertAll ps).contains (.v4 0x0A020304) = true ∧
      (∀ a : Addr, (insertAll ps).contains a = true ↔
        ∃ p ∈ ps, p.contains a.withoutZone = true) ∧
      ∀ qs : List Prefix, qs.Perm ps →
        ∀ a : Addr, (insertAll qs).contains a = (insertAll ps).contains a :=
  ⟨by decide, by decide +kernel, contains_insertAll_eq_set _ (by decide)⟩

end SubnetTrie

end Torii.Netutil
