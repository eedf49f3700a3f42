import Mathlib.Data.Set.Insert

/-!
# Tokens and their holders

A ledger makes tokens, one number after the other, and keeps in which slot each issued token is
held. A holder may be moved or dropped, and a token may be revoked. Only the holder of a token can
revoke it, so a token that is dropped before stays valid forever.
-/

@[ext] structure Ledger (I : Type*) where
  held : I → Option Nat
  created : Nat
  issued : Set Nat
  revoked : Set Nat

namespace Ledger

variable {I : Type*}

inductive Move (I : Type*) where
  /-- Make a token and revoke it at once. -/
  | spoil
  /-- Make a token that nobody gets. -/
  | waste
  /-- Make a token and put it into a slot. -/
  | issue (i : I)
  /-- Revoke the token in a slot. -/
  | revoke (i : I)
  /-- Move a token from one slot to another. -/
  | transfer (i j : I)
  /-- Empty a slot. -/
  | drop (i : I)

/-- A token is held in one slot at most, and only after it was issued. -/
structure WellFormed (L : Ledger I) : Prop where
  held_issued : ∀ {i t}, L.held i = some t → t ∈ L.issued
  issued_lt : ∀ {t}, t ∈ L.issued → t < L.created
  revoked_lt : ∀ {t}, t ∈ L.revoked → t < L.created
  exclusive : ∀ {i j t}, L.held i = some t → L.held j = some t → i = j

/-- Every valid token that was issued is still held. -/
def Kept (L : Ledger I) : Prop := ∀ t ∈ L.issued, t ∉ L.revoked → ∃ i, L.held i = some t

/-- The slots of a set hold valid tokens only. -/
def Live (S : Set I) (L : Ledger I) : Prop := ∀ i ∈ S, ∀ t, L.held i = some t → t ∉ L.revoked

/-- The token in a slot, if there is one, is not valid. -/
def Spent (L : Ledger I) (i : I) : Prop := ∀ t, L.held i = some t → t ∈ L.revoked

variable {L : Ledger I}

theorem WellFormed.created_not_issued (h : L.WellFormed) :
    L.created ∉ L.issued := fun hmem => Nat.lt_irrefl _ (h.issued_lt hmem)

theorem WellFormed.created_not_revoked (h : L.WellFormed) :
    L.created ∉ L.revoked := fun hmem => Nat.lt_irrefl _ (h.revoked_lt hmem)

theorem WellFormed.held_ne_created (h : L.WellFormed) {i : I} {t : Nat} (hheld : L.held i = some t)
    :
    t ≠ L.created := by
  rintro rfl
  exact h.created_not_issued (h.held_issued hheld)

theorem Live.diff {S : Set I} (h : Live S L) (i : I) : Live (S \ {i}) L :=
  fun j hj => h j hj.1

section

variable [DecidableEq I]

def apply (L : Ledger I) : Move I → Ledger I
  | .spoil => { L with created := L.created + 1, revoked := insert L.created L.revoked }
  | .waste => { L with created := L.created + 1 }
  | .issue i =>
    { L with
      created := L.created + 1
      issued := insert L.created L.issued
      held := Function.update L.held i (some L.created) }
  | .revoke i => { L with revoked := { t | L.held i = some t } ∪ L.revoked }
  | .transfer i j =>
    { L with held := Function.update (Function.update L.held i none) j (L.held i) }
  | .drop i => { L with held := Function.update L.held i none }

def applyAll (L : Ledger I) (moves : List (Move I)) : Ledger I := moves.foldl apply L

@[simp] theorem applyAll_nil (L : Ledger I) : L.applyAll [] = L := rfl

@[simp] theorem applyAll_cons (L : Ledger I) (move : Move I) (moves : List (Move I)) :
    L.applyAll (move :: moves) = (L.apply move).applyAll moves := rfl

theorem held_apply_issue (L : Ledger I) (i j : I) :
    (L.apply (.issue i)).held j = if j = i then some L.created else L.held j := by
  simp [apply, Function.update_apply]

@[simp] theorem held_apply_revoke (L : Ledger I) (i : I) :
    (L.apply (.revoke i)).held = L.held := rfl

theorem held_apply_drop (L : Ledger I) (i j : I) :
    (L.apply (.drop i)).held j = if j = i then none else L.held j := by
  simp [apply, Function.update_apply]

theorem held_apply_transfer (L : Ledger I) (i j k : I) :
    (L.apply (.transfer i j)).held k =
      if k = j then L.held i else if k = i then none else L.held k := by
  simp [apply, Function.update_apply]

variable {L : Ledger I} {S : Set I} {i : I}

theorem held_apply_drop_eq_some {j : I} {t : Nat} :
    (L.apply (.drop i)).held j = some t ↔ j ≠ i ∧ L.held j = some t := by
  rw [held_apply_drop]
  by_cases hji : j = i <;> simp [hji]

theorem held_apply_transfer_eq_some {j k : I} {t : Nat} :
    (L.apply (.transfer i j)).held k = some t ↔
      k = j ∧ L.held i = some t ∨ k ≠ j ∧ k ≠ i ∧ L.held k = some t := by
  rw [held_apply_transfer]
  by_cases hkj : k = j
  · simp [hkj]
  · by_cases hki : k = i <;> simp [hkj, hki]

/-- Step lemma: every move keeps the ledger well formed. -/
theorem WellFormed.apply (h : L.WellFormed) (move : Move I) : (L.apply move).WellFormed := by
  cases move with
  | spoil =>
    refine ⟨h.held_issued, fun ht => Nat.lt_succ_of_lt (h.issued_lt ht), ?_, h.exclusive⟩
    rintro t (rfl | ht)
    · exact Nat.lt_succ_self _
    · exact Nat.lt_succ_of_lt (h.revoked_lt ht)
  | waste =>
    exact ⟨h.held_issued, fun ht => Nat.lt_succ_of_lt (h.issued_lt ht),
      fun ht => Nat.lt_succ_of_lt (h.revoked_lt ht), h.exclusive⟩
  | issue i =>
    refine ⟨?_, ?_, fun ht => Nat.lt_succ_of_lt (h.revoked_lt ht), ?_⟩
    · intro j t hheld
      rw [held_apply_issue] at hheld
      split at hheld
      · exact .inl (Option.some.inj hheld).symm
      · exact .inr (h.held_issued hheld)
    · rintro t (rfl | ht)
      · exact Nat.lt_succ_self _
      · exact Nat.lt_succ_of_lt (h.issued_lt ht)
    · intro j k t hj hk
      rw [held_apply_issue] at hj hk
      split at hj <;> split at hk
      · next hji hki => rw [hji, hki]
      · exact absurd (Option.some.inj hj).symm (h.held_ne_created hk)
      · exact absurd (Option.some.inj hk).symm (h.held_ne_created hj)
      · exact h.exclusive hj hk
  | revoke i =>
    refine ⟨h.held_issued, h.issued_lt, ?_, h.exclusive⟩
    rintro t (ht | ht)
    · exact h.issued_lt (h.held_issued ht)
    · exact h.revoked_lt ht
  | transfer =>
    refine ⟨?_, h.issued_lt, h.revoked_lt, ?_⟩
    · intro k t hk
      obtain ⟨-, hi⟩ | ⟨-, -, hk⟩ := held_apply_transfer_eq_some.mp hk
      · exact h.held_issued hi
      · exact h.held_issued hk
    · intro k l t hk hl
      obtain ⟨hkj, hi⟩ | ⟨-, hki, hk⟩ := held_apply_transfer_eq_some.mp hk <;>
        obtain ⟨hlj, hi'⟩ | ⟨-, hli, hl⟩ := held_apply_transfer_eq_some.mp hl
      · rw [hkj, hlj]
      · exact absurd (h.exclusive hl hi) hli
      · exact absurd (h.exclusive hk hi') hki
      · exact h.exclusive hk hl
  | drop i =>
    refine ⟨?_, h.issued_lt, h.revoked_lt, ?_⟩
    · intro k t hk
      exact h.held_issued (held_apply_drop_eq_some.mp hk).2
    · intro k l t hk hl
      exact h.exclusive (held_apply_drop_eq_some.mp hk).2 (held_apply_drop_eq_some.mp hl).2

theorem WellFormed.applyAll (h : L.WellFormed) (moves : List (Move I)) :
    (L.applyAll moves).WellFormed := by
  induction moves generalizing L with
  | nil => exact h
  | cons move moves ih => exact ih (h.apply move)

/-! ## No valid token is lost -/

/-- What a move overwrites or empties is spent. -/
def Move.Safe (L : Ledger I) : Move I → Prop
  | .issue i => L.Spent i
  | .transfer i j => i ≠ j → L.Spent j
  | .drop i => L.Spent i
  | _ => True

/-- A move loses a valid token exactly when it is not safe. -/
theorem kept_apply_iff (h : L.WellFormed) (hkept : L.Kept) (move : Move I) :
    (L.apply move).Kept ↔ move.Safe L := by
  cases move with
  | waste => exact iff_of_true hkept trivial
  | spoil | revoke =>
    refine iff_of_true ?_ trivial
    intro t hissued hvalid
    exact hkept t hissued fun hrevoked => hvalid (.inr hrevoked)
  | issue i =>
    constructor
    · intro hafter t hheld
      by_contra hvalid
      obtain ⟨j, hj⟩ := hafter t (.inr (h.held_issued hheld)) hvalid
      rw [held_apply_issue] at hj
      split at hj
      · exact h.held_ne_created hheld (Option.some.inj hj).symm
      · next hji => exact hji (h.exclusive hj hheld)
    · rintro hspent t (rfl | hissued) hvalid
      · exact ⟨i, by rw [held_apply_issue, if_pos rfl]⟩
      · obtain ⟨j, hj⟩ := hkept t hissued hvalid
        refine ⟨j, ?_⟩
        rw [held_apply_issue, if_neg, hj]
        rintro rfl
        exact hvalid (hspent t hj)
  | transfer i j =>
    constructor
    · intro hafter hij t hheld
      by_contra hvalid
      obtain ⟨k, hk⟩ := hafter t (h.held_issued hheld) hvalid
      obtain ⟨-, hi⟩ | ⟨hkj, -, hk⟩ := held_apply_transfer_eq_some.mp hk
      · exact hij (h.exclusive hi hheld)
      · exact hkj (h.exclusive hk hheld)
    · intro hspent t hissued hvalid
      obtain ⟨k, hk⟩ := hkept t hissued hvalid
      by_cases hki : k = i
      · exact ⟨j, held_apply_transfer_eq_some.mpr (.inl ⟨rfl, hki ▸ hk⟩)⟩
      · refine ⟨k, held_apply_transfer_eq_some.mpr (.inr ⟨?_, hki, hk⟩)⟩
        rintro rfl
        exact hvalid (hspent (Ne.symm hki) t hk)
  | drop i =>
    constructor
    · intro hafter t hheld
      by_contra hvalid
      obtain ⟨j, hj⟩ := hafter t (h.held_issued hheld) hvalid
      obtain ⟨hji, hj⟩ := held_apply_drop_eq_some.mp hj
      exact hji (h.exclusive hj hheld)
    · intro hspent t hissued hvalid
      obtain ⟨j, hj⟩ := hkept t hissued hvalid
      refine ⟨j, held_apply_drop_eq_some.mpr ⟨?_, hj⟩⟩
      rintro rfl
      exact hvalid (hspent t hj)

theorem spent_apply_revoke (L : Ledger I) (i : I) : (L.apply (.revoke i)).Spent i :=
  fun _ ht => .inl ht

/-! ## Slots with valid tokens -/

theorem Live.spoil (h : Live S L) (hwf : L.WellFormed) : Live S (L.apply .spoil) := by
  rintro j hj t hheld (hnew | hrevoked)
  · exact hwf.held_ne_created hheld hnew
  · exact h j hj t hheld hrevoked

theorem Live.issue (h : Live (S \ {i}) L) (hwf : L.WellFormed) : Live S (L.apply (.issue i)) := by
  intro j hj t hheld
  rw [held_apply_issue] at hheld
  split at hheld
  · rw [← Option.some.inj hheld]
    exact hwf.created_not_revoked
  · next hji => exact h j ⟨hj, hji⟩ t hheld

theorem Live.revoke (h : Live S L) (hwf : L.WellFormed) (i : I) :
    Live (S \ {i}) (L.apply (.revoke i)) := by
  rintro j ⟨hj, hji⟩ t hheld (hheld' | hrevoked)
  · exact hji (hwf.exclusive hheld hheld')
  · exact h j hj t hheld hrevoked

theorem Live.drop (h : Live (S \ {i}) L) : Live S (L.apply (.drop i)) := by
  intro j hj t hheld
  obtain ⟨hji, hheld⟩ := held_apply_drop_eq_some.mp hheld
  exact h j ⟨hj, hji⟩ t hheld

theorem Live.transfer {j : I} (h : Live (S \ {i}) L)
    (hj : j ∈ S → ∀ t, L.held i = some t → t ∉ L.revoked) : Live S (L.apply (.transfer i j)) := by
  intro k hk t hheld
  obtain ⟨hkj, hi⟩ | ⟨-, hki, hheld⟩ := held_apply_transfer_eq_some.mp hheld
  · exact hj (hkj ▸ hk) t hi
  · exact h k ⟨hk, hki⟩ t hheld

end

end Ledger
