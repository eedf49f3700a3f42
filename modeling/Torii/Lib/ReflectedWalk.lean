import Mathlib.Data.List.Infix
import Mathlib.Algebra.Order.Group.Int

/-!
# Walks that stay above zero

A walk goes one up or one down and stays at zero instead of going below. It has reached `k` exactly
when some last part of it has `k` more steps up than down.
-/

namespace ReflectedWalk

def step (c : Int) (up : Bool) : Int := if up then c + 1 else max (c - 1) 0

/-- Where a walk that starts at zero ends. -/
def walk (w : List Bool) : Int := w.foldl step 0

/-- By how much the steps up outnumber those down. -/
def excess (w : List Bool) : Int := w.count true - w.count false

@[simp] theorem walk_nil : walk [] = 0 := rfl

variable (w : List Bool)

@[simp] theorem walk_concat (up : Bool) : walk (w ++ [up]) = step (walk w) up := by
  simp [walk]

@[simp] theorem excess_nil : excess [] = 0 := rfl

@[simp] theorem excess_concat_true : excess (w ++ [true]) = excess w + 1 := by
  simp [excess]
  omega

@[simp] theorem excess_concat_false : excess (w ++ [false]) = excess w - 1 := by
  simp [excess]
  omega

theorem walk_nonneg : 0 ≤ walk w := by
  induction w using List.reverseRecOn with
  | nil => exact Int.le_refl 0
  | append_singleton w up ih =>
    rw [walk_concat, step]
    split
    · omega
    · exact Int.le_max_right _ _

theorem le_walk_iff {w : List Bool} {k : Int} (hk : 0 < k) :
    k ≤ walk w ↔ ∃ u, u <:+ w ∧ k ≤ excess u := by
  induction w using List.reverseRecOn generalizing k with
  | nil =>
    rw [walk_nil]
    constructor
    · intro h
      omega
    · rintro ⟨u, hu, h⟩
      rwa [List.suffix_nil.mp hu, excess_nil] at h
  | append_singleton w up ih =>
    have hsuffix : (∃ u, u <:+ w ++ [up] ∧ k ≤ excess u) ↔
        ∃ u, u <:+ w ∧ k ≤ excess (u ++ [up]) := by
      constructor
      · rintro ⟨u, hu, h⟩
        obtain rfl | ⟨t, rfl, ht⟩ := List.suffix_concat_iff.mp hu
        · rw [excess_nil] at h
          omega
        · exact ⟨t, ht, h⟩
      · rintro ⟨u, hu, h⟩
        exact ⟨u ++ [up], List.suffix_concat_iff.mpr (.inr ⟨u, rfl, hu⟩), h⟩
    rw [hsuffix, walk_concat]
    cases up with
    | true =>
      have hstep : step (walk w) true = walk w + 1 := rfl
      simp only [hstep, excess_concat_true]
      by_cases hone : k = 1
      · have hpos := walk_nonneg w
        exact iff_of_true (by omega) ⟨[], List.nil_suffix, by simp [hone]⟩
      · have h := ih (k := k - 1) (by omega)
        constructor
        · intro hle
          obtain ⟨u, hu, hexcess⟩ := h.mp (by omega)
          exact ⟨u, hu, by omega⟩
        · rintro ⟨u, hu, hexcess⟩
          have := h.mpr ⟨u, hu, by omega⟩
          omega
    | false =>
      have hstep : step (walk w) false = max (walk w - 1) 0 := rfl
      have h := ih (k := k + 1) (by omega)
      simp only [hstep, excess_concat_false]
      constructor
      · intro hle
        obtain ⟨u, hu, hexcess⟩ := h.mp (by omega)
        exact ⟨u, hu, by omega⟩
      · rintro ⟨u, hu, hexcess⟩
        have := h.mpr ⟨u, hu, by omega⟩
        omega

end ReflectedWalk
