import Mathlib.Algebra.Order.Field.Basic
import Mathlib.Tactic.Linarith
import Mathlib.Tactic.Ring

/-!
# Token buckets

A bucket holds tokens up to a burst and gains them at a constant rate. A call takes one token if
there is one. Time and tokens are in an ordered field, so the bucket is exact.
-/

/-- The tokens of a bucket at the time of the last allowed call. -/
structure TokenBucket (K : Type*) where
  tokens : K
  last : K

namespace TokenBucket

variable {K : Type*} [Field K] [LinearOrder K]

def full (burst : K) : TokenBucket K := ⟨burst, 0⟩

def level (rate burst : K) (B : TokenBucket K) (t : K) : K :=
  min burst (B.tokens + rate * max (t - B.last) 0)

def allow (rate burst : K) (B : TokenBucket K) (t : K) : Bool × TokenBucket K :=
  if 1 ≤ B.level rate burst t then (true, ⟨B.level rate burst t - 1, t⟩) else (false, B)

variable [IsStrictOrderedRing K] {rate burst : K} {B B' : TokenBucket K} {t t' : K}

/-! ## The level -/

omit [IsStrictOrderedRing K] in
theorem level_le_burst (B : TokenBucket K) (rate burst t : K) :
    B.level rate burst t ≤ burst :=
  min_le_left _ _

theorem level_le_add (B : TokenBucket K) (burst : K) (hrate : 0 ≤ rate) (h : t ≤ t') :
    B.level rate burst t' ≤ B.level rate burst t + rate * (t' - t) := by
  have hgain : 0 ≤ rate * (t' - t) := mul_nonneg hrate (sub_nonneg.mpr h)
  have helapsed : max (t' - B.last) 0 ≤ max (t - B.last) 0 + (t' - t) := by
    apply max_le
    · linarith [le_max_left (t - B.last) 0]
    · linarith [le_max_right (t - B.last) 0]
  rw [level, level, ← min_add_add_right]
  apply min_le_min
  · linarith
  · linarith [mul_le_mul_of_nonneg_left helapsed hrate]

theorem level_eq_burst (hB : 0 ≤ B.tokens) (hrate : 0 ≤ rate)
    (h : burst ≤ rate * (t - B.last)) : B.level rate burst t = burst := by
  apply min_eq_left
  have := mul_le_mul_of_nonneg_left (le_max_left (t - B.last) 0) hrate
  linarith

@[simp] theorem level_full (hrate : 0 ≤ rate) : (full burst).level rate burst t = burst := by
  apply min_eq_left
  have := mul_nonneg hrate (le_max_right (t - (full burst).last) 0)
  simp only [full] at this ⊢
  linarith

omit [IsStrictOrderedRing K] in
theorem allow_of_le (h : 1 ≤ B.level rate burst t) :
    B.allow rate burst t = (true, ⟨B.level rate burst t - 1, t⟩) := if_pos h

omit [IsStrictOrderedRing K] in
theorem allow_of_lt (h : B.level rate burst t < 1) : B.allow rate burst t = (false, B) :=
  if_neg (not_le.mpr h)

theorem level_allow (h : 1 ≤ B.level rate burst t) :
    (B.allow rate burst t).2.level rate burst t = B.level rate burst t - 1 := by
  rw [allow_of_le h, level]
  simp only [sub_self, max_self, mul_zero, add_zero]
  exact min_eq_right (by linarith [B.level_le_burst rate burst t])

theorem tokens_allow_nonneg (hB : 0 ≤ B.tokens) : 0 ≤ (B.allow rate burst t).2.tokens := by
  rw [allow]
  split
  · next h => exact sub_nonneg.mpr h
  · exact hB

omit [IsStrictOrderedRing K] in
theorem last_allow_le {bound : K} (hlast : B.last ≤ bound) (ht : t ≤ bound) :
    (B.allow rate burst t).2.last ≤ bound := by
  rw [allow]
  split
  · exact ht
  · exact hlast

theorem level_allow_le (B : TokenBucket K) (rate burst t : K) :
    (B.allow rate burst t).2.level rate burst t ≤ B.level rate burst t := by
  by_cases h : 1 ≤ B.level rate burst t
  · rw [level_allow h]
    linarith
  · rw [allow_of_lt (not_le.mp h)]

/-! ## Windows -/

/-- At `now`, when `n` calls were allowed so far in the window of the given start and length. -/
structure Window (rate burst start len : K) (B : TokenBucket K) (now : K) (n : Nat) : Prop where
  nonneg : 0 ≤ B.tokens
  before : now < start → n = 0
  within : start ≤ now → now ≤ start + len →
    n + B.level rate burst now ≤ burst + rate * (now - start)
  bound : (n : K) ≤ burst + rate * len

def inWindow (start len t : K) : Bool := start ≤ t && t ≤ start + len

namespace Window

variable {start len now : K} {n : Nat}

theorem of_full (hrate : 0 ≤ rate) (hburst : 0 ≤ burst) (hlen : 0 ≤ len) :
    Window rate burst start len (full burst) now 0 := by
  have hgain := mul_nonneg hrate hlen
  refine ⟨hburst, fun _ => rfl, fun hstart _ => ?_, ?_⟩
  · have := mul_nonneg hrate (sub_nonneg.mpr hstart)
    rw [level_full hrate]
    simpa using this
  · rw [Nat.cast_zero]
    linarith

theorem later (hrate : 0 ≤ rate) (h : Window rate burst start len B now n)
    {now' : K} (hnow : now ≤ now') : Window rate burst start len B now' n := by
  refine ⟨h.nonneg, fun hlt => h.before (lt_of_le_of_lt hnow hlt), fun hstart hend => ?_, h.bound⟩
  by_cases hin : start ≤ now
  · have hwithin := h.within hin (hnow.trans hend)
    have hlevel := B.level_le_add burst hrate hnow
    calc (n : K) + B.level rate burst now'
        ≤ n + B.level rate burst now + rate * (now' - now) := by linarith
      _ ≤ burst + rate * (now - start) + rate * (now' - now) := by linarith
      _ = burst + rate * (now' - start) := by ring
  · -- nothing was allowed before the window
    rw [h.before (not_le.mp hin), Nat.cast_zero, zero_add]
    have := mul_nonneg hrate (sub_nonneg.mpr hstart)
    linarith [B.level_le_burst rate burst now']

theorem allow_other (h : Window rate burst start len B now n) :
    Window rate burst start len (B.allow rate burst now).2 now n := by
  refine ⟨tokens_allow_nonneg h.nonneg, h.before, fun hstart hend => ?_, h.bound⟩
  linarith [h.within hstart hend, B.level_allow_le rate burst now]

theorem allow (hrate : 0 ≤ rate) (h : Window rate burst start len B now n) :
    Window rate burst start len (B.allow rate burst now).2 now
      (n + if (B.allow rate burst now).1 && inWindow start len now then 1 else 0) := by
  by_cases hlevel : 1 ≤ B.level rate burst now
  · cases hin : inWindow start len now with
    | false =>
      simpa using h.allow_other
    | true =>
      rw [inWindow, Bool.and_eq_true, decide_eq_true_eq, decide_eq_true_eq] at hin
      have hwithin := h.within hin.1 hin.2
      have hgain := mul_le_mul_of_nonneg_left (sub_le_iff_le_add'.mpr hin.2) hrate
      rw [allow_of_le hlevel, Bool.true_and, if_pos rfl]
      refine ⟨sub_nonneg.mpr hlevel, fun hlt => absurd hin.1 (not_le.mpr hlt), fun _ _ => ?_, ?_⟩
      · have hcost := level_allow hlevel
        rw [allow_of_le hlevel] at hcost
        rw [hcost]
        push_cast
        linarith
      · push_cast
        linarith
  · rw [allow_of_lt (not_le.mp hlevel)]
    exact h

end Window

/-! ## Buckets that cannot be told apart -/

/-- From `now` on the two buckets have the same level. -/
def Same (rate burst now : K) (B B' : TokenBucket K) : Prop :=
  ∀ t, now ≤ t → B.level rate burst t = B'.level rate burst t

omit [IsStrictOrderedRing K] in
theorem Same.later {now : K} (h : Same rate burst now B B') (hnow : now ≤ t) :
    Same rate burst t B B' := fun t' ht' => h t' (hnow.trans ht')

omit [IsStrictOrderedRing K] in
theorem Same.allow {now : K} (h : Same rate burst now B B') (hnow : now ≤ t) :
    (B.allow rate burst t).1 = (B'.allow rate burst t).1 ∧
      Same rate burst t (B.allow rate burst t).2 (B'.allow rate burst t).2 := by
  by_cases hlevel : 1 ≤ B.level rate burst t
  · have hlevel' : 1 ≤ B'.level rate burst t := h t hnow ▸ hlevel
    rw [allow_of_le hlevel, allow_of_le hlevel', h t hnow]
    exact ⟨rfl, fun _ _ => rfl⟩
  · have hlevel' : ¬ 1 ≤ B'.level rate burst t := h t hnow ▸ hlevel
    rw [allow_of_lt (not_le.mp hlevel), allow_of_lt (not_le.mp hlevel')]
    exact ⟨rfl, h.later hnow⟩

theorem same_full (hB : 0 ≤ B.tokens) (hrate : 0 ≤ rate) {now : K}
    (h : burst ≤ rate * (now - B.last)) : Same rate burst now (full burst) B := by
  intro t ht
  rw [level_full hrate, level_eq_burst hB hrate]
  have := mul_le_mul_of_nonneg_left (sub_le_sub_right ht B.last) hrate
  linarith

end TokenBucket
