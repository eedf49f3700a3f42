import Mathlib.Data.Int.Log
import Mathlib.Data.Rat.Floor
import Mathlib.Tactic.Positivity

/-!
# Rounding to `float64`

The exact result rounded to 53 significant bits, to the even significand of two that are as near.
Numbers are rationals that are not negative, and exponents are not bounded.
-/

namespace Go.Float64

def ulp (q : ℚ) : ℚ := 2 ^ (Int.log 2 q - 52)

/-- The integer nearest to a number, the even one of two. -/
def nearest (q : ℚ) : ℤ :=
  if 1 / 2 < q - ⌊q⌋ ∨ q - ⌊q⌋ = 1 / 2 ∧ ⌊q⌋ % 2 = 1 then ⌊q⌋ + 1 else ⌊q⌋

def round (q : ℚ) : ℚ := nearest (q / ulp q) * ulp q

/-- `int64(x)` of a float in the range of the type. -/
def truncate (q : ℚ) : ℤ := ⌊q⌋

theorem ulp_pos (q : ℚ) : 0 < ulp q := zpow_pos (by norm_num) _

theorem nearest_intCast (n : ℤ) : nearest n = n := by
  simp [nearest]

theorem floor_le_nearest (q : ℚ) : ⌊q⌋ ≤ nearest q := by
  rw [nearest]
  split
  · exact Int.le_add_one le_rfl
  · exact le_rfl

theorem nearest_le (q : ℚ) : (nearest q : ℚ) ≤ q + 1 / 2 := by
  have hfloor := Int.floor_le q
  rw [nearest]
  split
  · next h =>
    push_cast
    obtain h | ⟨h, -⟩ := h <;> linarith
  · linarith

theorem round_le (q : ℚ) : round q ≤ q + ulp q / 2 := by
  have hpos := ulp_pos q
  have hmul := mul_le_mul_of_nonneg_right (nearest_le (q / ulp q)) hpos.le
  rw [add_mul, div_mul_cancel₀ _ hpos.ne'] at hmul
  rw [round]
  linarith

theorem ulp_le {q : ℚ} (hpos : 0 < q) : ulp q ≤ q := by
  have hle := Int.zpow_log_le_self (b := 2) (by decide) hpos
  refine le_trans ?_ hle
  exact zpow_le_zpow_right₀ (by norm_num) (by omega)

theorem round_nonneg {q : ℚ} (h : 0 ≤ q) : 0 ≤ round q := by
  have hfloor : 0 ≤ ⌊q / ulp q⌋ := Int.floor_nonneg.mpr (div_nonneg h (ulp_pos q).le)
  exact mul_nonneg (by exact_mod_cast hfloor.trans (floor_le_nearest _)) (ulp_pos q).le

@[simp] theorem round_zero : round 0 = 0 := by
  simp [round, nearest]

theorem round_le_of_lt_one {q : ℚ} (hnonneg : 0 ≤ q) (h : q < 1) : round q ≤ q + 1 / 2 ^ 54 := by
  obtain rfl | hpos := hnonneg.eq_or_lt
  · rw [round_zero]
    positivity
  have hlog : Int.log 2 q ≤ -1 := by
    have hlt : q < ((2 : ℕ) : ℚ) ^ (0 : ℤ) := by simpa using h
    exact Int.le_sub_one_of_lt ((Int.lt_zpow_iff_log_lt (by decide) hpos).mp hlt)
  have hulp : ulp q ≤ 1 / 2 ^ 53 := by
    have hle : (2 : ℚ) ^ (Int.log 2 q - 52) ≤ 2 ^ (-53 : ℤ) :=
      zpow_le_zpow_right₀ (by norm_num) (by omega)
    rw [ulp]
    refine hle.trans_eq ?_
    norm_num
  have hround := round_le q
  linarith

theorem one_le_round {q : ℚ} (h : 1 ≤ q) : 1 ≤ round q := by
  have hpos : 0 < q := by linarith
  have hlog : 0 ≤ Int.log 2 q :=
    (Int.zpow_le_iff_le_log (by decide) hpos).mp (by simpa using h)
  -- the significand has 53 bits, so cutting it off leaves a power of two
  have hsignificand : (2 : ℚ) ^ (52 : ℤ) ≤ q / ulp q := by
    rw [le_div_iff₀ (ulp_pos q), ulp, ← zpow_add₀ (by norm_num)]
    have hle := Int.zpow_log_le_self (b := 2) (by decide) hpos
    simpa using hle
  have hfloor : (2 ^ 52 : ℤ) ≤ ⌊q / ulp q⌋ := by
    rw [Int.le_floor]
    exact le_of_eq_of_le (by norm_num) hsignificand
  have hnearest : ((2 ^ 52 : ℤ) : ℚ) ≤ nearest (q / ulp q) := by
    exact_mod_cast hfloor.trans (floor_le_nearest _)
  have hulp : (2 : ℚ) ^ (-52 : ℤ) ≤ ulp q := by
    rw [ulp]
    exact zpow_le_zpow_right₀ (by norm_num) (by omega)
  calc (1 : ℚ) = ((2 ^ 52 : ℤ) : ℚ) * 2 ^ (-52 : ℤ) := by norm_num
    _ ≤ nearest (q / ulp q) * ulp q := by
        apply mul_le_mul hnearest hulp (by positivity)
        exact le_trans (by positivity) hnearest

theorem round_natCast {n : ℕ} (h : n < 2 ^ 53) : round n = n := by
  have hlog : Nat.log 2 n ≤ 52 := by
    obtain rfl | hpos := Nat.eq_zero_or_pos n
    · simp
    · exact Nat.le_of_lt_succ ((Nat.log_lt_iff_lt_pow (by decide) hpos.ne').mpr h)
  have hulp : ulp n = 1 / 2 ^ (52 - Nat.log 2 n) := by
    rw [ulp, Int.log_natCast, show (Nat.log 2 n : ℤ) - 52 = -((52 - Nat.log 2 n : ℕ) : ℤ) by omega,
      zpow_neg, zpow_natCast, one_div]
  have hquotient : (n : ℚ) / ulp n = ((n * 2 ^ (52 - Nat.log 2 n) : ℕ) : ℤ) := by
    rw [hulp]
    push_cast
    field_simp
  rw [round, hquotient, nearest_intCast, ← hquotient, div_mul_cancel₀ _ (ulp_pos _).ne']

end Go.Float64
