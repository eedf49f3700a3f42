import Mathlib.Algebra.Order.Ring.Nat
import Torii.Go.Strconv
import Torii.Go.Time

/-!
# The layout RFC 3339 in the proleptic Gregorian calendar

`rfc3339` writes an instant in UTC without a fraction of a second and reads such texts back. It is
the instance of `Time.RFC3339` that Go's `time` package provides for these texts.
-/

namespace Go.Time

open Strconv

/-- The number of days before 1 January of year `y + 1`. -/
def daysBeforeYear (y : Nat) : Nat := 365 * y + y / 4 - y / 100 + y / 400

/-- Year `y + 1` is a leap year. -/
def isLeap (y : Nat) : Bool := (y + 1) % 4 = 0 && ((y + 1) % 100 ≠ 0 || (y + 1) % 400 = 0)

/-- The number of days before month `m + 1` of a year. -/
def daysBeforeMonth (leap : Bool) (m : Nat) : Nat :=
  [0, 31, 59, 90, 120, 151, 181, 212, 243, 273, 304, 334, 365].getD m 0 +
    if leap && 2 ≤ m then 1 else 0

/-- The year, counted from zero, of a day counted from zero. -/
def yearOf (day : Nat) : Nat :=
  let y := day * 400 / 146097
  if day < daysBeforeYear y then y - 1 else if daysBeforeYear (y + 1) ≤ day then y + 1 else y

/-- The month, counted from zero, of a day of the year counted from zero. -/
def monthOf (leap : Bool) (day : Nat) : Nat :=
  ((List.range 12).filter fun m => daysBeforeMonth leap m ≤ day).length - 1

theorem yearOf_le (day : Nat) : daysBeforeYear (yearOf day) ≤ day := by
  unfold yearOf daysBeforeYear
  simp only
  split
  · omega
  · split <;> omega

theorem lt_yearOf (day : Nat) : day < daysBeforeYear (yearOf day + 1) := by
  unfold yearOf daysBeforeYear
  simp only
  split
  · omega
  · split <;> omega

theorem daysBeforeYear_succ (y : Nat) :
    daysBeforeYear (y + 1) = daysBeforeYear y + daysBeforeMonth (isLeap y) 12 := by
  have hmonth : daysBeforeMonth (isLeap y) 12 = 365 + if isLeap y then 1 else 0 := by
    simp [daysBeforeMonth]
  have hleap : isLeap y = true ↔ 4 ∣ y + 1 ∧ (¬ 100 ∣ y + 1 ∨ 400 ∣ y + 1) := by
    simp [isLeap, Nat.dvd_iff_mod_eq_zero]
  have hcentury : 100 ∣ y + 1 → 4 ∣ y + 1 := Dvd.dvd.trans (by decide)
  have hcycle : 400 ∣ y + 1 → 100 ∣ y + 1 := Dvd.dvd.trans (by decide)
  have hsub : y / 100 ≤ 365 * y + y / 4 := by omega
  simp only [hmonth, daysBeforeYear, Nat.succ_div, hleap]
  by_cases h4 : 4 ∣ y + 1
  · by_cases h100 : 100 ∣ y + 1
    · by_cases h400 : 400 ∣ y + 1
      · simp only [h4, h100, h400, if_true, true_and, or_true]
        omega
      · simp only [h4, h100, h400, if_true, if_false, not_true_eq_false, or_false, and_false]
        omega
    · have h400 := mt hcycle h100
      simp only [h4, h100, h400, if_true, if_false, not_false_eq_true, true_or, and_true]
      omega
  · have h100 := mt hcentury h4
    have h400 := mt hcycle h100
    simp only [h4, h100, h400, if_false, false_and]
    omega

theorem length_filter_range {f : Nat → Nat} {n : Nat} (hf : ∀ k < n, ∀ j ≤ k, f j ≤ f k)
    (day : Nat) :
    ((List.range n).filter fun k => f k ≤ day).length ≤ n ∧
      (∀ k < ((List.range n).filter fun k => f k ≤ day).length, f k ≤ day) ∧
      ∀ k < n, ((List.range n).filter fun k => f k ≤ day).length ≤ k → day < f k := by
  induction n with
  | zero => simp
  | succ n ih =>
    obtain ⟨hle, hbelow, habove⟩ := ih fun k hk => hf k (Nat.lt_succ_of_lt hk)
    rw [List.range_succ, List.filter_append, List.length_append]
    generalize ((List.range n).filter fun k => f k ≤ day).length = c at hle hbelow habove ⊢
    by_cases hday : f n ≤ day
    · -- an entry below that exceeds `day` would exceed the last one
      have hc : c = n := by
        by_contra hne
        have hexceeds := habove c (by omega) (Nat.le_refl c)
        have hlast := hf n (Nat.lt_succ_self n) c hle
        omega
      have hone : ([n].filter fun k => f k ≤ day).length = 1 := by simp [hday]
      rw [hone, hc]
      refine ⟨Nat.le_refl _, ?_, fun k hk hge => absurd hk (by omega)⟩
      intro k hk
      exact (hf n (Nat.lt_succ_self n) k (by omega)).trans hday
    · have hnone : ([n].filter fun k => f k ≤ day).length = 0 := by simp [hday]
      rw [hnone, Nat.add_zero]
      refine ⟨Nat.le_succ_of_le hle, hbelow, ?_⟩
      intro k hk hge
      obtain hlt | rfl := Nat.lt_succ_iff_lt_or_eq.mp hk
      · exact habove k hlt hge
      · omega

theorem monthOf_spec (leap : Bool) {day : Nat} (h : day < daysBeforeMonth leap 12) :
    monthOf leap day < 12 ∧ daysBeforeMonth leap (monthOf leap day) ≤ day ∧
      day < daysBeforeMonth leap (monthOf leap day + 1) := by
  have hascending : ∀ leap : Bool, ∀ k < 12, ∀ j ≤ k,
      daysBeforeMonth leap j ≤ daysBeforeMonth leap k := by decide
  have hzero : daysBeforeMonth leap 0 = 0 := by cases leap <;> rfl
  obtain ⟨hle, hbelow, habove⟩ := length_filter_range (hascending leap) day
  rw [monthOf]
  generalize ((List.range 12).filter fun m => daysBeforeMonth leap m ≤ day).length = c
    at hle hbelow habove ⊢
  have hpos : 0 < c := by
    by_contra hc
    have hfirst := habove 0 (by omega) (by omega)
    omega
  refine ⟨by omega, hbelow _ (by omega), ?_⟩
  rw [Nat.sub_add_cancel hpos]
  obtain hlt | rfl := Nat.lt_or_eq_of_le hle
  · exact habove c hlt (Nat.le_refl c)
  · exact h

def digit (n : Nat) : Char := Char.ofNat (48 + n % 10)

theorem digitVal_digit (n : Nat) : digitVal (digit n) = some (n % 10) := by
  have hall : ∀ k < 10, digitVal (Char.ofNat (48 + k)) = some k := by decide
  exact hall (n % 10) (Nat.mod_lt _ (by decide))

theorem digitsVal_two {n : Nat} (h : n < 100) : digitsVal [digit (n / 10), digit n] = some n := by
  simp only [digitsVal, List.foldlM_cons, List.foldlM_nil, digitVal_digit, Option.map_some,
    Option.bind_eq_bind, Option.bind_some, Option.pure_def]
  congr 1
  omega

theorem digitsVal_four {n : Nat} (h : n < 10000) :
    digitsVal [digit (n / 1000), digit (n / 100), digit (n / 10), digit n] = some n := by
  simp only [digitsVal, List.foldlM_cons, List.foldlM_nil, digitVal_digit, Option.map_some,
    Option.bind_eq_bind, Option.bind_some, Option.pure_def]
  congr 1
  omega

/-- `Format(time.RFC3339)` of an instant in UTC with a four-digit year. -/
def formatRFC3339 (t : Nat) : String :=
  let secs := t / second
  let day := secs / 86400
  let year := yearOf day
  let yday := day - daysBeforeYear year
  let month := monthOf (isLeap year) yday
  let mday := yday - daysBeforeMonth (isLeap year) month
  let two (n : Nat) := [digit (n / 10), digit n]
  let y := year + 1
  String.ofList ([digit (y / 1000), digit (y / 100), digit (y / 10), digit y] ++ '-' ::
    two (month + 1) ++ '-' :: two (mday + 1) ++ 'T' :: two (secs % 86400 / 3600) ++ ':' ::
    two (secs % 3600 / 60) ++ ':' :: two (secs % 60) ++ ['Z'])

/-- The instant with these fields, if they are in range. -/
def ofFields (year month mday hour min sec : Nat) : Option Nat :=
  if 1 ≤ month ∧ month ≤ 12 ∧ 1 ≤ mday ∧
      mday ≤ daysBeforeMonth (isLeap (year - 1)) month -
        daysBeforeMonth (isLeap (year - 1)) (month - 1) ∧
      hour < 24 ∧ min < 60 ∧ sec < 60 then
    some (((daysBeforeYear (year - 1) + daysBeforeMonth (isLeap (year - 1)) (month - 1) +
      (mday - 1)) * 86400 + hour * 3600 + min * 60 + sec) * second)
  else none

/-- `Parse(time.RFC3339, text)` on texts in UTC without a fraction. -/
def parseRFC3339 (text : String) : Option Nat :=
  match text.toList with
  | [y₁, y₂, y₃, y₄, '-', m₁, m₂, '-', d₁, d₂, 'T', h₁, h₂, ':', i₁, i₂, ':', s₁, s₂, 'Z'] => do
      let year ← digitsVal [y₁, y₂, y₃, y₄]
      let month ← digitsVal [m₁, m₂]
      let mday ← digitsVal [d₁, d₂]
      let hour ← digitsVal [h₁, h₂]
      let min ← digitsVal [i₁, i₂]
      let sec ← digitsVal [s₁, s₂]
      ofFields year month mday hour min sec
  | _ => none

theorem parseRFC3339_formatRFC3339 {t : Nat} (ht : t < year10000) :
    parseRFC3339 (formatRFC3339 t) = some (truncSecond t) := by
  have hsecs : t / second < 315537897600 :=
    Nat.div_lt_of_lt_mul (by simpa [year10000, mul_comm] using ht)
  rw [truncSecond]
  simp only [formatRFC3339]
  generalize t / second = secs at hsecs ⊢
  have hday : secs / 86400 < 3652059 := by omega
  generalize hd : secs / 86400 = day at hday ⊢
  have hyle := yearOf_le day
  have hylt := lt_yearOf day
  have hyear : yearOf day < 9999 := by
    by_contra hge
    have hmono : daysBeforeYear 9999 ≤ daysBeforeYear (yearOf day) := by
      unfold daysBeforeYear
      omega
    have : daysBeforeYear 9999 = 3652059 := by decide
    omega
  generalize yearOf day = year at hyle hylt hyear ⊢
  rw [daysBeforeYear_succ] at hylt
  obtain ⟨hm, hmle, hmlt⟩ :=
    monthOf_spec (isLeap year) (show day - daysBeforeYear year < _ by omega)
  generalize monthOf (isLeap year) (day - daysBeforeYear year) = month at hm hmle hmlt ⊢
  have hmday : day - daysBeforeYear year - daysBeforeMonth (isLeap year) month + 1 < 100 := by
    have hlen : ∀ leap : Bool, ∀ m < 12,
        daysBeforeMonth leap (m + 1) ≤ daysBeforeMonth leap m + 31 := by decide
    have := hlen (isLeap year) month hm
    omega
  simp only [parseRFC3339, String.toList_ofList, List.cons_append, List.nil_append,
    digitsVal_two hmday, digitsVal_two (show month + 1 < 100 by omega),
    digitsVal_four (show year + 1 < 10000 by omega),
    digitsVal_two (show secs % 86400 / 3600 < 100 by omega),
    digitsVal_two (show secs % 3600 / 60 < 100 by omega),
    digitsVal_two (show secs % 60 < 100 by omega), Option.bind_eq_bind, Option.bind_some]
  rw [ofFields, if_pos]
  · simp only [Nat.add_sub_cancel]
    congr 2
    omega
  · simp only [Nat.add_sub_cancel]
    omega

/-- The layout as an instance of what the callers rely on. -/
def rfc3339 : RFC3339 := ⟨formatRFC3339, parseRFC3339, fun _ => parseRFC3339_formatRFC3339⟩

example : formatRFC3339 (unixEpoch + 951782400 * second) = "2000-02-29T00:00:00Z" := by
  decide +kernel

end Go.Time
