import Mathlib.Data.Nat.Basic

/-!
# Instants and durations of Go's `time` package

An instant is its number of nanoseconds since the zero time, 1 January of year 1, UTC; a duration is
a number of nanoseconds.
-/

namespace Go

namespace Time

def second : Nat := 1000000000

def hour : Nat := 3600 * second

def unixEpoch : Nat := 62135596800 * second

/-- The first instant of the year 10000, which RFC 3339 cannot write. -/
def year10000 : Nat := 315537897600 * second

def truncSecond (t : Nat) : Nat := t / second * second

def unix (t : Nat) : Int := (t / second : Nat) - (unixEpoch / second : Nat)

def unixNano (t : Nat) : Int := t - unixEpoch

/-- `time.Since(time.Unix(0, nano))` at the instant `now`. -/
def sinceUnixNano (now : Nat) (nano : Int) : Int := now - (unixEpoch + nano)

@[simp] theorem sinceUnixNano_unixNano (now t : Nat) :
    sinceUnixNano now (unixNano t) = now - t := by
  rw [sinceUnixNano, unixNano]
  omega

theorem truncSecond_le (t : Nat) : truncSecond t ≤ t := Nat.div_mul_le_self t second

theorem truncSecond_pos {t : Nat} (h : second ≤ t) : 0 < truncSecond t := by
  have hdiv : 0 < t / second := Nat.div_pos h (by decide)
  exact Nat.mul_pos hdiv (by decide)

/-- The layout `time.RFC3339`, used in UTC only: `Format` drops the fraction of a second, and
`Parse` reads back what was written for the years that have four digits. -/
structure RFC3339 where
  format : Nat → String
  parse : String → Option Nat
  parse_format : ∀ t, t < year10000 → parse (format t) = some (truncSecond t)

end Time

end Go
