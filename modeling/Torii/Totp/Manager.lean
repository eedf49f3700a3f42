import Torii.Go.Float64
import Torii.Totp.Generator
import Torii.Util.Resolve

/-!
# The window of accepted codes

`NewTOTPManager` and `ValidateCode` of `middleware/totp/totp.go`. A period is a duration in
nanoseconds, but the program divides by its whole seconds, which are none for a period below one
second, and it gives up at the first counter that is negative.
-/

namespace Torii.Totp

open Go Torii.Util

/-- `Config` without the settings of the sessions and of the rate limit. -/
structure Config where
  label : String
  seed : String
  codeWindow : Int64
  digits : Int
  period : Int64
  algorithm : String

/-- `Manager`, with what its constructor has checked. -/
structure Manager where
  seed : List UInt8
  label : String
  codeWindow : Int64
  digits : Int
  period : Int64
  algorithm : Algorithm
  codeWindow_pos : 0 < codeWindow
  six_le_digits : 6 ≤ digits
  digits_le_eight : digits ≤ 8
  period_pos : 0 < period

inductive ManagerError where
  | resolveSeed (cause : ResolveError)
  | emptySecret
  | decodeSeed (cause : String)
  | negativeWindow
  | digits
  | period
  | algorithm (cause : CodeError)
  | limiter (cause : String)
deriving DecidableEq

def ManagerError.message (quote : String → String) : ManagerError → String
  | .resolveSeed cause => "failed to resolve TOTP seed " ++ cause.message quote
  | .emptySecret => "failed to decode TOTP seed secret cannot be empty"
  | .decodeSeed cause => "failed to decode TOTP seed " ++ cause
  | .negativeWindow => "code window cannot be negative"
  | .digits => "digits must be between 6 and 8"
  | .period => "period must be positive"
  | .algorithm cause => cause.message quote
  | .limiter cause => cause

/-- What the constructor uses of other packages: where seeds come from, the letters of
`strings.ToUpper`, the decoder of `encoding/base32` without padding, and what
`newVerificationRateLimiter` returns. -/
structure Env where
  sources : Sources
  upper : Char → Char
  decodeBase32 : String → Except String (List UInt8)
  newVerificationRateLimiter : Except String Unit

def defaultCodeWindow : Int64 := 1

def defaultDigits : Int := 6

def defaultPeriod : Int64 := 30000000000

def decodeSecret (env : Env) (secret : String) : Except ManagerError (List UInt8) :=
  let normalized := Strings.toUpper env.upper secret
  let normalized := String.ofList (normalized.toList.filter (· != ' '))
  let normalized := Strings.trimRight normalized '='
  if normalized = "" then .error .emptySecret
  else (env.decodeBase32 normalized).mapError .decodeSeed

def resolveSeed (env : Env) (seed : String) : Except ManagerError (List UInt8) :=
  match resolveValue env.sources seed with
  | .error e => .error (.resolveSeed e)
  | .ok rawSecret => decodeSecret env rawSecret

def newTOTPManager (env : Env) (totpConf : Config) : Except ManagerError Manager :=
  match resolveSeed env totpConf.seed with
  | .error e => .error e
  | .ok seed =>
    if hwindow : totpConf.codeWindow < 0 then .error .negativeWindow
    else
      let codeWindow :=
        if totpConf.codeWindow = 0 then defaultCodeWindow else totpConf.codeWindow
      let digits := if totpConf.digits = 0 then defaultDigits else totpConf.digits
      if hdigits : digits < 6 ∨ 8 < digits then .error .digits
      else
        let period := if totpConf.period = 0 then defaultPeriod else totpConf.period
        if hperiod : period ≤ 0 then .error .period
        else
          match normalizeAlgorithm env.upper totpConf.algorithm with
          | .error e => .error (.algorithm e)
          | .ok algorithm =>
            match env.newVerificationRateLimiter with
            | .error cause => .error (.limiter cause)
            | .ok () =>
              .ok {
                seed, label := totpConf.label, codeWindow, digits, period, algorithm
                codeWindow_pos := by
                  simp only [codeWindow]
                  split
                  · decide
                  · next hzero =>
                    have := Int64.not_lt.mp hwindow
                    exact Int64.lt_of_le_of_ne this (Ne.symm hzero)
                six_le_digits := Int.not_lt.mp fun h => hdigits (.inl h)
                digits_le_eight := Int.not_lt.mp fun h => hdigits (.inr h)
                period_pos := Int64.not_le.mp hperiod }

/-- `Duration.Seconds`, for a duration that is not negative: the seconds and the rest are added as
floats. -/
def seconds (d : Int64) : ℚ :=
  let sec := d.toInt / 1000000000
  let nsec := d.toInt % 1000000000
  Float64.round (Float64.round sec + Float64.round (Float64.round nsec / 1000000000))

def wholeSeconds (period : Int64) : Int64 := Int64.ofInt (Float64.truncate (seconds period))

/-- The loop of `ValidateCode`, over the offsets that are left. -/
def tryOffsets (candidate : Int64 → Except CodeError String) (label code : String) (step : Int64) :
    List Int64 → String × Bool
  | [] => ("", false)
  | offset :: offsets =>
    match candidate (step + offset) with
    | .error _ => ("", false)
    | .ok c => if c = code then (label, true) else tryOffsets candidate label code step offsets

namespace Manager

variable (hmac : Hmac) (upper : Char → Char) (m : Manager)

def code (counter : Int64) : Except CodeError String :=
  generateCode hmac upper m.seed counter m.digits m.algorithm.text

/-- The offsets of the loop, in order. With the largest window the variable would wrap around
after the last one; some counter is out of range before that. -/
def offsets : List Int64 :=
  (List.range (2 * m.codeWindow.toInt.toNat + 1)).map fun i : Nat =>
    Int64.ofInt (i - m.codeWindow.toInt)

/-- `ValidateCode` at a Unix time; an error is the panic of a division by zero. -/
def validateCode (code : String) (now : Int64) : Except String (String × Bool) :=
  let normalizedCode := Strings.trimSpace code
  if (normalizedCode.utf8ByteSize : Int) ≠ m.digits then .ok ("", false)
  else if wholeSeconds m.period = 0 then .error "runtime error: integer divide by zero"
  else
    let step := now / wholeSeconds m.period
    .ok (tryOffsets (m.code hmac upper) m.label normalizedCode step m.offsets)

end Manager

/-! ### Whole seconds -/

section

variable {d : Int64}

theorem seconds_of_dvd (hpos : 0 ≤ d.toInt) (h : d.toInt % 1000000000 = 0) :
    seconds d = (d.toInt / 1000000000 : Int) := by
  have hlt := d.toInt_lt
  obtain ⟨n, hn⟩ := Int.eq_ofNat_of_zero_le (show 0 ≤ d.toInt / 1000000000 by omega)
  have hround : Float64.round (n : ℚ) = n := Float64.round_natCast (by omega)
  simp [seconds, h, hn, Float64.round_zero, hround]

theorem seconds_lt_one (hpos : 0 ≤ d.toInt) (h : d.toInt < 1000000000) :
    0 ≤ seconds d ∧ seconds d < 1 := by
  have hsec : d.toInt / 1000000000 = 0 := Int.ediv_eq_zero_of_lt hpos h
  obtain ⟨n, hn⟩ := Int.eq_ofNat_of_zero_le (show 0 ≤ d.toInt % 1000000000 by omega)
  have hround : Float64.round (n : ℚ) = n := Float64.round_natCast (by omega)
  have hexact : (n : ℚ) / 1000000000 ≤ 999999999 / 1000000000 := by
    have hle : (n : ℚ) ≤ 999999999 := by exact_mod_cast (show n ≤ 999999999 by omega)
    linarith
  have hfraction := Float64.round_le_of_lt_one (q := (n : ℚ) / 1000000000) (by positivity)
    (by linarith)
  have hnonneg := Float64.round_nonneg (q := (n : ℚ) / 1000000000) (by positivity)
  simp only [seconds, hsec, hn, Int.cast_zero, Float64.round_zero, zero_add, Int.cast_natCast,
    hround]
  refine ⟨Float64.round_nonneg hnonneg, ?_⟩
  have hsum := Float64.round_le_of_lt_one hnonneg (by norm_num at hfraction ⊢; linarith)
  norm_num at hfraction hsum ⊢
  linarith

theorem one_le_seconds (h : 1000000000 ≤ d.toInt) :
    1 ≤ seconds d ∧ seconds d < 4611686018427387904 := by
  have hlt := d.toInt_lt
  obtain ⟨n, hn⟩ := Int.eq_ofNat_of_zero_le (show 0 ≤ d.toInt / 1000000000 by omega)
  obtain ⟨r, hr⟩ := Int.eq_ofNat_of_zero_le (show 0 ≤ d.toInt % 1000000000 by omega)
  have hround : Float64.round (n : ℚ) = n := Float64.round_natCast (by omega)
  have hrest : Float64.round (r : ℚ) = r := Float64.round_natCast (by omega)
  have hnonneg := Float64.round_nonneg (q := (r : ℚ) / 1000000000) (by positivity)
  have hle : (r : ℚ) ≤ 999999999 := by exact_mod_cast (show r ≤ 999999999 by omega)
  have hfraction := Float64.round_le_of_lt_one (q := (r : ℚ) / 1000000000) (by positivity)
    (by linarith)
  have hone : (1 : ℚ) ≤ n := by exact_mod_cast (show 1 ≤ n by omega)
  have hmax : (n : ℚ) ≤ 1099511627776 := by exact_mod_cast (show n ≤ 1099511627776 by omega)
  simp only [seconds, hn, hr, Int.cast_natCast, hround, hrest]
  refine ⟨Float64.one_le_round (by linarith), ?_⟩
  have hsum := Float64.round_le (n + Float64.round ((r : ℚ) / 1000000000))
  have hulp := Float64.ulp_le (q := n + Float64.round ((r : ℚ) / 1000000000)) (by linarith)
  norm_num at hfraction
  linarith

theorem wholeSeconds_eq_zero (hpos : 0 ≤ d.toInt) (h : d.toInt < 1000000000) :
    wholeSeconds d = 0 := by
  obtain ⟨hnonneg, hlt⟩ := seconds_lt_one hpos h
  have hfloor : Float64.truncate (seconds d) = 0 := Int.floor_eq_zero_iff.mpr ⟨hnonneg, hlt⟩
  rw [wholeSeconds, hfloor]
  rfl

theorem wholeSeconds_pos (h : 1000000000 ≤ d.toInt) : 0 < (wholeSeconds d).toInt := by
  obtain ⟨hone, hlt⟩ := one_le_seconds h
  have hfloor : 1 ≤ Float64.truncate (seconds d) := Int.le_floor.mpr (by simpa using hone)
  have hmax : Float64.truncate (seconds d) < 4611686018427387904 :=
    Int.floor_lt.mpr (by exact_mod_cast hlt)
  rw [wholeSeconds, Int64.toInt_ofInt_of_le (by omega) (by omega)]
  omega

theorem toInt_wholeSeconds_of_dvd (hpos : 0 ≤ d.toInt) (h : d.toInt % 1000000000 = 0) :
    (wholeSeconds d).toInt = d.toInt / 1000000000 := by
  have hlt := d.toInt_lt
  rw [wholeSeconds, seconds_of_dvd hpos h, Float64.truncate, Int.floor_intCast,
    Int64.toInt_ofInt_of_le (by omega) (by omega)]

end

/-! ### The loop over the offsets -/

theorem tryOffsets_iff {candidate : Int64 → Except CodeError String} {label code : String}
    {step : Int64} {offsets : List Int64} :
    (tryOffsets candidate label code step offsets).2 = true ↔
      ∃ (i : Nat) (offset : Int64), offsets[i]? = some offset ∧
        candidate (step + offset) = .ok code ∧
        ∀ j < i, ∀ o, offsets[j]? = some o → ∃ c, candidate (step + o) = .ok c := by
  induction offsets with
  | nil => simp [tryOffsets]
  | cons first rest ih =>
    simp only [tryOffsets]
    cases hfirst : candidate (step + first) with
    | error e =>
      simp only [Bool.false_eq_true, false_iff]
      rintro ⟨i, offset, hi, hcode, hbefore⟩
      cases i with
      | zero =>
        cases hi
        rw [hfirst] at hcode
        cases hcode
      | succ i =>
        obtain ⟨c, hc⟩ := hbefore 0 (by omega) first rfl
        rw [hfirst] at hc
        cases hc
    | ok c =>
      dsimp only
      split
      · next heq =>
        subst heq
        simp only [true_iff]
        exact ⟨0, first, rfl, hfirst, by omega⟩
      · next hne =>
        rw [ih]
        constructor
        · rintro ⟨i, offset, hi, hcode, hbefore⟩
          refine ⟨i + 1, offset, hi, hcode, ?_⟩
          intro j hj o ho
          cases j with
          | zero =>
            cases ho
            exact ⟨c, hfirst⟩
          | succ j => exact hbefore j (by omega) o ho
        · rintro ⟨i, offset, hi, hcode, hbefore⟩
          cases i with
          | zero =>
            cases hi
            rw [hfirst] at hcode
            cases hcode
            exact absurd rfl hne
          | succ i =>
            exact ⟨i, offset, hi, hcode, fun j hj o ho => hbefore (j + 1) (by omega) o ho⟩

namespace Manager

section

variable {hmac : Hmac} {upper : Char → Char} {m : Manager} {counter step now : Int64}

theorem code_of_neg (h : counter < 0) : m.code hmac upper counter = .error .negativeCounter := by
  rw [code, generateCode, if_pos h]

theorem nonneg_of_code {text : String}
    (h : m.code hmac upper counter = .ok text) : 0 ≤ counter := by
  rw [← Int64.not_lt]
  intro hneg
  rw [code_of_neg hneg] at h
  cases h

theorem code_of_nonneg (hupper : AsciiUpper upper) (h : 0 ≤ counter) :
    ∃ text, m.code hmac upper counter = .ok text ∧ Strings.trimSpace text = text ∧
      (text.utf8ByteSize : Int) = m.digits := by
  have hsix := m.six_le_digits
  have height := m.digits_le_eight
  have hcode := generateCode_eq hmac m.seed hupper h (by omega : 1 ≤ m.digits) (by omega)
    m.algorithm
  have hlt := Nat.mod_lt (dynamicTruncation (hmac.sum m.algorithm m.seed
    (putUint64 counter.toUInt64))) (Nat.pow_pos (n := m.digits.toNat) (show 0 < 10 by decide))
  have hdigit := fun c => isDigit_of_mem_pad_itoa (c := c) (by omega : 0 < m.digits.toNat) hlt
  have hlength := (pad_itoa (by omega) hlt).1
  rw [Int.toNat_of_nonneg (by omega)] at hdigit hlength
  refine ⟨_, hcode, Strings.trimSpace_of_forall ?_, ?_⟩
  · intro c hc
    exact Strings.isSpace_of_isDigit (hdigit c hc)
  · have hascii : ∀ c ∈ (pad m.digits (Strconv.itoa (dynamicTruncation (hmac.sum m.algorithm
        m.seed (putUint64 counter.toUInt64)) % 10 ^ m.digits.toNat : Nat))).toList,
        c.toNat < 128 := by
      intro c hc
      have hbound := Strings.toNat_of_isDigit (hdigit c hc)
      omega
    rw [Strings.utf8ByteSize_of_ascii hascii, hlength]
    omega

variable (hmac upper m) in
/-- The codes of the counters around a step, no further away than the window. -/
def windowCodes (step : Int) : Set String :=
  {text | ∃ c : Int64, 0 ≤ c ∧ |c.toInt - step| ≤ m.codeWindow.toInt ∧
    m.code hmac upper c = .ok text}

theorem toInt_codeWindow_pos : 0 < m.codeWindow.toInt := by
  simpa using Int64.lt_iff_toInt_lt.mp m.codeWindow_pos

theorem offsets_getElem? {i : Nat} {offset : Int64} :
    m.offsets[i]? = some offset ↔
      (i : Int) ≤ 2 * m.codeWindow.toInt ∧ offset = Int64.ofInt (i - m.codeWindow.toInt) := by
  have hpos := m.toInt_codeWindow_pos
  simp only [offsets, List.getElem?_map, Option.map_eq_some_iff, List.getElem?_eq_some_iff,
    List.length_range, List.getElem_range]
  constructor
  · rintro ⟨j, ⟨hlt, rfl⟩, rfl⟩
    exact ⟨by omega, rfl⟩
  · rintro ⟨hle, rfl⟩
    exact ⟨i, ⟨by omega, rfl⟩, rfl⟩

theorem toInt_counter (hstep : 0 ≤ step.toInt) {i : Nat}
    (hlt : step.toInt + (i - m.codeWindow.toInt) < 2 ^ 63) :
    (step + Int64.ofInt (i - m.codeWindow.toInt)).toInt =
      step.toInt + (i - m.codeWindow.toInt) := by
  have hpos := m.toInt_codeWindow_pos
  have hmax := m.codeWindow.toInt_lt
  rw [Int64.toInt_add, Int64.toInt_ofInt_of_le (by omega) (by omega)]
  exact Int.bmod_eq_of_le (by omega) (by omega)

theorem counter_neg {i : Nat} (hi : (i : Int) ≤ 2 * m.codeWindow.toInt)
    (hge : 2 ^ 63 ≤ step.toInt + (i - m.codeWindow.toInt)) :
    step + Int64.ofInt (i - m.codeWindow.toInt) < 0 := by
  have hpos := m.toInt_codeWindow_pos
  have hmax := m.codeWindow.toInt_lt
  have hstep := step.toInt_lt
  rw [Int64.lt_iff_toInt_lt, Int64.toInt_add, Int64.toInt_ofInt_of_le (by omega) (by omega)]
  have hwrap : (step.toInt + (i - m.codeWindow.toInt)).bmod (2 ^ 64) =
      step.toInt + (i - m.codeWindow.toInt) - 2 ^ 64 := by
    rw [Int.bmod_def]
    omega
  rw [hwrap, Int64.toInt_zero]
  omega

theorem tryOffsets_offsets_iff (hupper : AsciiUpper upper) (hstep : 0 ≤ step.toInt)
    {label text : String} : (tryOffsets (m.code hmac upper) label text step m.offsets).2 = true ↔
      m.codeWindow.toInt ≤ step.toInt ∧ text ∈ m.windowCodes hmac upper step.toInt := by
  have hpos := m.toInt_codeWindow_pos
  have hmax := step.toInt_lt
  rw [tryOffsets_iff]
  constructor
  · rintro ⟨i, offset, hi, hcode, hbefore⟩
    obtain ⟨hle, rfl⟩ := offsets_getElem?.mp hi
    have hcounter := nonneg_of_code hcode
    -- the counter at the code or one before it is the first one
    have hfirst : 0 ≤ step + Int64.ofInt ((0 : Nat) - m.codeWindow.toInt) := by
      obtain rfl | hlt := Nat.eq_zero_or_pos i
      · exact hcounter
      · obtain ⟨c, hc⟩ := hbefore 0 hlt _ (offsets_getElem?.mpr ⟨by omega, rfl⟩)
        exact nonneg_of_code hc
    rw [Int64.le_iff_toInt_le, toInt_counter hstep (by omega), Int64.toInt_zero] at hfirst
    refine ⟨by omega, _, hcounter, ?_, hcode⟩
    have hlt : step.toInt + (i - m.codeWindow.toInt) < 2 ^ 63 := by
      by_contra hge
      exact Int64.not_lt.mpr hcounter (counter_neg hle (by omega))
    rw [toInt_counter hstep hlt, abs_le]
    omega
  · rintro ⟨hwindow, c, hc, hdist, hcode⟩
    rw [abs_le] at hdist
    have hcmax := c.toInt_lt
    obtain ⟨i, hi⟩ := Int.eq_ofNat_of_zero_le
      (show 0 ≤ c.toInt - step.toInt + m.codeWindow.toInt by omega)
    have hcounter : step + Int64.ofInt (i - m.codeWindow.toInt) = c := by
      rw [← Int64.toInt_inj, toInt_counter hstep (by omega)]
      omega
    refine ⟨i, _, offsets_getElem?.mpr ⟨by omega, rfl⟩, by rw [hcounter, hcode], ?_⟩
    intro j hj o ho
    obtain ⟨hle, rfl⟩ := offsets_getElem?.mp ho
    have hnonneg : 0 ≤ step + Int64.ofInt (j - m.codeWindow.toInt) := by
      rw [Int64.le_iff_toInt_le, toInt_counter hstep (by omega), Int64.toInt_zero]
      omega
    obtain ⟨other, hother, -⟩ := code_of_nonneg hupper hnonneg
    exact ⟨other, hother⟩

theorem toInt_step (hnow : 0 ≤ now) (hsecond : 1000000000 ≤ m.period.toInt) :
    (now / wholeSeconds m.period).toInt = now.toInt / (wholeSeconds m.period).toInt := by
  have hpos := wholeSeconds_pos hsecond
  have hnonneg : 0 ≤ now.toInt := by simpa using Int64.le_iff_toInt_le.mp hnow
  have hminus : wholeSeconds m.period ≠ -1 := by
    intro h
    rw [h] at hpos
    exact absurd hpos (by decide)
  rw [Int64.toInt_div_of_ne_right _ _ hminus, Int.tdiv_eq_ediv_of_nonneg hnonneg]

theorem validateCode_ok (hupper : AsciiUpper upper) (hnow : 0 ≤ now)
    (hsecond : 1000000000 ≤ m.period.toInt) (code : String) :
    ∃ answer, m.validateCode hmac upper code now = .ok answer ∧ (answer.2 = true ↔
        m.codeWindow.toInt ≤ now.toInt / (wholeSeconds m.period).toInt ∧
        Strings.trimSpace code ∈
          m.windowCodes hmac upper (now.toInt / (wholeSeconds m.period).toInt)) := by
  have hpos := wholeSeconds_pos hsecond
  have hnonneg : 0 ≤ now.toInt := by simpa using Int64.le_iff_toInt_le.mp hnow
  have hstep := toInt_step hnow hsecond
  have hne : wholeSeconds m.period ≠ 0 := by
    intro h
    rw [h] at hpos
    exact absurd hpos (by decide)
  simp only [validateCode]
  split
  · next hsize =>
    refine ⟨_, rfl, by simp, ?_⟩
    rintro ⟨-, c, hc, -, hcode⟩
    obtain ⟨text, htext, -, hdigits⟩ := code_of_nonneg hupper hc
    rw [hcode] at htext
    cases htext
    exact absurd hdigits hsize
  · refine ⟨_, rfl, ?_⟩
    rw [tryOffsets_offsets_iff hupper (by rw [hstep]; exact Int.ediv_nonneg hnonneg hpos.le), hstep]

theorem validateCode_panics (hsecond : m.period.toInt < 1000000000) {code : String}
    (hsize : ((Strings.trimSpace code).utf8ByteSize : Int) = m.digits) (now : Int64) :
    m.validateCode hmac upper code now = .error "runtime error: integer divide by zero" := by
  have hperiod : 0 < m.period.toInt := by simpa using Int64.lt_iff_toInt_lt.mp m.period_pos
  simp only [validateCode]
  rw [if_neg (not_not.mpr hsize), if_pos (wholeSeconds_eq_zero hperiod.le hsecond)]

theorem step_of_whole (hwhole : m.period.toInt % 1000000000 = 0) (now : Int64) :
    now.toInt / (wholeSeconds m.period).toInt =
      now.toInt * 1000000000 / m.period.toInt := by
  have hperiod : 0 < m.period.toInt := by simpa using Int64.lt_iff_toInt_lt.mp m.period_pos
  rw [toInt_wholeSeconds_of_dvd hperiod.le hwhole]
  obtain ⟨k, hk⟩ := Int.dvd_of_emod_eq_zero hwhole
  rw [hk, Int.mul_ediv_cancel_left _ (by decide), Int.mul_comm now.toInt,
    Int.mul_ediv_mul_of_pos _ _ (by decide)]

theorem windowCodes_nonempty (hupper : AsciiUpper upper) (hnow : 0 ≤ now)
    (hsecond : 1000000000 ≤ m.period.toInt) :
    (m.windowCodes hmac upper (now.toInt * 1000000000 / m.period.toInt)).Nonempty := by
  have hnonneg : 0 ≤ now.toInt := by simpa using Int64.le_iff_toInt_le.mp hnow
  have hquotient : 0 ≤ now.toInt * 1000000000 / m.period.toInt :=
    Int.ediv_nonneg (by omega) (by omega)
  have hle : now.toInt * 1000000000 / m.period.toInt ≤ now.toInt := by
    apply Int.ediv_le_of_le_mul (by omega)
    exact Int.mul_le_mul_of_nonneg_left hsecond hnonneg
  have hmax := now.toInt_lt
  have hcounter := Int64.toInt_ofInt_of_le
    (n := now.toInt * 1000000000 / m.period.toInt) (by omega) (by omega)
  have hc : 0 ≤ Int64.ofInt (now.toInt * 1000000000 / m.period.toInt) := by
    rw [Int64.le_iff_toInt_le, hcounter]
    exact hquotient
  obtain ⟨text, htext, -⟩ := code_of_nonneg hupper hc
  refine ⟨text, _, hc, ?_, htext⟩
  rw [hcounter, sub_self, abs_zero]
  exact toInt_codeWindow_pos.le

/-- For which managers and instants the accepted codes are those of the window. -/
theorem validateCode_window_iff (hupper : AsciiUpper upper) (m : Manager) {now : Int64}
    (hnow : 0 ≤ now) :
    (∀ code, ∃ answer, m.validateCode hmac upper code now = .ok answer ∧
      (answer.2 = true ↔ ∃ c : Int64, 0 ≤ c ∧
        |c.toInt - now.toInt * 1000000000 / m.period.toInt| ≤ m.codeWindow.toInt ∧
        generateCode hmac upper m.seed c m.digits m.algorithm.text =
          .ok (Strings.trimSpace code))) ↔
      1000000000 ≤ m.period.toInt ∧
        m.codeWindow.toInt ≤ now.toInt / (wholeSeconds m.period).toInt ∧
        m.windowCodes hmac upper (now.toInt / (wholeSeconds m.period).toInt) =
          m.windowCodes hmac upper (now.toInt * 1000000000 / m.period.toInt) := by
  constructor
  · intro h
    have hsecond : 1000000000 ≤ m.period.toInt := by
      by_contra hlt
      obtain ⟨text, htext, htrim, hsize⟩ : ∃ text, m.code hmac upper 0 = .ok text ∧ _ :=
        code_of_nonneg hupper (by decide)
      obtain ⟨answer, hanswer, -⟩ := h text
      rw [validateCode_panics (by omega) (by rw [htrim, hsize])] at hanswer
      cases hanswer
    -- a code of a window is its own trimming, so what is accepted is about the code itself
    have hsame : ∀ step text, text ∈ m.windowCodes hmac upper step →
        (text ∈ m.windowCodes hmac upper (now.toInt * 1000000000 / m.period.toInt) ↔
          m.codeWindow.toInt ≤ now.toInt / (wholeSeconds m.period).toInt ∧
          text ∈ m.windowCodes hmac upper (now.toInt / (wholeSeconds m.period).toInt)) := by
      rintro step text ⟨c, hc, -, hcode⟩
      obtain ⟨other, hother, htrim, -⟩ := code_of_nonneg hupper hc
      rw [hcode] at hother
      cases hother
      obtain ⟨answer, hanswer, haccept⟩ := h text
      obtain ⟨answer', hanswer', haccept'⟩ := validateCode_ok hupper hnow hsecond text
      rw [hanswer] at hanswer'
      cases hanswer'
      rw [htrim] at haccept haccept'
      exact haccept.symm.trans haccept'
    obtain ⟨text, htext⟩ := windowCodes_nonempty hupper hnow hsecond
    refine ⟨hsecond, ((hsame _ text htext).mp htext).1, Set.ext fun other => ⟨?_, ?_⟩⟩
    · intro hother
      exact (hsame _ other hother).mpr ⟨((hsame _ text htext).mp htext).1, hother⟩
    · intro hother
      exact ((hsame _ other hother).mp hother).2
  · rintro ⟨hsecond, hwindow, hcodes⟩ code
    obtain ⟨answer, hanswer, haccept⟩ := validateCode_ok hupper hnow hsecond code
    refine ⟨answer, hanswer, haccept.trans ?_⟩
    rw [hcodes]
    exact and_iff_right hwindow

end

def ofPeriod (period : Int64) (h : 0 < period) : Manager where
  seed := vectorKey
  label := "phone"
  codeWindow := 1
  digits := 6
  period := period
  algorithm := .sha1
  codeWindow_pos := by decide
  six_le_digits := by decide
  digits_le_eight := by decide
  period_pos := h

end Manager

def vectorEnv : Env where
  sources := ⟨fun _ => .error "", fun _ => none⟩
  upper := Char.toUpper
  decodeBase32 := fun s =>
    if s = "GEZDGNBVGY3TQOJQGEZDGNBVGY3TQOJQ" then .ok vectorKey else .error "illegal base32 data"
  newVerificationRateLimiter := .ok ()

def vectorConfig (period : Int64) : Config where
  label := "phone"
  seed := "GEZDGNBVGY3TQOJQGEZDGNBVGY3TQOJQ"
  codeWindow := 0
  digits := 0
  period := period
  algorithm := ""

theorem Manager.validateCode_window_thirtySeconds :
    newTOTPManager vectorEnv (vectorConfig 0) = .ok (.ofPeriod 30000000000 (by decide)) ∧
      ∀ code, ∃ answer, (Manager.ofPeriod 30000000000 (by decide)).validateCode vectorHmac
          Char.toUpper code 59 = .ok answer ∧
        (answer.2 = true ↔ ∃ c : Int64, 0 ≤ c ∧ |c.toInt - 59 * 1000000000 / 30000000000| ≤ 1 ∧
          generateCode vectorHmac Char.toUpper vectorKey c 6 "SHA1" =
            .ok (Strings.trimSpace code)) := by
  refine ⟨by rfl, ?_⟩
  have hstep := Manager.step_of_whole (m := .ofPeriod 30000000000 (by decide)) (by decide) 59
  refine (Manager.validateCode_window_iff (fun _ _ => rfl) (.ofPeriod 30000000000 (by decide))
    (by decide)).mpr ⟨by decide, ?_, by rw [hstep]⟩
  rw [hstep]
  decide

/-- A period of half a second is accepted, and the first code of six digits ends the program. -/
theorem Manager.halfSecond_panics :
    newTOTPManager vectorEnv (vectorConfig 500000000) = .ok (.ofPeriod 500000000 (by decide)) ∧
      (Manager.ofPeriod 500000000 (by decide)).validateCode vectorHmac Char.toUpper "755224" 59 =
        .error "runtime error: integer divide by zero" :=
  ⟨by rfl, Manager.validateCode_panics (by decide) (by decide +kernel) 59⟩

end Torii.Totp
