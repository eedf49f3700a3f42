import Torii.Go.Strconv
import Torii.Go.Strings
import Torii.Go.Time

/-!
# One-time codes

`generateCode` of `middleware/totp/generator.go`. HMAC is a function of key and message whose sums
have the length of the hash, and `math.Pow10` is exact.
-/

namespace Torii.Totp

open Go

inductive Algorithm where
  | sha1
  | sha256
  | sha512
deriving DecidableEq

namespace Algorithm

def text : Algorithm → String
  | .sha1 => "SHA1"
  | .sha256 => "SHA256"
  | .sha512 => "SHA512"

def size : Algorithm → Nat
  | .sha1 => 20
  | .sha256 => 32
  | .sha512 => 64

end Algorithm

/-- `crypto/hmac`: the sum of a message under a key. -/
structure Hmac where
  sum : Algorithm → List UInt8 → List UInt8 → List UInt8
  length_sum : ∀ algorithm key msg, (sum algorithm key msg).length = algorithm.size

/-- The errors of `generateCode`; an index out of range is a panic. -/
inductive CodeError where
  | negativeCounter
  | digits
  | unsupportedAlgorithm (algorithm : String)
  | indexOutOfRange
deriving DecidableEq

def CodeError.message (quote : String → String) : CodeError → String
  | .negativeCounter => "counter cannot be negative"
  | .digits => "digits must be between 1 and 9"
  | .unsupportedAlgorithm algorithm => "unsupported TOTP algorithm " ++ quote algorithm
  | .indexOutOfRange => "index out of range"

def normalizeAlgorithm (upper : Char → Char) (algorithm : String) : Except CodeError Algorithm :=
  if algorithm = "" then .ok .sha1
  else
    let name := Strings.toUpper upper algorithm
    if name = "SHA1" then .ok .sha1
    else if name = "SHA256" then .ok .sha256
    else if name = "SHA512" then .ok .sha512
    else .error (.unsupportedAlgorithm algorithm)

def putUint64 (v : UInt64) : List UInt8 :=
  [(v >>> 56).toUInt8, (v >>> 48).toUInt8, (v >>> 40).toUInt8, (v >>> 32).toUInt8,
    (v >>> 24).toUInt8, (v >>> 16).toUInt8, (v >>> 8).toUInt8, v.toUInt8]

/-- The `binCode` of a sum; nothing for an index out of range. -/
def truncation (sum : List UInt8) : Option UInt32 := do
  let offset := (← sum[sum.length - 1]?) &&& 0x0f
  let b₀ ← sum[offset.toNat]?
  let b₁ ← sum[(offset + 1).toNat]?
  let b₂ ← sum[(offset + 2).toNat]?
  let b₃ ← sum[(offset + 3).toNat]?
  return (b₀.toUInt32 &&& 0x7f) <<< 24 ||| (b₁.toUInt32 &&& 0xff) <<< 16 |||
    (b₂.toUInt32 &&& 0xff) <<< 8 ||| (b₃.toUInt32 &&& 0xff)

def pad (digits : Int) (code : String) : String :=
  if (code.length : Int) < digits then
    String.ofList (List.replicate (digits - code.length).toNat '0') ++ code
  else code

def generateCode (hmac : Hmac) (upper : Char → Char) (secret : List UInt8) (counter : Int64)
    (digits : Int) (algorithm : String) : Except CodeError String :=
  if counter < 0 then .error .negativeCounter
  else if digits ≤ 0 ∨ 9 < digits then .error .digits
  else
    match normalizeAlgorithm upper algorithm with
    | .error e => .error e
    | .ok algorithm =>
      let msg := putUint64 counter.toUInt64
      match truncation (hmac.sum algorithm secret msg) with
      | none => .error .indexOutOfRange
      | some binCode =>
        let mod := UInt32.ofNat (10 ^ digits.toNat)
        .ok (pad digits (Strconv.itoa (binCode % mod).toNat))

/-! ### The standard -/

/-- The number that bytes are, the highest one first. -/
def bigEndian (bytes : List UInt8) : Nat := bytes.foldl (fun n b => 256 * n + b.toNat) 0

/-- Dynamic truncation: four bytes from the place that the last byte tells, 31 bits of them. -/
def dynamicTruncation (digest : List UInt8) : Nat :=
  let offset := (digest.getLastD 0).toNat % 16
  bigEndian ((digest.drop offset).take 4) % 2 ^ 31

theorem toNat_pack (b₀ b₁ b₂ b₃ : UInt8) :
    ((b₀.toUInt32 &&& 0x7f) <<< 24 ||| (b₁.toUInt32 &&& 0xff) <<< 16 |||
      (b₂.toUInt32 &&& 0xff) <<< 8 ||| (b₃.toUInt32 &&& 0xff)).toNat =
      b₀.toNat % 128 * 2 ^ 24 + b₁.toNat * 2 ^ 16 + b₂.toNat * 2 ^ 8 + b₃.toNat := by
  have hlow : ∀ b : UInt8, (b.toUInt32 &&& 0xff).toNat = b.toNat := by
    intro b
    have hb := b.toNat_lt
    rw [UInt32.toNat_and]
    exact (Nat.and_two_pow_sub_one_eq_mod _ 8).trans (Nat.mod_eq_of_lt (by simpa using hb))
  have hhigh : (b₀.toUInt32 &&& 0x7f).toNat = b₀.toNat % 128 := by
    rw [UInt32.toNat_and]
    exact Nat.and_two_pow_sub_one_eq_mod _ 7
  have h₁ := b₁.toNat_lt
  have h₂ := b₂.toNat_lt
  have h₃ := b₃.toNat_lt
  have hor : ∀ i a b : Nat, b < 2 ^ i → a * 2 ^ i ||| b = a * 2 ^ i + b := by
    intro i a b hb
    rw [← Nat.shiftLeft_eq, Nat.shiftLeft_add_eq_or_of_lt hb]
  have h₀ : b₀.toNat % 128 < 2 ^ 7 := Nat.mod_lt _ (by decide)
  simp only [UInt32.toNat_or, UInt32.toNat_shiftLeft, hhigh, hlow, Nat.shiftLeft_eq,
    UInt32.reduceToNat, Nat.reduceMod]
  generalize b₀.toNat % 128 = a at h₀ ⊢
  have hfirst := hor 24 a (b₁.toNat * 2 ^ 16) (by omega)
  have hsecond := hor 16 (a * 2 ^ 8 + b₁.toNat) (b₂.toNat * 2 ^ 8) (by omega)
  have hthird := hor 8 (a * 2 ^ 16 + b₁.toNat * 2 ^ 8 + b₂.toNat) b₃.toNat (by omega)
  simp only [Nat.mod_eq_of_lt (show a * 2 ^ 24 < 2 ^ 32 by omega),
    Nat.mod_eq_of_lt (show b₁.toNat * 2 ^ 16 < 2 ^ 32 by omega),
    Nat.mod_eq_of_lt (show b₂.toNat * 2 ^ 8 < 2 ^ 32 by omega), hfirst]
  rw [show a * 2 ^ 24 + b₁.toNat * 2 ^ 16 = (a * 2 ^ 8 + b₁.toNat) * 2 ^ 16 by omega, hsecond,
    show (a * 2 ^ 8 + b₁.toNat) * 2 ^ 16 + b₂.toNat * 2 ^ 8 =
      (a * 2 ^ 16 + b₁.toNat * 2 ^ 8 + b₂.toNat) * 2 ^ 8 by omega, hthird]

theorem bigEndian_putUint64 (v : UInt64) : bigEndian (putUint64 v) = v.toNat := by
  have hv := v.toNat_lt
  simp only [bigEndian, putUint64, List.foldl_cons, List.foldl_nil, UInt64.toNat_toUInt8,
    UInt64.toNat_shiftRight, Nat.shiftRight_eq_div_pow]
  simp only [UInt64.reduceToNat, Nat.reduceMod, Nat.reducePow]
  omega

theorem truncation_toNat {sum : List UInt8} (h : 20 ≤ sum.length) :
    ∃ binCode, truncation sum = some binCode ∧ binCode.toNat = dynamicTruncation sum := by
  obtain ⟨last, hlast⟩ : ∃ last, sum[sum.length - 1]? = some last :=
    ⟨_, List.getElem?_eq_getElem (by omega)⟩
  have hlastD : sum.getLastD 0 = last := by
    rw [List.getLastD_eq_getLast?, List.getLast?_eq_getElem?, hlast, Option.getD_some]
  have hoffset : (last &&& 0x0f).toNat = last.toNat % 16 := by
    rw [UInt8.toNat_and]
    exact Nat.and_two_pow_sub_one_eq_mod _ 4
  have hlt : last.toNat % 16 < 16 := Nat.mod_lt _ (by decide)
  have hnext : ∀ i : UInt8, i.toNat ≤ 3 →
      ((last &&& 0x0f) + i).toNat = last.toNat % 16 + i.toNat := by
    intro i hi
    rw [UInt8.toNat_add, hoffset]
    exact Nat.mod_eq_of_lt (by omega)
  -- from the offset on there are at least four bytes
  obtain ⟨b₀, b₁, b₂, b₃, rest, hdrop⟩ : ∃ b₀ b₁ b₂ b₃ rest,
      sum.drop (last.toNat % 16) = b₀ :: b₁ :: b₂ :: b₃ :: rest := by
    have hlength : 4 ≤ (sum.drop (last.toNat % 16)).length := by
      rw [List.length_drop]
      omega
    match hrest : sum.drop (last.toNat % 16), hlength with
    | b₀ :: b₁ :: b₂ :: b₃ :: rest, _ => exact ⟨b₀, b₁, b₂, b₃, rest, rfl⟩
  have hbyte : ∀ i, sum[last.toNat % 16 + i]? = (b₀ :: b₁ :: b₂ :: b₃ :: rest)[i]? := by
    intro i
    rw [← hdrop, List.getElem?_drop]
  refine ⟨_, ?_, toNat_pack b₀ b₁ b₂ b₃ |>.trans ?_⟩
  · have h₀ : sum[last.toNat % 16]? = some b₀ := hbyte 0
    rw [truncation, hlast]
    simp only [Option.bind_eq_bind, Option.bind_some, hoffset, h₀, hnext 1 (by decide),
      hnext 2 (by decide), hnext 3 (by decide), hbyte]
    rfl
  · have hb₁ := b₁.toNat_lt
    have hb₂ := b₂.toNat_lt
    have hb₃ := b₃.toNat_lt
    simp only [dynamicTruncation, hlastD, hdrop, List.take, bigEndian, List.foldl_cons,
      List.foldl_nil]
    omega

theorem toList_itoa_natCast (n : Nat) : (Strconv.itoa n).toList = Nat.toDigits 10 n := by
  rw [Strconv.toList_itoa, if_pos (by omega), Int.toNat_natCast]

section

variable {digits n : Nat}

theorem toList_pad_itoa (hpos : 0 < digits) (h : n < 10 ^ digits) :
    (pad digits (Strconv.itoa n)).toList =
      List.replicate (digits - (Nat.toDigits 10 n).length) '0' ++ Nat.toDigits 10 n := by
  have hlength : (Strconv.itoa n).length = (Nat.toDigits 10 n).length := by
    rw [← String.length_toList, toList_itoa_natCast]
  have hle : (Nat.toDigits 10 n).length ≤ digits :=
    (Nat.length_toDigits_le_iff (by decide) hpos).mpr h
  rw [pad, hlength]
  split
  · rw [String.toList_append, String.toList_ofList, toList_itoa_natCast]
    congr 2
    omega
  · rw [show digits - (Nat.toDigits 10 n).length = 0 by omega, toList_itoa_natCast]
    rfl

theorem isDigit_of_mem_pad_itoa (hpos : 0 < digits) (h : n < 10 ^ digits) {c : Char}
    (hc : c ∈ (pad digits (Strconv.itoa n)).toList) : c.isDigit = true := by
  rw [toList_pad_itoa hpos h] at hc
  obtain hc | hc := List.mem_append.mp hc
  · rw [List.eq_of_mem_replicate hc]
    decide
  · exact Nat.isDigit_of_mem_toDigits (by decide) (by decide) hc

theorem pad_itoa (hpos : 0 < digits) (h : n < 10 ^ digits) :
    (pad digits (Strconv.itoa n)).length = digits ∧
      Strconv.digitsVal (pad digits (Strconv.itoa n)).toList = some n := by
  have htext := toList_pad_itoa hpos h
  have hle : (Nat.toDigits 10 n).length ≤ digits :=
    (Nat.length_toDigits_le_iff (by decide) hpos).mpr h
  refine ⟨?_, ?_⟩
  · rw [← String.length_toList, htext, List.length_append, List.length_replicate]
    omega
  · rw [Strconv.digitsVal_of_isDigit fun c => isDigit_of_mem_pad_itoa hpos h, htext,
      Nat.ofDigitChars_append, Nat.ofDigitChars_replicate_zero, Nat.mul_zero,
      Nat.ofDigitChars_ten_toDigits]

end

/-- The table of `unicode.ToUpper` on the letters of ASCII. -/
def AsciiUpper (upper : Char → Char) : Prop := ∀ c : Char, c.toNat < 128 → upper c = c.toUpper

theorem toUpper_text {upper : Char → Char} (hupper : AsciiUpper upper) (algorithm : Algorithm) :
    Strings.toUpper upper algorithm.text = algorithm.text := by
  have hascii : algorithm.text.toList.all (fun c => c.toNat < 128 && c.toUpper == c) = true := by
    cases algorithm <;> decide
  have hmap : algorithm.text.toList.map upper = algorithm.text.toList.map id := by
    apply List.map_congr_left
    intro c hc
    have hbound := List.all_eq_true.mp hascii c hc
    simp only [Bool.and_eq_true, decide_eq_true_eq, beq_iff_eq] at hbound
    exact (hupper c hbound.1).trans hbound.2
  rw [Strings.toUpper, hmap, List.map_id, String.ofList_toList]

theorem normalizeAlgorithm_text {upper : Char → Char} (hupper : AsciiUpper upper)
    (algorithm : Algorithm) : normalizeAlgorithm upper algorithm.text = .ok algorithm := by
  have hname := toUpper_text hupper algorithm
  cases algorithm with
  | sha1 | sha256 | sha512 =>
    simp only [Algorithm.text] at hname
    simp [normalizeAlgorithm, Algorithm.text, hname]

section

variable (hmac : Hmac) {upper : Char → Char} (secret : List UInt8) {counter : Int64} {digits : Int}

theorem generateCode_eq (hupper : AsciiUpper upper) (hcounter : 0 ≤ counter) (hpos : 1 ≤ digits)
    (hnine : digits ≤ 9) (algorithm : Algorithm) :
    generateCode hmac upper secret counter digits algorithm.text =
      .ok (pad digits (Strconv.itoa (dynamicTruncation
        (hmac.sum algorithm secret (putUint64 counter.toUInt64)) % 10 ^ digits.toNat : Nat))) := by
  have hlength : 20 ≤ (hmac.sum algorithm secret (putUint64 counter.toUInt64)).length := by
    rw [hmac.length_sum]
    cases algorithm <;> decide
  obtain ⟨binCode, hbin, hval⟩ := truncation_toNat hlength
  have hmod : (UInt32.ofNat (10 ^ digits.toNat)).toNat = 10 ^ digits.toNat := by
    have hle : 10 ^ digits.toNat ≤ 10 ^ 9 := Nat.pow_le_pow_right (by decide) (by omega)
    rw [UInt32.toNat_ofNat']
    exact Nat.mod_eq_of_lt (by omega)
  rw [generateCode, if_neg (Int64.not_lt.mpr hcounter), if_neg (by omega),
    normalizeAlgorithm_text hupper]
  simp only [hbin, UInt32.toNat_mod, hmod, hval]

/-- The codes are those of the standard. -/
theorem generateCode_standard (hupper : AsciiUpper upper) (hcounter : 0 ≤ counter)
    (hpos : 1 ≤ digits) (hnine : digits ≤ 9) (algorithm : Algorithm) :
    ∃ code msg, generateCode hmac upper secret counter digits algorithm.text = .ok code ∧
      msg.length = 8 ∧ (bigEndian msg : Int) = counter.toInt ∧ (code.length : Int) = digits ∧
      Strconv.digitsVal code.toList =
        some (dynamicTruncation (hmac.sum algorithm secret msg) % 10 ^ digits.toNat) := by
  have hlt := Nat.mod_lt (dynamicTruncation (hmac.sum algorithm secret
    (putUint64 counter.toUInt64))) (Nat.pow_pos (n := digits.toNat) (show 0 < 10 by decide))
  have hpad := pad_itoa (by omega) hlt
  rw [Int.toNat_of_nonneg (by omega)] at hpad
  refine ⟨_, putUint64 counter.toUInt64,
    generateCode_eq hmac secret hupper hcounter hpos hnine algorithm, rfl, ?_, ?_, hpad.2⟩
  · rw [bigEndian_putUint64, Int64.toNat_toUInt64_of_le hcounter,
      Int64.cast_toNatClampNeg counter hcounter]
  · omega

end

def vectorKey : List UInt8 := "12345678901234567890".toList.map fun c => UInt8.ofNat c.toNat

def vectorSum : List UInt8 :=
  [204, 147, 207, 24, 80, 141, 148, 147, 76, 100, 182, 93, 139, 167, 102, 127,
    183, 205, 228, 176]

def vectorHmac : Hmac where
  sum
    | .sha1, _, _ => vectorSum
    | .sha256, _, _ => List.replicate 32 0
    | .sha512, _, _ => List.replicate 64 0
  length_sum
    | .sha1, _, _ => rfl
    | .sha256, _, _ => List.length_replicate
    | .sha512, _, _ => List.length_replicate

theorem generateCode_standard_vector :
    generateCode vectorHmac Char.toUpper vectorKey 0 6 "SHA1" = .ok "755224" ∧
      ∃ code msg, generateCode vectorHmac Char.toUpper vectorKey 0 6 "SHA1" = .ok code ∧
        msg.length = 8 ∧ (bigEndian msg : Int) = 0 ∧ (code.length : Int) = 6 ∧
        Strconv.digitsVal code.toList =
          some (dynamicTruncation (vectorHmac.sum .sha1 vectorKey msg) % 10 ^ 6) :=
  ⟨by decide +kernel, generateCode_standard vectorHmac vectorKey (fun _ _ => rfl) (by decide)
    (by decide) (by decide) .sha1⟩

end Torii.Totp
