import Mathlib.Algebra.Order.Ring.Int

/-!
# Numbers in texts

`Itoa`, `ParseInt` and `Atoi` of `strconv`. `parseInt_eq_some_iff` says what is read.
-/

namespace Go.Strconv

/-! ### Digits -/

def digitVal (c : Char) : Option Nat := if c.isDigit then some (c.toNat - 48) else none

def digitsVal : List Char → Option Nat :=
  List.foldlM (fun n c => (digitVal c).map (n * 10 + ·)) 0

theorem digitsVal_of_isDigit {cs : List Char} (h : ∀ c ∈ cs, c.isDigit = true) :
    digitsVal cs = some (Nat.ofDigitChars 10 cs 0) := by
  have hfold : ∀ n, cs.foldlM (fun n c => (digitVal c).map (n * 10 + ·)) n =
      some (Nat.ofDigitChars 10 cs n) := by
    induction cs with
    | nil => simp
    | cons c cs ih =>
      obtain ⟨hc, hcs⟩ := List.forall_mem_cons.mp h
      intro n
      have hval : digitVal c = some (c.toNat - 48) := if_pos hc
      simp only [List.foldlM_cons, hval, Option.map_some, Option.bind_eq_bind, Option.bind_some,
        ih hcs, Nat.ofDigitChars_cons, Nat.mul_comm n 10]
      rfl
  exact hfold 0

theorem isDigit_of_digitsVal {cs : List Char} {n : Nat} (h : digitsVal cs = some n) :
    ∀ c ∈ cs, c.isDigit = true := by
  have hfold : ∀ m k, cs.foldlM (fun n c => (digitVal c).map (n * 10 + ·)) m = some k →
      ∀ c ∈ cs, c.isDigit = true := by
    clear h
    induction cs with
    | nil => simp
    | cons c cs ih =>
      intro m k hrest
      rw [List.foldlM_cons, Option.bind_eq_bind, Option.bind_eq_some_iff] at hrest
      obtain ⟨m', hfirst, hrest⟩ := hrest
      obtain ⟨v, hv, -⟩ := Option.map_eq_some_iff.mp hfirst
      have hc : c.isDigit = true := by
        by_contra hc
        rw [digitVal, if_neg hc] at hv
        cases hv
      exact List.forall_mem_cons.mpr ⟨hc, ih m' k hrest⟩
  exact hfold 0 n h

theorem digitsVal_eq_some_iff {cs : List Char} {n : Nat} :
    digitsVal cs = some n ↔ (∀ c ∈ cs, c.isDigit = true) ∧ Nat.ofDigitChars 10 cs 0 = n := by
  constructor
  · intro h
    have hdigits := isDigit_of_digitsVal h
    exact ⟨hdigits, Option.some.inj ((digitsVal_of_isDigit hdigits).symm.trans h)⟩
  · rintro ⟨hdigits, rfl⟩
    exact digitsVal_of_isDigit hdigits

/-! ### Writing -/

def itoa (n : Int) : String := n.repr

theorem toList_itoa (n : Int) :
    (itoa n).toList =
      if 0 ≤ n then Nat.toDigits 10 n.toNat else '-' :: Nat.toDigits 10 (-n).toNat := by
  rw [itoa, Int.repr_eq_if]
  split
  · rw [Nat.toList_repr]
  · simp [String.toList_append, Nat.toList_repr]

theorem itoa_ne_empty (n : Int) : itoa n ≠ "" := by
  intro h
  have hlist := toList_itoa n
  rw [h] at hlist
  split at hlist
  · exact Nat.toDigits_ne_nil hlist.symm
  · cases hlist

theorem itoa_inj {m n : Int} (h : itoa m = itoa n) : m = n := by
  have hlist := congrArg String.toList h
  rw [toList_itoa, toList_itoa] at hlist
  have hdigits : ∀ k l : Nat, Nat.toDigits 10 k = Nat.toDigits 10 l → k = l := by
    intro k l heq
    rw [← Nat.ofDigitChars_ten_toDigits (n := k), heq, Nat.ofDigitChars_ten_toDigits]
  have hsign : ∀ k l : Nat, Nat.toDigits 10 k ≠ '-' :: Nat.toDigits 10 l := by
    intro k l heq
    have hmem : '-' ∈ Nat.toDigits 10 k := by rw [heq]; exact List.mem_cons_self
    exact absurd (Nat.isDigit_of_mem_toDigits (by decide) (by decide) hmem) (by decide)
  split at hlist <;> split at hlist
  · have := hdigits _ _ hlist
    omega
  · exact absurd hlist (hsign _ _)
  · exact absurd hlist.symm (hsign _ _)
  · have := hdigits _ _ (List.cons.inj hlist).2
    omega

/-! ### Reading -/

/-- The number that digits make with a sign, if it is in range. -/
def readSigned (sign : Int) (digits : List Char) : Option Int :=
  if digits = [] then none
  else
    (digitsVal digits).bind fun n =>
      if -2 ^ 63 ≤ sign * n ∧ sign * n < 2 ^ 63 then some (sign * n) else none

/-- `strconv.ParseInt` in base 10 for 64 bits. -/
def parseInt : List Char → Option Int
  | '-' :: digits => readSigned (-1) digits
  | '+' :: digits => readSigned 1 digits
  | digits => readSigned 1 digits

def Fits (n : Int) : Prop := -2 ^ 63 ≤ n ∧ n < 2 ^ 63

/-- An optional sign, and digits with the value of the number. -/
def Number (s : List Char) (n : Int) : Prop :=
  ∃ sign digits, s = sign ++ digits ∧ digits ≠ [] ∧ (∀ c ∈ digits, c.isDigit = true) ∧
    ((sign = [] ∨ sign = ['+']) ∧ n = Nat.ofDigitChars 10 digits 0 ∨
      sign = ['-'] ∧ n = -Nat.ofDigitChars 10 digits 0)

variable {s : List Char} {n : Int}

theorem not_sign_of_isDigit {c : Char} (h : c.isDigit = true) : c ≠ '-' ∧ c ≠ '+' := by
  constructor
  · rintro rfl
    exact absurd h (by decide)
  · rintro rfl
    exact absurd h (by decide)

theorem Number.ne_nil (h : Number s n) : s ≠ [] := by
  obtain ⟨sign, digits, rfl, hne, -⟩ := h
  simp [hne]

theorem Number.getLast_isDigit {c : Char} (h : Number (s ++ [c]) n) : c.isDigit = true := by
  obtain ⟨sign, digits, heq, hne, hdigits, -⟩ := h
  rw [← List.dropLast_concat_getLast hne, ← List.append_assoc] at heq
  obtain ⟨-, hc⟩ := List.append_inj' heq rfl
  rw [List.cons.inj hc |>.1]
  exact hdigits _ (List.getLast_mem hne)

def signedValue : List Char → Int
  | '-' :: digits => -Nat.ofDigitChars 10 digits 0
  | '+' :: digits => Nat.ofDigitChars 10 digits 0
  | digits => Nat.ofDigitChars 10 digits 0

theorem Number.eq_signedValue (h : Number s n) : n = signedValue s := by
  obtain ⟨sign, digits, rfl, hne, hdigits, ⟨rfl | rfl, rfl⟩ | ⟨rfl, rfl⟩⟩ := h
  · obtain ⟨c, rest, rfl⟩ := List.exists_cons_of_ne_nil hne
    obtain ⟨hminus, hplus⟩ := not_sign_of_isDigit (hdigits c (by simp))
    simp [signedValue, hminus, hplus]
  · rfl
  · rfl

variable {digits : List Char}

theorem readSigned_eq_some_iff {sign : Int} : readSigned sign digits = some n ↔
    (digits ≠ [] ∧ (∀ c ∈ digits, c.isDigit = true) ∧
      sign * Nat.ofDigitChars 10 digits 0 = n) ∧ Fits n := by
  rw [readSigned]
  by_cases hnil : digits = []
  · simp [hnil]
  · rw [if_neg hnil, Option.bind_eq_some_iff]
    simp only [digitsVal_eq_some_iff, Option.ite_none_right_eq_some, Option.some.injEq]
    constructor
    · rintro ⟨m, ⟨hdigits, rfl⟩, hfits, rfl⟩
      exact ⟨⟨hnil, hdigits, rfl⟩, hfits⟩
    · rintro ⟨⟨-, hdigits, rfl⟩, hfits⟩
      exact ⟨_, ⟨hdigits, rfl⟩, hfits, rfl⟩

theorem number_minus : Number ('-' :: digits) n ↔ digits ≠ [] ∧
    (∀ c ∈ digits, c.isDigit = true) ∧ -1 * Nat.ofDigitChars 10 digits 0 = n := by
  rw [Int.neg_mul, Int.one_mul]
  constructor
  · rintro ⟨sign, digits', heq, hne, hdigits, ⟨rfl | rfl, rfl⟩ | ⟨rfl, rfl⟩⟩
    · rw [List.nil_append] at heq
      subst heq
      exact absurd rfl (not_sign_of_isDigit (hdigits '-' (by simp))).1
    · simp at heq
    · obtain rfl : digits = digits' := by simpa using heq
      exact ⟨hne, hdigits, rfl⟩
  · rintro ⟨hne, hdigits, rfl⟩
    exact ⟨['-'], digits, rfl, hne, hdigits, .inr ⟨rfl, rfl⟩⟩

theorem number_plus : Number ('+' :: digits) n ↔ digits ≠ [] ∧
    (∀ c ∈ digits, c.isDigit = true) ∧ 1 * Nat.ofDigitChars 10 digits 0 = n := by
  rw [Int.one_mul]
  constructor
  · rintro ⟨sign, digits', heq, hne, hdigits, ⟨rfl | rfl, rfl⟩ | ⟨rfl, rfl⟩⟩
    · rw [List.nil_append] at heq
      subst heq
      exact absurd rfl (not_sign_of_isDigit (hdigits '+' (by simp))).2
    · obtain rfl : digits = digits' := by simpa using heq
      exact ⟨hne, hdigits, rfl⟩
    · simp at heq
  · rintro ⟨hne, hdigits, rfl⟩
    exact ⟨['+'], digits, rfl, hne, hdigits, .inl ⟨.inr rfl, rfl⟩⟩

theorem number_unsigned (hminus : ∀ rest, digits ≠ '-' :: rest)
    (hplus : ∀ rest, digits ≠ '+' :: rest) : Number digits n ↔ digits ≠ [] ∧
      (∀ c ∈ digits, c.isDigit = true) ∧ 1 * Nat.ofDigitChars 10 digits 0 = n := by
  rw [Int.one_mul]
  constructor
  · rintro ⟨sign, rest, rfl, hne, hdigits, ⟨rfl | rfl, rfl⟩ | ⟨rfl, rfl⟩⟩
    · exact ⟨hne, hdigits, rfl⟩
    · exact absurd rfl (hplus rest)
    · exact absurd rfl (hminus rest)
  · rintro ⟨hne, hdigits, rfl⟩
    exact ⟨[], digits, rfl, hne, hdigits, .inl ⟨.inl rfl, rfl⟩⟩

/-- `ParseInt` reads the numbers that fit into 64 bits, and nothing else. -/
theorem parseInt_eq_some_iff : parseInt s = some n ↔ Number s n ∧ Fits n := by
  unfold parseInt
  split
  · rw [readSigned_eq_some_iff, number_minus]
  · rw [readSigned_eq_some_iff, number_plus]
  · next hminus hplus => rw [readSigned_eq_some_iff, number_unsigned hminus hplus]

theorem parseInt_itoa (h : Fits n) : parseInt (itoa n).toList = some n := by
  refine parseInt_eq_some_iff.mpr ⟨?_, h⟩
  have hdigit : ∀ m, ∀ c ∈ Nat.toDigits 10 m, c.isDigit = true := fun _ _ hc =>
    Nat.isDigit_of_mem_toDigits (by decide) (by decide) hc
  rw [toList_itoa]
  split
  · refine ⟨[], Nat.toDigits 10 n.toNat, rfl, Nat.toDigits_ne_nil, hdigit _, .inl ⟨.inl rfl, ?_⟩⟩
    rw [Nat.ofDigitChars_ten_toDigits]
    omega
  · refine ⟨['-'], Nat.toDigits 10 (-n).toNat, rfl, Nat.toDigits_ne_nil, hdigit _,
      .inr ⟨rfl, ?_⟩⟩
    rw [Nat.ofDigitChars_ten_toDigits]
    omega

/-- `strconv.Atoi`; nothing for an error. -/
def atoi (s : String) : Option Int64 := (parseInt s.toList).map Int64.ofInt

end Go.Strconv
