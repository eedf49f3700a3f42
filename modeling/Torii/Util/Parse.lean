import Torii.Go.Strconv

/-!
# Sizes and durations in configurations

`ParseSizeString` and `ParseTimeString` of `internal/util/parse.go`. Strings are read by characters
where the source slices bytes; only ASCII strings are accepted. A digit cannot stand in front of the
`s` of `ms`, so the two characters that `ParseTimeString` tries first are never a wrong choice.
-/

namespace Torii.Util

open Go Strconv

def acceptedSuffixes : List (String × Int) :=
  [("ms", 1000000), ("s", 1000000000), ("m", 60000000000), ("h", 3600000000000)]

inductive TimeError where
  | invalid (timeStr : String)
  | suffix (stringSuffix : String)
  | number (numberPart : String)
deriving DecidableEq

def TimeError.message (numError : String → String) : TimeError → String
  | .invalid timeStr => "invalid time string: " ++ timeStr
  | .suffix stringSuffix =>
    "invalid time suffix: " ++ stringSuffix ++ ". Accepted suffixes are: ms, s, m, h"
  | .number numberPart => numError numberPart

def suffixLength (timeStr : List Char) : Nat :=
  if 3 ≤ timeStr.length ∧
      (acceptedSuffixes.lookup (String.ofList (timeStr.drop (timeStr.length - 2)))).isSome then 2
  else 1

/-- `ParseTimeString`; the product is one of 64-bit integers. -/
def parseTimeString (timeStr : String) : Except TimeError Int :=
  let cs := timeStr.toList
  if cs.length < 2 then .error (.invalid timeStr)
  else
    let n := cs.length - suffixLength cs
    let stringSuffix := String.ofList (cs.drop n)
    match acceptedSuffixes.lookup stringSuffix with
    | none => .error (.suffix stringSuffix)
    | some unit =>
      match parseInt (cs.take n) with
      | none => .error (.number (String.ofList (cs.take n)))
      | some number => .ok ((number * unit).bmod (2 ^ 64))

example : parseTimeString "250ms" = .ok 250000000 := by decide +kernel

def sizeSuffixes : List (String × Int) :=
  [("b", 1), ("k", 1024), ("m", 1024 * 1024), ("g", 1024 * 1024 * 1024)]

inductive SizeError where
  | invalid (maxSize : String)
  | suffix (stringSuffix : String)
  | number (numberSuffix : String)
deriving DecidableEq

def SizeError.message (numError : String → String) : SizeError → String
  | .invalid maxSize => "invalid size string: " ++ maxSize
  | .suffix stringSuffix => "invalid size suffix: " ++ stringSuffix
  | .number numberSuffix => numError numberSuffix

/-- `ParseSizeString`; the product is one of 64-bit integers. -/
def parseSizeString (maxSize : String) : Except SizeError Int :=
  let cs := maxSize.toList
  if cs.length < 2 then .error (.invalid maxSize)
  else
    let n := cs.length - 1
    let stringSuffix := String.ofList (cs.drop n)
    match sizeSuffixes.lookup stringSuffix with
    | none => .error (.suffix stringSuffix)
    | some multiplier =>
      match parseInt (cs.take n) with
      | none => .error (.number (String.ofList (cs.take n)))
      | some number => .ok ((number * multiplier).bmod (2 ^ 64))

/-! ### The grammar -/

/-- The text is a 64-bit number with one of the units behind it. -/
def Written (units : List (String × Int)) (s : String) (n unit : Int) : Prop :=
  ∃ text suffix, s.toList = text ++ suffix.toList ∧ (suffix, unit) ∈ units ∧ Number text n ∧ Fits n

/-! ### What is read -/

variable {units : List (String × Int)} {s : List Char} {n : Int} {suffix : String} {unit : Int}

theorem bmod_eq_self_iff : n.bmod (2 ^ 64) = n ↔ Fits n := by
  rw [Fits]
  constructor
  · intro h
    have hlo := Int.le_bmod (x := n) (m := 2 ^ 64) (by decide)
    have hhi := Int.bmod_lt (x := n) (m := 2 ^ 64) (by decide)
    omega
  · rintro ⟨hlo, hhi⟩
    exact Int.bmod_eq_of_le (by omega) (by omega)

/-- The unit in the last characters, and the number in front of them. -/
def readUnit (units : List (String × Int)) (cs : List Char) (length : Nat) : Option Int :=
  (units.lookup (String.ofList (cs.drop (cs.length - length)))).bind fun unit =>
    (parseInt (cs.take (cs.length - length))).map fun number => (number * unit).bmod (2 ^ 64)

def Indexed (units : List (String × Int)) : Prop :=
  ∀ suffix unit, units.lookup suffix = some unit ↔ (suffix, unit) ∈ units

theorem readUnit_eq_some_iff (hunits : Indexed units)
    {cs : List Char} {length : Nat} (hlength : length ≤ cs.length) {v : Int} :
    readUnit units cs length = some v ↔
      ∃ text suffix n unit, cs = text ++ suffix.toList ∧ suffix.toList.length = length ∧
        (suffix, unit) ∈ units ∧ Number text n ∧ Fits n ∧ (n * unit).bmod (2 ^ 64) = v := by
  simp only [readUnit, Option.bind_eq_some_iff, Option.map_eq_some_iff, hunits _ _,
    parseInt_eq_some_iff]
  constructor
  · rintro ⟨unit, hunit, n, ⟨hnumber, hfits⟩, rfl⟩
    refine ⟨_, _, n, unit, ?_, ?_, hunit, hnumber, hfits, rfl⟩
    · rw [String.toList_ofList, List.take_append_drop]
    · rw [String.toList_ofList, List.length_drop]
      omega
  · rintro ⟨text, suffix, n, unit, rfl, rfl, hunit, hnumber, hfits, rfl⟩
    have hcut : (text ++ suffix.toList).length - suffix.toList.length = text.length := by
      rw [List.length_append, Nat.add_sub_cancel]
    rw [hcut, List.drop_left, List.take_left, String.ofList_toList]
    exact ⟨unit, hunit, n, ⟨hnumber, hfits⟩, rfl⟩

theorem indexed_of_nodup (h : (units.map Prod.fst).Nodup) : Indexed units := by
  intro suffix unit
  constructor
  · intro hlookup
    obtain ⟨before, after, rfl, -⟩ := List.lookup_eq_some_iff.mp hlookup
    simp
  · intro hmem
    obtain ⟨before, after, rfl⟩ := List.append_of_mem hmem
    refine List.lookup_eq_some_iff.mpr ⟨before, after, rfl, ?_⟩
    rw [List.map_append, List.map_cons, List.nodup_append] at h
    intro p hp
    exact bne_iff_ne.mpr (h.2.2 p.1 (List.mem_map_of_mem hp) suffix (by simp)).symm

theorem indexed_sizeSuffixes : Indexed sizeSuffixes := indexed_of_nodup (by decide)

theorem indexed_acceptedSuffixes : Indexed acceptedSuffixes := indexed_of_nodup (by decide)

theorem toOption_read {ε : Type} (units : List (String × Int)) (cs : List Char) (length : Nat)
    (badUnit badNumber : ε) :
    (match units.lookup (String.ofList (cs.drop (cs.length - length))) with
      | none => .error badUnit
      | some unit =>
        match parseInt (cs.take (cs.length - length)) with
        | none => .error badNumber
        | some number => .ok ((number * unit).bmod (2 ^ 64)) : Except ε Int).toOption =
      readUnit units cs length := by
  rw [readUnit]
  cases units.lookup (String.ofList (cs.drop (cs.length - length))) with
  | none => rfl
  | some unit =>
    cases parseInt (cs.take (cs.length - length)) with
    | none | some => rfl

theorem length_sizeSuffixes (h : (suffix, unit) ∈ sizeSuffixes) : suffix.toList.length = 1 := by
  simp only [sizeSuffixes, List.mem_cons, Prod.mk.injEq, List.not_mem_nil, or_false] at h
  obtain ⟨rfl, -⟩ | ⟨rfl, -⟩ | ⟨rfl, -⟩ | ⟨rfl, -⟩ := h <;> decide

theorem length_acceptedSuffixes
    (h : (suffix, unit) ∈ acceptedSuffixes) : suffix = "ms" ∨ suffix.toList.length = 1 := by
  simp only [acceptedSuffixes, List.mem_cons, Prod.mk.injEq, List.not_mem_nil, or_false] at h
  obtain ⟨rfl, -⟩ | ⟨rfl, -⟩ | ⟨rfl, -⟩ | ⟨rfl, -⟩ := h <;> decide

theorem parseSizeString_eq_some_iff {s : String} {v : Int} :
    (parseSizeString s).toOption = some v ↔
      ∃ n unit, Written sizeSuffixes s n unit ∧ (n * unit).bmod (2 ^ 64) = v := by
  unfold parseSizeString
  dsimp only
  split
  · next hshort =>
    simp only [Except.toOption, reduceCtorEq, false_iff]
    rintro ⟨n, unit, ⟨text, suffix, hs, hunit, hnumber, -⟩, -⟩
    have htext := List.length_pos_iff.mpr hnumber.ne_nil
    rw [hs, List.length_append, length_sizeSuffixes hunit] at hshort
    omega
  · next hlong =>
    rw [toOption_read, readUnit_eq_some_iff indexed_sizeSuffixes (by omega)]
    constructor
    · rintro ⟨text, suffix, n, unit, hs, -, hunit, hnumber, hfits, rfl⟩
      exact ⟨n, unit, ⟨text, suffix, hs, hunit, hnumber, hfits⟩, rfl⟩
    · rintro ⟨n, unit, ⟨text, suffix, hs, hunit, hnumber, hfits⟩, rfl⟩
      exact ⟨text, suffix, n, unit, hs, length_sizeSuffixes hunit, hunit, hnumber, hfits, rfl⟩

theorem suffixLength_eq (cs : List Char) :
    suffixLength cs = if 3 ≤ cs.length ∧ cs.drop (cs.length - 2) = ['m', 's'] then 2 else 1 := by
  rw [suffixLength]
  congr 1
  simp only [eq_iff_iff]
  refine and_congr_right fun hlength => ?_
  have htwo : (cs.drop (cs.length - 2)).length = 2 := by
    rw [List.length_drop]
    omega
  constructor
  · intro h
    obtain ⟨unit, hunit⟩ := Option.isSome_iff_exists.mp h
    obtain hms | hone := length_acceptedSuffixes ((indexed_acceptedSuffixes _ _).mp hunit)
    · simpa [← String.toList_inj] using hms
    · rw [String.toList_ofList, htwo] at hone
      cases hone
  · intro h
    rw [h]
    decide

theorem suffixLength_of_written {text : List Char}
    (hnumber : Number text n) (hunit : (suffix, unit) ∈ acceptedSuffixes) :
    suffixLength (text ++ suffix.toList) = suffix.toList.length := by
  have htext := List.length_pos_iff.mpr hnumber.ne_nil
  rw [suffixLength_eq]
  obtain rfl | hone := length_acceptedSuffixes hunit
  · have hlength : (text ++ "ms".toList).length = text.length + 2 := by simp
    rw [hlength, Nat.add_sub_cancel, List.drop_left, if_pos ⟨by omega, by decide⟩]
    rfl
  · -- the character in front of the unit is a digit
    obtain ⟨c, hc⟩ := List.length_eq_one_iff.mp hone
    obtain ⟨front, d, rfl⟩ : ∃ front d, text = front ++ [d] :=
      ⟨_, _, (List.dropLast_concat_getLast hnumber.ne_nil).symm⟩
    rw [hc, if_neg]
    · rfl
    · rintro ⟨-, hms⟩
      have hlength : (front ++ [d] ++ [c]).length - 2 = front.length := by simp
      rw [hlength, List.append_assoc, List.drop_left] at hms
      obtain ⟨rfl, -⟩ := List.cons.inj hms
      exact absurd hnumber.getLast_isDigit (by decide)

theorem parseTimeString_eq_some_iff {s : String} {v : Int} :
    (parseTimeString s).toOption = some v ↔
      ∃ n unit, Written acceptedSuffixes s n unit ∧ (n * unit).bmod (2 ^ 64) = v := by
  unfold parseTimeString
  dsimp only
  split
  · next hshort =>
    simp only [Except.toOption, reduceCtorEq, false_iff]
    rintro ⟨n, unit, ⟨text, suffix, hs, hunit, hnumber, -⟩, -⟩
    have htext := List.length_pos_iff.mpr hnumber.ne_nil
    rw [hs, List.length_append] at hshort
    obtain rfl | hone := length_acceptedSuffixes hunit
    · exact absurd hshort (by simp)
    · omega
  · next hlong =>
    have hlength : suffixLength s.toList ≤ s.toList.length := by
      rw [suffixLength]
      split <;> omega
    rw [toOption_read, readUnit_eq_some_iff indexed_acceptedSuffixes hlength]
    constructor
    · rintro ⟨text, suffix, n, unit, hs, -, hunit, hnumber, hfits, rfl⟩
      exact ⟨n, unit, ⟨text, suffix, hs, hunit, hnumber, hfits⟩, rfl⟩
    · rintro ⟨n, unit, ⟨text, suffix, hs, hunit, hnumber, hfits⟩, rfl⟩
      refine ⟨text, suffix, n, unit, hs, ?_, hunit, hnumber, hfits, rfl⟩
      rw [hs, suffixLength_of_written hnumber hunit]

/-! ### Exactness -/

/-- A parser accepts the texts of the grammar, and its result is the product. -/
def Exact (parse : String → Option Int) (units : List (String × Int)) (s : String) : Prop :=
  ((parse s).isSome ↔ ∃ n unit, Written units s n unit) ∧
    ∀ v n unit, parse s = some v → Written units s n unit → v = n * unit

theorem exact_iff {parse : String → Option Int} {s : String} (hparse : ∀ {v}, parse s = some v ↔
      ∃ n unit, Written units s n unit ∧ (n * unit).bmod (2 ^ 64) = v) :
    Exact parse units s ↔ ∀ n unit, Written units s n unit → Fits (n * unit) := by
  constructor
  · rintro ⟨-, hvalue⟩ n unit hwritten
    exact bmod_eq_self_iff.mp (hvalue _ n unit (hparse.mpr ⟨n, unit, hwritten, rfl⟩) hwritten)
  · intro hfits
    refine ⟨?_, ?_⟩
    · rw [Option.isSome_iff_exists]
      constructor
      · rintro ⟨v, hv⟩
        obtain ⟨n, unit, hwritten, -⟩ := hparse.mp hv
        exact ⟨n, unit, hwritten⟩
      · rintro ⟨n, unit, hwritten⟩
        exact ⟨_, hparse.mpr ⟨n, unit, hwritten, rfl⟩⟩
    · intro v n unit hv hwritten
      have hread := hparse.mpr ⟨n, unit, hwritten, rfl⟩
      rw [Option.some.inj (hv.symm.trans hread)]
      exact bmod_eq_self_iff.mpr (hfits n unit hwritten)

/-- Both parsers are exact where the product of number and unit is a 64-bit integer. -/
theorem parse_exact_iff (s : String) :
    (Exact (fun s => (parseSizeString s).toOption) sizeSuffixes s ↔
      ∀ n unit, Written sizeSuffixes s n unit → Fits (n * unit)) ∧
    (Exact (fun s => (parseTimeString s).toOption) acceptedSuffixes s ↔
      ∀ n unit, Written acceptedSuffixes s n unit → Fits (n * unit)) :=
  ⟨exact_iff parseSizeString_eq_some_iff, exact_iff parseTimeString_eq_some_iff⟩

/-- Sixteen exbibytes are read as nothing. -/
theorem sixteenExbibytes_not_exact :
    parseSizeString "17179869184g" = .ok 0 ∧
      ¬ Exact (fun s => (parseSizeString s).toOption) sizeSuffixes "17179869184g" := by
  have hzero : parseSizeString "17179869184g" = .ok 0 := by decide +kernel
  refine ⟨hzero, ?_⟩
  rintro ⟨-, hvalue⟩
  have hwritten : Written sizeSuffixes "17179869184g" 17179869184 (1024 * 1024 * 1024) := by
    refine ⟨"17179869184".toList, "g", by decide, by simp [sizeSuffixes], ?_, ?_⟩
    · exact ⟨[], "17179869184".toList, rfl, by decide,
        List.all_eq_true.mp (by decide), .inl ⟨.inl rfl, by decide⟩⟩
    · exact ⟨by decide, by decide⟩
  exact absurd (hvalue 0 _ _ (congrArg Except.toOption hzero) hwritten) (by decide)

end Torii.Util
