import Mathlib.Algebra.Group.Nat.Defs
import Mathlib.Data.List.TakeWhile
import Torii.Go.Netip

/-!
# Texts of addresses

`Addr.String` gives different texts for different addresses. In the text of an IPv6 address `::`
stands for the zero groups that are missing.
-/

namespace Go.Netip

open Go.Strings

/-! ### Digits -/

def number (base : Nat) (digits : List Char) : Nat :=
  digits.foldl (fun acc c => acc * base + (hexVal c).getD 0) 0

theorem hexVal_digitChar {d : Nat} (h : d < 16) : hexVal (Nat.digitChar d) = some d := by
  have hall : ∀ d : Fin 16, hexVal (Nat.digitChar d) = some d.val := by decide
  exact hall ⟨d, h⟩

section

variable {base : Nat} (hbase : 1 < base) (hle : base ≤ 16)

include hbase hle

theorem number_toDigits (n : Nat) : number base (Nat.toDigits base n) = n := by
  induction n using Nat.strongRecOn with
  | ind n ih =>
    by_cases hn : n < base
    · simp [Nat.toDigits_of_lt_base hn, number, hexVal_digitChar (show n < 16 by omega)]
    · have hdiv := ih (n / base) (Nat.div_lt_self (by omega) hbase)
      have hmod : n % base < 16 := Nat.lt_of_lt_of_le (Nat.mod_lt _ (by omega)) hle
      rw [Nat.toDigits_of_base_le hbase (by omega), number, List.foldl_append, ← number, hdiv]
      simp only [List.foldl_cons, List.foldl_nil, hexVal_digitChar hmod, Option.getD_some]
      exact Nat.div_add_mod' n base

theorem toDigits_inj {m n : Nat} (h : Nat.toDigits base m = Nat.toDigits base n) : m = n := by
  rw [← number_toDigits hbase hle m, h, number_toDigits hbase hle]

theorem hexVal_of_mem_toDigits {n : Nat} {c : Char} (h : c ∈ Nat.toDigits base n) :
    (hexVal c).isSome = true := by
  induction n using Nat.strongRecOn with
  | ind n ih =>
    by_cases hn : n < base
    · rw [Nat.toDigits_of_lt_base hn, List.mem_singleton] at h
      simp [h, hexVal_digitChar (show n < 16 by omega)]
    · rw [Nat.toDigits_of_base_le hbase (by omega), List.mem_append, List.mem_singleton] at h
      obtain h | rfl := h
      · exact ih (n / base) (Nat.div_lt_self (by omega) hbase) h
      · have hmod : n % base < 16 := Nat.lt_of_lt_of_le (Nat.mod_lt _ (by omega)) hle
        simp [hexVal_digitChar hmod]

end

/-! ### Fields -/

theorem eq_of_fields {w : Nat} (width count : Nat) (hwidth : 0 < width) (hw : w ≤ width * count)
    {a b : BitVec w}
    (h : ∀ i < count,
      (a >>> (width * i)).toNat % 2 ^ width = (b >>> (width * i)).toNat % 2 ^ width) :
    a = b := by
  apply BitVec.eq_of_getLsbD_eq
  intro j hj
  have hcount : j / width < count := by
    rw [Nat.div_lt_iff_lt_mul hwidth, Nat.mul_comm]
    omega
  have hfield := congrArg (Nat.testBit · (j % width)) (h (j / width) hcount)
  simpa [Nat.testBit_mod_two_pow, Nat.mod_lt j hwidth, Nat.testBit_shiftRight,
    Nat.div_add_mod, BitVec.testBit_toNat] using hfield

theorem eq_of_octets {a b : BitVec 32} (h : ∀ i < 4, octet a i = octet b i) : a = b := by
  refine eq_of_fields 8 4 (by decide) (by decide) fun i hi => ?_
  have hoctet := h (3 - i) (by omega)
  rwa [octet, octet, show 24 - 8 * (3 - i) = 8 * i by omega] at hoctet

theorem eq_of_groups {a b : BitVec 128} (h : ∀ i < 8, group a i = group b i) : a = b := by
  refine eq_of_fields 16 8 (by decide) (by decide) fun i hi => ?_
  have hgroup := h (7 - i) (by omega)
  rwa [group, group, show 112 - 16 * (7 - i) = 16 * i by omega] at hgroup

def octets (a : BitVec 32) : List String := (List.range 4).map fun i => toString (octet a i)

def groups (a : BitVec 128) : List String :=
  (List.range 8).map fun i => String.ofList (Nat.toDigits 16 (group a i))

variable {parts : List String} (a : BitVec 128) {c : Char} {field : String}

theorem hexVal_of_mem_octets {a : BitVec 32} (h : field ∈ octets a)
    (hc : c ∈ field.toList) : (hexVal c).isSome = true := by
  obtain ⟨i, -, rfl⟩ := List.mem_map.mp h
  rw [Nat.toString_eq_ofList_toDigits, String.toList_ofList] at hc
  exact hexVal_of_mem_toDigits (by decide) (by decide) hc

theorem hexVal_of_mem_groups {a : BitVec 128} (h : field ∈ groups a)
    (hc : c ∈ field.toList) : (hexVal c).isSome = true := by
  obtain ⟨i, -, rfl⟩ := List.mem_map.mp h
  rw [String.toList_ofList] at hc
  exact hexVal_of_mem_toDigits (by decide) (by decide) hc

theorem ne_empty_of_mem_groups {a : BitVec 128} (h : field ∈ groups a) : field ≠ "" := by
  obtain ⟨i, -, rfl⟩ := List.mem_map.mp h
  intro hnil
  have := congrArg String.toList hnil
  simp at this

theorem string4_inj {a b : BitVec 32} (h : string4 a = string4 b) : a = b := by
  have hfields : ∀ x : BitVec 32, split (string4 x) '.' = octets x := fun x =>
    split_join (by simp) fun field hfield hdot => by
      have := hexVal_of_mem_octets hfield hdot
      exact absurd this (by decide)
  have heq : octets a = octets b := by rw [← hfields a, h, hfields b]
  apply eq_of_octets
  intro i hi
  have hfield := List.map_inj_left.mp heq i (List.mem_range.mpr hi)
  simp only [Nat.toString_eq_ofList_toDigits, String.ofList_inj] at hfield
  exact toDigits_inj (by decide) (by decide) hfield

/-! ### The run of zeros -/

def IsZeroRun (a : BitVec 128) (run : Nat × Nat) : Prop :=
  run.1 + 2 ≤ run.2 ∧ run.2 ≤ 8 ∧ ∀ i, run.1 ≤ i → i < run.2 → group a i = 0

theorem isZeroRun_takeWhile {a : BitVec 128} {i : Nat} (hi : i < 8)
    (h : 2 ≤ (((List.range 8).drop i).takeWhile fun j => group a j = 0).length) :
    IsZeroRun a (i, i + (((List.range 8).drop i).takeWhile fun j => group a j = 0).length) := by
  have hinitial := List.takeWhile_prefix (fun j => group a j = 0) (l := (List.range 8).drop i)
  have hlength := hinitial.length_le
  simp only [List.length_drop, List.length_range] at hlength
  refine ⟨by simpa using h, by simp only; omega, fun j hij hj => ?_⟩
  simp only at hij hj
  have hindex : j - i < (((List.range 8).drop i).takeWhile fun j => group a j = 0).length := by
    omega
  have hzero := List.mem_takeWhile_imp (List.getElem_mem hindex)
  rw [hinitial.getElem hindex] at hzero
  simpa [show i + (j - i) = j by omega] using hzero

theorem isZeroRun_of_zeroRun {a : BitVec 128} {run : Nat × Nat} (h : zeroRun a = some run) :
    IsZeroRun a run := by
  revert run
  apply List.foldlRecOn (motive := fun best => ∀ run, best = some run → IsZeroRun a run)
  · intro run h
    cases h
  · intro best hbest i hi run h
    dsimp only at h
    split at h
    · next hrun =>
        cases h
        exact isZeroRun_takeWhile (List.mem_range.mp hi) hrun.1
    · exact hbest run h

/-! ### The parts of a text -/

/-- The parts in front of the first empty one and those behind the last empty one. -/
def ends (parts : List String) : List String × List String :=
  (parts.takeWhile (· ≠ ""), (parts.reverse.takeWhile (· ≠ "")).reverse)

/-- Parts that are not empty and have no separator. -/
def Fields (parts : List String) : Prop := ∀ part ∈ parts, part ≠ "" ∧ ':' ∉ part.toList

theorem fields_groups : Fields (groups a) := fun _ hpart =>
  ⟨ne_empty_of_mem_groups hpart, fun hcolon =>
    absurd (hexVal_of_mem_groups hpart hcolon) (by decide)⟩

theorem takeWhile_fields (h : Fields parts) (rest : List String) :
    (parts ++ "" :: rest).takeWhile (· ≠ "") = parts := by
  rw [List.takeWhile_append_of_pos (by simpa using fun part hpart => (h part hpart).1)]
  simp

theorem ends_eq {front back rest rest' : List String} (hfront : Fields front)
    (hback : Fields back) (h : parts = front ++ "" :: rest) (h' : parts = rest' ++ "" :: back) :
    ends parts = (front, back) := by
  have hreverse : parts.reverse = back.reverse ++ "" :: rest'.reverse := by simp [h']
  have hback' : Fields back.reverse := fun part hpart => hback part (List.mem_reverse.mp hpart)
  rw [ends, hreverse, takeWhile_fields hback', h, takeWhile_fields hfront, List.reverse_reverse]

theorem split_join_fields (h : Fields parts) :
    split (join parts ':') ':' = if parts = [] then [""] else parts := by
  split
  · next hnil =>
      rw [hnil]
      rfl
  · next hne => exact split_join hne fun part hpart => (h part hpart).2

theorem ends_split_join (h : Fields parts) (hne : parts ≠ []) :
    ends (split (join parts ':') ':') = (parts, parts) := by
  have hall : ∀ part ∈ parts, decide (part ≠ "") = true := fun part hpart =>
    decide_eq_true (h part hpart).1
  have hfront := List.takeWhile_eq_self_iff.mpr hall
  have hback : parts.reverse.takeWhile (· ≠ "") = parts.reverse :=
    List.takeWhile_eq_self_iff.mpr fun part hpart => hall part (List.mem_reverse.mp hpart)
  rw [split_join_fields h, if_neg hne, ends, hfront, hback, List.reverse_reverse]

theorem ends_split_ellipsis {front back : List String} (hfront : Fields front)
    (hback : Fields back) :
    ends (split (join front ':' ++ "::" ++ join back ':') ':') = (front, back) := by
  have htext : join front ':' ++ "::" ++ join back ':' =
      (join front ':' ++ String.singleton ':' ++ "") ++ String.singleton ':' ++ join back ':' := by
    rw [← String.toList_inj]
    simp
  have hempty : split "" ':' = [""] := by rfl
  rw [htext, split_append_sep, split_append_sep, hempty, split_join_fields hfront,
    split_join_fields hback]
  -- an empty text at an end is one more empty part there
  obtain ⟨rest, hrest⟩ : ∃ rest, ((if front = [] then [""] else front) ++ [""]) ++
      (if back = [] then [""] else back) = front ++ "" :: rest := by
    split
    · next hnil => exact ⟨_, by rw [hnil]; rfl⟩
    · exact ⟨_, List.append_assoc _ _ _⟩
  obtain ⟨rest', hrest'⟩ : ∃ rest', ((if front = [] then [""] else front) ++ [""]) ++
      (if back = [] then [""] else back) = rest' ++ "" :: back := by
    by_cases hnil : back = []
    · rw [if_pos hnil, hnil]
      exact ⟨_, rfl⟩
    · rw [if_neg hnil]
      exact ⟨_, List.append_assoc _ _ _⟩
  exact ends_eq hfront hback hrest hrest'

theorem Fields.take (h : Fields parts) (n : Nat) : Fields (parts.take n) :=
  fun part hpart => h part (List.mem_of_mem_take hpart)

theorem Fields.drop (h : Fields parts) (n : Nat) : Fields (parts.drop n) :=
  fun part hpart => h part (List.mem_of_mem_drop hpart)

/-! ### IPv6 -/

theorem ends_of_zeroRun_none {a : BitVec 128} (h : zeroRun a = none) :
    ends (split (string6 a) ':') = (groups a, groups a) := by
  have hstring : string6 a = join (groups a) ':' := by
    simp only [string6, h]
    rfl
  rw [hstring, ends_split_join (fields_groups a) (by simp [groups])]

theorem ends_of_zeroRun_some {a : BitVec 128} {start stop : Nat}
    (h : zeroRun a = some (start, stop)) :
    ends (split (string6 a) ':') = ((groups a).take start, (groups a).drop stop) := by
  have hstring : string6 a =
      join ((groups a).take start) ':' ++ "::" ++ join ((groups a).drop stop) ':' := by
    simp only [string6, h]
    rfl
  rw [hstring, ends_split_ellipsis ((fields_groups a).take start) ((fields_groups a).drop stop)]

@[simp] theorem length_groups : (groups a).length = 8 := by simp [groups]

theorem group_eq_of_getElem? {a b : BitVec 128} {i : Nat} (hi : i < 8)
    (h : (groups a)[i]? = (groups b)[i]?) : group a i = group b i := by
  simp only [groups, List.getElem?_map, List.getElem?_range hi, Option.map_some,
    Option.some.injEq, String.ofList_inj] at h
  exact toDigits_inj (by decide) (by decide) h

theorem ends_string6 :
    ends (split (string6 a) ':') = (groups a, groups a) ∨
      ∃ start stop, IsZeroRun a (start, stop) ∧
        ends (split (string6 a) ':') = ((groups a).take start, (groups a).drop stop) := by
  cases h : zeroRun a with
  | none => exact .inl (ends_of_zeroRun_none h)
  | some run =>
    obtain ⟨start, stop⟩ := run
    exact .inr ⟨start, stop, isZeroRun_of_zeroRun h, ends_of_zeroRun_some h⟩

theorem string6_inj {a b : BitVec 128} (h : string6 a = string6 b) : a = b := by
  apply eq_of_groups
  intro i hi
  have ha := ends_string6 a
  rw [h] at ha
  obtain ha | ⟨start, stop, ⟨hlong, hle, hzero⟩, ha⟩ := ha
  · obtain hb | ⟨start', stop', ⟨hlong', hle', -⟩, hb⟩ := ends_string6 b
    · have hgroups := (Prod.mk.inj (ha.symm.trans hb)).1
      exact group_eq_of_getElem? hi (congrArg (·[i]?) hgroups)
    · have hfront := congrArg List.length (Prod.mk.inj (ha.symm.trans hb)).1
      simp only [length_groups, List.length_take] at hfront hlong' hle'
      omega
  · obtain hb | ⟨start', stop', ⟨hlong', hle', hzero'⟩, hb⟩ := ends_string6 b
    · have hfront := congrArg List.length (Prod.mk.inj (ha.symm.trans hb)).1
      simp only [length_groups, List.length_take] at hfront hlong hle
      omega
    · obtain ⟨hfront, hback⟩ := Prod.mk.inj (ha.symm.trans hb)
      have hstart := congrArg List.length hfront
      have hstop := congrArg List.length hback
      simp only [length_groups, List.length_take, List.length_drop] at hstart hstop
      dsimp only at hlong hle hzero hlong' hle' hzero'
      obtain rfl : start = start' := by omega
      obtain rfl : stop = stop' := by omega
      by_cases hlow : i < start
      · have hfield := congrArg (·[i]?) hfront
        simp only [List.getElem?_take, hlow, if_true] at hfield
        exact group_eq_of_getElem? hi hfield
      · by_cases hhigh : i < stop
        · rw [hzero i (by omega) hhigh, hzero' i (by omega) hhigh]
        · have hfield := congrArg (·[i - stop]?) hback
          simp only [List.getElem?_drop, Nat.add_sub_cancel' (Nat.not_lt.mp hhigh)] at hfield
          exact group_eq_of_getElem? hi hfield

/-! ### Addresses -/

theorem mem_join {sep : Char} (h : c ∈ (join parts sep).toList) :
    c = sep ∨ ∃ part ∈ parts, c ∈ part.toList := by
  induction parts with
  | nil => cases h
  | cons part parts ih =>
    by_cases hnil : parts = []
    · subst hnil
      exact .inr ⟨part, List.mem_cons_self, by simpa [join] using h⟩
    · simp only [join_cons hnil, String.toList_append, String.toList_singleton, List.mem_append,
        List.mem_singleton] at h
      obtain (h | rfl) | h := h
      · exact .inr ⟨part, List.mem_cons_self, h⟩
      · exact .inl rfl
      · obtain heq | ⟨other, hother, hc⟩ := ih h
        · exact .inl heq
        · exact .inr ⟨other, List.mem_cons_of_mem _ hother, hc⟩

theorem sep_mem_join {sep : Char} (h : 2 ≤ parts.length) : sep ∈ (join parts sep).toList := by
  match parts, h with
  | part :: other :: parts, _ => simp [join_cons (List.cons_ne_nil other parts)]

theorem mem_string4 {a : BitVec 32} (h : c ∈ (string4 a).toList) :
    c = '.' ∨ (hexVal c).isSome = true := by
  obtain heq | ⟨field, hfield, hc⟩ := mem_join h
  · exact .inl heq
  · exact .inr (hexVal_of_mem_octets hfield hc)

theorem dot_mem_string4 (a : BitVec 32) : '.' ∈ (string4 a).toList := sep_mem_join (by simp)

theorem mem_string6 {a : BitVec 128} (h : c ∈ (string6 a).toList) :
    c = ':' ∨ (hexVal c).isSome = true := by
  have hjoin : ∀ parts : List String, (∀ part ∈ parts, part ∈ groups a) →
      c ∈ (join parts ':').toList → c = ':' ∨ (hexVal c).isSome = true := by
    intro parts hparts hc
    obtain heq | ⟨field, hfield, hc⟩ := mem_join hc
    · exact .inl heq
    · exact .inr (hexVal_of_mem_groups (hparts field hfield) hc)
  rw [string6] at h
  split at h
  · exact hjoin _ (fun _ hpart => hpart) h
  · simp only [String.toList_append, List.mem_append] at h
    obtain (h | h) | h := h
    · exact hjoin _ (fun _ hpart => List.mem_of_mem_take hpart) h
    · exact .inl (by simpa using h)
    · exact hjoin _ (fun _ hpart => List.mem_of_mem_drop hpart) h

theorem colon_mem_string6 : ':' ∈ (string6 a).toList := by
  rw [string6]
  split
  · exact sep_mem_join (by simp)
  · simp

def string6Bits (a : BitVec 128) : String :=
  if is4In6 a then "::ffff:" ++ string4 (a.setWidth 32) else string6 a

theorem dot_mem_string6Bits_iff : '.' ∈ (string6Bits a).toList ↔ is4In6 a = true := by
  rw [string6Bits]
  split
  · next h => simp [h, dot_mem_string4]
  · next h =>
      refine ⟨fun hdot => ?_, fun hmapped => absurd hmapped h⟩
      exact absurd (mem_string6 hdot) (by decide)

theorem colon_mem_string6Bits : ':' ∈ (string6Bits a).toList := by
  rw [string6Bits]
  split
  · simp
  · exact colon_mem_string6 a

theorem percent_not_mem_string6Bits : '%' ∉ (string6Bits a).toList := by
  have hhex : hexVal '%' = none := by decide
  rw [string6Bits]
  split
  · intro h
    rw [String.toList_append, List.mem_append] at h
    obtain h | h := h
    · exact absurd h (by decide)
    · exact absurd (mem_string4 h) (by decide)
  · exact fun h => absurd (mem_string6 h) (by decide)

/-- The bits of an address with an embedded IPv4 address. -/
theorem eq_of_is4In6 {a b : BitVec 128} (ha : is4In6 a = true) (hb : is4In6 b = true)
    (h : a.setWidth 32 = b.setWidth 32) : a = b := by
  simp only [is4In6, decide_eq_true_eq] at ha hb
  apply BitVec.eq_of_getLsbD_eq
  intro j hj
  by_cases hlow : j < 32
  · have hbit := congrArg (BitVec.getLsbD · j) h
    simpa [hlow] using hbit
  · have hbit := congrArg (BitVec.getLsbD · (j - 32)) (ha.trans hb.symm)
    simpa [show 32 + (j - 32) = j by omega] using hbit

theorem string6Bits_inj {a b : BitVec 128} (h : string6Bits a = string6Bits b) : a = b := by
  have hsame : is4In6 a = true ↔ is4In6 b = true := by
    rw [← dot_mem_string6Bits_iff, h, dot_mem_string6Bits_iff]
  rw [string6Bits, string6Bits] at h
  by_cases ha : is4In6 a = true
  · rw [if_pos ha, if_pos (hsame.mp ha), ← String.toList_inj, String.toList_append,
      String.toList_append] at h
    exact eq_of_is4In6 ha (hsame.mp ha)
      (string4_inj (String.toList_inj.mp (List.append_cancel_left h)))
  · rw [if_neg ha, if_neg (fun hb => ha (hsame.mpr hb))] at h
    exact string6_inj h

def zoneText (zone : String) : String := if zone = "" then "" else "%" ++ zone

theorem zoneText_inj {zone zone' : String} (h : zoneText zone = zoneText zone') :
    zone = zone' := by
  have hne : ∀ z : String, "" ≠ "%" ++ z := by
    intro z heq
    have := congrArg String.toList heq
    simp at this
  rw [zoneText, zoneText] at h
  split at h
  · next hnil =>
      split at h
      · next hnil' => rw [hnil, hnil']
      · exact absurd h (hne zone')
  · split at h
    · exact absurd h.symm (hne zone)
    · rw [← String.toList_inj, String.toList_append, String.toList_append] at h
      exact String.toList_inj.mp (List.append_cancel_left h)

theorem string_v6 (zone : String) : (Addr.v6 a zone).string = string6Bits a ++ zoneText zone := rfl

theorem takeWhile_string_v6 (zone : String) :
    ((Addr.v6 a zone).string).toList.takeWhile (· ≠ '%') = (string6Bits a).toList := by
  have hbits : ∀ c ∈ (string6Bits a).toList, decide (c ≠ '%') = true := fun c hc => by
    rw [decide_eq_true_eq]
    rintro rfl
    exact percent_not_mem_string6Bits a hc
  rw [string_v6, String.toList_append, List.takeWhile_append_of_pos hbits, zoneText]
  split
  · simp
  · simp

theorem Addr.string_inj {a b : Addr} (h : a.string = b.string) : a = b := by
  have hcolon : ∀ (x : BitVec 32) (y : BitVec 128) (zone : String),
      (Addr.v4 x).string ≠ (Addr.v6 y zone).string := by
    intro x y zone heq
    have hmem : ':' ∈ (Addr.v6 y zone).string.toList := by
      simp [string_v6, colon_mem_string6Bits]
    rw [← heq] at hmem
    exact absurd (mem_string4 hmem) (by decide)
  cases a with
  | v4 x =>
    cases b with
    | v4 y => exact congrArg Addr.v4 (string4_inj h)
    | v6 y zone => exact absurd h (hcolon x y zone)
  | v6 x zone =>
    cases b with
    | v4 y => exact absurd h.symm (hcolon y x zone)
    | v6 y zone' =>
      have hbits : x = y := by
        apply string6Bits_inj
        rw [← String.toList_inj, ← takeWhile_string_v6 x zone, h, takeWhile_string_v6]
      subst hbits
      rw [string_v6, string_v6, ← String.toList_inj, String.toList_append,
        String.toList_append] at h
      have hzone := zoneText_inj (String.toList_inj.mp (List.append_cancel_left h))
      rw [hzone]

end Go.Netip
