import Mathlib.Data.List.Basic

/-!
# Go's `strings` package on ordinary Lean strings

Every separator used by the development is a single character. `toLower` maps characters one by one,
by a table that is a parameter.
-/

namespace Go.Strings

/-- `unicode.IsSpace`: the Latin-1 blanks and the code points with the White_Space
property outside Latin-1. -/
def isSpace (c : Char) : Bool :=
  c ∈ ['\t', '\n', '\x0b', '\x0c', '\r', ' ', '\u0085', '\u00a0', '\u1680', '\u2028', '\u2029',
    '\u202f', '\u205f', '\u3000'] || ('\u2000' ≤ c && c ≤ '\u200a')

def trimSpace (s : String) : String :=
  String.ofList ((s.toList.dropWhile isSpace).reverse.dropWhile isSpace).reverse

/-- `strings.Split` for a one-character separator. The result is never empty. -/
def split (s : String) (sep : Char) : List String :=
  (s.toList.splitOn sep).map String.ofList

/-- `strings.Join` for a one-character separator. -/
def join (parts : List String) (sep : Char) : String :=
  String.ofList ([sep].intercalate (parts.map String.toList))

/-- `strings.TrimSuffix` for a one-character suffix. -/
def trimSuffix (s : String) (c : Char) : String :=
  if s.toList.getLast? = some c then String.ofList s.toList.dropLast else s

/-- `strings.HasSuffix` for a one-character suffix. -/
def hasSuffix (s : String) (c : Char) : Bool := s.toList.getLast? = some c

/-- `strings.TrimRight` for a cutset of one character. -/
def trimRight (s : String) (c : Char) : String :=
  String.ofList (s.toList.reverse.dropWhile (· = c)).reverse

def trimPrefix (s pre : String) : String :=
  if pre.toList.isPrefixOf s.toList then String.ofList (s.toList.drop pre.toList.length) else s

def trimSuffixText (s suffix : String) : String :=
  if suffix.toList.isSuffixOf s.toList then
    String.ofList (s.toList.take (s.toList.length - suffix.toList.length))
  else s

/-- `strings.ToLower`, relative to the per-character table `lower`. -/
def toLower (lower : Char → Char) (s : String) : String :=
  String.ofList (s.toList.map lower)

/-- `strings.ToUpper`, relative to the per-character table `upper`. -/
def toUpper (upper : Char → Char) (s : String) : String :=
  String.ofList (s.toList.map upper)

def indexList (sub : List Char) : List Char → Option Nat
  | [] => if sub = [] then some 0 else none
  | c :: cs =>
    if sub.isPrefixOf (c :: cs) then some 0 else (indexList sub cs).map (· + 1)

/-- `strings.Index`, with `none` for the result `-1`. -/
def index (s sub : String) : Option Nat := indexList sub.toList s.toList

def contains (s sub : String) : Bool := (index s sub).isSome

/-- The slice `s[:i]`. -/
def take (s : String) (i : Nat) : String := String.ofList (s.toList.take i)

theorem split_ne_nil (s : String) (sep : Char) : split s sep ≠ [] := by
  simp [split, List.splitOn, List.splitOnP_ne_nil]

variable {sep c : Char} {s sub cs : List Char} {parts : List String}

theorem sep_not_mem_of_mem_splitOn {part : List Char} (h : part ∈ s.splitOn sep) : sep ∉ part := by
  induction s generalizing part with
  | nil => simp_all
  | cons c s ih =>
    have hcons : (c :: s).splitOn sep =
        if c = sep then [] :: s.splitOn sep else (s.splitOn sep).modifyHead (c :: ·) := by
      simp [List.splitOn, List.splitOnP_cons_eq_if_modifyHead]
    obtain ⟨first, rest, hparts⟩ := List.exists_cons_of_ne_nil (List.splitOn_ne_nil sep s)
    simp only [hcons, hparts, List.modifyHead_cons] at h
    simp only [hparts] at ih
    split at h
    · obtain rfl | h := List.mem_cons.mp h
      · exact List.not_mem_nil
      · exact ih h
    · next hne =>
        obtain rfl | h := List.mem_cons.mp h
        · simpa [Ne.symm hne] using ih List.mem_cons_self
        · exact ih (List.mem_cons_of_mem _ h)

theorem split_append_sep (a b : String) (sep : Char) :
    split (a ++ String.singleton sep ++ b) sep = split a sep ++ split b sep := by
  have h := List.splitOnP_append_cons (p := (· == sep)) a.toList b.toList
    (show (sep == sep) = true by simp)
  simp only [split, List.splitOn, String.toList_append, String.toList_singleton,
    List.append_assoc, List.cons_append, List.nil_append, h, List.map_append]

theorem split_join (hne : parts ≠ []) (h : ∀ s ∈ parts, sep ∉ s.toList) :
    split (join parts sep) sep = parts := by
  have hsplit : ([sep].intercalate (parts.map String.toList)).splitOn sep =
      parts.map String.toList :=
    List.splitOn_intercalate sep (by simpa using h) (by simpa using hne)
  simp only [split, join, String.toList_ofList, hsplit, List.map_map]
  simp [Function.comp_def]

theorem join_cons {part : String} (hne : parts ≠ []) :
    join (part :: parts) sep = part ++ String.singleton sep ++ join parts sep := by
  obtain ⟨next, rest, rfl⟩ := List.exists_cons_of_ne_nil hne
  rw [← String.toList_inj]
  simp [join, List.intercalate]

theorem trimSpace_of_forall {s : String} (h : ∀ c ∈ s.toList, isSpace c = false) :
    trimSpace s = s := by
  have hdrop : ∀ l : List Char, (∀ c ∈ l, isSpace c = false) → l.dropWhile isSpace = l := by
    intro l hl
    cases l with
    | nil => rfl
    | cons c cs => rw [List.dropWhile_cons, hl c (by simp)]; simp
  rw [trimSpace, hdrop s.toList h, hdrop s.toList.reverse (by simpa using h)]
  simp

theorem toNat_of_isDigit (h : c.isDigit = true) : 48 ≤ c.toNat ∧ c.toNat ≤ 57 := by
  simp only [Char.isDigit, Bool.and_eq_true, decide_eq_true_eq] at h
  exact h

theorem isSpace_of_isDigit (h : c.isDigit = true) : isSpace c = false := by
  have hbound := toNat_of_isDigit h
  have hdigit : c = Char.ofNat c.toNat := (Char.ofNat_toNat c).symm
  generalize c.toNat = n at hbound hdigit
  subst hdigit
  have hn : n = n - 48 + 48 := by omega
  have hall : ∀ i : Fin 10, isSpace (Char.ofNat (i + 48)) = false := by decide
  rw [hn]
  exact hall ⟨n - 48, by omega⟩

theorem utf8ByteSize_of_ascii {s : String} (h : ∀ c ∈ s.toList, c.toNat < 128) :
    s.utf8ByteSize = s.length := by
  have hlist : ∀ l : List Char, (∀ c ∈ l, c.toNat < 128) →
      (String.ofList l).utf8ByteSize = l.length := by
    intro l hl
    induction l with
    | nil => rfl
    | cons c cs ih =>
      have hsize : c.utf8Size = 1 :=
        Char.utf8Size_eq_one_iff.mpr (Nat.le_of_lt_succ (hl c List.mem_cons_self))
      rw [show c :: cs = [c] ++ cs from rfl, String.ofList_append, String.utf8ByteSize_append,
        ← String.singleton_eq_ofList, String.utf8ByteSize_singleton, hsize,
        ih fun d hd => hl d (List.mem_cons_of_mem c hd), List.length_append,
        List.length_singleton]
  rw [← String.length_toList, ← hlist s.toList h, String.ofList_toList]

theorem indexList_lt {i : Nat} (hsub : sub ≠ []) (h : indexList sub s = some i) : i < s.length := by
  induction s generalizing i with
  | nil => simp [indexList, hsub] at h
  | cons c cs ih =>
    simp only [indexList] at h
    split at h
    · cases h
      simp
    · obtain ⟨j, hj, rfl⟩ := Option.map_eq_some_iff.mp h
      simpa using ih hj

theorem indexList_eq_none_iff (hsub : sub ≠ []) : indexList sub s = none ↔ ¬ sub <:+: s := by
  induction s with
  | nil => simp [indexList, hsub]
  | cons c cs ih =>
    rw [indexList, List.infix_cons_iff, not_or, ← ih, ← List.isPrefixOf_iff_prefix]
    split
    · next h => simp [h]
    · next h => simp [h]

theorem contains_iff_occurs {s sub : String} (hsub : sub ≠ "") :
    contains s sub = true ↔ sub.toList <:+: s.toList := by
  have hnone : indexList sub.toList s.toList = none ↔ ¬ sub.toList <:+: s.toList :=
    indexList_eq_none_iff (by simpa using hsub)
  rw [contains, index, Option.isSome_iff_ne_none, Ne, hnone, not_not]

theorem indexList_le {x y : List Char} :
    ∃ i ≤ x.length, indexList sub (x ++ sub ++ y) = some i := by
  induction x with
  | nil =>
    refine ⟨0, Nat.le_refl _, ?_⟩
    cases hs : sub ++ y with
    | nil =>
      obtain ⟨rfl, rfl⟩ := List.append_eq_nil_iff.mp hs
      rfl
    | cons c cs =>
      have hpre : sub.isPrefixOf (c :: cs) = true := by
        rw [List.isPrefixOf_iff_prefix, ← hs]
        exact List.prefix_append sub y
      simp [indexList, hs, hpre]
  | cons c x ih =>
    obtain ⟨i, hi, hindex⟩ := ih
    simp only [List.cons_append, indexList, hindex]
    split
    · exact ⟨0, Nat.zero_le _, rfl⟩
    · exact ⟨i + 1, by simpa using hi, rfl⟩

theorem indexList_append_self (sub rest : List Char) :
    indexList sub (sub ++ rest) = some 0 := by
  obtain ⟨i, hi, hindex⟩ : ∃ i ≤ [].length, indexList sub ([] ++ sub ++ rest) = some i :=
    indexList_le
  simpa [Nat.le_zero.mp hi] using hindex

theorem indexList_cons_of_not (h : sub.isPrefixOf (c :: cs) = false) :
    indexList sub (c :: cs) = (indexList sub cs).map (· + 1) := by
  simp [indexList, h]

theorem indexList_append_of_notMem {ds : List Char} (h : c ∉ ds) :
    indexList (c :: sub) (ds ++ cs) = (indexList (c :: sub) cs).map (· + ds.length) := by
  induction ds with
  | nil => simp
  | cons d ds ih =>
    have hd : c ≠ d := fun heq => h (heq ▸ List.mem_cons_self)
    rw [List.cons_append, indexList_cons_of_not (by simp [List.isPrefixOf, hd]),
      ih fun hmem => h (List.mem_cons_of_mem _ hmem), Option.map_map]
    congr 1

end Go.Strings
