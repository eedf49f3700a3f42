import Torii.Go.Strings

/-!
# Paths of `net/url`

Percent-escapes in the path of a URL, on lists of characters that stand for bytes: `unescape` in the
modes of a path and of a path segment, which agree, `escape` in the mode of a path, and
`EscapedPath`. A path is a list of segments, each behind a slash (`slashed`).
-/

namespace Go.Url

def unhex (c : Char) : Option Nat :=
  if '0' ≤ c ∧ c ≤ '9' then some (c.toNat - '0'.toNat)
  else if 'a' ≤ c ∧ c ≤ 'f' then some (c.toNat - 'a'.toNat + 10)
  else if 'A' ≤ c ∧ c ≤ 'F' then some (c.toNat - 'A'.toNat + 10)
  else none

/-- `unescape`; nothing for an error. -/
def unescape : List Char → Option (List Char)
  | [] => some []
  | '%' :: hi :: lo :: rest =>
    match unhex hi, unhex lo with
    | some x, some y => (unescape rest).map (Char.ofNat (16 * x + y) :: ·)
    | _, _ => none
  | '%' :: _ => none
  | c :: rest => (unescape rest).map (c :: ·)

/-- `pathUnescape` of `net/http`: a text that cannot be decoded is left as it is. -/
def pathUnescape (s : List Char) : List Char := (unescape s).getD s

/-- `shouldEscape` in the mode of a path. -/
def shouldEscape (c : Char) : Bool :=
  !(c.isAlphanum || c ∈ ['-', '_', '.', '~', '$', '&', '+', ',', '/', ':', ';', '=', '@'])

def upperhex (n : Nat) : Char := Char.ofNat (if n < 10 then '0'.toNat + n else 'A'.toNat + n - 10)

/-- `escape` in the mode of a path. -/
def escape (s : List Char) : List Char :=
  s.flatMap fun c =>
    if shouldEscape c ∧ c.toNat < 256 then ['%', upperhex (c.toNat / 16), upperhex (c.toNat % 16)]
    else [c]

/-- `validEncoded` in the mode of a path. -/
def validEncoded (s : List Char) : Bool :=
  s.all fun c =>
    c ∈ ['!', '$', '&', '\x27', '(', ')', '*', '+', ',', ';', '=', ':', '@', '[', ']', '%'] ||
      !shouldEscape c

def slashed (segs : List (List Char)) : List Char := segs.flatMap ('/' :: ·)

/-- The path of a URL as the parser leaves it: decoded, and in its own encoding when this is not
the default one. The asterisk of an `OPTIONS` request is no path. -/
structure URL where
  path : String
  rawPath : String
  path_rooted : path = "" ∨ path.toList.head? = some '/'
  rawPath_eq : rawPath = "" ∨
    rawPath.toList.head? = some '/' ∧ unescape rawPath.toList = some path.toList

def URL.escapedPath (u : URL) : List Char :=
  if u.rawPath ≠ "" ∧ validEncoded u.rawPath.toList ∧
      unescape u.rawPath.toList = some u.path.toList then
    u.rawPath.toList
  else if u.path = "*" then ['*']
  else escape u.path.toList

/-! ### Decoding -/

theorem unescape_cons {c : Char} (h : c ≠ '%') (rest : List Char) :
    unescape (c :: rest) = (unescape rest).map (c :: ·) := by
  rw [unescape]
  · intro hi lo rest' hc
    exact absurd hc h
  · exact h

theorem unescape_percent (hi lo : Char) (rest : List Char) :
    unescape ('%' :: hi :: lo :: rest) =
      match unhex hi, unhex lo with
      | some x, some y => (unescape rest).map (Char.ofNat (16 * x + y) :: ·)
      | _, _ => none := by
  rw [unescape]

theorem unescape_append_slash (a b : List Char) :
    unescape (a ++ '/' :: b) =
      (unescape a).bind fun x => (unescape b).map fun y => x ++ '/' :: y := by
  have hslash : unhex '/' = none := by decide
  fun_induction unescape a with
  | case1 => simp [unescape_cons (show '/' ≠ '%' by decide)]
  | case2 hi lo rest x y hlo hhi ih =>
    simp only [List.cons_append, unescape_percent, hhi, hlo, ih]
    cases unescape rest <;> cases unescape b <;> simp
  | case3 hi lo rest hnone =>
    simp only [List.cons_append, unescape_percent]
    rfl
  | case4 rest hrest =>
    match rest with
    | [] => cases b <;> simp [unescape, hslash]
    | [hi] => cases b <;> simp [unescape, hslash]
    | hi :: lo :: rest => exact absurd rfl (hrest hi lo rest)
  | case5 c rest h1 h2 ih =>
    rw [List.cons_append, unescape_cons h2, ih]
    cases unescape rest <;> cases unescape b <;> simp

variable {a s t w pre raw path : List Char} {segs : List (List Char)}

theorem unescape_append_of_not_mem (h : '%' ∉ a) (b : List Char) :
    unescape (a ++ b) = (unescape b).map (a ++ ·) := by
  induction a with
  | nil => simp
  | cons c a ih =>
    rw [List.mem_cons, not_or] at h
    rw [List.cons_append, unescape_cons (Ne.symm h.1), ih h.2, Option.map_map]
    rfl

theorem eq_or_length_lt_of_unescape (h : unescape s = some t) :
    ('%' ∉ s ∧ t = s) ∨ t.length < s.length := by
  fun_induction unescape s generalizing t with
  | case1 =>
    cases h
    simp
  | case2 hi lo rest x y hlo hhi ih =>
    obtain ⟨t', ht', rfl⟩ := Option.map_eq_some_iff.mp h
    have hle : t'.length ≤ rest.length := by
      obtain ⟨-, rfl⟩ | hlt := ih ht'
      · exact Nat.le_refl _
      · exact Nat.le_of_lt hlt
    right
    simp only [List.length_cons]
    omega
  | case3 | case4 => exact absurd h (by simp)
  | case5 c rest h1 h2 ih =>
    obtain ⟨t', ht', rfl⟩ := Option.map_eq_some_iff.mp h
    obtain ⟨hmem, rfl⟩ | hlt := ih ht'
    · exact .inl ⟨by simp [hmem, Ne.symm h2], rfl⟩
    · exact .inr (by simpa using hlt)

theorem pathUnescape_ne_nil (h : s ≠ []) : pathUnescape s ≠ [] := by
  cases hs : unescape s with
  | none => simpa [pathUnescape, hs] using h
  | some t =>
    rintro ht
    obtain rfl : t = [] := by simpa [pathUnescape, hs] using ht
    fun_cases unescape s <;> simp_all [unescape]

theorem count_slash_le_of_unescape (h : unescape s = some t) : s.count '/' ≤ t.count '/' := by
  have hslash : unhex '/' = none := by decide
  fun_induction unescape s generalizing t with
  | case1 =>
    cases h
    exact Nat.le_refl _
  | case2 hi lo rest x y hlo hhi ih =>
    obtain ⟨t', ht', rfl⟩ := Option.map_eq_some_iff.mp h
    have hhi' : hi ≠ '/' := by
      rintro rfl
      exact absurd (hslash.symm.trans hhi) (by simp)
    have hlo' : lo ≠ '/' := by
      rintro rfl
      exact absurd (hslash.symm.trans hlo) (by simp)
    calc ('%' :: hi :: lo :: rest).count '/' = rest.count '/' := by simp [hhi', hlo']
      _ ≤ t'.count '/' := ih ht'
      _ ≤ _ := List.count_le_count_cons
  | case3 | case4 => exact absurd h (by simp)
  | case5 c rest h1 h2 ih =>
    obtain ⟨t', ht', rfl⟩ := Option.map_eq_some_iff.mp h
    simpa [List.count_cons] using ih ht'

@[simp] theorem slashed_nil : slashed [] = [] := rfl

@[simp] theorem slashed_cons (seg : List Char) (segs : List (List Char)) :
    slashed (seg :: segs) = '/' :: seg ++ slashed segs := by
  simp [slashed]

theorem slashed_append (a b : List (List Char)) : slashed (a ++ b) = slashed a ++ slashed b := by
  simp [slashed]

theorem intercalate_nil_cons (segs : List (List Char)) :
    ['/'].intercalate ([] :: segs) = slashed segs := by
  induction segs with
  | nil => rfl
  | cons seg segs ih =>
    cases segs with
    | nil => simp [List.intercalate]
    | cons => simpa [List.intercalate] using ih

theorem slashed_splitOn (path : List Char) : slashed (path.splitOn '/') = '/' :: path := by
  have hcut : ('/' :: path).splitOn '/' = [] :: path.splitOn '/' := by
    simp [List.splitOn, List.splitOnP_cons_eq_if_modifyHead]
  calc slashed (path.splitOn '/') = ['/'].intercalate (('/' :: path).splitOn '/') := by
        rw [hcut, intercalate_nil_cons]
    _ = '/' :: path := List.intercalate_splitOn _

theorem splitOn_tail_slashed (hne : segs ≠ []) (h : ∀ seg ∈ segs, '/' ∉ seg) :
    (slashed segs).tail.splitOn '/' = segs := by
  have htail : (slashed segs).tail = ['/'].intercalate segs := by
    cases segs with
    | nil => exact absurd rfl hne
    | cons seg rest =>
      cases rest with
      | nil => simp
      | cons => simp [List.intercalate, ← intercalate_nil_cons]
  rw [htail, List.splitOn_intercalate '/' h hne]

theorem infix_append_cons {b : List Char} {c : Char} (hc : c ∉ w) (h : w <:+: a ++ c :: b) :
    w <:+: a ∨ w <:+: b := by
  obtain ⟨x, y, hxy⟩ := h
  rw [List.append_assoc] at hxy
  obtain ⟨z, rfl, hz⟩ | ⟨z, rfl, hz⟩ := List.append_eq_append_iff.mp hxy
  · -- the text starts in `a`, so it ends there
    obtain ⟨v, rfl, -⟩ | ⟨v, rfl, hv⟩ := List.append_eq_append_iff.mp hz
    · exact .inl ⟨x, v, by simp⟩
    · cases v with
      | nil => exact .inl ⟨x, [], by simp⟩
      | cons =>
        obtain ⟨rfl, -⟩ := List.cons.inj hv
        exact absurd (by simp) hc
  · cases z with
    | nil =>
      cases w with
      | nil => exact .inl List.nil_infix
      | cons =>
        obtain ⟨rfl, -⟩ := List.cons.inj hz
        exact absurd (by simp) hc
    | cons d z =>
      obtain ⟨-, rfl⟩ := List.cons.inj hz
      exact .inr ⟨z, y, by simp⟩

theorem exists_infix_of_infix_slashed (hslash : '/' ∉ w) (hne : w ≠ []) (h : w <:+: slashed segs) :
    ∃ seg ∈ segs, w <:+: seg := by
  induction segs with
  | nil => exact absurd (List.infix_nil.mp h) hne
  | cons seg segs ih =>
    have hbehind : w <:+: seg ++ slashed segs := by
      obtain hnil | h := infix_append_cons (a := []) hslash (by simpa using h)
      · exact absurd (List.infix_nil.mp hnil) hne
      · exact h
    cases segs with
    | nil => exact ⟨seg, by simp, by simpa using hbehind⟩
    | cons =>
      obtain hseg | hrest := infix_append_cons hslash (by simpa using hbehind)
      · exact ⟨seg, by simp, hseg⟩
      · obtain ⟨seg', hmem, hoccurs⟩ := ih (by
          simpa using hrest.trans (List.infix_cons (List.infix_refl _)))
        exact ⟨seg', List.mem_cons_of_mem _ hmem, hoccurs⟩

theorem unescape_slashed (segs : List (List Char)) :
    unescape (slashed segs) = (segs.mapM unescape).map slashed := by
  induction segs with
  | nil => simp [unescape]
  | cons seg segs ih =>
    have hcut : unescape (seg ++ slashed segs) =
        (unescape seg).bind fun x => (unescape (slashed segs)).map (x ++ ·) := by
      cases segs with
      | nil => simp [unescape]
      | cons next rest =>
        simp only [slashed_cons, List.cons_append, unescape_append_slash,
          unescape_cons (show '/' ≠ '%' by decide)]
        cases unescape seg <;> cases unescape (next ++ slashed rest) <;> simp
    rw [slashed_cons, List.cons_append, unescape_cons (by decide), hcut, ih,
      List.mapM_cons]
    cases unescape seg <;> cases segs.mapM unescape <;> simp

/-! ### Prefixes that end at a segment -/

def AtBoundary (pre s : List Char) : Prop :=
  ∃ rest, s = pre ++ rest ∧ (rest = [] ∨ rest.head? = some '/')

theorem slashed_eq_nil_or (segs : List (List Char)) :
    slashed segs = [] ∨ (slashed segs).head? = some '/' := by
  cases segs with
  | nil => exact .inl rfl
  | cons => exact .inr rfl

theorem atBoundary_iff_splitOn (pre s : List Char) :
    AtBoundary pre s ↔ pre.splitOn '/' <+: s.splitOn '/' := by
  constructor
  · rintro ⟨rest, rfl, rfl | hhead⟩
    · simp
    · obtain ⟨rest, rfl⟩ : ∃ r, rest = '/' :: r := ⟨_, (List.cons_head?_tail hhead).symm⟩
      have hcut : (pre ++ '/' :: rest).splitOn '/' = pre.splitOn '/' ++ rest.splitOn '/' :=
        List.splitOnP_append_cons pre rest (by simp)
      exact hcut ▸ List.prefix_append _ _
  · rintro ⟨segs, hsegs⟩
    have hs : '/' :: s = '/' :: (pre ++ slashed segs) := by
      rw [← slashed_splitOn, ← hsegs, slashed_append, slashed_splitOn, List.cons_append]
    exact ⟨slashed segs, (List.cons.inj hs).2, slashed_eq_nil_or segs⟩

theorem not_mem_take_of_atBoundary {rest : List Char} (hdecode : unescape raw = some (pre ++ rest))
    (hraw : AtBoundary pre raw) : '%' ∉ raw.take (pre.length + 1) := by
  obtain ⟨rawRest, rfl, rfl | hhead⟩ := hraw
  · simp only [List.append_nil] at hdecode ⊢
    obtain ⟨hplain, -⟩ | hlt := eq_or_length_lt_of_unescape hdecode
    · exact fun hmem => hplain (List.mem_of_mem_take hmem)
    · simp only [List.length_append] at hlt
      omega
  · obtain ⟨b, rfl⟩ : ∃ b, rawRest = '/' :: b := ⟨_, (List.cons_head?_tail hhead).symm⟩
    simp only [unescape_append_slash, Option.bind_eq_some_iff, Option.map_eq_some_iff] at hdecode
    obtain ⟨x, hx, y, -, hxy⟩ := hdecode
    obtain ⟨hplain, -⟩ | hlt := eq_or_length_lt_of_unescape hx
    · have htake : (pre ++ '/' :: b).take (pre.length + 1) = pre ++ ['/'] := by
        rw [List.append_cons]
        exact List.take_left' (by simp)
      simp [htake, hplain]
    · -- a shorter decoding ends inside of `pre`, with a slash too many
      have hcount := count_slash_le_of_unescape hx
      obtain ⟨z, hz, hbehind⟩ | ⟨z, hz, -⟩ := List.append_eq_append_iff.mp hxy
      · cases z with
        | nil => simp [hz] at hlt
        | cons c z =>
          obtain ⟨rfl, -⟩ := List.cons.inj hbehind
          simp only [hz, List.count_append, List.count_cons_self] at hcount
          omega
      · simp only [hz, List.length_append] at hlt
        omega

theorem atBoundary_of_not_mem_take (hdecode : unescape raw = some path)
    (hpath : AtBoundary pre path) (hplain : '%' ∉ raw.take (pre.length + 1)) :
    AtBoundary pre raw := by
  obtain ⟨rest, rfl, hrest⟩ := hpath
  have hraw := List.take_append_drop (pre.length + 1) raw
  have hdecoded := unescape_append_of_not_mem hplain (raw.drop (pre.length + 1))
  rw [hraw, hdecode] at hdecoded
  obtain ⟨b, hb, hcut⟩ := Option.map_eq_some_iff.mp hdecoded.symm
  by_cases hlong : raw.length ≤ pre.length
  · -- nothing is left to decode
    obtain rfl : b = [] := by
      rw [List.drop_eq_nil_of_le (by omega)] at hb
      exact (Option.some.inj hb).symm
    rw [List.append_nil, List.take_of_length_le (by omega)] at hcut
    exact ⟨rest, hcut, hrest⟩
  · have hlength : (raw.take (pre.length + 1)).length = pre.length + 1 := by
      rw [List.length_take]
      omega
    obtain rfl | hhead := hrest
    · have := congrArg List.length hcut
      simp only [List.length_append, List.length_nil] at this
      omega
    · obtain ⟨r, rfl⟩ : ∃ r, rest = '/' :: r := ⟨_, (List.cons_head?_tail hhead).symm⟩
      rw [List.append_cons] at hcut
      have htake := (List.append_inj hcut (by simp [hlength])).1
      refine ⟨'/' :: raw.drop (pre.length + 1), ?_, .inr rfl⟩
      rw [List.append_cons, ← htake, hraw]

theorem atBoundary_raw_iff (hdecode : unescape raw = some path) (hpath : AtBoundary pre path) :
    AtBoundary pre raw ↔ '%' ∉ raw.take (pre.length + 1) := by
  refine ⟨fun hraw => ?_, atBoundary_of_not_mem_take hdecode hpath⟩
  obtain ⟨rest, rfl, -⟩ := hpath
  exact not_mem_take_of_atBoundary hdecode hraw

theorem length_pathUnescape_lt (h : pathUnescape s ≠ s) : (pathUnescape s).length < s.length := by
  cases hs : unescape s with
  | none => simp [pathUnescape, hs] at h
  | some t =>
    have ht : pathUnescape s = t := by simp [pathUnescape, hs]
    obtain ⟨-, heq⟩ | hlt := eq_or_length_lt_of_unescape hs
    · exact absurd (ht.trans heq) h
    · simpa [ht] using hlt

theorem atBoundary_literals_iff {texts : List (List Char)} (hslash : ∀ text ∈ texts, '/' ∉ text)
    (segs : List (List Char)) :
    AtBoundary (slashed texts) (slashed (texts.map pathUnescape) ++ slashed segs) ↔
      ∀ text ∈ texts, pathUnescape text = text := by
  constructor
  · rintro ⟨rest, heq, -⟩
    induction texts with
    | nil => simp
    | cons text texts ih =>
      have heq : pathUnescape text ++ slashed (texts.map pathUnescape ++ segs) =
          text ++ (slashed texts ++ rest) := by
        simpa [slashed_append] using heq
      have hsame : pathUnescape text = text := by
        by_contra hne
        have hlt := length_pathUnescape_lt hne
        obtain ⟨z, hz, hbehind⟩ | ⟨z, hz, -⟩ := List.append_eq_append_iff.mp heq
        · -- the decoded segment ends inside of `text`, so `text` would have a slash
          cases z with
          | nil => exact hne (by simpa using hz.symm)
          | cons c z =>
            obtain hnil | hhead := slashed_eq_nil_or (texts.map pathUnescape ++ segs)
            · simp [hnil] at hbehind
            · obtain rfl : c = '/' := by simpa [hbehind] using hhead
              exact hslash text (by simp) (by rw [hz]; simp)
        · have hlength := congrArg List.length hz
          rw [List.length_append] at hlength
          omega
      rw [hsame] at heq
      have hrest := ih (fun t ht => hslash t (by simp [ht])) (by
        simpa [slashed_append] using List.append_cancel_left heq)
      simpa [hsame] using hrest
  · intro hplain
    have htexts : texts.map pathUnescape = texts := by
      simpa using List.map_congr_left hplain
    exact ⟨slashed segs, by rw [htexts], slashed_eq_nil_or segs⟩

/-! ### Encoding -/

theorem unhex_upperhex {n : Nat} (h : n < 16) : unhex (upperhex n) = some n := by
  have hall : ∀ n : Fin 16, unhex (upperhex n) = some n.val := by decide
  exact hall ⟨n, h⟩

theorem unescape_escape (s : List Char) : unescape (escape s) = some s := by
  induction s with
  | nil => rfl
  | cons c s ih =>
    have hcons : escape (c :: s) = escape [c] ++ escape s := by simp [escape]
    by_cases h : shouldEscape c ∧ c.toNat < 256
    · have hvalue : 16 * (c.toNat / 16) + c.toNat % 16 = c.toNat := by omega
      have hhi := unhex_upperhex (show c.toNat / 16 < 16 by omega)
      have hlo := unhex_upperhex (show c.toNat % 16 < 16 by omega)
      have hc : escape [c] =
          ['%', upperhex (c.toNat / 16), upperhex (c.toNat % 16)] := by simp [escape, h]
      rw [hcons, hc]
      simp [unescape_percent, hhi, hlo, ih, hvalue]
    · have hne : c ≠ '%' := by
        rintro rfl
        exact h (by decide)
      have hc : escape [c] = [c] := by simp only [escape, List.flatMap_singleton, if_neg h]
      rw [hcons, hc, List.singleton_append, unescape_cons hne, ih]
      rfl

theorem URL.unescape_escapedPath (u : URL) : unescape u.escapedPath = some u.path.toList := by
  rw [escapedPath]
  split
  · next h => exact h.2.2
  · split
    · next h =>
        rw [h]
        decide
    · exact unescape_escape _

theorem URL.escapedPath_rooted (u : URL) :
    u.escapedPath = [] ∨ ∃ rest, u.escapedPath = '/' :: rest := by
  rw [escapedPath]
  split
  · next h =>
      obtain heq | ⟨hhead, -⟩ := u.rawPath_eq
      · exact absurd heq h.1
      · exact .inr ⟨_, (List.cons_head?_tail hhead).symm⟩
  · obtain heq | hhead := u.path_rooted
    · simp [heq, escape]
    · obtain ⟨rest, hrest⟩ : ∃ rest, u.path.toList = '/' :: rest :=
        ⟨_, (List.cons_head?_tail hhead).symm⟩
      have hne : u.path ≠ "*" := by
        intro heq
        simp [heq] at hrest
      have hslash : (shouldEscape '/') = false := by decide
      right
      simp [hne, hrest, escape, hslash]

end Go.Url
