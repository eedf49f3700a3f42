import Mathlib.Data.List.TakeWhile
import Torii.Go.Url

/-!
# URLs as text

`URL.String` of `net/url`, and the text of a `Location` field, in which `http.Redirect` escapes the
bytes outside of ASCII. User information and fragments are given as the text that they are written
as, and there is no opaque part.
-/

namespace Go.Url

/-! ### Encodings of one path -/

/-- `EscapedPath` of a URL with this path and this encoding of its own, be they about the same path
or not. -/
def escapedPathOf (path rawPath : List Char) : List Char :=
  if rawPath ≠ [] ∧ validEncoded rawPath ∧ unescape rawPath = some path then rawPath
  else if path = ['*'] then ['*']
  else escape path

theorem escape_append (a b : List Char) : escape (a ++ b) = escape a ++ escape b :=
  List.flatMap_append

theorem unescape_append {a x : List Char} (h : unescape a = some x) (b : List Char) :
    unescape (a ++ b) = (unescape b).map (x ++ ·) := by
  fun_induction unescape a generalizing x with
  | case1 =>
    cases h
    simp
  | case2 hi lo rest v w hlo hhi ih =>
    obtain ⟨x', hx', rfl⟩ := Option.map_eq_some_iff.mp h
    rw [List.cons_append, List.cons_append, List.cons_append, unescape_percent, hhi, hlo]
    simp only [ih hx', Option.map_map]
    rfl
  | case3 | case4 => cases h
  | case5 c rest h1 h2 ih =>
    obtain ⟨x', hx', rfl⟩ := Option.map_eq_some_iff.mp h
    rw [List.cons_append, unescape_cons h2, ih hx', Option.map_map]
    rfl

variable {s : List Char} {c : Char} {path rawPath : List Char}

theorem eq_nil_of_unescape (h : unescape s = some []) : s = [] := by
  by_contra hne
  have hdecoded := pathUnescape_ne_nil hne
  rw [pathUnescape, h] at hdecoded
  exact hdecoded rfl

theorem eq_of_append_eq {a a' b b' x : List Char} (h : unescape a = some x)
    (h' : unescape a' = some x) (heq : a ++ b = a' ++ b') : a = a' := by
  have hrest : ∀ {c c' z : List Char}, unescape c = some x → unescape c' = some x →
      c' = c ++ z → c = c' := by
    rintro c c' z hc hc' rfl
    rw [unescape_append hc] at hc'
    obtain ⟨z', hz', hx⟩ := Option.map_eq_some_iff.mp hc'
    obtain rfl : z' = [] := List.append_right_eq_self.mp hx
    rw [eq_nil_of_unescape hz', List.append_nil]
  obtain ⟨z, hz, -⟩ | ⟨z, hz, -⟩ := List.append_eq_append_iff.mp heq
  · exact hrest h h' hz
  · exact (hrest h' h hz).symm

theorem unescape_escapedPathOf : unescape (escapedPathOf path rawPath) = some path := by
  rw [escapedPathOf]
  split
  · next h => exact h.2.2
  · split
    · next h =>
      rw [h]
      decide
    · exact unescape_escape path

theorem head_escape (h : ∀ c ∈ path.head?, c = '/') : ∀ c ∈ (escape path).head?, c = '/' := by
  cases path with
  | nil => simp [escape]
  | cons d path =>
    obtain rfl := h d rfl
    have hslash : shouldEscape '/' = false := by decide
    simp [escape, hslash]

theorem head_escapedPathOf (hpath : ∀ c ∈ path.head?, c = '/')
    (hraw : ∀ c ∈ rawPath.head?, c = '/') : ∀ c ∈ (escapedPathOf path rawPath).head?, c = '/' := by
  rw [escapedPathOf]
  split
  · exact hraw
  · split
    · next h =>
        rw [h] at hpath
        exact absurd (hpath '*' rfl) (by decide)
    · exact head_escape hpath

theorem eq_slash_of_unescape (hhead : ∀ c ∈ s.head?, c = '/')
    (h : unescape s = some ['/']) : s = ['/'] := by
  cases s with
  | nil => cases h
  | cons c s =>
    obtain rfl := hhead c rfl
    rw [unescape_cons (by decide)] at h
    obtain ⟨t, ht, heq⟩ := Option.map_eq_some_iff.mp h
    obtain rfl : t = [] := (List.cons.inj heq).2
    rw [eq_nil_of_unescape ht]

/-! ### Joining paths -/

def trimSlash (s : List Char) : List Char := if s.getLast? = some '/' then s.dropLast else s

@[simp] theorem trimSlash_append_slash (s : List Char) : trimSlash (s ++ ['/']) = s := by
  simp [trimSlash]

theorem trimSlash_of_ne (h : s.getLast? ≠ some '/') : trimSlash s = s := if_neg h

theorem head_trimSlash (h : ∀ c ∈ s.head?, c = '/') : ∀ c ∈ (trimSlash s).head?, c = '/' := by
  rw [trimSlash]
  split
  · cases s with
    | nil => simp
    | cons d s =>
      cases s with
      | nil => simp
      | cons => exact h
  · exact h

theorem trimSlash_eq_nil_iff (s : List Char) : trimSlash s = [] ↔ s = [] ∨ s = ['/'] := by
  by_cases hlast : s.getLast? = some '/'
  · obtain ⟨x, rfl⟩ := List.getLast?_eq_some_iff.mp hlast
    simp
  · rw [trimSlash_of_ne hlast]
    refine ⟨.inl, ?_⟩
    rintro (rfl | rfl)
    · rfl
    · exact absurd rfl hlast

theorem unescape_trimSlash (h : unescape s = some path) (hlast : s.getLast? = some '/') :
    path = trimSlash path ++ ['/'] ∧ unescape (trimSlash s) = some (trimSlash path) := by
  obtain ⟨x, rfl⟩ := List.getLast?_eq_some_iff.mp hlast
  rw [unescape_append_slash] at h
  obtain ⟨x', hx', hpath⟩ := Option.bind_eq_some_iff.mp h
  obtain rfl : x' ++ ['/'] = path := by simpa [unescape] using hpath
  simp [hx']

section

variable {path rawPath other encoded : List Char}

/-- The joined path is the first one again, and has its encoding. -/
def Unchanged (path rawPath other : List Char) : Prop :=
  rawPath ≠ [] ∧ validEncoded rawPath = true ∧ trimSlash path ++ other = path

variable (hraw : rawPath = [] ∨ unescape rawPath = some path)
  (hencoded : unescape encoded = some other)

include hraw hencoded

theorem escapedPathOf_of_unchanged (hslash : other = ['/'] → encoded = ['/'])
    (h : Unchanged path rawPath other) :
    escapedPathOf (trimSlash path ++ other) rawPath =
        trimSlash (escapedPathOf path rawPath) ++ encoded ↔
      other = [] ∨ rawPath.getLast? = some '/' := by
  obtain ⟨hne, hvalid, hsame⟩ := h
  have hdecode := hraw.resolve_left hne
  have hown : escapedPathOf path rawPath = rawPath := if_pos ⟨hne, hvalid, hdecode⟩
  rw [hsame, hown]
  by_cases hlast : rawPath.getLast? = some '/'
  · have hend := (unescape_trimSlash hdecode hlast).1
    obtain rfl : other = ['/'] := List.append_cancel_left (hsame.trans hend)
    obtain ⟨x, rfl⟩ := List.getLast?_eq_some_iff.mp hlast
    simp [hslash rfl]
  · have hnil : encoded = [] ↔ other = [] := by
      constructor
      · rintro rfl
        exact (Option.some.inj hencoded).symm
      · rintro rfl
        exact eq_nil_of_unescape hencoded
    simp [trimSlash_of_ne hlast, hlast, hnil]

theorem escapedPathOf_of_not_unchanged (hstar : trimSlash path ++ other ≠ ['*'])
    (h : ¬ Unchanged path rawPath other) :
    escapedPathOf (trimSlash path ++ other) rawPath =
        trimSlash (escapedPathOf path rawPath) ++ encoded ↔
      escape (trimSlash path) = trimSlash (escapedPathOf path rawPath) ∧
        escape other = encoded := by
  have hdecoded : unescape (escapedPathOf path rawPath) = some path := unescape_escapedPathOf
  have hanew : escapedPathOf (trimSlash path ++ other) rawPath =
      escape (trimSlash path) ++ escape other := by
    rw [escapedPathOf, if_neg, if_neg hstar, escape_append]
    rintro ⟨hne, hvalid, hdecode⟩
    have hsame := Option.some.inj (hdecode.symm.trans (hraw.resolve_left hne))
    exact h ⟨hne, hvalid, hsame⟩
  rw [hanew]
  constructor
  · intro heq
    have htrim : unescape (trimSlash (escapedPathOf path rawPath)) = some (trimSlash path) := by
      by_cases hlast : (escapedPathOf path rawPath).getLast? = some '/'
      · exact (unescape_trimSlash hdecoded hlast).2
      · -- both sides decode to the path and the other one
        rw [trimSlash_of_ne hlast] at heq ⊢
        have hsides := congrArg unescape heq
        rw [unescape_append (unescape_escape _), unescape_escape, unescape_append hdecoded,
          hencoded] at hsides
        rw [hdecoded, List.append_cancel_right (Option.some.inj hsides)]
    have hfirst := eq_of_append_eq (unescape_escape _) htrim heq
    rw [hfirst] at heq
    exact ⟨hfirst, List.append_cancel_left heq⟩
  · rintro ⟨hfirst, hsecond⟩
    rw [hfirst, hsecond]

theorem escapedPathOf_trimSlash_append_iff (hslash : other = ['/'] → encoded = ['/'])
    (hstar : trimSlash path ++ other ≠ ['*']) :
    escapedPathOf (trimSlash path ++ other) rawPath =
        trimSlash (escapedPathOf path rawPath) ++ encoded ↔
      escape (trimSlash path) = trimSlash (escapedPathOf path rawPath) ∧ escape other = encoded ∨
        Unchanged path rawPath other ∧ (other = [] ∨ rawPath.getLast? = some '/') := by
  by_cases h : Unchanged path rawPath other
  · rw [escapedPathOf_of_unchanged hraw hencoded hslash h]
    refine ⟨fun hend => .inr ⟨h, hend⟩, ?_⟩
    rintro (⟨hfirst, -⟩ | ⟨-, hend⟩)
    · obtain ⟨hne, hvalid, hsame⟩ := h
      have hdecode := hraw.resolve_left hne
      have hown : escapedPathOf path rawPath = rawPath := if_pos ⟨hne, hvalid, hdecode⟩
      rw [hown] at hfirst
      by_cases hlast : rawPath.getLast? = some '/'
      · exact .inr hlast
      · -- the default encoding of the trimmed path is one of the path, so nothing was trimmed
        left
        rw [trimSlash_of_ne hlast] at hfirst
        have htrim : trimSlash path = path := by
          have := unescape_escape (trimSlash path)
          rw [hfirst, hdecode] at this
          exact (Option.some.inj this).symm
        rw [htrim] at hsame
        exact List.append_right_eq_self.mp hsame
    · exact hend
  · rw [escapedPathOf_of_not_unchanged hraw hencoded hstar h]
    simp [h]

end

/-! ### The text of a URL -/

/-- `shouldEscape` in the mode of a host. -/
def shouldEscapeHost (c : Char) : Bool :=
  !(c.isAlphanum || c ∈ ['!', '$', '&', '\x27', '(', ')', '*', '+', ',', ';', '=', ':', '[', ']',
    '<', '>', '"', '-', '_', '.', '~'])

/-- `escape` in the mode of a host. -/
def escapeHost (s : List Char) : List Char :=
  s.flatMap fun c =>
    if shouldEscapeHost c ∧ c.toNat < 256 then
      ['%', upperhex (c.toNat / 16), upperhex (c.toNat % 16)]
    else [c]

/-- `url.URL` without an opaque part. -/
structure Parts where
  scheme : List Char := []
  user : Option (List Char) := none
  host : List Char
  path : List Char := []
  rawPath : List Char := []
  forceQuery : Bool := false
  rawQuery : List Char := []
  fragment : List Char := []
deriving DecidableEq

namespace Parts

def escapedPath (u : Parts) : List Char := escapedPathOf u.path u.rawPath

def userHost (u : Parts) : List Char :=
  (u.user.elim [] fun user => user ++ ['@']) ++ escapeHost u.host

def authority (u : Parts) : List Char :=
  if u.scheme ≠ [] ∨ u.host ≠ [] ∨ u.user ≠ none then
    (if u.host ≠ [] ∨ u.path ≠ [] ∨ u.user ≠ none then ['/', '/'] else []) ++ u.userHost
  else []

def pathText (u : Parts) : List Char :=
  if u.escapedPath ≠ [] ∧ u.escapedPath.head? ≠ some '/' ∧ u.host ≠ [] then '/' :: u.escapedPath
  else u.escapedPath

def trailer (u : Parts) : List Char :=
  (if u.forceQuery ∨ u.rawQuery ≠ [] then '?' :: u.rawQuery else []) ++
    (if u.fragment ≠ [] then '#' :: u.fragment else [])

def string (u : Parts) : List Char :=
  let front := (if u.scheme ≠ [] then u.scheme ++ [':'] else []) ++ u.authority
  -- a first segment with a colon would be taken for a scheme
  let dot := if front = [] ∧ ':' ∈ u.pathText.takeWhile (· ≠ '/') then ['.', '/'] else []
  front ++ dot ++ u.pathText ++ u.trailer

end Parts

def nonASCII (c : Char) : Bool := 128 ≤ c.toNat && c.toNat < 256

/-- `hexEscapeNonASCII` of `net/http`, with the lower-case digits of `strconv.AppendInt`. -/
def hexEscapeNonASCII (s : List Char) : List Char :=
  s.flatMap fun c =>
    if nonASCII c then ['%', Nat.digitChar (c.toNat / 16), Nat.digitChar (c.toNat % 16)] else [c]

/-! ### Reading a URL -/

def delimiters : List Char := ['/', '?', '#']

/-- The path, the query and the fragment of a URL with a scheme. -/
def afterAuthority (s : List Char) : List Char :=
  match (s.dropWhile (· ≠ ':')).drop 1 with
  | '/' :: '/' :: rest => rest.dropWhile (· ∉ delimiters)
  | rest => rest

def wirePath (s : List Char) : List Char := (afterAuthority s).takeWhile (· ∉ ['?', '#'])

def wireQuery (s : List Char) : List Char :=
  match (afterAuthority s).dropWhile (· ∉ ['?', '#']) with
  | '?' :: rest => rest.takeWhile (· ≠ '#')
  | _ => []

/-! ### What the escapes write -/

theorem mem_flatMap_escape {p : Char → Prop} [DecidablePred p] {hex : Nat → Char}
    (hp : ∀ c, p c → c.toNat < 256) (h : c ∈ s.flatMap fun d =>
      if p d then ['%', hex (d.toNat / 16), hex (d.toNat % 16)] else [d]) :
    c = '%' ∨ (∃ n : Fin 16, c = hex n) ∨ c ∈ s ∧ ¬ p c := by
  obtain ⟨d, hd, hc⟩ := List.mem_flatMap.mp h
  by_cases hpd : p d
  · have hbyte := hp d hpd
    rw [if_pos hpd] at hc
    simp only [List.mem_cons, List.not_mem_nil, or_false] at hc
    obtain rfl | rfl | rfl := hc
    · exact .inl rfl
    · exact .inr (.inl ⟨⟨d.toNat / 16, by omega⟩, rfl⟩)
    · exact .inr (.inl ⟨⟨d.toNat % 16, by omega⟩, rfl⟩)
  · rw [if_neg hpd, List.mem_singleton] at hc
    obtain rfl := hc
    exact .inr (.inr ⟨hd, hpd⟩)

theorem not_mem_escapeHost (hc : c ∈ delimiters) (s : List Char) : c ∉ escapeHost s := by
  have hdigit : ∀ n : Fin 16, upperhex n ∉ delimiters := by decide
  have hescaped : delimiters.all (fun c => shouldEscapeHost c ∧ c.toNat < 256) = true := by
    decide
  intro h
  obtain rfl | ⟨n, rfl⟩ | ⟨-, hplain⟩ := mem_flatMap_escape (fun _ h => h.2) h
  · exact absurd hc (by decide)
  · exact hdigit n hc
  · exact hplain (of_decide_eq_true (List.all_eq_true.mp hescaped c hc))

theorem mem_hexEscapeNonASCII (hc : c ∈ delimiters) (h : c ∈ hexEscapeNonASCII s) : c ∈ s := by
  have hdigit : ∀ n : Fin 16, Nat.digitChar n ∉ delimiters := by decide
  obtain rfl | ⟨n, rfl⟩ | ⟨hmem, -⟩ := mem_flatMap_escape (by simp [nonASCII]) h
  · exact absurd hc (by decide)
  · exact absurd hc (hdigit n)
  · exact hmem

theorem shouldEscape_of_nonASCII (h : nonASCII c = true) : shouldEscape c = true := by
  have hall : ∀ n : Fin 128, shouldEscape (Char.ofNat (n + 128)) = true := by decide
  obtain ⟨hlow, hhigh⟩ : 128 ≤ c.toNat ∧ c.toNat < 256 := by simpa [nonASCII] using h
  have hc := hall ⟨c.toNat - 128, by omega⟩
  rwa [Nat.sub_add_cancel hlow, Char.ofNat_toNat] at hc

/-- A character that an encoded path may hold: ASCII, and none that ends the path. -/
def inPath (c : Char) : Bool := c ∉ ['?', '#'] && !nonASCII c

theorem inPath_of_not_shouldEscape (h : shouldEscape c = false) : inPath c = true := by
  have hescaped : ['?', '#'].all shouldEscape = true := by decide
  simp only [inPath, Bool.and_eq_true, decide_eq_true_eq, Bool.not_eq_true']
  constructor
  · intro hc
    exact absurd (List.all_eq_true.mp hescaped c hc) (by simp [h])
  · cases hbyte : nonASCII c with
    | false => rfl
    | true => exact absurd (shouldEscape_of_nonASCII hbyte) (by simp [h])

theorem inPath_of_mem_escape (h : c ∈ escape s) : inPath c = true := by
  have hdigit : ∀ n : Fin 16, inPath (upperhex n) = true := by decide
  obtain rfl | ⟨n, rfl⟩ | ⟨-, hplain⟩ := mem_flatMap_escape (fun _ h => h.2) h
  · decide
  · exact hdigit n
  · cases hescape : shouldEscape c with
    | false => exact inPath_of_not_shouldEscape hescape
    | true =>
      -- a character beyond the bytes
      have hlarge : 256 ≤ c.toNat := by
        by_contra hsmall
        exact hplain ⟨hescape, by omega⟩
      have hne : c ∉ ['?', '#'] := by
        intro hc
        simp only [List.mem_cons, List.not_mem_nil, or_false] at hc
        obtain rfl | rfl := hc
        · exact absurd hlarge (by decide)
        · exact absurd hlarge (by decide)
      simp only [inPath, nonASCII, hne, not_false_eq_true, decide_true, Bool.true_and,
        Bool.not_eq_true', Bool.and_eq_false_iff, decide_eq_false_iff_not]
      omega

theorem inPath_of_validEncoded (hvalid : validEncoded s = true) (h : c ∈ s) : inPath c = true := by
  have hc := List.all_eq_true.mp hvalid c h
  simp only [Bool.or_eq_true, decide_eq_true_eq, Bool.not_eq_true'] at hc
  obtain hc | hc := hc
  · have hall : ['!', '$', '&', '\x27', '(', ')', '*', '+', ',', ';', '=', ':', '@', '[', ']',
        '%'].all inPath = true := by decide
    exact List.all_eq_true.mp hall c hc
  · exact inPath_of_not_shouldEscape hc

theorem inPath_of_mem_escapedPathOf (h : c ∈ escapedPathOf path rawPath) : inPath c = true := by
  rw [escapedPathOf] at h
  split at h
  · next hraw => exact inPath_of_validEncoded hraw.2.1 h
  · split at h
    · rw [List.mem_singleton.mp h]
      decide
    · exact inPath_of_mem_escape h

theorem hexEscapeNonASCII_append (a b : List Char) :
    hexEscapeNonASCII (a ++ b) = hexEscapeNonASCII a ++ hexEscapeNonASCII b :=
  List.flatMap_append

theorem hexEscapeNonASCII_cons (h : nonASCII c = false) (s : List Char) :
    hexEscapeNonASCII (c :: s) = c :: hexEscapeNonASCII s := by
  simp [hexEscapeNonASCII, h]

theorem hexEscapeNonASCII_eq_self_iff (s : List Char) :
    hexEscapeNonASCII s = s ↔ ∀ c ∈ s, nonASCII c = false := by
  induction s with
  | nil => simp [hexEscapeNonASCII]
  | cons c s ih =>
    cases hc : nonASCII c with
    | true =>
      -- the escape begins with a percent sign, which is ASCII
      have hne : c ≠ '%' := by
        rintro rfl
        exact absurd hc (by decide)
      simp [hexEscapeNonASCII, hc, Ne.symm hne]
    | false => simp [hexEscapeNonASCII_cons hc, hc, ih]

/-! ### Cutting a text that was put together -/

theorem span_of_head {p : Char → Bool} (h : ∀ c ∈ s.head?, p c = false) :
    s.takeWhile p = [] ∧ s.dropWhile p = s := by
  cases s with
  | nil => exact ⟨rfl, rfl⟩
  | cons c s => simp [h c rfl]

section

variable {scheme : List Char} (hscheme : ':' ∉ scheme)

include hscheme

theorem drop_scheme (rest : List Char) :
    ((scheme ++ ':' :: rest).dropWhile (· ≠ ':')).drop 1 = rest := by
  have hcolon : ∀ c ∈ scheme, decide (c ≠ ':') = true := by
    intro c hc
    simp only [ne_eq, decide_not, Bool.not_eq_true', decide_eq_false_iff_not]
    rintro rfl
    exact hscheme hc
  rw [List.dropWhile_append_of_pos hcolon]
  rfl

theorem afterAuthority_append {authority rest : List Char}
    (hauthority : ∀ c ∈ authority, c ∉ delimiters) (hrest : ∀ c ∈ rest.head?, c ∈ delimiters) :
    afterAuthority (scheme ++ ':' :: ('/' :: '/' :: authority ++ rest)) = rest := by
  simp only [afterAuthority, drop_scheme hscheme, List.cons_append]
  rw [List.dropWhile_append_of_pos (by simpa using hauthority)]
  exact (span_of_head (by simpa using hrest)).2

theorem head_wirePath (rest : List Char) :
    ∀ c ∈ (wirePath (scheme ++ ':' :: '/' :: '/' :: rest)).head?, c = '/' := by
  have hbehind := List.head?_dropWhile_not (· ∉ delimiters) rest
  simp only [wirePath, afterAuthority, drop_scheme hscheme]
  cases h : rest.dropWhile (· ∉ delimiters) with
  | nil => simp
  | cons d behind =>
    rw [h] at hbehind
    obtain rfl | rfl | rfl : d = '/' ∨ d = '?' ∨ d = '#' := by
      simpa [delimiters, or_iff_not_imp_left] using hbehind
    · simp
    · simp
    · simp

end

theorem takeWhile_append_fragment (query : List Char) {fragment : List Char}
    (h : ∀ c ∈ fragment.head?, c = '#') :
    (query ++ fragment).takeWhile (· ≠ '#') = query.takeWhile (· ≠ '#') := by
  induction query with
  | nil => exact (span_of_head (by simpa using h)).1
  | cons c query ih => simp only [List.cons_append, List.takeWhile_cons, ih]

theorem takeWhile_hexEscapeNonASCII_eq_iff (query : List Char) :
    (hexEscapeNonASCII query).takeWhile (· ≠ '#') = query ↔
      '#' ∉ query ∧ ∀ c ∈ query, nonASCII c = false := by
  rw [← hexEscapeNonASCII_eq_self_iff]
  constructor
  · intro h
    have hhash : '#' ∉ query := by
      intro hmem
      rw [← h] at hmem
      simpa using List.mem_takeWhile_imp hmem
    refine ⟨hhash, ?_⟩
    rwa [List.takeWhile_eq_self_iff.mpr] at h
    intro c hc
    rw [decide_eq_true_eq]
    rintro rfl
    exact hhash (mem_hexEscapeNonASCII (by decide) hc)
  · rintro ⟨hhash, hascii⟩
    rw [hascii, List.takeWhile_eq_self_iff]
    intro c hc
    rw [decide_eq_true_eq]
    rintro rfl
    exact hhash hc

namespace Parts

/-- The text of the URL can be cut where it was put together. -/
structure Readable (u : Parts) : Prop where
  scheme_ne_nil : u.scheme ≠ []
  scheme : ∀ c ∈ u.scheme, c ≠ ':' ∧ nonASCII c = false
  user : ∀ user ∈ u.user, ∀ c ∈ user, c ∉ delimiters

theorem inPath_of_mem_pathText {u : Parts} {c : Char} (h : c ∈ u.pathText) : inPath c = true := by
  rw [pathText] at h
  split at h
  · obtain rfl | h := List.mem_cons.mp h
    · decide
    · exact inPath_of_mem_escapedPathOf h
  · exact inPath_of_mem_escapedPathOf h

theorem pathText_of_head {u : Parts} (h : ∀ c ∈ u.escapedPath.head?, c = '/') :
    u.pathText = u.escapedPath := by
  rw [pathText, if_neg]
  rintro ⟨hne, hhead, -⟩
  obtain ⟨c, rest, hcons⟩ := List.exists_cons_of_ne_nil hne
  rw [hcons] at h hhead
  exact hhead (congrArg some (h c rfl))

theorem trailer_eq (u : Parts) :
    ∃ query fragment, hexEscapeNonASCII u.trailer = query ++ fragment ∧
      (query = [] ∧ u.rawQuery = [] ∨ query = '?' :: hexEscapeNonASCII u.rawQuery) ∧
      ∀ c ∈ fragment.head?, c = '#' := by
  have hquestion : nonASCII '?' = false := by decide
  have hhash : nonASCII '#' = false := by decide
  refine ⟨_, _, hexEscapeNonASCII_append _ _, ?_, ?_⟩
  · split
    · exact .inr (hexEscapeNonASCII_cons hquestion _)
    · next h =>
        rw [not_or, not_not] at h
        exact .inl ⟨rfl, h.2⟩
  · split
    · rw [hexEscapeNonASCII_cons hhash]
      simp
    · simp [hexEscapeNonASCII]

theorem head_trailer (u : Parts) : ∀ c ∈ (hexEscapeNonASCII u.trailer).head?, c ∈ ['?', '#'] := by
  obtain ⟨query, fragment, htrailer, hquery, hfragment⟩ := u.trailer_eq
  rw [htrailer]
  obtain ⟨rfl, -⟩ | rfl := hquery
  · intro c hc
    simp [hfragment c hc]
  · simp

namespace Readable

variable {u : Parts} (hu : u.Readable)

include hu

theorem hexEscapeNonASCII_string :
    hexEscapeNonASCII u.string = u.scheme ++
      ':' :: (hexEscapeNonASCII u.authority ++ (u.pathText ++ hexEscapeNonASCII u.trailer)) := by
  have hscheme := (hexEscapeNonASCII_eq_self_iff u.scheme).mpr fun c hc => (hu.scheme c hc).2
  have hpath := (hexEscapeNonASCII_eq_self_iff u.pathText).mpr fun c hc => by
    simpa using (Bool.and_eq_true_iff.mp (inPath_of_mem_pathText hc)).2
  have hstring : u.string =
      u.scheme ++ ([':'] ++ (u.authority ++ (u.pathText ++ u.trailer))) := by
    simp [string, hu.scheme_ne_nil]
  simp only [hstring, hexEscapeNonASCII_append, hscheme, hpath]
  rfl

theorem colon_not_mem : ':' ∉ u.scheme := fun h => (hu.scheme _ h).1 rfl

theorem not_mem_userHost {c : Char} (hc : c ∈ delimiters) : c ∉ u.userHost := by
  intro h
  obtain h | h := List.mem_append.mp h
  · cases huser : u.user with
    | none => simp [huser] at h
    | some user =>
      rw [huser, Option.elim_some, List.mem_append, List.mem_singleton] at h
      obtain h | rfl := h
      · exact hu.user user huser c h hc
      · exact absurd hc (by decide)
  · exact not_mem_escapeHost hc u.host h

theorem authority_eq :
    u.path = [] ∧ u.authority = [] ∨
      hexEscapeNonASCII u.authority = '/' :: '/' :: hexEscapeNonASCII u.userHost := by
  have hslash : nonASCII '/' = false := by decide
  by_cases h : u.host ≠ [] ∨ u.path ≠ [] ∨ u.user ≠ none
  · right
    rw [authority, if_pos (.inl hu.scheme_ne_nil), if_pos h, List.cons_append, List.cons_append,
      hexEscapeNonASCII_cons hslash, hexEscapeNonASCII_cons hslash, List.nil_append]
  · simp only [not_or, not_not] at h
    obtain ⟨hhost, hpath, huser⟩ := h
    exact .inl ⟨hpath, by simp [authority, userHost, hhost, hpath, huser, escapeHost]⟩

theorem afterAuthority_string (hpath : ∀ c ∈ u.pathText.head?, c = '/') :
    afterAuthority (hexEscapeNonASCII u.string) = u.pathText ++ hexEscapeNonASCII u.trailer := by
  have htrailer := u.head_trailer
  rw [hu.hexEscapeNonASCII_string]
  obtain ⟨hnil, hauthority⟩ | hauthority := hu.authority_eq
  · -- an encoding of no path is empty
    have hpathText : u.pathText = [] := by
      have hescaped : u.escapedPath = [] := eq_nil_of_unescape (by
        rw [escapedPath, unescape_escapedPathOf, hnil])
      simp [pathText, hescaped]
    rw [hauthority, hpathText, afterAuthority, drop_scheme hu.colon_not_mem]
    cases h : hexEscapeNonASCII u.trailer with
    | nil => rfl
    | cons c rest =>
      obtain rfl | rfl : c = '?' ∨ c = '#' := by simpa using htrailer c (by simp [h])
      · rfl
      · rfl
  · rw [hauthority]
    apply afterAuthority_append hu.colon_not_mem
    · intro c hc hdelimiter
      exact hu.not_mem_userHost hdelimiter (mem_hexEscapeNonASCII hdelimiter hc)
    · intro c hc
      rw [List.head?_append, Option.mem_def, Option.or_eq_some_iff] at hc
      obtain hc | ⟨-, hc⟩ := hc
      · simp [hpath c hc, delimiters]
      · exact List.mem_cons_of_mem _ (htrailer c hc)

theorem wirePath_string (hpath : ∀ c ∈ u.pathText.head?, c = '/') :
    wirePath (hexEscapeNonASCII u.string) = u.pathText := by
  have hin : ∀ c ∈ u.pathText, decide (c ∉ ['?', '#']) = true := fun c hc =>
    (Bool.and_eq_true_iff.mp (inPath_of_mem_pathText hc)).1
  have hend := (span_of_head fun c hc => decide_eq_false (not_not_intro (u.head_trailer c hc))).1
  rw [wirePath, hu.afterAuthority_string hpath, List.takeWhile_append_of_pos hin, hend,
    List.append_nil]

theorem wireQuery_string (hpath : ∀ c ∈ u.pathText.head?, c = '/') :
    wireQuery (hexEscapeNonASCII u.string) =
      (hexEscapeNonASCII u.rawQuery).takeWhile (· ≠ '#') := by
  have hin : ∀ c ∈ u.pathText, decide (c ∉ ['?', '#']) = true := fun c hc =>
    (Bool.and_eq_true_iff.mp (inPath_of_mem_pathText hc)).1
  have hend := (span_of_head fun c hc => decide_eq_false (not_not_intro (u.head_trailer c hc))).2
  rw [wireQuery, hu.afterAuthority_string hpath, List.dropWhile_append_of_pos hin, hend]
  obtain ⟨query, fragment, htrailer, hquery, hfragment⟩ := u.trailer_eq
  rw [htrailer]
  obtain ⟨rfl, hnil⟩ | rfl := hquery
  · rw [hnil]
    cases fragment with
    | nil => rfl
    | cons c rest =>
      rw [hfragment c rfl]
      rfl
  · exact takeWhile_append_fragment _ hfragment

theorem head_wirePath_string (hpath : u.path ≠ []) :
    ∀ c ∈ (wirePath (hexEscapeNonASCII u.string)).head?, c = '/' := by
  obtain ⟨hnil, -⟩ | hauthority := hu.authority_eq
  · exact absurd hnil hpath
  · rw [hu.hexEscapeNonASCII_string, hauthority]
    exact head_wirePath hu.colon_not_mem _

end Readable

end Parts

end Go.Url
