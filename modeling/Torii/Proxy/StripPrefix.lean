import Torii.Proxy.PathPatterns

/-!
# Stripping the prefix of a path rule

The mux matches the widened pattern against the decoded segments of a request, while
`http.StripPrefix` looks for a text that `pathRulePrefix` reads off the rule's own pattern, both in
the decoded path and in the path as it was escaped. When one of them does not begin with that text,
the answer is 404.
-/

namespace Torii.Proxy

open Go Go.Url Go.Http Go.ServeMux Torii.Middleware Strings

def RoutedTo (unicodeName : List Char → Bool) (pattern : String) (u : URL) : Prop :=
  ∃ p, parsePattern unicodeName (ensureSubtree (normalizePattern pattern)).toList = some p ∧
    matchPath p.segments (requestSegments u.escapedPath) = true

/-- The prefix of a rule is one of the path and of the escaped path, up to the end of a
segment. -/
def PrefixFound (pattern : String) (u : URL) : Prop :=
  pathRulePrefix pattern = "" ∨
    AtBoundary (pathRulePrefix pattern).toList u.path.toList ∧
      (u.rawPath = "" ∨ AtBoundary (pathRulePrefix pattern).toList u.rawPath.toList)

def Static (pre : String) : Prop := ∀ seg ∈ ruleSegments pre, seg ≠ "" ∧ '\x7b' ∉ seg.toList

/-- When a rule and a request fit: the pattern starts with a slash, its prefix has no escapes,
and the request has none in the place of the prefix. A request can also spell out the text of a
wildcard. -/
structure Strippable (pattern : String) (u : URL) : Prop where
  rooted : pattern.toList.head? = some '/'
  literals : Static (pathRulePrefix pattern) →
    ∀ seg ∈ ruleSegments (pathRulePrefix pattern), pathUnescape seg.toList = seg.toList
  spelled : ¬ Static (pathRulePrefix pattern) →
    (pathRulePrefix pattern).toList.splitOn '/' <+: u.path.toList.splitOn '/'
  rawPath : u.rawPath = "" ∨
    '%' ∉ u.rawPath.toList.take ((pathRulePrefix pattern).toList.length + 1)

/-! ### The text of a prefix -/

variable {pattern : String}

theorem exists_of_pathRulePrefix (h : pathRulePrefix pattern ≠ "") :
    ∃ q slashes, (pattern = q ∨ pattern = q ++ "*") ∧
      q.toList = (pathRulePrefix pattern).toList ++ slashes ∧ (∀ c ∈ slashes, c = '/') ∧
      '*' ∉ q.toList ∧ (pathRulePrefix pattern).toList.getLast? ≠ some '/' := by
  obtain ⟨p, hp⟩ : ∃ p, p = trimRight (trimSuffix pattern '*') '/' := ⟨_, rfl⟩
  obtain ⟨hpre, hstar⟩ : pathRulePrefix pattern = p ∧ '*' ∉ p.toList := by
    simp only [pathRulePrefix, ← hp] at h ⊢
    split at h
    · exact absurd rfl h
    · next hne =>
        split at h
        · exact absurd rfl h
        · next hcontains =>
            refine ⟨by simp [hne, hcontains], fun hmem => hcontains ?_⟩
            exact (contains_iff_occurs (by decide)).mpr
              (List.singleton_infix_iff _ _ |>.mpr hmem)
  have hcut : (trimSuffix pattern '*').toList = p.toList ++
      ((trimSuffix pattern '*').toList.reverse.takeWhile (· = '/')).reverse := by
    rw [hp, trimRight, String.toList_ofList, ← List.reverse_append,
      List.takeWhile_append_dropWhile, List.reverse_reverse]
  have hslashes : ∀ c ∈ ((trimSuffix pattern '*').toList.reverse.takeWhile
      (· = '/')).reverse, c = '/' := by
    intro c hc
    simpa using List.all_eq_true.mp List.all_takeWhile c (List.mem_reverse.mp hc)
  refine ⟨trimSuffix pattern '*', _, ?_, hpre ▸ hcut, hslashes, ?_, ?_⟩
  · rw [trimSuffix]
    split
    · next hlast =>
        refine .inr (String.toList_inj.mp ?_)
        simpa using (List.dropLast_append_getLast? '*' hlast).symm
    · exact .inl rfl
  · rw [hcut]
    intro hmem
    obtain hmem | hmem := List.mem_append.mp hmem
    · exact hstar hmem
    · exact absurd (hslashes _ hmem) (by decide)
  · rw [hpre, hp, trimRight, String.toList_ofList, List.getLast?_reverse]
    intro hhead
    have hnot := List.head?_dropWhile_not (· = '/') (trimSuffix pattern '*').toList.reverse
    rw [hhead] at hnot
    exact absurd hnot (by simp)

theorem toList_normalizePattern_of_no_star {last : String} {init : List String}
    (h : pattern.toList.head? = some '/') (hsegs : ruleSegments pattern = init ++ [last])
    (hstar : "*" ∉ init) : (normalizePattern pattern).toList =
      slashed (init.map String.toList) ++
        slashed ((normalizeSegments 0 [last]).map String.toList) := by
  rw [toList_normalizePattern h, hsegs, normalizeSegments_of_no_star hstar, List.map_append,
    slashed_append]

theorem star_not_mem {seg : String} (h : pattern.toList.head? = some '/')
    (hstar : '*' ∉ pattern.toList) (hseg : seg ∈ ruleSegments pattern) : '*' ∉ seg.toList := by
  intro hmem
  refine hstar ?_
  rw [toList_eq_slashed h]
  exact List.mem_flatMap.mpr ⟨seg.toList, List.mem_map_of_mem hseg, by simp [hmem]⟩

section

variable {pattern : String} (h : pattern.toList.head? = some '/') (hstar : '*' ∉ pattern.toList)

include h hstar

theorem exists_init : ∃ init last, ruleSegments pattern = init ++ [last] ∧ "*" ∉ init := by
  have hsegs := List.dropLast_append_getLast (split_of_rooted h).2
  refine ⟨_, _, hsegs.symm, fun hmem => ?_⟩
  exact star_not_mem h hstar (List.mem_of_mem_dropLast hmem) (by decide)

theorem normalizePattern_of_no_star : normalizePattern pattern = pattern := by
  obtain ⟨init, last, hsegs, hinit⟩ := exists_init h hstar
  have hlast : '*' ∉ last.toList := star_not_mem h hstar (by simp [hsegs])
  have hnorm : normalizeSegments 0 [last] = [last] := by
    have hne : last ≠ "*" := by
      rintro rfl
      exact hlast (by decide)
    have hsuffix : hasSuffix last '*' = false := by
      simpa [hasSuffix] using fun heq => hlast (List.mem_of_getLast? heq)
    simp [normalizeSegments, hne, hsuffix]
  rw [← String.toList_inj, toList_normalizePattern_of_no_star h hsegs hinit, hnorm,
    toList_eq_slashed h, hsegs, List.map_append, slashed_append]

/-- A star at the end becomes a catch-all behind a slash. -/
theorem toList_normalizePattern_append_star :
    (normalizePattern (pattern ++ "*")).toList =
      pattern.toList ++
        if pattern.toList.getLast? = some '/' then catchAll.toList
        else '/' :: catchAll.toList := by
  obtain ⟨init, last, hsegs, hinit⟩ := exists_init h hstar
  have hrooted : (pattern ++ "*").toList.head? = some '/' := by simp [List.head?_append, h]
  have htext : pattern.toList = slashed (init.map String.toList) ++ '/' :: last.toList := by
    rw [toList_eq_slashed h, hsegs, List.map_append, slashed_append]
    simp
  rw [toList_normalizePattern_of_no_star hrooted (ruleSegments_append_star h hsegs) hinit]
  by_cases hempty : last = ""
  · simp [hempty, htext, normalizeSegments]
  · obtain ⟨c, hc⟩ : ∃ c, last.toList.getLast? = some c :=
      Option.isSome_iff_exists.mp (by simp [hempty])
    have hslash : c ≠ '/' := by
      rintro rfl
      exact slash_not_mem (show last ∈ ruleSegments pattern by simp [hsegs])
        (List.mem_of_getLast? hc)
    obtain ⟨-, hne, hsuffix, htrim⟩ := append_star hempty
    simp [htext, normalizeSegments, hne, hsuffix, htrim, List.getLast?_cons, hc, hslash]

end

theorem exists_toList_ensureSubtree (hne : pathRulePrefix pattern ≠ "")
    (h : pattern.toList.head? = some '/') (hbrace : '\x7b' ∉ (pathRulePrefix pattern).toList) :
    ∃ rest, (ensureSubtree (normalizePattern pattern)).toList =
      (pathRulePrefix pattern).toList ++ '/' :: rest := by
  obtain ⟨q, slashes, hpattern, hq, hslashes, hstar, hlast⟩ := exists_of_pathRulePrefix hne
  have hpre : (pathRulePrefix pattern).toList ≠ [] := by simpa using hne
  have hrooted : q.toList.head? = some '/' := by
    have hqne : q.toList ≠ [] := by simp [hq, hpre]
    obtain rfl | hpattern := hpattern
    · exact h
    · rwa [hpattern, String.toList_append, List.head?_append_of_ne_nil _ hqne] at h
  -- behind the prefix stand the slashes of the pattern, or one that is added
  have hbehind : ∀ rest : List Char, slashes ≠ [] ∨ rest.head? = some '/' →
      ∃ r, q.toList ++ rest = (pathRulePrefix pattern).toList ++ '/' :: r := by
    intro rest hrest
    cases slashes with
    | nil =>
      obtain ⟨r, rfl⟩ : ∃ r, rest = '/' :: r :=
        ⟨_, (List.cons_head?_tail (hrest.resolve_left (by simp))).symm⟩
      exact ⟨r, by simp [hq]⟩
    | cons c slashes =>
      obtain rfl := hslashes c (by simp)
      exact ⟨slashes ++ rest, by simp [hq]⟩
  have hends : q.toList.getLast? = some '/' → slashes ≠ [] := by
    rintro hgetLast rfl
    exact hlast (by simpa [hq] using hgetLast)
  obtain rfl | rfl := hpattern
  · rw [normalizePattern_of_no_star h hstar, toList_ensureSubtree]
    split
    next hcovering =>
      obtain hslash | hoccurs := hcovering
      · simpa using hbehind [] (.inl (hends hslash))
      · have hmem : '\x7b' ∈ pattern.toList := hoccurs.subset (by decide)
        rw [hq, List.mem_append] at hmem
        obtain hmem | hmem := hmem
        · exact absurd hmem hbrace
        · exact absurd (hslashes _ hmem) (by decide)
    next => simpa using hbehind ('/' :: catchAll.toList) (.inr rfl)
  · have htext := toList_normalizePattern_append_star hrooted hstar
    rw [toList_ensureSubtree, if_pos, htext]
    · split
      next hslash => exact hbehind _ (.inl (hends hslash))
      next => exact hbehind _ (.inr rfl)
    · right
      rw [htext]
      split
      · exact (List.suffix_append _ _).isInfix
      · exact ⟨q.toList ++ ['/'], [], by simp⟩

/-! ### Requests of a rule -/

theorem head?_pathRulePrefix (hne : pathRulePrefix pattern ≠ "") :
    (pathRulePrefix pattern).toList.head? = pattern.toList.head? := by
  obtain ⟨q, slashes, hpattern, hq, -⟩ := exists_of_pathRulePrefix hne
  have hpre : (pathRulePrefix pattern).toList ≠ [] := by simpa using hne
  obtain ⟨rest, hrest⟩ : ∃ rest, pattern.toList = (pathRulePrefix pattern).toList ++ rest := by
    obtain hpattern | hpattern := hpattern
    · exact ⟨slashes, by rw [hpattern, hq, ← hpattern]⟩
    · exact ⟨slashes ++ ['*'], by
        rw [hpattern, String.toList_append, hq, ← hpattern]
        simp⟩
  rw [hrest, List.head?_append_of_ne_nil _ hpre]

theorem toList_pathRulePrefix (hne : pathRulePrefix pattern ≠ "")
    (h : pattern.toList.head? = some '/') : (pathRulePrefix pattern).toList =
      slashed ((ruleSegments (pathRulePrefix pattern)).map String.toList) :=
  toList_eq_slashed ((head?_pathRulePrefix hne).trans h)

theorem exists_segments_of_static {unicodeName : List Char → Bool} {p : Pattern}
    (hparse : parsePattern unicodeName (ensureSubtree (normalizePattern pattern)).toList = some p)
    (hne : pathRulePrefix pattern ≠ "") (h : pattern.toList.head? = some '/')
    (hstatic : Static (pathRulePrefix pattern)) :
    ∃ segs, segs ≠ [] ∧ p.segments =
      (((ruleSegments (pathRulePrefix pattern)).map String.toList).map pathUnescape).map
        Segment.literal ++ segs := by
  have hpre := toList_pathRulePrefix hne h
  have hliteral : ∀ text ∈ (ruleSegments (pathRulePrefix pattern)).map String.toList,
      text ≠ [] ∧ '\x7b' ∉ text := by
    simpa [Static] using hstatic
  have hslash : ∀ text ∈ (ruleSegments (pathRulePrefix pattern)).map String.toList,
      '/' ∉ text := by
    simpa using fun seg hseg => slash_not_mem hseg
  generalize (ruleSegments (pathRulePrefix pattern)).map String.toList = texts
    at hpre hliteral hslash ⊢
  have hbrace : '\x7b' ∉ (pathRulePrefix pattern).toList := by
    rw [hpre]
    intro hmem
    obtain ⟨text, htext, hmem⟩ := List.mem_flatMap.mp hmem
    obtain hmem | hmem := List.mem_cons.mp hmem
    · exact absurd hmem (by decide)
    · exact (hliteral text htext).2 hmem
  obtain ⟨rest, hrest⟩ := exists_toList_ensureSubtree hne h hbrace
  have hcut : (slashed (texts ++ rest.splitOn '/')).tail.splitOn '/' =
      texts ++ rest.splitOn '/' := by
    apply splitOn_tail_slashed (by simp)
    intro seg hseg
    obtain hseg | hseg := List.mem_append.mp hseg
    · exact hslash seg hseg
    · exact sep_not_mem_of_mem_splitOn hseg
  obtain ⟨path, hpath⟩ : ∃ path, slashed (texts ++ rest.splitOn '/') = '/' :: path := by
    rw [slashed_append, slashed_splitOn, ← hpre]
    obtain ⟨pre, hcons⟩ : ∃ pre, (pathRulePrefix pattern).toList = '/' :: pre :=
      ⟨_, (List.cons_head?_tail ((head?_pathRulePrefix hne).trans h)).symm⟩
    exact ⟨pre ++ '/' :: rest, by simp [hcons]⟩
  rw [hrest, hpre, ← slashed_splitOn, ← slashed_append, hpath] at hparse
  have hread := parseSegments_of_parsePattern hparse
  rw [hpath, List.tail_cons] at hcut
  rw [hcut, parseSegments_literals_append hliteral] at hread
  obtain ⟨segs, hsegs, hp⟩ := Option.map_eq_some_iff.mp hread
  refine ⟨segs, parseSegments_ne_nil (List.splitOn_ne_nil _ _) hsegs, ?_⟩
  simp [← hp, Function.comp_def]

theorem exists_path_of_matchPath {texts : List (List Char)} {segs : List Segment} {u : URL}
    (htexts : [] ∉ texts) (hsegs : segs ≠ [])
    (hmatch : matchPath (texts.map Segment.literal ++ segs) (requestSegments u.escapedPath)) :
    ∃ behind, u.path.toList = slashed texts ++ slashed behind := by
  obtain ⟨us, hus, hmatch⟩ := exists_of_matchPath_literals htexts hmatch
  have hus' : us ≠ [] := ne_nil_of_matchPath hsegs hmatch
  obtain hnil | ⟨e, he⟩ := u.escapedPath_rooted
  · simp [hnil, requestSegments, hus'] at hus
  · have hdecode := u.unescape_escapedPath
    rw [he, ← slashed_splitOn, unescape_slashed] at hdecode
    obtain ⟨decoded, hdecoded, hslashed⟩ := Option.map_eq_some_iff.mp hdecode
    have hrequest : decodeSegments (e.splitOn '/') = texts ++ us := by
      simpa [he, requestSegments] using hus
    obtain ⟨behind, hbehind⟩ := prefix_of_decodeSegments hdecoded hrequest hus'
    exact ⟨behind, by rw [← hslashed, ← hbehind, slashed_append]⟩

section

variable {unicodeName : List Char → Bool} {pattern : String} {u : URL}
  (hrouted : RoutedTo unicodeName pattern u) (hne : pathRulePrefix pattern ≠ "")
  (h : pattern.toList.head? = some '/')

include hrouted hne h

theorem exists_path_of_routedTo (hstatic : Static (pathRulePrefix pattern)) :
    ∃ segs, u.path.toList =
      slashed (((ruleSegments (pathRulePrefix pattern)).map String.toList).map pathUnescape) ++
        slashed segs := by
  obtain ⟨p, hparse, hmatch⟩ := hrouted
  obtain ⟨segs, hsegs, hp⟩ := exists_segments_of_static hparse hne h hstatic
  rw [hp] at hmatch
  apply exists_path_of_matchPath _ hsegs hmatch
  simpa using fun seg hseg => pathUnescape_ne_nil (by simpa using (hstatic seg hseg).1)

theorem atBoundary_path_iff :
    AtBoundary (pathRulePrefix pattern).toList u.path.toList ↔
      (Static (pathRulePrefix pattern) →
        ∀ seg ∈ ruleSegments (pathRulePrefix pattern), pathUnescape seg.toList = seg.toList) ∧
      (¬ Static (pathRulePrefix pattern) →
        (pathRulePrefix pattern).toList.splitOn '/' <+: u.path.toList.splitOn '/') := by
  by_cases hstatic : Static (pathRulePrefix pattern)
  · obtain ⟨segs, hpath⟩ := exists_path_of_routedTo hrouted hne h hstatic
    have hslash : ∀ text ∈ (ruleSegments (pathRulePrefix pattern)).map String.toList,
        '/' ∉ text := by
      simpa using fun seg hseg => slash_not_mem hseg
    rw [hpath, toList_pathRulePrefix hne h, atBoundary_literals_iff hslash]
    simp [hstatic]
  · rw [atBoundary_iff_splitOn]
    simp [hstatic]

end

theorem length_trimPrefix_lt {pre s : String} (hne : pre ≠ "")
    (h : AtBoundary pre.toList s.toList) : (Strings.trimPrefix s pre).length < s.length := by
  obtain ⟨rest, hrest, -⟩ := h
  have hpre : pre.toList.isPrefixOf s.toList = true := by simp [hrest]
  have hlength : 0 < pre.toList.length := List.length_pos_iff.mpr (by simpa using hne)
  rw [trimPrefix, if_pos hpre]
  simp only [← String.length_toList, String.toList_ofList, List.length_drop, hrest,
    List.length_append]
  omega

theorem exists_stripRulePrefix {u : URL} (hfound : PrefixFound pattern u)
    (inner : Handler) {r : Inbound} (hpath : r.path = u.path) (hraw : r.rawPath = u.rawPath) :
    ∃ request, stripRulePrefix true (pathRulePrefix pattern) inner r =
      inner { r with toRequest := request } := by
  obtain hempty | ⟨hbelow, hbelowRaw⟩ := hfound
  · exact ⟨r.toRequest, by simp [stripRulePrefix, hempty]⟩
  · by_cases hempty : pathRulePrefix pattern = ""
    · exact ⟨r.toRequest, by simp [stripRulePrefix, hempty]⟩
    · have hshort : (trimPrefix r.path (pathRulePrefix pattern)).length < r.path.length :=
        length_trimPrefix_lt hempty (hpath ▸ hbelow)
      have hshortRaw : r.rawPath = "" ∨
          (trimPrefix r.rawPath (pathRulePrefix pattern)).length < r.rawPath.length :=
        hraw ▸ hbelowRaw.imp_right (length_trimPrefix_lt hempty)
      refine ⟨{ r.toRequest with
        path := trimPrefix r.path (pathRulePrefix pattern)
        rawPath := trimPrefix r.rawPath (pathRulePrefix pattern) }, ?_⟩
      simp [stripRulePrefix, Http.stripPrefix, hempty, hshort, hshortRaw]

/-- The prefix of a rule is found in a request routed to it exactly when the two fit, and then
the request reaches the backend. -/
theorem prefixFound_iff {unicodeName : List Char → Bool} {pattern : String} {u : URL}
    (hrouted : RoutedTo unicodeName pattern u) :
    (PrefixFound pattern u ↔ pathRulePrefix pattern = "" ∨ Strippable pattern u) ∧
      (PrefixFound pattern u → ∀ (inner : Handler) (r : Inbound), r.path = u.path →
        r.rawPath = u.rawPath →
        ∃ request, stripRulePrefix true (pathRulePrefix pattern) inner r =
          inner { r with toRequest := request }) := by
  refine ⟨?_, fun hfound inner r hpath hraw => exists_stripRulePrefix hfound inner hpath hraw⟩
  by_cases hempty : pathRulePrefix pattern = ""
  · simp [PrefixFound, hempty]
  simp only [PrefixFound, hempty, false_or]
  have hraw : AtBoundary (pathRulePrefix pattern).toList u.path.toList → u.rawPath ≠ "" →
      (AtBoundary (pathRulePrefix pattern).toList u.rawPath.toList ↔
        '%' ∉ u.rawPath.toList.take ((pathRulePrefix pattern).toList.length + 1)) :=
    fun hpath hne => atBoundary_raw_iff (u.rawPath_eq.resolve_left hne).2 hpath
  constructor
  · rintro ⟨hpath, hrawPath⟩
    have hrooted : pattern.toList.head? = some '/' := by
      obtain ⟨rest, hrest, -⟩ := hpath
      have hpre : (pathRulePrefix pattern).toList ≠ [] := by simpa using hempty
      have hhead := u.path_rooted.resolve_left fun hnil => by simp [hnil, hpre] at hrest
      rwa [hrest, List.head?_append_of_ne_nil _ hpre, head?_pathRulePrefix hempty] at hhead
    obtain ⟨hliterals, hspelled⟩ := (atBoundary_path_iff hrouted hempty hrooted).mp hpath
    refine ⟨hrooted, hliterals, hspelled, ?_⟩
    by_cases hnil : u.rawPath = ""
    · exact .inl hnil
    · exact .inr ((hraw hpath hnil).mp (hrawPath.resolve_left hnil))
  · intro hfits
    have hpath := (atBoundary_path_iff hrouted hempty hfits.rooted).mpr
      ⟨hfits.literals, hfits.spelled⟩
    refine ⟨hpath, ?_⟩
    by_cases hnil : u.rawPath = ""
    · exact .inl hnil
    · exact .inr ((hraw hpath hnil).mpr (hfits.rawPath.resolve_left hnil))

/-- A request for a file below `/api`. -/
def apiUrl : URL where
  path := "/api/users"
  rawPath := ""
  path_rooted := .inr (by decide)
  rawPath_eq := .inl rfl

def escapedApiUrl : URL where
  path := "/api/users"
  rawPath := "/%61pi/users"
  path_rooted := .inr (by decide)
  rawPath_eq := .inr (by decide +kernel)

theorem prefixFound_apiUrl :
    RoutedTo (fun _ => false) "/api" apiUrl ∧ Strippable "/api" apiUrl ∧
      PrefixFound "/api" apiUrl := by
  have hrouted : RoutedTo (fun _ => false) "/api" apiUrl := by
    refine ⟨⟨[], [], [.literal "api".toList, .multi "path".toList]⟩, ?_, ?_⟩ <;> decide +kernel
  have hsegs : ruleSegments (pathRulePrefix "/api") = ["api"] := by decide +kernel
  have hfits : Strippable "/api" apiUrl := by
    refine ⟨by decide, fun _ => ?_, fun hdynamic => absurd ?_ hdynamic, .inl rfl⟩
    · simp only [hsegs, List.forall_mem_singleton]
      decide
    · simp only [Static, hsegs, List.forall_mem_singleton]
      decide
  exact ⟨hrouted, hfits, (prefixFound_iff hrouted).1.mpr (.inr hfits)⟩

/-- An escaped letter in the place of the prefix: the mux routes the request to the rule, and
`http.StripPrefix` answers it. -/
theorem escaped_letter_not_stripped :
    RoutedTo (fun _ => false) "/api" escapedApiUrl ∧ ¬ PrefixFound "/api" escapedApiUrl ∧
      ∀ (inner : Handler) (r : Inbound), r.path = escapedApiUrl.path →
        r.rawPath = escapedApiUrl.rawPath →
        stripRulePrefix true (pathRulePrefix "/api") inner r = [.answered "StripPrefix"] := by
  have hpre : pathRulePrefix "/api" = "/api" := by decide +kernel
  refine ⟨⟨⟨[], [], [.literal "api".toList, .multi "path".toList]⟩, ?_, ?_⟩, ?_, ?_⟩
  · decide +kernel
  · decide +kernel
  · rw [PrefixFound, hpre]
    rintro (hempty | ⟨-, hraw | ⟨rest, hrest, -⟩⟩)
    · exact absurd hempty (by decide)
    · exact absurd hraw (by decide)
    · exact absurd (congrArg (List.take 2) hrest) (by simp [escapedApiUrl])
  · intro inner r hpath hraw
    have hstrip : Http.stripPrefix "/api" r.toRequest = none := by
      have hkept : trimPrefix r.rawPath "/api" = r.rawPath := by
        rw [hraw]
        decide +kernel
      have hlong : r.rawPath ≠ "" := by
        rw [hraw]
        decide
      simp [Http.stripPrefix, hkept, hlong]
    simp [stripRulePrefix, hpre, hstrip]

end Torii.Proxy
