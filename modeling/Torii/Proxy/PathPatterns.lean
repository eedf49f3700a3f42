import Torii.Go.ServeMux
import Torii.Proxy.PathDispatcher

/-!
# Globs of path rules

`normalizePattern` rewrites a glob over the segments of a path for the mux: a star in the middle
becomes a wildcard with a name of its own, a star at the end a catch-all. The mux decodes each
segment of a request by itself, so a wildcard does not match a segment that decodes to a slash.
-/

namespace Torii.Proxy

open Go Go.Url Go.ServeMux Segment Strings

def ruleSegments (pattern : String) : List String := (Strings.split pattern '/').tail

/-- A pattern of literals and stars: its segments have neither braces nor blanks, and none but
the last one is empty. A segment of dots is left to the mux, which reads it as a literal. -/
structure GlobPattern (pattern : String) : Prop where
  rooted : pattern.toList.head? = some '/'
  plain : ∀ seg ∈ ruleSegments pattern, ∀ c ∈ seg.toList,
    c ≠ '\x7b' ∧ c ≠ '\x7d' ∧ isBlank c = false
  nonempty : ∀ seg ∈ (ruleSegments pattern).dropLast, seg ≠ ""

instance (pattern : String) : Decidable (GlobPattern pattern) :=
  decidable_of_iff
    (pattern.toList.head? = some '/' ∧
      ((ruleSegments pattern).all fun seg => seg.toList.all fun c =>
        c != '\x7b' && c != '\x7d' && !isBlank c) = true ∧
      ((ruleSegments pattern).dropLast.all fun seg => seg != "") = true)
    ⟨fun h => ⟨h.1, by simpa [and_assoc] using h.2.1, by simpa using h.2.2⟩,
      fun h => ⟨h.rooted, by simpa [and_assoc] using h.plain, by simpa using h.nonempty⟩⟩

/-- The segments of a request match a glob, given what a star in the middle and what a literal
stands for. -/
def GlobMatches (star : List Char → Prop) (literal : String → List Char → Prop) :
    List String → List (List Char) → Prop
  | [], _ => False
  | [seg], us =>
    -- a slash or a star at the end takes any remainder
    if seg = "" ∨ seg = "*" then us ≠ []
    else if Strings.hasSuffix seg '*' then
      ∃ u rest, us = u :: rest ∧ literal (Strings.trimSuffix seg '*') u ∧ rest ≠ []
    else ∃ u, us = [u] ∧ literal seg u
  | seg :: segs, us =>
    ∃ u rest, us = u :: rest ∧ (if seg = "*" then star u else literal seg u) ∧
      GlobMatches star literal segs rest

def MatchesDecoded (pattern : String) (us : List (List Char)) : Prop :=
  GlobMatches (· ≠ ['/']) (fun seg u => u = pathUnescape seg.toList) (ruleSegments pattern) us

def segName (n : Nat) : List Char := "_seg".toList ++ (Strconv.itoa n).toList

/-- What the mux reads from the normalised segments. -/
def globSegments : Nat → List String → List Segment
  | _, [] => []
  | _, [seg] =>
    if seg = "" then [.multi []]
    else if seg = "*" then [.multi "path".toList]
    else if Strings.hasSuffix seg '*' then
      [.literal (pathUnescape (Strings.trimSuffix seg '*').toList), .multi "path".toList]
    else [.literal (pathUnescape seg.toList)]
  | wildIdx, seg :: rest =>
    if seg = "*" then .wild (segName (wildIdx + 1)) :: globSegments (wildIdx + 1) rest
    else .literal (pathUnescape seg.toList) :: globSegments wildIdx rest

/-! ### The text of a pattern -/

/-- A segment as the text between two slashes of a pattern. -/
def PlainText (seg : String) : Prop :=
  ∀ c ∈ seg.toList, c ≠ '/' ∧ c ≠ '\x7b' ∧ c ≠ '\x7d' ∧ isBlank c = false

variable (unicodeName : List Char → Bool) {pattern : String} {segs : List String} {seg : String}

theorem split_of_rooted (h : pattern.toList.head? = some '/') :
    Strings.split pattern '/' = "" :: ruleSegments pattern ∧ ruleSegments pattern ≠ [] := by
  obtain ⟨path, hpath⟩ : ∃ path, pattern.toList = '/' :: path :=
    ⟨_, (List.cons_head?_tail h).symm⟩
  have hcut : split pattern '/' = "" :: (path.splitOn '/').map String.ofList := by
    simp [split, hpath, List.splitOn, List.splitOnP_cons_eq_if_modifyHead]
  refine ⟨by simp [ruleSegments, hcut], ?_⟩
  simp [ruleSegments, hcut, List.splitOn_ne_nil]

theorem slash_not_mem (h : seg ∈ ruleSegments pattern) : '/' ∉ seg.toList := by
  obtain ⟨text, htext, rfl⟩ := List.mem_map.mp (List.mem_of_mem_tail h)
  simpa using sep_not_mem_of_mem_splitOn htext

theorem toList_eq_slashed (h : pattern.toList.head? = some '/') :
    pattern.toList = slashed ((ruleSegments pattern).map String.toList) := by
  obtain ⟨path, hpath⟩ : ∃ path, pattern.toList = '/' :: path :=
    ⟨_, (List.cons_head?_tail h).symm⟩
  have hsegs : (ruleSegments pattern).map String.toList = path.splitOn '/' := by
    simp [ruleSegments, split, hpath, List.splitOn, List.splitOnP_cons_eq_if_modifyHead]
  rw [hsegs, slashed_splitOn, hpath]

theorem ruleSegments_of_slashed (hne : segs ≠ []) (hslash : ∀ seg ∈ segs, '/' ∉ seg.toList)
    (h : pattern.toList = slashed (segs.map String.toList)) : ruleSegments pattern = segs := by
  have hhead : pattern.toList.head? = some '/' := by
    cases segs with
    | nil => exact absurd rfl hne
    | cons => simp [h]
  have hcut : (slashed (segs.map String.toList)).tail.splitOn '/' = segs.map String.toList :=
    splitOn_tail_slashed (by simpa using hne) (by simpa using hslash)
  have hsame : (slashed ((ruleSegments pattern).map String.toList)).tail.splitOn '/' =
      (ruleSegments pattern).map String.toList := by
    apply splitOn_tail_slashed (by simpa using (split_of_rooted hhead).2)
    simp only [List.mem_map, forall_exists_index, and_imp, forall_apply_eq_imp_iff₂]
    exact fun seg hseg => slash_not_mem hseg
  have hmaps : (ruleSegments pattern).map String.toList = segs.map String.toList := by
    rw [← hsame, ← hcut, ← toList_eq_slashed hhead, h]
  exact (List.map_injective_iff.mpr fun _ _ => String.toList_inj.mp) hmaps

variable {init rest : List String} {next : String}

theorem ruleSegments_append_star {last : String} (h : pattern.toList.head? = some '/')
    (hsegs : ruleSegments pattern = init ++ [last]) :
    ruleSegments (pattern ++ "*") = init ++ [last ++ "*"] := by
  apply ruleSegments_of_slashed (by simp)
  · intro seg hseg hmem
    simp only [List.mem_append, List.mem_singleton] at hseg
    obtain hseg | rfl := hseg
    · exact slash_not_mem (show seg ∈ ruleSegments pattern by simp [hsegs, hseg]) hmem
    · exact slash_not_mem (show last ∈ ruleSegments pattern by simp [hsegs]) (by simpa using hmem)
  · simp [toList_eq_slashed h, hsegs, slashed_append]

theorem append_star (h : seg ≠ "") :
    seg ++ "*" ≠ "" ∧ seg ++ "*" ≠ "*" ∧ Strings.hasSuffix (seg ++ "*") '*' = true ∧
      Strings.trimSuffix (seg ++ "*") '*' = seg := by
  refine ⟨by simp, fun heq => ?_, by simp [hasSuffix], by simp [trimSuffix]⟩
  simpa [h] using congrArg String.toList heq

theorem normalizeSegments_of_no_star (h : "*" ∉ init) (k : Nat) (last : String) :
    normalizeSegments k (init ++ [last]) = init ++ normalizeSegments 0 [last] := by
  induction init with
  | nil => simp [normalizeSegments]
  | cons seg init ih =>
    rw [List.mem_cons, not_or] at h
    cases init with
    | nil => simp [normalizeSegments, Ne.symm h.1]
    | cons => simpa [normalizeSegments, Ne.symm h.1] using ih h.2

theorem toList_ensureSubtree (s : String) :
    ensureSubtree s =
      if s.toList.getLast? = some '/' ∨ catchAll.toList <:+: s.toList then s
      else s ++ "/" ++ catchAll := by
  simp [ensureSubtree, hasSuffix, contains_iff_occurs (show catchAll ≠ "" by decide)]

/-- The segments of a pattern of literals and stars. -/
structure GlobSegments (segs : List String) : Prop where
  ne_nil : segs ≠ []
  plain : ∀ seg ∈ segs, PlainText seg
  nonempty : ∀ seg ∈ segs.dropLast, seg ≠ ""

theorem GlobPattern.segments (h : GlobPattern pattern) : GlobSegments (ruleSegments pattern) := by
  refine ⟨(split_of_rooted h.rooted).2, ?_, h.nonempty⟩
  intro seg hseg c hc
  refine ⟨?_, h.plain seg hseg c hc⟩
  rintro rfl
  exact slash_not_mem hseg hc

theorem GlobSegments.tail (h : GlobSegments (seg :: next :: rest)) : GlobSegments (next :: rest) :=
  ⟨by simp, fun s hs => h.plain s (List.mem_cons_of_mem _ hs),
    fun s hs => h.nonempty s (by simpa using .inr hs)⟩

theorem GlobSegments.head_ne (h : GlobSegments (seg :: next :: rest)) : seg ≠ "" :=
  h.nonempty seg (by simp)

theorem plainText_trimSuffix (h : PlainText seg) : PlainText (Strings.trimSuffix seg '*') := by
  intro c hc
  simp only [trimSuffix] at hc
  split at hc
  · exact h c (List.mem_of_mem_dropLast (by simpa using hc))
  · exact h c hc

theorem trimSuffix_ne_empty (hstar : seg ≠ "*")
    (hglued : Strings.hasSuffix seg '*' = true) : Strings.trimSuffix seg '*' ≠ "" := by
  have hlast : seg.toList.getLast? = some '*' := by simpa [hasSuffix] using hglued
  intro hempty
  have hdrop : seg.toList.dropLast = [] := by
    simpa [trimSuffix, hlast] using congrArg String.toList hempty
  refine hstar (String.toList_inj.mp ?_)
  have hcat := List.dropLast_append_getLast? '*' hlast
  simpa [hdrop] using hcat.symm

theorem toList_normalizePattern (h : pattern.toList.head? = some '/') :
    (normalizePattern pattern).toList =
      slashed ((normalizeSegments 0 (ruleSegments pattern)).map String.toList) := by
  obtain ⟨hsplit, hne⟩ := split_of_rooted h
  obtain ⟨seg, segs, hsegs⟩ := List.exists_cons_of_ne_nil hne
  have hnorm : normalizeSegments 0 ("" :: ruleSegments pattern) =
      "" :: normalizeSegments 0 (ruleSegments pattern) := by
    simp [hsegs, normalizeSegments]
  simp only [normalizePattern, hsplit, hnorm, join, String.toList_ofList, List.map_cons]
  exact intercalate_nil_cons _

theorem toList_segName (n : Nat) : segName n = "_seg".toList ++ Nat.toDigits 10 n := by
  simp [segName, Strconv.toList_itoa]

theorem segName_inj {m n : Nat} (h : segName m = segName n) : m = n := by
  simp only [segName, List.append_cancel_left_eq, String.toList_inj] at h
  exact Int.ofNat_inj.mp (Strconv.itoa_inj h)

theorem mem_segName {n : Nat} {c : Char} (h : c ∈ segName n) :
    c ∈ ['_', 's', 'e', 'g'] ∨ c.isDigit = true := by
  simp only [toList_segName, List.mem_append] at h
  exact h.imp (by simp) (Nat.isDigit_of_mem_toDigits (by decide) (by decide))

theorem toList_wildcard (n : Nat) :
    ("\x7b_seg" ++ Strconv.itoa (n + 1) ++ "\x7d").toList =
      '\x7b' :: segName (n + 1) ++ ['\x7d'] := by
  simp [segName]

theorem parseWildcard_segName (last : Bool) (n : Nat) :
    parseWildcard unicodeName last ('\x7b' :: segName n ++ ['\x7d']) =
      some (.wild (segName n)) := by
  refine parseWildcard_braces ?_ ?_ ?_ last
  · have hascii : (segName n).all (fun c => decide (c.toNat < 128)) = true := by
      simp only [List.all_eq_true, decide_eq_true_eq]
      intro c hc
      obtain hc | hdigit := mem_segName hc
      · exact (show ∀ c ∈ ['_', 's', 'e', 'g'], c.toNat < 128 by simp) c hc
      · exact Nat.lt_of_le_of_lt (Char.isDigit_iff_toNat.mp hdigit).2 (by decide)
    have hrest : ("seg".toList ++ (Strconv.itoa n).toList).all
        (fun c => c == '_' || c.isAlphanum) = true := by
      simp only [List.all_eq_true]
      intro c hc
      obtain hc | hdigit := mem_segName (show c ∈ segName n from List.mem_cons_of_mem '_' hc)
      · exact (show ∀ c ∈ ['_', 's', 'e', 'g'], (c == '_' || c.isAlphanum) = true by simp) c hc
      · simp [Char.isAlphanum, hdigit]
    simp only [isValidWildcardName, hascii, if_true]
    exact (Bool.and_eq_true _ _).mpr ⟨rfl, hrest⟩
  · intro hdot
    exact absurd (mem_segName hdot) (by decide)
  · intro hdollar
    exact absurd (mem_segName hdollar) (by decide)

theorem normalizeSegments_ne_nil (h : segs ≠ []) (k : Nat) : normalizeSegments k segs ≠ [] := by
  fun_cases normalizeSegments k segs <;> simp_all

theorem normalizeSegments_plain (h : GlobSegments segs) (k : Nat) :
    ∀ text ∈ (normalizeSegments k segs).map String.toList,
      ∀ c ∈ text, c ≠ '/' ∧ isBlank c = false := by
  have hplain : ∀ {seg : String}, PlainText seg →
      ∀ c ∈ seg.toList, c ≠ '/' ∧ isBlank c = false :=
    fun hseg c hc => ⟨(hseg c hc).1, (hseg c hc).2.2.2⟩
  have hcatch : ∀ c ∈ catchAll.toList, c ≠ '/' ∧ isBlank c = false := by
    simp [catchAll, isBlank]
  have hwild : ∀ n, ∀ c ∈ '\x7b' :: segName n ++ ['\x7d'], c ≠ '/' ∧ isBlank c = false := by
    intro n c hc
    simp only [List.cons_append, List.mem_cons, List.mem_append, List.not_mem_nil, or_false] at hc
    obtain rfl | hc | rfl := hc
    · decide
    · obtain hc | hdigit := mem_segName hc
      · exact (show ∀ c ∈ ['_', 's', 'e', 'g'], c ≠ '/' ∧ isBlank c = false by
          simp [isBlank]) c hc
      · have hne : ∀ d : Char, d.isDigit = false → c ≠ d := by
          rintro d hd rfl
          simp [hdigit] at hd
        simp [isBlank, hne '/' rfl, hne ' ' rfl, hne '\t' rfl]
    · decide
  induction segs generalizing k with
  | nil => exact absurd rfl h.ne_nil
  | cons seg segs ih =>
    have hseg := h.plain seg List.mem_cons_self
    cases segs with
    | nil =>
      simp only [normalizeSegments]
      split
      · simpa only [List.map_cons, List.map_nil, List.forall_mem_singleton] using hcatch
      · split
        · simp only [List.map_cons, List.map_nil, List.forall_mem_cons]
          exact ⟨hplain (plainText_trimSuffix hseg), hcatch, by simp⟩
        · simpa only [List.map_cons, List.map_nil, List.forall_mem_singleton] using hplain hseg
    | cons =>
      simp only [normalizeSegments]
      split
      · simp only [List.map_cons, List.forall_mem_cons, toList_wildcard]
        exact ⟨hwild _, ih h.tail _⟩
      · simp only [List.map_cons, List.forall_mem_cons]
        exact ⟨hplain hseg, ih h.tail _⟩

theorem parseSegments_catchAll :
    parseSegments unicodeName [catchAll.toList] = some [.multi "path".toList] := by
  rfl

theorem parseSegments_segName (n : Nat) (rest : List (List Char)) :
    parseSegments unicodeName (('\x7b' :: segName n ++ ['\x7d']) :: rest) =
      (parseSegments unicodeName rest).map (.wild (segName n) :: ·) := by
  have hread := parseWildcard_segName unicodeName rest.isEmpty n
  simp only [parseSegments]
  simp only [List.cons_append] at hread ⊢
  simp [hread]

theorem parseSegments_literal (hseg : PlainText seg) (hne : seg ≠ "") (rest : List (List Char)) :
    parseSegments unicodeName (seg.toList :: rest) =
      (parseSegments unicodeName rest).map (.literal (pathUnescape seg.toList) :: ·) := by
  have hbrace : '\x7b' ∉ seg.toList := fun hmem => (hseg _ hmem).2.1 rfl
  have hliteral : ∀ text ∈ [seg.toList], text ≠ [] ∧ '\x7b' ∉ text := by simp [hne, hbrace]
  exact parseSegments_literals_append hliteral rest

theorem parseSegments_normalizeSegments (h : GlobSegments segs) (k : Nat) :
    parseSegments unicodeName ((normalizeSegments k segs).map String.toList) =
      some (globSegments k segs) := by
  induction segs generalizing k with
  | nil => exact absurd rfl h.ne_nil
  | cons seg segs ih =>
    have hseg := h.plain seg List.mem_cons_self
    cases segs with
    | nil =>
      by_cases hempty : seg = ""
      · subst hempty
        rfl
      by_cases hstar : seg = "*"
      · subst hstar
        rfl
      by_cases hglued : hasSuffix seg '*'
      · have hlit := plainText_trimSuffix hseg
        simp [normalizeSegments, globSegments, hempty, hstar, hglued,
          parseSegments_literal _ hlit (trimSuffix_ne_empty hstar hglued), parseSegments_catchAll]
      · simp [normalizeSegments, globSegments, hempty, hstar, hglued,
          parseSegments_literal _ hseg hempty, parseSegments]
    | cons =>
      have ih := ih h.tail
      by_cases hstar : seg = "*"
      · simp only [normalizeSegments, globSegments, hstar, if_true, List.map_cons, toList_wildcard,
          parseSegments_segName, ih, Option.map_some]
      · simp [normalizeSegments, globSegments, hstar, parseSegments_literal _ hseg h.head_ne, ih]

/-! ### Names -/

theorem mem_names_globSegments {k : Nat} {name : List Char}
    (h : name ∈ (globSegments k segs).flatMap Segment.names) :
    name = [] ∨ name = "path".toList ∨ ∃ n > k, name = segName n := by
  induction segs generalizing k with
  | nil => simp [globSegments] at h
  | cons seg segs ih =>
    cases segs with
    | nil =>
      simp only [globSegments] at h
      split at h
      · simp_all [names]
      · split at h
        · simp_all [names]
        · split at h <;> simp_all [names]
    | cons next rest =>
      simp only [globSegments] at h
      split at h
      · obtain rfl | h := List.mem_cons.mp h
        · exact .inr (.inr ⟨k + 1, Nat.lt_succ_self k, rfl⟩)
        · obtain h | h | ⟨n, hn, h⟩ := ih h
          · exact .inl h
          · exact .inr (.inl h)
          · exact .inr (.inr ⟨n, by omega, h⟩)
      · exact ih (by simpa [names] using h)

theorem nodup_names_globSegments (segs : List String) (k : Nat) :
    ((globSegments k segs).flatMap Segment.names).Nodup := by
  induction segs generalizing k with
  | nil => simp [globSegments]
  | cons seg segs ih =>
    cases segs with
    | nil =>
      simp only [globSegments]
      split
      · simp [names]
      · split
        · simp [names]
        · split <;> simp [names]
    | cons next rest =>
      simp only [globSegments]
      split
      · refine List.nodup_cons.mpr ⟨fun hmem => ?_, ih (k + 1)⟩
        obtain h | h | ⟨n, hn, h⟩ := mem_names_globSegments hmem
        · simp [segName] at h
        · simp [segName] at h
        · have := segName_inj h
          omega
      · simpa [names] using ih k

/-! ### Matching -/

theorem matchPath_globSegments (h : GlobSegments segs) (k : Nat) (us : List (List Char)) :
    matchPath (globSegments k segs) us = true ↔
      GlobMatches (· ≠ ['/']) (fun seg u => u = pathUnescape seg.toList) segs us := by
  have hlit : ∀ {seg : String}, seg ≠ "" → ∀ u : List Char,
      (literal (pathUnescape seg.toList)).admits u = true ↔
        u = pathUnescape seg.toList := by
    intro seg hne u
    have hne' : pathUnescape seg.toList ≠ [] := pathUnescape_ne_nil (by simpa using hne)
    simp [admits, hne']
  induction segs generalizing k us with
  | nil => exact absurd rfl h.ne_nil
  | cons seg segs ih =>
    cases segs with
    | nil =>
      by_cases hempty : seg = ""
      · simp [globSegments, GlobMatches, hempty, matchPath]
      by_cases hstar : seg = "*"
      · simp [globSegments, GlobMatches, hstar, matchPath]
      by_cases hglued : hasSuffix seg '*'
      · cases us <;> simp [globSegments, GlobMatches, hempty, hstar, hglued, matchPath,
          hlit (trimSuffix_ne_empty hstar hglued)]
      · cases us <;>
          simp [globSegments, GlobMatches, hempty, hstar, hglued, matchPath, hlit hempty]
    | cons =>
      by_cases hstar : seg = "*"
      · cases us <;> simp [globSegments, GlobMatches, hstar, matchPath, admits, ih h.tail]
      · cases us <;>
          simp [globSegments, GlobMatches, hstar, matchPath, hlit h.head_ne, ih h.tail]

theorem parsePattern_normalizePattern (h : GlobPattern pattern) :
    parsePattern unicodeName (normalizePattern pattern).toList =
      some ⟨[], [], globSegments 0 (ruleSegments pattern)⟩ := by
  have hne : (normalizeSegments 0 (ruleSegments pattern)).map String.toList ≠ [] := by
    simpa using normalizeSegments_ne_nil h.segments.ne_nil 0
  rw [toList_normalizePattern h.rooted,
    parsePattern_slashed hne (normalizeSegments_plain h.segments 0),
    parseSegments_normalizeSegments unicodeName h.segments]
  simp [nodup_names_globSegments]

/-- `normalizePattern` rewrites a glob to a pattern that the mux accepts, whose wildcards have
distinct names, and that matches the request paths of the glob. -/
theorem normalizePattern_matches_globs (unicodeName : List Char → Bool) {pattern : String}
    (h : GlobPattern pattern) :
    ∃ segments,
      parsePattern unicodeName (normalizePattern pattern).toList = some ⟨[], [], segments⟩ ∧
      (segments.flatMap Segment.names).Nodup ∧
      ∀ path, matchPath segments (requestSegments path) = true ↔
        MatchesDecoded pattern (requestSegments path) :=
  ⟨globSegments 0 (ruleSegments pattern), parsePattern_normalizePattern unicodeName h,
    nodup_names_globSegments _ 0, fun _ => matchPath_globSegments h.segments 0 _⟩

theorem normalizePattern_matches_jobs :
    normalizePattern "/users/*/jobs/*" = "/users/\x7b_seg1\x7d/jobs/\x7bpath...\x7d" ∧
      ∃ segments,
        parsePattern (fun _ => false) (normalizePattern "/users/*/jobs/*").toList =
          some ⟨[], [], segments⟩ ∧
        (segments.flatMap Segment.names).Nodup ∧
        ∀ path, matchPath segments (requestSegments path) = true ↔
          MatchesDecoded "/users/*/jobs/*" (requestSegments path) :=
  ⟨by decide +kernel, normalizePattern_matches_globs _ (by decide +kernel)⟩

/-- The text between the slashes of a path matches a glob, a star for any text but none. -/
def MatchesText (pattern : String) (path : List Char) : Prop :=
  GlobMatches (· ≠ []) (fun seg u => u = seg.toList) (ruleSegments pattern)
    (path.tail.splitOn '/')

/-- A star does not match an escaped slash, in a path that is clean and fits the glob. -/
theorem escaped_slash_not_matched :
    GlobPattern "/users/*/start" ∧
      cleanPath "/users/%2F/start".toList = "/users/%2F/start".toList ∧
      MatchesText "/users/*/start" "/users/%2F/start".toList ∧
      ((parsePattern (fun _ => false) (normalizePattern "/users/*/start").toList).map fun p =>
        matchPath p.segments (requestSegments "/users/%2F/start".toList)) = some false := by
  have hsegs : ruleSegments "/users/*/start" = ["users", "*", "start"] := by decide +kernel
  have htexts : "/users/%2F/start".toList.tail.splitOn '/' =
      ["users".toList, "%2F".toList, "start".toList] := by decide +kernel
  have hlast : hasSuffix "start" '*' = false := by decide
  refine ⟨by decide +kernel, by decide +kernel, ?_, by decide +kernel⟩
  rw [MatchesText, hsegs, htexts]
  simp [GlobMatches, hlast]

end Torii.Proxy
