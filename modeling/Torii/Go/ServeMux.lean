import Torii.Go.Http
import Torii.Go.Url

/-!
# Patterns of `http.ServeMux`

How a pattern is parsed, which request paths it matches, and when two patterns conflict, so that
registering the second one panics. Texts are lists of characters that stand for bytes, and a request
path is still escaped. A slash at its end counts as a last segment, the text of a single slash.
-/

namespace Go.ServeMux

open Url

/-- A segment of a pattern. A slash at the end of a pattern is a `multi` without a name. -/
inductive Segment
  | literal (s : List Char)
  | wild (name : List Char)
  | multi (name : List Char)
deriving DecidableEq

def Segment.names : Segment → List (List Char)
  | .literal _ => []
  | .wild name => [name]
  | .multi name => [name]

structure Pattern where
  method : List Char
  host : List Char
  segments : List Segment
deriving DecidableEq

/-! ### Parsing -/

section

variable (unicodeName : List Char → Bool)

def isValidWildcardName (name : List Char) : Bool :=
  if name.all fun c => c.toNat < 128 then
    match name with
    | [] => false
    | c :: cs => (c == '_' || c.isAlpha) && cs.all fun c => c == '_' || c.isAlphanum
  else unicodeName name

/-- A segment with a brace; `last` when nothing follows it. -/
def parseWildcard (last : Bool) (seg : List Char) : Option Segment :=
  if seg.head? ≠ some '\x7b' ∨ seg.getLast? ≠ some '\x7d' then none
  else
    let name := seg.tail.dropLast
    if name = ['$'] then if last then some (.literal ['/']) else none
    else
      let multi := ['.', '.', '.'].isSuffixOf name
      let name := if multi then name.take (name.length - 3) else name
      if multi && !last then none
      else if !isValidWildcardName unicodeName name then none
      else some (if multi then .multi name else .wild name)

def parseSegments : List (List Char) → Option (List Segment)
  | [] => some []
  | seg :: rest =>
    if seg = [] ∧ rest = [] then some [.multi []]
    else if '\x7b' ∉ seg then (parseSegments rest).map (.literal (pathUnescape seg) :: ·)
    else
      match parseWildcard unicodeName rest.isEmpty seg with
      | none => none
      | some s => (parseSegments rest).map (s :: ·)

/-- One turn of `path.Clean` on a rooted path. -/
def cleanSegment (out : List (List Char)) (seg : List Char) : List (List Char) :=
  if seg = [] ∨ seg = ['.'] then out
  else if seg = ['.', '.'] then out.dropLast
  else out ++ [seg]

/-- `cleanPath` of a rooted path. -/
def cleanPath (path : List Char) : List Char :=
  let segs := path.tail.splitOn '/'
  let out := segs.foldl cleanSegment []
  if out = [] ∨ segs.getLast? = some [] then slashed (out ++ [[]]) else slashed out

def isBlank (c : Char) : Bool := c == ' ' || c == '\t'

def splitMethod (s : List Char) : List Char × List Char :=
  if s.any isBlank then (s.takeWhile (!isBlank ·), (s.dropWhile (!isBlank ·)).dropWhile isBlank)
  else ([], s)

def parsePattern (s : List Char) : Option Pattern :=
  let (method, rest) := splitMethod s
  let host := rest.takeWhile (· ≠ '/')
  let path := rest.dropWhile (· ≠ '/')
  if method ≠ [] ∧ !method.all Http.validHeaderFieldByte then none
  else if path = [] ∨ '\x7b' ∈ host then none
  -- such a path can never match, since paths are cleaned before matching
  else if method ≠ [] ∧ method ≠ "CONNECT".toList ∧ path ≠ cleanPath path then none
  else
    match parseSegments unicodeName (path.tail.splitOn '/') with
    | none => none
    | some segments =>
      if (segments.flatMap Segment.names).Nodup then some ⟨method, host, segments⟩ else none

variable {unicodeName}

theorem parseWildcard_braces {name : List Char}
    (h : isValidWildcardName unicodeName name = true) (hdot : '.' ∉ name) (hdollar : '$' ∉ name)
    (last : Bool) :
    parseWildcard unicodeName last ('\x7b' :: name ++ ['\x7d']) = some (.wild name) := by
  have hname : (name ++ ['\x7d']).dropLast = name := by simp
  have hne : name ≠ ['$'] := by
    rintro rfl
    simp at hdollar
  have hmulti : ['.', '.', '.'].isSuffixOf name = false := by
    refine Bool.eq_false_iff.mpr fun hsuffix => hdot ?_
    exact (List.isSuffixOf_iff_suffix.mp hsuffix).subset (by simp)
  have hlast : ('\x7b' :: (name ++ ['\x7d'])).getLast? = some '\x7d' := by
    simp [List.getLast?_cons]
  simp [parseWildcard, hname, hlast, hne, hmulti, h]

theorem parsePattern_slash (path : List Char) :
    parsePattern unicodeName ('/' :: path) =
      if path.any isBlank then none
      else
        match parseSegments unicodeName (path.splitOn '/') with
        | none => none
        | some segments =>
          if (segments.flatMap Segment.names).Nodup then some ⟨[], [], segments⟩ else none := by
  have hslash : isBlank '/' = false := by decide
  have hbyte : Http.validHeaderFieldByte '/' = false := by decide
  by_cases hblank : path.any isBlank
  · simp [parsePattern, splitMethod, hslash, hbyte, hblank]
  · simp [parsePattern, splitMethod, hslash, hblank]

theorem parseSegments_of_parsePattern {path : List Char} {p : Pattern}
    (h : parsePattern unicodeName ('/' :: path) = some p) :
    parseSegments unicodeName (path.splitOn '/') = some p.segments := by
  rw [parsePattern_slash] at h
  grind

variable {texts : List (List Char)}

theorem parsePattern_slashed (hne : texts ≠ [])
    (h : ∀ text ∈ texts, ∀ c ∈ text, c ≠ '/' ∧ isBlank c = false) :
    parsePattern unicodeName (slashed texts) =
      match parseSegments unicodeName texts with
      | none => none
      | some segments =>
        if (segments.flatMap Segment.names).Nodup then some ⟨[], [], segments⟩ else none := by
  obtain ⟨path, hpath⟩ : ∃ path, slashed texts = '/' :: path := by
    cases texts with
    | nil => exact absurd rfl hne
    | cons text texts => exact ⟨_, slashed_cons text texts⟩
  have hcut : path.splitOn '/' = texts := by
    have htail := splitOn_tail_slashed hne fun text ht hmem => (h text ht _ hmem).1 rfl
    simpa [hpath] using htail
  have hblank : path.any isBlank = false := by
    have hall : (slashed texts).any isBlank = false := by
      simp only [slashed, List.any_eq_false, List.mem_flatMap, List.mem_cons]
      rintro c ⟨text, ht, rfl | hc⟩
      · decide
      · simp [(h text ht c hc).2]
    simp only [hpath, List.any_cons, Bool.or_eq_false_iff] at hall
    exact hall.2
  simp only [hpath, parsePattern_slash, hblank, hcut]
  rfl

theorem parseSegments_literals_append (h : ∀ text ∈ texts, text ≠ [] ∧ '\x7b' ∉ text)
    (rest : List (List Char)) :
    parseSegments unicodeName (texts ++ rest) =
      (parseSegments unicodeName rest).map
        (texts.map (fun text => Segment.literal (pathUnescape text)) ++ ·) := by
  induction texts with
  | nil => simp
  | cons text texts ih =>
    obtain ⟨hne, hbrace⟩ := h text (by simp)
    simp only [List.cons_append, parseSegments, hne, false_and, if_false, hbrace,
      not_false_eq_true, if_true, ih fun t ht => h t (by simp [ht]), Option.map_map]
    rfl

theorem parseSegments_ne_nil {segs : List Segment} (hne : texts ≠ [])
    (h : parseSegments unicodeName texts = some segs) : segs ≠ [] := by
  cases texts with
  | nil => exact absurd rfl hne
  | cons =>
    rintro rfl
    simp only [parseSegments] at h
    split at h
    · cases h
    · split at h
      · obtain ⟨rest, -, hrest⟩ := Option.map_eq_some_iff.mp h
        cases hrest
      · split at h
        · cases h
        · obtain ⟨rest, -, hrest⟩ := Option.map_eq_some_iff.mp h
          cases hrest

end

/-! ### Matching -/

/-- The segments that `firstSegment` cuts off, from the text between the slashes. -/
def decodeSegments : List (List Char) → List (List Char)
  | [] => []
  | seg :: rest =>
    if seg = [] ∧ rest = [] then [['/']] else pathUnescape seg :: decodeSegments rest

def requestSegments (path : List Char) : List (List Char) :=
  if path = [] then [] else decodeSegments (path.tail.splitOn '/')

/-- A segment of a pattern matches one of a request. The routing tree keeps a literal without
text under the key of the wildcards. -/
def Segment.admits : Segment → List Char → Bool
  | .literal s, seg => if s = [] then seg ≠ ['/'] else seg = s
  | .wild _, seg => seg ≠ ['/']
  | .multi _, _ => true

/-- `matchPath` for the tree of one pattern. -/
def matchPath : List Segment → List (List Char) → Bool
  | [], segs => segs.isEmpty
  | .multi _ :: _, segs => !segs.isEmpty
  | _ :: _, [] => false
  | s :: rest, seg :: segs => s.admits seg && matchPath rest segs

variable {segs : List Segment} {name : List Char} (x : Option (List Char))
  {texts us : List (List Char)} {a b : Relationship}

theorem exists_of_matchPath_literals (h : [] ∉ texts)
    (hmatch : matchPath (texts.map Segment.literal ++ segs) us = true) :
    ∃ us', us = texts ++ us' ∧ matchPath segs us' = true := by
  induction texts generalizing us with
  | nil => exact ⟨us, rfl, hmatch⟩
  | cons text texts ih =>
    have hne : text ≠ [] := fun heq => h (by simp [heq])
    cases us with
    | nil => simp [matchPath] at hmatch
    | cons =>
      simp only [List.map_cons, List.cons_append, matchPath, Segment.admits, hne, if_false,
        Bool.and_eq_true, decide_eq_true_eq] at hmatch
      obtain ⟨rfl, hmatch⟩ := hmatch
      obtain ⟨us', rfl, hmatch'⟩ := ih (fun hmem => h (by simp [hmem])) hmatch
      exact ⟨us', rfl, hmatch'⟩

theorem ne_nil_of_matchPath (hne : segs ≠ []) (h : matchPath segs us = true) : us ≠ [] := by
  rintro rfl
  cases segs with
  | nil => exact hne rfl
  | cons s segs => cases s <;> simp [matchPath] at h

theorem prefix_of_decodeSegments {decoded a b : List (List Char)}
    (hdecode : texts.mapM unescape = some decoded) (hcut : decodeSegments texts = a ++ b)
    (hb : b ≠ []) : a <+: decoded := by
  induction a generalizing texts decoded with
  | nil => exact List.nil_prefix
  | cons x a ih =>
    cases texts with
    | nil => simp [decodeSegments] at hcut
    | cons =>
      simp only [List.mapM_cons, Option.bind_eq_bind, Option.pure_def,
        Option.bind_eq_some_iff, Option.some.injEq] at hdecode
      obtain ⟨y, hy, ys, hys, rfl⟩ := hdecode
      simp only [decodeSegments] at hcut
      split at hcut
      · simp [hb] at hcut
      · obtain ⟨hx, hrest⟩ := List.cons.inj hcut
        obtain rfl : x = y := by simp [← hx, pathUnescape, hy]
        exact (List.prefix_cons_inj x).mpr (ih hys hrest)

/-! ### Conflicts -/

inductive Relationship
  | equivalent
  | moreGeneral
  | moreSpecific
  | disjoint
  | overlaps
deriving DecidableEq

def combineRelationships : Relationship → Relationship → Relationship
  | .equivalent, r => r
  | .disjoint, _ => .disjoint
  | .overlaps, .disjoint => .disjoint
  | .overlaps, _ => .overlaps
  | .moreGeneral, .equivalent => .moreGeneral
  | .moreGeneral, .moreSpecific => .overlaps
  | .moreGeneral, r => r
  | .moreSpecific, .equivalent => .moreSpecific
  | .moreSpecific, .moreGeneral => .overlaps
  | .moreSpecific, r => r

def compareSegments : Segment → Segment → Relationship
  | .multi _, .multi _ => .equivalent
  | .multi _, _ => .moreGeneral
  | _, .multi _ => .moreSpecific
  | .wild _, .wild _ => .equivalent
  | .wild _, .literal s => if s = ['/'] then .disjoint else .moreGeneral
  | .literal s, .wild _ => if s = ['/'] then .disjoint else .moreSpecific
  | .literal s, .literal t => if s = t then .equivalent else .disjoint

def endsInMulti (segs : List Segment) : Bool :=
  match segs.getLast? with
  | some (.multi _) => true
  | _ => false

def comparePaths (p1 p2 : List Segment) : Relationship :=
  if p1.length ≠ p2.length ∧ !endsInMulti p1 ∧ !endsInMulti p2 then .disjoint
  else
    let rel := (p1.zip p2).foldl
      (fun rel s => combineRelationships rel (compareSegments s.1 s.2)) .equivalent
    if p1.length = p2.length then rel
    else if p1.length < p2.length ∧ endsInMulti p1 then combineRelationships rel .moreGeneral
    else if p2.length < p1.length ∧ endsInMulti p2 then combineRelationships rel .moreSpecific
    else .disjoint

def Relationship.general : Relationship → Bool
  | .moreGeneral | .overlaps => true
  | _ => false

/-- The first pattern is somewhere more specific. -/
def Relationship.specific : Relationship → Bool
  | .moreSpecific | .overlaps => true
  | _ => false

theorem combineRelationships_assoc (a b c : Relationship) :
    combineRelationships (combineRelationships a b) c =
      combineRelationships a (combineRelationships b c) := by
  cases a <;> cases b <;> cases c <;> rfl

@[simp] theorem combineRelationships_eq_disjoint :
    combineRelationships a b = .disjoint ↔ a = .disjoint ∨ b = .disjoint := by
  cases a <;> cases b <;> simp [combineRelationships]

theorem general_combineRelationships (h : combineRelationships a b ≠ .disjoint) :
    (combineRelationships a b).general = (a.general || b.general) := by
  cases a <;> cases b <;> simp_all [combineRelationships, Relationship.general]

theorem specific_combineRelationships (h : combineRelationships a b ≠ .disjoint) :
    (combineRelationships a b).specific = (a.specific || b.specific) := by
  cases a <;> cases b <;> simp_all [combineRelationships, Relationship.specific]

theorem Relationship.conflict_iff (r : Relationship) :
    r = .equivalent ∨ r = .overlaps ↔ r ≠ .disjoint ∧ r.general = r.specific := by
  cases r <;> simp [general, specific]

theorem foldl_combineRelationships (rel : Relationship) (l : List (Segment × Segment)) :
    l.foldl (fun rel s => combineRelationships rel (compareSegments s.1 s.2)) rel =
      combineRelationships rel (l.foldl
        (fun rel s => combineRelationships rel (compareSegments s.1 s.2)) .equivalent) := by
  induction l generalizing rel with
  | nil => cases rel <;> rfl
  | cons s l ih =>
    simp only [List.foldl_cons]
    rw [ih, ih (combineRelationships .equivalent _), ← combineRelationships_assoc]
    cases rel <;> rfl

theorem comparePaths_cons {s1 s2 : Segment} (h1 : ∀ name, s1 ≠ .multi name)
    (h2 : ∀ name, s2 ≠ .multi name) (p1 p2 : List Segment) :
    comparePaths (s1 :: p1) (s2 :: p2) =
      combineRelationships (compareSegments s1 s2) (comparePaths p1 p2) := by
  have hmulti : ∀ {s : Segment}, (∀ name, s ≠ .multi name) → ∀ p,
      endsInMulti (s :: p) = endsInMulti p := by
    intro s hs p
    cases p with
    | nil => cases s <;> simp_all [endsInMulti]
    | cons => simp [endsInMulti]
  have hrel : ∀ r, combineRelationships .equivalent r = r := fun r => by cases r <;> rfl
  have hdisjoint : ∀ r, combineRelationships r .disjoint = .disjoint := fun r => by
    cases r <;> rfl
  simp only [comparePaths, hmulti h1, hmulti h2, List.length_cons, Nat.add_lt_add_iff_right,
    Nat.add_right_cancel_iff, ne_eq, List.zip_cons_cons, List.foldl_cons, hrel]
  rw [foldl_combineRelationships]
  split
  · exact (hdisjoint _).symm
  · split
    · rfl
    · split
      · exact combineRelationships_assoc _ _ _
      · split
        · exact combineRelationships_assoc _ _ _
        · exact (hdisjoint _).symm

/-- What the comparison of two paths looks at: the segments without their names, nothing for a
wildcard, and whether a `multi` follows them. -/
structure Shape where
  segments : List (Option (List Char))
  subtree : Bool
deriving DecidableEq

namespace Shape

def cons (seg : Option (List Char)) (a : Shape) : Shape := { a with segments := seg :: a.segments }

def Meets : Option (List Char) → Option (List Char) → Prop
  | none, none => True
  | none, some t => t ≠ ['/']
  | some s, none => s ≠ ['/']
  | some s, some t => s = t

instance : (a b : Option (List Char)) → Decidable (Meets a b)
  | none, none => isTrue trivial
  | none, some t => inferInstanceAs (Decidable (t ≠ ['/']))
  | some s, none => inferInstanceAs (Decidable (s ≠ ['/']))
  | some s, some t => inferInstanceAs (Decidable (s = t))

def Meet (a b : Shape) : Prop :=
  (∀ p ∈ a.segments.zip b.segments, Meets p.1 p.2) ∧
    (a.segments.length = b.segments.length ∧ a.subtree = b.subtree ∨
      a.segments.length < b.segments.length ∧ a.subtree = true ∨
      b.segments.length < a.segments.length ∧ b.subtree = true)

/-- A shape is wider than another one somewhere: it has a wildcard where the other one has a
literal, or it ends where the other one goes on. -/
def Wider (a b : Shape) : Prop :=
  (∃ p ∈ a.segments.zip b.segments, p.1 = none ∧ p.2 ≠ none) ∨
    a.segments.length < b.segments.length

/-- Two shapes match a common path, and neither is the more specific one. -/
def Clash (a b : Shape) : Prop := a.Meet b ∧ (a.Wider b ↔ b.Wider a)

instance (a b : Shape) : Decidable (a.Meet b) := inferInstanceAs (Decidable (_ ∧ _))

instance (a b : Shape) : Decidable (a.Wider b) := inferInstanceAs (Decidable (_ ∨ _))

instance (a b : Shape) : Decidable (a.Clash b) := inferInstanceAs (Decidable (_ ∧ _))

end Shape

def shape : List Segment → Shape
  | [] => ⟨[], false⟩
  | .multi _ :: _ => ⟨[], true⟩
  | .wild _ :: rest => (shape rest).cons none
  | .literal s :: rest => (shape rest).cons (some s)

/-- A `multi` stands at the end only. -/
def MultiLast (segs : List Segment) : Prop := ∀ s ∈ segs.dropLast, ∀ name, s ≠ .multi name

theorem meet_cons (y : Option (List Char)) (a b : Shape) :
    (a.cons x).Meet (b.cons y) ↔ Shape.Meets x y ∧ a.Meet b := by
  simp [Shape.Meet, Shape.cons, and_assoc]

theorem wider_cons (y : Option (List Char)) (a b : Shape) :
    (a.cons x).Wider (b.cons y) ↔ (x = none ∧ y ≠ none) ∨ a.Wider b := by
  simp [Shape.Wider, Shape.cons, or_assoc]

/-- What a relationship says about two shapes. -/
structure Relates (r : Relationship) (a b : Shape) : Prop where
  meet : r ≠ .disjoint ↔ a.Meet b
  general : r ≠ .disjoint → (r.general = true ↔ a.Wider b)
  specific : r ≠ .disjoint → (r.specific = true ↔ b.Wider a)

variable {r : Relationship} {a b : Shape} {p q : List Segment}

theorem Relates.clash_iff (h : Relates r a b) : r = .equivalent ∨ r = .overlaps ↔ a.Clash b := by
  rw [r.conflict_iff, Shape.Clash, ← h.meet]
  refine and_congr_right fun hr => ?_
  rw [← h.general hr, ← h.specific hr, Bool.eq_iff_iff]

theorem Relates.cons (h : Relates r a b) {q : Relationship} {x y : Option (List Char)}
    (hmeet : q ≠ .disjoint ↔ Shape.Meets x y)
    (hgeneral : q ≠ .disjoint → (q.general = true ↔ x = none ∧ y ≠ none))
    (hspecific : q ≠ .disjoint → (q.specific = true ↔ y = none ∧ x ≠ none)) :
    Relates (combineRelationships q r) (a.cons x) (b.cons y) := by
  have hboth : combineRelationships q r ≠ .disjoint ↔ q ≠ .disjoint ∧ r ≠ .disjoint := by
    simp
  refine ⟨?_, fun hne => ?_, fun hne => ?_⟩
  · rw [hboth, meet_cons, hmeet, h.meet]
  · obtain ⟨hq, hr⟩ := hboth.mp hne
    rw [general_combineRelationships hne, Bool.or_eq_true, wider_cons, hgeneral hq, h.general hr]
  · obtain ⟨hq, hr⟩ := hboth.mp hne
    rw [specific_combineRelationships hne, Bool.or_eq_true, wider_cons, hspecific hq,
      h.specific hr]

theorem MultiLast.tail {s : Segment} (h : MultiLast (s :: segs)) : MultiLast segs := by
  cases segs with
  | nil => simp [MultiLast]
  | cons => exact fun u hu => h u (by simpa using .inr hu)

/-- Nothing stands behind a `multi`. -/
theorem MultiLast.eq_nil (h : MultiLast (.multi name :: segs)) : segs = [] := by
  cases segs with
  | nil => rfl
  | cons => exact absurd rfl (h (.multi name) (by simp) name)

theorem relates_disjoint (h : ¬ a.Meet b) : Relates .disjoint a b :=
  ⟨by simpa using h, fun hne => absurd rfl hne, fun hne => absurd rfl hne⟩

theorem relates_moreGeneral (b : Shape) : Relates .moreGeneral ⟨[], true⟩ (b.cons x) := by
  constructor <;> simp [Shape.Meet, Shape.Wider, Shape.cons, Relationship.general,
    Relationship.specific]

theorem relates_moreSpecific (a : Shape) : Relates .moreSpecific (a.cons x) ⟨[], true⟩ := by
  constructor <;> simp [Shape.Meet, Shape.Wider, Shape.cons, Relationship.general,
    Relationship.specific]

theorem comparePaths_nil_cons (t : Segment) (q : List Segment) :
    comparePaths [] (t :: q) = .disjoint := by
  simp [comparePaths, endsInMulti]

theorem comparePaths_cons_nil (s : Segment) (p : List Segment) :
    comparePaths (s :: p) [] = .disjoint := by
  simp [comparePaths, endsInMulti]

/-- A `multi` against anything else. -/
theorem comparePaths_multi {t : Segment} (ht : ∀ name, t ≠ .multi name)
    (q : List Segment) : comparePaths [.multi name] (t :: q) = .moreGeneral := by
  have hseg : compareSegments (.multi name) t = .moreGeneral := by
    cases t with
    | multi n => exact absurd rfl (ht n)
    | literal | wild => rfl
  cases q <;> simp [comparePaths, endsInMulti, hseg, combineRelationships]

theorem comparePaths_multi_right {s : Segment} (hs : ∀ name, s ≠ .multi name)
    (p : List Segment) : comparePaths (s :: p) [.multi name] = .moreSpecific := by
  have hseg : compareSegments s (.multi name) = .moreSpecific := by
    cases s with
    | multi n => exact absurd rfl (hs n)
    | literal | wild => rfl
  cases p <;> simp [comparePaths, endsInMulti, hseg, combineRelationships]

theorem relates_comparePaths (hp : MultiLast p) (hq : MultiLast q) :
    Relates (comparePaths p q) (shape p) (shape q) := by
  induction p generalizing q with
  | nil =>
    cases q with
    | nil => constructor <;> decide
    | cons t q =>
      rw [comparePaths_nil_cons]
      apply relates_disjoint
      cases t <;> simp [shape, Shape.Meet, Shape.cons]
  | cons s p ih =>
    cases q with
    | nil =>
      rw [comparePaths_cons_nil]
      apply relates_disjoint
      cases s <;> simp [shape, Shape.Meet, Shape.cons]
    | cons t q =>
      have ih := ih hp.tail hq.tail
      cases s with
      | multi name =>
        obtain rfl := hp.eq_nil
        cases t with
        | multi name' =>
          obtain rfl := hq.eq_nil
          change Relates .equivalent ⟨[], true⟩ ⟨[], true⟩
          constructor <;> decide
        | wild | literal =>
          rw [comparePaths_multi (by simp)]
          exact relates_moreGeneral _ _
      | wild | literal =>
        cases t with
        | multi =>
          obtain rfl := hq.eq_nil
          rw [comparePaths_multi_right (by simp)]
          exact relates_moreSpecific _ _
        | wild | literal =>
          rw [comparePaths_cons (by simp) (by simp)]
          apply ih.cons <;>
            grind [compareSegments, Shape.Meets, Relationship.general, Relationship.specific]

def compareMethods (m1 m2 : List Char) : Relationship :=
  if m1 = m2 then .equivalent
  else if m1 = [] then .moreGeneral
  else if m2 = [] then .moreSpecific
  else if m1 = "GET".toList ∧ m2 = "HEAD".toList then .moreGeneral
  else if m2 = "GET".toList ∧ m1 = "HEAD".toList then .moreSpecific
  else .disjoint

def Pattern.conflictsWith (p1 p2 : Pattern) : Bool :=
  if p1.host ≠ p2.host then false
  else
    let rel := combineRelationships (compareMethods p1.method p2.method)
      (comparePaths p1.segments p2.segments)
    rel = .equivalent ∨ rel = .overlaps

theorem conflictsWith_iff_clash (hp : MultiLast p) (hq : MultiLast q) :
    Pattern.conflictsWith ⟨[], [], p⟩ ⟨[], [], q⟩ = true ↔ (shape p).Clash (shape q) := by
  rw [← (relates_comparePaths hp hq).clash_iff]
  simp [Pattern.conflictsWith, compareMethods, combineRelationships]

/-- The mux registers a pattern next to those it has; otherwise `register` panics. -/
def accepts (unicodeName : List Char → Bool) (registered : List String) (pattern : String) :
    Bool :=
  match parsePattern unicodeName pattern.toList with
  | none => false
  | some p => registered.all fun r =>
    (parsePattern unicodeName r.toList).all fun q => !p.conflictsWith q

end Go.ServeMux
