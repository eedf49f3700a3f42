import Mathlib.Data.List.Forall2

/-!
# Wildcard patterns and the greedy choice among them

A pattern is a list of labels in which one label, `star`, stands for any single label. `greedy`
describes a walk that never returns: it consumes the label of the word whenever some pattern still
continues with it, and `star` otherwise.
-/

namespace Wildcard

variable {L : Type*} [DecidableEq L] (star : L)

/-- Equal length, and each pattern label is the word's label or `star`. -/
def Matches (p word : List L) : Prop :=
  List.Forall₂ (fun l x => l = x ∨ l = star) p word

/-- At the first label where they differ, `p` has the label of `word` and `q` has `star`. -/
def Prefers (word p q : List L) : Prop :=
  ∃ common label restP restQ, label ≠ star ∧ word[common.length]? = some label ∧
    p = common ++ label :: restP ∧ q = common ++ star :: restQ

/-- The patterns that start with `l`, without it. -/
def tails (ps : List (List L)) (l : L) : List (List L) :=
  ps.filterMap fun p => match p with
    | [] => none
    | x :: xs => if x = l then some xs else none

omit [DecidableEq L] in
@[simp] theorem matches_nil_right {p : List L} : Matches star p [] ↔ p = [] :=
  List.forall₂_nil_right_iff

omit [DecidableEq L] in
@[simp] theorem matches_cons_cons {l x : L} {p word : List L} :
    Matches star (l :: p) (x :: word) ↔ (l = x ∨ l = star) ∧ Matches star p word :=
  List.forall₂_cons

variable {word : List L} {ps : List (List L)}

omit [DecidableEq L] in
theorem matches_cons_right {p : List L} {x : L} (h : Matches star p (x :: word)) :
    ∃ l rest, p = l :: rest ∧ (l = x ∨ l = star) ∧ Matches star rest word := by
  obtain ⟨l, rest, hl, hrest, rfl⟩ := List.forall₂_cons_right_iff.mp h
  exact ⟨l, rest, rfl, hl, hrest⟩

@[simp] theorem mem_tails {l : L} {p : List L} : p ∈ tails ps l ↔ l :: p ∈ ps := by
  simp only [tails, List.mem_filterMap]
  constructor
  · rintro ⟨q, hq, hp⟩
    cases q with
    | nil => cases hp
    | cons x xs =>
      by_cases hx : x = l
      · simp only [hx, if_true, Option.some.injEq] at hp
        rwa [hx, hp] at hq
      · simp [hx] at hp
  · intro h
    exact ⟨l :: p, h, by simp⟩

theorem tails_eq_nil_iff {l : L} : tails ps l = [] ↔ ∀ p, l :: p ∉ ps := by
  simp [List.eq_nil_iff_forall_not_mem]

/-- The labels consumed by a walk that takes the word's own label whenever some
remaining pattern continues with it, and `star` otherwise. -/
def greedy : List (List L) → List L → List L
  | _, [] => []
  | ps, x :: word =>
    if tails ps x = [] then star :: greedy (tails ps star) word
    else x :: greedy (tails ps x) word

/-- The walk depends on the patterns and not on their order. -/
theorem greedy_congr {qs : List (List L)} (h : ∀ p, p ∈ ps ↔ p ∈ qs) (word : List L) :
    greedy star ps word = greedy star qs word := by
  induction word generalizing ps qs with
  | nil => rfl
  | cons x word ih =>
    have htails : ∀ l p, p ∈ tails ps l ↔ p ∈ tails qs l := by
      intro l p
      rw [mem_tails, mem_tails, h]
    have hnil : tails ps x = [] ↔ tails qs x = [] := by
      rw [tails_eq_nil_iff, tails_eq_nil_iff]
      simp only [h]
    simp only [greedy, hnil, ih (htails _)]

theorem greedy_matches (ps : List (List L)) (word : List L) :
    Matches star (greedy star ps word) word := by
  induction word generalizing ps with
  | nil => simp [greedy]
  | cons x word ih =>
    simp only [greedy]
    split <;> simp [ih]

theorem greedy_of_mem (h : word ∈ ps) : greedy star ps word = word := by
  induction word generalizing ps with
  | nil => rfl
  | cons x word ih =>
    have hne : tails ps x ≠ [] := fun hnil => tails_eq_nil_iff.mp hnil word h
    rw [greedy, if_neg hne, ih (mem_tails.mpr h)]

theorem greedy_prefers {q : List L} (hq : q ∈ ps) (hm : Matches star q word)
    (hne : q ≠ greedy star ps word) : Prefers star word (greedy star ps word) q := by
  induction word generalizing ps q with
  | nil => exact absurd (by simpa [greedy] using hm) hne
  | cons x word ih =>
    obtain ⟨l, rest, rfl, hl, hrest⟩ := matches_cons_right star hm
    -- The step lemma: below a common label the two walks are compared by induction.
    have step : ∀ y, l = y → greedy star ps (x :: word) = y :: greedy star (tails ps y) word →
        Prefers star (x :: word) (greedy star ps (x :: word)) (l :: rest) := by
      rintro y rfl hwalk
      have hrest' : rest ≠ greedy star (tails ps l) word := fun heq => hne (by rw [hwalk, heq])
      obtain ⟨common, label, restP, restQ, hlabel, hword, hp, hq'⟩ :=
        ih (mem_tails.mpr hq) hrest hrest'
      exact ⟨l :: common, label, restP, restQ, hlabel, by simpa using hword,
        by rw [hwalk, hp]; rfl, by rw [hq']; rfl⟩
    by_cases hnil : tails ps x = []
    · have hstar : l = star := by
        rcases hl with rfl | hl
        · exact absurd hq (tails_eq_nil_iff.mp hnil rest)
        · exact hl
      exact step star hstar (by rw [greedy, if_pos hnil])
    · have hwalk : greedy star ps (x :: word) = x :: greedy star (tails ps x) word := by
        rw [greedy, if_neg hnil]
      by_cases hx : l = x
      · exact step x hx hwalk
      · have hstar : l = star := hl.resolve_left hx
        refine ⟨[], x, greedy star (tails ps x) word, rest, ?_, rfl, by rw [hwalk]; rfl,
          by rw [hstar]; rfl⟩
        exact fun h => hx (hstar.trans h.symm)

/-- Choosing the word's own label never discards the last pattern that matches the
whole word. The table shrinks with the walk, so only the walk's own choices count. -/
def NoDeadEnd : List (List L) → List L → Prop
  | _, [] => True
  | ps, x :: word =>
    if tails ps x = [] then NoDeadEnd (tails ps star) word
    else ((∃ p ∈ ps, Matches star p (x :: word)) → ∃ p ∈ tails ps x, Matches star p word) ∧
      NoDeadEnd (tails ps x) word

theorem greedy_mem_iff_noDeadEnd (ps : List (List L)) (word : List L) :
    ((∃ p ∈ ps, Matches star p word) → greedy star ps word ∈ ps) ↔ NoDeadEnd star ps word := by
  induction word generalizing ps with
  | nil =>
    simp only [greedy, NoDeadEnd, iff_true, matches_nil_right]
    rintro ⟨p, hp, rfl⟩
    exact hp
  | cons x word ih =>
    by_cases hnil : tails ps x = []
    · -- Every matching pattern starts with `star`, so the tables agree one label down.
      have hdown : (∃ p ∈ ps, Matches star p (x :: word)) ↔
          ∃ p ∈ tails ps star, Matches star p word := by
        constructor
        · rintro ⟨p, hp, hm⟩
          obtain ⟨l, rest, rfl, hl, hrest⟩ := matches_cons_right star hm
          rcases hl with rfl | rfl
          · exact absurd hp (tails_eq_nil_iff.mp hnil rest)
          · exact ⟨rest, mem_tails.mpr hp, hrest⟩
        · rintro ⟨p, hp, hm⟩
          exact ⟨star :: p, mem_tails.mp hp, by simp [hm]⟩
      rw [hdown, greedy, if_pos hnil, NoDeadEnd, if_pos hnil, ← mem_tails, ih]
    · rw [greedy, if_neg hnil, NoDeadEnd, if_neg hnil, ← mem_tails, ← ih]
      have hup : (∃ p ∈ tails ps x, Matches star p word) →
          ∃ p ∈ ps, Matches star p (x :: word) := by
        rintro ⟨p, hp, hm⟩
        exact ⟨x :: p, mem_tails.mp hp, by simp [hm]⟩
      constructor
      · intro h
        refine ⟨fun hps => ⟨_, h hps, greedy_matches star _ _⟩, fun htl => h (hup htl)⟩
      · rintro ⟨hkeep, hwalk⟩ hps
        exact hwalk (hkeep hps)

end Wildcard
