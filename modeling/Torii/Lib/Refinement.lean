import Mathlib.Data.List.Forall2
import Torii.Lib.Fallible

/-!
# Related outcomes

Two computations that may fail are related when they fail with the same error or have related
results (`Except.Related`). A computation over a state may implement a pure function (`Refines`).
The rules follow the way the computations are composed.
-/

universe u

namespace Except

variable {ε ε' α β α' β' γ δ : Type u} {R : α → β → Prop} {R' : α' → β' → Prop}
  {x : Except ε α} {y : Except ε β}

theorem bind_eq_ok {f : α → Except ε β} {b : β} :
    x >>= f = .ok b ↔ ∃ a, x = .ok a ∧ f a = .ok b := by
  cases x with
  | error e =>
    constructor
    · rintro ⟨⟩
    · rintro ⟨a, ⟨⟩, -⟩
  | ok a =>
    constructor
    · intro h
      exact ⟨a, rfl, h⟩
    · rintro ⟨a', ⟨⟩, h⟩
      exact h

section

variable {f : α → Except ε β} {xs : List α} {ys : List β}

theorem mapM_cons_eq_ok {x : α} (h : (x :: xs).mapM f = .ok ys) :
    ∃ z zs, f x = .ok z ∧ xs.mapM f = .ok zs ∧ ys = z :: zs := by
  rw [List.mapM_cons] at h
  obtain ⟨z, hz, h⟩ := bind_eq_ok.mp h
  obtain ⟨zs, hzs, h⟩ := bind_eq_ok.mp h
  cases h
  exact ⟨z, zs, hz, hzs, rfl⟩

theorem mem_mapM (h : xs.mapM f = .ok ys) {y : β} : y ∈ ys ↔ ∃ x ∈ xs, f x = .ok y := by
  induction xs generalizing ys with
  | nil =>
    cases h
    simp
  | cons x xs ih =>
    obtain ⟨z, zs, hz, hzs, rfl⟩ := mapM_cons_eq_ok h
    simp [ih hzs, or_and_right, exists_or, hz, eq_comm (a := y)]

theorem ok_of_mapM (h : xs.mapM f = .ok ys) {x : α} (hx : x ∈ xs) : ∃ y, f x = .ok y := by
  induction xs generalizing ys with
  | nil => cases hx
  | cons x' xs ih =>
    obtain ⟨z, zs, hz, hzs, rfl⟩ := mapM_cons_eq_ok h
    obtain rfl | hx := List.mem_cons.mp hx
    · exact ⟨z, hz⟩
    · exact ih hzs hx

end

theorem map_eq_ok {f : α → β} {b : β} : x.map f = .ok b ↔ ∃ a, x = .ok a ∧ f a = b := by
  cases x with
  | error e =>
    constructor
    · rintro ⟨⟩
    · rintro ⟨a, ⟨⟩, -⟩
  | ok a =>
    constructor
    · intro h
      exact ⟨a, rfl, Except.ok.inj h⟩
    · rintro ⟨a', ⟨⟩, rfl⟩
      rfl

theorem mapError_eq_ok {f : ε → ε'} {a : α} : x.mapError f = .ok a ↔ x = .ok a := by
  cases x with
  | error e =>
    constructor
    · rintro ⟨⟩
    · rintro ⟨⟩
  | ok a' =>
    constructor
    · rintro ⟨⟩
      rfl
    · rintro ⟨⟩
      rfl

theorem foldlM_induction {I : α → Prop} {f : α → γ → Except ε α} {l : List γ} {a a' : α}
    (h : I a) (hstep : ∀ x ∈ l, ∀ a a', I a → f a x = .ok a' → I a')
    (hrun : l.foldlM f a = .ok a') : I a' := by
  induction l generalizing a with
  | nil => exact Except.ok.inj hrun ▸ h
  | cons x l ih =>
    rw [List.foldlM_cons] at hrun
    obtain ⟨b, hb, hrest⟩ := bind_eq_ok.mp hrun
    exact ih (hstep x List.mem_cons_self a b h hb)
      (fun y hy => hstep y (List.mem_cons_of_mem _ hy)) hrest

/-- The same error, or related results. -/
def Related (R : α → β → Prop) : Except ε α → Except ε β → Prop
  | .ok a, .ok b => R a b
  | .error e, .error e' => e = e'
  | _, _ => False

theorem related_rfl : Related Eq x x := by
  cases x with
  | error | ok => rfl

theorem related_mapError (f : ε → ε') (h : Related R x y) :
    Related R (x.mapError f) (y.mapError f) := by
  cases x with
  | error e =>
    cases y with
    | error e' => exact congrArg f h
    | ok b => exact absurd h id
  | ok a =>
    cases y with
    | error e' => exact absurd h id
    | ok b => exact h

theorem related_map {f : α → α'} {g : β → β'}
    (h : Related R x y) (hf : ∀ a b, R a b → R' (f a) (g b)) : Related R' (x.map f) (y.map g) := by
  cases x with
  | error e =>
    cases y with
    | error e' => exact h
    | ok b => exact absurd h id
  | ok a =>
    cases y with
    | error e' => exact absurd h id
    | ok b => exact hf a b h

theorem related_bind {f : α → Except ε α'} {g : β → Except ε β'} (h : Related R x y)
    (hf : ∀ a b, R a b → Related R' (f a) (g b)) : Related R' (x >>= f) (y >>= g) := by
  cases x with
  | error e =>
    cases y with
    | error e' => exact h
    | ok b => exact absurd h id
  | ok a =>
    cases y with
    | error e' => exact absurd h id
    | ok b => exact hf a b h

theorem related_foldlM {S : γ → δ → Prop} {I : α → β → Prop} {f : α → γ → Except ε α}
    {g : β → δ → Except ε β} {l : List γ} {l' : List δ} (hl : List.Forall₂ S l l') {a : α} {b : β}
    (h : I a b) (hstep : ∀ x y, S x y → ∀ a b, I a b → Related I (f a x) (g b y)) :
    Related I (l.foldlM f a) (l'.foldlM g b) := by
  induction hl generalizing a b with
  | nil => exact h
  | cons hxy _ ih =>
    rw [List.foldlM_cons, List.foldlM_cons]
    exact related_bind (hstep _ _ hxy a b h) fun a' b' h' => ih h'

end Except

namespace Fallible

variable {σ ε ε' α β α' β' γ : Type u} {P : σ → Prop} {R : α → β → Prop} {R' : α' → β' → Prop}

/-- The outcome of `m` is that of `spec`, from every state in `P`. -/
def Refines (P : σ → Prop) (m : Fallible σ ε α) (spec : Except ε β) (R : α → β → Prop) : Prop :=
  ∀ s, P s → P (m s).2 ∧ Except.Related R (m s).1 spec

variable {m : Fallible σ ε α} {spec : Except ε β}

/-- What a run that returns says about the specification. -/
theorem Refines.of_ok (h : Refines P m spec R) {s s' : σ} {a : α} (hs : P s)
    (hrun : m s = (.ok a, s')) : P s' ∧ ∃ b, spec = .ok b ∧ R a b := by
  obtain ⟨hinv, hrelated⟩ := h s hs
  rw [hrun] at hinv hrelated
  cases spec with
  | error e => exact absurd hrelated id
  | ok b => exact ⟨hinv, b, rfl, hrelated⟩

theorem Refines.of_spec (h : Refines P m spec R) {s : σ} {b : β} (hs : P s)
    (hspec : spec = .ok b) : ∃ a s', m s = (.ok a, s') ∧ P s' ∧ R a b := by
  obtain ⟨hinv, hrelated⟩ := h s hs
  rw [hspec] at hrelated
  rcases hrun : m s with ⟨e | a, s'⟩
  · rw [hrun] at hrelated
    exact absurd hrelated id
  · rw [hrun] at hinv hrelated
    exact ⟨a, s', rfl, hinv, hrelated⟩

theorem Refines.map_spec {f : β → β'} {R₁ : α → β' → Prop} (h : Refines P m spec R)
    (hf : ∀ a b, R a b → R₁ a (f b)) : Refines P m (spec.map f) R₁ := by
  intro s hs
  obtain ⟨hinv, hrelated⟩ := h s hs
  refine ⟨hinv, ?_⟩
  rcases hrun : m s with ⟨e | a, s'⟩
  · rw [hrun] at hrelated
    cases spec with
    | error e' => exact hrelated
    | ok b => exact absurd hrelated id
  · rw [hrun] at hrelated
    cases spec with
    | error e' => exact absurd hrelated id
    | ok b => exact hf a b hrelated

theorem refines_pure {a : α} {b : β} (h : R a b) :
    Refines P (pure a : Fallible σ ε α) (.ok b) R :=
  fun _ hs => ⟨hs, h⟩

theorem refines_throw {e : ε} : Refines P (throw e : Fallible σ ε α) (.error e) R :=
  fun _ hs => ⟨hs, rfl⟩

theorem refines_ofExcept {r : Except ε α} (h : Except.Related R r spec) :
    Refines P (ofExcept r) spec R := by
  cases r with
  | ok | error => exact fun _ hs => ⟨hs, h⟩

theorem refines_mapError (f : ε → ε') (h : Refines P m spec R) :
    Refines P (mapError f m) (spec.mapError f) R := by
  intro s hs
  obtain ⟨hinv, hrelated⟩ := h s hs
  rw [mapError]
  rcases hrun : m s with ⟨e | a, s'⟩
  · rw [hrun] at hinv hrelated
    cases spec with
    | error e' => exact ⟨hinv, congrArg f hrelated⟩
    | ok b => exact absurd hrelated id
  · rw [hrun] at hinv hrelated
    cases spec with
    | error e' => exact absurd hrelated id
    | ok b => exact ⟨hinv, hrelated⟩

theorem refines_attempt (h : Refines P m spec R) :
    Refines P (attempt m) (.ok spec) (Except.Related R) := by
  intro s hs
  obtain ⟨hinv, hrelated⟩ := h s hs
  rw [attempt]
  rcases hrun : m s with ⟨r, s'⟩
  rw [hrun] at hinv hrelated
  exact ⟨hinv, hrelated⟩

theorem refines_bind {f : α → Fallible σ ε α'} {g : β → Except ε β'} (hm : Refines P m spec R)
    (hf : ∀ a b, R a b → Refines P (f a) (g b) R') : Refines P (m >>= f) (spec >>= g) R' := by
  intro s hs
  change P (andThen m f s).2 ∧ Except.Related R' (andThen m f s).1 (spec >>= g)
  obtain ⟨hinv, hrelated⟩ := hm s hs
  rw [andThen]
  rcases hrun : m s with ⟨e | a, s'⟩
  · rw [hrun] at hinv hrelated
    cases spec with
    | error e' => exact ⟨hinv, hrelated⟩
    | ok b => exact absurd hrelated id
  · rw [hrun] at hinv hrelated
    cases spec with
    | error e' => exact absurd hrelated id
    | ok b => exact hf a b hrelated s' hinv

theorem refines_foldlM {I : α → β → Prop} {f : α → γ → Fallible σ ε α} {g : β → γ → Except ε β}
    {l : List γ} {a : α} {b : β} (h : I a b)
    (hstep : ∀ x ∈ l, ∀ a b, I a b → Refines P (f a x) (g b x) I) :
    Refines P (l.foldlM f a) (l.foldlM g b) I := by
  induction l generalizing a b with
  | nil => exact refines_pure h
  | cons x l ih =>
    rw [List.foldlM_cons, List.foldlM_cons]
    apply refines_bind (hstep x List.mem_cons_self a b h)
    intro a' b' h'
    exact ih h' fun y hy => hstep y (List.mem_cons_of_mem _ hy)

end Fallible
