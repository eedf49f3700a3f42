import Mathlib.Order.Defs.Unbundled

/-!
# Computations that fail and keep their effects

A computation over a state that may end in an error. Unlike a transaction, it does not roll back:
the state reached at the error stays. `Ensures P R s m Q` is the contract of a run from `s`: the
invariant `P` holds afterwards and the state is related to `s` by `R`, both also after an error, and
a result satisfies `Q`.
-/

universe u

/-- A computation that may fail and that keeps the state it reached when it does. -/
def Fallible (σ ε α : Type u) : Type u := σ → Except ε α × σ

namespace Fallible

variable {σ ε ε' α β : Type u}

def ret (a : α) : Fallible σ ε α := fun s => (.ok a, s)

def andThen (m : Fallible σ ε α) (f : α → Fallible σ ε β) : Fallible σ ε β := fun s =>
  match m s with
  | (.ok a, s) => f a s
  | (.error e, s) => (.error e, s)

instance : Monad (Fallible σ ε) where
  pure := ret
  bind := andThen

def throw (e : ε) : Fallible σ ε α := fun s => (.error e, s)

def attempt (m : Fallible σ ε α) : Fallible σ ε (Except ε α) := fun s =>
  match m s with
  | (r, s) => (.ok r, s)

def mapError (f : ε → ε') (m : Fallible σ ε α) : Fallible σ ε' α := fun s =>
  match m s with
  | (.ok a, s) => (.ok a, s)
  | (.error e, s) => (.error (f e), s)

/-- A value that may be an error, as a computation. -/
def ofExcept : Except ε α → Fallible σ ε α
  | .ok a => ret a
  | .error e => throw e

structure Ensures (P : σ → Prop) (R : σ → σ → Prop) (s : σ) (m : Fallible σ ε α)
    (Q : α → σ → Prop) : Prop where
  inv : P (m s).2
  rel : R s (m s).2
  post : ∀ a, (m s).1 = .ok a → Q a (m s).2

section

variable {P : σ → Prop} {R : σ → σ → Prop} {s : σ} {m : Fallible σ ε α} {Q Q' : α → σ → Prop}

theorem ensures_of_run {r : Except ε α} {s' : σ} (hrun : m s = (r, s')) (hinv : P s')
    (hrel : R s s') (hpost : ∀ a, r = .ok a → Q a s') : Ensures P R s m Q := by
  refine ⟨?_, ?_, ?_⟩
  · rw [hrun]
    exact hinv
  · rw [hrun]
    exact hrel
  · rw [hrun]
    exact hpost

theorem Ensures.run {r : Except ε α} {s' : σ} (h : Ensures P R s m Q) (hrun : m s = (r, s')) :
    P s' ∧ R s s' ∧ ∀ a, r = .ok a → Q a s' := by
  obtain ⟨hinv, hrel, hpost⟩ := h
  rw [hrun] at hinv hrel hpost
  exact ⟨hinv, hrel, hpost⟩

theorem ensures_mapError (f : ε → ε') (h : Ensures P R s m Q) :
    Ensures P R s (mapError f m) Q := by
  rcases hm : m s with ⟨a | a, s'⟩
  · obtain ⟨hinv, hrel, -⟩ := h.run hm
    apply ensures_of_run (by simp only [mapError, hm]; rfl) hinv hrel
    rintro b ⟨⟩
  · obtain ⟨hinv, hrel, hpost⟩ := h.run hm
    apply ensures_of_run (by simp only [mapError, hm]; rfl) hinv hrel
    rintro b ⟨⟩
    exact hpost a rfl

theorem ensures_attempt (h : Ensures P R s m Q) :
    Ensures P R s (attempt m) fun r s' => ∀ a, r = .ok a → Q a s' := by
  rcases hm : m s with ⟨r, s'⟩
  obtain ⟨hinv, hrel, hpost⟩ := h.run hm
  apply ensures_of_run (by simp only [attempt, hm]; rfl) hinv hrel
  rintro b ⟨⟩
  exact hpost

theorem ensures_bind [IsTrans σ R] {f : α → Fallible σ ε β} {Q' : β → σ → Prop}
    (hm : Ensures P R s m Q)
    (hf : ∀ a s', P s' → R s s' → Q a s' → Ensures P R s' (f a) Q') :
    Ensures P R s (m >>= f) Q' := by
  change Ensures P R s (andThen m f) Q'
  rcases hrun : m s with ⟨a | a, s'⟩
  · obtain ⟨hinv, hrel, -⟩ := hm.run hrun
    apply ensures_of_run (by simp only [andThen, hrun]; rfl) hinv hrel
    rintro b ⟨⟩
  · obtain ⟨hinv, hrel, hpost⟩ := hm.run hrun
    obtain ⟨hinv', hrel', hpost'⟩ := hf a s' hinv hrel (hpost a rfl)
    apply ensures_of_run (by simp only [andThen, hrun]) hinv' _ hpost'
    exact IsTrans.trans _ _ _ hrel hrel'

section

variable [Std.Refl R]

theorem ensures_pure {a : α} (hs : P s) (ha : Q a s) :
    Ensures P R s (pure a : Fallible σ ε α) Q :=
  ⟨hs, Std.Refl.refl s, fun b hb => by cases hb; exact ha⟩

theorem ensures_throw {e : ε} (hs : P s) : Ensures P R s (throw e : Fallible σ ε α) Q :=
  ⟨hs, Std.Refl.refl s, fun b hb => by cases hb⟩

theorem ensures_ofExcept {r : Except ε α} (hs : P s) (hr : ∀ a, r = .ok a → Q a s) :
    Ensures P R s (ofExcept r) Q := by
  cases r with
  | ok a => exact ensures_pure hs (hr a rfl)
  | error e => exact ensures_throw hs

theorem ensures_foldlM [IsTrans σ R] {I : β → σ → Prop} {f : β → α → Fallible σ ε β}
    {l : List α} {b : β} (hs : P s) (hb : I b s)
    (hstep : ∀ x ∈ l, ∀ b s, P s → I b s → Ensures P R s (f b x) I) :
    Ensures P R s (l.foldlM f b) I := by
  induction l generalizing b s with
  | nil => exact ensures_pure hs hb
  | cons x l ih =>
    rw [List.foldlM_cons]
    apply ensures_bind (hstep x List.mem_cons_self b s hs hb)
    intro b' s' hs' _ hb'
    exact ih hs' hb' fun y hy => hstep y (List.mem_cons_of_mem _ hy)

end

end

section

variable {m : Fallible σ ε α} {f : α → Fallible σ ε β} {s s' : σ}

theorem bind_run_ok {a : α} (h : m s = (.ok a, s')) : (m >>= f) s = f a s' := by
  change andThen m f s = _
  simp only [andThen, h]

theorem bind_run_error {e : ε} (h : m s = (.error e, s')) : (m >>= f) s = (.error e, s') := by
  change andThen m f s = _
  simp only [andThen, h]

end

section

variable {E : ε → Prop}

/-- Every error of a computation is of a kind. -/
def Raises (E : ε → Prop) (m : Fallible σ ε α) : Prop := ∀ s e s', m s = (.error e, s') → E e

theorem raises_pure (a : α) : Raises E (pure a : Fallible σ ε α) := by
  intro s e s' hrun
  exact absurd (congrArg Prod.fst hrun) nofun

theorem raises_throw {e : ε} (h : E e) : Raises E (throw e : Fallible σ ε α) := by
  intro s e' s' hrun
  cases hrun
  exact h

theorem raises_bind {m : Fallible σ ε α} {f : α → Fallible σ ε β} (hm : Raises E m)
    (hf : ∀ a, Raises E (f a)) : Raises E (m >>= f) := by
  intro s e s' hrun
  rcases hfirst : m s with ⟨e' | a, s₁⟩
  · rw [bind_run_error hfirst] at hrun
    cases hrun
    exact hm s e s' hfirst
  · rw [bind_run_ok hfirst] at hrun
    exact hf a s₁ e s' hrun

end

end Fallible
