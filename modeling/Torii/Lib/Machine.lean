import Mathlib.Data.List.Induction

/-!
# Machines that answer operations

A machine takes one operation at a time, answers it and moves to its next state. There are three
induction rules: `run_induction` carries an invariant of the states through the operations that are
allowed, `trace_induction` a relation between the history so far and the state reached, and
`run_simulation` one between the states of two machines that take the same operations.
-/

structure Machine (State Op Out : Type*) where
  step : State → Op → Out × State

namespace Machine

variable {State Op Out : Type*} (M : Machine State Op Out)

/-- The state after a list of operations. -/
def run (s : State) (ops : List Op) : State := ops.foldl (fun s op => (M.step s op).2) s

def trace (s : State) : List Op → List (Op × Out)
  | [] => []
  | op :: ops => (op, (M.step s op).1) :: trace (M.step s op).2 ops

/-- What `f` observes at each operation, in the state in which it is taken. -/
def collect {α : Type*} (f : State → Op → List α) (s : State) : List Op → List α
  | [] => []
  | op :: ops => f s op ++ collect f (M.step s op).2 ops

/-- Every state of a run has a property, the first and the last one included. -/
def Always (Good : State → Prop) (s : State) : List Op → Prop
  | [] => Good s
  | op :: ops => Good s ∧ Always Good (M.step s op).2 ops

/-- Every step of a run has a property, in the state in which it is taken. -/
def Steps (Ok : State → Op → Prop) (s : State) : List Op → Prop
  | [] => True
  | op :: ops => Ok s op ∧ Steps Ok (M.step s op).2 ops

instance decidableSteps (Ok : State → Op → Prop) [∀ s op, Decidable (Ok s op)] :
    ∀ s ops, Decidable (M.Steps Ok s ops)
  | _, [] => isTrue trivial
  | s, op :: ops =>
    have := decidableSteps Ok (M.step s op).2 ops
    inferInstanceAs (Decidable (Ok s op ∧ M.Steps Ok (M.step s op).2 ops))

variable (s : State) (ops : List Op) (op : Op)

@[simp] theorem run_nil : M.run s [] = s := rfl

@[simp] theorem run_cons (ops : List Op) :
    M.run s (op :: ops) = M.run (M.step s op).2 ops := rfl

theorem run_append (xs ys : List Op) : M.run s (xs ++ ys) = M.run (M.run s xs) ys := by
  simp [run]

theorem trace_append (xs ys : List Op) :
    M.trace s (xs ++ ys) = M.trace s xs ++ M.trace (M.run s xs) ys := by
  induction xs generalizing s with
  | nil => rfl
  | cons op xs ih => simp [trace, ih]

@[simp] theorem map_fst_trace : (M.trace s ops).map Prod.fst = ops := by
  induction ops generalizing s with
  | nil => rfl
  | cons op ops ih => simp [trace, ih]

theorem run_concat : M.run s (ops ++ [op]) = (M.step (M.run s ops) op).2 := by
  rw [run_append]
  rfl

theorem trace_concat :
    M.trace s (ops ++ [op]) = M.trace s ops ++ [(op, (M.step (M.run s ops) op).1)] := by
  rw [trace_append]
  rfl

theorem collect_append {α : Type*} (f : State → Op → List α) (s : State) (xs ys : List Op) :
    M.collect f s (xs ++ ys) = M.collect f s xs ++ M.collect f (M.run s xs) ys := by
  induction xs generalizing s with
  | nil => rfl
  | cons op xs ih => simp [collect, ih]

theorem collect_concat {α : Type*} (f : State → Op → List α) (s : State) (ops : List Op)
    (op : Op) : M.collect f s (ops ++ [op]) = M.collect f s ops ++ f (M.run s ops) op := by
  simp [collect_append, collect]

variable {s : State} (Inv : State → Prop) {Ok : State → Op → Prop} {ops : List Op}
  (Allowed : Op → Prop)

theorem mem_collect {α : Type*} {f : State → Op → List α} {a : α} (h : a ∈ M.collect f s ops) :
    ∃ before op after, ops = before ++ op :: after ∧ a ∈ f (M.run s before) op := by
  induction ops generalizing s with
  | nil => exact absurd h (by simp [collect])
  | cons op ops ih =>
    obtain hhead | htail := List.mem_append.mp h
    · exact ⟨[], op, ops, rfl, hhead⟩
    · obtain ⟨before, op', after, rfl, hmem⟩ := ih htail
      exact ⟨op :: before, op', after, rfl, hmem⟩

theorem steps_append (Ok : State → Op → Prop) (s : State) (xs ys : List Op) :
    M.Steps Ok s (xs ++ ys) ↔ M.Steps Ok s xs ∧ M.Steps Ok (M.run s xs) ys := by
  induction xs generalizing s with
  | nil => simp [Steps]
  | cons op xs ih => simp [Steps, ih, and_assoc]

theorem steps_concat (Ok : State → Op → Prop) (s : State) (ops : List Op) (op : Op) :
    M.Steps Ok s (ops ++ [op]) ↔ M.Steps Ok s ops ∧ Ok (M.run s ops) op := by
  simp [steps_append, Steps]

theorem run_induction (hstep : ∀ s op, Allowed op → Inv s → Inv (M.step s op).2)
    (hops : ∀ op ∈ ops, Allowed op) (hs : Inv s) : Inv (M.run s ops) := by
  induction ops generalizing s with
  | nil => exact hs
  | cons op ops ih =>
    rw [run_cons]
    apply ih
    · intro op' hop'
      exact hops op' (List.mem_cons_of_mem _ hop')
    · exact hstep s op (hops op List.mem_cons_self) hs

theorem run_invariant (hstep : ∀ s op, Inv s → Inv (M.step s op).2) (hs : Inv s) (ops : List Op) :
    Inv (M.run s ops) :=
  M.run_induction Inv (fun _ => True) (fun s op _ => hstep s op) (fun _ _ => trivial) hs

theorem run_of_steps (hstep : ∀ s op, Ok s op → Inv s → Inv (M.step s op).2)
    (hops : M.Steps Ok s ops) (hs : Inv s) : Inv (M.run s ops) := by
  induction ops generalizing s with
  | nil => exact hs
  | cons op ops ih => exact ih hops.2 (hstep s op hops.1 hs)

theorem always_of_steps {Good : State → Prop}
    (hgood : ∀ s, Inv s → Good s) (hstep : ∀ s op, Ok s op → Inv s → Inv (M.step s op).2)
    (hops : M.Steps Ok s ops) (hs : Inv s) : M.Always Good s ops := by
  induction ops generalizing s with
  | nil => exact hgood s hs
  | cons op ops ih => exact ⟨hgood s hs, ih hops.2 (hstep s op hops.1 hs)⟩

theorem collect_of_steps {α : Type*} {f : State → Op → List α} (Inv : List α → State → Prop)
    (hstep : ∀ seen s op, Ok s op → Inv seen s → Inv (seen ++ f s op) (M.step s op).2)
    (hops : M.Steps Ok s ops) (hs : Inv [] s) : Inv (M.collect f s ops) (M.run s ops) := by
  induction ops using List.reverseRecOn with
  | nil => exact hs
  | append_singleton ops op ih =>
    rw [steps_concat] at hops
    rw [collect_concat, run_concat]
    exact hstep _ _ op hops.2 (ih hops.1)

theorem trace_induction (Inv : List (Op × Out) → State → Prop) (hs : Inv [] s)
    (hstep : ∀ history s op, Inv history s →
      Inv (history ++ [(op, (M.step s op).1)]) (M.step s op).2) (ops : List Op) :
    Inv (M.trace s ops) (M.run s ops) := by
  induction ops using List.reverseRecOn with
  | nil => exact hs
  | append_singleton ops op ih =>
    rw [trace_concat, run_concat]
    exact hstep _ _ op ih

theorem run_simulation {State' Out' : Type*} {N : Machine State' Op Out'}
    (R : State → State' → Prop)
    (hstep : ∀ s t op, R s t → R (M.step s op).2 (N.step t op).2) {t : State'}
    (hst : R s t) (ops : List Op) : R (M.run s ops) (N.run t ops) := by
  induction ops generalizing s t with
  | nil => exact hst
  | cons op ops ih =>
    rw [run_cons, run_cons]
    exact ih (hstep s t op hst)

theorem always_iff_steps (Good : State → Prop) (s : State) (ops : List Op) :
    M.Always Good s ops ↔ Good s ∧ M.Steps (fun s op => Good (M.step s op).2) s ops := by
  induction ops generalizing s with
  | nil => simp [Always, Steps]
  | cons op ops ih => simp only [Always, Steps, ih]

theorem steps_and (Ok Ok' : State → Op → Prop) (s : State) (ops : List Op) :
    M.Steps (fun s op => Ok s op ∧ Ok' s op) s ops ↔ M.Steps Ok s ops ∧ M.Steps Ok' s ops := by
  induction ops generalizing s with
  | nil => simp [Steps]
  | cons op ops ih => simp only [Steps, ih, and_and_and_comm]

theorem steps_of_invariant (hok : ∀ s op, Allowed op → Inv s → Ok s op)
    (hkeep : ∀ s op, Allowed op → Inv s → Inv (M.step s op).2)
    (hops : ∀ op ∈ ops, Allowed op) (hs : Inv s) : M.Steps Ok s ops := by
  induction ops generalizing s with
  | nil => trivial
  | cons op ops ih =>
    obtain ⟨hop, hrest⟩ := List.forall_mem_cons.mp hops
    exact ⟨hok s op hop hs, ih hrest (hkeep s op hop hs)⟩

theorem trace_of_invariant (Ok : Op → Out → Prop)
    (hok : ∀ s op, Allowed op → Inv s → Ok op (M.step s op).1)
    (hkeep : ∀ s op, Allowed op → Inv s → Inv (M.step s op).2)
    (hops : ∀ op ∈ ops, Allowed op) (hs : Inv s) : ∀ event ∈ M.trace s ops, Ok event.1 event.2 := by
  induction ops generalizing s with
  | nil => simp [trace]
  | cons op ops ih =>
    obtain ⟨hop, hrest⟩ := List.forall_mem_cons.mp hops
    exact List.forall_mem_cons.mpr ⟨hok s op hop hs, ih hrest (hkeep s op hop hs)⟩

theorem steps_iff_of_invariant
    {Ok' : State → Op → Prop} (hsame : ∀ s op, Allowed op → Inv s → (Ok s op ↔ Ok' s op))
    (hkeep : ∀ s op, Allowed op → Inv s → Ok' s op → Inv (M.step s op).2)
    (hops : ∀ op ∈ ops, Allowed op) (hs : Inv s) : M.Steps Ok s ops ↔ M.Steps Ok' s ops := by
  induction ops generalizing s with
  | nil => exact Iff.rfl
  | cons op ops ih =>
    obtain ⟨hop, hrest⟩ := List.forall_mem_cons.mp hops
    rw [Steps, Steps, hsame s op hop hs]
    constructor
    · rintro ⟨hok, hsteps⟩
      exact ⟨hok, (ih hrest (hkeep s op hop hs hok)).mp hsteps⟩
    · rintro ⟨hok, hsteps⟩
      exact ⟨hok, (ih hrest (hkeep s op hop hs hok)).mpr hsteps⟩

theorem always_iff_of_invariant (Good : State → Prop) (hinv : ∀ s op, Inv s → Inv (M.step s op).2)
    (hstep : ∀ s op, Inv s → Good s → (Good (M.step s op).2 ↔ Ok s op))
    (hs : Inv s) (hgood : Good s) (ops : List Op) : M.Always Good s ops ↔ M.Steps Ok s ops := by
  rw [always_iff_steps, and_iff_right hgood]
  apply M.steps_iff_of_invariant (fun s => Inv s ∧ Good s) (fun _ => True) _ _
    (fun _ _ => trivial) ⟨hs, hgood⟩
  · rintro s op - ⟨hinv', hgood'⟩
    exact hstep s op hinv' hgood'
  · rintro s op - ⟨hinv', hgood'⟩ hok
    exact ⟨hinv s op hinv', (hstep s op hinv' hgood').mpr hok⟩

end Machine
