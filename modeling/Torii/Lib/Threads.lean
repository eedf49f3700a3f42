import Torii.Lib.Machine

/-!
# Threads with atomic steps

Threads run one program over a shared memory. A step of a thread reads and writes the shared memory
and the local state of that thread. Between two steps come steps of other threads, and events from
outside that change the shared memory only. A thread that has ended is modelled by steps that do
nothing.
-/

/-- A program for threads: its atomic steps, and the events from outside. -/
structure Threads (Shared Local Event Input Out : Type*) where
  event : Shared → Event → Shared
  step : Shared → Local → Input → Out × Shared × Local

namespace Threads

variable {Shared Local Event Input Out : Type*}

structure Pool (Shared Local : Type*) where
  shared : Shared
  locals : Nat → Local

inductive Action (Event Input : Type*) where
  | event (e : Event)
  | step (i : Nat) (input : Input)

def machine (P : Threads Shared Local Event Input Out) :
    Machine (Pool Shared Local) (Action Event Input) (Option Out) where
  step s
    | .event e => (none, { s with shared := P.event s.shared e })
    | .step i input =>
      let next := P.step s.shared (s.locals i) input
      (some next.1, ⟨next.2.1, Function.update s.locals i next.2.2⟩)

section

variable (P : Threads Shared Local Event Input Out) (s : Pool Shared Local)

@[simp] theorem machine_event (e : Event) :
    P.machine.step s (.event e) = (none, { s with shared := P.event s.shared e }) := rfl

@[simp] theorem locals_step_self (i : Nat) (input : Input) :
    (P.machine.step s (.step i input)).2.locals i = (P.step s.shared (s.locals i) input).2.2 :=
  Function.update_self ..

theorem locals_step_of_ne {i j : Nat} (h : j ≠ i) (input : Input) :
    (P.machine.step s (.step i input)).2.locals j = s.locals j :=
  Function.update_of_ne h ..

theorem update_cases {locals : Nat → Local} {i k : Nat} {a b : Local}
    (h : Function.update locals i a k = b) : k = i ∧ a = b ∨ k ≠ i ∧ locals k = b := by
  by_cases hk : k = i
  · subst hk
    exact .inl ⟨rfl, by simpa using h⟩
  · exact .inr ⟨hk, by simpa [hk] using h⟩

end

end Threads
