import Torii.Lib.Threads

/-!
# Programs with atomic operations, and a lock

A program calls atomic operations on a state and goes on with their results. What an operation does
may depend on an input from outside. A server runs one program for each request, all of them under
one lock, and the steps of different requests interleave in any way. By `Server.guarded` it is
enough to prove a contract of a program that runs alone.
-/

/-- Programs over operations with results of the types `Res`. -/
inductive Program {Op : Type} (Res : Op → Type) (α : Type) where
  | done (a : α)
  | call (op : Op) (next : Res op → Program Res α)

namespace Program

variable {Op State Input α β : Type} {Res : Op → Type}

/-- Run one program and go on with its result. -/
def bind (f : α → Program Res β) : Program Res α → Program Res β
  | .done a => f a
  | .call op next => .call op fun r => bind f (next r)

instance : Monad (Program Res) where
  pure := .done
  bind m f := m.bind f

def perform (op : Op) : Program Res (Res op) := .call op .done

/-- The result of a program that nobody interrupts, with one input for each operation. -/
def run (exec : (op : Op) → State → Input → Res op × State) :
    Program Res α → State → (Nat → Input) → α × State
  | .done a, s, _ => (a, s)
  | .call op next, s, input =>
    run exec (next (exec op s (input 0)).1) (exec op s (input 0)).2 fun n => input (n + 1)

/-- The weakest precondition, for inputs that are allowed. -/
def wp (exec : (op : Op) → State → Input → Res op × State) (Ok : State → Op → Input → Prop) :
    Program Res α → (α → State → Prop) → State → Prop
  | .done a, Q, s => Q a s
  | .call op next, Q, s =>
    ∀ input, Ok s op input → (next (exec op s input).1).wp exec Ok Q (exec op s input).2

section

variable {exec : (op : Op) → State → Input → Res op × State} {Ok : State → Op → Input → Prop}
  {s : State} {Q : α → State → Prop} {m : Program Res α}

@[simp] theorem wp_pure {a : α} :
    (pure a : Program Res α).wp exec Ok Q s ↔ Q a s := Iff.rfl

@[simp] theorem wp_bind {f : α → Program Res β} {Q : β → State → Prop} :
    (m >>= f).wp exec Ok Q s ↔ m.wp exec Ok (fun a s' => (f a).wp exec Ok Q s') s := by
  change (m.bind f).wp exec Ok Q s ↔ _
  induction m generalizing s with
  | done a => exact Iff.rfl
  | call op next ih =>
    constructor
    · intro h input hok
      exact (ih _).mp (h input hok)
    · intro h input hok
      exact (ih _).mpr (h input hok)

theorem wp_mono {Q' : α → State → Prop} (h : m.wp exec Ok Q s) (hQ : ∀ a s', Q a s' → Q' a s') :
    m.wp exec Ok Q' s := by
  induction m generalizing s with
  | done a => exact hQ a s h
  | call op next ih => exact fun input hok => ih _ (h input hok)

end

end Program

/-- A server. A request is answered at once, or a program is run for it under the lock. -/
structure Server {Op : Type} (Res : Op → Type) (State Input Req α : Type) where
  exec : (op : Op) → State → Input → Res op × State
  request : Input → Req
  handle : Req → Except α (Program Res α)

namespace Server

variable {Op State Input Req α : Type} {Res : Op → Type}

structure Guarded (State : Type) where
  locked : Bool
  state : State

inductive Stage (Res : Op → Type) (Req α : Type) where
  | arriving
  | waiting (r : Req) (body : Program Res α)
  | inside (r : Req) (rest : Program Res α)
  | answered

/-- The requests of a server as threads. A step gives out the answers made in it. -/
def threads (S : Server Res State Input Req α) :
    Threads (Guarded State) (Stage Res Req α) Empty Input (List (Req × α)) where
  event s _ := s
  step
    | s, .arriving, input =>
      match S.handle (S.request input) with
      | .error a => ([(S.request input, a)], s, .answered)
      | .ok body => ([], s, .waiting (S.request input) body)
    | s, .waiting r body, _ =>
      -- a thread that finds the lock taken tries again
      if s.locked then ([], s, .waiting r body)
      else ([], { s with locked := true }, .inside r body)
    | s, .inside r (.done a), _ => ([(r, a)], { s with locked := false }, .answered)
    | s, .inside r (.call op next), input =>
      ([], { s with state := (S.exec op s.state input).2 },
        .inside r (next (S.exec op s.state input).1))
    | s, .answered, _ => ([], s, .answered)

abbrev Requests (_ : Server Res State Input Req α) :=
  Threads.Pool (Guarded State) (Stage Res Req α)

abbrev machine (S : Server Res State Input Req α) := S.threads.machine

/-- The lock is free and no request has arrived. -/
def start (S : Server Res State Input Req α) (s : State) : S.Requests :=
  ⟨⟨false, s⟩, fun _ => .arriving⟩

def answers (S : Server Res State Input Req α) (s : S.Requests)
    (ops : List (Threads.Action Empty Input)) : List (Req × α) :=
  S.machine.collect (fun s op => (S.machine.step s op).1.getD []) s ops

/-- The operation that a request does next. -/
def Stage.operation : Stage Res Req α → Option Op
  | .inside _ (.call op _) => some op
  | _ => none

/-- A step is allowed when the operation that it does is. -/
def Allowed (S : Server Res State Input Req α) (Ok : State → Op → Input → Prop) (s : S.Requests) :
    Threads.Action Empty Input → Prop
  | .event _ => True
  | .step i input => ∀ op ∈ (s.locals i).operation, Ok s.shared.state op input

instance decidableAllowed (S : Server Res State Input Req α) (Ok : State → Op → Input → Prop)
    [∀ s op input, Decidable (Ok s op input)] (s : S.Requests) :
    (op : Threads.Action Empty Input) → Decidable (S.Allowed Ok s op)
  | .event _ => .isTrue trivial
  | .step i _ => inferInstanceAs (Decidable (∀ op ∈ (s.locals i).operation, _))

section

variable {S : Server Res State Input Req α} {Ok : State → Op → Input → Prop}
  {I : List (Req × α) → State → Prop}

def Stage.isInside : Stage Res Req α → Bool
  | .inside .. => true
  | _ => false

/-- What holds between the steps: the relation when the lock is free, and otherwise the
precondition of what is left to do for the request that has the lock. -/
structure Holds (S : Server Res State Input Req α) (Ok : State → Op → Input → Prop)
    (I : List (Req × α) → State → Prop) (seen : List (Req × α)) (s : S.Requests) : Prop where
  earlier : ∃ before, I seen before
  handled : ∀ i r body, s.locals i = .waiting r body → S.handle r = .ok body
  free : s.shared.locked = false → I seen s.shared.state ∧ ∀ i, (s.locals i).isInside = false
  unique : ∀ i j, (s.locals i).isInside = true → (s.locals j).isInside = true → i = j
  held : ∀ i r rest, s.locals i = .inside r rest →
    rest.wp S.exec Ok (fun a s' => I (seen ++ [(r, a)]) s') s.shared.state

theorem holds_start {s : State} (h : I [] s) : Holds S Ok I [] (S.start s) where
  earlier := ⟨s, h⟩
  handled _ _ _ hi := nomatch hi
  free _ := ⟨h, fun _ => rfl⟩
  unique _ _ hi := nomatch hi
  held _ _ _ hi := nomatch hi

section

variable {seen : List (Req × α)} {s : S.Requests} {i : Nat}
  {l : Stage Res Req α} {r : Req} {body : Program Res α}

theorem Holds.handled_update (h : Holds S Ok I seen s)
    (hl : ∀ r body, l = .waiting r body → S.handle r = .ok body) (j : Nat) (r : Req)
    (body : Program Res α) (hj : Function.update s.locals i l j = .waiting r body) :
    S.handle r = .ok body := by
  by_cases hne : j = i
  · rw [hne, Function.update_self] at hj
    exact hl r body hj
  · rw [Function.update_of_ne hne] at hj
    exact h.handled j r body hj

theorem Holds.outside (h : Holds S Ok I seen s) {out : List (Req × α)}
    (hI : ∀ tail s', I (seen ++ tail) s' → I (seen ++ out ++ tail) s')
    (hi : (s.locals i).isInside = false) (hl : l.isInside = false)
    (hhandled : ∀ r body, l = .waiting r body → S.handle r = .ok body) :
    Holds S Ok I (seen ++ out) ⟨s.shared, Function.update s.locals i l⟩ := by
  have hother : ∀ j, (Function.update s.locals i l j).isInside = true →
      Function.update s.locals i l j = s.locals j := by
    intro j hj
    apply Function.update_of_ne
    rintro rfl
    rw [Function.update_self, hl] at hj
    exact Bool.noConfusion hj
  have hkeep : ∀ s', I seen s' → I (seen ++ out) s' := by
    intro s' hs'
    simpa using hI [] s' (by simpa using hs')
  constructor
  · exact h.earlier.imp hkeep
  · exact h.handled_update hhandled
  · intro hfree
    refine ⟨hkeep _ (h.free hfree).1, ?_⟩
    exact (Function.forall_update_iff _ fun j l' => Stage.isInside l' = false).mpr
      ⟨hl, fun j _ => (h.free hfree).2 j⟩
  · intro j k hj hk
    have hj' := hother j hj
    have hk' := hother k hk
    exact h.unique j k (hj' ▸ hj) (hk' ▸ hk)
  · intro j r rest hj
    have hj' := hother j (congrArg Stage.isInside hj)
    apply Program.wp_mono (h.held j r rest (hj' ▸ hj))
    exact fun a s' hs' => hI [(r, a)] s' hs'

theorem Holds.outside_of_ne (h : Holds S Ok I seen s) (hi : (s.locals i).isInside = true)
    {j : Nat} (hne : j ≠ i) : (s.locals j).isInside = false := by
  by_contra hj
  exact hne (h.unique j i (by simpa using hj) hi)

theorem Holds.alone (h : Holds S Ok I seen s) {shared : Guarded State}
    (hlocked : shared.locked = true) (hother : ∀ j, j ≠ i → (s.locals j).isInside = false)
    (hbody : body.wp S.exec Ok (fun a s' => I (seen ++ [(r, a)]) s') shared.state) :
    Holds S Ok I seen ⟨shared, Function.update s.locals i (.inside r body)⟩ := by
  have honly : ∀ j, (Function.update s.locals i (.inside r body) j).isInside = true → j = i := by
    intro j hj
    by_contra hne
    rw [Function.update_of_ne hne, hother j hne] at hj
    exact Bool.noConfusion hj
  constructor
  · exact h.earlier
  · exact h.handled_update fun _ _ hl => nomatch hl
  · exact fun hfree => absurd hfree (by simp [hlocked])
  · exact fun j k hj hk => (honly j hj).trans (honly k hk).symm
  · intro j r' rest hj
    obtain rfl := honly j (congrArg Stage.isInside hj)
    simp only [Function.update_self, Stage.inside.injEq] at hj
    obtain ⟨rfl, rfl⟩ := hj
    exact hbody

theorem Holds.enter (h : Holds S Ok I seen s)
    (hbody : I seen s.shared.state →
      body.wp S.exec Ok (fun a s' => I (seen ++ [(r, a)]) s') s.shared.state)
    (hfree : s.shared.locked = false) :
    Holds S Ok I seen
      ⟨{ s.shared with locked := true }, Function.update s.locals i (.inside r body)⟩ := by
  obtain ⟨hseen, hnone⟩ := h.free hfree
  exact h.alone rfl (fun j _ => hnone j) (hbody hseen)

theorem Holds.leave (h : Holds S Ok I seen s) {a : α} (hi : s.locals i = .inside r (.done a)) :
    Holds S Ok I (seen ++ [(r, a)])
      ⟨{ s.shared with locked := false }, Function.update s.locals i .answered⟩ := by
  have hdone : I (seen ++ [(r, a)]) s.shared.state := h.held i r _ hi
  have hnone : ∀ j, (Function.update s.locals i .answered j).isInside = false := by
    intro j
    by_cases hne : j = i
    · rw [hne, Function.update_self]
      rfl
    · rw [Function.update_of_ne hne]
      exact h.outside_of_ne (by rw [hi]; rfl) hne
  constructor
  · exact ⟨_, hdone⟩
  · exact h.handled_update fun _ _ hl => nomatch hl
  · exact fun _ => ⟨hdone, hnone⟩
  · exact fun j k hj => absurd hj (by rw [hnone j]; exact Bool.false_ne_true)
  · intro j r' rest hj
    exact Bool.noConfusion ((hnone j).symm.trans (congrArg Stage.isInside hj))

theorem Holds.operate (h : Holds S Ok I seen s) {op : Op} {next : Res op → Program Res α}
    (hi : s.locals i = .inside r (.call op next)) {input : Input}
    (hok : Ok s.shared.state op input) :
    Holds S Ok I seen
      ⟨{ s.shared with state := (S.exec op s.shared.state input).2 },
        Function.update s.locals i (.inside r (next (S.exec op s.shared.state input).1))⟩ := by
  have hinside : (s.locals i).isInside = true := by
    rw [hi]
    rfl
  have hlocked : s.shared.locked = true := by
    by_contra hfree
    rw [(h.free (by simpa using hfree)).2 i] at hinside
    exact Bool.noConfusion hinside
  refine h.alone ?_ (fun j hne => h.outside_of_ne hinside hne) ?_
  · exact hlocked
  · exact h.held i r _ hi input hok

theorem Holds.step (h : Holds S Ok I seen s)
    (hrefused : ∀ seen tail r a s, S.handle r = .error a → I (seen ++ tail) s →
      I (seen ++ [(r, a)] ++ tail) s)
    (hbody : ∀ seen r body s, S.handle r = .ok body → I seen s →
      body.wp S.exec Ok (fun a s' => I (seen ++ [(r, a)]) s') s)
    {op : Threads.Action Empty Input} (hop : S.Allowed Ok s op) :
    Holds S Ok I (seen ++ (S.machine.step s op).1.getD [])
      (S.machine.step s op).2 := by
  cases op with
  | event e => exact nomatch e
  | step i input =>
    simp only [Allowed] at hop
    cases hi : s.locals i with
    | arriving =>
      cases hhandle : S.handle (S.request input) with
      | error a =>
        simp only [machine, Threads.machine, threads, hi, hhandle]
        refine h.outside ?_ (by rw [hi]; rfl) rfl ?_
        · exact fun tail s' => hrefused seen tail _ a s' hhandle
        · exact fun _ _ hl => nomatch hl
      | ok body =>
        simp only [machine, Threads.machine, threads, hi, hhandle]
        apply h.outside (by simp) (by rw [hi]; rfl) rfl
        rintro r body' ⟨⟩
        exact hhandle
    | waiting r body =>
      cases hlocked : s.shared.locked with
      | true =>
        simp only [machine, Threads.machine, threads, hi, hlocked, if_true]
        apply h.outside (by simp) (by rw [hi]; rfl) rfl
        rintro r' body' ⟨⟩
        exact h.handled i r body hi
      | false =>
        simp only [machine, Threads.machine, threads, hi, hlocked, Bool.false_eq_true,
          if_false, Option.getD_some, List.append_nil]
        exact h.enter (hbody seen r body _ (h.handled i r body hi)) hlocked
    | inside r rest =>
      cases rest with
      | done a =>
        simp only [machine, Threads.machine, threads, hi]
        exact h.leave hi
      | call op next =>
        simp only [machine, Threads.machine, threads, hi, Option.getD_some, List.append_nil]
        exact h.operate hi (hop op (by rw [hi]; rfl))
    | answered =>
      simp only [machine, Threads.machine, threads, hi]
      exact h.outside (by simp) (by rw [hi]; rfl) rfl (fun _ _ hl => nomatch hl)

end

theorem guarded (I : List (Req × α) → State → Prop)
    (hrefused : ∀ seen tail r a s, S.handle r = .error a → I (seen ++ tail) s →
      I (seen ++ [(r, a)] ++ tail) s)
    (hbody : ∀ seen r body s, S.handle r = .ok body → I seen s →
      body.wp S.exec Ok (fun a s' => I (seen ++ [(r, a)]) s') s)
    {s : State} (hs : I [] s) {ops : List (Threads.Action Empty Input)}
    (hops : S.machine.Steps (S.Allowed Ok) (S.start s) ops) :
    (∃ before, I (S.answers (S.start s) ops) before) ∧
      ((S.machine.run (S.start s) ops).shared.locked = false →
        I (S.answers (S.start s) ops) (S.machine.run (S.start s) ops).shared.state) := by
  have h : Holds S Ok I (S.answers (S.start s) ops) (S.machine.run (S.start s) ops) :=
    Machine.collect_of_steps _ (Holds S Ok I)
      (fun _ _ _ hop h => h.step hrefused hbody hop) hops (holds_start hs)
  exact ⟨h.earlier, fun hfree => (h.free hfree).1⟩

end

end Server
