import Mathlib.Algebra.BigOperators.Fin

/-!
# Two queues with workers between them

A sender takes an item from a bounded queue, turns it into a list of jobs and puts these one by one
into a second one. A runner takes a job and works on it. When a sender looks up the jobs of an item
is up to the schedule, and the answer may change with time. The weight of all that is under way
(`load`) grows by what is accepted and shrinks by what the runners start, and by nothing else.
-/

inductive Sender (Item Job : Type*) where
  | idle
  | holding (x : Item)
  | sending (jobs : List Job)
deriving DecidableEq

def Sender.load {Item Job : Type*} (due : Item → Nat) (weight : Job → Nat) :
    Sender Item Job → Nat
  | .idle => 0
  | .holding x => due x
  | .sending jobs => (jobs.map weight).sum

namespace Sender

variable {Item Job : Type*} (due : Item → Nat) (weight : Job → Nat)

@[simp] theorem load_idle : (idle : Sender Item Job).load due weight = 0 := rfl

@[simp] theorem load_holding (x : Item) :
    (holding x : Sender Item Job).load due weight = due x := rfl

@[simp] theorem load_sending (jobs : List Job) :
    (sending jobs : Sender Item Job).load due weight = (jobs.map weight).sum := rfl

end Sender

/-- The two queues, with `k` senders and `k` runners. -/
structure Pipeline (Item Job : Type*) (k : Nat) where
  inbox : List Item
  outbox : List Job
  senders : Fin k → Sender Item Job
  runners : Fin k → Option Job

namespace Pipeline

variable {Item Job : Type*} {k : Nat}

def empty : Pipeline Item Job k := ⟨[], [], fun _ => .idle, fun _ => none⟩

/-- Put an item into the first queue, unless it is full. -/
def accept (capacity : Nat) (x : Item) (p : Pipeline Item Job k) : Option (Pipeline Item Job k) :=
  if p.inbox.length < capacity then some { p with inbox := p.inbox ++ [x] } else none

/-- The next step of a sender. It waits while there is no item, or no room for a job. -/
def senderStep (capacity : Nat) (expand : Item → List Job) (i : Fin k)
    (p : Pipeline Item Job k) : Pipeline Item Job k :=
  match p.senders i with
  | .idle =>
    match p.inbox with
    | [] => p
    | x :: inbox => { p with inbox := inbox, senders := Function.update p.senders i (.holding x) }
  | .holding x => { p with senders := Function.update p.senders i (.sending (expand x)) }
  | .sending [] => { p with senders := Function.update p.senders i .idle }
  | .sending (job :: jobs) =>
    if p.outbox.length < capacity then
      { p with
        outbox := p.outbox ++ [job]
        senders := Function.update p.senders i (.sending jobs) }
    else p

def runnerStep (i : Fin k) (p : Pipeline Item Job k) : Option Job × Pipeline Item Job k :=
  match p.runners i with
  | none =>
    match p.outbox with
    | [] => (none, p)
    | job :: outbox =>
      (some job, { p with outbox := outbox, runners := Function.update p.runners i (some job) })
  | some _ => (none, { p with runners := Function.update p.runners i none })

theorem runners_senderStep (capacity : Nat) (expand : Item → List Job) (i : Fin k)
    (p : Pipeline Item Job k) : (p.senderStep capacity expand i).runners = p.runners := by
  rw [senderStep]
  grind

theorem senders_runnerStep (i : Fin k) (p : Pipeline Item Job k) :
    (p.runnerStep i).2.senders = p.senders := by
  rw [runnerStep]
  split
  · split <;> rfl
  · rfl

structure Quiet (p : Pipeline Item Job k) : Prop where
  inbox : p.inbox = []
  outbox : p.outbox = []
  senders : ∀ i, p.senders i = .idle
  runners : ∀ i, p.runners i = none

/-! ## Conservation -/

section

variable {due : Item → Nat} {weight : Job → Nat}

/-- The weight of all that is under way and not yet with a runner. -/
def load (due : Item → Nat) (weight : Job → Nat) (p : Pipeline Item Job k) : Nat :=
  (p.inbox.map due).sum + ∑ i, (p.senders i).load due weight + (p.outbox.map weight).sum

theorem sum_update {α : Type*} (workers : Fin k → α) (g : α → Nat) (i : Fin k) (a : α) :
    ∑ j, g (Function.update workers i a j) + g (workers i) = ∑ j, g (workers j) + g a := by
  have hupdate : (fun j => g (Function.update workers i a j)) =
      Function.update (g ∘ workers) i (g a) := Function.comp_update g workers i a
  have hrest := Finset.sum_eq_add_sum_sdiff_singleton_of_mem (Finset.mem_univ i) (g ∘ workers)
  simp only [Function.comp_apply] at hrest
  rw [hupdate, Finset.sum_update_of_mem (Finset.mem_univ i), hrest]
  simp only [Function.comp_apply]
  omega

theorem load_accept {capacity : Nat} {x : Item} {p p' : Pipeline Item Job k}
    (h : p.accept capacity x = some p') : p'.load due weight = p.load due weight + due x := by
  rw [accept] at h
  split at h
  · cases h
    simp only [load, List.map_append, List.sum_append, List.map_cons, List.map_nil, List.sum_cons,
      List.sum_nil]
    omega
  · cases h

theorem load_senderStep {capacity : Nat} {expand : Item → List Job}
    (hexpand : ∀ x, ((expand x).map weight).sum = due x) (i : Fin k) (p : Pipeline Item Job k) :
    (p.senderStep capacity expand i).load due weight = p.load due weight := by
  have hsum := sum_update p.senders (Sender.load due weight) i
  cases hi : p.senders i with
  | idle =>
    cases hinbox : p.inbox with
    | nil => simp only [senderStep, hi, hinbox]
    | cons x inbox =>
      have := hsum (.holding x)
      simp only [hi, Sender.load_idle, Sender.load_holding] at this
      simp only [senderStep, hi, hinbox, load, List.map_cons, List.sum_cons]
      omega
  | holding x =>
    have := hsum (.sending (expand x))
    simp only [hi, Sender.load_holding, Sender.load_sending, hexpand] at this
    simp only [senderStep, hi, load]
    omega
  | sending jobs =>
    cases jobs with
    | nil =>
      have := hsum .idle
      simp only [hi, Sender.load_idle, Sender.load_sending, List.map_nil, List.sum_nil] at this
      simp only [senderStep, hi, load]
      omega
    | cons job jobs =>
      simp only [senderStep, hi]
      split
      · have := hsum (.sending jobs)
        simp only [hi, Sender.load_sending, List.map_cons, List.sum_cons] at this
        simp only [load, List.map_append, List.sum_append, List.map_cons, List.map_nil,
          List.sum_cons, List.sum_nil]
        omega
      · rfl

theorem load_runnerStep (i : Fin k) (p : Pipeline Item Job k) :
    ((p.runnerStep i).1.toList.map weight).sum + (p.runnerStep i).2.load due weight =
      p.load due weight := by
  rw [runnerStep]
  split
  · split
    · simp
    · next houtbox =>
      simp only [load, houtbox, Option.toList_some, List.map_cons, List.map_nil, List.sum_cons,
        List.sum_nil]
      omega
  · simp [load]

theorem load_of_quiet {p : Pipeline Item Job k} (h : p.Quiet) : p.load due weight = 0 := by
  simp [load, h.inbox, h.outbox, h.senders]

end

/-! ## Properties of what is under way -/

/-- Every item under way has one property, and every job another. -/
structure All (R : Item → Prop) (Q : Job → Prop) (p : Pipeline Item Job k) : Prop where
  inbox : ∀ x ∈ p.inbox, R x
  holding : ∀ i x, p.senders i = .holding x → R x
  sending : ∀ i jobs, p.senders i = .sending jobs → ∀ job ∈ jobs, Q job
  outbox : ∀ job ∈ p.outbox, Q job

section

variable {R R' : Item → Prop} {Q Q' : Job → Prop} {p : Pipeline Item Job k}

theorem all_empty : (empty : Pipeline Item Job k).All R Q where
  inbox _ hx := absurd hx List.not_mem_nil
  holding _ _ hi := nomatch hi
  sending _ _ hi := nomatch hi
  outbox _ hjob := absurd hjob List.not_mem_nil

theorem All.mono (h : p.All R Q) (hR : ∀ x, R x → R' x) (hQ : ∀ job, Q job → Q' job) :
    p.All R' Q' where
  inbox x hx := hR x (h.inbox x hx)
  holding i x hi := hR x (h.holding i x hi)
  sending i jobs hi job hjob := hQ job (h.sending i jobs hi job hjob)
  outbox job hjob := hQ job (h.outbox job hjob)

theorem All.accept (h : p.All R Q) {capacity : Nat} {x : Item} (hx : R x)
    {p' : Pipeline Item Job k} (hp' : p.accept capacity x = some p') : p'.All R Q := by
  rw [Pipeline.accept] at hp'
  split at hp'
  · cases hp'
    refine ⟨?_, h.holding, h.sending, h.outbox⟩
    simpa [or_imp, forall_and] using ⟨h.inbox, hx⟩
  · cases hp'

theorem All.update (h : p.All R Q) {inbox : List Item} {outbox : List Job} (i : Fin k)
    {sender : Sender Item Job} (hinbox : ∀ x ∈ inbox, R x) (houtbox : ∀ job ∈ outbox, Q job)
    (hholding : ∀ x, sender = .holding x → R x)
    (hsending : ∀ jobs, sender = .sending jobs → ∀ job ∈ jobs, Q job) :
    All R Q { p with
      inbox := inbox, outbox := outbox, senders := Function.update p.senders i sender } := by
  refine ⟨hinbox, ?_, ?_, houtbox⟩
  · intro j x hj
    simp only [Function.update_apply] at hj
    split at hj
    · exact hholding x hj
    · exact h.holding j x hj
  · intro j jobs hj
    simp only [Function.update_apply] at hj
    split at hj
    · exact hsending jobs hj
    · exact h.sending j jobs hj

theorem All.senderStep (h : p.All R Q) {capacity : Nat} {expand : Item → List Job}
    (hexpand : ∀ x, R x → ∀ job ∈ expand x, Q job) (i : Fin k) :
    (p.senderStep capacity expand i).All R Q := by
  cases hi : p.senders i with
  | idle =>
    cases hinbox : p.inbox with
    | nil => simpa only [Pipeline.senderStep, hi, hinbox] using h
    | cons x inbox =>
      have hall := h.inbox
      rw [hinbox, List.forall_mem_cons] at hall
      simp only [Pipeline.senderStep, hi, hinbox]
      refine h.update i hall.2 h.outbox ?_ (fun _ hs => nomatch hs)
      rintro x' ⟨⟩
      exact hall.1
  | holding x =>
    simp only [Pipeline.senderStep, hi]
    refine h.update i h.inbox h.outbox (fun _ hs => nomatch hs) ?_
    rintro jobs ⟨⟩
    exact hexpand x (h.holding i x hi)
  | sending jobs =>
    have hall := h.sending i jobs hi
    cases jobs with
    | nil =>
      simp only [Pipeline.senderStep, hi]
      exact h.update i h.inbox h.outbox (fun _ hs => nomatch hs) (fun _ hs => nomatch hs)
    | cons =>
      rw [List.forall_mem_cons] at hall
      simp only [Pipeline.senderStep, hi]
      split
      · refine h.update i h.inbox ?_ (fun _ hs => nomatch hs) ?_
        · simpa [or_imp, forall_and] using ⟨h.outbox, hall.1⟩
        · rintro jobs' ⟨⟩
          exact hall.2
      · exact h

theorem All.runnerStep (h : p.All R Q) (i : Fin k) :
    (∀ job, (p.runnerStep i).1 = some job → Q job) ∧ (p.runnerStep i).2.All R Q := by
  rw [Pipeline.runnerStep]
  split
  · split
    · exact ⟨fun _ hjob => absurd hjob (by simp), h⟩
    · next job outbox houtbox =>
      have hall := h.outbox
      rw [houtbox, List.forall_mem_cons] at hall
      refine ⟨?_, ⟨h.inbox, h.holding, h.sending, hall.2⟩⟩
      rintro job' ⟨⟩
      exact hall.1
  · exact ⟨fun _ hjob => absurd hjob (by simp), ⟨h.inbox, h.holding, h.sending, h.outbox⟩⟩

theorem load_eq_zero {due : Item → Nat} {weight : Job → Nat}
    (h : p.All (due · = 0) (weight · = 0)) : p.load due weight = 0 := by
  have hsender : ∀ i, (p.senders i).load due weight = 0 := by
    intro i
    cases hi : p.senders i with
    | idle => rfl
    | holding x => exact h.holding i x hi
    | sending jobs => exact List.sum_eq_zero (by simpa using h.sending i jobs hi)
  simp only [load, hsender, Finset.sum_const_zero, Nat.add_zero, Nat.add_eq_zero_iff]
  exact ⟨List.sum_eq_zero (by simpa using h.inbox), List.sum_eq_zero (by simpa using h.outbox)⟩

end

end Pipeline
