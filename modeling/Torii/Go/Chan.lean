import Mathlib.Data.List.Pairwise

/-!
# Go channels

A send on a closed channel panics, and so does closing it again. The operations here go on as if
nothing had happened; whether a program keeps clear of it is read off the list of its operations
(`Disciplined`).
-/

namespace Go

structure Chan (α : Type*) where
  capacity : Nat
  buffer : List α := []
  closed : Bool := false

namespace Chan

variable {α : Type*}

/-- A send in a select with a `default` case, and whether it is carried out. On a closed channel
it is, and panics. -/
def trySend (c : Chan α) (x : α) : Bool × Chan α :=
  if c.closed then (true, c)
  else if c.buffer.length < c.capacity then (true, { c with buffer := c.buffer ++ [x] })
  else (false, c)

def receive (c : Chan α) : Chan α := { c with buffer := c.buffer.tail }

def close (c : Chan α) : Chan α := { c with closed := true }

@[simp] theorem closed_trySend (c : Chan α) (x : α) : (c.trySend x).2.closed = c.closed := by
  rw [trySend]
  split
  · rfl
  · split <;> rfl

end Chan

inductive ChanOp (ι : Type*) where
  | send (c : ι)
  | close (c : ι)
deriving DecidableEq

def ChanOp.chan {ι : Type*} : ChanOp ι → ι
  | .send c => c
  | .close c => c

/-- No operation on a channel comes after a close of it: a channel is closed once at most, and
nothing is sent on it afterwards. -/
def Disciplined {ι : Type*} (log : List (ChanOp ι)) : Prop :=
  log.Pairwise fun earlier later => earlier ≠ .close later.chan

section

variable {ι : Type*} {log : List (ChanOp ι)}

instance [DecidableEq ι] : Decidable (Disciplined log) :=
  inferInstanceAs (Decidable (log.Pairwise _))

theorem disciplined_nil : Disciplined ([] : List (ChanOp ι)) := List.Pairwise.nil

theorem Disciplined.append (h : Disciplined log) {ops : List (ChanOp ι)} (hops : Disciplined ops)
    (hopen : ∀ op ∈ ops, ChanOp.close op.chan ∉ log) : Disciplined (log ++ ops) := by
  refine List.pairwise_append.mpr ⟨h, hops, ?_⟩
  rintro earlier hearlier later hlater rfl
  exact hopen later hlater hearlier

theorem Disciplined.concat (h : Disciplined log) {op : ChanOp ι}
    (hopen : ChanOp.close op.chan ∉ log) : Disciplined (log ++ [op]) :=
  h.append (List.pairwise_singleton _ op) (by simpa using hopen)

theorem disciplined_map_close {cs : List ι} (h : cs.Nodup) :
    Disciplined (cs.map ChanOp.close) :=
  List.pairwise_map.mpr (h.imp fun hne heq => hne (ChanOp.close.inj heq))

end

end Go
