import Torii.Lib.Machine

/-!
# The response writer of `net/http`

An informational header, one with a code from 100 to 199 other than 101, leaves the response open.
The first other header commits the status, and so does the first `Write` or `Flush`, and the return
of the handler, with status 200. A header with a code outside 100 to 999 panics, and the client gets
no response.
-/

namespace Go.Http

/-- A call of a handler on its response writer. A `Write` whose connection breaks carries
the number of bytes that still went out. -/
inductive WriterCall where
  | writeHeader (code : Int)
  | write (b : List UInt8) (fault : Option Nat)
  | flush
deriving DecidableEq

/-- What `Write` returns; the other calls return nothing. -/
structure WriterAnswer where
  n : Nat := 0
  err : Bool := false

/-- The response of one request, with the length that its header declares. -/
structure Response where
  contentLength : Option Nat := none
  wroteHeader : Bool := false
  status : Int := 0
  written : Nat := 0
  body : List UInt8 := []
  panicked : Bool := false

def isInformational (code : Int) : Bool := 100 ≤ code && code ≤ 199 && code != 101

def bodyAllowedForStatus (status : Int) : Bool :=
  ! (100 ≤ status && status ≤ 199) && status != 204 && status != 304

namespace Response

def settled (w : Response) : Bool := w.wroteHeader || w.panicked

def writeHeader (w : Response) (code : Int) : Response :=
  if w.settled then w
  else if code < 100 ∨ 999 < code then { w with panicked := true }
  else if isInformational code then w
  else { w with wroteHeader := true, status := code }

def flush (w : Response) : Response := w.writeHeader 200

/-- The part of `Write` after the header. -/
def transmit (w : Response) (b : List UInt8) (fault : Option Nat) : WriterAnswer × Response :=
  if w.panicked then ({ err := true }, w)
  else if b.length = 0 then ({}, w)
  else if ! bodyAllowedForStatus w.status then ({ err := true }, w)
  else
    let w := { w with written := w.written + b.length }
    if w.contentLength.any (· < w.written) then ({ err := true }, w)
    else
      let sent := b.take (fault.getD b.length)
      ({ n := sent.length, err := fault.isSome }, { w with body := w.body ++ sent })

def write (w : Response) (b : List UInt8) (fault : Option Nat) : WriterAnswer × Response :=
  w.flush.transmit b fault

/-- The final status and the body that the client gets, if it gets a response. -/
def delivered (w : Response) : Option (Int × List UInt8) :=
  if w.panicked then none else some (w.flush.status, w.flush.body)

def writer : Machine Response WriterCall WriterAnswer where
  step w
    | .writeHeader code => ({}, w.writeHeader code)
    | .write b fault => w.write b fault
    | .flush => ({}, w.flush)

variable {w : Response}

theorem writeHeader_of_settled (h : w.settled = true) (code : Int) : w.writeHeader code = w := by
  rw [writeHeader, if_pos h]

theorem writeHeader_informational {code : Int} (h : isInformational code = true) :
    w.writeHeader code = w := by
  rw [writeHeader]
  have hrange : ¬ (code < 100 ∨ 999 < code) := by
    simp [isInformational] at h
    omega
  rw [if_neg hrange, if_pos h, ite_self]

theorem settled_writeHeader {code : Int} (h : isInformational code = false) :
    (w.writeHeader code).settled = true := by
  rw [writeHeader]
  split
  · next hsettled => exact hsettled
  · split
    · simp [settled]
    · simp [h, settled]

theorem settled_flush (w : Response) : w.flush.settled = true :=
  settled_writeHeader (by decide)

@[simp] theorem flush_of_settled (h : w.settled = true) : w.flush = w :=
  writeHeader_of_settled h 200

theorem transmit_eq (w : Response) (b : List UInt8) (fault : Option Nat) :
    ∃ written body, (w.transmit b fault).2 = { w with written, body } := by
  rw [transmit]
  split
  · exact ⟨w.written, w.body, rfl⟩
  · split
    · exact ⟨w.written, w.body, rfl⟩
    · split
      · exact ⟨w.written, w.body, rfl⟩
      · dsimp only
        split <;> exact ⟨_, _, rfl⟩

theorem settled_transmit (h : w.settled = true) (b : List UInt8) (fault : Option Nat) :
    (w.transmit b fault).2.settled = true := by
  obtain ⟨written, body, heq⟩ := w.transmit_eq b fault
  rw [heq]
  exact h

theorem transmit_of_allowed (hpanicked : w.panicked = false)
    (h : bodyAllowedForStatus w.status = true) (b : List UInt8) :
    (w.transmit b none).2 =
      { w with
        written := w.written + b.length
        body := w.body ++ if w.contentLength.any (· < w.written + b.length) then [] else b } := by
  rw [transmit, if_neg (Bool.eq_false_iff.mp hpanicked)]
  split
  · next hnil => simp [List.length_eq_zero_iff.mp hnil]
  · simp only [h, Bool.not_true, Bool.false_eq_true, if_false]
    split <;> simp

theorem write_flush (w : Response) (b : List UInt8) (fault : Option Nat) :
    w.flush.write b fault = w.write b fault := by
  rw [write, write, flush_of_settled (settled_flush w)]

theorem delivered_flush (w : Response) (h : w.panicked = false) :
    w.flush.delivered = w.delivered := by
  have hflush : w.flush.panicked = false := by
    rw [flush, writeHeader]
    split
    · exact h
    · exact h
  rw [delivered, delivered, h, hflush, flush_of_settled (settled_flush w)]

end Response

end Go.Http
