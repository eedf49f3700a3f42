import Torii.Middleware.CircuitBreaker
import Torii.Middleware.ResponseWriter

/-!
# What the wrappers record

`responseWriterWithStatus`, `responseWriterWithMetrics` and `circuitBreakerResponseWriter`, each
directly around the writer of the server, and what each has noted when the handler returns. All
three take an informational header or a header after a `Flush` for the status; the breaker takes the
last header instead of the first; the metrics note no status when nothing is written, and count the
bytes that were handed over instead of those sent.
-/

namespace Torii.Middleware

open Go.Http ResponseWriterWithMetrics Response Machine

/-! ## The server -/

/-- The writer of the server. To a `HEAD` request `Write` answers as if the body went out. -/
def serverWriter (head : Bool) : Machine Response WriterCall WriterAnswer where
  step w
    | .writeHeader code => Response.writer.step w (.writeHeader code)
    | .write b fault => Response.writer.step w (.write b (if head then none else fault))
    | .flush => Response.writer.step w .flush

def sentBytes (head : Bool) (body : List UInt8) : Nat := if head then 0 else body.length

def newResponse (declared : Option Nat) : Response := { contentLength := declared }

section

variable (head : Bool) (w : Response)

theorem transmit_spec (b : List UInt8) (fault : Option Nat) :
    (w.transmit b fault).2.panicked = w.panicked ∧
      (w.transmit b fault).2.status = w.status ∧
      (w.transmit b fault).2.body.length = w.body.length + (w.transmit b fault).1.n ∧
      (w.transmit b fault).1.n ≤ b.length := by
  simp only [transmit]
  repeat' split
  all_goals simp

theorem body_writeHeader (code : Int) : (w.writeHeader code).body = w.body := by
  rw [writeHeader]
  repeat' split
  all_goals rfl

/-- The bytes of the body are those that `Write` reported. -/
theorem length_body_step (call : WriterCall) :
    ((serverWriter head).step w call).2.body.length =
      w.body.length + ((serverWriter head).step w call).1.n := by
  cases call with
  | writeHeader code => exact congrArg List.length (body_writeHeader w code)
  | write b fault =>
    refine (transmit_spec w.flush b _).2.2.1.trans ?_
    rw [flush, body_writeHeader]
    rfl
  | flush => exact congrArg List.length (body_writeHeader w 200)

theorem panicked_writeHeader {code : Int} (h : (w.writeHeader code).panicked = false) :
    w.panicked = false := by
  rw [← Bool.not_eq_true] at h ⊢
  intro hpanicked
  rw [writeHeader_of_settled (by simp [settled, hpanicked])] at h
  exact h hpanicked

theorem panicked_step {call : WriterCall}
    (h : ((serverWriter head).step w call).2.panicked = false) : w.panicked = false := by
  cases call with
  | writeHeader | flush => exact panicked_writeHeader w h
  | write b fault =>
    rw [show ((serverWriter head).step w (.write b fault)).2.panicked =
      w.flush.panicked from (transmit_spec w.flush b _).1] at h
    exact panicked_writeHeader w h

theorem status_step {call : WriterCall} (h : isHeader call = false) :
    ((serverWriter head).step w call).2.flush.status = w.flush.status ∧
      ((serverWriter head).step w call).2.settled = true := by
  cases call with
  | writeHeader code => cases h
  | write b fault =>
    have hsettled := settled_transmit (settled_flush w) b
      (if head then none else fault)
    refine ⟨?_, hsettled⟩
    show (w.flush.transmit b _).2.flush.status = _
    rw [flush_of_settled hsettled]
    exact (transmit_spec w.flush b _).2.1
  | flush =>
    refine ⟨?_, settled_flush w⟩
    show w.flush.flush.status = _
    rw [flush_of_settled (settled_flush w)]

theorem status_writeHeader {code : Int} (hopen : w.settled = false) (hstatus : w.flush.status = 200)
    (h : (w.writeHeader code).panicked = false) :
    (w.writeHeader code).flush.status = if isInformational code then 200 else code := by
  split
  · next hinfo => rw [writeHeader_informational hinfo, hstatus]
  · next hfinal =>
    rw [Bool.not_eq_true] at hfinal
    rw [flush_of_settled (settled_writeHeader hfinal)]
    rw [writeHeader, if_neg (by simp [hopen])] at h ⊢
    split at h
    · simp at h
    · next hvalid => rw [if_neg hvalid, if_neg (by simp [hfinal])]

end

/-! ## What the client gets -/

def firstStatus : List WriterCall → Int
  | .writeHeader code :: _ => if isInformational code then 200 else code
  | _ => 200

theorem firstStatus_append {calls : List WriterCall} (h : calls ≠ []) (more : List WriterCall) :
    firstStatus (calls ++ more) = firstStatus calls := by
  cases calls with
  | nil => exact absurd rfl h
  | cons call calls => cases call <;> rfl

theorem eq_firstStatus_iff {code : Int} {calls : List WriterCall} :
    code = firstStatus (.writeHeader code :: calls) ↔ isInformational code = false := by
  rw [firstStatus]
  cases hinfo : isInformational code with
  | false => simp
  | true =>
    have hne : code ≠ 200 := by
      rintro rfl
      cases hinfo
    simp [hne]

section

variable {S : Type*} {M : Machine S WriterCall WriterAnswer} {base : S → Response}
  {flag : S → Bool} {head : Bool}

/-- A wrapper whose flag is set by every header, and which drops headers once it is set. -/
structure Guarded (M : Machine S WriterCall WriterAnswer) (base : S → Response) (flag : S → Bool)
    (head : Bool) : Prop where
  base_step : ∀ s call, base (M.step s call).2 =
    if flag s && isHeader call then base s else ((serverWriter head).step (base s) call).2
  flag_header : ∀ s code, flag (M.step s (.writeHeader code)).2 = true
  flag_step : ∀ s call, flag s = true → flag (M.step s call).2 = true

theorem Guarded.panicked_step (h : Guarded M base flag head) {s : S} {call : WriterCall}
    (hpanicked : (base (M.step s call).2).panicked = false) : (base s).panicked = false := by
  rw [h.base_step] at hpanicked
  split at hpanicked
  · exact hpanicked
  · exact Middleware.panicked_step head _ hpanicked

variable (h : Guarded M base flag head) {s : S} (declared : Option Nat)
  (hbase : base s = newResponse declared) (hflag : flag s = false)

include h hbase hflag

theorem Guarded.status_run (calls : List WriterCall)
    (hpanicked : (base (M.run s calls)).panicked = false) :
    (base (M.run s calls)).flush.status = firstStatus calls ∧
      (calls ≠ [] → (base (M.run s calls)).settled = true ∨ flag (M.run s calls) = true) := by
  induction calls using List.reverseRecOn with
  | nil =>
    rw [run_nil, hbase]
    exact ⟨rfl, fun hnil => absurd rfl hnil⟩
  | append_singleton calls call ih =>
    rw [run_concat] at hpanicked ⊢
    obtain ⟨hstatus, hshut⟩ := ih (h.panicked_step hpanicked)
    have hbase_step := h.base_step (M.run s calls) call
    have hquiet := @status_step head (base (M.run s calls)) call
    cases call with
    | writeHeader code =>
      refine ⟨?_, fun _ => .inr (h.flag_header _ code)⟩
      by_cases hne : calls = []
      · subst hne
        rw [run_nil, h.base_step, hflag, hbase, Bool.false_and, if_neg (by simp)] at hpanicked ⊢
        exact status_writeHeader (newResponse declared) rfl rfl hpanicked
      · -- a later header is dropped, or comes to a settled response
        rw [firstStatus_append hne, ← hstatus, hbase_step]
        split
        · rfl
        · next hset =>
          have hsettled := (hshut hne).resolve_right (by simpa [isHeader] using hset)
          exact congrArg (·.flush.status) (writeHeader_of_settled hsettled code)
    | write | flush =>
      rw [hbase_step, if_neg (by simp [isHeader])]
      obtain ⟨hkept, hsettled⟩ := hquiet rfl
      refine ⟨?_, fun _ => .inl hsettled⟩
      rw [hkept, hstatus]
      cases calls with
      | nil => rfl
      | cons => exact (firstStatus_append (by simp) _).symm

theorem Guarded.valid_first {code : Int} {calls : List WriterCall}
    (hpanicked : (base (M.run s (.writeHeader code :: calls))).panicked = false) :
    100 ≤ code ∧ code ≤ 999 := by
  have hfirst : (base (M.step s (.writeHeader code)).2).panicked = false := by
    rw [run_cons] at hpanicked
    induction calls using List.reverseRecOn with
    | nil => exact hpanicked
    | append_singleton calls call ih =>
      rw [run_concat] at hpanicked
      exact ih (h.panicked_step hpanicked)
  rw [h.base_step, hflag, Bool.false_and, if_neg (by simp), hbase] at hfirst
  by_contra hinvalid
  have hpanic : ((newResponse declared).writeHeader code).panicked = true := by
    rw [writeHeader, if_neg (by simp [newResponse, settled]), if_pos (by omega)]
  rw [show ((serverWriter head).step (newResponse declared) (.writeHeader code)).2 =
    (newResponse declared).writeHeader code from rfl, hpanic] at hfirst
  cases hfirst

end

/-! ## Exchanges -/

/-- The calls of the handler with the answers that it got. -/
abbrev Exchange := List (WriterCall × WriterAnswer)

def handedTo : WriterCall → Nat
  | .write b _ => b.length
  | _ => 0

def handed (t : Exchange) : Nat := (t.map fun e => handedTo e.1).sum

def reported (t : Exchange) : Nat := (t.map fun e => e.2.n).sum

@[simp] theorem handed_concat (t : Exchange) (e : WriterCall × WriterAnswer) :
    handed (t ++ [e]) = handed t + handedTo e.1 := by
  simp [handed]

@[simp] theorem reported_concat (t : Exchange) (e : WriterCall × WriterAnswer) :
    reported (t ++ [e]) = reported t + e.2.n := by
  simp [reported]

/-! ## `responseWriterWithStatus` -/

section

variable (head : Bool) (declared : Option Nat)

abbrev statusWriter : Machine (StatusWriter Response) WriterCall WriterAnswer :=
  StatusWriter.methods (serverWriter head)

abbrev statusAfter (calls : List WriterCall) : StatusWriter Response :=
  (statusWriter head).run (responseWriterWithStatus (newResponse declared)) calls

abbrev statusExchange (calls : List WriterCall) : Exchange :=
  (statusWriter head).trace (responseWriterWithStatus (newResponse declared)) calls

def StatusWriter.eventStatus {W : Type*} (w : StatusWriter W) : Int :=
  if w.statusCode = 0 then 200 else w.statusCode

theorem guarded_statusWriter :
    Guarded (statusWriter head) StatusWriter.responseWriter StatusWriter.wroteHeader head where
  base_step := StatusWriter.step_responseWriter (serverWriter head)
  flag_header s code := by
    cases hflag : s.wroteHeader <;> simp [StatusWriter.methods, hflag]
  flag_step s call hflag := by
    cases call <;> simp [StatusWriter.methods, hflag]

def isFlush : WriterCall → Bool
  | .flush => true
  | _ => false

def firstOther (calls : List WriterCall) : Option WriterCall := calls.find? (! isFlush ·)

variable (calls : List WriterCall)

@[simp] theorem firstOther_flush : firstOther (.flush :: calls) = firstOther calls := rfl

@[simp] theorem firstOther_header (code : Int) (calls : List WriterCall) :
    firstOther (.writeHeader code :: calls) = some (.writeHeader code) := rfl

@[simp] theorem firstOther_write (b : List UInt8) (fault : Option Nat) (calls : List WriterCall) :
    firstOther (.write b fault :: calls) = some (.write b fault) := rfl

theorem firstOther_append (more : List WriterCall) :
    firstOther (calls ++ more) = (firstOther calls).or (firstOther more) :=
  List.find?_append

def notedStatus (calls : List WriterCall) : Int :=
  match firstOther calls with
  | some (.writeHeader code) => code
  | some _ => 200
  | none => 0

variable (w : StatusWriter Response) (call : WriterCall)

theorem statusCode_step :
    ((statusWriter head).step w call).2.statusCode =
        (if w.wroteHeader then w.statusCode
          else match call with
            | .writeHeader code => code
            | .write _ _ => 200
            | .flush => w.statusCode) ∧
      ((statusWriter head).step w call).2.wroteHeader = (w.wroteHeader || ! isFlush call) := by
  cases call <;> cases hflag : w.wroteHeader <;>
    simp [StatusWriter.methods, hflag, isFlush]

theorem statusAfter_statusCode : (statusAfter head declared calls).statusCode = notedStatus calls ∧
      (statusAfter head declared calls).wroteHeader = (firstOther calls).isSome := by
  induction calls using List.reverseRecOn with
  | nil => exact ⟨rfl, rfl⟩
  | append_singleton calls call ih =>
    obtain ⟨hstatus, hflag⟩ := ih
    obtain ⟨hstatus', hflag'⟩ := statusCode_step head (statusAfter head declared calls) call
    rw [statusAfter, run_concat, hstatus', hflag', hflag, hstatus, notedStatus,
      notedStatus, firstOther_append]
    cases firstOther calls with
    | none => cases call <;> simp [isFlush, firstOther]
    | some first => simp

theorem bytes_step :
    ((statusWriter head).step w call).2.bytes =
        w.bytes + Int64.ofNat ((statusWriter head).step w call).1.n ∧
      ((statusWriter head).step w call).2.responseWriter.body.length =
        w.responseWriter.body.length + ((statusWriter head).step w call).1.n := by
  cases call with
  | writeHeader code =>
    cases hflag : w.wroteHeader <;>
      simp [StatusWriter.methods, hflag, serverWriter, writer, body_writeHeader]
  | write b fault =>
    have hbody := length_body_step head w.responseWriter (.write b fault)
    cases hflag : w.wroteHeader <;> simpa [StatusWriter.methods, hflag] using hbody
  | flush =>
    simp [StatusWriter.methods, serverWriter, writer, flush, body_writeHeader]

/-- Run lemma: the bytes are those that were reported. -/
theorem statusAfter_bytes : (statusAfter head declared calls).bytes =
        Int64.ofNat (reported (statusExchange head declared calls)) ∧
      (statusAfter head declared calls).responseWriter.body.length =
        reported (statusExchange head declared calls) := by
  induction calls using List.reverseRecOn with
  | nil => exact ⟨rfl, rfl⟩
  | append_singleton calls call ih =>
    obtain ⟨hbytes, hbody⟩ := ih
    obtain ⟨hbytes', hbody'⟩ := bytes_step head (statusAfter head declared calls) call
    rw [statusAfter, statusExchange, run_concat, trace_concat, reported_concat,
      hbytes', hbody', hbytes, hbody, Int64.ofNat_add]
    exact ⟨rfl, rfl⟩

/-- The status is right: the first call other than `Flush` is no header, or it is a header
with a final status and the first call of all; after a `Flush` the header has to say 200. -/
def StatusRight (calls : List WriterCall) : Prop :=
  match firstOther calls with
  | some (.writeHeader code) =>
    if calls.head? = some .flush then code = 200 ∨ code = 0 else isInformational code = false
  | _ => True

theorem eventStatus_iff
    (hpanicked : (statusAfter head declared calls).responseWriter.panicked = false) :
    (statusAfter head declared calls).eventStatus =
      (statusAfter head declared calls).responseWriter.flush.status ↔ StatusRight calls := by
  have hsent := ((guarded_statusWriter head).status_run declared rfl rfl calls hpanicked).1
  rw [hsent, StatusWriter.eventStatus, (statusAfter_statusCode head declared calls).1]
  cases calls with
  | nil => simp [notedStatus, firstStatus, StatusRight, firstOther]
  | cons call calls =>
    cases call with
    | write => simp [notedStatus, firstStatus, StatusRight]
    | flush =>
      cases hfirst : firstOther calls with
      | none => simp [notedStatus, StatusRight, firstStatus, hfirst]
      | some first =>
        cases first with
        | writeHeader code =>
          simp only [notedStatus, StatusRight, firstStatus, firstOther_flush, hfirst,
            List.head?_cons, if_true]
          split <;> omega
        | _ => simp [notedStatus, StatusRight, firstStatus, hfirst]
    | writeHeader code =>
      obtain ⟨hlow, -⟩ := (guarded_statusWriter head).valid_first declared rfl rfl hpanicked
      have hzero : code ≠ 0 := by omega
      simpa [notedStatus, StatusRight, hzero] using eq_firstStatus_iff

def swallowed (head : Bool) (t : Exchange) : Nat := if head then reported t else 0

theorem bytes_iff : (statusAfter head declared calls).bytes =
        Int64.ofNat (sentBytes head (statusAfter head declared calls).responseWriter.body) ↔
      Int64.ofNat (swallowed head (statusExchange head declared calls)) = 0 := by
  obtain ⟨hbytes, hbody⟩ := statusAfter_bytes head declared calls
  rw [hbytes, sentBytes, swallowed]
  cases head with
  | false => simp [hbody]
  | true => simp

end

/-! ## `responseWriterWithMetrics` -/

section

variable (head : Bool) (declared : Option Nat)

abbrev metricsWriter : Machine (ResponseWriterWithMetrics Response) WriterCall WriterAnswer :=
  ResponseWriterWithMetrics.methods (serverWriter head)

abbrev metricsAfter (calls : List WriterCall) : ResponseWriterWithMetrics Response :=
  (metricsWriter head).run { responseWriter := newResponse declared } calls

abbrev metricsExchange (calls : List WriterCall) : Exchange :=
  (metricsWriter head).trace { responseWriter := newResponse declared } calls

def metricsOf (status : Int) (bytesSent : Int64) : ResponseMetrics :=
  ({ bytesSent } : ResponseMetrics).noteStatus status

theorem metricsOf_inj {status status' : Int} {bytes bytes' : Int64} :
    metricsOf status bytes = metricsOf status' bytes' ↔ status = status' ∧ bytes = bytes' := by
  constructor
  · intro h
    exact ⟨congrArg ResponseMetrics.statusCode h, congrArg ResponseMetrics.bytesSent h⟩
  · rintro ⟨rfl, rfl⟩
    rfl

theorem guarded_metricsWriter :
    Guarded (metricsWriter head) ResponseWriterWithMetrics.responseWriter
      ResponseWriterWithMetrics.wroteHeader head where
  base_step := ResponseWriterWithMetrics.step_responseWriter (serverWriter head)
  flag_header := ResponseWriterWithMetrics.wroteHeader_header (serverWriter head)
  flag_step _ call hflag :=
    wroteHeader_step (serverWriter head) hflag call

/-- A `Write` without an error. -/
def succeeded (e : WriterCall × WriterAnswer) : Bool :=
  match e.1 with
  | .write _ _ => ! e.2.err
  | _ => false

/-- The calls that the wrapper takes note of: headers and successful `Write`s. -/
def noting (e : WriterCall × WriterAnswer) : Bool := isHeader e.1 || succeeded e

def nextStatus (flag : Bool) (status : Int) (e : WriterCall × WriterAnswer) : Int :=
  match e.1 with
  | .writeHeader code => if flag then status else code
  | _ => if succeeded e = true ∧ status = 0 then 200 else status

/-- Step lemma: the class bits stay those of the status. -/
theorem metrics_step {w : ResponseWriterWithMetrics Response} {status : Int} {bytes : Int64}
    (h : w.reqMetrics = metricsOf status bytes) (call : WriterCall) :
    let e := (call, ((metricsWriter head).step w call).1)
    let w' := ((metricsWriter head).step w call).2
    w'.reqMetrics =
        metricsOf (nextStatus w.wroteHeader status e) (bytes + Int64.ofNat (handedTo call)) ∧
      w'.wroteHeader = (w.wroteHeader || noting e) := by
  obtain ⟨base, m, flag⟩ := w
  obtain rfl := h
  cases call with
  | writeHeader code =>
    cases flag with
    | true => exact ⟨congrArg (metricsOf status) (Int64.add_zero bytes).symm, rfl⟩
    | false => exact ⟨congrArg (metricsOf code) (Int64.add_zero bytes).symm, rfl⟩
  | write b fault =>
    cases herr : ((serverWriter head).step base (.write b fault)).1.err <;>
      by_cases hzero : status = 0 <;>
        simp [methods, herr, nextStatus, noting, succeeded, isHeader, handedTo, metricsOf,
          ResponseMetrics.noteStatus, hzero]
  | flush =>
    refine ⟨congrArg (metricsOf status) (Int64.add_zero bytes).symm, ?_⟩
    exact (Bool.or_false flag).symm

def metricsStatus (t : Exchange) : Int :=
  match t.find? noting with
  | none => 0
  | some (.writeHeader code, _) => if code = 0 ∧ t.any succeeded = true then 200 else code
  | some _ => 200

theorem any_succeeded_of_find?_noting {t : Exchange} (h : t.find? noting = none) :
    t.any succeeded = false := by
  rw [List.find?_eq_none] at h
  rw [List.any_eq_false]
  intro e he hsucceeded
  exact h e he (by simp [noting, hsucceeded])

theorem metricsStatus_concat (t : Exchange) (e : WriterCall × WriterAnswer) :
    metricsStatus (t ++ [e]) = nextStatus (t.find? noting).isSome (metricsStatus t) e := by
  obtain ⟨call, answer⟩ := e
  cases hfirst : t.find? noting with
  | none =>
    have hany := any_succeeded_of_find?_noting hfirst
    cases call <;> cases herr : answer.err <;>
      simp [metricsStatus, nextStatus, hfirst, hany, noting, isHeader, succeeded, herr]
  | some first =>
    obtain ⟨called, answered⟩ := first
    cases called with
    | writeHeader code =>
      -- a code of zero still makes room for the implicit 200 of a later `Write`
      have hfirst' : (t ++ [(call, answer)]).find? noting =
          some (.writeHeader code, answered) := by
        simp [List.find?_append, hfirst]
      simp only [metricsStatus, nextStatus, hfirst, hfirst', List.any_append, List.any_cons,
        List.any_nil, Bool.or_false]
      cases call <;> by_cases hzero : code = 0 <;> cases t.any succeeded <;>
        simp [succeeded, hzero]
    | _ => cases call <;> simp [metricsStatus, nextStatus, List.find?_append, hfirst]

variable (calls : List WriterCall)

/-- Run lemma: status and bytes are those of the exchange. -/
theorem metricsAfter_reqMetrics : (metricsAfter head declared calls).reqMetrics =
        metricsOf (metricsStatus (metricsExchange head declared calls))
          (Int64.ofNat (handed (metricsExchange head declared calls))) ∧
      (metricsAfter head declared calls).wroteHeader =
        ((metricsExchange head declared calls).find? noting).isSome := by
  induction calls using List.reverseRecOn with
  | nil => exact ⟨rfl, rfl⟩
  | append_singleton calls call ih =>
    rw [metricsAfter, metricsExchange, run_concat, trace_concat,
      metricsStatus_concat, handed_concat, Int64.ofNat_add, List.find?_append]
    obtain ⟨hmetrics, hflag⟩ := metrics_step head ih.1 call
    rw [ih.2] at hmetrics hflag
    refine ⟨hmetrics, hflag.trans ?_⟩
    rw [Option.isSome_or, List.find?_singleton]
    cases noting (call, ((metricsWriter head).step (metricsAfter head declared calls) call).1) <;>
      rfl

def lostBy (head : Bool) (e : WriterCall × WriterAnswer) : Nat :=
  handedTo e.1 - if head then 0 else e.2.n

def lost (head : Bool) (t : Exchange) : Nat := (t.map (lostBy head)).sum

@[simp] theorem lost_concat (head : Bool) (t : Exchange) (e : WriterCall × WriterAnswer) :
    lost head (t ++ [e]) = lost head t + lostBy head e := by
  simp [lost]

theorem metrics_body_step (w : ResponseWriterWithMetrics Response) (call : WriterCall) :
    ((metricsWriter head).step w call).1.n ≤ handedTo call ∧
      ((metricsWriter head).step w call).2.responseWriter.body.length =
        w.responseWriter.body.length + ((metricsWriter head).step w call).1.n := by
  cases call with
  | writeHeader code =>
    cases hflag : w.wroteHeader <;> simp [methods, hflag, serverWriter, writer, body_writeHeader]
  | write b fault =>
    have hanswer : ((metricsWriter head).step w (.write b fault)).1 =
        ((serverWriter head).step w.responseWriter (.write b fault)).1 := by
      simp only [methods]
      split <;> rfl
    rw [hanswer, step_responseWriter,
      if_neg (by simp [isHeader])]
    exact ⟨(transmit_spec w.responseWriter.flush b _).2.2.2, length_body_step head _ _⟩
  | flush => exact ⟨Nat.le_refl 0, length_body_step head w.responseWriter .flush⟩

/-- Run lemma: what was handed over went out or was lost. -/
theorem handed_metricsExchange : handed (metricsExchange head declared calls) =
      lost head (metricsExchange head declared calls) +
        sentBytes head (metricsAfter head declared calls).responseWriter.body := by
  induction calls using List.reverseRecOn with
  | nil => cases head <;> rfl
  | append_singleton calls call ih =>
    obtain ⟨hle, hbody⟩ := metrics_body_step head (metricsAfter head declared calls) call
    unfold metricsAfter metricsExchange sentBytes at *
    rw [run_concat, trace_concat, handed_concat, lost_concat, hbody, lostBy]
    cases head <;> simp only [if_true, Bool.false_eq_true, if_false] at ih ⊢ <;> omega

/-- The status is right: the first call that is noted is a `Write`, or it is a header with a
final status and the first call of all. A header that comes later has to say 200, or zero
when a `Write` succeeds. -/
def MetricsStatusRight (t : Exchange) : Prop :=
  match t.find? noting with
  | none => False
  | some (.writeHeader code, _) =>
    if t.head?.any (fun e => isHeader e.1) then isInformational code = false
    else code = 200 ∨ code = 0 ∧ t.any succeeded = true
  | some _ => True

theorem metricsStatus_eq_200 {t : Exchange} (h : t.head?.any (fun e => isHeader e.1) = false) :
    metricsStatus t = 200 ↔ MetricsStatusRight t := by
  rw [metricsStatus, MetricsStatusRight]
  cases t.find? noting with
  | none => simp
  | some first =>
    obtain ⟨call, answer⟩ := first
    cases call with
    | writeHeader code =>
      simp only [h]
      split
      · next hzero => simp [hzero]
      · next hzero =>
        exact ⟨.inl, fun hright => hright.resolve_right hzero⟩
    | _ => simp

theorem metricsStatus_iff
    (hpanicked : (metricsAfter head declared calls).responseWriter.panicked = false) :
    metricsStatus (metricsExchange head declared calls) =
      (metricsAfter head declared calls).responseWriter.flush.status ↔
        MetricsStatusRight (metricsExchange head declared calls) := by
  have hsent := ((guarded_metricsWriter head).status_run declared rfl rfl calls hpanicked).1
  rw [hsent]
  cases calls with
  | nil => exact metricsStatus_eq_200 rfl
  | cons call calls =>
    cases call with
    | write | flush => exact metricsStatus_eq_200 rfl
    | writeHeader code =>
      obtain ⟨hlow, -⟩ := (guarded_metricsWriter head).valid_first declared rfl rfl hpanicked
      have hzero : code ≠ 0 := by omega
      have hfirst : (metricsExchange head declared (.writeHeader code :: calls)).find? noting =
          some (.writeHeader code, {}) := rfl
      have hhead : (metricsExchange head declared (.writeHeader code :: calls)).head?.any
          (fun e => isHeader e.1) = true := rfl
      simpa [metricsStatus, MetricsStatusRight, hfirst, hhead, hzero] using eq_firstStatus_iff

theorem bytesSent_iff : Int64.ofNat (handed (metricsExchange head declared calls)) =
        Int64.ofNat (sentBytes head (metricsAfter head declared calls).responseWriter.body) ↔
      Int64.ofNat (lost head (metricsExchange head declared calls)) = 0 := by
  rw [handed_metricsExchange, Int64.ofNat_add, Int64.add_eq_right]

end

/-! ## `circuitBreakerResponseWriter` -/

section

/-- `circuitBreakerResponseWriter`, as the breaker makes it. -/
structure CircuitBreakerResponseWriter (W : Type*) where
  responseWriter : W
  statusCode : Int := 200

/-- The methods of `circuitBreakerResponseWriter`: `WriteHeader` notes the code, and all calls
are passed on. -/
def CircuitBreakerResponseWriter.methods {W : Type*} (inner : Machine W WriterCall WriterAnswer) :
    Machine (CircuitBreakerResponseWriter W) WriterCall WriterAnswer where
  step w
    | .writeHeader code =>
      let (answer, next) := inner.step w.responseWriter (.writeHeader code)
      (answer, { w with statusCode := code, responseWriter := next })
    | call =>
      let (answer, next) := inner.step w.responseWriter call
      (answer, { w with responseWriter := next })

variable (head : Bool) (declared : Option Nat)

abbrev breakerWriter : Machine (CircuitBreakerResponseWriter Response) WriterCall WriterAnswer :=
  CircuitBreakerResponseWriter.methods (serverWriter head)

abbrev breakerAfter (calls : List WriterCall) : CircuitBreakerResponseWriter Response :=
  (breakerWriter head).run { responseWriter := newResponse declared } calls

def headerCodes : List WriterCall → List Int
  | [] => []
  | .writeHeader code :: calls => code :: headerCodes calls
  | _ :: calls => headerCodes calls

theorem headerCodes_append (calls more : List WriterCall) :
    headerCodes (calls ++ more) = headerCodes calls ++ headerCodes more := by
  induction calls with
  | nil => rfl
  | cons call calls ih => cases call <;> simp [headerCodes, ih]

variable (calls : List WriterCall)

theorem breakerAfter_statusCode : (breakerAfter head declared calls).statusCode =
      Reply.statusCode { headers := headerCodes calls } := by
  induction calls using List.reverseRecOn with
  | nil => rfl
  | append_singleton calls call ih =>
    rw [breakerAfter, run_concat, headerCodes_append]
    cases call with
    | writeHeader code =>
      simp [CircuitBreakerResponseWriter.methods, headerCodes, Reply.statusCode]
    | _ => exact ih.trans (by simp [headerCodes])

def commits : WriterCall → Bool
  | .writeHeader code => ! isInformational code
  | _ => true

/-- The status that is sent when every call is passed on. -/
def committedStatus (calls : List WriterCall) : Int :=
  match calls.find? commits with
  | some (.writeHeader code) => code
  | _ => 200

theorem breakerAfter_responseWriter : (breakerAfter head declared calls).responseWriter =
      (serverWriter head).run (newResponse declared) calls := by
  induction calls using List.reverseRecOn with
  | nil => rfl
  | append_singleton calls call ih =>
    rw [breakerAfter, run_concat, run_concat, ← ih]
    cases call <;> rfl

theorem status_step_of_settled {w : Response} (h : w.settled = true) (call : WriterCall) :
    ((serverWriter head).step w call).2.flush.status = w.flush.status ∧
      ((serverWriter head).step w call).2.settled = true := by
  cases call with
  | writeHeader code =>
    have hsame : ((serverWriter head).step w (.writeHeader code)).2 = w :=
      writeHeader_of_settled h code
    rw [hsame]
    exact ⟨rfl, h⟩
  | _ => exact status_step head w rfl

theorem server_status
    (hpanicked : ((serverWriter head).run (newResponse declared) calls).panicked = false) :
    let w := (serverWriter head).run (newResponse declared) calls
    w.flush.status = committedStatus calls ∧
      (calls.find? commits = none → w = newResponse declared) ∧
      (calls.find? commits ≠ none → w.settled = true) := by
  induction calls using List.reverseRecOn with
  | nil => exact ⟨rfl, fun _ => rfl, fun h => absurd rfl h⟩
  | append_singleton calls call ih =>
    rw [run_concat] at hpanicked ⊢
    obtain ⟨hstatus, hopen, hsettled⟩ := ih (panicked_step head _ hpanicked)
    simp only [committedStatus, List.find?_append] at hstatus ⊢
    cases hfirst : calls.find? commits with
    | none =>
      rw [hopen hfirst] at hpanicked ⊢
      cases call with
      | writeHeader code =>
        have hsent := status_writeHeader (newResponse declared) rfl rfl hpanicked
        cases hinfo : isInformational code with
        | true => exact ⟨hsent.trans (by simp [commits, hinfo]),
            fun _ => writeHeader_informational (w := newResponse declared) hinfo,
            by simp [commits, hinfo]⟩
        | false => exact ⟨hsent.trans (by simp [commits, hinfo]), by simp [commits, hinfo],
            fun _ => settled_writeHeader (w := newResponse declared) hinfo⟩
      | write | flush =>
        exact ⟨(status_step head _ rfl).1, by simp [commits], fun _ => (status_step head _ rfl).2⟩
    | some first =>
      obtain ⟨hkept, hdone⟩ := status_step_of_settled head (hsettled (by simp [hfirst])) call
      rw [hfirst] at hstatus
      exact ⟨hkept.trans hstatus, by simp, fun _ => hdone⟩

/-- The status is right: the last header says what the first committing call says. -/
def BreakerRight (calls : List WriterCall) : Prop :=
  (headerCodes calls).getLastD 200 = committedStatus calls

theorem breaker_statusCode_iff
    (hpanicked : (breakerAfter head declared calls).responseWriter.panicked = false) :
    (breakerAfter head declared calls).statusCode =
      (breakerAfter head declared calls).responseWriter.flush.status ↔ BreakerRight calls := by
  rw [breakerAfter_responseWriter] at hpanicked ⊢
  rw [breakerAfter_statusCode, (server_status head declared calls hpanicked).1]
  rfl

end

/-! ## The records -/

theorem delivered_eq_some {w : Response} {status : Int} {body : List UInt8}
    (h : w.delivered = some (status, body)) :
    w.panicked = false ∧ status = w.flush.status ∧ body = w.body := by
  rw [delivered] at h
  split at h
  · cases h
  · next hpanicked =>
    obtain ⟨rfl, rfl⟩ := Prod.mk.inj (Option.some.inj h)
    exact ⟨by simpa using hpanicked, rfl, body_writeHeader w 200⟩

/-- Whatever the handler does, and whatever goes wrong with the connection: when a response
goes out, the record of each wrapper agrees with it exactly after these exchanges. The breaker
records no bytes. -/
theorem recorded_iff (head : Bool) (declared : Option Nat) (calls : List WriterCall) :
    (∀ status body,
      (statusAfter head declared calls).responseWriter.delivered = some (status, body) →
        ((statusAfter head declared calls).eventStatus = status ∧
            (statusAfter head declared calls).bytes = Int64.ofNat (sentBytes head body) ↔
          StatusRight calls ∧
            Int64.ofNat (swallowed head (statusExchange head declared calls)) = 0)) ∧
    (∀ status body,
      (metricsAfter head declared calls).responseWriter.delivered = some (status, body) →
        ((metricsAfter head declared calls).reqMetrics =
            metricsOf status (Int64.ofNat (sentBytes head body)) ↔
          MetricsStatusRight (metricsExchange head declared calls) ∧
            Int64.ofNat (lost head (metricsExchange head declared calls)) = 0)) ∧
    (∀ status body,
      (breakerAfter head declared calls).responseWriter.delivered = some (status, body) →
        ((breakerAfter head declared calls).statusCode = status ↔ BreakerRight calls)) := by
  refine ⟨fun status body h => ?_, fun status body h => ?_, fun status body h => ?_⟩
  · obtain ⟨hpanicked, rfl, rfl⟩ := delivered_eq_some h
    exact and_congr (eventStatus_iff head declared calls hpanicked) (bytes_iff head declared calls)
  · obtain ⟨hpanicked, rfl, rfl⟩ := delivered_eq_some h
    rw [(metricsAfter_reqMetrics head declared calls).1, metricsOf_inj]
    exact and_congr (metricsStatus_iff head declared calls hpanicked)
      (bytesSent_iff head declared calls)
  · obtain ⟨hpanicked, rfl, -⟩ := delivered_eq_some h
    exact breaker_statusCode_iff head declared calls hpanicked

def created : List WriterCall := [.writeHeader 201, .write [111, 107] none, .flush]

/-- All three records of `created` are right. -/
theorem recorded_created :
    (statusAfter false none created).responseWriter.delivered = some (201, [111, 107]) ∧
      ((statusAfter false none created).eventStatus = 201 ∧
        (statusAfter false none created).bytes = Int64.ofNat 2) ∧
      (metricsAfter false none created).responseWriter.delivered = some (201, [111, 107]) ∧
      (metricsAfter false none created).reqMetrics = metricsOf 201 (Int64.ofNat 2) ∧
      (breakerAfter false none created).responseWriter.delivered = some (201, [111, 107]) ∧
      (breakerAfter false none created).statusCode = 201 := by
  obtain ⟨hstatus, hmetrics, hbreaker⟩ := recorded_iff false none created
  refine ⟨rfl, (hstatus 201 [111, 107] rfl).mpr ⟨rfl, rfl⟩, rfl,
    (hmetrics 201 [111, 107] rfl).mpr ⟨rfl, rfl⟩, rfl, (hbreaker 201 [111, 107] rfl).mpr rfl⟩

/-- Each wrapper is wrong about some response: the metrics note status 0 when the handler
returns without a call, and all the bytes of a `Write` that broke off after the first; the
event gets the header that came after a `Flush`; the breaker gets a superfluous header. -/
theorem recorded_differs :
    ((metricsAfter false none []).responseWriter.delivered = some (200, []) ∧
      (metricsAfter false none []).reqMetrics.statusCode = 0) ∧
    ((metricsAfter false none [.write [111, 107] (some 1)]).responseWriter.delivered =
        some (200, [111]) ∧
      (metricsAfter false none [.write [111, 107] (some 1)]).reqMetrics.bytesSent = 2) ∧
    ((statusAfter false none [.flush, .writeHeader 404]).responseWriter.delivered =
        some (200, []) ∧
      (statusAfter false none [.flush, .writeHeader 404]).eventStatus = 404) ∧
    ((breakerAfter false none [.writeHeader 200, .writeHeader 500]).responseWriter.delivered =
        some (200, []) ∧
      (breakerAfter false none [.writeHeader 200, .writeHeader 500]).statusCode = 500) := by
  decide

end Torii.Middleware
