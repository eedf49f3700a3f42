import Mathlib.Data.List.TakeWhile
import Torii.Go.ResponseWriter

/-!
# The wrappers around the response writer

Every proxied request is answered through `responseWriterWithStatus` of
`internal/requestctx/request_context.go` around the writer of the server, then
`accessLogResponseWriter` of the request logger, then `responseWriterWithMetrics` of the metrics
middleware. Each one keeps a flag that the first header of any kind sets, and then drops further
headers: after an informational header, also the final one.
-/

namespace Torii.Middleware

open Go.Http Response

section

variable {W : Type*} (inner : Machine W WriterCall WriterAnswer)

/-- The fields that `responseWriterWithStatus` and `accessLogResponseWriter` share. -/
structure StatusWriter (W : Type*) where
  responseWriter : W
  statusCode : Int
  bytes : Int64 := 0
  wroteHeader : Bool := false

/-- `responseWriterWithStatus`, as `InjectContextStruct` makes it. -/
def responseWriterWithStatus (w : W) : StatusWriter W := { responseWriter := w, statusCode := 0 }

/-- `accessLogResponseWriter`, as `RequestLoggerMiddleware` makes it. -/
def accessLogResponseWriter (w : W) : StatusWriter W :=
  { responseWriter := w, statusCode := 200 }

def StatusWriter.methods : Machine (StatusWriter W) WriterCall WriterAnswer where
  step w
    | .writeHeader code =>
      if w.wroteHeader then ({}, w)
      else
        let next := (inner.step w.responseWriter (.writeHeader code)).2
        ({}, { w with statusCode := code, wroteHeader := true, responseWriter := next })
    | .write b fault =>
      let w := if w.wroteHeader then w else { w with statusCode := 200, wroteHeader := true }
      let (answer, next) := inner.step w.responseWriter (.write b fault)
      (answer, { w with responseWriter := next, bytes := w.bytes + Int64.ofNat answer.n })
    | .flush => ({}, { w with responseWriter := (inner.step w.responseWriter .flush).2 })

structure ResponseMetrics where
  statusCode : Int := 0
  bytesSent : Int64 := 0
  is2xxResponse : Bool := false
  is3xxResponse : Bool := false
  is4xxResponse : Bool := false
  is5xxResponse : Bool := false

structure ResponseWriterWithMetrics (W : Type*) where
  responseWriter : W
  reqMetrics : ResponseMetrics := {}
  wroteHeader : Bool := false

/-- The status of a response, as `WriteHeader` notes it. -/
def ResponseMetrics.noteStatus (m : ResponseMetrics) (code : Int) : ResponseMetrics :=
  { m with
    statusCode := code
    is2xxResponse := 200 ≤ code && code < 300
    is3xxResponse := 300 ≤ code && code < 400
    is4xxResponse := 400 ≤ code && code < 500
    is5xxResponse := 500 ≤ code && code < 600 }

/-- The methods of `responseWriterWithMetrics`; its `Write` sets the flag only when the
wrapped `Write` succeeded. -/
def ResponseWriterWithMetrics.methods :
    Machine (ResponseWriterWithMetrics W) WriterCall WriterAnswer where
  step w
    | .writeHeader code =>
      if w.wroteHeader then ({}, w)
      else
        let next := (inner.step w.responseWriter (.writeHeader code)).2
        ({}, ⟨next, w.reqMetrics.noteStatus code, true⟩)
    | .write b fault =>
      let m := { w.reqMetrics with
        bytesSent := w.reqMetrics.bytesSent + Int64.ofNat b.length }
      let (answer, next) := inner.step w.responseWriter (.write b fault)
      if answer.err then (answer, { w with responseWriter := next, reqMetrics := m })
      else
        let m := if m.statusCode = 0 then { m with statusCode := 200, is2xxResponse := true }
          else m
        (answer, ⟨next, m, true⟩)
    | .flush => ({}, { w with responseWriter := (inner.step w.responseWriter .flush).2 })

def isHeader : WriterCall → Bool
  | .writeHeader _ => true
  | _ => false

theorem StatusWriter.step_responseWriter (w : StatusWriter W) (call : WriterCall) :
    ((methods inner).step w call).2.responseWriter =
      if w.wroteHeader && isHeader call then w.responseWriter
      else (inner.step w.responseWriter call).2 := by
  cases call with
  | writeHeader | write => cases hflag : w.wroteHeader <;> simp [methods, isHeader, hflag]
  | flush => simp [methods, isHeader]

theorem ResponseWriterWithMetrics.step_responseWriter (w : ResponseWriterWithMetrics W)
    (call : WriterCall) :
    ((methods inner).step w call).2.responseWriter =
      if w.wroteHeader && isHeader call then w.responseWriter
      else (inner.step w.responseWriter call).2 := by
  cases call with
  | writeHeader code => cases hflag : w.wroteHeader <;> simp [methods, isHeader, hflag]
  | write =>
    simp only [methods, isHeader, Bool.and_false]
    split <;> rfl
  | flush => simp [methods, isHeader]

theorem ResponseWriterWithMetrics.wroteHeader_step {w : ResponseWriterWithMetrics W}
    (hflag : w.wroteHeader = true) (call : WriterCall) :
    ((methods inner).step w call).2.wroteHeader = true := by
  cases call with
  | writeHeader code => simp [methods, hflag]
  | write =>
    simp only [methods]
    split
    · exact hflag
    · rfl
  | flush => exact hflag

theorem ResponseWriterWithMetrics.wroteHeader_header (w : ResponseWriterWithMetrics W)
    (code : Int) : ((methods inner).step w (.writeHeader code)).2.wroteHeader = true := by
  cases hflag : w.wroteHeader <;> simp [methods, hflag]

end

/-- What the handler of a proxied request writes to. -/
abbrev Stack := ResponseWriterWithMetrics (StatusWriter (StatusWriter Response))

/-- The three wrappers around the writer of the server. -/
def stack (w : Response) : Stack :=
  { responseWriter := accessLogResponseWriter (responseWriterWithStatus w) }

def stackWriter : Machine Stack WriterCall WriterAnswer :=
  ResponseWriterWithMetrics.methods (StatusWriter.methods (StatusWriter.methods Response.writer))

def Stack.base (s : Stack) : Response := s.responseWriter.responseWriter.responseWriter

def Stack.closed (s : Stack) : Bool :=
  s.wroteHeader || s.responseWriter.wroteHeader || s.responseWriter.responseWriter.wroteHeader

theorem base_step (s : Stack) (call : WriterCall) :
    (stackWriter.step s call).2.base =
      if s.closed && isHeader call then s.base else (Response.writer.step s.base call).2 := by
  rw [Stack.base, stackWriter, ResponseWriterWithMetrics.step_responseWriter, Stack.closed]
  cases houter : s.wroteHeader && isHeader call with
  | true =>
    obtain ⟨hflag, hheader⟩ := Bool.and_eq_true_iff.mp houter
    simp [hflag, hheader, Stack.base]
  | false =>
    rw [if_neg (by simp), StatusWriter.step_responseWriter]
    cases hmiddle : s.responseWriter.wroteHeader && isHeader call with
    | true =>
      obtain ⟨hflag, hheader⟩ := Bool.and_eq_true_iff.mp hmiddle
      simp [hflag, hheader, Stack.base]
    | false =>
      rw [if_neg (by simp), StatusWriter.step_responseWriter]
      cases hheader : isHeader call
      · simp [Stack.base]
      · rw [hheader, Bool.and_true] at houter hmiddle
        simp [houter, hmiddle, Stack.base]

/-- The response of the bare writer against the wrapped one: what is open under the
wrappers can only be committed with status 200, and the bare response has been. -/
structure Agrees (w : Response) (s : Stack) : Prop where
  settled : w.settled = true
  flush : s.base.flush = w
  shut : s.base.settled = true ∨ s.wroteHeader = true

/-- Step lemma: no call separates the two any more. -/
theorem agrees_step (w : Response) (s : Stack) (call : WriterCall) (h : Agrees w s) :
    Agrees (Response.writer.step w call).2 (stackWriter.step s call).2 := by
  have hbase := base_step s call
  have houter : s.wroteHeader = true → (stackWriter.step s call).2.wroteHeader = true :=
    fun hflag => ResponseWriterWithMetrics.wroteHeader_step _ hflag call
  cases call with
  | writeHeader code =>
    -- the header is superfluous in the bare response, and dropped or superfluous here
    have hsame : (stackWriter.step s (.writeHeader code)).2.base = s.base := by
      rw [hbase]
      split
      · rfl
      · next hopen =>
        obtain hsettled | hflag := h.shut
        · exact writeHeader_of_settled hsettled code
        · simp [Stack.closed, hflag, isHeader] at hopen
    have hw : (writer.step w (.writeHeader code)).2 = w :=
      writeHeader_of_settled h.settled code
    rw [hw]
    refine ⟨h.settled, ?_, ?_⟩
    · rw [hsame]
      exact h.flush
    · rw [hsame]
      exact h.shut.imp_right houter
  | write b fault =>
    simp only [isHeader, Bool.and_false, Bool.false_eq_true, if_false] at hbase
    have hw : (writer.step w (.write b fault)).2 =
        (writer.step s.base (.write b fault)).2 := by
      change (w.write b fault).2 = (s.base.write b fault).2
      rw [← h.flush, write_flush]
    have hsettled : (writer.step s.base (.write b fault)).2.settled = true :=
      settled_transmit (settled_flush _) b fault
    rw [hw]
    refine ⟨hsettled, ?_, ?_⟩
    · rw [hbase, flush_of_settled hsettled]
    · rw [hbase]
      exact .inl hsettled
  | flush =>
    simp only [isHeader, Bool.and_false, Bool.false_eq_true, if_false] at hbase
    have hw : (writer.step w .flush).2 = s.base.flush := by
      change w.flush = s.base.flush
      rw [flush_of_settled h.settled, h.flush]
    rw [hw]
    refine ⟨settled_flush _, ?_, ?_⟩
    · rw [hbase]
      exact flush_of_settled (settled_flush _)
    · rw [hbase]
      exact .inl (settled_flush _)

variable {w : Response} {s : Stack}

theorem Agrees.delivered (h : Agrees w s) : s.base.delivered = w.delivered := by
  rw [← h.flush]
  cases hpanic : s.base.panicked with
  | false => exact (Response.delivered_flush _ hpanic).symm
  | true => rw [Response.flush_of_settled (by simp [Response.settled, hpanic])]

theorem Agrees.delivered_run (h : Agrees w s) (calls : List WriterCall) :
    (stackWriter.run s calls).base.delivered = (Response.writer.run w calls).delivered :=
  (writer.run_simulation Agrees agrees_step h calls).delivered

theorem status_run (h : w.settled = true) (calls : List WriterCall) :
    (Response.writer.run w calls).settled = true ∧ (Response.writer.run w calls).status = w.status ∧
      (Response.writer.run w calls).panicked = w.panicked := by
  apply writer.run_invariant
    (fun w' => w'.settled = true ∧ w'.status = w.status ∧ w'.panicked = w.panicked)
    _ ⟨h, rfl, rfl⟩
  intro w' call hw'
  obtain ⟨hsettled, hstatus, hpanic⟩ := hw'
  cases call with
  | writeHeader code =>
    change (w'.writeHeader code).settled = true ∧ _
    rw [show (writer.step w' (.writeHeader code)).2 = w' from
      writeHeader_of_settled hsettled code,
      writeHeader_of_settled hsettled]
    exact ⟨hsettled, hstatus, hpanic⟩
  | write b fault =>
    refine ⟨settled_transmit (settled_flush _) b fault, ?_⟩
    change (w'.flush.transmit b fault).2.status = _ ∧ (w'.flush.transmit b fault).2.panicked = _
    rw [flush_of_settled hsettled, transmit]
    split
    · exact ⟨hstatus, hpanic⟩
    · split
      · exact ⟨hstatus, hpanic⟩
      · split
        · exact ⟨hstatus, hpanic⟩
        · dsimp only
          split <;> exact ⟨hstatus, hpanic⟩
  | flush =>
    change w'.flush.settled = true ∧ w'.flush.status = _ ∧ w'.flush.panicked = _
    rw [flush_of_settled hsettled]
    exact ⟨hsettled, hstatus, hpanic⟩

/-- The call is a header that leaves the response open. -/
def isInformation : WriterCall → Bool
  | .writeHeader code => isInformational code
  | _ => false

/-- The calls start with informational headers, and the next call is a header with a final
status other than 200. -/
def statusAfterInformation (calls : List WriterCall) : Bool :=
  match calls.takeWhile isInformation, calls.dropWhile isInformation with
  | _ :: _, .writeHeader code :: _ => code != 200
  | _, _ => false

theorem run_information (w : Response) {calls : List WriterCall}
    (h : ∀ call ∈ calls, isInformation call = true) : Response.writer.run w calls = w := by
  apply writer.run_induction (fun w' => w' = w) (fun call => isInformation call = true)
    _ h rfl
  intro w' call hcall hw'
  cases call with
  | writeHeader code => exact (writeHeader_informational hcall).trans hw'
  | write | flush => exact absurd hcall (by simp [isInformation])

theorem stack_run_information (s : Stack) {calls : List WriterCall}
    (h : ∀ call ∈ calls, isInformation call = true) :
    (stackWriter.run s calls).base = s.base ∧
      (calls ≠ [] → (stackWriter.run s calls).wroteHeader = true) := by
  induction calls generalizing s with
  | nil => exact ⟨rfl, fun hnil => absurd rfl hnil⟩
  | cons call calls ih =>
    obtain ⟨hcall, hrest⟩ := List.forall_mem_cons.mp h
    cases call with
    | write | flush => exact absurd hcall (by simp [isInformation])
    | writeHeader code =>
      obtain ⟨hbase, -⟩ := ih (stackWriter.step s (.writeHeader code)).2 hrest
      have hsame : (stackWriter.step s (.writeHeader code)).2.base = s.base := by
        rw [base_step]
        split
        · rfl
        · exact writeHeader_informational hcall
      refine ⟨hbase.trans hsame, fun _ => ?_⟩
      rw [Machine.run_cons]
      apply stackWriter.run_invariant (fun s' => s'.wroteHeader = true)
      · exact fun _ call' hflag => ResponseWriterWithMetrics.wroteHeader_step _ hflag call'
      · exact ResponseWriterWithMetrics.wroteHeader_header _ s code

theorem agrees_of_passed {call : WriterCall} (hbase : s.base = w)
    (hpass : (s.closed && isHeader call) = false) (hcall : isInformation call = false) :
    Agrees (Response.writer.step w call).2 (stackWriter.step s call).2 := by
  have hstep : (stackWriter.step s call).2.base = (writer.step w call).2 := by
    rw [base_step, hpass, hbase, if_neg (by simp)]
  have hsettled : (writer.step w call).2.settled = true := by
    cases call with
    | writeHeader code => exact settled_writeHeader hcall
    | write b fault => exact settled_transmit (settled_flush _) b fault
    | flush => exact settled_flush _
  refine ⟨hsettled, ?_, .inl (hstep ▸ hsettled)⟩
  rw [hstep, flush_of_settled hsettled]

theorem agrees_of_dropped (hbase : s.base = w) (hflag : s.wroteHeader = true) (code : Int) :
    Agrees w.flush (stackWriter.step s (.writeHeader code)).2 := by
  have hdrop : (stackWriter.step s (.writeHeader code)).2.base = w := by
    rw [base_step, Stack.closed, hflag, hbase]
    rfl
  refine ⟨settled_flush w, ?_, .inr ?_⟩
  · rw [hdrop]
  · exact ResponseWriterWithMetrics.wroteHeader_step _ hflag _

theorem delivered_dropped (hbase : s.base = w)
    (hopen : w.settled = false) (hflag : s.wroteHeader = true) (code : Int)
    (after : List WriterCall) :
    ∃ body, (stackWriter.run s (.writeHeader code :: after)).base.delivered = some (200, body) := by
  have hflush : w.flush.status = 200 ∧ w.flush.panicked = false := by
    rw [flush, writeHeader, hopen]
    exact ⟨rfl, (Bool.or_eq_false_iff.mp hopen).2⟩
  have hsame := (agrees_of_dropped hbase hflag code).delivered_run after
  obtain ⟨hsettled, hstatus, hpanic⟩ := status_run (settled_flush w) after
  refine ⟨(writer.run w.flush after).body, hsame.trans ?_⟩
  rw [delivered, hpanic, hflush.2, flush_of_settled hsettled, hstatus, hflush.1]
  rfl

theorem delivered_bare (hopen : w.settled = false) {code : Int}
    (hcode : isInformational code = false) (after : List WriterCall) :
    (Response.writer.run w (.writeHeader code :: after)).delivered = none ∨
      ∃ body, (Response.writer.run w (.writeHeader code :: after)).delivered =
        some (code, body) := by
  obtain ⟨hsettled, hstatus, hpanic⟩ :=
    status_run (settled_writeHeader (w := w) hcode) after
  change (writer.run (w.writeHeader code) after).delivered = none ∨
    ∃ body, (writer.run (w.writeHeader code) after).delivered = some (code, body)
  rw [delivered, hpanic, flush_of_settled hsettled, hstatus,
    writeHeader, hopen, hcode]
  by_cases hrange : code < 100 ∨ 999 < code
  · left
    simp [hrange]
  · right
    simp [hrange, (Bool.or_eq_false_iff.mp hopen).2]

/-- What the client gets through the three wrappers is what it gets from the bare writer,
unless the handler sends informational headers and then a final status other than 200. -/
theorem delivered_stack_iff (contentLength : Option Nat) (calls : List WriterCall) :
    (stackWriter.run (stack { contentLength }) calls).base.delivered =
        (Response.writer.run { contentLength } calls).delivered ↔
      statusAfterInformation calls = false := by
  have hinfo : ∀ call ∈ calls.takeWhile isInformation, isInformation call = true :=
    fun call hcall => List.mem_takeWhile_imp hcall
  have hnext := List.head?_dropWhile_not isInformation calls
  have hbare := run_information { contentLength } hinfo
  obtain ⟨hbase, hflag⟩ := stack_run_information (stack { contentLength }) hinfo
  rw [statusAfterInformation]
  conv_lhs => rw [← List.takeWhile_append_dropWhile (p := isInformation) (l := calls)]
  rw [Machine.run_append, Machine.run_append, hbare]
  generalize calls.takeWhile isInformation = before at *
  cases hrest : calls.dropWhile isInformation with
  | nil =>
    rw [Machine.run_nil, Machine.run_nil, hbase]
    simp [stack, Stack.base, accessLogResponseWriter, responseWriterWithStatus]
  | cons call after =>
    rw [hrest] at hnext
    replace hnext : isInformation call = false := hnext
    have hopen : (stackWriter.run (stack { contentLength }) before).base =
        { contentLength } := hbase
    cases before with
    | nil =>
      -- the first call settles both
      simp only [iff_true]
      exact (agrees_of_passed hopen rfl hnext).delivered_run after
    | cons =>
      replace hflag := hflag (by simp)
      cases call with
      | write | flush =>
        simp only [iff_true]
        exact (agrees_of_passed hopen (by simp [isHeader]) hnext).delivered_run after
      | writeHeader code =>
        simp only [bne_eq_false_iff_eq]
        constructor
        · -- the two statuses could only be the same if the handler asked for 200
          intro hsame
          obtain ⟨body, hdropped⟩ := delivered_dropped hopen rfl hflag code after
          rw [hdropped] at hsame
          obtain hnone | ⟨body', hsome⟩ :=
            delivered_bare (w := { contentLength }) rfl hnext after
          · rw [hnone] at hsame
            exact absurd hsame (by simp)
          · rw [hsome] at hsame
            simp only [Option.some.injEq, Prod.mk.injEq] at hsame
            exact hsame.1.symm
        · rintro rfl
          exact (agrees_of_dropped hopen hflag 200).delivered_run after

/-- A handler that sends early hints and then "not found" is answered 200. -/
theorem early_hints_lose_status :
    (Response.writer.run {} [.writeHeader 103, .writeHeader 404]).delivered = some (404, []) ∧
      (stackWriter.run (stack {}) [.writeHeader 103, .writeHeader 404]).base.delivered =
        some (200, []) := by
  decide

end Torii.Middleware
