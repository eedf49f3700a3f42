import Torii.Go.Net
import Torii.Middleware.Request

/-!
# The web application firewall

`middleware/coraza_middleware.go` around the engine of `corazawaf/coraza`, a transaction that each
phase may interrupt. In the phase of the response headers the wrapper only puts the status of the
interruption in place of the one of the handler, and passes on what the handler writes.
-/

namespace Torii.Middleware

open Go Go.Http

/-! ### The engine and the writer below -/

/-- `types.Interruption`, as far as it is read. -/
structure Interruption where
  ruleID : Int
  status : Int
deriving DecidableEq

/-- `types.Transaction`; an error is its text. -/
structure Transaction where
  State : Type
  start : State
  processConnection : State → String → Int → String → Int → State
  processURI : State → String → String → String → State
  addRequestHeader : State → String → String → State
  processRequestHeaders : State → Option Interruption × State
  readRequestBodyFrom : State → List UInt8 → (Option Interruption × Option String) × State
  processRequestBody : State → (Option Interruption × Option String) × State
  addResponseHeader : State → String → String → State
  processResponseHeaders : State → Int → String → Option Interruption × State
  writeResponseBody : State → List UInt8 → State
  processResponseBody : State → (Option Interruption × Option String) × State

/-- `http.ResponseWriter`. `Write` tells how many bytes it took. -/
structure ResponseWriter (W : Type) where
  header : W → Header
  writeHeader : W → Int → W
  write : W → List UInt8 → Nat × W

/-- The fields of a header with their values, in the order in which a `range` loop meets them. -/
def headerLines (order : List String) (h : Header) : List (String × String) :=
  (GoMap.rangeKeys order h).flatMap fun k => ((h.lookup k).getD []).map fun v => (k, v)

/-! ### The wrapper -/

/-- The calls of a handler on the wrapper, which has no `Flush`. -/
inductive WafCall where
  | writeHeader (code : Int)
  | write (b : List UInt8)
deriving DecidableEq

/-- What a call comes to: the interruption that `ProcessResponseHeaders` returned in it, and the
bytes that the writer below took. -/
structure WafAnswer where
  interruption : Option Interruption := none
  taken : List UInt8 := []
deriving DecidableEq

section

variable {W : Type} (writer : ResponseWriter W) (T : Transaction) (order : List String)

structure WafResponseWriter (W : Type) (T : Transaction) where
  w : W
  tx : T.State
  statusCode : Int := 0
  wroteHeader : Bool := false

namespace WafResponseWriter

/-- `WriteHeader`, with the interruption that it meets. -/
def writeHeader (rw : WafResponseWriter W T) (code : Int) :
    Option Interruption × WafResponseWriter W T :=
  if rw.wroteHeader then (none, rw)
  else
    let tx := (headerLines order (writer.header rw.w)).foldl
      (fun tx line => T.addResponseHeader tx line.1 line.2) rw.tx
    let (it, tx) := T.processResponseHeaders tx code "HTTP/1.1"
    let code := (it.map (·.status)).getD code
    (it, { w := writer.writeHeader rw.w code, tx, statusCode := code, wroteHeader := true })

def write (rw : WafResponseWriter W T) (b : List UInt8) : WafAnswer × WafResponseWriter W T :=
  let (it, rw) := if rw.wroteHeader then (none, rw) else rw.writeHeader writer T order 200
  let (n, w) := writer.write rw.w b
  let tx := if 0 < n then T.writeResponseBody rw.tx (b.take n) else rw.tx
  ({ interruption := it, taken := b.take n }, { rw with w, tx })

def methods : Machine (WafResponseWriter W T) WafCall WafAnswer where
  step rw
    | .writeHeader code =>
      let (it, rw) := rw.writeHeader writer T order code
      ({ interruption := it }, rw)
    | .write b => rw.write writer T order b

end WafResponseWriter

end

/-! ### The middleware -/

/-- The parts of a request that the engine is told about. -/
structure WafRequest extends ClientRequest where
  /-- `r.URL.String()`. -/
  url : String
  /-- `r.Proto`. -/
  proto : String
  /-- What reading the body gives, if there is one. -/
  body : Option (Except String (List UInt8)) := none

/-- `netutil.SplitHostPort`. -/
def splitHostPort (addr : String) : String × Int :=
  match Net.splitHostPort addr with
  | none => (addr, 0)
  | some (host, portStr) => (host, ((Strconv.atoi portStr).map Int64.toInt).getD 0)

/-- How the handling of a request ends: with an `http.Error` of status 403, with a status alone,
because of a phase of the request or of a failure, or with the handler's response. -/
inductive WafOutcome (W : Type) (T : Transaction) where
  | forbidden
  | blocked (info : BlockInfo) (w : W)
  | failed (w : W)
  | served (rw : WafResponseWriter W T) (info : Option BlockInfo)

/-- The parts of `corazaConfig` that the handler reads. -/
structure CorazaConfig where
  inspectReqBody : Bool
  inspectResBody : Bool

/-- `Blocked by Coraza` in a phase. -/
def wafBlockInfo (phase : Int) (it : Interruption) : BlockInfo where
  middleware := "coraza-waf"
  reason := "Blocked by Coraza at phase " ++ Strconv.itoa phase ++ ": rule " ++
    Strconv.itoa it.ruleID ++ ", status " ++ Strconv.itoa it.status
  topic := "waf.blocked"

section

variable {W : Type} (writer : ResponseWriter W) (T : Transaction) (order : List String)
  (cfg : CorazaConfig)

/-- The body of the request goes through the engine: an interruption with its phase, a failure, or
the state after it. -/
def inspectRequestBody (tx : T.State) (body : Except String (List UInt8)) :
    Except (Option (Int × Interruption)) T.State :=
  match body with
  | .error _ => .error none
  | .ok bodyBytes =>
    match T.readRequestBodyFrom tx bodyBytes with
    | ((some it, _), _) => .error (some (2, it))
    | ((none, some _), _) => .error none
    | ((none, none), tx) =>
      match T.processRequestBody tx with
      | ((some it, _), _) => .error (some (3, it))
      | ((none, some _), _) => .error none
      | ((none, none), tx) => .ok tx

def inspectRequest (r : WafRequest) (tx : T.State) :
    Except (Option (Int × Interruption)) T.State :=
  let tx := (headerLines order r.header).foldl
    (fun tx line => T.addRequestHeader tx line.1 line.2) tx
  let tx := if r.host ≠ "" then T.addRequestHeader tx "Host" r.host else tx
  match T.processRequestHeaders tx with
  | (some it, _) => .error (some (1, it))
  | (none, tx) =>
    match r.body with
    | none => .ok tx
    | some body => if cfg.inspectReqBody then inspectRequestBody T tx body else .ok tx

/-- What `CorazaWAFMiddleware` does before it calls the wrapped handler. -/
def admitRequest (w : W) (r : WafRequest) : Except (WafOutcome W T) T.State :=
  let (clientIP, clientPort) := splitHostPort r.remoteAddr
  if clientIP = "" then .error .forbidden
  else
    let (serverHost, serverPort) := splitHostPort r.host
    let tx := T.processConnection T.start clientIP clientPort serverHost serverPort
    let tx := T.processURI tx r.url r.method r.proto
    match inspectRequest T order cfg r tx with
    | .error (some (phase, it)) =>
      .error (.blocked (wafBlockInfo phase it) (writer.writeHeader w it.status))
    | .error none => .error (.failed (writer.writeHeader w 500))
    | .ok tx => .ok tx

/-- The handler of `CorazaWAFMiddleware`. The wrapped handler is the calls that it makes for a
request. -/
def corazaMiddleware (next : WafRequest → List WafCall) (w : W) (r : WafRequest) :
    WafOutcome W T :=
  match admitRequest writer T order cfg w r with
  | .error outcome => outcome
  | .ok tx =>
    let rw := (WafResponseWriter.methods writer T order).run { w, tx } (next r)
    if cfg.inspectResBody then
      .served rw ((T.processResponseBody rw.tx).1.1.map (wafBlockInfo 4))
    else .served rw none

end

/-! ### What is hidden -/

section

variable {W : Type} (writer : ResponseWriter W) (T : Transaction) (order : List String)

/-- After an interruption no byte of a later `Write` is taken. -/
def HidesLater (trace : List (WafCall × WafAnswer)) : Prop :=
  ∀ before entry after, trace = before ++ entry :: after →
    entry.2.interruption.isSome = true → ∀ later ∈ after, later.2.taken = []

/-- After an interruption no byte is taken, of the `Write` that brought it about neither. -/
def HidesAll (trace : List (WafCall × WafAnswer)) : Prop :=
  ∀ before entry after, trace = before ++ entry :: after →
    entry.2.interruption.isSome = true → ∀ later ∈ entry :: after, later.2.taken = []

def writesOf (cs : List WafCall) : List (List UInt8) :=
  cs.filterMap fun
    | .write b => some b
    | .writeHeader _ => none

/-- The bytes that a writer takes of some writes. -/
def takes (w : W) : List (List UInt8) → List UInt8
  | [] => []
  | b :: bs => b.take (writer.write w b).1 ++ takes (writer.write w b).2 bs

def firstInterruption (w : W) (tx : T.State) (cs : List WafCall) : Option Interruption :=
  match cs with
  | [] => none
  | c :: _ =>
    let code := match c with
      | .writeHeader code => code
      | .write _ => 200
    let tx := (headerLines order (writer.header w)).foldl
      (fun tx line => T.addResponseHeader tx line.1 line.2) tx
    (T.processResponseHeaders tx code "HTTP/1.1").1

namespace WafResponseWriter

theorem trace_of_wroteHeader (rw : WafResponseWriter W T) (h : rw.wroteHeader = true)
    (cs : List WafCall) :
    (∀ entry ∈ (methods writer T order).trace rw cs, entry.2.interruption = none) ∧
      ((methods writer T order).trace rw cs).flatMap (fun entry => entry.2.taken) =
        takes writer rw.w (writesOf cs) := by
  induction cs generalizing rw with
  | nil => exact ⟨fun _ hentry => (List.not_mem_nil hentry).elim, rfl⟩
  | cons c cs ih =>
    cases c with
    | writeHeader code =>
      have hstep : (methods writer T order).step rw (.writeHeader code) = ({}, rw) := by
        simp only [methods, writeHeader, h, if_true]
      obtain ⟨ihnone, ihtaken⟩ := ih rw h
      rw [Machine.trace, hstep]
      refine ⟨?_, ihtaken⟩
      intro entry hentry
      obtain rfl | hentry := List.mem_cons.mp hentry
      · rfl
      · exact ihnone entry hentry
    | write b =>
      have hanswer : ((methods writer T order).step rw (.write b)).1 =
          { taken := b.take (writer.write rw.w b).1 } := by
        simp only [methods, write, h, if_true]
      have hnext : ((methods writer T order).step rw (.write b)).2.w =
          (writer.write rw.w b).2 := by
        simp only [methods, write, h, if_true]
      have hwrote : ((methods writer T order).step rw (.write b)).2.wroteHeader = true := by
        simp only [methods, write, h, if_true]
      obtain ⟨ihnone, ihtaken⟩ := ih _ hwrote
      rw [Machine.trace, hanswer]
      refine ⟨?_, ?_⟩
      · intro entry hentry
        obtain rfl | hentry := List.mem_cons.mp hentry
        · rfl
        · exact ihnone entry hentry
      · rw [List.flatMap_cons, ihtaken, hnext]
        rfl

theorem step_first (w : W) (tx : T.State) (c : WafCall) :
    ((methods writer T order).step { w, tx } c).1.interruption =
        firstInterruption writer T order w tx [c] ∧
      ((methods writer T order).step { w, tx } c).2.wroteHeader = true ∧
      ∀ it, firstInterruption writer T order w tx [c] = some it →
        ((methods writer T order).step { w, tx } c).1.taken =
            takes writer (writer.writeHeader w it.status) (writesOf [c]) ∧
          ((methods writer T order).step { w, tx } c).2.w =
            (writesOf [c]).foldl (fun w b => (writer.write w b).2)
              (writer.writeHeader w it.status) := by
  cases c with
  | writeHeader code =>
    refine ⟨rfl, rfl, ?_⟩
    intro it hit
    have hstatus : ((methods writer T order).step { w, tx } (.writeHeader code)).2.w =
        writer.writeHeader w (((firstInterruption writer T order w tx
          [.writeHeader code]).map (·.status)).getD code) := rfl
    rw [hit] at hstatus
    exact ⟨rfl, hstatus⟩
  | write b =>
    refine ⟨rfl, rfl, ?_⟩
    intro it hit
    have hheader : (writeHeader writer T order { w, tx } 200).2.w =
        writer.writeHeader w (((firstInterruption writer T order w tx
          [.write b]).map (·.status)).getD 200) := rfl
    rw [hit] at hheader
    have htaken : ((methods writer T order).step { w, tx } (.write b)).1.taken =
        b.take (writer.write (writeHeader writer T order { w, tx } 200).2.w b).1 := rfl
    have hnext : ((methods writer T order).step { w, tx } (.write b)).2.w =
        (writer.write (writeHeader writer T order { w, tx } 200).2.w b).2 := rfl
    rw [htaken, hnext, hheader]
    exact ⟨(List.append_nil _).symm, rfl⟩

end WafResponseWriter

section

variable {entry : WafCall × WafAnswer} {entries : List (WafCall × WafAnswer)}
  (hnone : ∀ e ∈ entries, e.2.interruption = none)
include hnone

theorem eq_of_interrupted {before after : List (WafCall × WafAnswer)} {e : WafCall × WafAnswer}
    (heq : entry :: entries = before ++ e :: after) (hsome : e.2.interruption.isSome = true) :
    e = entry ∧ after = entries := by
  cases before with
  | nil =>
    obtain ⟨hentry, hentries⟩ := List.cons.inj heq
    exact ⟨hentry.symm, hentries.symm⟩
  | cons =>
    obtain ⟨-, hentries⟩ := List.cons.inj heq
    rw [hnone e (by rw [hentries]; simp)] at hsome
    cases hsome

/-- Only the first entry can be interrupted. -/
theorem forall_interrupted_cons (P : WafCall × WafAnswer → List (WafCall × WafAnswer) → Prop) :
    (∀ before e after, entry :: entries = before ++ e :: after →
      e.2.interruption.isSome = true → P e after) ↔
      (entry.2.interruption.isSome = true → P entry entries) := by
  constructor
  · intro h hsome
    exact h [] entry entries rfl hsome
  · intro h before e after heq hsome
    obtain ⟨rfl, rfl⟩ := eq_of_interrupted hnone heq hsome
    exact h hsome

theorem hidesLater_cons :
    HidesLater (entry :: entries) ↔ (entry.2.interruption.isSome = true →
      entries.flatMap (fun e => e.2.taken) = []) := by
  rw [List.flatMap_eq_nil_iff]
  exact forall_interrupted_cons hnone fun _ after => ∀ later ∈ after, later.2.taken = []

theorem hidesAll_cons :
    HidesAll (entry :: entries) ↔ (entry.2.interruption.isSome = true →
      (entry :: entries).flatMap (fun e => e.2.taken) = []) := by
  rw [List.flatMap_eq_nil_iff]
  exact forall_interrupted_cons hnone fun e after => ∀ later ∈ e :: after, later.2.taken = []

end

/-- When an interruption hides what the handler writes: in later calls, and in all of them. -/
theorem hides_iff (w : W) (tx : T.State) (cs : List WafCall) :
    (HidesLater ((WafResponseWriter.methods writer T order).trace { w, tx } cs) ↔
      ∀ it, firstInterruption writer T order w tx cs = some it →
        takes writer ((writesOf (cs.take 1)).foldl (fun w b => (writer.write w b).2)
          (writer.writeHeader w it.status)) (writesOf (cs.drop 1)) = []) ∧
    (HidesAll ((WafResponseWriter.methods writer T order).trace { w, tx } cs) ↔
      ∀ it, firstInterruption writer T order w tx cs = some it →
        takes writer (writer.writeHeader w it.status) (writesOf cs) = []) := by
  cases cs with
  | nil =>
    simp [HidesLater, HidesAll, Machine.trace, firstInterruption]
  | cons c cs =>
    obtain ⟨hinterruption, hwrote, hfirst⟩ := WafResponseWriter.step_first writer T order w tx c
    obtain ⟨hnone, htaken⟩ := WafResponseWriter.trace_of_wroteHeader writer T order _ hwrote cs
    have hsame : firstInterruption writer T order w tx (c :: cs) =
        firstInterruption writer T order w tx [c] := by
      cases c <;> rfl
    have hsplit : ∀ it : Interruption,
        takes writer (writer.writeHeader w it.status) (writesOf (c :: cs)) =
        takes writer (writer.writeHeader w it.status) (writesOf [c]) ++
          takes writer ((writesOf [c]).foldl (fun w b => (writer.write w b).2)
            (writer.writeHeader w it.status)) (writesOf cs) := by
      intro it
      cases c with
      | writeHeader code => rfl
      | write b => simp [writesOf, takes]
    rw [Machine.trace, hidesLater_cons hnone, hidesAll_cons hnone, List.flatMap_cons, htaken,
      hinterruption, hsame]
    cases hit : firstInterruption writer T order w tx [c] with
    | none => simp
    | some it =>
      obtain ⟨hbytes, hnext⟩ := hfirst it hit
      rw [hbytes, hnext]
      simp only [Option.isSome_some, true_imp_iff, Option.some.injEq, forall_eq',
        List.take_succ_cons, List.take_zero, List.drop_succ_cons, List.drop_zero, hsplit, and_self]

end

def leakRule : Transaction where
  State := Bool
  start := false
  processConnection tx _ _ _ _ := tx
  processURI tx _ _ _ := tx
  addRequestHeader tx _ _ := tx
  processRequestHeaders tx := (none, tx)
  readRequestBodyFrom tx _ := ((none, none), tx)
  processRequestBody tx := ((none, none), tx)
  addResponseHeader tx k _ := tx || k == "X-Leak"
  processResponseHeaders tx _ _ := (if tx then some ⟨950100, 403⟩ else none, tx)
  writeResponseBody tx _ := tx
  processResponseBody tx := ((none, none), tx)

def recorder : ResponseWriter (Header × List UInt8) where
  header w := w.1
  writeHeader w _ := w
  write w b := (b.length, (w.1, w.2 ++ b))

def leaking : Header × List UInt8 := (AList.insert "X-Leak" ["1"] ∅, [])

def pageRequest : WafRequest where
  remoteAddr := "203.0.113.7:4711"
  header := ∅
  host := "shop.example.com"
  url := "/"
  proto := "HTTP/1.1"

/-- The client gets status 403 and the body of the handler. -/
theorem leak_not_hidden :
    (WafResponseWriter.methods recorder leakRule []).trace { w := leaking, tx := false }
        [.writeHeader 200, .write [104, 105]] =
      [(.writeHeader 200, { interruption := some ⟨950100, 403⟩ }),
        (.write [104, 105], { taken := [104, 105] })] ∧
    ¬ HidesLater ((WafResponseWriter.methods recorder leakRule []).trace
        { w := leaking, tx := false } [.writeHeader 200, .write [104, 105]]) ∧
    ∃ rw, corazaMiddleware recorder leakRule [] ⟨true, true⟩
        (fun _ => [.writeHeader 200, .write [104, 105]]) leaking pageRequest = .served rw none ∧
      rw.statusCode = 403 ∧ rw.w.2 = [104, 105] := by
  have htrace : (WafResponseWriter.methods recorder leakRule []).trace
      { w := leaking, tx := false } [.writeHeader 200, .write [104, 105]] =
      [(.writeHeader 200, { interruption := some ⟨950100, 403⟩ }),
        (.write [104, 105], { taken := [104, 105] })] := by decide +kernel
  refine ⟨htrace, ?_, _, rfl, by decide +kernel, by decide +kernel⟩
  rw [htrace]
  intro h
  have hlater := h [] _ _ rfl rfl (.write [104, 105], { taken := [104, 105] }) (by simp)
  cases hlater

end Torii.Middleware
