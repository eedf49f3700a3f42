import Torii.Middleware.Request

/-!
# The header middleware

`middleware/header_middlware.go`: rules that set, compare and strip header fields. Those for the
response are applied to the header map once, at the first `WriteHeader`, `Write` or `Flush`. An
informational header is such a first call: the proxy empties the map after it, and the final block
has nothing of the rules.
-/

namespace Torii.Middleware

open Go Go.Http Torii.Util

inductive HeaderRule where
  | setRequest (header : String) (resolver : ClientRequest → String)
  | compareRequest (header : String) (resolver : ClientRequest → String)
  | setResponse (header value : String)
  | stripRequest (header : String)
  | stripResponse (header : String)

namespace HeaderRule

/-- `applyRequest`; an error is what is left in the context when it returns false. -/
def applyRequest : HeaderRule → ClientRequest → Except BlockInfo ClientRequest
  | .setRequest header resolver, r => .ok { r with header := r.header.set header (resolver r) }
  | .compareRequest header resolver, r =>
    let expected := resolver r
    let actual := r.header.get header
    if actual ≠ expected then
      .error {
        middleware := "headers"
        reason := "header-" ++ header ++ "-mismatch-value"
        topic := "header.cmp.blocked" }
    else .ok r
  | .setResponse _ _, r => .ok r
  | .stripRequest header, r => .ok { r with header := r.header.del header }
  | .stripResponse _, r => .ok r

/-- `applyResponse`. A stripped name is kept without values, so that the server does not add it
either. -/
def applyResponse : HeaderRule → Header → Header
  | .setResponse header value, h => h.set header value
  | .stripResponse header, h => h.insert (canonicalHeaderKey header) []
  | .setRequest _ _, h => h
  | .compareRequest _ _, h => h
  | .stripRequest _, h => h

end HeaderRule

/-- The loop of `flushResponseHeaders`. -/
def applyResponses (rules : List HeaderRule) (h : Header) : Header :=
  rules.foldl (fun h rule => rule.applyResponse h) h

/-! ### The configuration -/

inductive HeadersError where
  | optionsNil
  | notMap (key : String)
  | notSlice (key : String)
  | valueNotString (key header : String)
  | elementNotString (key : String)
  | emptyKey (key : String)
  | emptyElement (key : String)
  | emptyValue
  | onlyDollar
  | unknownResolver (raw : String)
  | resolve (cause : ResolveError)
  | ofHeader (what header : String) (cause : HeadersError)

def HeadersError.message (quote : String → String) : HeadersError → String
  | .optionsNil => "Options for headers middleware is nil"
  | .notMap key => key ++ " must be a map[string]interface\x7b\x7d"
  | .notSlice key => key ++ " must be a []interface\x7b\x7d"
  | .valueNotString key header => key ++ " header " ++ header ++ " value must be a string"
  | .elementNotString key => key ++ " header value must be a string"
  | .emptyKey key => key ++ " header key cannot be empty"
  | .emptyElement key => key ++ " header value cannot be empty"
  | .emptyValue => "empty header value"
  | .onlyDollar => "header value cannot be just $"
  | .unknownResolver raw =>
    "unknown request resolver or invalid value resolver syntax: " ++ raw
  | .resolve cause => cause.message quote
  | .ofHeader what header cause => what ++ " header " ++ header ++ ": " ++ cause.message quote

/-- `compileStaticValueResolver`: the value does not depend on the request. -/
def compileStaticValueResolver (src : Sources) (raw : String) : Except HeadersError String :=
  if raw = "" then .error .emptyValue
  else if ! "$".toList.isPrefixOf raw.toList then .ok raw
  else if raw.utf8ByteSize = 1 then .error .onlyDollar
  else if ! Strings.contains raw ":" then .error (.unknownResolver raw)
  else (resolveValue src raw).mapError .resolve

def compileValueResolver (src : Sources) (raw : String) :
    Except HeadersError (ClientRequest → String) :=
  if raw = "" then .error .emptyValue
  else if ! "$".toList.isPrefixOf raw.toList then .ok fun _ => raw
  else if raw.utf8ByteSize = 1 then .error .onlyDollar
  else
    match getRequestResolver raw with
    | some resolver => .ok resolver
    | none => (compileStaticValueResolver src raw).map fun value _ => value

/-- One round of `parseConfigMap`. -/
def parseField (key : String) (setFunc : String → String → Except HeadersError HeaderRule)
    (field : String × OptionValue) : Except HeadersError HeaderRule :=
  match field.2 with
  | .string castedVal =>
    let canonicalKey := canonicalHeaderKey field.1
    if canonicalKey = "" then .error (.emptyKey key) else setFunc canonicalKey castedVal
  | _ => .error (.valueNotString key field.1)

def parseConfigMap (opts : GoMap String OptionValue) (key : String) (order : List String)
    (setFunc : String → String → Except HeadersError HeaderRule) :
    Except HeadersError (List HeaderRule) :=
  match opts.lookup key with
  | none => .ok []
  | some (.map castedMap) => (rangeFields order castedMap).mapM (parseField key setFunc)
  | some _ => .error (.notMap key)

/-- One round of `parseConfigSlice`. -/
def parseElement (key : String) (setFunc : String → HeaderRule) :
    OptionValue → Except HeadersError HeaderRule
  | .string castedVal =>
    if canonicalHeaderKey castedVal = "" then .error (.emptyElement key)
    else .ok (setFunc castedVal)
  | _ => .error (.elementNotString key)

def parseConfigSlice (opts : GoMap String OptionValue) (key : String)
    (setFunc : String → HeaderRule) : Except HeadersError (List HeaderRule) :=
  match opts.lookup key with
  | none => .ok []
  | some (.list castedSlice) => castedSlice.mapM (parseElement key setFunc)
  | some _ => .error (.notSlice key)

structure RangeOrders where
  setReq : List String := []
  cmpReq : List String := []
  setRes : List String := []

def parseConfiguration (src : Sources) (orders : RangeOrders) (conf : Config) :
    Except HeadersError (List HeaderRule) :=
  match conf.options with
  | none => .error .optionsNil
  | some opts => do
      let setReq ← parseConfigMap opts "set-headers-req" orders.setReq fun k v =>
        match compileValueResolver src v with
        | .error e => .error (.ofHeader "request set" k e)
        | .ok resolver => .ok (.setRequest k resolver)
      let cmpReq ← parseConfigMap opts "cmp-headers-req" orders.cmpReq fun k v =>
        match compileValueResolver src v with
        | .error e => .error (.ofHeader "request compare" k e)
        | .ok resolver => .ok (.compareRequest k resolver)
      let setRes ← parseConfigMap opts "set-headers-res" orders.setRes fun k v =>
        match compileStaticValueResolver src v with
        | .error e => .error (.ofHeader "response set" k e)
        | .ok value => .ok (.setResponse k value)
      let stripReq ← parseConfigSlice opts "strip-headers-req" fun v =>
        .stripRequest (canonicalHeaderKey v)
      let stripRes ← parseConfigSlice opts "strip-headers-res" fun v =>
        .stripResponse (canonicalHeaderKey v)
      return setReq ++ cmpReq ++ setRes ++ stripReq ++ stripRes

/-! ### The wrapper -/

structure HeadersWriter where
  w : ServerReply
  headerWritten : Bool := false

namespace HeadersWriter

variable (rules : List HeaderRule)

def flushResponseHeaders (hw : HeadersWriter) : HeadersWriter :=
  if hw.headerWritten then hw
  else
    { w := { hw.w with header := applyResponses rules hw.w.header }
      headerWritten := true }

/-- The methods of the wrapper; `Header` gives out the map of the wrapped writer. -/
def methods : Machine HeadersWriter HandlerCall Unit where
  step hw c :=
    match c with
    | .edit f => ((), { hw with w := hw.w.call (.edit f) })
    | c =>
      let hw := hw.flushResponseHeaders rules
      ((), { hw with w := hw.w.call c })

end HeadersWriter

/-- The loop over the rules before the handler is called. -/
def applyRequests : List HeaderRule → ClientRequest → Except BlockInfo ClientRequest
  | [], r => .ok r
  | rule :: rules, r => do applyRequests rules (← rule.applyRequest r)

/-- `HeadersMiddleware`: the reply, and what is left in the context of a request that is turned
away. The handler is the calls that it makes for a request. -/
def headersMiddleware (src : Sources) (orders : RangeOrders) (conf : Config)
    (next : ClientRequest → List HandlerCall) (w : ServerReply) (r : ClientRequest) :
    ServerReply × Option BlockInfo :=
  match parseConfiguration src orders conf with
  | .error _ =>
    (w.httpError "HeadersMiddleware misconfigured" .serviceUnavailable, none)
  | .ok [] => (w.after (next r), none)
  | .ok rules =>
    match applyRequests rules r with
    | .error info => (w.writeHeader .unauthorized, some info)
    | .ok r =>
      let hw := (HeadersWriter.methods rules).run { w } (next r)
      ((hw.flushResponseHeaders rules).w, none)

/-! ### The final block -/

namespace HeadersWriter

variable {rules : List HeaderRule}

theorem run_of_headerWritten (w : ServerReply) (cs : List HandlerCall) :
    (methods rules).run { w, headerWritten := true } cs =
      { w := w.after cs, headerWritten := true } := by
  induction cs generalizing w with
  | nil => rfl
  | cons c cs ih =>
    cases c with
    | edit | writeHeader | write | flush => exact ih _

/-- A call that commits an open reply, through the wrapper. -/
theorem final_run_of_commits {w : ServerReply} (hopen : w.settled = false) {c : HandlerCall}
    (hc : c.commits = true) (cs : List HandlerCall) :
    ((((methods rules).run { w } (c :: cs)).flushResponseHeaders rules).w.final).block =
      applyResponses rules (w.after (c :: cs)).final.block := by
  have hstep : ((methods rules).step { w } c).2 =
      { w := ({ w with header := applyResponses rules w.header }).call c
        headerWritten := true } := by
    cases c with
    | edit f => cases hc
    | writeHeader | write | flush => rfl
  obtain ⟨hsettled, hfinal⟩ := ServerReply.call_of_commits hopen hc
  obtain ⟨hsettled', hfinal'⟩ := ServerReply.call_of_commits
    (w := { w with header := applyResponses rules w.header }) hopen hc
  rw [Machine.run_cons, hstep, run_of_headerWritten, flushResponseHeaders, if_pos rfl,
    ServerReply.final_after_of_settled _ hsettled', hfinal', ServerReply.after_cons,
    ServerReply.final_after_of_settled _ hsettled, hfinal]

theorem final_run {w : ServerReply} (hopen : w.settled = false) (cs : List HandlerCall) :
    ((((methods rules).run { w } (proxied cs)).flushResponseHeaders rules).w.final).block =
      if startsInformational cs then (w.after (proxied cs)).final.block
      else applyResponses rules (w.after (proxied cs)).final.block := by
  induction cs generalizing w with
  | nil =>
    have hopen' : { w with header := applyResponses rules w.header }.settled = false := hopen
    rw [startsInformational, if_neg Bool.false_ne_true]
    exact (congrArg FinalHeader.block (ServerReply.final_of_open hopen')).trans
      (congrArg (fun final => applyResponses rules final.block)
        (ServerReply.final_of_open hopen)).symm
  | cons c cs ih =>
    cases c with
    | edit f =>
      have hopen' : (w.call (.edit f)).settled = false := hopen
      exact ih hopen'
    | write | flush => exact final_run_of_commits hopen rfl (proxied cs)
    | writeHeader status =>
      cases hstatus : status.informational with
      | true =>
        -- both maps are empty after it, and the wrapper is done
        have hpass : ∀ v : ServerReply, v.call (.writeHeader status) = v := fun v =>
          ServerReply.writeHeader_of_informational hstatus
        rw [startsInformational, hstatus, if_pos rfl, proxied_informational hstatus,
          ServerReply.after_cons, hpass, ServerReply.after_cons]
        have hrun : (methods rules).run { w }
            (.writeHeader status :: .edit (fun _ => ∅) :: proxied cs) =
            (methods rules).run { w := w.call (.edit fun _ => ∅), headerWritten := true }
              (proxied cs) := by
          simp only [Machine.run_cons, methods, flushResponseHeaders, Bool.false_eq_true,
            if_false, hpass]
          rfl
        rw [hrun, run_of_headerWritten, flushResponseHeaders, if_pos rfl]
      | false =>
        rw [startsInformational, hstatus, if_neg Bool.false_ne_true,
          proxied_writeHeader hstatus]
        exact final_run_of_commits hopen (HandlerCall.commits_writeHeader hstatus)
          (proxied cs)

end HeadersWriter

end Torii.Middleware
