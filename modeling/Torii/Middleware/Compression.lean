import Torii.Go.Reply
import Torii.Middleware.Options

/-!
# Compression of responses

`middleware/compression_middleware.go`. A wrapper looks at the header at the first `WriteHeader` or
`Write` and either compresses all that is written or passes it on. The decision is made at an
informational header too. The proxy then empties the map, and with it the field that names the
coding; a length that the handler declares afterwards is one of its own bytes.
-/

namespace Torii.Middleware

open Go Go.Http ServerReply

/-! ### Compressors -/

inductive CompressorCall where
  | write (b : List UInt8)
  | flush

/-- A compressor answers each call with the writes that it makes on the writer below. It stops after
one that failed; the server refuses all that comes after such a write, so that they can be made
here all the same. -/
structure CompressorWriter where
  Buffer : Type
  /-- What `NewWriterLevel` makes. -/
  start : Buffer
  write : Buffer → List UInt8 → List (List UInt8) × Buffer
  flush : Buffer → List (List UInt8) × Buffer
  close : Buffer → List (List UInt8)

def CompressorWriter.stream (c : CompressorWriter) (z : c.Buffer) :
    List CompressorCall → List (List UInt8)
  | [] => c.close z
  | .write b :: calls => (c.write z b).1 ++ c.stream (c.write z b).2 calls
  | .flush :: calls => (c.flush z).1 ++ c.stream (c.flush z).2 calls

def plain (calls : List CompressorCall) : List UInt8 :=
  calls.flatMap fun
    | .write b => b
    | .flush => []

/-- A compressor with its decoder. The first `Write` hands down the start of the format at
once. -/
structure Compressor extends CompressorWriter where
  decompress : List UInt8 → Option (List UInt8)
  decompress_stream : ∀ calls,
    decompress (toCompressorWriter.stream start calls).flatten = some (plain calls)
  write_start_ne_nil : ∀ b, (write start b).1 ≠ []

/-! ### The wrappers -/

def contentEncoding : String := "Content-Encoding"

def emit (w : ServerReply) (out : List (List UInt8)) : ServerReply :=
  w.after (out.map HandlerCall.write)

/-- `lazyCompressionWriter`. The `CompressionResponseWriter` is there once a compressor is, and
its reply is the one below. -/
structure LazyCompressionWriter (comp : Compressor) where
  w : ServerReply
  crw : Option comp.Buffer := none
  passthru : Bool := false
  decided : Bool := false

namespace LazyCompressionWriter

variable {comp : Compressor} (confType : String)

def decide (lw : LazyCompressionWriter comp) : LazyCompressionWriter comp :=
  if lw.decided then lw
  else if lw.w.header.get contentEncoding ≠ "" then { lw with decided := true, passthru := true }
  else
    { lw with
      decided := true
      w := { lw.w with header :=
        (lw.w.header.set contentEncoding confType).del "Content-Length" }
      crw := some comp.start }

def writeHeader (lw : LazyCompressionWriter comp) (status : StatusCode) :
    LazyCompressionWriter comp :=
  let lw := lw.decide confType
  { lw with w := lw.w.writeHeader status }

def write (lw : LazyCompressionWriter comp) (b : List UInt8) : LazyCompressionWriter comp :=
  let lw := if lw.decided then lw else lw.writeHeader confType .ok
  if lw.passthru then { lw with w := lw.w.write b }
  else
    match lw.crw with
    | none => lw
    | some z => { lw with w := emit lw.w (comp.write z b).1, crw := some (comp.write z b).2 }

def flush (lw : LazyCompressionWriter comp) : LazyCompressionWriter comp :=
  if ! lw.decided then lw
  else
    match lw.crw with
    | none => { lw with w := lw.w.flush }
    | some z => { lw with w := (emit lw.w (comp.flush z).1).flush, crw := some (comp.flush z).2 }

/-- The methods; `Header` gives out the map of the wrapped writer. -/
def methods : Machine (LazyCompressionWriter comp) HandlerCall Unit where
  step lw
    | .edit f => ((), { lw with w := lw.w.call (.edit f) })
    | .writeHeader status => ((), lw.writeHeader confType status)
    | .write b => ((), lw.write confType b)
    | .flush => ((), lw.flush)

def close (lw : LazyCompressionWriter comp) : ServerReply :=
  match lw.crw with
  | none => lw.w
  | some z => emit lw.w (comp.close z)

/-- The reply to a handler that was given the wrapper. -/
def serve (comp : Compressor) (w : ServerReply) (cs : List HandlerCall) : ServerReply :=
  ((methods confType).run ({ w } : LazyCompressionWriter comp) cs).close

end LazyCompressionWriter

/-! ### The middleware -/

inductive CompressionError where
  | option (cause : OptionError)
  | invalidType (type : String)
  | invalidLevel (type : String) (level : Int) (cause : String)

def CompressionError.message (itoa : Int → String) : CompressionError → String
  | .option cause => cause.message
  | .invalidType type => "invalid compression type: " ++ type
  | .invalidLevel type level cause =>
    "invalid " ++ type ++ " compression level " ++ itoa level ++ ": " ++ cause

/-- `NewWriterLevel` of the two packages, and the table of `strings.ToLower`. -/
structure CompressionEnv where
  gzip : Int → Except String Compressor
  zlib : Int → Except String Compressor
  lower : Char → Char

/-- `parseCompressionsOptions`. The writer that tests the level is made like the later ones. -/
def parseCompressionsOptions (env : CompressionEnv) (conf : Config) :
    Except CompressionError (String × Compressor) :=
  let options := conf.options.getD ∅
  let compressionLevel := parseIntOpt options "level" 9
  match parseStringRequired options "type" with
  | .error e => .error (.option e)
  | .ok typeComp =>
    let typeComp := Strings.toLower env.lower typeComp
    if typeComp ≠ "gzip" ∧ typeComp ≠ "zlib" then .error (.invalidType typeComp)
    else
      let newWriterLevel := if typeComp = "gzip" then env.gzip else env.zlib
      match newWriterLevel compressionLevel with
      | .error cause => .error (.invalidLevel typeComp compressionLevel cause)
      | .ok comp => .ok (typeComp, comp)

/-- `CompressionMiddleware`. The handler is the calls that it makes for a request. -/
def compressionMiddleware (env : CompressionEnv) (conf : Config)
    (next : Go.Http.Request → List HandlerCall) (w : ServerReply) (r : Go.Http.Request) :
    ServerReply :=
  match parseCompressionsOptions env conf with
  | .error _ => w.httpError "CompressionMiddleware misconfigured" .serviceUnavailable
  | .ok (cType, comp) =>
    if ! Strings.contains (r.header.get "Accept-Encoding") conf.type then w.after (next r)
    else LazyCompressionWriter.serve cType comp w (next r)

/-! ### What is handed down -/

def compressorCalls (cs : List HandlerCall) : List CompressorCall :=
  cs.filterMap fun
    | .write b => some (.write b)
    | .flush => some .flush
    | .edit _ => none
    | .writeHeader _ => none

theorem plain_compressorCalls (cs : List HandlerCall) :
    plain (compressorCalls cs) = written cs := by
  induction cs with
  | nil => rfl
  | cons c cs ih =>
    cases c with
    | edit | writeHeader | flush => exact ih
    | write b => exact congrArg (b ++ ·) ih

namespace LazyCompressionWriter

variable {comp : Compressor} (confType : String)

theorem run_of_passthru (w : ServerReply) (cs : List HandlerCall) :
    (methods confType).run
        ({ w, passthru := true, decided := true } : LazyCompressionWriter comp) cs =
      { w := w.after cs, passthru := true, decided := true } := by
  induction cs generalizing w with
  | nil => rfl
  | cons c cs ih =>
    cases c with
    | edit | writeHeader | write | flush => exact ih _

def compressing (w : ServerReply) (z : comp.Buffer) : LazyCompressionWriter comp :=
  { w, crw := some z, decided := true }

/-- The calls that reach the server. -/
def lowered (z : comp.Buffer) : List HandlerCall → List HandlerCall
  | [] => (comp.close z).map .write
  | .edit f :: cs => .edit f :: lowered z cs
  | .writeHeader status :: cs => .writeHeader status :: lowered z cs
  | .write b :: cs => (comp.write z b).1.map .write ++ lowered (comp.write z b).2 cs
  | .flush :: cs => (comp.flush z).1.map .write ++ .flush :: lowered (comp.flush z).2 cs

theorem close_run (w : ServerReply) (z : comp.Buffer) (cs : List HandlerCall) :
    ((methods confType).run (compressing w z) cs).close = w.after (lowered z cs) := by
  induction cs generalizing w z with
  | nil => rfl
  | cons c cs ih =>
    cases c with
    | edit | writeHeader => exact ih _ z
    | write b =>
      rw [lowered, after_append]
      exact ih _ (comp.write z b).2
    | flush =>
      rw [lowered, after_append]
      exact ih _ (comp.flush z).2

theorem writes_map_write (out : List (List UInt8)) (cs : List HandlerCall) :
    writes (out.map HandlerCall.write ++ cs) = out ++ writes cs := by
  induction out with
  | nil => rfl
  | cons b out ih => exact congrArg (b :: ·) ih

theorem writes_lowered (z : comp.Buffer) (cs : List HandlerCall) :
    writes (lowered z cs) = comp.stream z (compressorCalls cs) := by
  induction cs generalizing z with
  | nil =>
    have hclose := writes_map_write (comp.close z) []
    rwa [List.append_nil, show writes [] = [] from rfl, List.append_nil] at hclose
  | cons c cs ih =>
    cases c with
    | edit | writeHeader => exact ih z
    | write b => exact (writes_map_write _ _).trans (congrArg ((comp.write z b).1 ++ ·) (ih _))
    | flush => exact (writes_map_write _ _).trans (congrArg ((comp.flush z).1 ++ ·) (ih _))

theorem final_emit (w : ServerReply) (out : List (List UInt8)) : (emit w out).final = w.final := by
  cases out with
  | nil => rfl
  | cons b out => exact final_after_write b _

variable (comp) in
/-- As long as nothing is committed the compressor has not started, and the calls that commit are
those of the handler. -/
theorem final_lowered {w : ServerReply} (hopen : w.settled = false) (cs : List HandlerCall) :
    (w.after (lowered comp.start cs)).final = (w.after cs).final := by
  induction cs generalizing w with
  | nil => exact final_emit w _
  | cons c cs ih =>
    cases c with
    | edit f => exact ih (w := w.call (.edit f)) hopen
    | writeHeader status =>
      cases hstatus : status.informational with
      | true =>
        have hsame : w.call (.writeHeader status) = w := writeHeader_of_informational hstatus
        rw [lowered, after_cons, after_cons, hsame]
        exact ih hopen
      | false =>
        have hsettled := (call_of_commits hopen (HandlerCall.commits_writeHeader hstatus)).1
        rw [lowered, after_cons, after_cons, final_after_of_settled _ hsettled,
          final_after_of_settled _ hsettled]
    | write b =>
      obtain ⟨first, rest, hfirst⟩ := List.exists_cons_of_ne_nil (comp.write_start_ne_nil b)
      rw [lowered, hfirst, List.map_cons, List.cons_append, final_after_write, final_after_write]
    | flush =>
      rw [lowered, after_append, final_after_flush, final_after_flush]
      exact final_emit w _

/-- The calls of a handler without the flushes that the wrapper swallows: those before the first
`WriteHeader` or `Write`. -/
def dropEarlyFlushes : List HandlerCall → List HandlerCall
  | [] => []
  | .edit f :: cs => .edit f :: dropEarlyFlushes cs
  | .flush :: cs => dropEarlyFlushes cs
  | .writeHeader status :: cs => .writeHeader status :: cs
  | .write b :: cs => .write b :: cs

/-- The first `WriteHeader` or `Write` finds no coding in the header. -/
def compresses (h : Header) : List HandlerCall → Bool
  | [] => false
  | .edit f :: cs => compresses (f h) cs
  | .flush :: cs => compresses h cs
  | .writeHeader _ :: _ => h.get contentEncoding = ""
  | .write _ :: _ => h.get contentEncoding = ""

theorem writes_dropEarlyFlushes (cs : List HandlerCall) :
    writes (dropEarlyFlushes cs) = writes cs := by
  induction cs with
  | nil => rfl
  | cons c cs ih =>
    cases c with
    | edit | flush => exact ih
    | writeHeader | write => rfl

theorem compressorCalls_proxied (cs : List HandlerCall) :
    compressorCalls (proxied cs) = compressorCalls cs := by
  induction cs with
  | nil => rfl
  | cons c cs ih =>
    have hcons : ∀ ds, compressorCalls (ds ++ proxied cs) =
        compressorCalls ds ++ compressorCalls cs := by
      intro ds
      rw [← ih]
      exact List.filterMap_append
    cases c with
    | edit f => exact hcons [.edit f]
    | flush => exact hcons [.flush]
    | write b => exact hcons [.write b]
    | writeHeader status =>
      cases hstatus : status.informational with
      | true =>
        rw [proxied_informational hstatus]
        exact hcons [.writeHeader status, .edit fun _ => ∅]
      | false =>
        rw [proxied_writeHeader hstatus]
        exact hcons [.writeHeader status]

theorem decide_of_encoded {w : ServerReply} (h : w.header.get contentEncoding ≠ "") :
    ({ w } : LazyCompressionWriter comp).decide confType =
      { w, passthru := true, decided := true } := by
  rw [decide, if_neg Bool.false_ne_true, if_pos h]

def encoded (w : ServerReply) : ServerReply :=
  { w with header := (w.header.set contentEncoding confType).del "Content-Length" }

theorem get_encoded (w : ServerReply) :
    (encoded confType w).header.get contentEncoding = confType := by
  have hne : canonicalHeaderKey contentEncoding ≠ canonicalHeaderKey "Content-Length" := by
    decide +kernel
  rw [encoded, Header.get, Header.del, GoMap.lookup_erase', if_neg hne, Header.set,
    Header.withLines, AList.lookup_insert, Option.getD_some, List.headD_cons]

theorem declaredLength_encoded (w : ServerReply) :
    declaredLength (encoded confType w).header = none := by
  have hget : (encoded confType w).header.get "Content-Length" = "" := by
    rw [encoded, Header.get, Header.del, GoMap.lookup_erase', if_pos rfl]
    rfl
  rw [declaredLength, hget]
  rfl

theorem decide_of_plain {w : ServerReply} (h : w.header.get contentEncoding = "") :
    ({ w } : LazyCompressionWriter comp).decide confType =
      compressing (encoded confType w) comp.start := by
  rw [decide, if_neg Bool.false_ne_true, if_neg (not_not.mpr h)]
  rfl

theorem serve_of_passthru {w : ServerReply} {c : HandlerCall}
    (h : ((methods confType).step ({ w } : LazyCompressionWriter comp) c).2 =
      { w := w.call c, passthru := true, decided := true }) (cs : List HandlerCall) :
    serve confType comp w (c :: cs) = w.after (c :: cs) := by
  rw [serve, Machine.run_cons, h, run_of_passthru]
  rfl

theorem serve_of_not_compresses {w : ServerReply} {cs : List HandlerCall}
    (h : compresses w.header cs = false) :
    serve confType comp w (proxied cs) = w.after (proxied (dropEarlyFlushes cs)) := by
  induction cs generalizing w with
  | nil => rfl
  | cons c cs ih =>
    cases c with
    | edit f => exact ih (w := w.call (.edit f)) h
    | flush => exact ih h
    | writeHeader status =>
      have hencoded : w.header.get contentEncoding ≠ "" := by simpa [compresses] using h
      have hfirst : ({ w } : LazyCompressionWriter comp).writeHeader confType status =
          { w := w.writeHeader status, passthru := true, decided := true } := by
        rw [writeHeader, decide_of_encoded confType hencoded]
      have hserve := serve_of_passthru confType (c := .writeHeader status) hfirst
      cases hstatus : status.informational with
      | true =>
        rw [dropEarlyFlushes, proxied_informational hstatus]
        exact hserve _
      | false =>
        rw [dropEarlyFlushes, proxied_writeHeader hstatus]
        exact hserve _
    | write b =>
      have hencoded : w.header.get contentEncoding ≠ "" := by simpa [compresses] using h
      have hfirst : ({ w } : LazyCompressionWriter comp).write confType b =
          { w := w.write b, passthru := true, decided := true } := by
        simp only [write, Bool.false_eq_true, if_false, writeHeader,
          decide_of_encoded confType hencoded, if_true]
        have hwrite : (w.writeHeader .ok).write b = w.write b := flush_write b
        rw [hwrite]
      exact serve_of_passthru confType (c := .write b) hfirst (proxied cs)

variable (comp) in
theorem serve_writeHeader {w : ServerReply} (hplain : w.header.get contentEncoding = "")
    (status : StatusCode) (ds : List HandlerCall) :
    serve confType comp w (.writeHeader status :: ds) =
      (encoded confType w).after (lowered comp.start (.writeHeader status :: ds)) := by
  have hfirst : ({ w } : LazyCompressionWriter comp).writeHeader confType status =
      compressing ((encoded confType w).writeHeader status) comp.start := by
    rw [writeHeader, decide_of_plain confType hplain]
    rfl
  have hserve := congrArg (fun lw => ((methods confType).run lw ds).close) hfirst
  exact hserve.trans (close_run confType _ _ _)

theorem serve_write {w : ServerReply} (hplain : w.header.get contentEncoding = "")
    (b : List UInt8) (ds : List HandlerCall) :
    serve confType comp w (.write b :: ds) =
      (encoded confType w).after (lowered comp.start (.write b :: ds)) := by
  have hfirst : ({ w } : LazyCompressionWriter comp).write confType b =
      compressing (emit (encoded confType w).flush (comp.write comp.start b).1)
        (comp.write comp.start b).2 := by
    simp only [write, Bool.false_eq_true, if_false, writeHeader, decide_of_plain confType hplain]
    rfl
  -- the first write of the compressor commits what `WriteHeader` has committed before
  have hemit : emit (encoded confType w).flush (comp.write comp.start b).1 =
      emit (encoded confType w) (comp.write comp.start b).1 := by
    obtain ⟨first, rest, hfirst⟩ := List.exists_cons_of_ne_nil (comp.write_start_ne_nil b)
    rw [hfirst, emit, emit, List.map_cons, after_cons, after_cons, call, call, flush_write]
  have hserve := congrArg (fun lw => ((methods confType).run lw ds).close) hfirst
  refine hserve.trans ?_
  rw [hemit, close_run, lowered, after_append]
  rfl

/-- What a decision to compress comes to: the body is compressed, and the coding is in the final
block unless an informational header came first. -/
structure Compressed (comp : Compressor) (w : ServerReply) (cs : List HandlerCall)
    (reply : ServerReply) : Prop where
  status_eq : reply.final.status = (w.after (proxied cs)).final.status
  body_eq : bodyAllowedForStatus reply.final.status = true →
    reply.body = w.body ++
      within reply.final.contentLength w.written (comp.stream comp.start (compressorCalls cs))
  final_eq : startsInformational cs = true → reply.final = (w.after (proxied cs)).final
  coding_eq : startsInformational cs = false →
    reply.final.contentLength = none ∧ reply.final.block.get contentEncoding = confType

section

variable {w : ServerReply} (hopen : w.settled = false)
include hopen

theorem body_lowered (cs : List HandlerCall)
    (h : bodyAllowedForStatus
      ((encoded confType w).after (lowered comp.start (proxied cs))).final.status = true) :
    ((encoded confType w).after (lowered comp.start (proxied cs))).body =
      w.body ++ within
        ((encoded confType w).after (lowered comp.start (proxied cs))).final.contentLength
        w.written (comp.stream comp.start (compressorCalls cs)) := by
  have hpanicked : (encoded confType w).panicked = false := (Bool.or_eq_false_iff.mp hopen).2
  have hbody := body_after (lowered comp.start (proxied cs)) hpanicked h
  rw [writes_lowered, compressorCalls_proxied] at hbody
  exact hbody

theorem compressed_informational (hplain : w.header.get contentEncoding = "")
    {status : StatusCode} (hstatus : status.informational = true) (cs : List HandlerCall) :
    Compressed confType comp w (.writeHeader status :: cs)
      (serve confType comp w (proxied (.writeHeader status :: cs))) := by
  have hserve := serve_writeHeader comp confType hplain status
    (.edit (fun _ => ∅) :: proxied cs)
  rw [← proxied_informational hstatus] at hserve
  -- the proxy empties the map, and the field with the coding is gone
  have hown : (encoded confType w).after (proxied (.writeHeader status :: cs)) =
      w.after (proxied (.writeHeader status :: cs)) := by
    have hsame : ∀ v : ServerReply, v.call (.writeHeader status) = v := fun v =>
      writeHeader_of_informational hstatus
    simp only [proxied_informational hstatus, after_cons, hsame]
    rfl
  have hfinal := final_lowered comp (w := encoded confType w) hopen
    (proxied (.writeHeader status :: cs))
  rw [← hserve, hown] at hfinal
  exact {
    status_eq := congrArg FinalHeader.status hfinal
    body_eq := by rw [hserve]; exact body_lowered confType hopen _
    final_eq := fun _ => hfinal
    coding_eq := fun h => absurd (hstatus.symm.trans h) (by decide) }

theorem compressed_commits {c : HandlerCall} (hc : c.commits = true) (cs : List HandlerCall)
    (hstart : startsInformational (c :: cs) = false)
    (hproxied : proxied (c :: cs) = c :: proxied cs)
    (hserve : serve confType comp w (c :: proxied cs) =
      (encoded confType w).after (lowered comp.start (c :: proxied cs))) :
    Compressed confType comp w (c :: cs) (serve confType comp w (proxied (c :: cs))) := by
  have hfinal : ∀ v : ServerReply, v.settled = false →
      (v.after (proxied (c :: cs))).final = ⟨c.status, declaredLength v.header, v.header⟩ := by
    intro v hv
    obtain ⟨hsettled, hcall⟩ := call_of_commits hv hc
    rw [hproxied, after_cons, final_after_of_settled _ hsettled, hcall]
  have hencoded : (encoded confType w).settled = false := hopen
  have hreply := final_lowered comp hencoded (proxied (c :: cs))
  rw [← hproxied] at hserve
  rw [← hserve, hfinal _ hencoded, declaredLength_encoded] at hreply
  exact {
    status_eq := by rw [hreply, hfinal w hopen]
    body_eq := by rw [hserve]; exact body_lowered confType hopen _
    final_eq := fun h => absurd (h.symm.trans hstart) (by decide)
    coding_eq := by
      intro _
      rw [hreply]
      exact ⟨rfl, get_encoded confType w⟩ }

variable (comp) in
theorem serve_of_compresses {cs : List HandlerCall} (h : compresses w.header cs = true) :
    Compressed confType comp w (dropEarlyFlushes cs) (serve confType comp w (proxied cs)) := by
  induction cs generalizing w with
  | nil => cases h
  | cons c cs ih =>
    cases c with
    | edit f =>
      have hrest := ih (w := w.call (.edit f)) hopen h
      exact ⟨hrest.status_eq, hrest.body_eq, hrest.final_eq, hrest.coding_eq⟩
    | flush => exact ih hopen h
    | writeHeader status =>
      have hplain : w.header.get contentEncoding = "" := by simpa [compresses] using h
      cases hstatus : status.informational with
      | true => exact compressed_informational confType hopen hplain hstatus cs
      | false =>
        exact compressed_commits confType hopen (HandlerCall.commits_writeHeader hstatus) cs hstatus
          (proxied_writeHeader hstatus cs) (serve_writeHeader comp confType hplain status _)
    | write b =>
      have hplain : w.header.get contentEncoding = "" := by simpa [compresses] using h
      exact compressed_commits confType hopen rfl cs rfl rfl (serve_write confType hplain b _)

end

/-- The final header that the handler sends without the wrapper. -/
def own (w : ServerReply) (cs : List HandlerCall) : FinalHeader :=
  (w.after (proxied (dropEarlyFlushes cs))).final

variable (comp) in
/-- The client can decode the body: the final block names the coding and the body is compressed, or
it has what the handler itself put there and the body is what the handler wrote. -/
def Decodes (w : ServerReply) (cs : List HandlerCall) : Prop :=
  ((serve confType comp w (proxied cs)).final.block.get contentEncoding = confType ∧
      comp.decompress (serve confType comp w (proxied cs)).body = some (written cs)) ∨
    ((serve confType comp w (proxied cs)).final.block.get contentEncoding =
        (own w cs).block.get contentEncoding ∧
      (serve confType comp w (proxied cs)).body = written cs)

/-- When a client can decode the body by the header that it gets. -/
theorem decodes_iff {w : ServerReply} (hfresh : w.toResponse = {}) (cs : List HandlerCall)
    (hstatus : bodyAllowedForStatus (serve confType comp w (proxied cs)).final.status = true) :
    Decodes comp confType w cs ↔
      if compresses w.header cs then
        startsInformational (dropEarlyFlushes cs) = true →
          (own w cs).block.get contentEncoding = confType ∧
              comp.decompress (within (own w cs).contentLength 0
                (comp.stream comp.start (compressorCalls (dropEarlyFlushes cs)))) =
                  some (written cs) ∨
            within (own w cs).contentLength 0
              (comp.stream comp.start (compressorCalls (dropEarlyFlushes cs))) = written cs
      else
        (own w cs).block.get contentEncoding = confType ∧
            comp.decompress (within (own w cs).contentLength 0 (writes cs)) = some (written cs) ∨
          Fits (own w cs).contentLength (written cs) := by
  have hopen : w.settled = false := by rw [hfresh]; rfl
  have hwritten : w.written = 0 := by rw [hfresh]
  have hbody : w.body = [] := by rw [hfresh]
  cases hcompresses : compresses w.header cs with
  | false =>
    rw [Decodes, serve_of_not_compresses confType hcompresses, if_neg Bool.false_ne_true]
    rw [serve_of_not_compresses confType hcompresses] at hstatus
    have hbytes := body_after (proxied (dropEarlyFlushes cs)) (by rw [hfresh]) hstatus
    rw [hbody, hwritten, List.nil_append, writes_proxied, writes_dropEarlyFlushes] at hbytes
    rw [hbytes, written, ← within_eq_flatten_iff]
    exact or_congr_right (and_iff_right rfl)
  | true =>
    obtain ⟨-, hstream, hfinal, hcoding⟩ := serve_of_compresses comp confType hopen hcompresses
    have hbytes := hstream hstatus
    rw [hbody, hwritten, List.nil_append] at hbytes
    rw [if_pos rfl, Decodes, hbytes]
    cases hstart : startsInformational (dropEarlyFlushes cs) with
    | false =>
      obtain ⟨hnone, hname⟩ := hcoding hstart
      have hdecode : comp.decompress (within none 0
          (comp.stream comp.start (compressorCalls (dropEarlyFlushes cs)))) =
            some (written cs) := by
        rw [within_none, comp.decompress_stream, plain_compressorCalls, written,
          writes_dropEarlyFlushes, written]
      rw [hnone]
      exact iff_of_true (.inl ⟨hname, hdecode⟩) (fun h => by cases h)
    | true =>
      rw [hfinal hstart, forall_prop_of_true rfl]
      exact or_congr_right (and_iff_right rfl)

end LazyCompressionWriter

def gzipHeader : List UInt8 := [0x1f, 0x8b, 8, 0, 0, 0, 0, 0, 2, 0xff]

def gzipTwo : List UInt8 := [0xca, 0xc8, 4, 4, 0, 0, 0xff, 0xff, 0xac, 0x2a, 0x93, 0xd8, 2, 0, 0, 0]

/-- The part after the header. Other bytes than the two are kept after a byte with which no block
of gzip starts. -/
def gzipRest (bytes : List UInt8) : List UInt8 :=
  if bytes = [104, 105] then gzipTwo else 0xff :: bytes

def gzipOfTwo : CompressorWriter where
  Buffer := Option (List UInt8)
  start := none
  write
    | none, b => ([gzipHeader], some b)
    | some bytes, b => ([], some (bytes ++ b))
  flush
    | none => ([gzipHeader], some [])
    | some bytes => ([], some bytes)
  close
    | none => [gzipHeader, gzipRest []]
    | some bytes => [gzipRest bytes]

theorem stream_gzipOfTwo_some (bytes : List UInt8) (calls : List CompressorCall) :
    gzipOfTwo.stream (some bytes) calls = [gzipRest (bytes ++ plain calls)] := by
  induction calls generalizing bytes with
  | nil => exact congrArg (fun bytes => [gzipRest bytes]) (List.append_nil bytes).symm
  | cons c calls ih =>
    cases c with
    | write b =>
      refine (ih (bytes ++ b)).trans ?_
      rw [List.append_assoc]
      rfl
    | flush => exact ih bytes

theorem stream_gzipOfTwo (calls : List CompressorCall) :
    gzipOfTwo.stream none calls = [gzipHeader, gzipRest (plain calls)] := by
  cases calls with
  | nil => rfl
  | cons c calls =>
    cases c with
    | write b => exact congrArg (gzipHeader :: ·) (stream_gzipOfTwo_some b calls)
    | flush => exact congrArg (gzipHeader :: ·) (stream_gzipOfTwo_some [] calls)

def gunzipRest (rest : List UInt8) : Option (List UInt8) :=
  if rest = gzipTwo then some [104, 105]
  else
    match rest with
    | 0xff :: bytes => some bytes
    | _ => none

theorem gunzipRest_gzipRest (bytes : List UInt8) : gunzipRest (gzipRest bytes) = some bytes := by
  rw [gzipRest]
  split
  · next h =>
    rw [h]
    exact if_pos rfl
  · have hne : (0xff : UInt8) :: bytes ≠ gzipTwo := by
      intro h
      exact absurd (List.cons.inj h).1 (by decide)
    rw [gunzipRest, if_neg hne]

def sampleGzip : Compressor where
  toCompressorWriter := gzipOfTwo
  decompress bytes := gunzipRest (bytes.drop 10)
  decompress_stream calls := by
    refine (congrArg (fun chunks => gunzipRest (chunks.flatten.drop 10))
      (stream_gzipOfTwo calls)).trans ?_
    rw [List.flatten_cons, List.flatten_singleton]
    exact gunzipRest_gzipRest (plain calls)
  write_start_ne_nil _ h := by cases h

theorem decodes_page :
    bodyAllowedForStatus (LazyCompressionWriter.serve "gzip" sampleGzip { header := ∅ }
        (proxied [.writeHeader .ok, .write [104, 105]])).final.status = true ∧
      LazyCompressionWriter.Decodes sampleGzip "gzip" { header := ∅ }
        [.writeHeader .ok, .write [104, 105]] := by
  have hstatus : bodyAllowedForStatus (LazyCompressionWriter.serve "gzip" sampleGzip
      { header := ∅ } (proxied [.writeHeader .ok, .write [104, 105]])).final.status = true := by
    decide +kernel
  refine ⟨hstatus, (LazyCompressionWriter.decodes_iff "gzip" rfl
    [.writeHeader .ok, .write [104, 105]] hstatus).mpr ?_⟩
  rw [if_pos (by decide +kernel)]
  intro h
  exact absurd h (by decide)

/-- After early hints the page is compressed, and nothing says so. -/
theorem earlyHints_not_decodable :
    ¬ LazyCompressionWriter.Decodes sampleGzip "gzip" { header := ∅ }
      [.writeHeader ⟨103, by decide, by decide⟩, .writeHeader .ok, .write [104, 105]] := by
  unfold LazyCompressionWriter.Decodes
  decide +kernel

-- the length that is declared after early hints is that of the two bytes, and nothing goes out
example :
    ¬ LazyCompressionWriter.Decodes sampleGzip "gzip" { header := ∅ }
      [.writeHeader ⟨103, by decide, by decide⟩,
        .edit fun h => (h.set contentEncoding "gzip").set "Content-Length" "2",
        .writeHeader .ok, .write [104, 105]] := by
  unfold LazyCompressionWriter.Decodes
  decide +kernel

end Torii.Middleware
