import Torii.Middleware.Compression

/-!
# Content negotiation

`CompressionMiddleware` looks for the type of its configuration in the field `Accept-Encoding`, and
the type under which the registry knows it is `Compression` and not the coding.
-/

namespace Torii.Middleware

open Go Go.Http LazyCompressionWriter

/-! ### What a client accepts -/

def zeroWeight (param : String) : Bool :=
  match (Strings.trimSpace param).toList with
  | q :: '=' :: value =>
    (q == 'q' || q == 'Q') && ! value.isEmpty && value.all fun c => c == '0' || c == '.'
  | _ => false

/-- An element of the list is the coding or the star, with a weight that is not zero. -/
def elementAdmits (coding element : String) : Bool :=
  match Strings.split element ';' with
  | [] => false
  | name :: params =>
    let name := Strings.toLower Char.toLower (Strings.trimSpace name)
    (name == coding || name == "*") && ! params.any zeroWeight

/-- The list that the field lines make has such an element. -/
def admits (coding : String) (lines : List String) : Bool :=
  lines.any fun line => (Strings.split line ',').any (elementAdmits coding)

example : admits "gzip" ["br;q=1.0, gzip;q=0.8"] = true := by decide +kernel

example : admits "gzip" ["gzip;q=0, br"] = false := by decide +kernel

def acceptEncoding (r : Go.Http.Request) : List String :=
  (r.header.lookup "Accept-Encoding").getD []

/-- The body is compressed for a client that accepts the coding, and for no other. In both cases it
is what the declared length of the reply lets out. -/
def Negotiated (cType : String) (comp : Compressor) (r : Go.Http.Request) (cs : List HandlerCall)
    (reply : ServerReply) : Prop :=
  (admits cType (acceptEncoding r) = true →
    reply.body = within reply.final.contentLength 0
      (comp.stream comp.start (compressorCalls (LazyCompressionWriter.dropEarlyFlushes cs)))) ∧
  (admits cType (acceptEncoding r) = false →
    reply.body = within reply.final.contentLength 0 (writes cs))

namespace LazyCompressionWriter

theorem compresses_of_always {w : ServerReply} {cs : List HandlerCall}
    (hplain : ServerReply.calls.Always (fun v => v.header.get contentEncoding = "") w (proxied cs))
    (hwrite : ∃ b, HandlerCall.write b ∈ cs) : compresses w.header cs = true := by
  induction cs generalizing w with
  | nil => simp at hwrite
  | cons c cs ih =>
    have hnow : w.header.get contentEncoding = "" := by
      rw [Machine.always_iff_steps] at hplain
      exact hplain.1
    cases c with
    | edit f => exact ih (w := w.call (.edit f)) hplain.2 (by simpa using hwrite)
    | flush =>
      have hheader : w.flush.header = w.header := by
        rw [ServerReply.flush, ServerReply.writeHeader]
        split <;> rfl
      have hrest := ih (w := w.flush) hplain.2 (by simpa using hwrite)
      rw [hheader] at hrest
      exact hrest
    | writeHeader | write => simpa [compresses] using hnow

end LazyCompressionWriter

section

variable {env : CompressionEnv} {conf : Config} {cType : String} {comp : Compressor}

/-- For which requests a body is compressed as the client asks. -/
theorem negotiated_iff (hparse : parseCompressionsOptions env conf = .ok (cType, comp))
    (htype : conf.type = "Compression") (r : Go.Http.Request)
    (next : Go.Http.Request → List HandlerCall)
    {w reply : ServerReply} (hfresh : w.toResponse = {})
    (hwrite : ∃ b, HandlerCall.write b ∈ next r)
    (hplain : ServerReply.calls.Always (fun v => v.header.get contentEncoding = "") w
      (proxied (next r)))
    (hreply : compressionMiddleware env conf (fun r => proxied (next r)) w r = reply)
    (hstatus : bodyAllowedForStatus reply.final.status = true) :
    Negotiated cType comp r (next r) reply ↔
      (Strings.contains (r.header.get "Accept-Encoding") "Compression" =
          admits cType (acceptEncoding r)) ∨
        within reply.final.contentLength 0 (comp.stream comp.start
            (compressorCalls (LazyCompressionWriter.dropEarlyFlushes (next r)))) =
          within reply.final.contentLength 0 (writes (next r)) := by
  have hopen : w.settled = false := by rw [hfresh]; rfl
  have hwritten : w.written = 0 := by rw [hfresh]
  have hbody : w.body = [] := by rw [hfresh]
  cases hcontains : Strings.contains (r.header.get "Accept-Encoding") "Compression" with
  | false =>
    have hplainReply : w.after (proxied (next r)) = reply := by
      simpa [compressionMiddleware, hparse, htype, hcontains] using hreply
    subst hplainReply
    have hbytes := ServerReply.body_after (proxied (next r)) (by rw [hfresh]) hstatus
    rw [hbody, hwritten, List.nil_append, writes_proxied] at hbytes
    rw [Negotiated, hbytes]
    cases admits cType (acceptEncoding r) with
    | false => simp
    | true => simp [eq_comm]
  | true =>
    have hserve : serve cType comp w (proxied (next r)) = reply := by
      simpa [compressionMiddleware, hparse, htype, hcontains] using hreply
    have hcompressed := serve_of_compresses comp cType hopen
      (compresses_of_always hplain hwrite)
    rw [hserve] at hcompressed
    have hbytes := hcompressed.body_eq hstatus
    rw [hbody, hwritten, List.nil_append] at hbytes
    rw [Negotiated, hbytes]
    cases admits cType (acceptEncoding r) with
    | false | true => simp

end

def sampleEnv : CompressionEnv where
  gzip _ := .ok sampleGzip
  zlib _ := .ok sampleGzip
  lower := Char.toLower

/-- The configuration as the registry passes it on. -/
def gzipConfig : Config where
  type := "Compression"
  options := some (AList.insert "type" (.string "gzip") ∅)

/-- A request with one line of `Accept-Encoding`. -/
def accepting (line : String) : Go.Http.Request where
  remoteAddr := "203.0.113.7:4711"
  header := AList.insert "Accept-Encoding" [line] ∅

theorem parse_gzipConfig :
    parseCompressionsOptions sampleEnv gzipConfig = .ok ("gzip", sampleGzip) := by rfl

theorem negotiated_identity :
    Negotiated "gzip" sampleGzip (accepting "identity") [.writeHeader .ok, .write [104, 105]]
      (compressionMiddleware sampleEnv gzipConfig
        (fun _ => proxied [.writeHeader .ok, .write [104, 105]]) { header := ∅ }
        (accepting "identity")) := by
  have hplain : Header.get ∅ contentEncoding = "" := by decide +kernel
  have halways : ServerReply.calls.Always (fun v => v.header.get contentEncoding = "")
      { header := ∅ } (proxied [.writeHeader .ok, .write [104, 105]]) := ⟨hplain, hplain, hplain⟩
  exact (negotiated_iff parse_gzipConfig rfl (accepting "identity")
    (fun _ => [.writeHeader .ok, .write [104, 105]]) rfl
    ⟨[104, 105], by simp⟩ halways rfl (by decide +kernel)).mpr
    (.inl (by decide +kernel))

/-- A client that asks for gzip gets the plain bytes. -/
theorem gzip_not_negotiated :
    ¬ Negotiated "gzip" sampleGzip (accepting "gzip") [.writeHeader .ok, .write [104, 105]]
      (compressionMiddleware sampleEnv gzipConfig
        (fun _ => proxied [.writeHeader .ok, .write [104, 105]]) { header := ∅ }
        (accepting "gzip")) := by
  unfold Negotiated
  decide +kernel

end Torii.Middleware
