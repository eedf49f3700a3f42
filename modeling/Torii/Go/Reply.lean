import Torii.Go.Http
import Torii.Go.ResponseWriter
import Torii.Go.Strconv

/-!
# The header and the body of a reply

The response writer of `net/http` with its header map. The block that is sent with the final status
is the map as it is when that status is committed; an informational header commits nothing. What the
server adds to a block by itself is not part of it. A `Write` beyond a length that the block
declares is refused, and nothing of it is sent.
-/

namespace Go.Http

namespace Header

def lines (h : Header) (name : String) : List String :=
  (h.entries.filter fun e => canonicalHeaderKey e.1 = name).flatMap fun e => e.2

def OtherSpelling (h : Header) (name : String) : Prop :=
  ∃ key values, h.lookup key = some values ∧ key ≠ name ∧ canonicalHeaderKey key = name ∧
    values ≠ []

theorem lines_eq_nil_iff (h : Header) (name : String) :
    h.lines name = [] ↔
      ∀ key values, h.lookup key = some values → canonicalHeaderKey key = name → values = [] := by
  simp only [lines, List.flatMap_eq_nil_iff, List.mem_filter, decide_eq_true_eq]
  constructor
  · intro hall key values hkey hname
    exact hall ⟨key, values⟩ ⟨GoMap.mem_entries_iff.mpr hkey, hname⟩
  · rintro hall ⟨key, values⟩ ⟨hkey, hname⟩
    exact hall key values (GoMap.mem_entries_iff.mp hkey) hname

variable {name : String}

theorem lines_perm (h : Header) (hname : canonicalHeaderKey name = name) :
    (h.lines name).Perm ((h.lookup name).getD [] ++ lines (h.erase name) name) := by
  cases hlookup : h.lookup name with
  | none =>
    have herase : h.erase name = h :=
      AList.ext (List.kerase_of_notMem_keys (AList.lookup_eq_none.mp hlookup))
    rw [Option.getD_none, List.nil_append, herase]
  | some values =>
    have hentries : h.entries.Perm (⟨name, values⟩ :: (h.erase name).entries) := by
      have hinsert : h.entries.Perm (AList.insert name values h).entries := by
        apply List.lookup_ext h.nodupKeys (AList.nodupKeys _)
        intro key vs
        change vs ∈ h.lookup key ↔ vs ∈ (AList.insert name values h).lookup key
        rw [GoMap.lookup_insert']
        split
        · next heq => rw [heq, hlookup]
        · rfl
      exact hinsert
    have hfilter := (hentries.filter fun e => canonicalHeaderKey e.1 = name).flatMap_right
      fun e => e.2
    rw [List.filter_cons_of_pos (by simpa using hname), List.flatMap_cons] at hfilter
    exact hfilter

theorem lines_erase_eq_nil_iff (h : Header) (name : String) :
    lines (h.erase name) name = [] ↔ ¬ h.OtherSpelling name := by
  rw [lines_eq_nil_iff]
  constructor
  · rintro hall ⟨key, values, hkey, hne, hname, hvalues⟩
    refine hvalues (hall key values ?_ hname)
    rw [GoMap.lookup_erase', if_neg hne, hkey]
  · intro hother key values hkey hname
    obtain ⟨hne, hkey⟩ := GoMap.lookup_of_erase hkey
    by_contra hvalues
    exact hother ⟨key, values, hkey, hne, hname, hvalues⟩

theorem lines_eq_nil_of_lookup {h : Header} (hname : canonicalHeaderKey name = name)
    (hlookup : h.lookup name = some []) : h.lines name = [] ↔ ¬ h.OtherSpelling name := by
  have hperm := h.lines_perm hname
  rw [hlookup, Option.getD_some, List.nil_append] at hperm
  rw [← lines_erase_eq_nil_iff]
  constructor
  · intro hnil
    rw [hnil] at hperm
    exact hperm.nil_eq.symm
  · intro hnil
    rw [hnil] at hperm
    exact hperm.eq_nil

theorem lines_eq_singleton_of_lookup {h : Header} {value value' : String}
    (hname : canonicalHeaderKey name = name) (hlookup : h.lookup name = some [value']) :
    h.lines name = [value] ↔ value' = value ∧ ¬ h.OtherSpelling name := by
  have hperm := h.lines_perm hname
  rw [hlookup, Option.getD_some] at hperm
  rw [← lines_erase_eq_nil_iff]
  constructor
  · intro hvalue
    rw [hvalue, List.singleton_perm] at hperm
    exact List.cons.inj hperm.symm
  · rintro ⟨rfl, hnil⟩
    rw [hnil, List.append_nil, List.perm_singleton] at hperm
    exact hperm

end Header

/-- A code that `WriteHeader` accepts; with others it panics. -/
structure StatusCode where
  code : Int
  le_code : 100 ≤ code
  code_le : code ≤ 999
deriving DecidableEq

namespace StatusCode

def ok : StatusCode := ⟨200, by decide, by decide⟩

def unauthorized : StatusCode := ⟨401, by decide, by decide⟩

def serviceUnavailable : StatusCode := ⟨503, by decide, by decide⟩

def informational (status : StatusCode) : Bool := isInformational status.code

end StatusCode

inductive HandlerCall where
  | edit (f : Header → Header)
  | writeHeader (status : StatusCode)
  | write (b : List UInt8)
  | flush

def HandlerCall.commits : HandlerCall → Bool
  | .edit _ => false
  | .writeHeader status => ! status.informational
  | .write _ => true
  | .flush => true

/-- The status that a call commits. -/
def HandlerCall.status : HandlerCall → Int
  | .writeHeader status => status.code
  | _ => 200

theorem HandlerCall.commits_writeHeader {status : StatusCode}
    (h : status.informational = false) : (HandlerCall.writeHeader status).commits = true := by
  rw [commits, h, Bool.not_false]

/-- The first `WriteHeader`, `Write` or `Flush` is an informational header. -/
def startsInformational : List HandlerCall → Bool
  | [] => false
  | .edit _ :: cs => startsInformational cs
  | .writeHeader status :: _ => status.informational
  | .write _ :: _ => false
  | .flush :: _ => false

/-- The bytes of each `Write`. -/
def writes (cs : List HandlerCall) : List (List UInt8) :=
  cs.filterMap fun
    | .write b => some b
    | _ => none

def written (cs : List HandlerCall) : List UInt8 := (writes cs).flatten

/-! ### Declared lengths -/

/-- The length that `WriteHeader` finds in the map; a text that is no length is ignored. -/
def declaredLength (h : Header) : Option Nat :=
  (Strconv.parseInt (h.get "Content-Length").toList).bind Int.toNat?

/-- What a declared length lets out of a body that is written in pieces, after `n` bytes. -/
def within (limit : Option Nat) : Nat → List (List UInt8) → List UInt8
  | _, [] => []
  | n, b :: bs =>
    (if limit.any (· < n + b.length) then [] else b) ++ within limit (n + b.length) bs

theorem within_none (n : Nat) (bs : List (List UInt8)) : within none n bs = bs.flatten := by
  induction bs generalizing n with
  | nil => rfl
  | cons b bs ih => rw [within, ih, List.flatten_cons, Option.any_none, if_neg Bool.false_ne_true]

theorem length_within_some_le (limit n : Nat) (bs : List (List UInt8)) :
    (within (some limit) n bs).length ≤ limit - n := by
  induction bs generalizing n with
  | nil => exact Nat.zero_le _
  | cons b bs ih =>
    have hrest := ih (n + b.length)
    rw [within, List.length_append]
    by_cases h : limit < n + b.length
    · simp [h]
      omega
    · simp [h]
      omega

theorem within_some_of_le {limit n : Nat} {bs : List (List UInt8)}
    (h : n + bs.flatten.length ≤ limit) : within (some limit) n bs = bs.flatten := by
  induction bs generalizing n with
  | nil => rfl
  | cons b bs ih =>
    rw [List.flatten_cons, List.length_append] at h
    have hfits : ¬ limit < n + b.length := by omega
    rw [within, ih (by omega), List.flatten_cons]
    simp [hfits]

/-- The declared length lets the whole body out. -/
def Fits (limit : Option Nat) (body : List UInt8) : Prop := ∀ n ∈ limit, body.length ≤ n

theorem within_eq_flatten_iff (limit : Option Nat) (bs : List (List UInt8)) :
    within limit 0 bs = bs.flatten ↔ Fits limit bs.flatten := by
  cases limit with
  | none => simp [within_none, Fits]
  | some limit =>
    simp only [Fits, Option.mem_some_iff, forall_eq']
    constructor
    · intro h
      have hlength := length_within_some_le limit 0 bs
      rwa [h] at hlength
    · intro h
      exact within_some_of_le (by omega)

/-! ### The writer -/

/-- The response, the map, and the block that was sent with the final status. -/
structure ServerReply extends Response where
  header : Header
  block : Header := ∅

/-- What the final header fixes. -/
structure FinalHeader where
  status : Int
  contentLength : Option Nat
  block : Header

namespace ServerReply

def writeHeader (w : ServerReply) (status : StatusCode) : ServerReply :=
  if w.settled || status.informational then w
  else
    let response := { w.toResponse with contentLength := declaredLength w.header }
    { w with toResponse := response.writeHeader status.code, block := w.header }

def flush (w : ServerReply) : ServerReply := w.writeHeader .ok

def write (w : ServerReply) (b : List UInt8) : ServerReply :=
  { w.flush with toResponse := (w.flush.toResponse.write b none).2 }

/-- The final header: when the handler has returned, a reply that is still open is committed with
status 200. -/
def final (w : ServerReply) : FinalHeader :=
  ⟨w.flush.status, w.flush.contentLength, w.flush.block⟩

def call (w : ServerReply) : HandlerCall → ServerReply
  | .edit f => { w with header := f w.header }
  | .writeHeader status => w.writeHeader status
  | .write b => w.write b
  | .flush => w.flush

def httpError (w : ServerReply) (error : String) (status : StatusCode) : ServerReply :=
  let header := w.header.del "Content-Length"
  let header := header.set "Content-Type" "text/plain; charset=utf-8"
  let header := header.set "X-Content-Type-Options" "nosniff"
  (({ w with header }).writeHeader status).write (error.toUTF8.toList ++ [10])

def calls : Machine ServerReply HandlerCall Unit where
  step w c := ((), w.call c)

def after (w : ServerReply) (cs : List HandlerCall) : ServerReply := calls.run w cs

variable {w : ServerReply} (b : List UInt8) (cs : List HandlerCall)

@[simp] theorem after_nil : w.after [] = w := rfl

@[simp] theorem after_cons (c : HandlerCall) (cs : List HandlerCall) :
    w.after (c :: cs) = (w.call c).after cs := rfl

theorem after_append (cs ds : List HandlerCall) : w.after (cs ++ ds) = (w.after cs).after ds :=
  calls.run_append w cs ds

variable {status : StatusCode}

theorem writeHeader_of_informational (h : status.informational = true) :
    w.writeHeader status = w := by
  rw [writeHeader, h, Bool.or_true, if_pos rfl]

theorem writeHeader_of_settled (h : w.settled = true) (status : StatusCode) :
    w.writeHeader status = w := by
  rw [writeHeader, h, Bool.true_or, if_pos rfl]

theorem writeHeader_of_open (hopen : w.settled = false) (h : status.informational = false) :
    w.writeHeader status =
      { w with
        contentLength := declaredLength w.header
        wroteHeader := true
        status := status.code
        block := w.header } := by
  have hrange : ¬ (status.code < 100 ∨ 999 < status.code) :=
    not_or.mpr ⟨Int.not_lt.mpr status.le_code, Int.not_lt.mpr status.code_le⟩
  have hfresh : Response.settled { w.toResponse with contentLength := declaredLength w.header } =
      false := hopen
  rw [StatusCode.informational] at h
  simp only [writeHeader, StatusCode.informational, hopen, h, Bool.or_false, Bool.false_eq_true,
    if_false, Response.writeHeader, hfresh, if_neg hrange]

theorem flush_of_settled (h : w.settled = true) : w.flush = w := writeHeader_of_settled h .ok

theorem settled_flush : w.flush.settled = true := by
  cases h : w.settled with
  | true => rw [flush_of_settled h, h]
  | false =>
    rw [flush, writeHeader_of_open h (by decide)]
    rfl

theorem final_of_settled (h : w.settled = true) :
    w.final = ⟨w.status, w.contentLength, w.block⟩ := by
  rw [final, flush_of_settled h]

@[simp] theorem final_flush : w.flush.final = w.final := by
  rw [final_of_settled settled_flush, final]

theorem write_eq : ∃ written body, w.write b = { w.flush with written, body } := by
  obtain ⟨written, body, h⟩ := w.flush.toResponse.transmit_eq b none
  refine ⟨written, body, ?_⟩
  rw [write, Response.write, Response.flush_of_settled settled_flush, h]

theorem settled_write : (w.write b).settled = true := by
  obtain ⟨written, body, h⟩ := w.write_eq b
  rw [h]
  exact settled_flush (w := w)

@[simp] theorem final_write : (w.write b).final = w.final := by
  rw [final_of_settled (settled_write b)]
  obtain ⟨written, body, h⟩ := w.write_eq b
  rw [h, final]

theorem call_of_settled (h : w.settled = true) (c : HandlerCall) :
    (w.call c).settled = true ∧ (w.call c).final = w.final := by
  cases c with
  | edit f =>
    have hsettled : (w.call (.edit f)).settled = true := h
    rw [final_of_settled hsettled, final_of_settled h]
    exact ⟨hsettled, rfl⟩
  | writeHeader status =>
    rw [call, writeHeader_of_settled h]
    exact ⟨h, rfl⟩
  | flush => exact ⟨settled_flush, final_flush⟩
  | write b => exact ⟨settled_write b, final_write b⟩

theorem after_of_settled (h : w.settled = true) :
    (w.after cs).settled = true ∧ (w.after cs).final = w.final := by
  apply calls.run_invariant (fun v => v.settled = true ∧ v.final = w.final) _ ⟨h, rfl⟩
  rintro v c ⟨hv, hfinal⟩
  rw [← hfinal]
  exact call_of_settled hv c

theorem final_after_of_settled (h : w.settled = true) : (w.after cs).final = w.final :=
  (after_of_settled cs h).2

theorem final_after_write : (w.after (.write b :: cs)).final = w.final := by
  rw [after_cons, call, final_after_of_settled cs (settled_write b), final_write]

theorem final_after_flush : (w.after (.flush :: cs)).final = w.final := by
  rw [after_cons, call, final_after_of_settled cs settled_flush, final_flush]

theorem final_of_open (hopen : w.settled = false) :
    w.final = ⟨200, declaredLength w.header, w.header⟩ := by
  rw [final, flush, writeHeader_of_open hopen (by decide)]
  rfl

theorem call_of_commits (hopen : w.settled = false) {c : HandlerCall} (hc : c.commits = true) :
    (w.call c).settled = true ∧
      (w.call c).final = ⟨c.status, declaredLength w.header, w.header⟩ := by
  cases c with
  | edit f => cases hc
  | writeHeader status =>
    have hstatus : status.informational = false := by simpa [HandlerCall.commits] using hc
    rw [call, writeHeader_of_open hopen hstatus]
    exact ⟨rfl, final_of_settled rfl⟩
  | flush => exact ⟨settled_flush, final_flush.trans (final_of_open hopen)⟩
  | write b => exact ⟨settled_write b, (final_write b).trans (final_of_open hopen)⟩

theorem flush_write : w.flush.write b = w.write b := by
  rw [write, write, flush_of_settled settled_flush]

/-! ### The body -/

theorem bytes_writeHeader (status : StatusCode) :
    (w.writeHeader status).written = w.written ∧ (w.writeHeader status).body = w.body ∧
      (w.writeHeader status).panicked = w.panicked := by
  cases hopen : w.settled with
  | true => rw [writeHeader_of_settled hopen]; exact ⟨rfl, rfl, rfl⟩
  | false =>
    cases hstatus : status.informational with
    | true => rw [writeHeader_of_informational hstatus]; exact ⟨rfl, rfl, rfl⟩
    | false => rw [writeHeader_of_open hopen hstatus]; exact ⟨rfl, rfl, rfl⟩

theorem bytes_flush : w.flush.written = w.written ∧ w.flush.body = w.body ∧
    w.flush.panicked = w.panicked :=
  bytes_writeHeader .ok

theorem write_of_allowed (hpanicked : w.panicked = false)
    (h : bodyAllowedForStatus w.final.status = true) :
    w.write b =
      { w.flush with
        written := w.written + b.length
        body := w.body ++
          if w.final.contentLength.any (· < w.written + b.length) then [] else b } := by
  obtain ⟨hwritten, hbody, hflush⟩ := w.bytes_flush
  rw [write, Response.write, Response.flush_of_settled settled_flush,
    Response.transmit_of_allowed (hflush.trans hpanicked) h, ← hwritten, ← hbody]
  rfl

theorem body_after (hpanicked : w.panicked = false)
    (h : bodyAllowedForStatus (w.after cs).final.status = true) :
    (w.after cs).body =
      w.body ++ within (w.after cs).final.contentLength w.written (writes cs) := by
  induction cs generalizing w with
  | nil => exact (List.append_nil _).symm
  | cons c cs ih =>
    cases c with
    | edit f => exact ih (w := w.call (.edit f)) hpanicked h
    | writeHeader status =>
      obtain ⟨hwritten, hbody, hsame⟩ := w.bytes_writeHeader status
      have hrest := ih (w := w.writeHeader status) (hsame.trans hpanicked) h
      rw [hwritten, hbody] at hrest
      exact hrest
    | flush =>
      obtain ⟨hwritten, hbody, hsame⟩ := w.bytes_flush
      have hrest := ih (w := w.flush) (hsame.trans hpanicked) h
      rw [hwritten, hbody] at hrest
      exact hrest
    | write b =>
      have hfinal : ((w.write b).after cs).final = w.final := final_after_write b cs
      have hwrite := write_of_allowed b hpanicked (by rw [← hfinal]; exact h)
      have hrest := ih (w := w.write b) (by rw [hwrite]; exact w.bytes_flush.2.2.trans hpanicked) h
      rw [hfinal, hwrite, List.append_assoc] at hrest
      rw [after_cons, call, hfinal, hwrite]
      exact hrest

end ServerReply

/-- The calls of a handler as `httputil.ReverseProxy` makes them. -/
def proxied (cs : List HandlerCall) : List HandlerCall :=
  cs.flatMap fun
    | .writeHeader status =>
      if status.informational then [.writeHeader status, .edit fun _ => ∅]
      else [.writeHeader status]
    | c => [c]

variable {status : StatusCode}

theorem proxied_informational (h : status.informational = true) (cs : List HandlerCall) :
    proxied (.writeHeader status :: cs) =
      .writeHeader status :: .edit (fun _ => ∅) :: proxied cs := by
  simp [proxied, h]

theorem proxied_writeHeader (h : status.informational = false) (cs : List HandlerCall) :
    proxied (.writeHeader status :: cs) = .writeHeader status :: proxied cs := by
  simp [proxied, h]

theorem writes_proxied (cs : List HandlerCall) : writes (proxied cs) = writes cs := by
  induction cs with
  | nil => rfl
  | cons c cs ih =>
    cases c with
    | edit | flush => exact ih
    | write b => exact congrArg (b :: ·) ih
    | writeHeader status =>
      cases hstatus : status.informational with
      | true => rw [proxied_informational hstatus]; exact ih
      | false => rw [proxied_writeHeader hstatus]; exact ih

end Go.Http
