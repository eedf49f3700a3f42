import Torii.Go.Map
import Torii.Go.Strings

/-!
# Requests and header fields of `net/http`

A header is a map from canonical field names to the list of field lines received. A request holds
the parts that the modelled handlers read.
-/

namespace Go.Http

def validHeaderFieldByte (c : Char) : Bool :=
  c.isAlphanum ||
    c ∈ ['!', '#', '$', '%', '&', '\x27', '*', '+', '-', '.', '^', '_', '\x60', '|', '~']

/-- A letter is upper case at the start and after a hyphen, and lower case elsewhere. -/
def canonicalLetters : Bool → List Char → List Char
  | _, [] => []
  | upper, c :: cs =>
    let c := if upper then c.toUpper else c.toLower
    c :: canonicalLetters (c == '-') cs

/-- `textproto.CanonicalMIMEHeaderKey`: a name with an invalid byte is left as it is. -/
def canonicalHeaderKey (name : String) : String :=
  if name.toList.all validHeaderFieldByte then String.ofList (canonicalLetters true name.toList)
  else name

theorem casing_of_valid {c : Char} (h : validHeaderFieldByte c = true) :
    validHeaderFieldByte c.toUpper = true ∧ validHeaderFieldByte c.toLower = true ∧
      c.toUpper.toUpper = c.toUpper ∧ c.toLower.toLower = c.toLower := by
  have hascii : c.toNat < 128 := by
    rw [validHeaderFieldByte, Bool.or_eq_true] at h
    obtain h | h := h
    · change (decide ('A'.val ≤ c.val ∧ c.val ≤ 'Z'.val) ||
        ('a'.val ≤ c.val && c.val ≤ 'z'.val) || ('0'.val ≤ c.val && c.val ≤ '9'.val)) = true at h
      simp only [Bool.or_eq_true, Bool.and_eq_true, decide_eq_true_eq] at h
      have hval : c.val ≤ 122 := by
        obtain (h | h) | h := h
        · exact UInt32.le_trans h.2 (by decide)
        · exact h.2
        · exact UInt32.le_trans h.2 (by decide)
      exact Nat.lt_of_le_of_lt (UInt32.le_iff_toNat_le.mp hval) (by decide)
    · simp only [List.mem_cons, List.not_mem_nil, or_false, decide_eq_true_eq] at h
      obtain rfl | rfl | rfl | rfl | rfl | rfl | rfl | rfl | rfl | rfl | rfl | rfl | rfl | rfl |
        rfl := h <;> decide
  have hall : ∀ n : Fin 128, validHeaderFieldByte (Char.ofNat n) = true →
      validHeaderFieldByte (Char.ofNat n).toUpper = true ∧
      validHeaderFieldByte (Char.ofNat n).toLower = true ∧
      (Char.ofNat n).toUpper.toUpper = (Char.ofNat n).toUpper ∧
      (Char.ofNat n).toLower.toLower = (Char.ofNat n).toLower := by decide +kernel
  have hchar := hall ⟨c.toNat, hascii⟩
  rw [Char.ofNat_toNat] at hchar
  exact hchar h

theorem canonicalLetters_valid (upper : Bool) {cs : List Char}
    (h : cs.all validHeaderFieldByte = true) :
    (canonicalLetters upper cs).all validHeaderFieldByte = true ∧
      canonicalLetters upper (canonicalLetters upper cs) = canonicalLetters upper cs := by
  induction cs generalizing upper with
  | nil => exact ⟨rfl, rfl⟩
  | cons c cs ih =>
    rw [List.all_cons, Bool.and_eq_true] at h
    obtain ⟨hupper, hlower, hupper₂, hlower₂⟩ := casing_of_valid h.1
    obtain ⟨hvalid, hidem⟩ := ih ((if upper then c.toUpper else c.toLower) == '-') h.2
    cases upper <;> simp_all [canonicalLetters]

@[simp] theorem canonicalHeaderKey_idem (name : String) :
    canonicalHeaderKey (canonicalHeaderKey name) = canonicalHeaderKey name := by
  by_cases h : name.toList.all validHeaderFieldByte = true
  · obtain ⟨hvalid, hidem⟩ := canonicalLetters_valid true h
    simp [canonicalHeaderKey, h, hvalid, hidem]
  · simp [canonicalHeaderKey, h]

abbrev Header := GoMap String (List String)

namespace Header

def get (h : Header) (name : String) : String :=
  ((h.lookup (canonicalHeaderKey name)).getD []).headD ""

def withLines (h : Header) (name : String) (lines : List String) : Header :=
  h.insert (canonicalHeaderKey name) lines

def set (h : Header) (name value : String) : Header := h.withLines name [value]

def del (h : Header) (name : String) : Header := h.erase (canonicalHeaderKey name)

@[simp] theorem get_withLines (h : Header) (name : String) (lines : List String) :
    (h.withLines name lines).get name = lines.headD "" := by
  simp [get, withLines]

end Header

/-- The parts of `*http.Request` that the modelled handlers read. -/
structure Request where
  /-- `r.RemoteAddr`. -/
  remoteAddr : String
  /-- `r.Header`. -/
  header : Header
  /-- `r.Host`. -/
  host : String := ""
  /-- `r.URL.Path`. -/
  path : String := "/"
  /-- `r.URL.RawPath`. -/
  rawPath : String := ""

/-- `http.StripPrefix`: the request that is passed on, or nothing when it answers 404. -/
def stripPrefix (pre : String) (r : Request) : Option Request :=
  if pre = "" then some r
  else
    let p := Strings.trimPrefix r.path pre
    let rp := Strings.trimPrefix r.rawPath pre
    if p.length < r.path.length ∧ (r.rawPath = "" ∨ rp.length < r.rawPath.length) then
      some { r with path := p, rawPath := rp }
    else none

end Go.Http
