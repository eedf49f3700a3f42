import Torii.Go.Net

/-!
# Go's `net/netip`: addresses, prefixes and their texts

An address is its bits together with the IPv6 zone; the zero `netip.Addr` never reaches the code
modelled here. An IPv4-mapped IPv6 address is an IPv6 address throughout. `parseAddr` and
`parsePrefix` follow the loops of the library; all error texts are `none`. Bytes are big-endian.
-/

namespace Go.Netip

open Go.Strings

inductive Addr where
  | v4 (bits : BitVec 32)
  | v6 (bits : BitVec 128) (zone : String)
deriving DecidableEq

namespace Addr

def is4 : Addr → Bool
  | .v4 _ => true
  | .v6 .. => false

def bitLen : Addr → Nat
  | .v4 _ => 32
  | .v6 .. => 128

def withoutZone : Addr → Addr
  | .v4 bits => .v4 bits
  | .v6 bits _ => .v6 bits ""

@[simp] theorem bitLen_withoutZone (a : Addr) : a.withoutZone.bitLen = a.bitLen := by
  cases a <;> rfl

@[simp] theorem is4_withoutZone (a : Addr) : a.withoutZone.is4 = a.is4 := by
  cases a <;> rfl

end Addr

/-- The big-endian bytes of `a`: `As4` and `As16`. -/
def bytes {w : Nat} (a : BitVec w) : List (BitVec 8) :=
  List.ofFn fun i : Fin (w / 8) => (a >>> (w - 8 - 8 * i.val)).setWidth 8

/-- `(raw[i/8] >> (7 - i%8)) & 1`. -/
def bitAt (raw : List (BitVec 8)) (i : Nat) : Bool :=
  (raw.getD (i / 8) 0 >>> (7 - i % 8)) &&& 1#8 = 1#8

/-- The first `n` bits of a byte slice, in the order a loop `i = 0 .. n-1` reads them. -/
def bitsOf (raw : List (BitVec 8)) (n : Nat) : List Bool := (List.range n).map (bitAt raw)

@[simp] theorem length_bytes {w : Nat} (a : BitVec w) : (bytes a).length = w / 8 := by
  simp [bytes]

@[simp] theorem length_bitsOf (raw : List (BitVec 8)) (n : Nat) : (bitsOf raw n).length = n := by
  simp [bitsOf]

theorem bitAt_bytes {w : Nat} (a : BitVec w) (hw : 8 ∣ w) {i : Nat} (hi : i < w) :
    bitAt (bytes a) i = a.getMsbD i := by
  obtain ⟨k, rfl⟩ := hw
  have hk : i / 8 < k := by omega
  have hbyte : (bytes a).getD (i / 8) 0 =
      (a >>> (8 * k - 8 - 8 * (i / 8))).setWidth 8 := by
    simp [bytes, List.getD_eq_getElem?_getD, hk]
  have hone : ∀ (x : BitVec 8) (j : Nat), (x >>> j &&& 1#8 = 1#8) ↔ x.getLsbD j = true := by
    intro x j
    constructor
    · intro h
      have h0 := congrArg (fun y => BitVec.getLsbD y 0) h
      simpa using h0
    · intro h
      apply BitVec.eq_of_getLsbD_eq
      intro n hn
      by_cases h0 : n = 0
      · subst h0
        simpa using h
      · simp [BitVec.getLsbD_one, h0]
  have hpos : 8 * k - 8 - 8 * (i / 8) + (7 - i % 8) = 8 * k - 1 - i := by omega
  rw [bitAt, hbyte, Bool.eq_iff_iff, decide_eq_true_iff, hone, BitVec.getLsbD_setWidth,
    BitVec.getLsbD_ushiftRight, hpos, BitVec.getMsbD_eq_getLsbD]
  simp [hi, show 7 - i % 8 < 8 by omega]

/-- `netip.Prefix`; the address has no zone and its low bits may be set. -/
structure Prefix where
  addr : Addr
  bits : Nat
  bits_le : bits ≤ addr.bitLen
deriving DecidableEq

namespace Prefix

/-- `PrefixFrom` for a length that fits. -/
def of (addr : Addr) (bits : Nat) (h : bits ≤ addr.bitLen) : Prefix :=
  ⟨addr.withoutZone, bits, by simpa using h⟩

/-- Clear all but the first `n` bits. -/
def mask {w : Nat} (n : Nat) (a : BitVec w) : BitVec w := a &&& (BitVec.allOnes w <<< (w - n))

def masked (p : Prefix) : Prefix where
  addr := match p.addr with
    | .v4 a => .v4 (mask p.bits a)
    | .v6 a zone => .v6 (mask p.bits a) zone
  bits := p.bits
  bits_le := by
    have h := p.bits_le
    revert h
    cases p.addr <;> exact id

/-- The shift by which `Contains` compares the first `n` bits. -/
def agree {w : Nat} (n : Nat) (a b : BitVec w) : Bool := (a ^^^ b) >>> (w - n) == 0

/-- `Contains`: the families must be equal, and an address with a zone is in no prefix. -/
def contains (p : Prefix) (ip : Addr) : Bool :=
  match p.addr, ip with
  | .v4 a, .v4 b => agree p.bits a b
  | .v6 a _, .v6 b zone => zone == "" && agree p.bits a b
  | _, _ => false

theorem agree_iff {w n : Nat} (hn : n ≤ w) (a b : BitVec w) :
    agree n a b = true ↔ ∀ i, i < n → a.getMsbD i = b.getMsbD i := by
  have hget : ∀ i, i < n → (w - n) + (n - 1 - i) = w - 1 - i := by omega
  simp only [agree, beq_iff_eq]
  constructor
  · intro h i hi
    have hbit := congrArg (fun x => BitVec.getLsbD x (n - 1 - i)) h
    simp only [BitVec.getLsbD_ushiftRight, BitVec.getLsbD_xor, hget i hi] at hbit
    simpa [BitVec.getMsbD_eq_getLsbD, show i < w by omega] using hbit
  · intro h
    apply BitVec.eq_of_getLsbD_eq
    intro j hj
    simp only [BitVec.getLsbD_ushiftRight, BitVec.getLsbD_xor]
    by_cases hjn : j < n
    · have hbit := h (n - 1 - j) (by omega)
      have hpos : w - 1 - (n - 1 - j) = w - n + j := by omega
      simp only [BitVec.getMsbD_eq_getLsbD, hpos, show n - 1 - j < w by omega, decide_true,
        Bool.true_and] at hbit
      simp [hbit]
    · simp [BitVec.getLsbD_of_ge, show w ≤ w - n + j by omega]

theorem getMsbD_mask {w n i : Nat} (a : BitVec w) (hn : n ≤ w) (hi : i < n) :
    (mask n a).getMsbD i = a.getMsbD i := by
  rw [mask, BitVec.getMsbD_and, BitVec.getMsbD_shiftLeft, BitVec.getMsbD_allOnes]
  simp [show i + (w - n) < w by omega]

/-- Reading the masked bits one by one decides `agree`. -/
theorem isPrefixOf_bitsOf {w n : Nat} (hw : 8 ∣ w) (hn : n ≤ w) (a b : BitVec w) :
    (bitsOf (bytes (mask n a)) n).isPrefixOf (bitsOf (bytes b) w) = agree n a b := by
  have htake : (bitsOf (bytes b) w).take n = bitsOf (bytes b) n := by
    simp [bitsOf, ← List.map_take, Nat.min_eq_left hn]
  rw [Bool.eq_iff_iff, List.isPrefixOf_iff_prefix, List.prefix_iff_eq_take, agree_iff hn]
  simp only [length_bitsOf, htake]
  simp only [bitsOf, List.map_inj_left, List.mem_range]
  refine forall₂_congr fun i hi => ?_
  rw [bitAt_bytes _ hw (by omega), bitAt_bytes _ hw (by omega), getMsbD_mask a hn hi]

end Prefix

/-! ### Parsing -/

def ofBytes (w : Nat) (octets : List Nat) : BitVec w :=
  BitVec.ofNat w (octets.foldl (fun acc b => acc * 256 + b) 0)

/-- The loop of `parseIPv4Fields`. `fields` are the finished octets, `val` and `digLen`
the value and number of digits of the current one. -/
def parseIPv4Fields : List Char → List Nat → Nat → Nat → Option (List Nat)
  | [], fields, val, _ => if fields.length < 3 then none else some (fields ++ [val])
  | c :: s, fields, val, digLen =>
    if c.isDigit then
      -- an octet with a leading zero, or above 255, is refused
      if digLen = 1 ∧ val = 0 then none
      else if val * 10 + (c.toNat - '0'.toNat) > 255 then none
      else parseIPv4Fields s fields (val * 10 + (c.toNat - '0'.toNat)) (digLen + 1)
    else if c = '.' then
      -- an octet without digits, a trailing dot, or a fifth octet is refused
      if digLen = 0 ∨ s = [] then none
      else if fields.length = 3 then none
      else parseIPv4Fields s (fields ++ [val]) 0 0
    else none

def parseIPv4 (s : List Char) : Option Addr :=
  (parseIPv4Fields s [] 0 0).map fun fields => .v4 (ofBytes 32 fields)

/-- The value of a hexadecimal digit of either case. -/
def hexVal (c : Char) : Option Nat :=
  if '0' ≤ c ∧ c ≤ '9' then some (c.toNat - '0'.toNat)
  else if 'a' ≤ c ∧ c ≤ 'f' then some (c.toNat - 'a'.toNat + 10)
  else if 'A' ≤ c ∧ c ≤ 'F' then some (c.toNat - 'A'.toNat + 10)
  else none

/-- The inner loop of `parseIPv6`: the hexadecimal digits in front of `s`, as their
number, their value and the rest. -/
def hexField : List Char → Nat → Nat → Nat × Nat × List Char
  | [], off, acc => (off, acc, [])
  | c :: s, off, acc =>
    match hexVal c with
    | some d => hexField s (off + 1) (acc * 16 + d)
    | none => (off, acc, c :: s)

/-- The outer loop of `parseIPv6`, with at most `rounds` groups left. `ip` are the bytes
read so far and `ellipsis` the place of `::` in them. -/
def parseIPv6Groups : Nat → List Char → List Nat → Option Nat →
    Option (List Char × List Nat × Option Nat)
  | 0, s, ip, ellipsis => some (s, ip, ellipsis)
  | rounds + 1, s, ip, ellipsis =>
    let (off, acc, rest) := hexField s 0 0
    if off = 0 ∨ 4 < off then none
    else if rest.head? = some '.' then
      -- an embedded IPv4 address ends the text
      if ellipsis = none ∧ ip.length ≠ 12 then none
      else if ip.length + 4 > 16 then none
      else (parseIPv4Fields s [] 0 0).map fun fields => ([], ip ++ fields, ellipsis)
    else
      let ip := ip ++ [acc / 256, acc % 256]
      match rest with
      | [] => some ([], ip, ellipsis)
      | c :: rest =>
        if c ≠ ':' ∨ rest = [] then none
        else if rest.head? = some ':' then
          if ellipsis.isSome then none
          else if rest.tail = [] then some ([], ip, some ip.length)
          else parseIPv6Groups rounds rest.tail ip (some ip.length)
        else parseIPv6Groups rounds rest ip ellipsis

/-- The end of `parseIPv6`: the whole text is used and `::` stands for the missing bytes,
of which there is at least one pair. -/
def finishIPv6 (zone : String) : List Char × List Nat × Option Nat → Option Addr
  | (rest, ip, ellipsis) =>
    if rest ≠ [] then none
    else if ip.length < 16 then
      ellipsis.map fun e =>
        .v6 (ofBytes 128 (ip.take e ++ List.replicate (16 - ip.length) 0 ++ ip.drop e)) zone
    else if ellipsis.isSome then none
    else some (.v6 (ofBytes 128 ip) zone)

/-- `parseIPv6`. The zone is split off at the first percent sign and may not be empty. -/
def parseIPv6 (input : List Char) : Option Addr :=
  let s := input.takeWhile (· ≠ '%')
  let zone := (input.dropWhile (· ≠ '%')).tail
  if '%' ∈ input ∧ zone = [] then none
  else if s.take 2 = [':', ':'] then
    if s.drop 2 = [] then some (.v6 0 (String.ofList zone))
    else (parseIPv6Groups 8 (s.drop 2) [] (some 0)).bind (finishIPv6 (String.ofList zone))
  else (parseIPv6Groups 8 s [] none).bind (finishIPv6 (String.ofList zone))

/-- `netip.ParseAddr`: the first dot, colon or percent sign decides the format. -/
def parseAddr (s : String) : Option Addr :=
  match s.toList.find? fun c => c = '.' ∨ c = ':' ∨ c = '%' with
  | some '.' => parseIPv4 s.toList
  | some ':' => parseIPv6 s.toList
  | _ => none

/-- The prefix length of `ParsePrefix`: decimal digits without a leading zero. -/
def parseBits (s : List Char) : Option Nat :=
  if s = [] ∨ s.all Char.isDigit = false ∨ (1 < s.length ∧ s.head? = some '0') then none
  else some (s.foldl (fun acc c => acc * 10 + (c.toNat - '0'.toNat)) 0)

/-- `netip.ParsePrefix`. A zone is not allowed here. -/
def parsePrefix (s : String) : Option Prefix :=
  match Net.splitLast '/' s.toList with
  | none => none
  | some (ip, bitsStr) =>
    match parseAddr (String.ofList ip) with
    | none => none
    | some addr =>
      if addr.withoutZone ≠ addr then none
      else match parseBits bitsStr with
        | none => none
        | some bits => if h : bits ≤ addr.bitLen then some (Prefix.of addr bits h) else none

/-! ### Printing -/

def octet (a : BitVec 32) (i : Nat) : Nat := (a >>> (24 - 8 * i)).toNat % 256

def string4 (a : BitVec 32) : String :=
  join ((List.range 4).map fun i => toString (octet a i)) '.'

def group (a : BitVec 128) (i : Nat) : Nat := (a >>> (112 - 16 * i)).toNat % 65536

/-- The first of the longest runs of at least two zero groups, as `[start, end)`. -/
def zeroRun (a : BitVec 128) : Option (Nat × Nat) :=
  (List.range 8).foldl (fun best i =>
    let run := (((List.range 8).drop i).takeWhile fun j => group a j = 0).length
    if 2 ≤ run ∧ (best.elim 0 fun b => b.2 - b.1) < run then some (i, i + run) else best) none

/-- `appendTo6` without the zone. -/
def string6 (a : BitVec 128) : String :=
  let hex := (List.range 8).map fun i => String.ofList (Nat.toDigits 16 (group a i))
  match zeroRun a with
  | none => join hex ':'
  | some (start, stop) => join (hex.take start) ':' ++ "::" ++ join (hex.drop stop) ':'

def is4In6 (a : BitVec 128) : Bool := a >>> 32 = 0xffff

def Addr.string : Addr → String
  | .v4 a => string4 a
  | .v6 a zone =>
    (if is4In6 a then "::ffff:" ++ string4 (a.setWidth 32) else string6 a) ++
      (if zone = "" then "" else "%" ++ zone)

example : (parseAddr "2001:db8::10.0.0.1%eth0").map Addr.string = some "2001:db8::a00:1%eth0" := by
  decide +kernel
example : (parseAddr "::ffff:1.2.3.4").map Addr.string = some "::ffff:1.2.3.4" := by decide +kernel
example : parseAddr "1.2.3.04" = none := by decide +kernel

end Go.Netip
