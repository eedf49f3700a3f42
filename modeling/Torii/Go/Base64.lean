import Mathlib.Data.List.Basic

/-!
# Base64 without padding

`base64.StdEncoding.WithPadding(base64.NoPadding)`. The decoder passes over line ends and does not
look at the bits that a last character has too many. Numbers below 64 stand for the characters.
-/

namespace Go.Base64

def alphabet : List Char :=
  "ABCDEFGHIJKLMNOPQRSTUVWXYZabcdefghijklmnopqrstuvwxyz0123456789+/".toList

def encodeChar (n : Nat) : Char := alphabet.getD n 'A'

def decodeChar (c : Char) : Option Nat := alphabet.idxOf? c

def sextets : List UInt8 → List Nat
  | a :: b :: c :: rest =>
    let val := 65536 * a.toNat + 256 * b.toNat + c.toNat
    val / 262144 :: val / 4096 % 64 :: val / 64 % 64 :: val % 64 :: sextets rest
  | [a, b] =>
    let val := 65536 * a.toNat + 256 * b.toNat
    [val / 262144, val / 4096 % 64, val / 64 % 64]
  | [a] =>
    let val := 65536 * a.toNat
    [val / 262144, val / 4096 % 64]
  | [] => []

def encodeToString (src : List UInt8) : String := String.ofList ((sextets src).map encodeChar)

/-- `decodeQuantum`, one after another. -/
def quanta : List Nat → Option (List UInt8)
  | a :: b :: c :: d :: rest =>
    let val := 262144 * a + 4096 * b + 64 * c + d
    (quanta rest).map ([.ofNat (val / 65536), .ofNat (val / 256), .ofNat val] ++ ·)
  | [a, b, c] =>
    let val := 262144 * a + 4096 * b + 64 * c
    some [.ofNat (val / 65536), .ofNat (val / 256)]
  | [a, b] => some [.ofNat ((262144 * a + 4096 * b) / 65536)]
  | [_] => none
  | [] => some []

/-- `DecodeString`; nothing for a `CorruptInputError`. -/
def decodeString (s : String) : Option (List UInt8) :=
  ((s.toList.filter fun c => c != '\r' && c != '\n').mapM decodeChar).bind quanta

theorem encodeChar_mem (n : Nat) : encodeChar n ∈ alphabet := by
  rw [encodeChar, List.getD_eq_getElem?_getD]
  cases h : alphabet[n]? with
  | none => decide
  | some c => exact List.mem_of_getElem? h

theorem mem_encodeToString {src : List UInt8} {c : Char} (h : c ∈ (encodeToString src).toList) :
    c ∈ alphabet := by
  rw [encodeToString, String.toList_ofList, List.mem_map] at h
  obtain ⟨n, -, rfl⟩ := h
  exact encodeChar_mem n

theorem decodeChar_encodeChar {n : Nat} (h : n < 64) : decodeChar (encodeChar n) = some n := by
  have hall : ∀ i : Fin 64, decodeChar (encodeChar i) = some i.val := by decide +kernel
  exact hall ⟨n, h⟩

theorem sextets_lt (src : List UInt8) : ∀ n ∈ sextets src, n < 64 := by
  fun_induction sextets src with
  | case1 a b c rest val ih =>
    have ha := a.toNat_lt
    have hb := b.toNat_lt
    have hc := c.toNat_lt
    intro n hn
    simp only [List.mem_cons] at hn
    obtain hn | hn | hn | hn | hn := hn
    on_goal 5 => exact ih n hn
    all_goals omega
  | case2 a b val =>
    have ha := a.toNat_lt
    have hb := b.toNat_lt
    intro n hn
    simp only [List.mem_cons, List.not_mem_nil, or_false] at hn
    omega
  | case3 a val =>
    have ha := a.toNat_lt
    intro n hn
    simp only [List.mem_cons, List.not_mem_nil, or_false] at hn
    omega
  | case4 => simp

theorem ofNat_eq_of_mod {a : UInt8} {n : Nat} (h : n % 256 = a.toNat) : UInt8.ofNat n = a := by
  apply UInt8.toNat_inj.mp
  simpa using h

theorem quanta_sextets (src : List UInt8) : quanta (sextets src) = some src := by
  fun_induction sextets src with
  | case1 a b c rest val ih =>
    have ha := a.toNat_lt
    have hb := b.toNat_lt
    have hc := c.toNat_lt
    simp only [quanta, ih, Option.map_some, List.cons_append, List.nil_append]
    rw [ofNat_eq_of_mod (a := a) (by omega), ofNat_eq_of_mod (a := b) (by omega),
      ofNat_eq_of_mod (a := c) (by omega)]
  | case2 a b val =>
    have ha := a.toNat_lt
    have hb := b.toNat_lt
    simp only [quanta]
    rw [ofNat_eq_of_mod (a := a) (by omega), ofNat_eq_of_mod (a := b) (by omega)]
  | case3 a val =>
    have ha := a.toNat_lt
    simp only [quanta]
    rw [ofNat_eq_of_mod (a := a) (by omega)]
  | case4 => rfl

theorem decodeString_encodeToString (src : List UInt8) :
    decodeString (encodeToString src) = some src := by
  have hkeep : (encodeToString src).toList.filter (fun c => c != '\r' && c != '\n') =
      (encodeToString src).toList := by
    apply List.filter_eq_self.mpr
    intro c hc
    have hall : alphabet.all (fun c => c != '\r' && c != '\n') = true := by decide +kernel
    exact List.all_eq_true.mp hall c (mem_encodeToString hc)
  have hread : ∀ ns : List Nat, (∀ n ∈ ns, n < 64) →
      (ns.map encodeChar).mapM decodeChar = some ns := by
    intro ns hns
    induction ns with
    | nil => rfl
    | cons n ns ih =>
      obtain ⟨hn, hns⟩ := List.forall_mem_cons.mp hns
      simp [decodeChar_encodeChar hn, ih hns]
  rw [decodeString, hkeep, encodeToString, String.toList_ofList, hread _ (sextets_lt src)]
  exact quanta_sextets src

example : encodeToString [77, 97, 110, 33] = "TWFuIQ" := by decide +kernel
example : decodeString "TWFu\nI" = none := by decide +kernel

end Go.Base64
