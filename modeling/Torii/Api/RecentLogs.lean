import Torii.Go.Strconv
import Torii.Lib.Ring

/-!
# The logs of recent requests

`RingBuffer` of `internal/util/ring_buffer.go`, without its listeners, and the pages that
`api/handler_system.go` cuts out of it. Integers are Go's `int`, and `none` is a panic.
-/

namespace Torii.Util

/-- What the runtime knows of a type: its zero value and the bytes of a value. The types of log
entries are structs with fields. -/
class Stored (T : Type*) where
  zero : T
  size : Nat
  size_pos : 0 < size

/-- A string is a pointer and a length. -/
instance : Stored String where
  zero := ""
  size := 16
  size_pos := by decide

/-- The longest allocation in bytes, for addresses of 48 bits. -/
def maxAlloc : Nat := 2 ^ 48

/-- `make([]T, n)`. -/
def makeSlice (T : Type*) [Stored T] (n : Int64) : Option (List T) :=
  if 0 ≤ n ∧ Stored.size T * n.toInt.toNat ≤ maxAlloc then
    some (List.replicate n.toInt.toNat Stored.zero)
  else none

/-- `entries[i]`. -/
def index {T : Type*} (entries : List T) (i : Int64) : Option T :=
  if 0 ≤ i then entries[i.toInt.toNat]? else none

structure RingBuffer (T : Type*) where
  entries : List T
  pos : Int64 := 0
  count : Int64 := 0
  capacity : Int64

namespace RingBuffer

variable {T : Type*} [Stored T]

/-- `NewRingBuffer`. -/
def new (capacity : Int64) : Option (RingBuffer T) := do
  let entries ← makeSlice T capacity
  return { entries, capacity }

def add (l : RingBuffer T) (entry : T) : Option (RingBuffer T) :=
  if 0 ≤ l.pos ∧ l.pos.toInt.toNat < l.entries.length then
    some { l with
      entries := l.entries.set l.pos.toInt.toNat entry
      pos := (l.pos + 1) % l.capacity
      count := if l.count < l.capacity then l.count + 1 else l.count }
  else none

def recent (l : RingBuffer T) (n : Int64) : Option (List T) :=
  let n := if n > l.count then l.count else n
  if n = 0 then some []
  else do
    let result ← makeSlice T n
    -- the loop writes the slots of `result` one after the other
    (List.range result.length).mapM fun i =>
      index l.entries ((l.pos - 1 - .ofNat i + l.capacity) % l.capacity)

end RingBuffer

end Torii.Util

namespace Torii.Api

open Go.Strconv Util

/-- A number of the query that is taken in place of the default one. -/
def requested (raw : String) (accept : Int64 → Bool) (default : Int64) : Int64 :=
  if raw = "" then default
  else
    match atoi raw with
    | some n => if accept n then n else default
    | none => default

/-- `resolveRecentLogPage`, for the two texts of the query: the limit and the offset. -/
def resolveRecentLogPage (rawLimit rawOffset : String) (capacity : Int64) : Int64 × Int64 :=
  let limit := if capacity ≤ 0 then 1000 else capacity
  let limit := requested rawLimit (fun n => n > 0 ∧ n < limit) limit
  let offset := requested rawOffset (fun n => n > 0) 0
  let offset := if offset > capacity ∧ capacity > 0 then capacity else offset
  let limit := if capacity > 0 ∧ limit > capacity - offset then capacity - offset else limit
  (limit, offset)

def sliceRecentLogs {T : Type*} (entries : List T) (offset limit : Int64) : Option (List T) :=
  let len := Int64.ofNat entries.length
  if offset ≥ len ∨ limit ≤ 0 then some []
  else
    let stop := offset + limit
    let stop := if stop > len then len else stop
    if 0 ≤ offset ∧ offset ≤ stop ∧ stop ≤ len then
      some ((entries.take stop.toInt.toNat).drop offset.toInt.toNat)
    else none

/-- What the three handlers of recent logs write, for the buffer of each of them. -/
def recentLogs {T : Type*} [Stored T] (l : RingBuffer T) (rawLimit rawOffset : String) :
    Option (List T) := do
  let (limit, offset) := resolveRecentLogPage rawLimit rawOffset l.capacity
  let entries ← l.recent (limit + offset)
  sliceRecentLogs entries offset limit

end Torii.Api

namespace Torii.Util

variable {a b : Int64}

theorem toInt_mod_of_natCast {m n : Nat} (ha : a.toInt = m) (hb : b.toInt = n) :
    (a % b).toInt = (m % n : Nat) := by
  rw [Int64.toInt_mod, ha, hb, Int.ofNat_tmod]

theorem nonneg_of_natCast {m : Nat} (ha : a.toInt = m) : 0 ≤ a := by
  rw [Int64.le_iff_toInt_le, ha, Int64.toInt_zero]
  exact Int.natCast_nonneg m

theorem toInt_cut {m n : Nat} (ha : a.toInt = m) (hb : b.toInt = n) :
    (if a > b then b else a).toInt = (min m n : Nat) := by
  simp only [gt_iff_lt, Int64.lt_iff_toInt_lt, ha, hb]
  split
  · rw [hb]
    omega
  · rw [ha]
    omega

theorem mapM_range {α : Type*} {xs : List α} {f : Nat → Option α} {m : Nat} (hm : m ≤ xs.length)
    (hf : ∀ i < m, f i = xs[i]?) : (List.range m).mapM f = some (xs.take m) := by
  induction m with
  | zero => simp
  | succ m ih =>
    have hlast : f m = some (xs.get ⟨m, hm⟩) := by
      rw [hf m (Nat.lt_succ_self m), List.getElem?_eq_getElem hm, List.get_eq_getElem]
    rw [List.range_succ, List.mapM_append, ih (by omega) fun i hi => hf i (by omega),
      List.take_add_one, List.getElem?_eq_getElem hm]
    simp [hlast]

/-! ### The buffer -/

variable {T : Type*} [Stored T] {c : Nat} {l : RingBuffer T} {added : List T}

/-- The buffer of a capacity after the entries that were added to it. -/
structure RingBuffer.Logged (c : Nat) (l : RingBuffer T) (added : List T) : Prop where
  positive : 0 < c
  alloc : Stored.size T * c ≤ maxAlloc
  capacity_eq : l.capacity.toInt = c
  pos_eq : l.pos.toInt = (added.length % c : Nat)
  count_eq : l.count.toInt = (min added.length c : Nat)
  holds : Ring.Holds c Stored.zero l.entries (added.length % c) added

theorem makeSlice_of_le {n : Int64} {k m : Nat} (hn : n.toInt = k) (hle : k ≤ m)
    (hm : Stored.size T * m ≤ maxAlloc) : makeSlice T n = some (List.replicate k Stored.zero) := by
  have hsize : Stored.size T * k ≤ maxAlloc := (Nat.mul_le_mul_left _ hle).trans hm
  rw [makeSlice, hn, Int.toNat_natCast, if_pos ⟨nonneg_of_natCast hn, hsize⟩]

theorem RingBuffer.logged_new {capacity : Int64} (hpos : 1 ≤ capacity)
    (h : RingBuffer.new capacity = some l) :
    l.capacity = capacity ∧ Logged capacity.toInt.toNat l [] := by
  rw [Int64.le_iff_toInt_le, Int64.toInt_one] at hpos
  rw [RingBuffer.new, makeSlice] at h
  split at h
  · next halloc =>
    obtain rfl : _ = l := by simpa using h
    refine ⟨rfl, by omega, halloc.2, by simp only; omega, by simp, by simp, ?_⟩
    simpa using Ring.Holds.empty _ Stored.zero
  · simp at h

namespace RingBuffer.Logged

variable (h : Logged c l added)

include h

theorem capacity_le : c ≤ 2 ^ 48 :=
  (Nat.le_mul_of_pos_left c Stored.size_pos).trans h.alloc

theorem pos_lt : added.length % c < c := Nat.mod_lt _ h.positive

theorem add (entry : T) : ∃ l', l.add entry = some l' ∧ l'.capacity = l.capacity ∧
    Logged c l' (added ++ [entry]) := by
  have hcap := h.capacity_le
  have hpos := h.pos_lt
  have hnext : (l.pos + 1).toInt = (added.length % c + 1 : Nat) := by
    rw [Int64.toInt_add, h.pos_eq, Int64.toInt_one, Int.bmod_eq_of_le (by omega) (by omega),
      Int.natCast_succ]
  have hcount : (if l.count < l.capacity then l.count + 1 else l.count).toInt =
      (min (added.length + 1) c : Nat) := by
    simp only [Int64.lt_iff_toInt_lt, h.count_eq, h.capacity_eq]
    split
    · rw [Int64.toInt_add, h.count_eq, Int64.toInt_one, Int.bmod_eq_of_le (by omega) (by omega)]
      omega
    · rw [h.count_eq]
      omega
  have hring := h.holds.add h.positive entry
  rw [Nat.mod_add_mod] at hring
  rw [RingBuffer.add, if_pos]
  · refine ⟨_, rfl, rfl, h.positive, h.alloc, h.capacity_eq, ?_, ?_, ?_⟩
    · rw [toInt_mod_of_natCast hnext h.capacity_eq, Nat.mod_add_mod, List.length_append,
        List.length_singleton]
    · rw [hcount, List.length_append, List.length_singleton]
    · simpa only [h.pos_eq, Int.toNat_natCast, List.length_append, List.length_singleton]
        using hring
  · rw [h.pos_eq, Int.toNat_natCast, h.holds.length_slots]
    exact ⟨nonneg_of_natCast h.pos_eq, hpos⟩

/-- Run lemma. -/
theorem run (entries : List T) : ∃ l', entries.foldlM RingBuffer.add l = some l' ∧
    l'.capacity = l.capacity ∧ Logged c l' (added ++ entries) := by
  induction entries generalizing l added with
  | nil => exact ⟨l, rfl, rfl, by rwa [List.append_nil]⟩
  | cons entry entries ih =>
    obtain ⟨l₁, hadd, hcap₁, h₁⟩ := h.add entry
    obtain ⟨l₂, hrun, hcap₂, h₂⟩ := ih h₁
    refine ⟨l₂, ?_, hcap₂.trans hcap₁, ?_⟩
    · rw [List.foldlM_cons, hadd]
      exact hrun
    · rwa [List.append_assoc] at h₂

theorem index_back {i : Nat} (hi : i < min added.length c) :
    index l.entries ((l.pos - 1 - .ofNat i + l.capacity) % l.capacity) = added.reverse[i]? := by
  have hcap := h.capacity_le
  have hpos := h.pos_lt
  have hi' : (Int64.ofNat i).toInt = i := Int64.toInt_ofNat_of_lt (by omega)
  have hsum : (l.pos - 1 - .ofNat i + l.capacity).toInt = (added.length % c + c - 1 - i : Nat) := by
    simp (disch := omega) only [Int64.toInt_add, Int64.toInt_sub, h.pos_eq, h.capacity_eq, hi',
      Int64.toInt_one, Int.bmod_eq_of_le]
    omega
  have hidx := toInt_mod_of_natCast hsum h.capacity_eq
  rw [index, if_pos (nonneg_of_natCast hidx), hidx, Int.toNat_natCast,
    h.holds.getElem?_back (by omega) (by omega)]

theorem recent {n : Int64} {k : Nat} (hn : n.toInt = k) :
    l.recent n = some ((added.reverse.take c).take k) := by
  have hmin := toInt_cut hn h.count_eq
  have htake : (added.reverse.take c).take k =
      added.reverse.take (min k (min added.length c)) := by
    rw [List.take_take, List.take_eq_take_iff, List.length_reverse]
    omega
  rw [RingBuffer.recent, htake]
  generalize (if n > l.count then l.count else n) = n' at hmin
  generalize hm : min k (min added.length c) = m at hmin
  split
  · next hzero =>
    have : m = 0 := by
      rw [hzero, Int64.toInt_zero] at hmin
      omega
    rw [this, List.take_zero]
  · rw [makeSlice_of_le hmin (by omega) h.alloc]
    simp only [Option.bind_eq_bind, Option.bind_some, List.length_replicate]
    exact mapM_range (by rw [List.length_reverse]; omega) fun i hi => h.index_back (by omega)

end RingBuffer.Logged

end Torii.Util

namespace Torii.Api

open Util

/-! ### The page -/

variable {capacity : Int64}

theorem requested_cases (raw : String) (accept : Int64 → Bool) (default : Int64) :
    requested raw accept default = default ∨ accept (requested raw accept default) = true := by
  unfold requested
  split
  · exact .inl rfl
  · split
    · split
      · next h => exact .inr h
      · exact .inl rfl
    · exact .inl rfl

theorem resolveRecentLogPage_bounds (hpos : 1 ≤ capacity) (rawLimit rawOffset : String) :
    ∃ limit offset : Nat,
      (resolveRecentLogPage rawLimit rawOffset capacity).1.toInt = limit ∧
      (resolveRecentLogPage rawLimit rawOffset capacity).2.toInt = offset ∧
      (limit + offset : Int) ≤ capacity.toInt := by
  have hmax := capacity.toInt_lt
  rw [Int64.le_iff_toInt_le, Int64.toInt_one] at hpos
  have hlimit := requested_cases rawLimit (fun n => n > 0 ∧ n < capacity) capacity
  have hoffset := requested_cases rawOffset (fun n => n > 0) 0
  simp only [resolveRecentLogPage, gt_iff_lt, Int64.le_iff_toInt_le, Int64.lt_iff_toInt_lt,
    Int64.toInt_zero, decide_eq_true_iff, if_neg (show ¬capacity.toInt ≤ 0 by omega),
    show 0 < capacity.toInt by omega, and_true, true_and] at hlimit hoffset ⊢
  generalize requested rawLimit _ capacity = limit at hlimit ⊢
  generalize requested rawOffset _ 0 = offset at hoffset ⊢
  have hlimit' : 0 < limit.toInt ∧ limit.toInt ≤ capacity.toInt := by
    obtain rfl | h := hlimit <;> omega
  have hoffset' : 0 ≤ offset.toInt := by
    obtain rfl | h := hoffset
    · exact Int.le_refl 0
    · exact Int.le_of_lt h
  have hclamp : (if capacity.toInt < offset.toInt then capacity else offset).toInt =
      min offset.toInt capacity.toInt := by
    split <;> omega
  generalize (if capacity.toInt < offset.toInt then capacity else offset) = offset' at hclamp ⊢
  have hsub : (capacity - offset').toInt = capacity.toInt - offset'.toInt := by
    rw [Int64.toInt_sub, Int.bmod_eq_of_le (by omega) (by omega)]
  refine ⟨(min limit.toInt (capacity.toInt - offset'.toInt)).toNat, offset'.toInt.toNat, ?_, ?_, ?_⟩
  · split <;> omega
  · omega
  · omega

theorem sliceRecentLogs_eq {T : Type*} {entries : List T} {offset limit : Int64} {o m : Nat}
    (hoffset : offset.toInt = o) (hlimit : limit.toInt = m) (hsum : o + m < 2 ^ 63)
    (hlength : entries.length < 2 ^ 63) :
    sliceRecentLogs entries offset limit = some ((entries.drop o).take m) := by
  have hlen : (Int64.ofNat entries.length).toInt = entries.length :=
    Int64.toInt_ofNat_of_lt hlength
  have hstop : (offset + limit).toInt = (o + m : Nat) := by
    rw [Int64.toInt_add, hoffset, hlimit, Int.bmod_eq_of_le (by omega) (by omega), Int.natCast_add]
  have hcut := toInt_cut hstop hlen
  simp only [sliceRecentLogs, ge_iff_le, Int64.le_iff_toInt_le, hcut, hlen, hoffset, hlimit,
    Int64.toInt_zero, Int.toNat_natCast]
  split
  · next h =>
    rw [List.take_eq_nil_iff.mpr]
    rw [List.drop_eq_nil_iff]
    omega
  · next h =>
    rw [if_pos (by omega), List.drop_take]
    congr 1
    rw [List.take_eq_take_iff, List.length_drop]
    omega

/-- A page of a log: never out of range, and exactly the requested part of what the buffer has to
hold, newest entry first. -/
theorem recentLogs_page {T : Type*} [Stored T] (hpos : 1 ≤ capacity) {l : RingBuffer T}
    (hnew : RingBuffer.new capacity = some l) (added : List T) (rawLimit rawOffset : String) :
    ∃ l', added.foldlM RingBuffer.add l = some l' ∧ l'.capacity = capacity ∧
      ∃ limit offset : Nat,
        (resolveRecentLogPage rawLimit rawOffset capacity).1.toInt = limit ∧
        (resolveRecentLogPage rawLimit rawOffset capacity).2.toInt = offset ∧
        (offset : Int) ≤ capacity.toInt ∧ (limit : Int) ≤ capacity.toInt - offset ∧
        recentLogs l' rawLimit rawOffset =
          some (((added.reverse.take capacity.toInt.toNat).drop offset).take limit) := by
  obtain ⟨hcap, hstart⟩ := RingBuffer.logged_new hpos hnew
  obtain ⟨l', hrun, hcap', h⟩ := hstart.run added
  obtain ⟨limit, offset, hlimit, hoffset, hle⟩ :=
    resolveRecentLogPage_bounds hpos rawLimit rawOffset
  have hmax := capacity.toInt_lt
  have hsum : ((resolveRecentLogPage rawLimit rawOffset capacity).1 +
      (resolveRecentLogPage rawLimit rawOffset capacity).2).toInt = (limit + offset : Nat) := by
    rw [Int64.toInt_add, hlimit, hoffset, Int.bmod_eq_of_le (by omega) (by omega), Int.natCast_add]
  refine ⟨l', hrun, hcap'.trans hcap, limit, offset, hlimit, hoffset, by omega, by omega, ?_⟩
  rw [List.nil_append] at h
  simp only [recentLogs, hcap'.trans hcap, h.recent hsum, Option.bind_eq_bind, Option.bind_some]
  rw [sliceRecentLogs_eq hoffset hlimit (by omega)]
  · rw [List.drop_take, List.take_take, Nat.add_sub_cancel, Nat.min_self]
  · simp only [List.length_take]
    omega

theorem recentLogs_page_wrapped : ∃ l l' : RingBuffer String,
    RingBuffer.new 3 = some l ∧ ["a", "b", "c", "d"].foldlM RingBuffer.add l = some l' ∧
      recentLogs l' "2" "1" = some ["c", "b"] := by
  obtain ⟨l', hrun, -, limit, offset, hlimit, hoffset, -, -, hpage⟩ :=
    recentLogs_page (show (1 : Int64) ≤ 3 by decide)
      (show RingBuffer.new 3 = some (RingBuffer.mk ["", "", ""] 0 0 3) from rfl)
      ["a", "b", "c", "d"] "2" "1"
  have hresolved : resolveRecentLogPage "2" "1" 3 = (2, 1) := by decide +kernel
  obtain rfl : limit = 2 := by
    rw [hresolved] at hlimit
    exact Int.ofNat_inj.mp hlimit.symm
  obtain rfl : offset = 1 := by
    rw [hresolved] at hoffset
    exact Int.ofNat_inj.mp hoffset.symm
  exact ⟨_, l', rfl, hrun, hpage⟩

end Torii.Api
