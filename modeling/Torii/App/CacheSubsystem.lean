import Mathlib.Algebra.Group.Nat.Defs
import Torii.Go.Map
import Torii.Go.Strconv
import Torii.Lib.Machine

/-!
# The registry of caches

`internal/subsystem/cache/cache_subsystem.go`, without its change listeners. A source is an address,
so that one cache may be registered twice. An identifier ends in the number of its registration, so
identifiers differ as long as the 64-bit counter has not gone round.
-/

namespace Torii.App.CacheSubsystem

open Go

/-- `SourceSnapshot`; what the subsystem only passes on is one field. -/
structure SourceSnapshot (D : Type*) where
  name : String
  cacheId : String
  details : D

/-- The methods of a `Source` on the contents of a cache. -/
structure Source (S D : Type*) where
  snapshot : S → SourceSnapshot D
  deleteEntry : S → String → Bool × S

structure Subsystem (A : Type*) where
  nextID : UInt64 := 0
  caches : GoMap String A := ∅
  order : List String := []
  started : Bool := false

variable {A S D : Type*}

namespace Subsystem

/-- `fmt.Sprintf("%s#%d", name, n)`. -/
def formatId (name : String) (n : UInt64) : String := name ++ "#" ++ Nat.repr n.toNat

def initializeSubsystem (s : Subsystem A) : Subsystem A := { s with started := true }

def shutdown (s : Subsystem A) : Subsystem A :=
  { s with started := false, caches := ∅, order := [] }

/-- `RegisterCache` of a source, with the name that it gives. The identifier is the one that the
returned function unregisters. -/
def registerCache (s : Subsystem A) (source : A) (name : String) : String × Subsystem A :=
  let nextID := s.nextID + 1
  let id := formatId name nextID
  (id, { s with nextID, caches := s.caches.insert id source, order := s.order ++ [id] })

def unregister (s : Subsystem A) (id : String) : Subsystem A :=
  if id ∈ s.caches then { s with caches := s.caches.erase id, order := s.order.erase id } else s

def deleteEntryFromCache [DecidableEq A] (I : Source S D) (s : Subsystem A) (heap : A → S)
    (cacheId key : String) : Bool × (A → S) :=
  match s.caches.lookup cacheId with
  | none => (false, heap)
  | some cache =>
    let (ok, contents) := I.deleteEntry (heap cache) key
    (ok, Function.update heap cache contents)

def snapshots (I : Source S D) (s : Subsystem A) (heap : A → S) : List (SourceSnapshot D) :=
  let snapshots := s.order.filterMap fun id =>
    (s.caches.lookup id).map fun source => { I.snapshot (heap source) with cacheId := id }
  snapshots.mergeSort fun a b => a.name ≤ b.name

end Subsystem

open Subsystem

/-- A function that was returned is the identifier it unregisters; for no source it does
nothing. -/
inductive Op (A : Type*) where
  | initializeSubsystem
  | shutdown
  | registerCache (source : Option (A × String))
  | call (returned : Option String)

def step (s : Subsystem A) : Op A → Option String × Subsystem A
  | .initializeSubsystem => (none, s.initializeSubsystem)
  | .shutdown => (none, s.shutdown)
  | .registerCache none => (none, s)
  | .registerCache (some (source, name)) => (s.registerCache source name).map some id
  | .call none => (none, s)
  | .call (some id) => (none, s.unregister id)

def registry (A : Type*) : Machine (Subsystem A) (Op A) (Option String) := ⟨step⟩

/-- The subsystem after the operations on a new one. -/
def after (ops : List (Op A)) : Subsystem A := (registry A).run {} ops

/-- The identifiers given out along a run. -/
def issued (ops : List (Op A)) : List String :=
  (registry A).collect (fun s op => (step s op).1.toList) {} ops

def Op.registers : Op A → Bool
  | .registerCache (some _) => true
  | _ => false

/-! ### Identifiers -/

theorem notMem_repr (n : Nat) : '#' ∉ (Nat.repr n).toList := by
  rw [Nat.toList_repr]
  exact fun h => absurd (Nat.isDigit_of_mem_toDigits (by decide) (by decide) h) (by decide)

theorem takeWhile_formatId (name : String) (n : UInt64) :
    (formatId name n).toList.reverse.takeWhile (· != '#') = (Nat.repr n.toNat).toList.reverse := by
  rw [formatId, String.toList_append, String.toList_append, List.reverse_append,
    List.reverse_append, List.takeWhile_append_of_pos]
  · simp [show "#".toList = ['#'] from rfl]
  · intro c hc
    have hne : c ≠ '#' := by
      rintro rfl
      exact notMem_repr _ (List.mem_reverse.mp hc)
    simpa using hne

theorem formatId_inj {name name' : String} {m n : UInt64}
    (h : formatId name m = formatId name' n) : m = n := by
  have hdigits := congrArg (fun id => id.toList.reverse.takeWhile (· != '#')) h
  simp only [takeWhile_formatId, List.reverse_inj, String.toList_inj] at hdigits
  have hnumber : (m.toNat : Int) = n.toNat := Strconv.itoa_inj hdigits
  exact UInt64.toNat_inj.mp (Int.ofNat_inj.mp hnumber)

/-! ### Runs -/

variable {s : Subsystem A} {ids : List String}

/-- The list and the map name the same caches, under identifiers that were given out, each of them
once. -/
structure Consistent (s : Subsystem A) (ids : List String) : Prop where
  nextID_eq : s.nextID = UInt64.ofNat ids.length
  numbered : ∀ id ∈ ids, ∃ name, ∃ n < ids.length, id = formatId name (.ofNat (n + 1))
  issued_nodup : ids.Nodup
  order_nodup : s.order.Nodup
  mem_order : ∀ id, id ∈ s.order ↔ id ∈ s.caches
  mem_issued : ∀ id ∈ s.order, id ∈ ids

theorem consistent_empty : Consistent ({} : Subsystem A) [] where
  nextID_eq := rfl
  numbered := by simp
  issued_nodup := List.nodup_nil
  order_nodup := List.nodup_nil
  mem_order := by simp
  mem_issued := by simp

namespace Consistent

variable (h : Consistent s ids)

include h

theorem nextID_succ : s.nextID + 1 = UInt64.ofNat (ids.length + 1) := by
  rw [h.nextID_eq, UInt64.ofNat_add]
  rfl

theorem fresh (hlt : ids.length < 2 ^ 64) (name : String) :
    formatId name (s.nextID + 1) ∉ ids := by
  intro hmem
  obtain ⟨name', n, hn, heq⟩ := h.numbered _ hmem
  have hnumber := congrArg UInt64.toNat (h.nextID_succ.symm.trans (formatId_inj heq))
  simp only [UInt64.toNat_ofNat'] at hnumber
  omega

theorem registerCache (hlt : ids.length < 2 ^ 64) (source : A) (name : String) :
    Consistent (s.registerCache source name).2 (ids ++ [(s.registerCache source name).1]) := by
  have hfresh := h.fresh hlt name
  have hnew : formatId name (s.nextID + 1) ∉ s.order := fun hmem => hfresh (h.mem_issued _ hmem)
  constructor
  · rw [List.length_append, List.length_singleton]
    exact h.nextID_succ
  · intro id hid
    rw [List.length_append, List.length_singleton]
    obtain hid | rfl := by simpa using hid
    · obtain ⟨name', n, hn, rfl⟩ := h.numbered id hid
      exact ⟨name', n, by omega, rfl⟩
    · exact ⟨name, ids.length, by omega, by rw [Subsystem.registerCache, h.nextID_succ]⟩
  · have hnodup := h.issued_nodup.concat hfresh
    rwa [List.concat_eq_append] at hnodup
  · have hnodup := h.order_nodup.concat hnew
    rwa [List.concat_eq_append] at hnodup
  · intro id
    simp [Subsystem.registerCache, h.mem_order, or_comm]
  · intro id hid
    obtain hid | rfl := by simpa [Subsystem.registerCache] using hid
    · exact List.mem_append_left _ (h.mem_issued id hid)
    · exact List.mem_append_right _ List.mem_cons_self

theorem unregister (id : String) : Consistent (s.unregister id) ids := by
  rw [Subsystem.unregister]
  split
  · refine ⟨h.nextID_eq, h.numbered, h.issued_nodup, h.order_nodup.erase id, ?_, ?_⟩
    · intro id'
      rw [h.order_nodup.mem_erase_iff, h.mem_order, AList.mem_erase]
    · exact fun id' hid' => h.mem_issued id' (List.mem_of_mem_erase hid')
  · exact h

theorem step {op : Op A} (hlt : op.registers = true → ids.length < 2 ^ 64) :
    Consistent (step s op).2 (ids ++ (step s op).1.toList) := by
  cases op with
  | initializeSubsystem =>
    rw [CacheSubsystem.step, Option.toList_none, List.append_nil]
    exact ⟨h.nextID_eq, h.numbered, h.issued_nodup, h.order_nodup, h.mem_order, h.mem_issued⟩
  | shutdown =>
    rw [CacheSubsystem.step, Option.toList_none, List.append_nil]
    exact ⟨h.nextID_eq, h.numbered, h.issued_nodup, List.nodup_nil, by simp [shutdown],
      by simp [shutdown]⟩
  | registerCache source =>
    cases source with
    | none => simpa [CacheSubsystem.step] using h
    | some source => exact h.registerCache (hlt rfl) source.1 source.2
  | call returned =>
    cases returned with
    | none => simpa [CacheSubsystem.step] using h
    | some id => simpa [CacheSubsystem.step] using h.unregister id

end Consistent

theorem length_step (s : Subsystem A) (op : Op A) :
    (step s op).1.toList.length = if op.registers = true then 1 else 0 := by
  rcases op with _ | _ | ⟨_ | _⟩ | ⟨_ | _⟩ <;> rfl

theorem consistent_run (ops : List (Op A)) (hcount : ops.countP Op.registers ≤ 2 ^ 64) :
    Consistent (after ops) (issued ops) ∧
      (issued ops).length = ops.countP Op.registers := by
  induction ops using List.reverseRecOn with
  | nil => exact ⟨consistent_empty, rfl⟩
  | append_singleton ops op ih =>
    rw [List.countP_append, List.countP_singleton] at hcount ⊢
    obtain ⟨h, hlength⟩ := ih (by omega)
    rw [after, issued, Machine.collect_concat, Machine.run_concat, List.length_append]
    refine ⟨h.step fun hop => ?_, ?_⟩
    · rw [if_pos hop] at hcount
      omega
    · rw [length_step]
      exact congrArg (· + _) hlength

/-! ### What is read and deleted -/

theorem perm_keys (h : Consistent s ids) (I : Source S D) (heap : A → S) :
    ((s.snapshots I heap).map (·.cacheId)).Perm s.caches.keys := by
  have hids : (s.order.filterMap fun id => (s.caches.lookup id).map fun source =>
      ({ I.snapshot (heap source) with cacheId := id } : SourceSnapshot D)).map (·.cacheId) =
      s.order := by
    rw [List.map_filterMap]
    conv_rhs => rw [← List.filterMap_some (l := s.order)]
    apply List.filterMap_congr
    intro id hid
    obtain ⟨source, hsource⟩ := GoMap.mem_iff_exists_lookup.mp ((h.mem_order id).mp hid)
    rw [hsource]
    rfl
  have hkeys : s.order.Perm s.caches.keys :=
    (List.perm_ext_iff_of_nodup h.order_nodup s.caches.keys_nodup).mpr h.mem_order
  exact ((List.mergeSort_perm _ _).map _).trans ((List.Perm.of_eq hids).trans hkeys)

theorem eq_of_mem_snapshots {I : Source S D} {heap : A → S} {snap : SourceSnapshot D}
    (h : snap ∈ s.snapshots I heap) : ∃ source, s.caches.lookup snap.cacheId = some source ∧
      snap = { I.snapshot (heap source) with cacheId := snap.cacheId } := by
  rw [snapshots, List.mem_mergeSort, List.mem_filterMap] at h
  obtain ⟨id, -, hid⟩ := h
  obtain ⟨source, hsource, rfl⟩ := Option.map_eq_some_iff.mp hid
  exact ⟨source, hsource, rfl⟩

theorem deleteEntryFromCache_apply [DecidableEq A] (I : Source S D) (s : Subsystem A)
    (heap : A → S) (id key : String) (source : A) :
    (s.deleteEntryFromCache I heap id key).2 source =
      if s.caches.lookup id = some source then (I.deleteEntry (heap source) key).2
      else heap source := by
  rw [deleteEntryFromCache]
  cases hid : s.caches.lookup id with
  | none => rw [if_neg (by simp)]
  | some cache =>
    simp only [Function.update_apply, Option.some.injEq, eq_comm (a := cache)]
    split
    · next heq => rw [heq]
    · rfl

/-- The registry after every run in which the counter has not gone round. -/
theorem registry_consistent [DecidableEq A] (I : Source S D) (heap : A → S) (ops : List (Op A))
    (hcount : ops.countP Op.registers ≤ 2 ^ 64) :
    (after ops).order.Nodup ∧ (∀ id, id ∈ (after ops).order ↔ id ∈ (after ops).caches) ∧
    (issued ops).Nodup ∧
    (((after ops).snapshots I heap).map (·.cacheId)).Perm (after ops).caches.keys ∧
    (∀ snap ∈ (after ops).snapshots I heap, ∃ source,
      (after ops).caches.lookup snap.cacheId = some source ∧
      snap = { I.snapshot (heap source) with cacheId := snap.cacheId }) ∧
    ∀ id key source, ((after ops).deleteEntryFromCache I heap id key).2 source =
      if (after ops).caches.lookup id = some source then (I.deleteEntry (heap source) key).2
      else heap source := by
  obtain ⟨h, -⟩ := consistent_run ops hcount
  exact ⟨h.order_nodup, h.mem_order, h.issued_nodup, perm_keys h I heap,
    fun snap => eq_of_mem_snapshots, deleteEntryFromCache_apply I _ heap⟩

theorem registry_consistent_stale :
    (after [.registerCache (some ((), "a")), .shutdown, .registerCache (some ((), "a")),
      .call (some "a#1")]).order = ["a#2"] ∧
    (issued [.registerCache (some ((), "a")), .shutdown, .registerCache (some ((), "a")),
      .call (some "a#1")]).Nodup :=
  ⟨by decide +kernel, (registry_consistent (A := Unit) (S := Unit) (D := Unit)
    ⟨fun _ => ⟨"a", "", ()⟩, fun s _ => (true, s)⟩ id _ (by decide)).2.2.1⟩

def rounds (n : Nat) : List (Op Unit) :=
  (List.replicate n [.registerCache (some ((), "a")), .shutdown]).flatten

theorem rounds_succ (n : Nat) :
    rounds (n + 1) = rounds n ++ [.registerCache (some ((), "a")), .shutdown] := by
  simp [rounds, List.replicate_succ']

theorem rounds_run (n : Nat) :
    after (rounds n) = { nextID := .ofNat n } ∧
      issued (rounds n) = (List.range n).map fun k => formatId "a" (.ofNat (k + 1)) := by
  induction n with
  | zero => exact ⟨rfl, rfl⟩
  | succ n ih =>
    obtain ⟨hafter, hissued⟩ := ih
    rw [after] at hafter
    rw [issued] at hissued
    rw [rounds_succ, after, issued, Machine.run_append, Machine.collect_append, hafter, hissued,
      List.range_succ, List.map_append]
    constructor
    · simp [registry, step, registerCache, shutdown]
    · simp [registry, Machine.collect, step, registerCache]

/-- The counter goes round, and the first identifier is given out again. -/
theorem issued_rounds : ¬(issued (rounds (2 ^ 64 + 1))).Nodup := by
  rw [(rounds_run _).2, List.nodup_map_iff_inj_on List.nodup_range]
  intro hinj
  have h := hinj 0 (List.mem_range.mpr (Nat.succ_pos _)) (2 ^ 64)
    (List.mem_range.mpr (Nat.lt_succ_self _)) (congrArg (formatId "a") rfl)
  exact absurd h (by decide)

end Torii.App.CacheSubsystem
