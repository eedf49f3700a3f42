import Mathlib.Data.Finset.Card
import Mathlib.Data.List.AList

/-!
# Go maps

A flat `map[K]V` is Mathlib's `AList`. Go fixes no iteration order; a loop whose result depends on
it takes the order as an argument (`rangeKeys`). A map inside a recursive type cannot carry a proof
about itself, so there the bindings are a plain list.
-/

namespace Go

/-- Go's `map[K]V`. -/
abbrev GoMap (K V : Type*) := AList fun _ : K => V

namespace GoMap

variable {K V : Type*} [DecidableEq K]

def len (m : GoMap K V) : Nat := m.entries.length

/-- Keep the bindings that satisfy `keep`; the body of a loop that deletes while ranging. -/
def filter (keep : K → V → Bool) (m : GoMap K V) : GoMap K V where
  entries := m.entries.filter fun e => keep e.1 e.2
  nodupKeys := m.nodupKeys.sublist List.filter_sublist

/-- The keys in the order in which a `range` loop meets them: first those named by `order`,
then the rest. Every order of the keys is obtained for some `order`. -/
def rangeKeys (order : List K) (m : GoMap K V) : List K :=
  (order.filter (· ∈ m)).dedup ++ m.keys.filter (· ∉ order)

variable {m : GoMap K V} {k : K} {m' : GoMap K V} (order : List K) {v : V}

theorem mem_iff_exists_lookup : k ∈ m ↔ ∃ v, m.lookup k = some v := by
  rw [← AList.lookup_isSome, Option.isSome_iff_exists]

theorem mem_of_lookup (h : m.lookup k = some v) : k ∈ m :=
  mem_iff_exists_lookup.mpr ⟨v, h⟩

@[simp] theorem mem_rangeKeys {order : List K} : k ∈ m.rangeKeys order ↔ k ∈ m := by
  simp only [rangeKeys, List.mem_append, List.mem_dedup, List.mem_filter, decide_eq_true_iff]
  constructor
  · rintro (⟨-, h⟩ | ⟨h, -⟩)
    · exact h
    · exact h
  · intro h
    by_cases ho : k ∈ order
    · exact .inl ⟨ho, h⟩
    · exact .inr ⟨h, ho⟩

theorem nodup_rangeKeys (m : GoMap K V) : (m.rangeKeys order).Nodup := by
  refine List.nodup_append.mpr ⟨List.nodup_dedup _, m.keys_nodup.filter _, ?_⟩
  rintro k hk k' hk' rfl
  simp only [List.mem_dedup, List.mem_filter, decide_eq_true_iff] at hk hk'
  exact hk'.2 hk.1

def rangeValues (order : List K) (m : GoMap K V) : List V :=
  (m.rangeKeys order).filterMap fun k => m.lookup k

theorem mem_rangeValues {order : List K} : v ∈ m.rangeValues order ↔ ∃ k, m.lookup k = some v := by
  simp only [rangeValues, List.mem_filterMap, mem_rangeKeys]
  constructor
  · rintro ⟨k, -, hk⟩
    exact ⟨k, hk⟩
  · rintro ⟨k, hk⟩
    exact ⟨k, mem_of_lookup hk, hk⟩

/-- A loop over the values meets a value with one key once. -/
theorem count_rangeValues [DecidableEq V]
    (hk : m.lookup k = some v) (hunique : ∀ k', m.lookup k' = some v → k' = k) :
    (m.rangeValues order).count v = 1 := by
  have hcount : (m.rangeValues order).count v = (m.rangeKeys order).count k := by
    rw [rangeValues, List.count_filterMap, List.count_eq_countP]
    apply List.countP_congr
    intro k' _
    simp only [beq_iff_eq]
    constructor
    · exact hunique k'
    · rintro rfl
      exact hk
  rw [hcount]
  apply List.count_eq_one_of_mem (nodup_rangeKeys order m)
  exact mem_rangeKeys.mpr (mem_of_lookup hk)

theorem nodup_rangeValues
    (hunique : ∀ k k' v, m.lookup k = some v → m.lookup k' = some v → k = k') :
    (m.rangeValues order).Nodup :=
  (nodup_rangeKeys order m).filterMap fun k k' v hk hk' => hunique k k' v hk hk'

theorem mem_entries_iff : (⟨k, v⟩ : Sigma fun _ : K => V) ∈ m.entries ↔ m.lookup k = some v :=
  (List.mem_dlookup_iff m.nodupKeys).symm

@[simp] theorem lookup_filter (keep : K → V → Bool) (m : GoMap K V) (k : K) :
    (m.filter keep).lookup k = (m.lookup k).filter (keep k) := by
  apply Option.ext
  intro v
  rw [← mem_entries_iff, Option.filter_eq_some_iff, ← mem_entries_iff]
  simp [filter]

theorem lookup_insert' (m : GoMap K V) (k k' : K) (v : V) :
    (m.insert k v).lookup k' = if k' = k then some v else m.lookup k' := by
  by_cases h : k' = k
  · subst h
    simp
  · simp [h]

theorem lookup_erase' (m : GoMap K V) (k k' : K) :
    (m.erase k).lookup k' = if k' = k then none else m.lookup k' := by
  by_cases h : k' = k
  · subst h
    simp
  · simp [h]

theorem lookup_insert_cases {k' : K} {v' : V} (h : (m.insert k v).lookup k' = some v') :
    k' = k ∧ v' = v ∨ k' ≠ k ∧ m.lookup k' = some v' := by
  rw [lookup_insert'] at h
  split at h
  · next hk => exact .inl ⟨hk, (Option.some.inj h).symm⟩
  · next hk => exact .inr ⟨hk, h⟩

theorem lookup_of_erase {k' : K} (h : (m.erase k).lookup k' = some v) :
    k' ≠ k ∧ m.lookup k' = some v := by
  rwa [lookup_erase', Option.ite_none_left_eq_some] at h

theorem len_eq_card (m : GoMap K V) : m.len = m.keys.toFinset.card := by
  rw [List.toFinset_card_of_nodup m.keys_nodup, len, AList.keys, List.keys, List.length_map]

omit [DecidableEq K] in
theorem len_eq_length_keys (m : GoMap K V) : m.len = m.keys.length := by
  rw [len, AList.keys, List.keys, List.length_map]

theorem len_insert (h : m.lookup k = none) (v : V) : len (m.insert k v) = m.len + 1 := by
  rw [len_eq_length_keys, len_eq_length_keys, AList.keys_insert, List.length_cons,
    List.erase_of_not_mem (AList.lookup_eq_none.mp h)]

theorem len_erase (h : m.lookup k = some v) : len (m.erase k) + 1 = m.len := by
  have hmem : k ∈ m.keys := mem_of_lookup h
  have hpos : 0 < m.keys.length := List.length_pos_of_mem hmem
  rw [len_eq_length_keys, len_eq_length_keys, AList.keys_erase, List.length_erase_of_mem hmem]
  omega

theorem len_insert_le (m : GoMap K V) (k : K) (v : V) : len (m.insert k v) ≤ m.len + 1 := by
  rw [len_eq_length_keys, len_eq_length_keys, AList.keys_insert, List.length_cons]
  exact Nat.succ_le_succ List.erase_sublist.length_le

theorem len_insert_of_mem (h : k ∈ m) (v : V) : len (m.insert k v) = m.len := by
  have hmem : k ∈ m.keys := h
  have hpos : 0 < m.keys.length := List.length_pos_of_mem hmem
  rw [len_eq_length_keys, len_eq_length_keys, AList.keys_insert, List.length_cons,
    List.length_erase_of_mem hmem]
  omega

theorem len_erase_le (m : GoMap K V) (k : K) : len (m.erase k) ≤ m.len := by
  rw [len_eq_length_keys, len_eq_length_keys, AList.keys_erase]
  exact List.erase_sublist.length_le

omit [DecidableEq K] in
theorem len_filter_le (keep : K → V → Bool) (m : GoMap K V) : (m.filter keep).len ≤ m.len :=
  List.filter_sublist.length_le

theorem toFinset_keys_subset (h : ∀ k ∈ m, k ∈ m') :
    m.keys.toFinset ⊆ m'.keys.toFinset := fun k hk =>
  List.mem_toFinset.mpr (h k (List.mem_toFinset.mp hk))

theorem len_le_of_forall_mem (h : ∀ k ∈ m, k ∈ m') : m.len ≤ m'.len := by
  rw [len_eq_card, len_eq_card]
  exact Finset.card_le_card (toFinset_keys_subset h)

theorem mem_of_forall_mem (h : ∀ k ∈ m, k ∈ m') (hlen : m'.len ≤ m.len) (hk : k ∈ m') : k ∈ m := by
  rw [len_eq_card, len_eq_card] at hlen
  rw [AList.mem_keys, ← List.mem_toFinset,
    Finset.eq_of_subset_of_card_le (toFinset_keys_subset h) hlen, List.mem_toFinset]
  exact hk

theorem len_lt_card {keys : Finset K} (h : ∀ k ∈ m, k ∈ keys)
    (hk : k ∈ keys) (hmiss : k ∉ m) : m.len < keys.card := by
  rw [len_eq_card]
  apply Finset.card_lt_card
  rw [Finset.ssubset_iff_of_subset]
  · exact ⟨k, hk, by rwa [List.mem_toFinset, ← AList.mem_keys]⟩
  · intro k' hk'
    rw [List.mem_toFinset, ← AList.mem_keys] at hk'
    exact h k' hk'

end GoMap

section

variable {K V : Type*} [DecidableEq K]

/-- `m[k] = v` on a plain list of bindings. -/
def assign (k : K) (v : V) : List (K × V) → List (K × V)
  | [] => [(k, v)]
  | (k', v') :: rest => if k' = k then (k, v) :: rest else (k', v') :: assign k v rest

theorem lookup_cons_eq (k k' : K) (v : V) (bindings : List (K × V)) :
    ((k, v) :: bindings).lookup k' = if k' = k then some v else bindings.lookup k' := by
  rw [List.lookup_cons]
  by_cases h : k' = k
  · simp [h]
  · simp [beq_eq_false_iff_ne.mpr h, h]

theorem lookup_assign (k k' : K) (v : V) (bindings : List (K × V)) :
    (assign k v bindings).lookup k' = if k' = k then some v else bindings.lookup k' := by
  induction bindings with
  | nil => simp [assign, lookup_cons_eq]
  | cons binding rest ih =>
    obtain ⟨key, value⟩ := binding
    simp only [assign]
    split
    · next hkey =>
      subst hkey
      simp only [lookup_cons_eq]
      split <;> rfl
    · next hkey =>
      simp only [lookup_cons_eq, ih]
      by_cases h : k' = key
      · simp [h, hkey]
      · simp [h]

theorem mem_assign {k : K} {v : V} {bindings : List (K × V)} {e : K × V}
    (h : e ∈ assign k v bindings) : e = (k, v) ∨ e ∈ bindings := by
  induction bindings with
  | nil => exact .inl (by simpa [assign] using h)
  | cons binding rest ih =>
    obtain ⟨k', v'⟩ := binding
    rw [assign] at h
    split at h
    · obtain rfl | hrest := List.mem_cons.mp h
      · exact .inl rfl
      · exact .inr (List.mem_cons_of_mem _ hrest)
    · obtain rfl | hrest := List.mem_cons.mp h
      · exact .inr List.mem_cons_self
      · exact (ih hrest).imp_right (List.mem_cons_of_mem _)

end

end Go
