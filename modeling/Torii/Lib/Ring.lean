import Mathlib.Data.List.Rotate

/-!
# Rings that overwrite their oldest element

A ring has a fixed number of slots and writes them in turn. The elements that were in the slots at
the start count as the oldest ones, so that every new element replaces another.
-/

namespace Ring

variable {α : Type*} {cap pos : Nat} {z : α} {slots added : List α}

/-- The last `cap` elements that were added, oldest first. -/
def window (cap : Nat) (added : List α) : List α := added.drop (added.length - cap)

/-- The ring after the elements that were added; its slots started with `z`. -/
structure Holds (cap : Nat) (z : α) (slots : List α) (pos : Nat) (added : List α) : Prop where
  length_slots : slots.length = cap
  pos_eq : pos = added.length % cap
  rotate_eq : slots.rotate pos = (List.replicate cap z ++ added).drop added.length

theorem length_window (cap : Nat) (added : List α) :
    (window cap added).length = min added.length cap := by
  rw [window, List.length_drop]
  omega

theorem rotate_set (h : pos < slots.length) (x : α) :
    (slots.set pos x).rotate (pos + 1) = (slots.rotate pos).drop 1 ++ [x] := by
  have htake : (slots.set pos x).take (pos + 1) = slots.take pos ++ [x] := by
    rw [List.take_add_one, List.take_set_of_le le_rfl, List.getElem?_set_self h]
    rfl
  rw [List.rotate_eq_drop_append_take (by rw [List.length_set]; exact h),
    List.rotate_eq_drop_append_take h.le, List.drop_set_of_lt (Nat.lt_succ_self pos), htake,
    List.drop_append_of_le_length (by rw [List.length_drop]; omega), List.drop_drop,
    List.append_assoc]

namespace Holds

theorem empty (cap : Nat) (z : α) : Holds cap z (List.replicate cap z) 0 [] := by
  constructor <;> simp

variable (h : Holds cap z slots pos added)

include h

/-- Step lemma: one element is added. -/
theorem add (hcap : 0 < cap) (x : α) :
    Holds cap z (slots.set pos x) ((pos + 1) % cap) (added ++ [x]) := by
  have hset : (slots.set pos x).length = cap := by rw [List.length_set, h.length_slots]
  refine ⟨hset, ?_, ?_⟩
  · rw [h.pos_eq, List.length_append, List.length_singleton, Nat.mod_add_mod]
  · have hpos : pos < slots.length := by
      rw [h.length_slots, h.pos_eq]
      exact Nat.mod_lt _ hcap
    conv_lhs => rw [← hset, List.rotate_mod, rotate_set hpos, h.rotate_eq]
    rw [List.drop_drop, ← List.append_assoc, List.length_append, List.length_singleton]
    exact (List.drop_append_of_le_length (by simp; omega)).symm

theorem perm : (slots.take (min added.length cap)).Perm (window cap added) := by
  have hrotate := h.rotate_eq
  obtain hlt | hle := Nat.lt_or_ge added.length cap
  · rw [h.pos_eq, Nat.mod_eq_of_lt hlt, List.drop_append_of_le_length (by simpa using hlt.le),
      List.drop_replicate, List.rotate_eq_drop_append_take (by rw [h.length_slots]; exact hlt.le)]
      at hrotate
    have htake := List.append_inj_right hrotate (by simp [h.length_slots])
    rw [Nat.min_eq_left hlt.le, htake, window, Nat.sub_eq_zero_of_le hlt.le, List.drop_zero]
  · rw [List.drop_append, List.length_replicate,
      List.drop_eq_nil_of_le (by rwa [List.length_replicate]), List.nil_append] at hrotate
    rw [Nat.min_eq_right hle, List.take_of_length_le h.length_slots.le, window, ← hrotate]
    exact (List.rotate_perm _ _).symm

theorem getElem?_back {i : Nat} (hcap : i < cap) (hi : i < added.length) :
    slots[(pos + cap - 1 - i) % cap]? = added.reverse[i]? := by
  have hindex : pos + cap - 1 - i = cap - 1 - i + pos := by omega
  have hread := List.getElem?_rotate (l := slots) (n := pos) (m := cap - 1 - i)
    (by rw [h.length_slots]; omega)
  rw [hindex, ← congrArg (_ % ·) h.length_slots, ← hread, h.rotate_eq, List.getElem?_drop,
    List.getElem?_append_right (by rw [List.length_replicate]; omega), List.length_replicate,
    List.getElem?_reverse hi]
  congr 1
  omega

end Holds

end Ring
