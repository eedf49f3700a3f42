import Mathlib.Data.List.Induction

/-!
# Trees with symbolic links

A tree of files is a table of what stands at each place, a place being the names that lead to it
from the root. `resolve` walks along a path and follows the links on its way.
-/

/-- What stands at a place. The target of a link starts at the root, or beside the link. -/
inductive TreeEntry (N : Type*) where
  | dir
  | file
  | link (absolute : Bool) (target : List N)

/-- A tree of files; `up` is the name that leads to the place above. -/
structure LinkedTree (N : Type*) where
  up : N
  entry : List N → Option (TreeEntry N)

namespace LinkedTree

variable {N : Type*} (t : LinkedTree N)

/-- The names lead through directories. -/
def Directories (p : List N) : Prop :=
  ∀ q name rest, p = q ++ name :: rest → name ≠ t.up ∧ t.entry (q ++ [name]) = some .dir

/-- The names lead through directories to a directory or a file. -/
def Physical (p : List N) : Prop :=
  ∀ q name rest, p = q ++ name :: rest →
    name ≠ t.up ∧ (t.entry (q ++ [name]) = some .dir ∨
      rest = [] ∧ t.entry (q ++ [name]) = some .file)

variable {t} {links : Nat} {base p q : List N}

theorem directories_nil : t.Directories [] := fun _ _ _ h => absurd h (by simp)

theorem Directories.physical (h : t.Directories p) : t.Physical p :=
  fun q name rest heq => (h q name rest heq).imp_right .inl

theorem Physical.of_append {rest : List N} (h : t.Physical (p ++ rest)) : t.Physical p := by
  rintro q name rest' rfl
  refine (h q name (rest' ++ rest) (by simp)).imp_right (Or.imp_right fun hlast => ?_)
  exact ⟨(List.append_eq_nil_iff.mp hlast.1).1, hlast.2⟩

theorem Directories.dropLast (h : t.Directories p) : t.Directories p.dropLast := by
  intro q name rest heq
  cases p using List.reverseRecOn with
  | nil => simp at heq
  | append_singleton p last =>
    rw [List.dropLast_concat] at heq
    exact h q name (rest ++ [last]) (by simp [heq])

/-- A place in the list, when the last name is split off. -/
theorem concat_cases {name last : N} {rest : List N} (h : p ++ [last] = q ++ name :: rest) :
    (p = q ∧ last = name ∧ rest = []) ∨ ∃ rest', p = q ++ name :: rest' := by
  cases rest using List.reverseRecOn with
  | nil =>
    obtain ⟨rfl, hlast⟩ := List.append_inj' h rfl
    exact .inl ⟨rfl, (List.cons.inj hlast).1, rfl⟩
  | append_singleton rest x =>
    rw [← List.cons_append, ← List.append_assoc] at h
    exact .inr ⟨rest, (List.append_inj' h rfl).1⟩

theorem Directories.concat {name : N} (h : t.Directories base) (hup : name ≠ t.up)
    (hdir : t.entry (base ++ [name]) = some .dir) : t.Directories (base ++ [name]) := by
  intro q name' rest heq
  obtain ⟨rfl, rfl, -⟩ | ⟨rest', heq'⟩ := concat_cases heq
  · exact ⟨hup, hdir⟩
  · exact h q name' rest' heq'

theorem Directories.file {name : N} (h : t.Directories base) (hup : name ≠ t.up)
    (hfile : t.entry (base ++ [name]) = some .file) : t.Physical (base ++ [name]) := by
  intro q name' rest heq
  obtain ⟨rfl, rfl, rfl⟩ | ⟨rest', heq'⟩ := concat_cases heq
  · exact ⟨hup, .inr ⟨rfl, hfile⟩⟩
  · exact (h q name' rest' heq').imp_right .inl

section

variable [DecidableEq N]

/-- The place to which names lead from a place on, through a number of links at most. -/
def resolve (t : LinkedTree N) (links : Nat) (base : List N) : List N → Option (List N)
  | [] => some base
  | name :: rest =>
    if name = t.up then resolve t links base.dropLast rest
    else
      match t.entry (base ++ [name]) with
      | none => none
      | some .dir => resolve t links (base ++ [name]) rest
      | some .file => if rest = [] then some (base ++ [name]) else none
      | some (.link absolute target) =>
        match links with
        | 0 => none
        | links + 1 => resolve t links (bif absolute then [] else base) (target ++ rest)
termination_by names => (links, names.length)

/-- Where a path leads there is no link on the way. -/
theorem physical_of_resolve (hbase : t.Directories base) (h : t.resolve links base p = some q) :
    t.Physical q := by
  fun_induction resolve t links base p with
  | case1 => exact Option.some.inj h ▸ hbase.physical
  | case2 _ _ _ ih => exact ih hbase.dropLast h
  | case3 => cases h
  | case4 _ _ _ _ hup hentry ih => exact ih (hbase.concat hup hentry) h
  | case5 _ _ _ hup hentry => exact Option.some.inj h ▸ hbase.file hup hentry
  | case6 | case7 => cases h
  | case8 _ _ _ _ absolute _ _ _ ih =>
    refine ih ?_ h
    cases absolute
    · exact hbase
    · exact directories_nil

theorem resolve_of_physical (h : t.Physical (base ++ p)) :
    t.resolve links base p = some (base ++ p) := by
  induction p generalizing base with
  | nil => simp [resolve]
  | cons name rest ih =>
    obtain ⟨hup, hentry⟩ := h base name rest rfl
    rw [resolve, if_neg hup]
    obtain hdir | ⟨rfl, hfile⟩ := hentry
    · rw [hdir]
      simpa using @ih (base ++ [name]) (by simpa using h)
    · simp [hfile]

/-- A place above one that was reached resolves to itself. -/
theorem resolve_of_isPrefix {path : List N} (h : t.resolve links [] path = some q) (hp : p <+: q) :
    t.resolve links [] p = some p := by
  obtain ⟨rest, rfl⟩ := hp
  exact resolve_of_physical (physical_of_resolve directories_nil h).of_append

end

end LinkedTree
