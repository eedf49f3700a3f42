import Torii.Go.Strings

/-!
# Go's `net.SplitHostPort` and `net.JoinHostPort`

The callers only ask whether `SplitHostPort` failed, so its five error texts are all `none`.
Positions are positions in the character list; every delimiter is one character.
-/

namespace Go.Net

/-- Split at the last occurrence of `c`, which belongs to neither half. -/
def splitLast (c : Char) : List Char → Option (List Char × List Char)
  | [] => none
  | x :: xs =>
    match splitLast c xs with
    | some (before, after) => some (x :: before, after)
    | none => if x = c then some ([], xs) else none

/-- `net.SplitHostPort`. A bracketed host must end right before the last colon;
otherwise the host has no colon, and no bracket may occur anywhere else. -/
def splitHostPort (hostport : String) : Option (String × String) :=
  match splitLast ':' hostport.toList with
  | none => none
  | some (before, port) =>
    if hostport.toList.head? = some '[' then
      match hostport.toList.idxOf? ']' with
      | none => none
      | some last =>
        if last + 1 = before.length then
          if '[' ∈ hostport.toList.drop 1 ∨ ']' ∈ hostport.toList.drop (last + 1) then none
          else some (String.ofList ((hostport.toList.take last).drop 1), String.ofList port)
        else none
    else if ':' ∈ before ∨ '[' ∈ hostport.toList ∨ ']' ∈ hostport.toList then none
    else some (String.ofList before, String.ofList port)

/-- `net.JoinHostPort`: a host with a colon is written in brackets. -/
def joinHostPort (host port : String) : String :=
  if ':' ∈ host.toList then "[" ++ host ++ "]:" ++ port else host ++ ":" ++ port

example : splitHostPort "[::1]:80" = some ("::1", "80") := by decide
example : splitHostPort "a:b:80" = none := by decide

variable {host host' port hostport : String} {c : Char} {l after : List Char}

theorem joinHostPort_inj (h : joinHostPort host port = joinHostPort host' port) : host = host' := by
  have plain : ∀ a b : String, ':' ∈ a.toList → ':' ∉ b.toList →
      "[" ++ a ++ "]:" ++ port ≠ b ++ ":" ++ port := by
    intro a b ha hb heq
    have hl := congrArg String.toList heq
    simp only [String.toList_append, List.append_cancel_right_eq] at hl
    -- The bracketed host would be `b` itself, which has no colon.
    have hb' : b.toList = "[".toList ++ a.toList ++ [']'] := by
      have hsplit : "[".toList ++ a.toList ++ "]:".toList =
          ("[".toList ++ a.toList ++ [']']) ++ ":".toList := by simp
      rw [hsplit, List.append_cancel_right_eq] at hl
      exact hl.symm
    exact hb (by rw [hb']; simp [ha])
  unfold joinHostPort at h
  split at h <;> split at h
  · rw [← String.toList_inj] at h ⊢
    simpa using h
  · exact absurd h (plain _ _ ‹_› ‹_›)
  · exact absurd h.symm (plain _ _ ‹_› ‹_›)
  · rw [← String.toList_inj] at h ⊢
    simpa using h

theorem splitLast_eq_none_iff : splitLast c l = none ↔ c ∉ l := by
  induction l with
  | nil => simp [splitLast]
  | cons x xs ih =>
    rw [splitLast]
    cases hrest : splitLast c xs with
    | some halves =>
      have hmem : c ∈ xs := by
        by_contra hno
        rw [ih.mpr hno] at hrest
        cases hrest
      simp [hmem]
    | none => simp [ih.mp hrest, eq_comm]

theorem splitLast_append (h : c ∉ after) (before : List Char) :
    splitLast c (before ++ c :: after) = some (before, after) := by
  induction before with
  | nil => simp [splitLast, splitLast_eq_none_iff.mpr h]
  | cons x before ih => simp [splitLast, ih]

theorem eq_append_of_splitLast {before : List Char} (h : splitLast c l = some (before, after)) :
    l = before ++ c :: after ∧ c ∉ after := by
  induction l generalizing before with
  | nil => simp [splitLast] at h
  | cons x xs ih =>
    rw [splitLast] at h
    cases hrest : splitLast c xs with
    | some halves =>
      obtain ⟨before', after'⟩ := halves
      simp only [hrest, Option.some.injEq, Prod.mk.injEq] at h
      obtain ⟨rfl, rfl⟩ := h
      obtain ⟨hxs, hno⟩ := ih hrest
      exact ⟨by rw [hxs]; rfl, hno⟩
    | none =>
      simp only [hrest] at h
      split at h
      · next hx =>
        cases h
        exact ⟨by rw [hx]; rfl, splitLast_eq_none_iff.mp hrest⟩
      · cases h

theorem splitLast_of_splitHostPort (h : splitHostPort hostport = some (host, port)) :
    ∃ before, splitLast ':' hostport.toList = some (before, port.toList) := by
  rw [splitHostPort] at h
  cases hlast : splitLast ':' hostport.toList with
  | none => simp [hlast] at h
  | some halves =>
    obtain ⟨before, after⟩ := halves
    have hport : String.ofList after = port := by
      simp only [hlast] at h
      grind
    exact ⟨before, by rw [← hport, String.toList_ofList]⟩

theorem port_of_splitHostPort_join {client port' : String}
    (h : splitHostPort hostport = some (host, port))
    (h' : splitHostPort (joinHostPort client port) = some (host', port')) : port' = port := by
  obtain ⟨before, hlast⟩ := splitLast_of_splitHostPort h
  obtain ⟨before', hlast'⟩ := splitLast_of_splitHostPort h'
  obtain ⟨-, hno⟩ := eq_append_of_splitLast hlast
  have hjoin : ∃ front, (joinHostPort client port).toList = front ++ ':' :: port.toList := by
    rw [joinHostPort]
    split
    · exact ⟨'[' :: client.toList ++ [']'], by simp⟩
    · exact ⟨client.toList, by simp⟩
  obtain ⟨front, hjoin⟩ := hjoin
  rw [hjoin, splitLast_append hno, Option.some.injEq, Prod.mk.injEq] at hlast'
  exact String.toList_inj.mp hlast'.2.symm

end Go.Net
