import Torii.Go.Strconv
import Torii.Go.Strings

/-!
# Names of metric nodes

`BuildConnectionName` of `internal/requestctx/build_context.go` and `deriveParentMetricName` of
`metrics/connection.go`. A name is the port, then a host, then a path; the parent is found by
searching for the markers `-path-` and `-host-`. A parent is in the same `Family port` or is the
global node, also when a host or a path contains a marker itself.
-/

namespace Torii.Metrics

open Go Strings Strconv

def buildConnectionName (namePrefix port host path : String) : String :=
  let base := namePrefix ++ "-port-" ++ port
  let base := if host ≠ "" then base ++ "-host-" ++ host else base
  if path ≠ "" then base ++ "-path-" ++ path else base

def globalMetricsConName : String := "global"

def deriveParentMetricName (connectionName : String) : String :=
  match Strings.index connectionName "-path-" with
  | some idx => Strings.take connectionName idx
  | none =>
    match Strings.index connectionName "-host-" with
    | some idx => Strings.take connectionName idx
    | none => if connectionName = globalMetricsConName then "" else globalMetricsConName

/-- The names of one port: its text, followed by nothing or by a hyphen. -/
def Family (port : Int) (name : String) : Prop :=
  ∃ rest, name.toList = "metric-port-".toList ++ (itoa port).toList ++ rest ∧
    ∀ c ∈ rest.head?, c = '-'

/-- The sign and the digits at the start of a list. -/
def portText : List Char → List Char
  | '-' :: l => '-' :: l.takeWhile Char.isDigit
  | l => l.takeWhile Char.isDigit

theorem notMem_toDigits (n : Nat) : '-' ∉ Nat.toDigits 10 n :=
  fun h => absurd (Nat.isDigit_of_mem_toDigits (by decide) (by decide) h) (by decide)

theorem takeWhile_digits {n : Nat} {rest : List Char} (hrest : ∀ c ∈ rest.head?, c = '-') :
    (Nat.toDigits 10 n ++ rest).takeWhile Char.isDigit = Nat.toDigits 10 n := by
  rw [List.takeWhile_append_of_pos fun c hc =>
    Nat.isDigit_of_mem_toDigits (by decide) (by decide) hc]
  cases rest with
  | nil => simp
  | cons c rest =>
    obtain rfl : c = '-' := hrest c rfl
    simp [show Char.isDigit '-' = false by decide]

theorem portText_append (port : Int) {rest : List Char} (hrest : ∀ c ∈ rest.head?, c = '-') :
    portText ((itoa port).toList ++ rest) = (itoa port).toList := by
  rw [toList_itoa]
  split
  · obtain ⟨d, ds, hds⟩ :=
      List.exists_cons_of_ne_nil (Nat.toDigits_ne_nil (n := port.toNat) (b := 10))
    have hd : d ≠ '-' := by
      rintro rfl
      exact notMem_toDigits port.toNat (by rw [hds]; exact List.mem_cons_self)
    have htake := takeWhile_digits (n := port.toNat) hrest
    rw [hds, List.cons_append] at htake ⊢
    rw [portText, htake]
    rintro _ ⟨⟩
    exact hd rfl
  · rw [List.cons_append, portText, takeWhile_digits hrest]

variable {name : String} {sub : List Char} {port : Int} {m : Char}

theorem Family.port_eq {p q : Int} (hp : Family p name) (hq : Family q name) : p = q := by
  obtain ⟨rest, hname, hrest⟩ := hp
  obtain ⟨rest', hname', hrest'⟩ := hq
  rw [hname, List.append_assoc, List.append_assoc, List.append_cancel_left_eq] at hname'
  apply itoa_inj
  rw [← String.toList_inj, ← portText_append p hrest, hname', portText_append q hrest']

theorem indexList_port (hdigit : m.isDigit = false) (hm : m ≠ '-') (port : Int) (rest : List Char) :
    Strings.indexList ('-' :: m :: sub) ('-' :: ((itoa port).toList ++ rest)) =
      (Strings.indexList ('-' :: m :: sub) rest).map (· + ((itoa port).toList.length + 1)) := by
  have hskip : ∀ n : Nat, indexList ('-' :: m :: sub) ('-' :: (Nat.toDigits 10 n ++ rest)) =
      (indexList ('-' :: m :: sub) rest).map (· + ((Nat.toDigits 10 n).length + 1)) := by
    intro n
    obtain ⟨d, ds, hds⟩ := List.exists_cons_of_ne_nil (Nat.toDigits_ne_nil (n := n) (b := 10))
    have hd : m ≠ d := by
      rintro rfl
      have hmem : m ∈ Nat.toDigits 10 n := by rw [hds]; exact List.mem_cons_self
      have := Nat.isDigit_of_mem_toDigits (by decide) (by decide) hmem
      rw [hdigit] at this
      cases this
    have hnot := notMem_toDigits n
    rw [indexList_cons_of_not, indexList_append_of_notMem hnot, Option.map_map]
    · congr 1
    · rw [hds]
      simp [List.isPrefixOf, hd]
  rw [toList_itoa]
  split
  · exact hskip _
  · rw [List.cons_append, indexList_cons_of_not (by simp [List.isPrefixOf, hm]), hskip,
      Option.map_map]
    congr 1

theorem indexList_family (hdigit : m.isDigit = false) (hm : m ≠ '-')
    (hport : ∀ cs, ('-' :: m :: sub).isPrefixOf ('-' :: 'p' :: 'o' :: cs) = false) (port : Int)
    (rest : List Char) :
    Strings.indexList ('-' :: m :: sub) ("metric-port-".toList ++ (itoa port).toList ++ rest) =
      (Strings.indexList ('-' :: m :: sub) rest).map
        (· + ("metric-port-".toList ++ (itoa port).toList).length) := by
  have hsplit : "metric-port-".toList ++ (itoa port).toList ++ rest =
      "metric".toList ++
        '-' :: (['p', 'o', 'r', 't'] ++ ('-' :: ((itoa port).toList ++ rest))) := by
    simp
  have hmiddle : indexList ('-' :: m :: sub)
      ('-' :: (['p', 'o', 'r', 't'] ++ ('-' :: ((itoa port).toList ++ rest)))) = _ :=
    indexList_cons_of_not (hport _)
  rw [hsplit, indexList_append_of_notMem (by decide), hmiddle,
    indexList_append_of_notMem (by decide), indexList_port hdigit hm, Option.map_map,
    Option.map_map, Option.map_map]
  congr 1

theorem Family.take (hdigit : m.isDigit = false) (hm : m ≠ '-')
    (hport : ∀ cs, ('-' :: m :: sub).isPrefixOf ('-' :: 'p' :: 'o' :: cs) = false)
    (h : Family port name) {idx : Nat}
    (hidx : Strings.indexList ('-' :: m :: sub) name.toList = some idx) :
    Family port (Strings.take name idx) := by
  obtain ⟨rest, hname, hrest⟩ := h
  rw [hname, indexList_family hdigit hm hport] at hidx
  obtain ⟨k, -, rfl⟩ := Option.map_eq_some_iff.mp hidx
  refine ⟨rest.take k, ?_, ?_⟩
  · rw [Strings.take, String.toList_ofList, hname, List.take_append,
      List.take_of_length_le (by omega)]
    congr 2
    omega
  · intro c hc
    cases k with
    | zero => simp at hc
    | succ k =>
      cases rest with
      | nil => simp at hc
      | cons => exact hrest c (by simpa using hc)

theorem Family.deriveParentMetricName (h : Family port name) :
    Family port (deriveParentMetricName name) ∨
      Metrics.deriveParentMetricName name = globalMetricsConName := by
  unfold Metrics.deriveParentMetricName
  split
  · next idx hidx => exact .inl (h.take (by decide) (by decide) (fun _ => rfl) hidx)
  · split
    · next idx hidx => exact .inl (h.take (by decide) (by decide) (fun _ => rfl) hidx)
    · split
      · next hglobal =>
        obtain ⟨rest, hname, -⟩ := h
        rw [hglobal] at hname
        simp [globalMetricsConName] at hname
      · exact .inr rfl

theorem family_ne_global (h : Family port name) : name ≠ globalMetricsConName := by
  rintro rfl
  obtain ⟨rest, hname, -⟩ := h
  simp [globalMetricsConName] at hname

theorem family_ne_empty (h : Family port name) : name ≠ "" := by
  rintro rfl
  obtain ⟨rest, hname, -⟩ := h
  simp at hname

theorem family_buildConnectionName (port : Int) (host path : String) :
    Family port (buildConnectionName "metric" (itoa port) host path) := by
  unfold buildConnectionName
  by_cases hhost : host = ""
  · by_cases hpath : path = ""
    · exact ⟨[], by simp [hhost, hpath], by simp⟩
    · exact ⟨"-path-".toList ++ path.toList, by simp [hhost, hpath], by simp⟩
  · by_cases hpath : path = ""
    · exact ⟨"-host-".toList ++ host.toList, by simp [hhost, hpath], by simp⟩
    · exact ⟨"-host-".toList ++ host.toList ++ "-path-".toList ++ path.toList,
        by simp [hhost, hpath], by simp⟩

end Torii.Metrics
