import Mathlib.Data.Set.Basic
import Torii.Metrics.Names

/-!
# The tree of metric names

The names of `BuildConnectionName` are meant to form a tree. `deriveParentMetricName` finds the
parent by the first `-path-` in the name, and a name is written without quoting, so a host that
spells the marker itself, together with the hyphens around it, breaks the tree.
-/

namespace Torii.Metrics

open Go Strings Strconv

def marker (word : List Char) : List Char := '-' :: (word ++ ['-'])

variable {word a : List Char}

theorem marker_of_append_hyphen {rest : List Char} (hword : '-' ∉ word) (ha : a ≠ [])
    (h : marker word <+: a ++ '-' :: rest) : marker word <+: a ++ ['-'] := by
  have hother : a ++ ['-'] <+: a ++ '-' :: rest := ⟨rest, by simp⟩
  obtain hshort | ⟨t, ht⟩ := List.prefix_or_prefix_of_prefix h hother
  · exact hshort
  · -- the hyphen after `a` is one of the marker, and not the first one
    obtain ⟨c, a, rfl⟩ := List.exists_cons_of_ne_nil ha
    simp only [marker, List.cons_append, List.append_assoc, List.cons.injEq] at ht
    obtain ⟨rfl, ht⟩ := ht
    have hnil : t = [] := by
      obtain ⟨x, rfl, hx⟩ | ⟨x, -, hx⟩ := List.append_eq_append_iff.mp ht
      · cases x with
        | nil => simpa using hx
        | cons =>
          obtain ⟨rfl, -⟩ := List.cons.inj hx
          simp at hword
      · cases x with
        | nil => simpa using hx.symm
        | cons => simp at hx
    subst hnil
    refine ⟨[], ?_⟩
    simp only [marker, List.append_nil, List.cons_append, List.cons.injEq, true_and]
    simpa using ht.symm

theorem indexList_marker (hword : '-' ∉ word) (h : ¬ marker word <:+: a ++ ['-'])
    (rest : List Char) :
    Strings.indexList (marker word) (a ++ marker word ++ rest) = some a.length := by
  induction a with
  | nil =>
    have hpre : (marker word).isPrefixOf (marker word ++ rest) = true := by
      rw [List.isPrefixOf_iff_prefix]
      exact List.prefix_append _ _
    rw [List.nil_append, marker, List.cons_append, indexList, if_pos]
    · rfl
    · exact hpre
  | cons c a ih =>
    have hnot : (marker word).isPrefixOf (c :: (a ++ marker word ++ rest)) = false := by
      rw [Bool.eq_false_iff, ne_eq, List.isPrefixOf_iff_prefix]
      intro hpre
      have htext : c :: (a ++ marker word ++ rest) =
          (c :: a) ++ '-' :: (word ++ ['-'] ++ rest) := by simp [marker]
      rw [htext] at hpre
      exact h (marker_of_append_hyphen hword (List.cons_ne_nil c a) hpre).isInfix
    have hrest : ¬ marker word <:+: a ++ ['-'] := fun hin => h (List.infix_cons hin)
    rw [List.cons_append, List.cons_append, indexList_cons_of_not hnot, ih hrest]
    rfl

/-! ### The parts of a name -/

def portPart (port : Int) : List Char := "metric-port-".toList ++ (itoa port).toList

def hostPart (host : String) : List Char :=
  if host = "" then [] else "-host-".toList ++ host.toList

def pathPart (path : String) : List Char :=
  if path = "" then [] else "-path-".toList ++ path.toList

theorem toList_buildConnectionName (port : Int) (host path : String) :
    (buildConnectionName "metric" (itoa port) host path).toList =
      portPart port ++ (hostPart host ++ pathPart path) := by
  unfold buildConnectionName hostPart pathPart portPart
  by_cases hhost : host = ""
  · by_cases hpath : path = ""
    · simp [hhost, hpath]
    · simp [hhost, hpath]
  · by_cases hpath : path = ""
    · simp [hhost, hpath]
    · simp [hhost, hpath]

section

variable {port : Int} {name : String} {rest : List Char}
  (hname : name.toList = portPart port ++ rest)

include hname

theorem index_path : index name "-path-" =
      (Strings.indexList "-path-".toList rest).map (· + (portPart port).length) := by
  rw [index, hname]
  exact indexList_family (by decide) (by decide) (fun _ => rfl) port rest

theorem index_host : index name "-host-" =
      (Strings.indexList "-host-".toList rest).map (· + (portPart port).length) := by
  rw [index, hname]
  exact indexList_family (by decide) (by decide) (fun _ => rfl) port rest

theorem toList_take_add (i : Nat) :
    (Strings.take name (i + (portPart port).length)).toList = portPart port ++ rest.take i := by
  rw [take, String.toList_ofList, hname, Nat.add_comm, List.take_length_add_append]

theorem toList_deriveParent_of_path {i : Nat} (hi : indexList "-path-".toList rest = some i) :
    (deriveParentMetricName name).toList = portPart port ++ rest.take i := by
  simp only [deriveParentMetricName, index_path hname, hi, Option.map_some]
  exact toList_take_add hname i

theorem toList_deriveParent_of_host (hnone : indexList "-path-".toList rest = none) {i : Nat}
    (hi : indexList "-host-".toList rest = some i) :
    (deriveParentMetricName name).toList = portPart port ++ rest.take i := by
  simp only [deriveParentMetricName, index_path hname, index_host hname, hnone, hi,
    Option.map_none, Option.map_some]
  exact toList_take_add hname i

end

/-! ### Hosts that do not spell the marker -/

/-- The host, between the hyphens around it, holds the path marker. -/
def SpellsMarker (host : String) : Prop := Strings.contains ("-" ++ host ++ "-") "-path-" = true

instance (host : String) : Decidable (SpellsMarker host) :=
  inferInstanceAs (Decidable (_ = true))

theorem marker_path : marker "path".toList = "-path-".toList := by decide

theorem spellsMarker_iff (host : String) :
    SpellsMarker host ↔ "-path-".toList <:+: '-' :: host.toList ++ ['-'] := by
  have hnone := indexList_eq_none_iff (s := '-' :: host.toList ++ ['-'])
    (show "-path-".toList ≠ [] by decide)
  rw [SpellsMarker, contains, index, ← not_iff_not, ← hnone]
  simp

/-- The path marker does not start inside the host marker. -/
theorem indexList_hostPart (rest : List Char) :
    Strings.indexList "-path-".toList ("-host-".toList ++ rest) =
      (Strings.indexList "-path-".toList ('-' :: rest)).map (· + 5) := by
  have hsplit : "-host-".toList ++ rest = '-' :: (['h', 'o', 's', 't'] ++ '-' :: rest) := by simp
  have hfirst : indexList "-path-".toList ('-' :: (['h', 'o', 's', 't'] ++ '-' :: rest)) =
      (indexList "-path-".toList (['h', 'o', 's', 't'] ++ '-' :: rest)).map (· + 1) :=
    indexList_cons_of_not rfl
  have hword : indexList "-path-".toList (['h', 'o', 's', 't'] ++ '-' :: rest) =
      (indexList "-path-".toList ('-' :: rest)).map (· + 4) :=
    indexList_append_of_notMem (by decide)
  rw [hsplit, hfirst, hword, Option.map_map]
  rfl

section

variable {host : String} {path : String}

theorem indexList_path_of_not_spells (hne : host ≠ "") (h : ¬ SpellsMarker host)
    (hpath : path ≠ "") :
    Strings.indexList "-path-".toList (hostPart host ++ pathPart path) =
      some (hostPart host).length := by
  rw [spellsMarker_iff, ← marker_path] at h
  have hindex := indexList_marker (by decide) h path.toList
  rw [marker_path, List.append_assoc, List.cons_append] at hindex
  rw [hostPart, pathPart, if_neg hne, if_neg hpath, List.append_assoc, indexList_hostPart, hindex]
  simp

theorem indexList_host_of_not_spells (hne : host ≠ "") (h : ¬ SpellsMarker host) :
    Strings.indexList "-path-".toList (hostPart host) = none := by
  rw [spellsMarker_iff] at h
  rw [hostPart, if_neg hne, indexList_hostPart, Option.map_eq_none_iff,
    indexList_eq_none_iff (by decide)]
  exact fun hin => h (hin.trans ⟨[], ['-'], by simp⟩)

theorem indexList_path_of_spells (hne : host ≠ "") (h : SpellsMarker host) (hpath : path ≠ "") :
    ∃ i < (hostPart host).length,
      Strings.indexList "-path-".toList (hostPart host ++ pathPart path) = some i := by
  obtain ⟨x, y, hxy⟩ := (spellsMarker_iff host).mp h
  have hlen := congrArg List.length hxy
  have htext : x ++ "-path-".toList ++ (y ++ ("path-".toList ++ path.toList)) =
      '-' :: (host.toList ++ ("-path-".toList ++ path.toList)) := by
    calc x ++ "-path-".toList ++ (y ++ ("path-".toList ++ path.toList))
        = x ++ "-path-".toList ++ y ++ ("path-".toList ++ path.toList) := by
          rw [List.append_assoc _ y]
      _ = '-' :: host.toList ++ ['-'] ++ ("path-".toList ++ path.toList) := by rw [hxy]
      _ = '-' :: (host.toList ++ ("-path-".toList ++ path.toList)) := by simp
  obtain ⟨i, hi, hindex⟩ :
      ∃ i ≤ x.length, indexList "-path-".toList
        (x ++ "-path-".toList ++ (y ++ ("path-".toList ++ path.toList))) = some i :=
    indexList_le
  rw [htext] at hindex
  refine ⟨i + 5, ?_, ?_⟩
  · rw [hostPart, if_neg hne]
    simp at hlen ⊢
    omega
  · rw [hostPart, pathPart, if_neg hne, if_neg hpath, List.append_assoc, indexList_hostPart, hindex]
    rfl

end

/-! ### When the names form a tree -/

/-- The names over some hosts form a tree that `deriveParentMetricName` climbs. -/
structure Faithful (hosts : Set String) : Prop where
  /-- Different nodes have different names. -/
  injective : ∀ {port port' host host' path path'}, host ∈ hosts → host' ∈ hosts →
    buildConnectionName "metric" (itoa port) host path =
      buildConnectionName "metric" (itoa port') host' path' →
    port = port' ∧ host = host' ∧ path = path'
  /-- The parent of a path is its host, or its port if there is no host. -/
  path : ∀ {port host path}, host ∈ hosts ∨ host = "" → path ≠ "" →
    deriveParentMetricName (buildConnectionName "metric" (itoa port) host path) =
      buildConnectionName "metric" (itoa port) host ""
  /-- The parent of a host is its port. -/
  host : ∀ {port host}, host ∈ hosts →
    deriveParentMetricName (buildConnectionName "metric" (itoa port) host "") =
      buildConnectionName "metric" (itoa port) "" ""
  /-- The parent of a port is the global node. -/
  port : ∀ port, deriveParentMetricName (buildConnectionName "metric" (itoa port) "" "") = "global"

variable {host host' path path' : String}

theorem hostPart_inj (hne : host ≠ "") (hne' : host' ≠ "") (h : hostPart host = hostPart host') :
    host = host' := by
  rw [hostPart, hostPart, if_neg hne, if_neg hne', List.append_cancel_left_eq] at h
  exact String.toList_inj.mp h

theorem pathPart_inj (h : pathPart path = pathPart path') : path = path' := by
  unfold pathPart at h
  split at h <;> split at h
  · next hpath hpath' => rw [hpath, hpath']
  · simp at h
  · simp at h
  · rw [List.append_cancel_left_eq] at h
    exact String.toList_inj.mp h

theorem parts_inj (hne : host ≠ "") (hne' : host' ≠ "") (h : ¬ SpellsMarker host)
    (h' : ¬ SpellsMarker host')
    (heq : hostPart host ++ pathPart path = hostPart host' ++ pathPart path') :
    host = host' ∧ path = path' := by
  have hindex := congrArg (indexList "-path-".toList) heq
  by_cases hpath : path = "" <;> by_cases hpath' : path' = ""
  · have hparts : hostPart host = hostPart host' := by simpa [pathPart, hpath, hpath'] using heq
    exact ⟨hostPart_inj hne hne' hparts, hpath.trans hpath'.symm⟩
  · rw [indexList_path_of_not_spells hne' h' hpath', hpath, pathPart, if_pos rfl, List.append_nil,
      indexList_host_of_not_spells hne h] at hindex
    cases hindex
  · rw [indexList_path_of_not_spells hne h hpath, hpath', pathPart, if_pos rfl, List.append_nil,
      indexList_host_of_not_spells hne' h'] at hindex
    cases hindex
  · rw [indexList_path_of_not_spells hne h hpath, indexList_path_of_not_spells hne' h' hpath',
      Option.some.injEq] at hindex
    obtain ⟨hhost, hpaths⟩ := List.append_inj heq hindex
    exact ⟨hostPart_inj hne hne' hhost, pathPart_inj hpaths⟩

section

variable (port : Int) {host path : String}

theorem deriveParent_path (hne : host ≠ "") (h : ¬ SpellsMarker host) (hpath : path ≠ "") :
    deriveParentMetricName (buildConnectionName "metric" (itoa port) host path) =
      buildConnectionName "metric" (itoa port) host "" := by
  apply String.toList_inj.mp
  rw [toList_deriveParent_of_path (toList_buildConnectionName port host path)
    (indexList_path_of_not_spells hne h hpath), toList_buildConnectionName, List.take_left]
  simp [pathPart]

theorem deriveParent_path_of_port (hpath : path ≠ "") :
    deriveParentMetricName (buildConnectionName "metric" (itoa port) "" path) =
      buildConnectionName "metric" (itoa port) "" "" := by
  have hindex : indexList "-path-".toList (hostPart "" ++ pathPart path) = some 0 := by
    rw [hostPart, pathPart, if_pos rfl, if_neg hpath]
    exact indexList_append_self _ _
  apply String.toList_inj.mp
  rw [toList_deriveParent_of_path (toList_buildConnectionName port "" path) hindex,
    toList_buildConnectionName, List.take_zero]
  simp only [hostPart, pathPart, if_true, List.append_nil]

theorem deriveParent_host (hne : host ≠ "") (h : ¬ SpellsMarker host) :
    deriveParentMetricName (buildConnectionName "metric" (itoa port) host "") =
      buildConnectionName "metric" (itoa port) "" "" := by
  have hnone : indexList "-path-".toList (hostPart host ++ pathPart "") = none := by
    rw [pathPart, if_pos rfl, List.append_nil]
    exact indexList_host_of_not_spells hne h
  have hindex : indexList "-host-".toList (hostPart host ++ pathPart "") = some 0 := by
    rw [hostPart, if_neg hne, List.append_assoc]
    exact indexList_append_self _ _
  apply String.toList_inj.mp
  rw [toList_deriveParent_of_host (toList_buildConnectionName port host "") hnone hindex,
    toList_buildConnectionName, List.take_zero]
  simp only [hostPart, pathPart, if_true, List.append_nil]

theorem deriveParent_port :
    deriveParentMetricName (buildConnectionName "metric" (itoa port) "" "") = "global" := by
  have hname := toList_buildConnectionName port "" ""
  have hne := family_ne_global (family_buildConnectionName port "" "")
  simp only [deriveParentMetricName, index_path hname, index_host hname, if_neg hne]
  rfl

theorem deriveParent_path_of_spells (hne : host ≠ "") (h : SpellsMarker host) (hpath : path ≠ "") :
    deriveParentMetricName (buildConnectionName "metric" (itoa port) host path) ≠
      buildConnectionName "metric" (itoa port) host "" := by
  intro heq
  obtain ⟨i, hi, hindex⟩ := indexList_path_of_spells hne h hpath
  have hlist := congrArg String.toList heq
  rw [toList_deriveParent_of_path (toList_buildConnectionName port host path) hindex,
    toList_buildConnectionName, List.append_cancel_left_eq] at hlist
  have hlen := congrArg List.length hlist
  simp only [List.length_take, List.length_append] at hlen
  omega

end

/-- The names over a set of hosts form a tree exactly when no host spells the marker of a path,
counting the hyphens around the host. -/
theorem faithful_iff (hosts : Set String) (hne : ∀ host ∈ hosts, host ≠ "") :
    Faithful hosts ↔
      ∀ host ∈ hosts, Strings.contains ("-" ++ host ++ "-") "-path-" = false := by
  constructor
  · intro hfaithful host hhost
    rw [← Bool.not_eq_true]
    intro hspells
    exact deriveParent_path_of_spells 80 (hne host hhost) hspells (by decide : "/" ≠ "")
      (hfaithful.path (.inl hhost) (by decide))
  · intro hgood
    have hnot : ∀ host ∈ hosts, ¬ SpellsMarker host := fun host hhost =>
      Bool.eq_false_iff.mp (hgood host hhost)
    constructor
    · intro port port' host host' path path' hhost hhost' heq
      obtain rfl : port = port' := (family_buildConnectionName port host path).port_eq
        (heq ▸ family_buildConnectionName port' host' path')
      have hlist := congrArg String.toList heq
      rw [toList_buildConnectionName, toList_buildConnectionName,
        List.append_cancel_left_eq] at hlist
      exact ⟨rfl, parts_inj (hne _ hhost) (hne _ hhost') (hnot _ hhost) (hnot _ hhost') hlist⟩
    · rintro port host path (hhost | rfl) hpath
      · exact deriveParent_path port (hne host hhost) (hnot host hhost) hpath
      · exact deriveParent_path_of_port port hpath
    · intro port host hhost
      exact deriveParent_host port (hne host hhost) (hnot host hhost)
    · exact deriveParent_port

theorem faithful_example_hosts : Faithful {"example.com", "api.example.com"} := by
  refine (faithful_iff _ ?_).mpr ?_
  · rintro host (rfl | rfl) <;> decide
  · rintro host (rfl | rfl) <;> decide

/-- A host whose first label starts like the marker is put below a node that does not exist. -/
theorem deriveParent_path_finder :
    deriveParentMetricName (buildConnectionName "metric" (itoa 80) "path-finder.com" "") =
        "metric-port-80-host" ∧
      buildConnectionName "metric" (itoa 80) "" "" = "metric-port-80" ∧
      buildConnectionName "metric" (itoa 80) "a-path-b" "" =
        buildConnectionName "metric" (itoa 80) "a" "b" := by
  decide

end Torii.Metrics
