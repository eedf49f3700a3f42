import Torii.Go.Map
import Torii.Go.Net
import Torii.Lib.Wildcard

/-!
# The host trie of the virtual-host dispatcher

`proxy/host_trie_tree.go` stores one handler per host pattern in a trie keyed by the labels of the
host, rightmost label first. `insert` and `Contains` are the two loops of the source, by recursion
on the tokens that remain; a nil `http.Handler` is `none`. The lookup is the greedy walk on the
table of patterns. The lock is not modelled: calls do not overlap.
-/

namespace Torii.Proxy

open Go Go.Strings

/-- `*trieNode`: a child per label, and the handler of the pattern that ends here. -/
inductive TrieNode (H : Type*) where
  | mk (children : List (String × TrieNode H)) (handler : Option H)

namespace TrieNode

variable {H : Type*}

def children : TrieNode H → List (String × TrieNode H)
  | .mk children _ => children

def handler : TrieNode H → Option H
  | .mk _ handler => handler

def empty : TrieNode H := .mk [] none

/-- The loop of `insert`: create the missing nodes along the tokens, then overwrite
the handler of the last one. -/
def insert : TrieNode H → List String → Option H → TrieNode H
  | .mk children _, [], handler => .mk children handler
  | .mk children old, part :: rest, handler =>
    let node := (children.lookup part).getD empty
    .mk (assign part (node.insert rest handler) children) old

/-- The child taken by `Contains` for one token: the exact label, else `"*"`. -/
def next (node : TrieNode H) (token : String) : Option (TrieNode H) :=
  match node.children.lookup token with
  | some child => some child
  | none => node.children.lookup "*"

/-- The loop of `Contains`. There is no way back to an earlier node. -/
def contains : TrieNode H → List String → Option H
  | _, [] => none
  | node, token :: rest =>
    match node.next token with
    | none => none
    | some child => if rest = [] then child.handler else child.contains rest

/-- The node at the end of a path of exact labels. -/
def at? : TrieNode H → List String → Option (TrieNode H)
  | node, [] => some node
  | node, label :: rest => (node.children.lookup label).bind (·.at? rest)

def handlerAt (node : TrieNode H) (path : List String) : Option H :=
  (node.at? path).bind handler

variable (children : List (String × TrieNode H)) (handler : Option H)

@[simp] theorem children_mk :
    (TrieNode.mk children handler).children = children := rfl

@[simp] theorem handler_mk :
    (TrieNode.mk children handler).handler = handler := rfl

variable (node : TrieNode H) {patterns : List (List String)} (label : String) (rest : List String)

@[simp] theorem at?_nil : node.at? [] = some node := by
  cases node
  rfl

@[simp] theorem at?_empty_cons : (empty : TrieNode H).at? (label :: rest) = none := rfl

theorem at?_cons : node.at? (label :: rest) = (node.children.lookup label).bind (·.at? rest) := by
  cases node
  rfl

theorem handlerAt_cons :
    node.handlerAt (label :: rest) = (node.children.lookup label).bind (·.handlerAt rest) := by
  rw [handlerAt, at?_cons, Option.bind_assoc]
  rfl

theorem insert_cons (part : String) (rest : List String) (x : Option H) :
    node.insert (part :: rest) x =
      .mk (assign part (((node.children.lookup part).getD empty).insert rest x) node.children)
        node.handler := by
  cases node
  rfl

theorem isSome_at?_insert (path probe : List String) (x : Option H) :
    ((node.insert path x).at? probe).isSome ↔ (node.at? probe).isSome ∨ probe <+: path := by
  induction path generalizing node probe with
  | nil =>
    cases node
    cases probe <;> simp [insert, at?_cons]
  | cons part rest ih =>
    cases probe with
    | nil => simp
    | cons label probe =>
      rw [insert_cons, at?_cons, at?_cons, children_mk, lookup_assign, List.cons_prefix_cons]
      by_cases hlabel : label = part
      · subst hlabel
        simp only [if_true, Option.bind_some, ih, true_and]
        cases node.children.lookup label with
        | some child => simp
        | none => cases probe <;> simp
      · simp [hlabel]

theorem handlerAt_insert (path probe : List String) (x : Option H) :
    (node.insert path x).handlerAt probe = if probe = path then x else node.handlerAt probe := by
  induction path generalizing node probe with
  | nil =>
    cases node
    cases probe <;> simp [insert, handlerAt, at?_cons]
  | cons part rest ih =>
    cases probe with
    | nil => simp [insert_cons, handlerAt]
    | cons label probe =>
      rw [insert_cons, handlerAt_cons, handlerAt_cons, children_mk, lookup_assign]
      by_cases hlabel : label = part
      · subst hlabel
        simp only [if_true, Option.bind_some, ih, List.cons.injEq, true_and]
        cases node.children.lookup label with
        | some child => simp
        | none => cases probe <;> simp [handlerAt, at?_cons, empty]
      · simp [hlabel]

def HasPaths (node : TrieNode H) (patterns : List (List String)) : Prop :=
  ∀ probe, (node.at? probe).isSome ↔ probe = [] ∨ ∃ p ∈ patterns, probe <+: p

theorem HasPaths.child {node child : TrieNode H} {label : String}
    (h : node.HasPaths patterns) (hchild : node.children.lookup label = some child) :
    child.HasPaths (Wildcard.tails patterns label) := by
  intro probe
  have hpath := h (label :: probe)
  rw [at?_cons, hchild, Option.bind_some] at hpath
  rw [hpath]
  constructor
  · rintro (hnil | ⟨p, hp, tail, rfl⟩)
    · cases hnil
    · exact Or.inr ⟨probe ++ tail, Wildcard.mem_tails.mpr hp, List.prefix_append _ _⟩
  · rintro (rfl | ⟨p, hp, hprobe⟩)
    · have hself := h [label]
      rw [at?_cons, hchild, Option.bind_some, at?_nil] at hself
      exact hself.mp rfl
    · exact Or.inr ⟨label :: p, Wildcard.mem_tails.mp hp, by simpa using hprobe⟩

theorem HasPaths.lookup_eq_none_iff {node : TrieNode H}
    (h : node.HasPaths patterns) (label : String) :
    node.children.lookup label = none ↔ Wildcard.tails patterns label = [] := by
  have hpath := h [label]
  rw [at?_cons] at hpath
  rw [Wildcard.tails_eq_nil_iff]
  constructor
  · intro hnone p hp
    rw [hnone] at hpath
    simpa using hpath.mpr (Or.inr ⟨label :: p, hp, by simp⟩)
  · intro hnone
    cases hchild : node.children.lookup label with
    | none => rfl
    | some child =>
      rw [hchild] at hpath
      rcases hpath.mp (by simp) with hnil | ⟨p, hp, tail, rfl⟩
      · cases hnil
      · exact absurd hp (hnone tail)

theorem contains_eq_handlerAt_greedy {node : TrieNode H}
    (h : node.HasPaths patterns) {tokens : List String} (hne : tokens ≠ []) :
    node.contains tokens = node.handlerAt (Wildcard.greedy "*" patterns tokens) := by
  induction tokens generalizing node patterns with
  | nil => exact absurd rfl hne
  | cons token rest ih =>
    -- Below the child that was taken, either the walk ends or the hypothesis applies.
    have below : ∀ label child, node.children.lookup label = some child →
        (if rest = [] then child.handler else child.contains rest) =
          node.handlerAt (label :: Wildcard.greedy "*" (Wildcard.tails patterns label) rest) := by
      intro label child hchild
      have hstep : node.handlerAt
          (label :: Wildcard.greedy "*" (Wildcard.tails patterns label) rest) =
          child.handlerAt (Wildcard.greedy "*" (Wildcard.tails patterns label) rest) := by
        rw [handlerAt_cons, hchild, Option.bind_some]
      rw [hstep]
      by_cases hrest : rest = []
      · simp [hrest, Wildcard.greedy, handlerAt]
      · rw [if_neg hrest, ih (h.child hchild) hrest]
    rw [contains, next, Wildcard.greedy]
    cases hexact : node.children.lookup token with
    | some child =>
      have htails : Wildcard.tails patterns token ≠ [] := by
        rw [ne_eq, ← h.lookup_eq_none_iff, hexact]
        simp
      simp only [if_neg htails]
      exact below token child hexact
    | none =>
      rw [if_pos ((h.lookup_eq_none_iff token).mp hexact)]
      cases hstar : node.children.lookup "*" with
      | some child =>
        simp only
        exact below "*" child hstar
      | none => simp [handlerAt_cons, hstar]

end TrieNode

/-! ### The trie and its tokenised hosts -/

section

-- `lower` stands for `unicode.ToLower`.
variable {H : Type*} (lower : Char → Char)

/-- The labels of a host after dropping the port, one trailing dot and the case. -/
def hostLabels (host : String) : List String :=
  let host := match Net.splitHostPort host with
    | some (host2, _) => host2
    | none => host
  split (toLower lower (trimSuffix host '.')) '.'

def reverseAndTokenizeHost (host : String) : List String := (hostLabels lower host).reverse

theorem reverseAndTokenizeHost_ne_nil (host : String) :
    reverseAndTokenizeHost lower host ≠ [] := by
  simp [reverseAndTokenizeHost, hostLabels, split_ne_nil]

structure HostTrie (H : Type*) where
  root : TrieNode H

namespace HostTrie

def new : HostTrie H := ⟨TrieNode.empty⟩

def hasAnyEntry (t : HostTrie H) : Bool := !t.root.children.isEmpty

def insertHost (t : HostTrie H) (host : String) (handler : Option H) : HostTrie H :=
  ⟨t.root.insert (reverseAndTokenizeHost lower host) handler⟩

def contains (t : HostTrie H) (host : String) : Option H :=
  t.root.contains (reverseAndTokenizeHost lower host)

/-- The trie after a sequence of insertions of non-nil handlers, in order. -/
def insertAll (routes : List (String × H)) : HostTrie H :=
  routes.foldl (fun t route => t.insertHost lower route.1 (some route.2)) new

end HostTrie

/-- The inserted patterns in the order of insertion, normalised as the trie sees them. -/
def patterns (routes : List (String × H)) : List (List String) :=
  routes.map fun route => reverseAndTokenizeHost lower route.1

def lastHandler (routes : List (String × H)) (p : List String) : Option H :=
  (routes.reverse.find? fun route => reverseAndTokenizeHost lower route.1 = p).map Prod.snd

variable (routes : List (String × H))

theorem insertAll_concat (route : String × H) :
    HostTrie.insertAll lower (routes ++ [route]) =
      (HostTrie.insertAll lower routes).insertHost lower route.1 (some route.2) := by
  simp [HostTrie.insertAll]

theorem hasPaths_insertAll :
    (HostTrie.insertAll lower routes).root.HasPaths (patterns lower routes) := by
  induction routes using List.reverseRecOn with
  | nil =>
    intro probe
    cases probe <;> simp [HostTrie.insertAll, HostTrie.new, patterns]
  | append_singleton routes route ih =>
    intro probe
    rw [insertAll_concat, HostTrie.insertHost, TrieNode.isSome_at?_insert, ih probe]
    simp [patterns, or_assoc, or_and_right, exists_or]

theorem handlerAt_insertAll (probe : List String) :
    (HostTrie.insertAll lower routes).root.handlerAt probe = lastHandler lower routes probe := by
  induction routes using List.reverseRecOn with
  | nil =>
    cases probe <;> rfl
  | append_singleton routes route ih =>
    rw [insertAll_concat, HostTrie.insertHost, TrieNode.handlerAt_insert, ih, lastHandler,
      lastHandler, List.reverse_append]
    by_cases hprobe : probe = reverseAndTokenizeHost lower route.1
    · simp [hprobe]
    · simp [hprobe, Ne.symm hprobe]

theorem contains_insertAll (host : String) : (HostTrie.insertAll lower routes).contains lower host =
      lastHandler lower routes (Wildcard.greedy "*" (patterns lower routes)
        (reverseAndTokenizeHost lower host)) := by
  rw [HostTrie.contains, TrieNode.contains_eq_handlerAt_greedy (hasPaths_insertAll lower routes)
    (reverseAndTokenizeHost_ne_nil lower host), handlerAt_insertAll]

/-- `Contains` returns an inserted handler. -/
theorem exists_mem_of_contains {routes : List (String × H)} {host : String} {x : H}
    (h : (HostTrie.insertAll lower routes).contains lower host = some x) :
    ∃ pattern, (pattern, x) ∈ routes := by
  rw [contains_insertAll, lastHandler] at h
  obtain ⟨route, hroute, rfl⟩ := Option.map_eq_some_iff.mp h
  exact ⟨route.1, List.mem_reverse.mp (List.mem_of_find?_eq_some hroute)⟩

variable {xs : List (String × H)}

theorem lastHandler_rel {H' : Type*} {S : H → H' → Prop} {ys : List (String × H')}
    (h : List.Forall₂ (fun x y => x.1 = y.1 ∧ S x.2 y.2) xs ys) (p : List String) :
    Option.Rel S (lastHandler lower xs p) (lastHandler lower ys p) := by
  have hrev := List.forall₂_reverse_iff.mpr h
  rw [lastHandler, lastHandler]
  generalize xs.reverse = xs' at hrev ⊢
  generalize ys.reverse = ys' at hrev ⊢
  induction hrev with
  | nil => exact .none
  | @cons x y xs ys hxy _ ih =>
    rw [List.find?_cons, List.find?_cons, hxy.1]
    split
    · exact .some hxy.2
    · exact ih

theorem contains_rel {H' : Type*} {S : H → H' → Prop} {ys : List (String × H')}
    (h : List.Forall₂ (fun x y => x.1 = y.1 ∧ S x.2 y.2) xs ys) (host : String) :
    Option.Rel S ((HostTrie.insertAll lower xs).contains lower host)
      ((HostTrie.insertAll lower ys).contains lower host) := by
  have hpatterns : patterns lower xs = patterns lower ys := by
    induction h with
    | nil => rfl
    | cons hxy _ ih =>
      rw [patterns, patterns, List.map_cons, List.map_cons, hxy.1]
      exact congrArg _ ih
  rw [contains_insertAll, contains_insertAll, hpatterns]
  exact lastHandler_rel lower h _

/-- `HasAnyEntry` after a sequence of insertions. -/
theorem hasAnyEntry_insertAll :
    (HostTrie.insertAll lower routes).hasAnyEntry = !routes.isEmpty := by
  induction routes using List.reverseRecOn with
  | nil => rfl
  | append_singleton routes route _ =>
    obtain ⟨part, rest, hparts⟩ :=
      List.exists_cons_of_ne_nil (reverseAndTokenizeHost_ne_nil lower route.1)
    rw [insertAll_concat, HostTrie.insertHost, HostTrie.hasAnyEntry, hparts,
      TrieNode.insert_cons, TrieNode.children_mk]
    cases (HostTrie.insertAll lower routes).root.children with
    | nil => simp [assign]
    | cons =>
      simp only [assign]
      split <;> simp

theorem lastHandler_isSome_iff (p : List String) :
    (lastHandler lower routes p).isSome ↔ p ∈ patterns lower routes := by
  simp [lastHandler, patterns]

theorem lastHandler_eq_some_iff (hnodup : (patterns lower xs).Nodup) (p : List String) (x : H) :
    lastHandler lower xs p = some x ↔
      ∃ pattern, (pattern, x) ∈ xs ∧ reverseAndTokenizeHost lower pattern = p := by
  rw [lastHandler, Option.map_eq_some_iff]
  constructor
  · rintro ⟨route, hroute, rfl⟩
    exact ⟨route.1, List.mem_reverse.mp (List.mem_of_find?_eq_some hroute),
      by simpa using List.find?_some hroute⟩
  · rintro ⟨pattern, hmem, rfl⟩
    have hsome := (lastHandler_isSome_iff lower xs _).mpr (List.mem_map_of_mem hmem)
    rw [lastHandler, Option.isSome_map] at hsome
    obtain ⟨route, hroute⟩ := Option.isSome_iff_exists.mp hsome
    have hsame := List.inj_on_of_nodup_map hnodup
      (List.mem_reverse.mp (List.mem_of_find?_eq_some hroute)) hmem
      (by simpa using List.find?_some hroute)
    exact ⟨route, hroute, by rw [hsame]⟩

/-- Routes with different normalised patterns may be registered in any order. -/
theorem contains_perm {xs ys : List (String × H)} (hperm : xs.Perm ys)
    (hnodup : (patterns lower xs).Nodup) (host : String) :
    (HostTrie.insertAll lower xs).contains lower host =
      (HostTrie.insertAll lower ys).contains lower host := by
  have hpatterns : (patterns lower xs).Perm (patterns lower ys) := hperm.map _
  have hlast : ∀ p, lastHandler lower xs p = lastHandler lower ys p := by
    intro p
    apply Option.ext
    intro x
    rw [lastHandler_eq_some_iff lower hnodup,
      lastHandler_eq_some_iff lower (hpatterns.nodup_iff.mp hnodup)]
    simp only [hperm.mem_iff]
  rw [contains_insertAll, contains_insertAll, hlast,
    Wildcard.greedy_congr "*" (fun p => hpatterns.mem_iff)]

theorem contains_perm_two :
    (HostTrie.insertAll Char.toLower [("*.example.com", 0), ("api.example.com", 1)]).contains
        Char.toLower "API.example.com:443" =
      (HostTrie.insertAll Char.toLower [("api.example.com", 1), ("*.example.com", 0)]).contains
        Char.toLower "API.example.com:443" :=
  contains_perm Char.toLower (.swap ..) (by decide +kernel) _

end

end Torii.Proxy
