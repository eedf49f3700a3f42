import Torii.Proxy.HostTrie

/-!
# Which handler a host is routed to

The purpose of the trie, stated on the inserted patterns and the host alone. The lookup is not
complete: once an exact label has been followed, a pattern with `"*"` at that place is out of reach.
-/

namespace Torii.Proxy

open Wildcard

variable {H : Type*} (lower : Char → Char)

/-- The pattern matches the host: same number of labels, each the host's or `"*"`. -/
def HostMatches (pattern host : String) : Prop :=
  List.Forall₂ (fun p h => p = h ∨ p = "*") (hostLabels lower pattern) (hostLabels lower host)

instance (pattern host : String) : Decidable (HostMatches lower pattern host) :=
  inferInstanceAs (Decidable (List.Forall₂ _ _ _))

theorem hostMatches_iff (pattern host : String) :
    HostMatches lower pattern host ↔
      Matches "*" (reverseAndTokenizeHost lower pattern) (reverseAndTokenizeHost lower host) :=
  List.forall₂_reverse_iff.symm

theorem exists_hostMatches_iff (routes : List (String × H)) (host : String) :
    (∃ route ∈ routes, HostMatches lower route.1 host) ↔
      ∃ p ∈ patterns lower routes, Matches "*" p (reverseAndTokenizeHost lower host) := by
  simp [patterns, hostMatches_iff]

/-- A matched host finds a handler exactly when the greedy walk over the labels, from
the right, never leaves the last matching pattern for an exact label. -/
theorem contains_complete_iff (routes : List (String × H)) (host : String) :
    ((∃ route ∈ routes, HostMatches lower route.1 host) →
        (HostTrie.insertAll lower routes).contains lower host ≠ none) ↔
      NoDeadEnd "*" (patterns lower routes) (reverseAndTokenizeHost lower host) := by
  rw [exists_hostMatches_iff, contains_insertAll, ← Option.isSome_iff_ne_none,
    lastHandler_isSome_iff, greedy_mem_iff_noDeadEnd]

/-- `*.example.com` matches `api.example.com`, but a deeper route below it makes the
node `api` exist without a handler, and the lookup stops there. -/
theorem contains_misses_wildcard :
    (∃ route ∈ [("*.example.com", 1), ("x.api.example.com", 2)],
        HostMatches Char.toLower route.1 "api.example.com") ∧
      (HostTrie.insertAll Char.toLower [("*.example.com", 1), ("x.api.example.com", 2)]).contains
        Char.toLower "api.example.com" = none := by
  decide +kernel

/-- The returned handler is the last one inserted for a matching pattern `p`, and every
other matching pattern has `"*"` where it first differs, from the right, from `p`, which
has the host's own label there. A host that was itself inserted gets its own handler. -/
theorem contains_mostSpecific (routes : List (String × H)) (host : String) :
    (∀ x, (HostTrie.insertAll lower routes).contains lower host = some x →
      ∃ p ∈ patterns lower routes, Matches "*" p (reverseAndTokenizeHost lower host) ∧
        lastHandler lower routes p = some x ∧
        ∀ q ∈ patterns lower routes, Matches "*" q (reverseAndTokenizeHost lower host) →
          q ≠ p → Prefers "*" (reverseAndTokenizeHost lower host) p q) ∧
    (reverseAndTokenizeHost lower host ∈ patterns lower routes →
      ∃ x, lastHandler lower routes (reverseAndTokenizeHost lower host) = some x ∧
        (HostTrie.insertAll lower routes).contains lower host = some x) := by
  rw [contains_insertAll]
  constructor
  · intro x hx
    refine ⟨_, (lastHandler_isSome_iff lower routes _).mp (by rw [hx]; rfl),
      greedy_matches _ _ _, hx, ?_⟩
    intro q hq hm hne
    exact greedy_prefers _ hq hm hne
  · intro hmem
    rw [greedy_of_mem _ hmem]
    obtain ⟨x, hx⟩ := Option.isSome_iff_exists.mp ((lastHandler_isSome_iff lower routes _).mpr hmem)
    exact ⟨x, hx, hx⟩

end Torii.Proxy
