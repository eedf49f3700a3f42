import Torii.Bus.Listeners
import Torii.Lib.Machine

/-!
# Unsubscribing more than once

A function that is called again finds its own entry gone. If the map that it captured is empty, it
drops whatever map the topic has by then.
-/

namespace Torii.Bus

open Go

/-- A call of `Subscribe`, or of the function that the `n`-th one returned. -/
inductive ListenerCall where
  | subscribe (topic : Topic)
  | unsubscribe (n : Nat)

/-- The listener map under the calls of its users. -/
def listenerMap : Machine Listeners ListenerCall Unit where
  step l
    | .subscribe topic => ((), l.subscribe topic)
    | .unsubscribe n => ((), l.unsubscribe n)

namespace Listeners

/-- A subscription gets the events of its topic exactly when its function was not called. -/
def Delivers (l : Listeners) : Prop :=
  ∀ n f, l.returned[n]? = some f → ∀ order, n ∈ l.handlersFor order f.topic ↔ f.calls = 0

/-- The counter of the clients does not wrap around, and a function that is called again has
captured a map that still has entries, or belongs to a topic without listeners. -/
def Harmless (l : Listeners) : ListenerCall → Prop
  | .subscribe _ => l.returned.length + 1 < UInt32.size
  | .unsubscribe n => ∀ f ∈ l.returned[n]?, f.calls ≠ 0 →
      (l.maps f.subscriptionMap).len ≠ 0 ∨ l.listeners.lookup f.topic = none

instance (l : Listeners) : ∀ call, Decidable (l.Harmless call)
  | .subscribe _ => inferInstanceAs (Decidable (_ < _))
  | .unsubscribe _ => inferInstanceAs (Decidable (∀ _ ∈ _, _ → _))

/-- Every entry of a map, also of one that was dropped, is that of a subscription whose function
was not called. -/
structure Exact (l : Listeners) : Prop where
  ok : l.Ok
  issued : ∀ {n : Nat} {f : UnsubscribeFunc}, l.returned[n]? = some f → f.subscriptionMap < l.made
  live : ∀ {address id n}, (l.maps address).lookup id = some n →
    ∃ f, l.returned[n]? = some f ∧ f.calls = 0 ∧ f.subscriptionMap = address ∧ f.clientID = id

theorem exact_empty : empty.Exact where
  ok := ok_empty
  issued h := nomatch h
  live h := nomatch h

variable {l : Listeners}

theorem Exact.delivers (h : l.Exact) : l.Delivers := by
  intro n f hf order
  rw [handlersFor]
  constructor
  · intro hmem
    split at hmem
    · exact absurd hmem List.not_mem_nil
    · obtain ⟨id, hid⟩ := GoMap.mem_rangeValues.mp hmem
      obtain ⟨f', hf', hcalls, -⟩ := h.live hid
      cases hf.symm.trans hf'
      exact hcalls
  · intro hcalls
    obtain ⟨htopic, hid⟩ := h.ok.reached hf hcalls
    simp only [htopic]
    exact GoMap.mem_rangeValues.mpr ⟨_, hid⟩

theorem Exact.subscriptionMap (h : l.Exact) (topic : Topic) :
    (l.subscriptionMap topic).2.Exact := by
  refine ⟨h.ok.subscriptionMap topic, ?_, ?_⟩
  · rw [returned_subscriptionMap]
    intro n f hf
    rw [Listeners.subscriptionMap]
    split
    · exact h.issued hf
    · exact Nat.lt_succ_of_lt (h.issued hf)
  · rw [returned_subscriptionMap]
    intro address id n hid
    rw [Listeners.subscriptionMap] at hid
    split at hid
    · exact h.live hid
    · by_cases hnew : address = l.made
      · rw [hnew] at hid
        simp at hid
      · simp only [Function.update_of_ne hnew] at hid
        exact h.live hid

theorem Exact.register (h : l.Exact) (hroom : l.returned.length + 1 < UInt32.size) {topic : Topic}
    {address : Nat} (htopic : l.listeners.lookup topic = some address) :
    (l.register topic address).Exact := by
  refine ⟨h.ok.register hroom htopic, ?_, ?_⟩
  · intro n f hf
    rw [Listeners.register, List.getElem?_append] at hf
    split at hf
    · exact h.issued hf
    · rw [List.mem_singleton.mp (List.mem_of_getElem? hf)]
      exact h.ok.made htopic
  · intro address' id n hid
    have hold : (l.maps address').lookup id = some n → ∃ f,
        (l.register topic address).returned[n]? = some f ∧ f.calls = 0 ∧
          f.subscriptionMap = address' ∧ f.clientID = id := by
      intro hid
      obtain ⟨f, hf, hrest⟩ := h.live hid
      exact ⟨f, getElem?_append_of_some hf _, hrest⟩
    by_cases heq : address' = address
    · simp only [Listeners.register, heq, Function.update_self, GoMap.lookup_insert'] at hid
      split at hid
      · next hclient =>
        obtain rfl := Option.some.inj hid
        exact ⟨⟨topic, address, l.clientCounter + 1, 0⟩, by simp [Listeners.register], rfl,
          heq.symm, hclient.symm⟩
      · exact hold (heq ▸ hid)
    · simp only [Listeners.register, Function.update_of_ne heq] at hid
      exact hold hid

/-- The entry of a function that was called is gone. -/
theorem Exact.gone (h : l.Exact) {n : Nat} {f : UnsubscribeFunc} (hf : l.returned[n]? = some f)
    (hcalls : f.calls ≠ 0) : (l.maps f.subscriptionMap).lookup f.clientID = none := by
  by_contra hsome
  obtain ⟨n', hid⟩ := Option.ne_none_iff_exists'.mp hsome
  obtain ⟨f', hf', hcalls', -, hclient⟩ := h.live hid
  cases h.ok.client_inj hf hf' hclient
  cases hf.symm.trans hf'
  exact hcalls hcalls'

theorem Exact.ok_unsubscribe (h : l.Exact) {n : Nat} {f : UnsubscribeFunc}
    (hf : l.returned[n]? = some f) (hharmless : l.Harmless (.unsubscribe n)) :
    (l.unsubscribe n).Ok := by
  by_cases hcalls : f.calls = 0
  · exact h.ok.unsubscribe hf hcalls
  · refine h.ok.unsubscribe_of_keeps hf fun {n' f'} hf' hne hcalls' => ?_
    have htopic' := (h.ok.reached hf' hcalls').1
    have hmap : (l.maps f.subscriptionMap).erase f.clientID = l.maps f.subscriptionMap :=
      AList.ext (List.kerase_of_notMem_keys (AList.lookup_eq_none.mp (h.gone hf hcalls)))
    simp only [Listeners.unsubscribe, hf, hmap]
    split
    · next hlen =>
      obtain hlen' | hnone := hharmless f hf hcalls
      · exact absurd hlen hlen'
      · have htopic : f'.topic ≠ f.topic := by
          intro heq
          rw [heq, hnone] at htopic'
          cases htopic'
        rwa [GoMap.lookup_erase', if_neg htopic]
    · exact htopic'

/-- Step lemma: a harmless call keeps the invariant. -/
theorem Exact.step (h : l.Exact) {call : ListenerCall} (hharmless : l.Harmless call) :
    (listenerMap.step l call).2.Exact := by
  cases call with
  | subscribe topic =>
    apply (h.subscriptionMap topic).register _ (lookup_subscriptionMap l topic)
    rw [returned_subscriptionMap]
    exact hharmless
  | unsubscribe n =>
    change (l.unsubscribe n).Exact
    cases hf : l.returned[n]? with
    | none =>
      rw [Listeners.unsubscribe, hf]
      exact h
    | some f =>
      refine ⟨h.ok_unsubscribe hf hharmless, ?_, ?_⟩
      · intro n' f' hf'
        have hmade : (l.unsubscribe n).made = l.made := by simp only [Listeners.unsubscribe, hf]
        rw [getElem?_returned_unsubscribe hf] at hf'
        rw [hmade]
        split at hf'
        · rw [← Option.some.inj hf']
          exact h.issued (f := f) hf
        · exact h.issued hf'
      · intro address id n' hid
        rw [lookup_maps_unsubscribe hf] at hid
        split at hid
        · cases hid
        · next hother =>
          obtain ⟨f', hf', hcalls, haddress, hclient⟩ := h.live hid
          refine ⟨f', ?_, hcalls, haddress, hclient⟩
          rw [getElem?_returned_unsubscribe hf, if_neg, hf']
          rintro rfl
          cases hf.symm.trans hf'
          exact hother ⟨haddress.symm, hclient.symm⟩

end Listeners

/-- In every run of harmless calls, a subscription is delivered to exactly as long as its own
function was not called. -/
theorem delivers_of_harmless (calls : List ListenerCall)
    (hcalls : listenerMap.Steps Listeners.Harmless .empty calls) :
    listenerMap.Always Listeners.Delivers .empty calls := by
  exact listenerMap.always_of_steps Listeners.Exact (fun l h => h.delivers)
    (fun l call hharmless h => h.step hharmless) hcalls Listeners.exact_empty

/-- The function of a subscription is called twice while another subscription stays. -/
theorem delivers_of_harmless_shared :
    listenerMap.Always Listeners.Delivers .empty
      [.subscribe "t", .subscribe "t", .unsubscribe 0, .unsubscribe 0] :=
  delivers_of_harmless _ (by decide)

/-- The function of the first subscription is called again after the second one was made: the
second one is lost, although its own function was never called. -/
theorem recalled_drops_other :
    let l := listenerMap.run .empty
      [.subscribe "t", .unsubscribe 0, .subscribe "t", .unsubscribe 0]
    l.returned[1]? = some ⟨"t", 1, 2, 0⟩ ∧ l.handlersFor [] "t" = [] := by
  decide

end Torii.Bus
