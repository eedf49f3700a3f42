import Torii.Go.Map

/-!
# The listeners of the event bus

`Subscribe` and the function that it returns, which holds the subscription map itself and not the
topic's current entry, so the maps live at addresses. The callback `n` is that of the `n`-th
subscription. As long as no function is called twice, the listeners of a topic are those whose
function was not called (`Ok`).
-/

namespace Torii.Bus

open Go Function

abbrev Topic := String

/-- What a returned function has captured, and how often it was called. -/
structure UnsubscribeFunc where
  topic : Topic
  subscriptionMap : Nat
  clientID : UInt32
  calls : Nat := 0
deriving DecidableEq

/-- The listener fields of `EventBus`, the subscription maps by address, and the functions that
`Subscribe` returned. -/
structure Listeners where
  maps : Nat → GoMap UInt32 Nat
  made : Nat
  listeners : GoMap Topic Nat
  clientCounter : UInt32
  returned : List UnsubscribeFunc

namespace Listeners

def empty : Listeners := ⟨fun _ => ∅, 0, ∅, 0, []⟩

/-- `eb.listeners[topic]`, made if it is not there. -/
def subscriptionMap (l : Listeners) (topic : Topic) : Nat × Listeners :=
  match l.listeners.lookup topic with
  | some address => (address, l)
  | none =>
    (l.made, { l with
      maps := Function.update l.maps l.made ∅
      made := l.made + 1
      listeners := l.listeners.insert topic l.made })

/-- `subscriptionMap[clientID] = handler`. -/
def register (l : Listeners) (topic : Topic) (address : Nat) : Listeners where
  maps := Function.update l.maps address
    ((l.maps address).insert (l.clientCounter + 1) l.returned.length)
  made := l.made
  listeners := l.listeners
  clientCounter := l.clientCounter + 1
  returned := l.returned ++ [⟨topic, address, l.clientCounter + 1, 0⟩]

/-- The part of `Subscribe` under the lock. -/
def subscribe (l : Listeners) (topic : Topic) : Listeners :=
  (l.subscriptionMap topic).2.register topic (l.subscriptionMap topic).1

/-- A call of the function that the `n`-th subscription returned. -/
def unsubscribe (l : Listeners) (n : Nat) : Listeners :=
  match l.returned[n]? with
  | none => l
  | some f =>
    let m : GoMap UInt32 Nat := (l.maps f.subscriptionMap).erase f.clientID
    { l with
      maps := Function.update l.maps f.subscriptionMap m
      listeners := if m.len = 0 then l.listeners.erase f.topic else l.listeners
      returned := l.returned.set n { f with calls := f.calls + 1 } }

/-- The callbacks of one topic; `order` is the order of the range loop. -/
def handlersFor (l : Listeners) (order : List UInt32) (topic : Topic) : List Nat :=
  match l.listeners.lookup topic with
  | none => []
  | some address => (l.maps address).rangeValues order

/-- The callbacks that `dispatchEvent` collects, with the order of each range loop. -/
def handlers (l : Listeners) : List (List UInt32) → List Topic → List Nat
  | _, [] => []
  | orders, topic :: topics =>
    l.handlersFor (orders.headD []) topic ++ l.handlers orders.tail topics

/-- The `n`-th subscription has this topic, and its function was not called. -/
def Live (l : Listeners) (n : Nat) (topic : Topic) : Prop :=
  ∃ f, l.returned[n]? = some f ∧ f.calls = 0 ∧ f.topic = topic

/-- What holds as long as no function is called twice. -/
structure Ok (l : Listeners) : Prop where
  counter : l.clientCounter.toNat = l.returned.length
  client : ∀ {n f}, l.returned[n]? = some f → f.clientID.toNat = n + 1
  made : ∀ {topic address}, l.listeners.lookup topic = some address → address < l.made
  inj : ∀ {topic topic' address}, l.listeners.lookup topic = some address →
    l.listeners.lookup topic' = some address → topic = topic'
  stored : ∀ {topic address id n}, l.listeners.lookup topic = some address →
    (l.maps address).lookup id = some n →
    ∃ f, l.returned[n]? = some f ∧ f.topic = topic ∧ f.clientID = id
  reached : ∀ {n f}, l.returned[n]? = some f → f.calls = 0 →
    l.listeners.lookup f.topic = some f.subscriptionMap ∧
      (l.maps f.subscriptionMap).lookup f.clientID = some n

theorem ok_empty : empty.Ok where
  counter := rfl
  client h := nomatch h
  made h := nomatch h
  inj h := nomatch h
  stored h := nomatch h
  reached h := nomatch h

variable {l : Listeners}

/-! ## Subscribe -/

theorem lookup_subscriptionMap (l : Listeners) (topic : Topic) :
    (l.subscriptionMap topic).2.listeners.lookup topic = some (l.subscriptionMap topic).1 := by
  rw [subscriptionMap]
  split
  · next h => exact h
  · exact AList.lookup_insert _

theorem Ok.subscriptionMap (h : l.Ok) (topic : Topic) : (l.subscriptionMap topic).2.Ok := by
  rw [Listeners.subscriptionMap]
  split
  · exact h
  · next hnone =>
    -- the new map is at an address that no topic has
    have hold : ∀ {topic' address}, (l.listeners.insert topic l.made).lookup topic' = some address →
        topic' = topic ∧ address = l.made ∨
          topic' ≠ topic ∧ l.listeners.lookup topic' = some address ∧ address < l.made := by
      intro topic' address hlookup
      obtain hnew | ⟨hne, hold⟩ := GoMap.lookup_insert_cases hlookup
      · exact .inl hnew
      · exact .inr ⟨hne, hold, h.made hold⟩
    refine ⟨h.counter, h.client, ?_, ?_, ?_, ?_⟩
    · intro topic' address hlookup
      rcases hold hlookup with ⟨-, rfl⟩ | ⟨-, -, hlt⟩
      · exact Nat.lt_succ_self _
      · exact Nat.lt_succ_of_lt hlt
    · intro t t' address ht ht'
      rcases hold ht with ⟨rfl, rfl⟩ | ⟨-, ht, hlt⟩
      · rcases hold ht' with ⟨rfl, -⟩ | ⟨-, -, hlt⟩
        · rfl
        · exact absurd hlt (Nat.lt_irrefl _)
      · rcases hold ht' with ⟨-, rfl⟩ | ⟨-, ht', -⟩
        · exact absurd hlt (Nat.lt_irrefl _)
        · exact h.inj ht ht'
    · intro t address id n ht hid
      rcases hold ht with ⟨-, rfl⟩ | ⟨-, ht, hlt⟩
      · simp only [update_self] at hid
        exact nomatch hid
      · simp only [update_of_ne (Nat.ne_of_lt hlt)] at hid
        exact h.stored ht hid
    · intro n f hf hcalls
      obtain ⟨hlookup, hid⟩ := h.reached hf hcalls
      have hne : f.topic ≠ topic := by
        rintro heq
        rw [heq, hnone] at hlookup
        exact nomatch hlookup
      have hold : f.subscriptionMap ≠ l.made := Nat.ne_of_lt (h.made hlookup)
      exact ⟨by simpa only [GoMap.lookup_insert', if_neg hne] using hlookup,
        by simpa only [update_of_ne hold] using hid⟩

theorem toNat_succ {c : UInt32} (h : c.toNat + 1 < UInt32.size) : (c + 1).toNat = c.toNat + 1 := by
  rw [UInt32.toNat_add]
  exact Nat.mod_eq_of_lt h

variable {n : Nat} {f : UnsubscribeFunc} {topic : Topic} {address : Nat}

theorem Ok.client_ne (h : l.Ok) (hroom : l.returned.length + 1 < UInt32.size)
    (hf : l.returned[n]? = some f) : f.clientID ≠ l.clientCounter + 1 := by
  intro heq
  have hn := (List.getElem?_eq_some_iff.mp hf).1
  have hclient := h.client hf
  rw [heq, toNat_succ (by rw [h.counter]; exact hroom), h.counter] at hclient
  omega

theorem getElem?_append_of_some {α : Type*} {xs : List α} {x : α} (h : xs[n]? = some x)
    (ys : List α) : (xs ++ ys)[n]? = some x := by
  rw [List.getElem?_append_left (List.getElem?_eq_some_iff.mp h).1]
  exact h

theorem Ok.register (h : l.Ok) (hroom : l.returned.length + 1 < UInt32.size)
    (htopic : l.listeners.lookup topic = some address) : (l.register topic address).Ok := by
  have hcounter : (l.clientCounter + 1).toNat = l.returned.length + 1 := by
    rw [toNat_succ (by rw [h.counter]; exact hroom), h.counter]
  have hreturned : ∀ {n f}, (l.returned ++ [⟨topic, address, l.clientCounter + 1, 0⟩])[n]? =
      some f → l.returned[n]? = some f ∨
        n = l.returned.length ∧ f = ⟨topic, address, l.clientCounter + 1, 0⟩ := by
    intro n f hf
    rw [List.getElem?_append] at hf
    split at hf
    · exact .inl hf
    · obtain ⟨hlt, hget⟩ := List.getElem?_eq_some_iff.mp hf
      simp only [List.length_singleton] at hlt
      exact .inr ⟨by omega, by simpa using hget.symm⟩
  refine ⟨?_, ?_, h.made, h.inj, ?_, ?_⟩
  · simpa [Listeners.register] using hcounter
  · intro n f hf
    rcases hreturned hf with hf | ⟨rfl, rfl⟩
    · exact h.client hf
    · exact hcounter
  · intro t address' id n ht hid
    by_cases heq : address' = address
    · subst heq
      obtain rfl := h.inj ht htopic
      simp only [Listeners.register, update_self, GoMap.lookup_insert'] at hid
      split at hid
      · next hid' =>
        obtain rfl := Option.some.inj hid
        exact ⟨⟨t, address', l.clientCounter + 1, 0⟩, by simp [Listeners.register], rfl,
          hid'.symm⟩
      · obtain ⟨f, hf, hft, hfid⟩ := h.stored ht hid
        exact ⟨f, getElem?_append_of_some hf _, hft, hfid⟩
    · simp only [Listeners.register, update_of_ne heq] at hid
      obtain ⟨f, hf, hft, hfid⟩ := h.stored ht hid
      exact ⟨f, getElem?_append_of_some hf _, hft, hfid⟩
  · intro n f hf hcalls
    rcases hreturned hf with hf | ⟨rfl, rfl⟩
    · obtain ⟨hlookup, hid⟩ := h.reached hf hcalls
      refine ⟨hlookup, ?_⟩
      by_cases heq : f.subscriptionMap = address
      · simp only [Listeners.register, heq, update_self, GoMap.lookup_insert',
          if_neg (h.client_ne hroom hf)]
        rw [← heq]
        exact hid
      · simpa only [Listeners.register, update_of_ne heq] using hid
    · refine ⟨htopic, ?_⟩
      simp [Listeners.register]

theorem returned_subscriptionMap (l : Listeners) (topic : Topic) :
    (l.subscriptionMap topic).2.returned = l.returned := by
  rw [Listeners.subscriptionMap]
  split <;> rfl

theorem Ok.subscribe (h : l.Ok) (topic : Topic) (hroom : l.returned.length + 1 < UInt32.size) :
    (l.subscribe topic).Ok := by
  apply (h.subscriptionMap topic).register _ (lookup_subscriptionMap l topic)
  rw [returned_subscriptionMap]
  exact hroom

/-! ## Unsubscribe -/

theorem getElem?_returned_unsubscribe (hf : l.returned[n]? = some f) (n' : Nat) :
    (l.unsubscribe n).returned[n']? =
      if n' = n then some { f with calls := f.calls + 1 } else l.returned[n']? := by
  simp only [unsubscribe, hf, List.getElem?_set, eq_comm (a := n)]
  split
  · exact if_pos (List.getElem?_eq_some_iff.mp hf).1
  · rfl

theorem lookup_of_unsubscribe (h : (l.unsubscribe n).listeners.lookup topic = some address) :
    l.listeners.lookup topic = some address := by
  rw [unsubscribe] at h
  split at h
  · exact h
  · simp only at h
    split at h
    · exact (GoMap.lookup_of_erase h).2
    · exact h

theorem lookup_maps_unsubscribe (hf : l.returned[n]? = some f) (address : Nat) (id : UInt32) :
    ((l.unsubscribe n).maps address).lookup id =
      if address = f.subscriptionMap ∧ id = f.clientID then none
      else (l.maps address).lookup id := by
  simp only [unsubscribe, hf]
  by_cases haddress : address = f.subscriptionMap
  · subst haddress
    simp [GoMap.lookup_erase']
  · simp [haddress]

theorem lookup_unsubscribe (hf : l.returned[n]? = some f)
    (h : l.listeners.lookup topic = some address)
    (hkeep : topic = f.topic → ∃ id v, id ≠ f.clientID ∧
      (l.maps f.subscriptionMap).lookup id = some v) :
    (l.unsubscribe n).listeners.lookup topic = some address := by
  simp only [unsubscribe, hf]
  split
  · next hlen =>
    have hne : topic ≠ f.topic := by
      intro htopic
      obtain ⟨id, v, hid, hv⟩ := hkeep htopic
      have hmem : (⟨id, v⟩ : Sigma fun _ : UInt32 => Nat) ∈
          (AList.erase f.clientID (l.maps f.subscriptionMap)).entries := by
        rw [GoMap.mem_entries_iff, GoMap.lookup_erase', if_neg hid]
        exact hv
      rw [List.length_eq_zero_iff.mp hlen] at hmem
      exact absurd hmem List.not_mem_nil
    rw [GoMap.lookup_erase', if_neg hne]
    exact h
  · exact h

theorem Ok.client_inj (h : l.Ok) {n' : Nat} {f' : UnsubscribeFunc}
    (hf : l.returned[n]? = some f) (hf' : l.returned[n']? = some f')
    (heq : f'.clientID = f.clientID) : n' = n := by
  have hn := h.client hf
  have hn' := h.client hf'
  rw [heq] at hn'
  omega

theorem Ok.unsubscribe_of_keeps (h : l.Ok) (hf : l.returned[n]? = some f)
    (hkeeps : ∀ {n' f'}, l.returned[n']? = some f' → n' ≠ n → f'.calls = 0 →
      (l.unsubscribe n).listeners.lookup f'.topic = some f'.subscriptionMap) :
    (l.unsubscribe n).Ok := by
  have hreturned := getElem?_returned_unsubscribe hf
  constructor
  · simpa only [Listeners.unsubscribe, hf, List.length_set] using h.counter
  · intro n' f' hf'
    rw [hreturned] at hf'
    split at hf'
    · next heq =>
      have hclient : f.clientID.toNat = n + 1 := h.client hf
      rw [← Option.some.inj hf', heq]
      exact hclient
    · exact h.client hf'
  · intro topic address hlookup
    have := h.made (lookup_of_unsubscribe hlookup)
    simpa only [Listeners.unsubscribe, hf] using this
  · exact fun ht ht' => h.inj (lookup_of_unsubscribe ht) (lookup_of_unsubscribe ht')
  · intro topic address id n' ht hid
    rw [lookup_maps_unsubscribe hf] at hid
    split at hid
    · cases hid
    · obtain ⟨f', hf', htopic', hid'⟩ := h.stored (lookup_of_unsubscribe ht) hid
      by_cases heq : n' = n
      · subst heq
        cases hf.symm.trans hf'
        exact ⟨{ f with calls := f.calls + 1 }, by rw [hreturned, if_pos rfl], htopic', hid'⟩
      · exact ⟨f', by rw [hreturned, if_neg heq]; exact hf', htopic', hid'⟩
  · intro n' f' hf' hcalls'
    rw [hreturned] at hf'
    split at hf'
    · cases hf'
      exact absurd hcalls' (Nat.succ_ne_zero _)
    · next hne =>
      refine ⟨hkeeps hf' hne hcalls', ?_⟩
      rw [lookup_maps_unsubscribe hf, if_neg fun hboth => hne (h.client_inj hf hf' hboth.2)]
      exact (h.reached hf' hcalls').2

theorem Ok.unsubscribe (h : l.Ok) (hf : l.returned[n]? = some f)
    (hcalls : f.calls = 0) : (l.unsubscribe n).Ok := by
  obtain ⟨htopic, -⟩ := h.reached hf hcalls
  refine h.unsubscribe_of_keeps hf fun {n' f'} hf' hne hcalls' => ?_
  obtain ⟨htopic', hid'⟩ := h.reached hf' hcalls'
  apply lookup_unsubscribe hf htopic'
  intro heq
  rw [heq, htopic] at htopic'
  rw [← Option.some.inj htopic'] at hid'
  exact ⟨_, _, fun hclient => hne (h.client_inj hf hf' hclient), hid'⟩

/-! ## Liveness and handlers -/

theorem length_returned_subscribe (l : Listeners) (topic : Topic) :
    (l.subscribe topic).returned.length = l.returned.length + 1 := by
  rw [Listeners.subscribe, register, returned_subscriptionMap, List.length_append,
    List.length_singleton]

theorem length_returned_unsubscribe (l : Listeners) (n : Nat) :
    (l.unsubscribe n).returned.length = l.returned.length := by
  rw [Listeners.unsubscribe]
  split
  · rfl
  · exact List.length_set

theorem Live.of_subscribe {topic' : Topic} (h : (l.subscribe topic').Live n topic)
    (hn : n < l.returned.length) : l.Live n topic := by
  obtain ⟨f, hf, hcalls, htopic⟩ := h
  refine ⟨f, ?_, hcalls, htopic⟩
  rw [Listeners.subscribe, register, returned_subscriptionMap,
    List.getElem?_append_left hn] at hf
  exact hf

theorem Live.of_unsubscribe {n' : Nat} (h : (l.unsubscribe n').Live n topic) : l.Live n topic := by
  obtain ⟨f, hf, hcalls, htopic⟩ := h
  cases hn' : l.returned[n']? with
  | none =>
    simp only [Listeners.unsubscribe, hn'] at hf
    exact ⟨f, hf, hcalls, htopic⟩
  | some f' =>
    rw [getElem?_returned_unsubscribe hn'] at hf
    split at hf
    · cases hf
      exact absurd hcalls (Nat.succ_ne_zero _)
    · exact ⟨f, hf, hcalls, htopic⟩

def topicOf (l : Listeners) (n : Nat) : Option Topic := (l.returned[n]?).map UnsubscribeFunc.topic

theorem topicOf_subscribe (h : l.topicOf n = some topic)
    (topic' : Topic) : (l.subscribe topic').topicOf n = some topic := by
  obtain ⟨f, hf, rfl⟩ := Option.map_eq_some_iff.mp h
  rw [topicOf, Listeners.subscribe, register, returned_subscriptionMap,
    getElem?_append_of_some hf]
  rfl

theorem topicOf_unsubscribe (l : Listeners) (n' n : Nat) :
    (l.unsubscribe n').topicOf n = l.topicOf n := by
  cases hn' : l.returned[n']? with
  | none => simp only [Listeners.unsubscribe, hn']
  | some f =>
    rw [topicOf, getElem?_returned_unsubscribe hn', topicOf]
    split
    · next heq =>
      rw [heq, hn']
      rfl
    · rfl

theorem Ok.topicOf_of_mem_handlersFor (h : l.Ok) {order : List UInt32}
    (hn : n ∈ l.handlersFor order topic) : l.topicOf n = some topic := by
  rw [handlersFor] at hn
  split at hn
  · exact absurd hn List.not_mem_nil
  · next haddress =>
    obtain ⟨id, hid⟩ := GoMap.mem_rangeValues.mp hn
    obtain ⟨f, hf, rfl, -⟩ := h.stored haddress hid
    rw [topicOf, hf]
    rfl

theorem Ok.count_handlersFor (h : l.Ok) (order : List UInt32) {topic' : Topic}
    (hn : l.Live n topic) :
    (l.handlersFor order topic').count n = if topic' = topic then 1 else 0 := by
  obtain ⟨f, hf, hcalls, rfl⟩ := hn
  split
  · next heq =>
    obtain ⟨htopic, hid⟩ := h.reached hf hcalls
    rw [← heq] at htopic
    simp only [handlersFor, htopic]
    apply GoMap.count_rangeValues order hid
    intro id hid'
    obtain ⟨f', hf', -, rfl⟩ := h.stored htopic hid'
    rw [Option.some.inj (hf'.symm.trans hf)]
  · next hne =>
    apply List.count_eq_zero_of_not_mem
    intro hmem
    have htopic := h.topicOf_of_mem_handlersFor hmem
    rw [topicOf, hf] at htopic
    exact hne (Option.some.inj htopic).symm

theorem Ok.topicOf_of_mem_handlers (h : l.Ok) {orders : List (List UInt32)} {topics : List Topic}
    (hn : n ∈ l.handlers orders topics) : ∃ topic ∈ topics, l.topicOf n = some topic := by
  induction topics generalizing orders with
  | nil => exact absurd hn List.not_mem_nil
  | cons topic topics ih =>
    rcases List.mem_append.mp hn with hn | hn
    · exact ⟨topic, List.mem_cons_self, h.topicOf_of_mem_handlersFor hn⟩
    · obtain ⟨topic', hmem, htopic'⟩ := ih hn
      exact ⟨topic', List.mem_cons_of_mem _ hmem, htopic'⟩

theorem Ok.count_handlers (h : l.Ok) (orders : List (List UInt32)) (topics : List Topic)
    (hn : l.Live n topic) : (l.handlers orders topics).count n = topics.count topic := by
  induction topics generalizing orders with
  | nil => rfl
  | cons topic' topics ih =>
    rw [handlers, List.count_append, h.count_handlersFor _ hn, ih, List.count_cons, Nat.add_comm]
    simp only [beq_iff_eq]

end Listeners

end Torii.Bus
