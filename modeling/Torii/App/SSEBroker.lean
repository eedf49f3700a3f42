import Torii.Go.Chan
import Torii.Go.Map
import Torii.Lib.Machine
import Torii.Go.Strconv

/-!
# The broker of server-sent events

`internal/app/sse_server.go`. `Subscribe` registers a channel under the lock and goes on sending
snapshots to it, each send being a step of its own. `Unsubscribe`, `broadcastAll` and `Stop` hold
the lock to the end and are one step each. `Stop` also closes channels whose `Subscribe` has not
returned, and a snapshot that is sent then panics.
-/

namespace Torii.App

open Go Strconv

structure SSEEvent where
  type : String
  data : List UInt8
deriving DecidableEq

/-- How far the call of `Subscribe` is that made a client: it is registered; these snapshots of
metrics are left to be sent; it is returned. -/
inductive SubscribePhase where
  | registered
  | snapshots (left : List SSEEvent)
  | returned
deriving DecidableEq

structure SSEClient where
  id : String
  events : Chan SSEEvent
  phase : SubscribePhase

/-- `SSEBroker`, with the clients by address; `made` is how many of them there are. `cache` says
whether there is a cache subsystem. -/
structure SSEBroker where
  clients : GoMap String Nat
  nextID : Int64
  clientCount : Int64
  cache : Bool
  made : Nat
  client : Nat → SSEClient

namespace SSEBroker

def newSSEBroker (cache : Bool) : SSEBroker where
  clients := ∅
  nextID := 0
  clientCount := 0
  cache := cache
  made := 0
  client _ := ⟨"", { capacity := 0 }, .returned⟩

variable (s : SSEBroker)

def setClient (n : Nat) (c : SSEClient) : SSEBroker :=
  { s with client := Function.update s.client n c }

/-- `fmt.Sprintf("sse-%d", id)`. -/
def clientID (id : Int64) : String := "sse-" ++ itoa id.toInt

/-- The part of `Subscribe` under the lock. -/
def register : SSEBroker where
  clients := s.clients.insert (clientID s.nextID) s.made
  nextID := s.nextID + 1
  clientCount := s.clientCount + 1
  cache := s.cache
  made := s.made + 1
  client := Function.update s.client s.made
    ⟨clientID s.nextID, { capacity := 512 }, .registered⟩

/-- Send to a client, unless its channel is full. -/
def sendTo (n : Nat) (event : SSEEvent) : List (ChanOp Nat) × SSEBroker :=
  let (sent, events) := (s.client n).events.trySend event
  (if sent then [.send n] else [], s.setClient n { s.client n with events := events })

def setPhase (n : Nat) (phase : SubscribePhase) : SSEBroker :=
  s.setClient n { s.client n with phase := phase }

/-- The next step of the `Subscribe` that made a client: `GetAllMetrics`, then one metric after
the other, then the snapshots of the cache. The data is what `json.Marshal` makes of the metrics
or of the snapshots; a metric that is nil or cannot be marshalled is left out. -/
def proceed (n : Nat) (data : List (Option (List UInt8))) : List (ChanOp Nat) × SSEBroker :=
  match (s.client n).phase with
  | .registered => ([], s.setPhase n (.snapshots (data.reduceOption.map (⟨"metrics", ·⟩))))
  | .snapshots (event :: left) => (s.setPhase n (.snapshots left)).sendTo n event
  | .snapshots [] =>
    match if s.cache then data.head?.join else none with
    | some data => (s.setPhase n .returned).sendTo n ⟨"cache_snapshots", data⟩
    | none => ([], s.setPhase n .returned)
  | .returned => ([], s)

def closeClient (n : Nat) : SSEBroker :=
  s.setClient n { s.client n with events := (s.client n).events.close }

/-- `Unsubscribe`, for a client that `Subscribe` has returned. -/
def unsubscribe (n : Nat) : List (ChanOp Nat) × SSEBroker :=
  if n < s.made ∧ (s.client n).phase = .returned then
    match s.clients.lookup (s.client n).id with
    | some _ =>
      ([.close n], { s.closeClient n with
        clients := s.clients.erase (s.client n).id
        clientCount := s.clientCount - 1 })
    | none => ([], s)
  else ([], s)

def sendAll (event : SSEEvent) : List Nat → SSEBroker → List (ChanOp Nat) × SSEBroker
  | [], s => ([], s)
  | n :: ns, s =>
    let (first, s) := s.sendTo n event
    let (rest, s) := sendAll event ns s
    (first ++ rest, s)

def broadcastAll (event : SSEEvent) (order : List String) : List (ChanOp Nat) × SSEBroker :=
  sendAll event (s.clients.rangeValues order) s

/-- `Stop`; its listeners are removed before it takes the lock. -/
def stop (order : List String) : List (ChanOp Nat) × SSEBroker :=
  ((s.clients.rangeValues order).map .close,
    { (s.clients.rangeValues order).foldl closeClient s with
      clients := ∅
      clientCount := 0 })

def receive (n : Nat) : SSEBroker :=
  s.setClient n { s.client n with events := (s.client n).events.receive }

end SSEBroker

inductive SSEAction where
  | subscribe
  | proceed (n : Nat) (data : List (Option (List UInt8)))
  | unsubscribe (n : Nat)
  | broadcastAll (event : SSEEvent) (order : List String)
  | receive (n : Nat)
  | stop (order : List String)

/-- The interleavings of a broker; a step answers with the operations on channels that were
carried out. -/
def sse : Machine SSEBroker SSEAction (List (ChanOp Nat)) where
  step s
    | .subscribe => ([], s.register)
    | .proceed n data => s.proceed n data
    | .unsubscribe n => s.unsubscribe n
    | .broadcastAll event order => s.broadcastAll event order
    | .receive n => ([], s.receive n)
    | .stop order => s.stop order

def channelLog (s : SSEBroker) (ops : List SSEAction) : List (ChanOp Nat) :=
  sse.collect (fun s op => (sse.step s op).1) s ops

/-! ## The invariant -/

def maxInt64 : Nat := 9223372036854775807

def SSEBroker.Live (s : SSEBroker) (n : Nat) : Prop :=
  n < s.made ∧ (s.client n).events.closed = false

open SSEBroker

theorem toInt_ofNat_of_le {n : Nat} (h : n ≤ maxInt64) : (Int64.ofNat n).toInt = n :=
  Int64.toInt_ofNat_of_lt (by rw [maxInt64] at h; omega)

theorem clientID_inj {m n : Nat} (hm : m ≤ maxInt64) (hn : n ≤ maxInt64)
    (h : clientID (Int64.ofNat m) = clientID (Int64.ofNat n)) : m = n := by
  have hdigits := itoa_inj (String.append_right_inj _ |>.mp h)
  rw [toInt_ofNat_of_le hm, toInt_ofNat_of_le hn] at hdigits
  omega

/-- The invariant: the registered clients are those whose channel is not closed, and among them
are those whose `Subscribe` has not returned. -/
structure Orderly (log : List (ChanOp Nat)) (s : SSEBroker) : Prop where
  disciplined : Disciplined log
  closes : ∀ n, ChanOp.close n ∈ log → n < s.made ∧ (s.client n).events.closed = true
  ids : ∀ n < s.made, (s.client n).id = clientID (Int64.ofNat n)
  registered : ∀ id n, s.clients.lookup id = some n ↔
    s.Live n ∧ id = clientID (Int64.ofNat n)
  busy : ∀ n, (s.client n).phase ≠ .returned → s.Live n
  nextID : s.nextID = Int64.ofNat s.made
  count : s.clientCount = Int64.ofNat s.clients.len
  few : s.made ≤ maxInt64

theorem orderly_new (cache : Bool) : Orderly [] (newSSEBroker cache) where
  disciplined := disciplined_nil
  closes n h := absurd h List.not_mem_nil
  ids n h := absurd h (Nat.not_lt_zero n)
  registered id n := by simp [newSSEBroker, Live]
  busy n h := absurd rfl h
  nextID := rfl
  count := rfl
  few := Nat.zero_le _

section

variable {log : List (ChanOp Nat)} {s : SSEBroker} {n : Nat} {c : SSEClient}

theorem Orderly.close_notMem (h : Orderly log s) (hopen : s.Live n) : ChanOp.close n ∉ log := by
  intro hclose
  have hclosed := (h.closes n hclose).2
  rw [hopen.2] at hclosed
  cases hclosed

theorem setClient_congr {β : Type*} (f : SSEClient → β) (h : f c = f (s.client n)) (m : Nat) :
    f ((s.setClient n c).client m) = f (s.client m) := by
  by_cases hm : m = n
  · subst hm
    simpa [SSEBroker.setClient] using h
  · simp [SSEBroker.setClient, hm]

theorem Orderly.setClient (h : Orderly log s) (hid : c.id = (s.client n).id)
    (hclosed : c.events.closed = (s.client n).events.closed)
    (hphase : c.phase ≠ .returned → (s.client n).phase ≠ .returned) :
    Orderly log (s.setClient n c) ∧ ∀ m, (s.setClient n c).Live m ↔ s.Live m := by
  have hids : ∀ m, ((s.setClient n c).client m).id = (s.client m).id :=
    setClient_congr SSEClient.id hid
  have hcloseds : ∀ m,
      ((s.setClient n c).client m).events.closed = (s.client m).events.closed :=
    setClient_congr (fun c => c.events.closed) hclosed
  have hopen : ∀ m, (s.setClient n c).Live m ↔ s.Live m := by
    intro m
    rw [Live, hcloseds]
    rfl
  refine ⟨⟨h.disciplined, ?_, ?_, ?_, ?_, h.nextID, h.count, h.few⟩, hopen⟩
  · intro m hm
    rw [hcloseds]
    exact h.closes m hm
  · intro m hm
    rw [hids]
    exact h.ids m hm
  · intro id m
    rw [hopen]
    exact h.registered id m
  · intro m hm
    rw [hopen]
    apply h.busy
    by_cases hmn : m = n
    · subst hmn
      exact hphase (by simpa [SSEBroker.setClient] using hm)
    · simpa [SSEBroker.setClient, hmn] using hm

theorem Orderly.sendTo (h : Orderly log s) (hopen : s.Live n) (event : SSEEvent) :
    Orderly (log ++ (s.sendTo n event).1) (s.sendTo n event).2 ∧
      ∀ m, (s.sendTo n event).2.Live m ↔ s.Live m := by
  obtain ⟨hset, hopens⟩ := h.setClient (n := n)
    (c := { s.client n with events := ((s.client n).events.trySend event).2 })
    rfl (Chan.closed_trySend _ event) id
  refine ⟨?_, hopens⟩
  simp only [SSEBroker.sendTo]
  split
  · refine { hset with
      disciplined := h.disciplined.concat (h.close_notMem hopen)
      closes := fun m hm => hset.closes m ?_ }
    simpa using hm
  · rwa [List.append_nil]

theorem Orderly.setPhase (h : Orderly log s) (phase : SubscribePhase)
    (hphase : (s.client n).phase ≠ .returned) :
    Orderly log (s.setPhase n phase) ∧ (s.setPhase n phase).Live n := by
  obtain ⟨hset, hopens⟩ := h.setClient (n := n) (c := { s.client n with phase := phase })
    rfl rfl fun _ => hphase
  exact ⟨hset, (hopens n).mpr (h.busy n hphase)⟩

/-- A call of `Subscribe` sends to an open client. -/
theorem Orderly.proceed (h : Orderly log s) (n : Nat) (data : List (Option (List UInt8))) :
    Orderly (log ++ (s.proceed n data).1) (s.proceed n data).2 := by
  simp only [SSEBroker.proceed]
  split
  · next hphase =>
    rw [List.append_nil]
    exact (h.setPhase _ (by simp [hphase])).1
  · next event left hphase =>
    obtain ⟨hset, hopen⟩ := h.setPhase (n := n) (.snapshots left) (by simp [hphase])
    exact (hset.sendTo hopen event).1
  · next hphase =>
    obtain ⟨hset, hopen⟩ := h.setPhase (n := n) .returned (by simp [hphase])
    split
    · next data _ => exact (hset.sendTo hopen ⟨"cache_snapshots", data⟩).1
    · rwa [List.append_nil]
  · rwa [List.append_nil]

theorem Orderly.sendAll (h : Orderly log s) (event : SSEEvent) {ns : List Nat}
    (hopen : ∀ n ∈ ns, s.Live n) :
    Orderly (log ++ (sendAll event ns s).1) (sendAll event ns s).2 := by
  induction ns generalizing log s with
  | nil => rwa [SSEBroker.sendAll, List.append_nil]
  | cons n ns ih =>
    obtain ⟨hn, hns⟩ := List.forall_mem_cons.mp hopen
    obtain ⟨hsend, hopens⟩ := h.sendTo hn event
    have hrest := ih hsend fun m hm => (hopens m).mpr (hns m hm)
    rw [List.append_assoc] at hrest
    exact hrest

theorem Orderly.live_of_mem (h : Orderly log s) {order : List String}
    (hn : n ∈ s.clients.rangeValues order) : s.Live n := by
  obtain ⟨id, hid⟩ := GoMap.mem_rangeValues.mp hn
  exact ((h.registered id n).mp hid).1

theorem Orderly.broadcastAll (h : Orderly log s) (event : SSEEvent) (order : List String) :
    Orderly (log ++ (s.broadcastAll event order).1) (s.broadcastAll event order).2 :=
  h.sendAll event fun _ => h.live_of_mem

theorem Orderly.receive (h : Orderly log s) (n : Nat) : Orderly log (s.receive n) :=
  (h.setClient (c := { s.client n with events := (s.client n).events.receive }) rfl rfl id).1

theorem register_client_of_ne (h : n ≠ s.made) : s.register.client n = s.client n :=
  Function.update_of_ne h ..

theorem register_client_made :
    s.register.client s.made = ⟨clientID s.nextID, { capacity := 512 }, .registered⟩ :=
  Function.update_self ..

theorem live_register (n : Nat) : s.register.Live n ↔ s.Live n ∨ n = s.made := by
  by_cases hn : n = s.made
  · subst hn
    rw [Live, register_client_made]
    simp [SSEBroker.register]
  · rw [Live, Live, register_client_of_ne hn]
    simp only [SSEBroker.register, hn, or_false]
    exact and_congr_left fun _ => by omega

theorem Orderly.nextID_ne (h : Orderly log s) (hfew : s.made < maxInt64) (hlive : s.Live n) :
    clientID s.nextID ≠ clientID (Int64.ofNat n) := by
  intro heq
  rw [h.nextID] at heq
  have hlt := hlive.1
  have := clientID_inj hfew.le (by omega) heq
  omega

theorem Orderly.register (h : Orderly log s) (hfew : s.made < maxInt64) :
    Orderly log s.register := by
  have hid : clientID s.nextID = clientID (Int64.ofNat s.made) := congrArg clientID h.nextID
  have hfresh : s.clients.lookup (clientID s.nextID) = none := by
    rw [Option.eq_none_iff_forall_ne_some]
    intro n hn
    obtain ⟨hlive, heq⟩ := (h.registered _ n).mp hn
    exact h.nextID_ne hfew hlive heq
  refine ⟨h.disciplined, ?_, ?_, ?_, ?_, ?_, ?_, hfew⟩
  · intro n hn
    obtain ⟨hlt, hclosed⟩ := h.closes n hn
    rw [register_client_of_ne (by omega)]
    exact ⟨Nat.lt_succ_of_lt hlt, hclosed⟩
  · intro n hn
    by_cases hn' : n = s.made
    · subst hn'
      rw [register_client_made]
      exact hid
    · rw [register_client_of_ne hn']
      exact h.ids n (by simp only [SSEBroker.register] at hn; omega)
  · intro id n
    rw [live_register]
    show (s.clients.insert (clientID s.nextID) s.made).lookup id = some n ↔ _
    rw [GoMap.lookup_insert']
    split
    · next heq =>
      constructor
      · rintro ⟨⟩
        exact ⟨.inr rfl, heq.trans hid⟩
      · rintro ⟨hlive | rfl, heq'⟩
        · exact absurd (heq.symm.trans heq') (h.nextID_ne hfew hlive)
        · rfl
    · next hne =>
      rw [h.registered]
      constructor
      · rintro ⟨hlive, heq⟩
        exact ⟨.inl hlive, heq⟩
      · rintro ⟨hlive | rfl, heq⟩
        · exact ⟨hlive, heq⟩
        · exact absurd (heq.trans hid.symm) hne
  · intro n hn
    rw [live_register]
    by_cases hn' : n = s.made
    · exact .inr hn'
    · rw [register_client_of_ne hn'] at hn
      exact .inl (h.busy n hn)
  · show s.nextID + 1 = Int64.ofNat (s.made + 1)
    rw [h.nextID, Int64.ofNat_add]
    rfl
  · show s.clientCount + 1 = Int64.ofNat (GoMap.len (s.clients.insert _ _))
    rw [GoMap.len_insert hfresh, Int64.ofNat_add, h.count]
    rfl

theorem foldl_closeClient (ns : List Nat) (s : SSEBroker) :
    (ns.foldl closeClient s).made = s.made ∧ (ns.foldl closeClient s).nextID = s.nextID ∧
      ∀ m, (ns.foldl closeClient s).client m =
        if m ∈ ns then { s.client m with events := (s.client m).events.close }
        else s.client m := by
  induction ns generalizing s with
  | nil => simp
  | cons n ns ih =>
    obtain ⟨hmade, hnext, hclient⟩ := ih (s.closeClient n)
    refine ⟨hmade, hnext, fun m => (hclient m).trans ?_⟩
    by_cases hm : m = n
    · subst hm
      have hself : (s.closeClient m).client m =
          { s.client m with events := (s.client m).events.close } := Function.update_self ..
      rw [hself, if_pos List.mem_cons_self]
      split <;> rfl
    · have hother : (s.closeClient n).client m = s.client m := Function.update_of_ne hm ..
      simp only [hother, List.mem_cons, hm, false_or]

theorem Orderly.closing (h : Orderly log s) (ns : List Nat) (hnodup : ns.Nodup)
    (hopen : ∀ n ∈ ns, s.Live n) (hreturned : ∀ n ∈ ns, (s.client n).phase = .returned)
    {clients : GoMap String Nat} {count : Int64}
    (hclients : ∀ id n, clients.lookup id = some n ↔ s.clients.lookup id = some n ∧ n ∉ ns)
    (hcount : count = Int64.ofNat clients.len) :
    Orderly (log ++ ns.map .close)
      { ns.foldl closeClient s with clients := clients, clientCount := count } := by
  obtain ⟨hmade, hnext, hclient⟩ := foldl_closeClient ns s
  have hclosed : ∀ m, ((ns.foldl closeClient s).client m).events.closed = false ↔
      (s.client m).events.closed = false ∧ m ∉ ns := by
    intro m
    rw [hclient]
    split
    · next hm => simp [Chan.close, hm]
    · next hm => simp [hm]
  have hphase : ∀ m, ((ns.foldl closeClient s).client m).phase = (s.client m).phase := by
    intro m
    rw [hclient]
    split <;> rfl
  refine ⟨?_, ?_, ?_, ?_, ?_, hnext.trans (h.nextID.trans (by rw [hmade])), hcount, ?_⟩
  · apply h.disciplined.append (disciplined_map_close hnodup)
    intro op hop
    obtain ⟨n, hn, rfl⟩ := List.mem_map.mp hop
    exact h.close_notMem (hopen n hn)
  · intro n hn
    rw [← Bool.not_eq_false, hclosed, hmade]
    rw [List.mem_append] at hn
    obtain hlog | hnew := hn
    · obtain ⟨hlt, hn⟩ := h.closes n hlog
      exact ⟨hlt, by simp [hn]⟩
    · obtain ⟨n', hn', heq⟩ := List.mem_map.mp hnew
      obtain rfl := ChanOp.close.inj heq
      exact ⟨(hopen n' hn').1, fun hstill => hstill.2 hn'⟩
  · intro n hn
    have hid : ((ns.foldl closeClient s).client n).id = (s.client n).id := by
      rw [hclient]
      split <;> rfl
    exact hid.trans (h.ids n (hmade ▸ hn))
  · intro id n
    rw [hclients, h.registered, Live, Live, hclosed, hmade]
    tauto
  · intro n hn
    rw [hphase] at hn
    obtain ⟨hlt, hn'⟩ := h.busy n hn
    exact ⟨by rwa [hmade], (hclosed n).mpr ⟨hn', fun hmem => hn (hreturned n hmem)⟩⟩
  · exact hmade.symm ▸ h.few

theorem Orderly.unsubscribe (h : Orderly log s) (n : Nat) :
    Orderly (log ++ (s.unsubscribe n).1) (s.unsubscribe n).2 := by
  rw [SSEBroker.unsubscribe]
  split
  · next hreturned =>
    obtain ⟨hmade, hphase⟩ := hreturned
    split
    · next m hlookup =>
      -- the client that is registered under this ID is the one that is unsubscribed
      obtain ⟨hopen, heq⟩ := (h.registered _ m).mp hlookup
      have hfew := h.few
      have hm := hopen.1
      obtain rfl : n = m :=
        clientID_inj (by omega) (by omega) ((h.ids n hmade).symm.trans heq)
      refine h.closing [n] (List.nodup_singleton n) (by simpa using hopen)
        (by simpa using hphase) ?_ ?_
      · intro id k
        rw [GoMap.lookup_erase', List.mem_singleton]
        split
        · next hid =>
          subst hid
          rw [hlookup]
          simp [eq_comm]
        · next hid =>
          constructor
          · intro hk
            refine ⟨hk, ?_⟩
            rintro rfl
            exact hid (((h.registered id k).mp hk).2.trans heq.symm)
          · exact And.left
      · rw [h.count, ← GoMap.len_erase hlookup, Int64.ofNat_add]
        exact Int64.add_sub_cancel _ _
    · rwa [List.append_nil]
  · rwa [List.append_nil]

/-- `Stop`, when every call of `Subscribe` has returned. -/
theorem Orderly.stop (h : Orderly log s) (hcalm : ∀ n < s.made, (s.client n).phase = .returned)
    (order : List String) : Orderly (log ++ (s.stop order).1) (s.stop order).2 := by
  apply h.closing
  · apply GoMap.nodup_rangeValues
    intro id id' n hid hid'
    exact ((h.registered id n).mp hid).2.trans ((h.registered id' n).mp hid').2.symm
  · exact fun n hn => h.live_of_mem hn
  · exact fun n hn => hcalm n (h.live_of_mem hn).1
  · intro id n
    simp only [AList.lookup_empty, reduceCtorEq, false_iff, not_and, not_not]
    exact fun hid => GoMap.mem_rangeValues.mpr ⟨id, hid⟩
  · rfl

theorem Orderly.len_le (h : Orderly log s) : s.clients.len ≤ s.made := by
  rw [GoMap.len_eq_card]
  calc s.clients.keys.toFinset.card
      ≤ ((Finset.range s.made).image fun n => clientID (Int64.ofNat n)).card := by
        apply Finset.card_le_card
        intro id hid
        obtain ⟨n, hn⟩ := GoMap.mem_iff_exists_lookup.mp (List.mem_toFinset.mp hid)
        obtain ⟨hopen, rfl⟩ := (h.registered id n).mp hn
        exact Finset.mem_image_of_mem _ (Finset.mem_range.mpr hopen.1)
    _ ≤ (Finset.range s.made).card := Finset.card_image_le
    _ = s.made := Finset.card_range _

end

/-- `Stop` is called when every call of `Subscribe` has returned, and there are no more than
`maxInt64` of those calls. Only sufficient: a `Stop` in between does no harm when no snapshot is
sent after it. -/
def Calm (s : SSEBroker) : SSEAction → Prop
  | .subscribe => s.made < maxInt64
  | .stop _ => ∀ n < s.made, (s.client n).phase = .returned
  | _ => True

instance (s : SSEBroker) : (op : SSEAction) → Decidable (Calm s op)
  | .subscribe => inferInstanceAs (Decidable (_ < _))
  | .stop _ => inferInstanceAs (Decidable (∀ n < s.made, (s.client n).phase = .returned))
  | .proceed .. | .unsubscribe _ | .broadcastAll .. | .receive _ => isTrue trivial

theorem Orderly.step {log : List (ChanOp Nat)} {s : SSEBroker} (h : Orderly log s)
    {op : SSEAction} (hop : Calm s op) :
    Orderly (log ++ (sse.step s op).1) (sse.step s op).2 := by
  cases op with
  | subscribe =>
    show Orderly (log ++ []) s.register
    rw [List.append_nil]
    exact h.register hop
  | proceed n data => exact h.proceed n data
  | unsubscribe n => exact h.unsubscribe n
  | broadcastAll event order => exact h.broadcastAll event order
  | receive n =>
    show Orderly (log ++ []) (s.receive n)
    rw [List.append_nil]
    exact h.receive n
  | stop order => exact h.stop hop order

theorem orderly_run {cache : Bool} {ops : List SSEAction}
    (hops : sse.Steps Calm (newSSEBroker cache) ops) :
    Orderly (channelLog (newSSEBroker cache) ops) (sse.run (newSSEBroker cache) ops) :=
  sse.collect_of_steps Orderly (fun _ _ _ hop h => h.step hop) hops (orderly_new cache)

/-- In every interleaving in which `Stop` does not come in between the steps of a `Subscribe`,
no channel is closed twice or sent on after it was closed, and whenever the lock is free the
counter is the number of registered clients. -/
theorem sse_discipline {cache : Bool} {ops : List SSEAction}
    (hops : sse.Steps Calm (newSSEBroker cache) ops) :
    Disciplined (channelLog (newSSEBroker cache) ops) ∧
      ∀ before after, ops = before ++ after →
        (sse.run (newSSEBroker cache) before).clientCount.toInt =
          (sse.run (newSSEBroker cache) before).clients.len := by
  refine ⟨(orderly_run hops).disciplined, ?_⟩
  rintro before after rfl
  have h := orderly_run ((sse.steps_append Calm _ before after).mp hops).1
  rw [h.count, toInt_ofNat_of_le (h.len_le.trans h.few)]

def calmRun : List SSEAction :=
  [.subscribe, .proceed 0 [some [1], none], .subscribe, .proceed 0 [], .proceed 0 [some [2]],
    .proceed 1 [], .proceed 1 [none], .broadcastAll ⟨"metrics", [3]⟩ ["sse-1"], .unsubscribe 0,
    .unsubscribe 0, .receive 1, .stop [], .subscribe]

theorem sse_discipline_calmRun :
    Disciplined (channelLog (newSSEBroker true) calmRun) ∧
      (sse.run (newSSEBroker true) calmRun).clientCount.toInt =
        (sse.run (newSSEBroker true) calmRun).clients.len :=
  have h := sse_discipline (show sse.Steps Calm (newSSEBroker true) calmRun by decide +kernel)
  ⟨h.1, h.2 calmRun [] (List.append_nil _).symm⟩

/-- `Stop` closes the channel of a client whose `Subscribe` then sends a snapshot to it. -/
theorem stop_during_subscribe :
    channelLog (newSSEBroker false)
        [.subscribe, .proceed 0 [some [1]], .stop [], .proceed 0 []] = [.close 0, .send 0] ∧
      ¬ Disciplined (channelLog (newSSEBroker false)
        [.subscribe, .proceed 0 [some [1]], .stop [], .proceed 0 []]) := by
  decide +kernel

end Torii.App
