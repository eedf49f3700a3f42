import Torii.Bus.EventBus

/-!
# Every event is delivered exactly once

Fix a publication and a subscription. What is owed is spread over the first channel, the dispatch
workers, the second channel and the calls already made, and no step changes the total while the
subscription is live (`owed_step`).
-/

namespace Torii.Bus

/-! ## What is never wrong -/

/-- The event of the job has the topic of its callback. -/
def HandlerJob.Rightful (l : Listeners) (job : HandlerJob) : Prop :=
  ∃ topic ∈ job.event.event.topic, l.topicOf job.handler = some topic

/-- What holds in every run: callbacks are those of the right topics, and the numbers of events
are old ones. -/
structure Sound (log : List HandlerJob) (s : EventBus) : Prop where
  ok : s.listeners.Ok
  underway : s.queues.All (·.number < s.accepted)
    fun job => job.event.number < s.accepted ∧ job.Rightful s.listeners
  called : ∀ job ∈ log, job.event.number < s.accepted ∧ job.Rightful s.listeners

theorem sound_startedBus : Sound [] startedBus where
  ok := Listeners.ok_empty
  underway := Pipeline.all_empty
  called _ hjob := absurd hjob List.not_mem_nil

section

variable {log : List HandlerJob} {s : EventBus}

theorem Sound.listeners (h : Sound log s) {l : Listeners} (hl : l.Ok)
    (htopic : ∀ n topic, s.listeners.topicOf n = some topic → l.topicOf n = some topic) :
    Sound log { s with listeners := l } := by
  have hright : ∀ job : HandlerJob, job.event.number < s.accepted ∧ job.Rightful s.listeners →
      job.event.number < s.accepted ∧ job.Rightful l := by
    rintro job ⟨hnumber, topic, hmem, hjob⟩
    exact ⟨hnumber, topic, hmem, htopic _ _ hjob⟩
  exact ⟨hl, h.underway.mono (fun _ hx => hx) hright,
    fun job hjob => hright job (h.called job hjob)⟩

theorem Sound.subscribe (h : Sound log s) (topic : Topic) (handlerIsNil : Bool)
    (hroom : (s.subscribe topic handlerIsNil).2.listeners.returned.length < UInt32.size) :
    Sound log (s.subscribe topic handlerIsNil).2 := by
  rw [EventBus.subscribe] at hroom ⊢
  split_ifs at hroom ⊢
  · exact h
  · exact h
  · exact h
  · rw [Listeners.length_returned_subscribe] at hroom
    exact h.listeners (h.ok.subscribe topic hroom)
      fun n t hn => Listeners.topicOf_subscribe hn topic

theorem Sound.unsubscribe (h : Sound log s) {n : Nat}
    (hn : (s.listeners.returned[n]?).map UnsubscribeFunc.calls = some 0) :
    Sound log { s with listeners := s.listeners.unsubscribe n } := by
  obtain ⟨f, hf, hcalls⟩ := Option.map_eq_some_iff.mp hn
  apply h.listeners (h.ok.unsubscribe hf hcalls)
  intro n' topic hn'
  rw [Listeners.topicOf_unsubscribe]
  exact hn'

theorem Sound.publish (h : Sound log s) (evt : Event) : Sound log (s.publish evt).2 := by
  rw [EventBus.publish]
  split
  · exact h
  · split
    · next queues hqueues =>
      have hold : s.queues.All (·.number < s.accepted + 1)
          fun job => job.event.number < s.accepted + 1 ∧ job.Rightful s.listeners :=
        h.underway.mono (fun _ => Nat.lt_succ_of_lt) fun _ hjob =>
          ⟨Nat.lt_succ_of_lt hjob.1, hjob.2⟩
      exact ⟨h.ok, hold.accept (Nat.lt_succ_self _) hqueues,
        fun job hjob => ⟨Nat.lt_succ_of_lt (h.called job hjob).1, (h.called job hjob).2⟩⟩
    · exact h

theorem Sound.dispatch (h : Sound log s) (i : Fin numberOfWorkers)
    (orders : List (List UInt32)) : Sound log (s.dispatchMessages i orders) := by
  refine ⟨h.ok, h.underway.senderStep ?_ i, h.called⟩
  intro x hx job hjob
  obtain ⟨n, hn, rfl⟩ := List.mem_map.mp hjob
  exact ⟨hx, h.ok.topicOf_of_mem_handlers hn⟩

theorem Sound.handle (h : Sound log s) (i : Fin numberOfWorkers) :
    Sound (log ++ (s.handleMessages i).1.toList) (s.handleMessages i).2 := by
  obtain ⟨hjob, hqueues⟩ := h.underway.runnerStep i
  refine ⟨h.ok, hqueues, ?_⟩
  intro job hmem
  rcases List.mem_append.mp hmem with hmem | hmem
  · exact h.called job hmem
  · exact hjob job (Option.mem_toList.mp hmem)

theorem Sound.step (h : Sound log s) {op : BusAction} (hop : Proper s op) :
    Sound (log ++ (bus.step s op).1.invoked) (bus.step s op).2 := by
  cases op with
  | subscribe topic handlerIsNil => simpa using h.subscribe topic handlerIsNil hop
  | unsubscribe n => simpa using h.unsubscribe hop
  | publish evt => simpa using h.publish evt
  | dispatch i orders => simpa using h.dispatch i orders
  | handle i panics => exact h.handle i

end

/-! ## What a subscription is owed -/

section

variable {P : Published} {n : Nat} {topic : Topic} {log : List HandlerJob} {s : EventBus}

def weight (P : Published) (n : Nat) (job : HandlerJob) : Nat := if job = ⟨P, n⟩ then 1 else 0

def due (P : Published) (topic : Topic) (x : Published) : Nat :=
  if x = P then x.event.topic.count topic else 0

def owed (P : Published) (n : Nat) (topic : Topic) (log : List HandlerJob) (s : EventBus) : Nat :=
  (log.map (weight P n)).sum + s.queues.load (due P topic) (weight P n)

theorem sum_weight (P : Published) (n : Nat) (jobs : List HandlerJob) :
    (jobs.map (weight P n)).sum = jobs.count ⟨P, n⟩ := by
  induction jobs with
  | nil => rfl
  | cons job jobs ih =>
    rw [List.map_cons, List.sum_cons, ih, List.count_cons, weight, Nat.add_comm]
    simp only [beq_iff_eq]

theorem sum_weight_jobs (hok : s.listeners.Ok) (hlive : s.listeners.Live n topic)
    (orders : List (List UInt32)) (x : Published) :
    ((s.jobs orders x).map (weight P n)).sum = due P topic x := by
  rw [sum_weight, EventBus.jobs, due]
  split
  · next heq =>
    subst heq
    have hinj : Function.Injective fun handler => HandlerJob.mk x handler :=
      fun _ _ h => (HandlerJob.mk.inj h).2
    rw [List.count_map_of_injective _ _ hinj]
    exact hok.count_handlers orders _ hlive
  · next hne =>
    apply List.count_eq_zero_of_not_mem
    intro hmem
    obtain ⟨_, -, heq⟩ := List.mem_map.mp hmem
    exact hne (HandlerJob.mk.inj heq).1

theorem owed_publish (evt : Event) :
    owed P n topic log (s.publish evt).2 = owed P n topic log s +
      if (s.publish evt).1 = true then due P topic ⟨s.accepted, evt⟩ else 0 := by
  rw [EventBus.publish]
  split
  · rfl
  · split
    · next queues hqueues =>
      simp only [owed, Pipeline.load_accept hqueues, if_true]
      omega
    · rfl

theorem owed_step (hok : s.listeners.Ok) (hlive : s.listeners.Live n topic) {op : BusAction}
    (hpublish : ∀ evt, op = .publish evt → s.accepted ≠ P.number) :
    owed P n topic (log ++ (bus.step s op).1.invoked) (bus.step s op).2 =
      owed P n topic log s := by
  cases op with
  | subscribe =>
    simp only [step_subscribe, BusReply.invoked, List.append_nil, owed]
    rw [EventBus.subscribe]
    split_ifs <;> rfl
  | unsubscribe n' => simp [owed]
  | publish evt =>
    have hne : (⟨s.accepted, evt⟩ : Published) ≠ P :=
      fun heq => hpublish evt rfl (congrArg Published.number heq)
    simp [owed_publish, due, hne]
  | dispatch i orders =>
    simp only [step_dispatch, BusReply.invoked, List.append_nil, owed, EventBus.dispatchMessages]
    rw [Pipeline.load_senderStep (sum_weight_jobs hok hlive orders)]
  | handle =>
    simp [step_handle, owed, EventBus.handleMessages, List.map_append, Nat.add_assoc,
      Pipeline.load_runnerStep]

/-- Before a publication is accepted nothing is owed of it. -/
theorem owed_eq_zero (h : Sound log s) (hP : P.number = s.accepted) :
    owed P n topic log s = 0 := by
  have hweight : ∀ job : HandlerJob, job.event.number < s.accepted → weight P n job = 0 := by
    intro job hjob
    apply if_neg
    rintro rfl
    exact Nat.lt_irrefl _ (hP ▸ hjob)
  have hdue : ∀ x : Published, x.number < s.accepted → due P topic x = 0 := by
    intro x hx
    apply if_neg
    rintro rfl
    exact Nat.lt_irrefl _ (hP ▸ hx)
  have hload : s.queues.load (due P topic) (weight P n) = 0 :=
    Pipeline.load_eq_zero (h.underway.mono hdue fun job hjob => hweight job hjob.1)
  have hlog : (log.map (weight P n)).sum = 0 := by
    apply List.sum_eq_zero
    intro w hw
    obtain ⟨job, hjob, rfl⟩ := List.mem_map.mp hw
    exact hweight job (h.called job hjob).1
  rw [owed, hlog, hload]

theorem accepted_le_step (s : EventBus) (op : BusAction) :
    s.accepted ≤ (bus.step s op).2.accepted := by
  cases op with
  | subscribe =>
    simp only [step_subscribe, EventBus.subscribe]
    split_ifs <;> exact Nat.le_refl _
  | publish evt =>
    simp only [step_publish, EventBus.publish]
    split
    · exact Nat.le_refl _
    · split
      · exact Nat.le_succ _
      · exact Nat.le_refl _
  | _ => exact Nat.le_refl _

theorem listeners_step (s : EventBus) (op : BusAction) :
    (bus.step s op).2.listeners = s.listeners ∨
      (∃ topic, (bus.step s op).2.listeners = s.listeners.subscribe topic) ∨
      ∃ n, (bus.step s op).2.listeners = s.listeners.unsubscribe n := by
  cases op with
  | subscribe topic handlerIsNil =>
    simp only [step_subscribe, EventBus.subscribe]
    split_ifs
    · exact .inl rfl
    · exact .inl rfl
    · exact .inl rfl
    · exact .inr (.inl ⟨topic, rfl⟩)
  | unsubscribe n => exact .inr (.inr ⟨n, rfl⟩)
  | publish evt =>
    simp only [step_publish, EventBus.publish]
    split
    · exact .inl rfl
    · split
      · exact .inl rfl
      · exact .inl rfl
  | dispatch | handle => exact .inl rfl

theorem live_of_step {op : BusAction} (hknown : n < s.listeners.returned.length)
    (h : (bus.step s op).2.listeners.Live n topic) : s.listeners.Live n topic := by
  rcases listeners_step s op with heq | ⟨topic', heq⟩ | ⟨n', heq⟩
  · rwa [heq] at h
  · rw [heq] at h
    exact h.of_subscribe hknown
  · rw [heq] at h
    exact h.of_unsubscribe

theorem known_step (op : BusAction) (hknown : n < s.listeners.returned.length) :
    n < (bus.step s op).2.listeners.returned.length := by
  rcases listeners_step s op with heq | ⟨topic', heq⟩ | ⟨n', heq⟩
  · rwa [heq]
  · rw [heq, Listeners.length_returned_subscribe]
    exact Nat.lt_succ_of_lt hknown
  · rwa [heq, Listeners.length_returned_unsubscribe]

structure Pending (P : Published) (n : Nat) (topic : Topic) (log : List HandlerJob)
    (s : EventBus) : Prop where
  sound : Sound log s
  number : P.number < s.accepted
  known : n < s.listeners.returned.length
  owed : s.listeners.Live n topic → owed P n topic log s = P.event.topic.count topic

theorem Pending.step (h : Pending P n topic log s) {op : BusAction} (hop : Proper s op) :
    Pending P n topic (log ++ (bus.step s op).1.invoked) (bus.step s op).2 := by
  refine ⟨h.sound.step hop, Nat.lt_of_lt_of_le h.number (accepted_le_step s op),
    known_step op h.known, ?_⟩
  intro hlive
  have hbefore := live_of_step h.known hlive
  rw [owed_step h.sound.ok hbefore fun _ _ heq => Nat.lt_irrefl _ (heq ▸ h.number)]
  exact h.owed hbefore

theorem Sound.pending (h : Sound log s) {evt : Event} (haccepted : (s.publish evt).1 = true)
    (hlive : s.listeners.Live n topic) :
    Pending ⟨s.accepted, evt⟩ n topic log (s.publish evt).2 := by
  obtain ⟨f, hf, -, -⟩ := hlive
  refine ⟨h.publish evt, ?_, known_step (.publish evt) (List.getElem?_eq_some_iff.mp hf).1, ?_⟩
  · rw [EventBus.publish] at haccepted ⊢
    split at haccepted
    · cases haccepted
    · split at haccepted
      · simp_all
      · cases haccepted
  · intro _
    rw [owed_publish, if_pos haccepted, owed_eq_zero h rfl, due, if_pos rfl, Nat.zero_add]

end

/-- In every interleaving, callbacks are called for events with their topic only; and when
nothing is under way, a subscription that was live from before an accepted publication until
then has been called for it once for each occurrence of its topic. -/
theorem delivered_exactly_once {ops : List BusAction} (hops : bus.Steps Proper startedBus ops) :
    (∀ job ∈ invocations startedBus ops, job.Rightful (bus.run startedBus ops).listeners) ∧
    ((bus.run startedBus ops).queues.Quiet →
      ∀ before evt after n topic, ops = before ++ .publish evt :: after →
        ((bus.run startedBus before).publish evt).1 = true →
        (bus.run startedBus before).listeners.Live n topic →
        (bus.run startedBus ops).listeners.Live n topic →
        (invocations startedBus ops).count ⟨⟨(bus.run startedBus before).accepted, evt⟩, n⟩ =
          evt.topic.count topic) := by
  have hsound : ∀ ops, bus.Steps Proper startedBus ops →
      Sound (invocations startedBus ops) (bus.run startedBus ops) := fun ops hops =>
    bus.collect_of_steps Sound (fun _ _ _ hop h => h.step hop) hops sound_startedBus
  refine ⟨fun job hjob => ((hsound ops hops).called job hjob).2, ?_⟩
  rintro hquiet before evt after n topic rfl haccepted hbefore hafter
  rw [Machine.steps_append] at hops
  obtain ⟨hops, -, hrest⟩ := hops
  have hstart := (hsound before hops).pending haccepted hbefore
  -- from the publication on, the total of what is owed stays the same
  have hend : Pending ⟨(bus.run startedBus before).accepted, evt⟩ n topic
      (invocations startedBus (before ++ .publish evt :: after))
      (bus.run startedBus (before ++ .publish evt :: after)) := by
    have hlog := bus.collect_of_steps
      (fun tail => Pending ⟨(bus.run startedBus before).accepted, evt⟩ n topic
        (invocations startedBus before ++ tail))
      (fun tail s op hop h => by
        rw [← List.append_assoc]
        exact h.step hop) hrest (by simpa using hstart)
    rw [invocations, Machine.collect_append, Machine.run_append]
    exact hlog
  have howed := hend.owed hafter
  rw [owed, sum_weight, Pipeline.load_of_quiet hquiet, Nat.add_zero] at howed
  exact howed

def deliveryExample : List BusAction :=
  [.subscribe "a" false, .publish ⟨["a", "b", "a"]⟩, .dispatch 3 [], .dispatch 3 [],
    .dispatch 3 [], .dispatch 3 [], .dispatch 3 [], .handle 0 true, .handle 1 false,
    .handle 0 true, .handle 1 false]

theorem delivered_exactly_once_twice :
    (invocations startedBus deliveryExample).count ⟨⟨0, ⟨["a", "b", "a"]⟩⟩, 0⟩ = 2 :=
  (delivered_exactly_once
    (show bus.Steps Proper startedBus deliveryExample by decide +kernel)).2
    ⟨by decide +kernel, by decide +kernel, by decide +kernel, by decide +kernel⟩
    [.subscribe "a" false] ⟨["a", "b", "a"]⟩ _ 0 "a" rfl (by decide +kernel)
    ⟨_, rfl, rfl, rfl⟩ ⟨_, rfl, rfl, rfl⟩

end Torii.Bus
