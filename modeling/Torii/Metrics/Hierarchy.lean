import Torii.Metrics.Connection

/-!
# The hierarchy of metric nodes

From the parent pointers, a report reaches exactly the nodes of the lineage of the name it is
addressed to (`update_node`). A listener is removed with all its nodes at once, so no child is left
behind.
-/

namespace Torii.Metrics

open Go Strconv Manager

def Bound (h : Manager) (name : String) (p : Nat) (node : ConnectionMetric) : Prop :=
  h.connectionMetricsMap.lookup name = some p ∧ h.heap[p]? = some node

structure WellFormed (h : Manager) : Prop where
  node : ∀ name p, h.connectionMetricsMap.lookup name = some p →
    ∃ node, h.heap[p]? = some node ∧ node.connectionName = name
  global : ∃ p, h.connectionMetricsMap.lookup globalMetricsConName = some p
  root : ∀ p node, Bound h globalMetricsConName p node → node.parentMetric = none
  parent : ∀ name p node, Bound h name p node → name ≠ globalMetricsConName →
    ∃ q, node.parentMetric = some q ∧ q < p ∧
      h.connectionMetricsMap.lookup (deriveParentMetricName name) = some q
  server : ∀ name p node, Bound h name p node → name ≠ globalMetricsConName →
    ∃ port, node.serverId = serverIdOf port ∧ Family port name

theorem lookup_addConnectionMetric (h : Manager) (serverId name : String) (parent : Option Nat)
    (a : String) : (h.addConnectionMetric serverId name parent).connectionMetricsMap.lookup a =
      if a = name then some h.heap.length else h.connectionMetricsMap.lookup a :=
  GoMap.lookup_insert' _ _ _ _

theorem getElem?_addConnectionMetric (h : Manager) (serverId name : String)
    (parent : Option Nat) : (h.addConnectionMetric serverId name parent).heap[h.heap.length]? =
      some ⟨serverId, .new name, name, parent⟩ := by
  simp [addConnectionMetric]

theorem lookup_new (a : String) : new.connectionMetricsMap.lookup a =
    if a = globalMetricsConName then some 0 else none :=
  lookup_addConnectionMetric ⟨[], ∅⟩ _ _ _ a

theorem wellFormed_new : WellFormed new where
  node := by
    intro name p hp
    rw [lookup_new] at hp
    split at hp
    · next hname =>
      cases hp
      exact ⟨_, rfl, hname.symm⟩
    · cases hp
  global := ⟨0, by rw [lookup_new, if_pos rfl]⟩
  root := by
    rintro p node ⟨hp, hnode⟩
    rw [lookup_new, if_pos rfl] at hp
    cases hp
    cases hnode
    rfl
  parent := by
    rintro name p node ⟨hp, -⟩ hname
    rw [lookup_new, if_neg hname] at hp
    cases hp
  server := by
    rintro name p node ⟨hp, -⟩ hname
    rw [lookup_new, if_neg hname] at hp
    cases hp

variable {h : Manager} {name : String} {node : ConnectionMetric} {p : Nat}
  {heap : List ConnectionMetric} {port : Int} {cur : Option Nat} {ps : List Nat} {h' : Manager}

theorem derive_ne_empty_of_family (hfam : Family port name) : deriveParentMetricName name ≠ "" := by
  rcases hfam.deriveParentMetricName with hparent | hparent
  · exact family_ne_empty hparent
  · rw [hparent]
    decide

namespace WellFormed

variable {h : Manager}

theorem lt_length (wf : WellFormed h) (hp : h.connectionMetricsMap.lookup name = some p) :
    p < h.heap.length := by
  obtain ⟨node, hnode, -⟩ := wf.node name p hp
  exact (List.getElem?_eq_some_iff.mp hnode).1

theorem name_eq (wf : WellFormed h) {a b : String} (ha : h.connectionMetricsMap.lookup a = some p)
    (hb : h.connectionMetricsMap.lookup b = some p) : a = b := by
  obtain ⟨node, hnode, rfl⟩ := wf.node a p ha
  obtain ⟨node', hnode', rfl⟩ := wf.node b p hb
  rw [hnode] at hnode'
  cases hnode'
  rfl

theorem derive_ne_empty (wf : WellFormed h) (hb : Bound h name p node)
    (hname : name ≠ globalMetricsConName) : deriveParentMetricName name ≠ "" := by
  obtain ⟨port, -, hfam⟩ := wf.server name p node hb hname
  exact derive_ne_empty_of_family hfam

end WellFormed

/-- The manager grew: old names keep their nodes, and new names have fresh ones. -/
structure Grown (h h' : Manager) : Prop where
  heap : ∃ nodes, h'.heap = h.heap ++ nodes
  old : ∀ name p, h.connectionMetricsMap.lookup name = some p →
    h'.connectionMetricsMap.lookup name = some p
  fresh : ∀ name p, h'.connectionMetricsMap.lookup name = some p →
    h.connectionMetricsMap.lookup name = some p ∨
      h.heap.length ≤ p ∧ ∃ node, h'.heap[p]? = some node ∧
        node.accumulatedMetrics = .new name

theorem Grown.refl (h : Manager) : Grown h h :=
  ⟨⟨[], by simp⟩, fun _ _ hp => hp, fun _ _ hp => .inl hp⟩

theorem Grown.trans {h'' : Manager} (h₁ : Grown h h') (h₂ : Grown h' h'') : Grown h h'' where
  heap := by
    obtain ⟨xs, hxs⟩ := h₁.heap
    obtain ⟨ys, hys⟩ := h₂.heap
    exact ⟨xs ++ ys, by rw [hys, hxs, List.append_assoc]⟩
  old name p hp := h₂.old name p (h₁.old name p hp)
  fresh := by
    intro name p hp
    obtain ⟨xs, hxs⟩ := h₁.heap
    obtain ⟨ys, hys⟩ := h₂.heap
    rcases h₂.fresh name p hp with hp | ⟨hle, hnode⟩
    · rcases h₁.fresh name p hp with hp | ⟨hle, node, hnode, hmetric⟩
      · exact .inl hp
      · refine .inr ⟨hle, node, ?_, hmetric⟩
        rw [hys, List.getElem?_append_left (List.getElem?_eq_some_iff.mp hnode).1, hnode]
    · refine .inr ⟨?_, hnode⟩
      rw [hxs, List.length_append] at hle
      omega

theorem Grown.bound (hgrown : Grown h h') (wf : WellFormed h) (hb : Bound h' name p node) :
    Bound h name p node ∨ h.heap.length ≤ p ∧ node.accumulatedMetrics = .new name := by
  obtain ⟨hp, hnode⟩ := hb
  obtain hold | ⟨hle, node', hnode', hmetric⟩ := hgrown.fresh name p hp
  · obtain ⟨nodes, hnodes⟩ := hgrown.heap
    rw [hnodes, List.getElem?_append_left (wf.lt_length hold)] at hnode
    exact .inl ⟨hold, hnode⟩
  · rw [hnode] at hnode'
    cases hnode'
    exact .inr ⟨hle, hmetric⟩

section

variable {h : Manager} {serverId name : String} {parent : Option Nat}

theorem grown_addConnectionMetric (hname : h.connectionMetricsMap.lookup name = none) :
    Grown h (h.addConnectionMetric serverId name parent) where
  heap := ⟨_, rfl⟩
  old := by
    intro a p hp
    rw [lookup_addConnectionMetric]
    split
    · next ha =>
      rw [ha, hname] at hp
      cases hp
    · exact hp
  fresh := by
    intro a p hp
    rw [lookup_addConnectionMetric] at hp
    split at hp
    · next ha =>
      cases hp
      exact .inr ⟨Nat.le_refl _, _, getElem?_addConnectionMetric _ _ _ _, by rw [ha]⟩
    · exact .inl hp

theorem bound_addConnectionMetric {a : String} (wf : WellFormed h)
    (hb : Bound (h.addConnectionMetric serverId name parent) a p node) :
    a = name ∧ p = h.heap.length ∧ node = ⟨serverId, .new name, name, parent⟩ ∨
      a ≠ name ∧ Bound h a p node := by
  obtain ⟨hp, hnode⟩ := hb
  rw [lookup_addConnectionMetric] at hp
  split at hp
  · next ha =>
    cases hp
    rw [getElem?_addConnectionMetric] at hnode
    exact .inl ⟨ha, rfl, (Option.some.inj hnode).symm⟩
  · next ha =>
    rw [addConnectionMetric, List.getElem?_append_left (wf.lt_length hp)] at hnode
    exact .inr ⟨ha, hp, hnode⟩

/-- A node of a port whose parent is tracked can be added. -/
theorem wellFormed_addConnectionMetric (wf : WellFormed h) {q : Nat}
    (hname : h.connectionMetricsMap.lookup name = none) (hfam : Family port name)
    (hparent : h.connectionMetricsMap.lookup (deriveParentMetricName name) = some q) :
    WellFormed (h.addConnectionMetric (serverIdOf port) name (some q)) where
  node := by
    intro a p hp
    rw [lookup_addConnectionMetric] at hp
    split at hp
    · next ha =>
      cases hp
      exact ⟨_, getElem?_addConnectionMetric _ _ _ _, ha.symm⟩
    · obtain ⟨node, hnode, hconn⟩ := wf.node a p hp
      refine ⟨node, ?_, hconn⟩
      rw [addConnectionMetric, List.getElem?_append_left (wf.lt_length hp), hnode]
  global := by
    obtain ⟨p, hp⟩ := wf.global
    exact ⟨p, (grown_addConnectionMetric hname).old _ p hp⟩
  root := by
    intro p node hb
    rcases bound_addConnectionMetric wf hb with ⟨hglobal, -⟩ | ⟨-, hb⟩
    · exact absurd hglobal.symm (family_ne_global hfam)
    · exact wf.root p node hb
  parent := by
    intro a p node hb ha
    rcases bound_addConnectionMetric wf hb with ⟨rfl, rfl, rfl⟩ | ⟨-, hb⟩
    · exact ⟨q, rfl, wf.lt_length hparent, (grown_addConnectionMetric hname).old _ q hparent⟩
    · obtain ⟨q', hq', hlt, hlookup⟩ := wf.parent a p node hb ha
      exact ⟨q', hq', hlt, (grown_addConnectionMetric hname).old _ q' hlookup⟩
  server := by
    intro a p node hb ha
    rcases bound_addConnectionMetric wf hb with ⟨rfl, -, rfl⟩ | ⟨-, hb⟩
    · exact ⟨port, rfl, hfam⟩
    · exact wf.server a p node hb ha

end

/-- What tracking a name of a port does: it only adds nodes, for the name and its ancestors,
and the name is tracked afterwards. -/
structure TrackedInto (h : Manager) (name : String) (h' : Manager) : Prop where
  wellFormed : WellFormed h'
  grown : Grown h h'
  tracked : ∃ p, h'.connectionMetricsMap.lookup name = some p
  deeper : ∀ a, rank name < rank a → h.connectionMetricsMap.lookup a = none →
    h'.connectionMetricsMap.lookup a = none

theorem trackedInto_addConnectionMetric (wf : WellFormed h) {q : Nat} (hfam : Family port name)
    (hname : h.connectionMetricsMap.lookup name = none)
    (hparent : h.connectionMetricsMap.lookup (deriveParentMetricName name) = some q) :
    TrackedInto h name (h.addConnectionMetric (serverIdOf port) name (some q)) where
  wellFormed := wellFormed_addConnectionMetric wf hname hfam hparent
  grown := grown_addConnectionMetric hname
  tracked := ⟨h.heap.length, by rw [lookup_addConnectionMetric, if_pos rfl]⟩
  deeper := by
    intro a hrank ha
    rw [lookup_addConnectionMetric, if_neg, ha]
    rintro rfl
    omega

theorem TrackedInto.child {g : Manager} (hfam : Family port name)
    (hg : TrackedInto h (deriveParentMetricName name) g)
    (hname : h.connectionMetricsMap.lookup name = none) {q : Nat}
    (hq : g.connectionMetricsMap.lookup (deriveParentMetricName name) = some q) :
    TrackedInto h name (g.addConnectionMetric (serverIdOf port) name (some q)) := by
  have hlt := rank_derive_lt (derive_ne_empty_of_family hfam)
  have hadd := trackedInto_addConnectionMetric hg.wellFormed hfam (hg.deeper name hlt hname) hq
  refine ⟨hadd.wellFormed, hg.grown.trans hadd.grown, hadd.tracked, ?_⟩
  intro a ha hnone
  exact hadd.deeper a ha (hg.deeper a (Nat.lt_trans hlt ha) hnone)

theorem trackToDepth_spec (depth : Nat) (wf : WellFormed h) (hfam : Family port name)
    (hdepth : rank name ≤ depth) :
    ∃ h', trackToDepth depth h (serverIdOf port) name = some h' ∧ TrackedInto h name h' := by
  induction depth generalizing h name with
  | zero =>
    unfold rank at hdepth
    split at hdepth <;> omega
  | succ depth ih =>
    rw [trackToDepth]
    cases hname : h.connectionMetricsMap.lookup name with
    | some p => exact ⟨h, rfl, wf, .refl h, ⟨p, hname⟩, fun _ _ ha => ha⟩
    | none =>
      have hne := derive_ne_empty_of_family hfam
      simp only [ne_eq, hne, not_false_eq_true, if_true]
      cases hparent : h.connectionMetricsMap.lookup (deriveParentMetricName name) with
      | some q => exact ⟨_, rfl, trackedInto_addConnectionMetric wf hfam hname hparent⟩
      | none =>
        -- the global node is always tracked, so the missing parent is of the port
        have hparentFam : Family port (deriveParentMetricName name) := by
          obtain hfam' | hglobal := hfam.deriveParentMetricName
          · exact hfam'
          · obtain ⟨p, hp⟩ := wf.global
            rw [hglobal, hp] at hparent
            cases hparent
        have hrank := rank_derive_lt hne
        obtain ⟨g, hg, hinto⟩ := ih wf hparentFam (by omega)
        obtain ⟨q, hq⟩ := hinto.tracked
        simp only [hg, hq]
        exact ⟨_, rfl, hinto.child hfam hname hq⟩

variable {serverId a : String}

theorem bound_of_remove (hb : Bound (h.removeMetricsForServer serverId) a p node) :
    Bound h a p node ∧ (a ≠ globalMetricsConName → node.serverId ≠ serverId) := by
  obtain ⟨hp, hnode⟩ := hb
  change h.heap[p]? = some node at hnode
  rw [removeMetricsForServer, GoMap.lookup_filter, Option.filter_eq_some_iff] at hp
  refine ⟨⟨hp.1, hnode⟩, ?_⟩
  intro hname hserver
  simp [hnode, hserver, hname] at hp

/-- The global node and the nodes of other listeners stay. -/
theorem lookup_remove (hb : Bound h a p node)
    (hkept : a = globalMetricsConName ∨ node.serverId ≠ serverId) :
    (h.removeMetricsForServer serverId).connectionMetricsMap.lookup a = some p := by
  rw [removeMetricsForServer, GoMap.lookup_filter, Option.filter_eq_some_iff]
  refine ⟨hb.1, ?_⟩
  simp only [hb.2, Option.map_some, Option.some.injEq, Bool.not_eq_true', decide_eq_false_iff_not]
  rintro ⟨hserver, hname⟩
  exact hkept.elim hname fun hne => hne hserver

theorem wellFormed_remove (wf : WellFormed h) (port : Int) :
    WellFormed (h.removeMetricsForServer (serverIdOf port)) where
  node := by
    intro a p hp
    rw [removeMetricsForServer, GoMap.lookup_filter, Option.filter_eq_some_iff] at hp
    exact wf.node a p hp.1
  global := by
    obtain ⟨p, hp⟩ := wf.global
    obtain ⟨node, hnode, -⟩ := wf.node _ p hp
    exact ⟨p, lookup_remove ⟨hp, hnode⟩ (.inl rfl)⟩
  root p node hb := wf.root p node (bound_of_remove hb).1
  parent := by
    intro a p node hb hname
    obtain ⟨hold, hother⟩ := bound_of_remove hb
    obtain ⟨q, hq, hlt, hparent⟩ := wf.parent a p node hold hname
    obtain ⟨parentNode, hparentNode, -⟩ := wf.node _ q hparent
    refine ⟨q, hq, hlt, lookup_remove ⟨hparent, hparentNode⟩ ?_⟩
    -- the parent is global, or it carries the same port and so the same listener
    obtain ⟨port', hserver, hfam⟩ := wf.server a p node hold hname
    obtain hparentFam | hglobal := hfam.deriveParentMetricName
    · obtain ⟨port'', hserver', hfam'⟩ :=
        wf.server _ q parentNode ⟨hparent, hparentNode⟩ (family_ne_global hparentFam)
      have hport : port'' = port' := hfam'.port_eq hparentFam
      rw [hserver', hport, ← hserver]
      exact .inr (hother hname)
    · exact .inl hglobal
  server a p node hb := wf.server a p node (bound_of_remove hb).1

/-! ### What a report reaches -/

def addReport (metric : RequestMetric) (node : ConnectionMetric) : ConnectionMetric :=
  { node with accumulatedMetrics := node.accumulatedMetrics.addRequestMetric metric }

/-- The nodes that the loop of `updateConnectionMetrics` meets, from a pointer on. -/
inductive Chain (heap : List ConnectionMetric) : Option Nat → List Nat → Prop
  | nil : Chain heap none []
  | cons {p : Nat} {node : ConnectionMetric} {ps : List Nat} (hnode : heap[p]? = some node)
      (hlt : ∀ q ∈ ps, q < p) (hps : Chain heap node.parentMetric ps) :
      Chain heap (some p) (p :: ps)

theorem getElem?_addAt (heap : List ConnectionMetric) (p q : Nat) (metric : RequestMetric) :
    (addAt heap p metric)[q]? = if p = q then heap[q]?.map (addReport metric) else heap[q]? := by
  rw [addAt, List.getElem?_modify]
  split
  · rfl
  · simp

theorem Chain.addAt (h : Chain heap cur ps) (p : Nat) (metric : RequestMetric) :
    Chain (addAt heap p metric) cur ps := by
  induction h with
  | nil => exact .nil
  | @cons q node ps hnode hlt hps ih =>
    by_cases hpq : p = q
    · have hadd : (Manager.addAt heap p metric)[q]? = some (addReport metric node) := by
        rw [getElem?_addAt, if_pos hpq, hnode, Option.map_some]
      exact .cons hadd hlt ih
    · exact .cons (by rw [getElem?_addAt, if_neg hpq, hnode]) hlt ih

theorem Chain.length_le (h : Chain heap cur ps) : ∀ n, (∀ p ∈ ps, p < n) → ps.length ≤ n := by
  induction h with
  | nil =>
    intro n _
    exact Nat.zero_le n
  | @cons p node ps hnode hlt hps ih =>
    intro n hn
    have hp := hn p List.mem_cons_self
    have := ih p hlt
    rw [List.length_cons]
    omega

variable (ops : List Op) (metric : RequestMetric) (fuel : Nat)

theorem getElem?_propagate (h : Chain heap cur ps) (hfuel : ps.length ≤ fuel) (q : Nat) :
    (propagate metric fuel heap cur)[q]? =
      if q ∈ ps then heap[q]?.map (addReport metric) else heap[q]? := by
  induction ps generalizing fuel heap cur with
  | nil =>
    cases h
    cases fuel <;> simp [propagate]
  | cons p ps ih =>
    cases h with
    | cons hnode hlt hps =>
      cases fuel with
      | zero => simp at hfuel
      | succ fuel =>
        have hp : p ∉ ps := fun hmem => Nat.lt_irrefl p (hlt p hmem)
        rw [propagate, hnode, Option.bind_some,
          ih fuel (hps.addAt p metric) (by simpa using hfuel), getElem?_addAt]
        by_cases hq : p = q
        · subst hq
          simp [hp]
        · simp [hq, Ne.symm hq]

theorem WellFormed.chain (wf : WellFormed h) (hp : h.connectionMetricsMap.lookup name = some p) :
    ∃ ps, Chain h.heap (some p) (p :: ps) ∧
      (p :: ps).map some = (lineage name).map h.connectionMetricsMap.lookup := by
  induction p using Nat.strong_induction_on generalizing name with
  | _ p ih =>
    obtain ⟨node, hnode, -⟩ := wf.node name p hp
    by_cases hname : name = globalMetricsConName
    · subst hname
      have hroot := wf.root p node ⟨hp, hnode⟩
      refine ⟨[], .cons hnode (by simp) (hroot ▸ .nil), ?_⟩
      rw [lineage, dif_pos (by decide)]
      simp [hp]
    · obtain ⟨q, hq, hlt, hparent⟩ := wf.parent name p node ⟨hp, hnode⟩ hname
      have hne := wf.derive_ne_empty ⟨hp, hnode⟩ hname
      obtain ⟨qs, hchain, hmap⟩ := ih q hlt hparent
      refine ⟨q :: qs, .cons hnode ?_ (hq ▸ hchain), ?_⟩
      · intro r hr
        cases hchain with
        | cons hqnode hqlt hqs =>
          rcases List.mem_cons.mp hr with rfl | hr
          · exact hlt
          · exact Nat.lt_trans (hqlt r hr) hlt
      · rw [lineage, dif_neg hne, List.map_cons, hmap, List.map_cons, hp]

/-- The lineage of a tracked name ends at the global node. -/
theorem WellFormed.global_mem_lineage (wf : WellFormed h)
    (hp : h.connectionMetricsMap.lookup name = some p) : globalMetricsConName ∈ lineage name := by
  induction p using Nat.strong_induction_on generalizing name with
  | _ p ih =>
    obtain ⟨node, hnode, -⟩ := wf.node name p hp
    by_cases hname : name = globalMetricsConName
    · exact hname ▸ self_mem_lineage name
    · obtain ⟨q, -, hlt, hparent⟩ := wf.parent name p node ⟨hp, hnode⟩ hname
      have hne := wf.derive_ne_empty ⟨hp, hnode⟩ hname
      rw [lineage, dif_neg hne]
      exact List.mem_cons_of_mem _ (ih q hlt hparent)

/-- The report is addressed to the name or to a descendant of it, and that name is tracked. -/
def Reaches (h : Manager) (name : String) (metric : RequestMetric) : Prop :=
  (h.connectionMetricsMap.lookup metric.connectionName).isSome ∧
    name ∈ lineage metric.connectionName

instance (h : Manager) (name : String) : DecidablePred (Reaches h name) :=
  fun _ => inferInstanceAs (Decidable (_ ∧ _))

theorem update_node (wf : WellFormed h) (metric : RequestMetric)
    (hp : h.connectionMetricsMap.lookup name = some p) :
    (h.updateConnectionMetrics metric).heap[p]? =
      if Reaches h name metric then h.heap[p]?.map (addReport metric) else h.heap[p]? := by
  unfold updateConnectionMetrics
  cases hcon : h.connectionMetricsMap.lookup metric.connectionName with
  | none => simp [Reaches, hcon]
  | some con =>
    obtain ⟨ps, hchain, hmap⟩ := wf.chain hcon
    have hlen : (con :: ps).length ≤ h.heap.length + 1 := by
      have hcon' := wf.lt_length hcon
      cases hchain with
      | cons hnode hlt hps =>
        have := hps.length_le con hlt
        rw [List.length_cons]
        omega
    have hheap := getElem?_propagate metric (h.heap.length + 1) hchain hlen p
    have hmem : p ∈ con :: ps ↔ name ∈ lineage metric.connectionName := by
      have hiff : p ∈ con :: ps ↔
          some p ∈ (lineage metric.connectionName).map h.connectionMetricsMap.lookup := by
        rw [← hmap]
        simp
      rw [hiff, List.mem_map]
      constructor
      · rintro ⟨a, ha, hap⟩
        rwa [wf.name_eq hp hap]
      · intro hname
        exact ⟨name, hname, hp⟩
    simp only [Reaches, hcon, Option.isSome_some, true_and, ← hmem]
    exact hheap

theorem map_update (h : Manager) (metric : RequestMetric) :
    (h.updateConnectionMetrics metric).connectionMetricsMap = h.connectionMetricsMap := by
  unfold updateConnectionMetrics
  split <;> rfl

theorem bound_of_update (wf : WellFormed h) {metric : RequestMetric}
    (hb : Bound (h.updateConnectionMetrics metric) a p node) :
    ∃ old, Bound h a p old ∧ node = if Reaches h a metric then addReport metric old else old := by
  obtain ⟨hp, hnode⟩ := hb
  rw [map_update] at hp
  rw [update_node wf metric hp] at hnode
  split at hnode
  · next hreach =>
    obtain ⟨old, hold, rfl⟩ := Option.map_eq_some_iff.mp hnode
    exact ⟨old, ⟨hp, hold⟩, by rw [if_pos hreach]⟩
  · next hreach => exact ⟨node, ⟨hp, hnode⟩, by rw [if_neg hreach]⟩

theorem wellFormed_update (wf : WellFormed h) (metric : RequestMetric) :
    WellFormed (h.updateConnectionMetrics metric) where
  node := by
    intro a p hp
    rw [map_update] at hp
    obtain ⟨node, hnode, hname⟩ := wf.node a p hp
    rw [update_node wf metric hp, hnode]
    split
    · exact ⟨addReport metric node, rfl, hname⟩
    · exact ⟨node, rfl, hname⟩
  global := by
    rw [map_update]
    exact wf.global
  root := by
    intro p node hb
    obtain ⟨old, hold, rfl⟩ := bound_of_update wf hb
    have hroot := wf.root p old hold
    split <;> exact hroot
  parent := by
    intro a p node hb hname
    obtain ⟨old, hold, rfl⟩ := bound_of_update wf hb
    have hparent := wf.parent a p old hold hname
    rw [map_update]
    split <;> exact hparent
  server := by
    intro a p node hb hname
    obtain ⟨old, hold, rfl⟩ := bound_of_update wf hb
    have hserver := wf.server a p old hold hname
    split <;> exact hserver

/-! ### Runs -/

theorem track_spec (wf : WellFormed h) (port : Int) (host path : String) :
    ∃ h', h.trackMetricsForConnection (serverIdOf port)
        (buildConnectionName "metric" (itoa port) host path) = some h' ∧
      WellFormed h' ∧ Grown h h' ∧
      ∃ p, h'.connectionMetricsMap.lookup
        (buildConnectionName "metric" (itoa port) host path) = some p := by
  obtain ⟨h', htrack, hinto⟩ :=
    trackToDepth_spec _ wf (family_buildConnectionName port host path) (Nat.le_refl _)
  exact ⟨h', htrack, hinto.wellFormed, hinto.grown, hinto.tracked⟩

theorem step_track {host path : String} (htrack : h.trackMetricsForConnection (serverIdOf port)
      (buildConnectionName "metric" (itoa port) host path) = some h') :
    (machine.step h (.track port host path)).2 = h' := by
  change (h.trackMetricsForConnection _ _).getD h = h'
  rw [htrack, Option.getD_some]

theorem length_propagate (heap : List ConnectionMetric) (cur : Option Nat) :
    (propagate metric fuel heap cur).length = heap.length := by
  induction fuel generalizing heap cur with
  | zero => rfl
  | succ fuel ih =>
    cases cur with
    | none => rfl
    | some cur => rw [propagate, ih, Manager.addAt, List.length_modify]

theorem length_update (h : Manager) (metric : RequestMetric) :
    (h.updateConnectionMetrics metric).heap.length = h.heap.length := by
  unfold updateConnectionMetrics
  split
  · rfl
  · simp [length_propagate, Manager.addAt]

theorem wellFormed_step (wf : WellFormed h) (op : Op) :
    WellFormed (machine.step h op).2 ∧ h.heap.length ≤ (machine.step h op).2.heap.length := by
  cases op with
  | track port host path =>
    obtain ⟨h', htrack, hwf, hgrown, -⟩ := track_spec wf port host path
    obtain ⟨nodes, hnodes⟩ := hgrown.heap
    rw [step_track htrack]
    refine ⟨hwf, ?_⟩
    rw [hnodes, List.length_append]
    omega
  | remove port => exact ⟨wellFormed_remove wf port, Nat.le_refl _⟩
  | report metric => exact ⟨wellFormed_update wf metric, Nat.le_of_eq (length_update h metric).symm⟩

/-- The reports processed while the node `p` exists that reach the name. -/
def reportsFor (name : String) (p : Nat) (ops : List Op) : List RequestMetric :=
  machine.collect (fun h op =>
    match op with
    | .report metric =>
      if p < h.heap.length ∧ Reaches h name metric then [metric] else []
    | _ => []) new ops

theorem wellFormed_run :
    WellFormed (machine.run new ops) ∧
      ∀ name p, (machine.run new ops).heap.length ≤ p → reportsFor name p ops = [] := by
  induction ops using List.reverseRecOn with
  | nil => exact ⟨wellFormed_new, fun _ _ _ => rfl⟩
  | append_singleton ops op ih =>
    obtain ⟨wf, hnone⟩ := ih
    obtain ⟨hwf, hlen⟩ := wellFormed_step wf op
    rw [Machine.run_concat]
    refine ⟨hwf, ?_⟩
    intro name p hp
    rw [reportsFor, Machine.collect_concat]
    change reportsFor name p ops ++ _ = []
    rw [hnone name p (by omega), List.nil_append]
    cases op with
    | report metric => exact if_neg fun h => by omega
    | _ => rfl

/-- Run lemma: a node holds the totals of its reports. -/
theorem totals_run (hb : Bound (machine.run new ops) name p node) :
    Totals node.accumulatedMetrics (reportsFor name p ops) := by
  induction ops using List.reverseRecOn generalizing node with
  | nil =>
    obtain ⟨hp, hnode⟩ := hb
    rw [Machine.run_nil, lookup_new] at hp
    split at hp
    · cases hp
      cases hnode
      exact totals_new _
    · cases hp
  | append_singleton ops op ih =>
    obtain ⟨wf, hnone⟩ := wellFormed_run ops
    rw [Machine.run_concat] at hb
    rw [reportsFor, Machine.collect_concat]
    change Totals _ (reportsFor name p ops ++ _)
    cases op with
    | track port host path =>
      obtain ⟨h', htrack, -, hgrown, -⟩ := track_spec wf port host path
      rw [step_track htrack] at hb
      rw [List.append_nil]
      obtain hold | ⟨hle, hmetric⟩ := hgrown.bound wf hb
      · exact ih hold
      · rw [hnone name p hle, hmetric]
        exact totals_new name
    | remove port =>
      rw [List.append_nil]
      exact ih (bound_of_remove hb).1
    | report metric =>
      obtain ⟨old, hold, rfl⟩ := bound_of_update wf hb
      have hlt := wf.lt_length hold.1
      simp only [hlt, true_and]
      split
      · exact (ih hold).concat metric
      · rw [List.append_nil]
        exact ih hold

/-- In every reachable state the parent of a node is the very node stored under the derived
name, and the node holds the totals of the reports addressed to it or to a descendant since
it was created. -/
theorem hierarchy_exact (ops : List Op) (name : String) (p : Nat)
    (hp : (machine.run new ops).connectionMetricsMap.lookup name = some p) :
    ∃ node, (machine.run new ops).heap[p]? = some node ∧ node.connectionName = name ∧
      (name ≠ globalMetricsConName → ∃ q, node.parentMetric = some q ∧
        (machine.run new ops).connectionMetricsMap.lookup (deriveParentMetricName name) =
          some q) ∧
      Totals node.accumulatedMetrics (reportsFor name p ops) := by
  have wf := (wellFormed_run ops).1
  obtain ⟨node, hnode, hname⟩ := wf.node name p hp
  refine ⟨node, hnode, hname, ?_, totals_run ops ⟨hp, hnode⟩⟩
  intro hne
  obtain ⟨q, hq, -, hparent⟩ := wf.parent name p node ⟨hp, hnode⟩ hne
  exact ⟨q, hq, hparent⟩

def sampleReport (connectionName : String) : RequestMetric where
  connectionName := connectionName
  latencyMs := 12
  isTimedOut := false
  bytesSent := 512
  bytesReceived := 64
  is2xxResponse := true
  is3xxResponse := false
  is4xxResponse := false
  is5xxResponse := false
  isMiddlewareBlockedRequest := false
  blockingMiddleware := ""

def sampleOps : List Op :=
  [.track 8080 "a.com" "/api", .report (sampleReport "metric-port-8080-host-a.com-path-/api"),
    .remove 8080, .track 8080 "a.com" "/api", .track 8080 "a.com" "",
    .report (sampleReport "metric-port-8080-host-a.com-path-/api"),
    .report (sampleReport "metric-port-8080-host-a.com")]

theorem hierarchy_exact_sampleOps :
    ∃ node, (machine.run new sampleOps).heap[5]? = some node ∧
      node.connectionName = "metric-port-8080-host-a.com" ∧
      ("metric-port-8080-host-a.com" ≠ globalMetricsConName → ∃ q,
        node.parentMetric = some q ∧
          (machine.run new sampleOps).connectionMetricsMap.lookup
            (deriveParentMetricName "metric-port-8080-host-a.com") = some q) ∧
      Totals node.accumulatedMetrics (reportsFor "metric-port-8080-host-a.com" 5 sampleOps) :=
  hierarchy_exact sampleOps "metric-port-8080-host-a.com" 5 (by decide +kernel)

end Torii.Metrics
