import Torii.Lib.Refinement
import Torii.Proxy.Listener
import Torii.Proxy.Plan

/-!
# Equal configurations have the same plan

`HotSwapHandler` leaves a server as it is when its configuration is equal to the new one, where
options are compared as maps. A plan does not depend on the options of the middlewares at all.
-/

namespace Torii.Proxy

open Go Torii.Middleware

/-! ## Middlewares -/

theorem forall₂_of_sameList {α : Type} {same : α → α → Bool} {xs ys : List α}
    (h : sameList same xs ys = true) : List.Forall₂ (fun x y => same x y = true) xs ys := by
  induction xs generalizing ys with
  | nil =>
    cases ys with
    | nil => exact .nil
    | cons => exact absurd h (by simp [sameList])
  | cons x xs ih =>
    cases ys with
    | nil => exact absurd h (by simp [sameList])
    | cons =>
      rw [sameList, Bool.and_eq_true] at h
      exact .cons h.1 (ih h.2)

theorem types_eq_of_same {xs ys : List Config} (h : sameList sameConfig xs ys = true) :
    xs.map Config.type = ys.map Config.type := by
  have hsame := forall₂_of_sameList h
  clear h
  induction hsame with
  | nil => rfl
  | cons hxy _ ih =>
    rw [sameConfig, Bool.and_eq_true, beq_iff_eq] at hxy
    rw [List.map_cons, List.map_cons, hxy.1, ih]

section

variable {xs ys : List Config} (h : xs.map Config.type = ys.map Config.type)

include h

theorem missingDefaults_congr : missingDefaults xs = missingDefaults ys := by
  have hmem : ∀ zs : List Config, missingDefaults zs =
      defaultMiddlewareOrder.filter fun name => name ∉ zs.map Config.type := by
    intro zs
    apply List.filter_congr
    intro name _
    simp
  rw [hmem, hmem, h]

theorem effective_congr (disableDefaults : Bool) :
    (effective xs disableDefaults).map Config.type =
      (effective ys disableDefaults).map Config.type := by
  cases disableDefaults with
  | true => exact h
  | false =>
    simp [effective, applyDefaultMiddlewares_eq, h, missingDefaults_congr h]

def SameNames (applied applied' : List Config) : Prop :=
  middlewareNames applied = middlewareNames applied'

theorem related_planLoop : Except.Related SameNames (planLoop xs) (planLoop ys) := by
  induction xs generalizing ys with
  | nil =>
    rw [List.map_eq_nil_iff.mp h.symm]
    rfl
  | cons conf xs ih =>
    obtain ⟨conf', ys, rfl, htype, hrest⟩ := List.map_eq_cons_iff.mp h.symm
    rw [planLoop, planLoop, htype]
    apply Except.related_bind (ih hrest.symm)
    intro applied applied' happlied
    cases getMiddleware conf.type with
    | error e => rfl
    | ok entry => exact congrArg₂ List.cons htype.symm happlied

theorem related_planChain (disableDefaults : Bool) :
    Except.Related SameNames (planChain xs disableDefaults) (planChain ys disableDefaults) := by
  have hlength : xs.length = ys.length := by simpa using congrArg List.length h
  rw [planChain, planChain, hlength]
  split
  · exact h
  · exact related_planLoop (effective_congr h disableDefaults)

theorem hasTerminatingMiddleware_congr :
    hasTerminatingMiddleware xs = hasTerminatingMiddleware ys := by
  have hany : ∀ zs : List Config, hasTerminatingMiddleware zs = (zs.map Config.type).any
      fun type => ((registry.lookup type).map RegistryEntry.terminates).getD false := by
    intro zs
    rw [List.any_map]
    rfl
  rw [hany, hany, h]

end

/-! ## Path rules -/

section

variable (site : Site)

structure AlikeRules (a b : PathRule) : Prop where
  pattern : a.pattern = b.pattern
  backend : a.backend = b.backend
  dropQuery : a.dropQuery = b.dropQuery
  types : a.middlewares.configs.map Config.type = b.middlewares.configs.map Config.type
  disableDefaults : a.disableDefaults = b.disableDefaults

theorem alikeRules_of_same {a b : PathRule} (h : samePathRule a b = true) : AlikeRules a b := by
  simp only [samePathRule, Bool.and_eq_true, beq_iff_eq] at h
  obtain ⟨⟨⟨⟨⟨⟨hpattern, hbackend⟩, hdropQuery⟩, -⟩, hmiddlewares⟩, hdefaults⟩, -⟩ := h
  exact ⟨hpattern, hbackend, hdropQuery, types_eq_of_same hmiddlewares, hdefaults⟩

def SamePatterns (mux mux' : MuxPlan) : Prop := mux.map Prod.fst = mux'.map Prod.fst

structure SamePaths (acc acc' : PathPlan) : Prop where
  registeredPatterns : acc.registeredPatterns = acc'.registeredPatterns
  mux : SamePatterns acc.mux acc'.mux
  backends : acc.backends = acc'.backends
  snapshots : acc.snapshots = acc'.snapshots

theorem related_planPattern {mux mux' : MuxPlan} (h : SamePatterns mux mux') (pattern : String)
    (rule rule' : Option PathRule) : Except.Related SamePatterns
      (planPattern site mux pattern rule) (planPattern site mux' pattern rule') := by
  rw [planPattern, planPattern, show mux.map Prod.fst = mux'.map Prod.fst from h]
  split
  · change (mux ++ [(pattern, rule)]).map Prod.fst = (mux' ++ [(pattern, rule')]).map Prod.fst
    rw [List.map_append, List.map_append, show mux.map Prod.fst = mux'.map Prod.fst from h]
    rfl
  · rfl

theorem planPathBackend_congr {a b : PathRule} (h : AlikeRules a b) :
    planPathBackend site a = planPathBackend site b := by
  rw [planPathBackend, planPathBackend, h.backend, h.dropQuery, h.pattern]

/-- Step lemma: one path rule. -/
theorem related_planPathRule {acc acc' : PathPlan} (hacc : SamePaths acc acc') {a b : PathRule}
    (h : AlikeRules a b) :
    Except.Related SamePaths (planPathRule site acc a) (planPathRule site acc' b) := by
  rw [planPathRule, planPathRule, h.backend, h.pattern, hacc.registeredPatterns,
    planPathBackend_congr site h, h.disableDefaults]
  split
  · rfl
  · dsimp only
    split
    · rfl
    · apply Except.related_bind Except.related_rfl
      rintro _ _ -
      apply Except.related_bind (related_planChain h.types b.disableDefaults)
      intro appliedMw appliedMw' happlied
      apply Except.related_bind (related_planPattern site hacc.mux _ (some a) (some b))
      intro mux mux' hmux
      exact ⟨rfl, hmux, by rw [hacc.backends],
        by rw [hacc.snapshots, show middlewareNames appliedMw = _ from happlied]⟩

theorem related_planPaths {as bs : List PathRule} (h : List.Forall₂ AlikeRules as bs) :
    Except.Related (fun plan plan' => plan.2 = plan'.2) (planPaths site as)
      (planPaths site bs) := by
  apply Except.related_bind (Except.related_foldlM h (I := SamePaths) ⟨rfl, rfl, rfl, rfl⟩
    fun a b hab acc acc' hacc => related_planPathRule site hacc hab)
  intro acc acc' hacc
  have hcatchAll :
      Except.Related SamePatterns (planCatchAll site acc) (planCatchAll site acc') := by
    rw [planCatchAll, planCatchAll, hacc.registeredPatterns]
    split
    · exact related_planPattern site hacc.mux "/" none none
    · exact hacc.mux
  apply Except.related_bind hcatchAll
  intro mux mux' hmux
  exact congrArg₂ Prod.mk hacc.backends hacc.snapshots

/-! ## Routes and hosts -/

structure AlikeTargets (a b : RouteTarget) : Prop where
  backend : a.backend = b.backend
  types : a.middlewares.configs.map Config.type = b.middlewares.configs.map Config.type
  paths : List.Forall₂ AlikeRules a.paths b.paths
  disableDefaults : a.disableDefaults = b.disableDefaults

theorem alikeTargets_of_same {a b : RouteTarget} (h : sameTarget a b = true) :
    AlikeTargets a b := by
  simp only [sameTarget, Bool.and_eq_true, beq_iff_eq] at h
  obtain ⟨⟨⟨⟨hbackend, hmiddlewares⟩, hpaths⟩, hdefaults⟩, -⟩ := h
  exact ⟨hbackend, types_eq_of_same hmiddlewares,
    (forall₂_of_sameList hpaths).imp fun _ _ => alikeRules_of_same, hdefaults⟩

structure SameRoute (plan plan' : RoutePlan) : Prop where
  backends : plan.backends = plan'.backends
  snapshot : plan.snapshot = plan'.snapshot

theorem related_planRoutePaths {a b : RouteTarget} (h : AlikeTargets a b) :
    Except.Related (fun plan plan' => plan.2 = plan'.2) (planRoutePaths site a)
      (planRoutePaths site b) := by
  rw [planRoutePaths, planRoutePaths, h.paths.length_eq, h.backend]
  split
  · apply Except.related_map (Except.related_mapError _ (related_planPaths site h.paths))
    intro plan plan' hplan
    exact hplan
  · rfl

theorem related_planRoute {a b : RouteTarget} (h : AlikeTargets a b) :
    Except.Related SameRoute (planRoute site a) (planRoute site b) := by
  have hbackend : planRouteBackend site a = planRouteBackend site b := by
    rw [planRouteBackend, planRouteBackend, h.backend, hasTerminatingMiddleware_congr h.types]
  rw [planRoute, planRoute, hbackend, h.disableDefaults, h.backend]
  apply Except.related_bind Except.related_rfl
  rintro _ _ -
  apply Except.related_bind (related_planRoutePaths site h)
  rintro ⟨mux, backends, snapshots⟩ ⟨mux', backends', snapshots'⟩ hpaths
  obtain ⟨rfl, rfl⟩ := Prod.mk.inj hpaths
  apply Except.related_bind
    (Except.related_mapError _ (related_planChain h.types b.disableDefaults))
  intro appliedMw appliedMw' happlied
  exact ⟨rfl, by rw [show middlewareNames appliedMw = _ from happlied]⟩

structure SamePlan (plan plan' : HostPlan) : Prop where
  isEmpty : plan.routes.isEmpty = plan'.routes.isEmpty
  backends : plan.backends = plan'.backends
  snapshots : plan.snapshots = plan'.snapshots

structure AlikeRoutes (a b : Route) : Prop where
  host : a.host = b.host
  target : AlikeTargets a.target b.target

/-- Step lemma: one route. -/
theorem related_planAddRoute {acc acc' : HostPlan} (hacc : SamePlan acc acc') {a b : Route}
    (h : AlikeRoutes a b) :
    Except.Related SamePlan (planAddRoute site acc a) (planAddRoute site acc' b) := by
  rw [planAddRoute, planAddRoute, h.host]
  split
  · exact hacc
  · have hroute := related_planRoute site h.target
    generalize planRoute site a.target = built at hroute ⊢
    generalize planRoute site b.target = built' at hroute ⊢
    cases built with
    | error failure =>
      cases built' with
      | ok plan' => exact absurd hroute id
      | error failure' =>
        obtain rfl : failure = failure' := hroute
        cases failure with
        | error e => exact hacc
        | panic | fatal => rfl
    | ok plan =>
      cases built' with
      | error failure' => exact absurd hroute id
      | ok plan' =>
        have hconcat : ∀ (routes : List (String × RoutePlan)) route,
            (routes ++ [route]).isEmpty = false := by
          intro routes route
          cases routes with
          | nil | cons => rfl
        refine ⟨?_, ?_, ?_⟩
        · rw [hconcat, hconcat]
        · rw [hacc.backends, hroute.backends, h.target.backend]
        · rw [hacc.snapshots, hroute.snapshot, h.host]

theorem related_planDefault {a b : Option RouteTarget} (h : Option.Rel AlikeTargets a b) :
    Except.Related (fun plan plan' => plan.1.isNone = plan'.1.isNone ∧ plan.2 = plan'.2)
      (planDefault site a) (planDefault site b) := by
  cases h with
  | none => exact ⟨rfl, rfl⟩
  | some h =>
    apply Except.related_bind (Except.related_mapError _ (related_planRoute site h))
    intro plan plan' hplan
    refine ⟨rfl, ?_⟩
    rw [h.backend, hplan.backends, hplan.snapshot]

theorem alikeTargets_of_sameDefault {a b : Option RouteTarget} (h : sameDefault a b = true) :
    Option.Rel AlikeTargets a b := by
  cases a with
  | none =>
    cases b with
    | none => exact .none
    | some target' => exact absurd h (by simp [sameDefault])
  | some target =>
    cases b with
    | none => exact absurd h (by simp [sameDefault])
    | some target' => exact .some (alikeTargets_of_same h)

theorem related_planHosts {a b : Listener} (h : sameListener a b = true) :
    Except.Related SamePlan (planHosts site a.default_ a.routes)
      (planHosts site b.default_ b.routes) := by
  simp only [sameListener, Bool.and_eq_true] at h
  obtain ⟨⟨-, hroutes⟩, hdefault⟩ := h
  have halike : List.Forall₂ AlikeRoutes a.routes b.routes := by
    apply (forall₂_of_sameList hroutes).imp
    intro x y hxy
    rw [sameRoute, Bool.and_eq_true, beq_iff_eq] at hxy
    exact ⟨hxy.1, alikeTargets_of_same hxy.2⟩
  apply Except.related_bind (Except.related_foldlM halike (I := SamePlan) ⟨rfl, rfl, rfl⟩
    fun x y hxy acc acc' hacc => related_planAddRoute site hacc hxy)
  intro acc acc' hacc
  apply Except.related_bind (related_planDefault site (alikeTargets_of_sameDefault hdefault))
  rintro ⟨default_, backends, snapshots⟩ ⟨default', backends', snapshots'⟩ ⟨hnone, hmeta⟩
  obtain ⟨rfl, rfl⟩ := Prod.mk.inj hmeta
  dsimp only at hnone ⊢
  rw [hacc.isEmpty, hnone]
  split
  · rfl
  · exact ⟨hacc.isEmpty, by rw [hacc.backends], by rw [hacc.snapshots]⟩

end

end Torii.Proxy
