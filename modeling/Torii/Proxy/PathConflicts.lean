import Torii.Proxy.Counting
import Torii.Proxy.PathPatterns

/-!
# Conflicts between path rules

`buildPathDispatcher` refuses a rule whose normalised pattern it has registered before. The check
compares texts, before `ensureSubtree` widens the pattern of a rule with a backend, while the mux
compares what the patterns match.
-/

namespace Torii.Proxy

open Go Go.Url Go.ServeMux Torii.Middleware Fallible

def PathRule.muxPattern (rule : PathRule) : String :=
  if rule.backend.isSome then ensureSubtree (normalizePattern rule.pattern)
  else normalizePattern rule.pattern

/-- What a glob covers: the subtree below its last literal, if a slash or a star ends it or if
the rule has a backend. -/
def globShape (backend : Bool) : List String → Shape
  | [] => ⟨[], false⟩
  | [seg] =>
    if seg = "" ∨ seg = "*" then ⟨[], true⟩
    else if Strings.hasSuffix seg '*' then
      ⟨[some (pathUnescape (Strings.trimSuffix seg '*').toList)], true⟩
    else ⟨[some (pathUnescape seg.toList)], backend⟩
  | seg :: rest =>
    (globShape backend rest).cons (if seg = "*" then none else some (pathUnescape seg.toList))

def PathRule.shape (rule : PathRule) : Shape :=
  globShape rule.backend.isSome (ruleSegments rule.pattern)

/-! ### The pattern of a rule -/

theorem shape_globSegments (k : Nat) (segs : List String) :
    shape (globSegments k segs) = globShape false segs := by
  induction segs generalizing k with
  | nil => rfl
  | cons seg segs ih =>
    cases segs with
    | nil =>
      simp only [globSegments, globShape]
      by_cases hempty : seg = ""
      · simp [hempty, ServeMux.shape]
      by_cases hstar : seg = "*"
      · simp [hstar, ServeMux.shape]
      by_cases hglued : Strings.hasSuffix seg '*' <;>
        simp [hempty, hstar, hglued, ServeMux.shape, Shape.cons]
    | cons =>
      by_cases hstar : seg = "*" <;>
        simp [globSegments, globShape, hstar, ServeMux.shape, ih]

theorem multiLast_globSegments (k : Nat) (segs : List String) :
    MultiLast (globSegments k segs) := by
  induction segs generalizing k with
  | nil => simp [globSegments, MultiLast]
  | cons seg segs ih =>
    cases segs with
    | nil =>
      simp only [globSegments]
      split
      · simp [MultiLast]
      · split
        · simp [MultiLast]
        · split <;> simp [MultiLast]
    | cons =>
      have hcons : ∀ {s : Segment} {segs : List Segment}, (∀ name, s ≠ .multi name) →
          MultiLast segs → MultiLast (s :: segs) := by
        intro s segs hs hsegs
        cases segs with
        | nil => simp [MultiLast]
        | cons => simpa [MultiLast] using ⟨hs, by simpa [MultiLast] using hsegs⟩
      simp only [globSegments]
      split
      · exact hcons (by simp) (ih _)
      · exact hcons (by simp) (ih _)

theorem normalizeSegments_concat {init : List String} (h : ∀ seg ∈ init, PlainText seg) (k : Nat) :
    ∃ front, (∀ text ∈ front.map String.toList, ¬ catchAll.toList <:+: text) ∧
      ∀ last, normalizeSegments k (init ++ [last]) = front ++ normalizeSegments 0 [last] := by
  induction init generalizing k with
  | nil => exact ⟨[], by simp, fun last => by simp [normalizeSegments]⟩
  | cons seg init ih =>
    have hcons : ∀ last, normalizeSegments k (seg :: (init ++ [last])) =
        if seg = "*" then
          ("\x7b_seg" ++ Strconv.itoa (k + 1) ++ "\x7d") ::
            normalizeSegments (k + 1) (init ++ [last])
        else seg :: normalizeSegments k (init ++ [last]) := by
      intro last
      cases init <;> simp [normalizeSegments]
    have hinit : ∀ s ∈ init, PlainText s := fun s hs => h s (List.mem_cons_of_mem _ hs)
    by_cases hstar : seg = "*"
    · obtain ⟨front, hfront, hlast⟩ := ih hinit (k + 1)
      refine ⟨("\x7b_seg" ++ Strconv.itoa (k + 1) ++ "\x7d") :: front, ?_, fun last => ?_⟩
      · simp only [List.map_cons, List.forall_mem_cons, toList_wildcard]
        refine ⟨fun hoccurs => ?_, hfront⟩
        -- no generated name has the first letter of the catch-all
        have hmem : 'p' ∈ '\x7b' :: segName (k + 1) ++ ['\x7d'] :=
          hoccurs.subset (by decide)
        simp only [List.cons_append, List.mem_cons, List.mem_append, List.not_mem_nil,
          or_false] at hmem
        obtain hp | hp | hp := hmem
        · exact absurd hp (by decide)
        · exact absurd (mem_segName hp) (by decide)
        · exact absurd hp (by decide)
      · rw [List.cons_append, hcons, if_pos hstar, hlast, List.cons_append]
    · obtain ⟨front, hfront, hlast⟩ := ih hinit k
      refine ⟨seg :: front, ?_, fun last => by simp [hcons, hstar, hlast]⟩
      simp only [List.map_cons, List.forall_mem_cons]
      refine ⟨fun hoccurs => ?_, hfront⟩
      have hmem : '\x7b' ∈ seg.toList := hoccurs.subset (by decide)
      exact (h seg List.mem_cons_self _ hmem).2.1 rfl

/-- A segment at the end that covers a subtree already. -/
def Covering (seg : String) : Prop := seg = "" ∨ Strings.hasSuffix seg '*' = true

theorem not_covering {seg : String} (h : ¬ Covering seg) :
    seg ≠ "" ∧ seg ≠ "*" ∧ Strings.hasSuffix seg '*' = false := by
  obtain ⟨hempty, hsuffix⟩ := not_or.mp h
  refine ⟨hempty, ?_, by simpa using hsuffix⟩
  rintro rfl
  exact hsuffix (by decide)

section

variable {pattern last : String} {init : List String}

theorem exists_front (h : GlobPattern pattern) (hsegs : ruleSegments pattern = init ++ [last]) :
    ∃ front : List String, (∀ text ∈ front.map String.toList, ¬ catchAll.toList <:+: text) ∧
      ∀ {pattern' last' : String}, pattern'.toList.head? = some '/' →
        ruleSegments pattern' = init ++ [last'] →
        (normalizePattern pattern').toList =
          slashed (front.map String.toList) ++
            slashed ((normalizeSegments 0 [last']).map String.toList) := by
  have hinit : ∀ seg ∈ init, PlainText seg :=
    fun seg hseg => h.segments.plain seg (by simp [hsegs, hseg])
  obtain ⟨front, hfront, hlast⟩ := normalizeSegments_concat hinit 0
  refine ⟨front, hfront, fun {pattern' last'} hrooted hsegs' => ?_⟩
  rw [toList_normalizePattern hrooted, hsegs', hlast, List.map_append, slashed_append]

theorem ensureSubtree_of_covering (h : GlobPattern pattern)
    (hsegs : ruleSegments pattern = init ++ [last]) (hlast : Covering last) :
    ensureSubtree (normalizePattern pattern) = normalizePattern pattern := by
  obtain ⟨front, -, htext⟩ := exists_front h hsegs
  have htext := htext h.rooted hsegs
  rw [toList_ensureSubtree, if_pos]
  obtain rfl | hstar := hlast
  · left
    simp [htext, normalizeSegments, Strings.hasSuffix]
  · right
    have hcatch : ∃ texts, (normalizeSegments 0 [last]).map String.toList =
        texts ++ [catchAll.toList] := by
      by_cases hlast : last = "*"
      · exact ⟨[], by simp [normalizeSegments, hlast]⟩
      · exact ⟨[(Strings.trimSuffix last '*').toList], by
          simp [normalizeSegments, hlast, hstar]⟩
    obtain ⟨texts, htexts⟩ := hcatch
    rw [htext, htexts]
    exact ⟨slashed (front.map String.toList) ++ slashed texts ++ ['/'], [], by
      simp [slashed_append]⟩

theorem globPattern_append_star (h : GlobPattern pattern)
    (hsegs : ruleSegments pattern = init ++ [last]) : GlobPattern (pattern ++ "*") := by
  have hstar := ruleSegments_append_star h.rooted hsegs
  refine ⟨?_, ?_, ?_⟩
  · simp [List.head?_append, h.rooted]
  · intro seg hseg c hc
    simp only [hstar, List.mem_append, List.mem_singleton] at hseg
    obtain hseg | rfl := hseg
    · exact h.plain seg (by simp [hsegs, hseg]) c hc
    · obtain hc | rfl : c ∈ last.toList ∨ c = '*' := by simpa using hc
      · exact h.plain last (by simp [hsegs]) c hc
      · decide
  · intro seg hseg
    exact h.nonempty seg (by simpa [hstar, hsegs] using hseg)

theorem ensureSubtree_of_not_covering (h : GlobPattern pattern)
    (hsegs : ruleSegments pattern = init ++ [last]) (hlast : ¬ Covering last) :
    ensureSubtree (normalizePattern pattern) = normalizePattern (pattern ++ "*") := by
  obtain ⟨hne, hstar, hsuffix⟩ := not_covering hlast
  obtain ⟨-, hglued, hends, htrim⟩ := append_star hne
  have hplain := h.segments.plain last (by simp [hsegs])
  obtain ⟨front, hfront, htext⟩ := exists_front h hsegs
  have hwide := htext (globPattern_append_star h hsegs).rooted
    (ruleSegments_append_star h.rooted hsegs)
  have htext := htext h.rooted hsegs
  simp only [normalizeSegments, hstar, hsuffix, if_false, List.map_cons, List.map_nil,
    Bool.false_eq_true] at htext
  simp only [normalizeSegments, hglued, hends, htrim, if_true, if_false, List.map_cons,
    List.map_nil] at hwide
  have hlist : last.toList ≠ [] := by simpa using hne
  rw [toList_ensureSubtree, if_neg]
  · rw [← String.toList_inj, hwide]
    simp [htext]
  · rintro (hslash | hoccurs)
    · have hmem : '/' ∈ last.toList := by
        obtain ⟨c, hc⟩ : ∃ c, last.toList.getLast? = some c :=
          Option.isSome_iff_exists.mp (by simp [hlist])
        obtain rfl : c = '/' := by
          simpa [htext, List.getLast?_append, List.getLast?_cons, hc] using hslash
        exact List.mem_of_getLast? hc
      exact (hplain _ hmem).1 rfl
    · rw [htext, ← slashed_append] at hoccurs
      obtain ⟨text, hmem, hoccurs⟩ :=
        exists_infix_of_infix_slashed (by decide) (by decide) hoccurs
      obtain hmem | hmem := List.mem_append.mp hmem
      · exact hfront text hmem hoccurs
      · obtain rfl := List.mem_singleton.mp hmem
        exact (hplain _ (hoccurs.subset (show '\x7b' ∈ catchAll.toList by decide))).2.1 rfl

theorem globShape_concat (init : List String) {b b' : Bool} {last last' : String}
    (h : globShape b [last] = globShape b' [last']) :
    globShape b (init ++ [last]) = globShape b' (init ++ [last']) := by
  induction init with
  | nil => exact h
  | cons seg init ih =>
    cases init with
    | nil => simpa [globShape] using congrArg _ h
    | cons => simpa [globShape] using congrArg _ ih

end

theorem parsePattern_muxPattern (unicodeName : List Char → Bool) {rule : PathRule}
    (h : GlobPattern rule.pattern) :
    ∃ segments, parsePattern unicodeName rule.muxPattern.toList = some ⟨[], [], segments⟩ ∧
      MultiLast segments ∧ shape segments = rule.shape := by
  have hread : ∀ {pattern : String}, GlobPattern pattern →
      ∃ segments, parsePattern unicodeName (normalizePattern pattern).toList =
          some ⟨[], [], segments⟩ ∧
        MultiLast segments ∧ shape segments = globShape false (ruleSegments pattern) :=
    fun hpattern => ⟨_, parsePattern_normalizePattern unicodeName hpattern,
      multiLast_globSegments _ _, shape_globSegments _ _⟩
  rw [PathRule.muxPattern, PathRule.shape]
  cases hbackend : rule.backend.isSome with
  | false => exact hread h
  | true =>
    obtain ⟨init, last, hsegs⟩ : ∃ init last, ruleSegments rule.pattern = init ++ [last] :=
      ⟨_, _, (List.dropLast_append_getLast h.segments.ne_nil).symm⟩
    simp only [if_true]
    by_cases hlast : Covering last
    · have hshape : globShape true (ruleSegments rule.pattern) =
          globShape false (ruleSegments rule.pattern) := by
        rw [hsegs]
        apply globShape_concat
        by_cases hempty : last = ""
        · simp [globShape, hempty]
        · simp [globShape, hlast.resolve_left hempty]
      rw [ensureSubtree_of_covering h hsegs hlast, hshape]
      exact hread h
    · have hshape : globShape true (ruleSegments rule.pattern) =
          globShape false (ruleSegments (rule.pattern ++ "*")) := by
        rw [hsegs, ruleSegments_append_star h.rooted hsegs]
        apply globShape_concat
        obtain ⟨hne, hstar, hsuffix⟩ := not_covering hlast
        simp [globShape, hne, hstar, hsuffix, append_star hne]
      rw [ensureSubtree_of_not_covering h hsegs hlast, hshape]
      exact hread (globPattern_append_star h hsegs)

/-! ### The loop over the rules -/

/-- A stop of the build other than the panic of the mux. -/
def NoPanic (failure : Failure) : Prop := ∀ pattern, failure ≠ .panic pattern

section

variable (env : Env) (ctx : BuildContext) (defaultHandler : Handler)

/-- The environment with the mux of `net/http`. -/
def Env.withServeMux (unicodeName : List Char → Bool) : Env :=
  { env with muxAccepts := accepts unicodeName }

def ruleChain (rule : PathRule) : Build ((Handler → Handler) × List Config) :=
  buildMiddlewareChain env.toEnv (ctx.withPath rule.pattern) rule.middlewares.configs
    rule.disableDefaults

/-- The loop refuses a rule with an error: its backend has no address, its normalised pattern is
one that an earlier rule has registered, or its backend or its middlewares cannot be built. -/
def Refused (earlier : List PathRule) (rule : PathRule) (h : Metrics.Manager) : Prop :=
  rule.backend.any (·.address = "") = true ∨
    normalizePattern rule.pattern ∈ earlier.map PathRule.muxPattern ∨
    (pathBaseHandler env defaultHandler rule).isOk = false ∨
    (ruleChain env ctx rule h).1.isOk = false

instance (earlier : List PathRule) (rule : PathRule) (h : Metrics.Manager) :
    Decidable (Refused env ctx defaultHandler earlier rule h) :=
  inferInstanceAs (Decidable (_ ∨ _))

/-- The rules in front of the first one that the loop refuses with an error. -/
def admitted : List PathRule → List PathRule → Metrics.Manager → List PathRule
  | _, [], _ => []
  | earlier, rule :: rest, h =>
    if Refused env ctx defaultHandler earlier rule h then []
    else rule :: admitted (earlier ++ [rule]) rest (ruleChain env ctx rule h).2

structure Registered (rules : List PathRule) (acc : PathBuild) : Prop where
  mux : acc.mux.map Prod.fst = rules.map PathRule.muxPattern
  patterns : ∀ pattern,
    pattern ∈ acc.registeredPatterns ↔ pattern ∈ rules.map PathRule.muxPattern

variable {env ctx defaultHandler}

theorem raises_applyLoop (env : Middleware.Env) (ctx : BuildContext) (configs : List Config) :
    Raises NoPanic (applyLoop env ctx configs) := by
  have hmetrics : Raises NoPanic (metricsMiddleware env ctx) := by
    refine raises_bind ?_ fun _ => raises_pure _
    rw [resolveReportFunc]
    split
    · exact raises_pure _
    · refine raises_bind ?_ fun _ => raises_pure _
      intro h failure h' hrun
      simp only [trackMetricsForConnection] at hrun
      split at hrun
      · cases hrun
        simp [NoPanic]
      · cases hrun
  induction configs with
  | nil => exact raises_pure _
  | cons conf rest ih =>
    refine raises_bind ih ?_
    rintro ⟨inner, applied⟩
    dsimp only
    split
    · exact raises_throw (by simp [NoPanic])
    · refine raises_bind ?_ fun _ => raises_pure _
      rw [middlewareFunc]
      split
      · exact hmetrics
      · exact raises_pure _

theorem raises_ruleChain (rule : PathRule) : Raises NoPanic (ruleChain env ctx rule) := by
  rw [ruleChain, buildMiddlewareChain]
  split
  · exact raises_pure _
  · exact raises_applyLoop _ _ _

variable {acc : PathBuild} {earlier : List PathRule} {rule : PathRule} {h : Metrics.Manager}

theorem pathBaseHandler_noPanic {failure : Failure}
    (hfail : pathBaseHandler env defaultHandler rule = .error failure) : NoPanic failure := by
  simp only [pathBaseHandler] at hfail
  split at hfail
  · cases hfail
  · simp only [buildPathBackendHandler] at hfail
    split at hfail
    · cases hfail
      simp [NoPanic]
    · cases hfail

theorem addPathRule_of_refused (hacc : Registered earlier acc)
    (hrefused : Refused env ctx defaultHandler earlier rule h) :
    ∃ failure h', addPathRule env ctx defaultHandler acc rule h = (.error failure, h') ∧
      NoPanic failure := by
  rw [addPathRule]
  split
  · exact ⟨_, _, rfl, by simp [NoPanic]⟩
  next haddress =>
    dsimp only
    split
    · exact ⟨_, _, rfl, by simp [NoPanic]⟩
    next hpattern =>
      have hlate := (hrefused.resolve_left haddress).resolve_left
        fun hmem => hpattern ((hacc.patterns _).mpr hmem)
      cases hbase : pathBaseHandler env defaultHandler rule with
      | error failure => exact ⟨failure, h, rfl, pathBaseHandler_noPanic hbase⟩
      | ok base =>
        rcases hchain : ruleChain env ctx rule h with ⟨failure | result, h'⟩
        · refine ⟨failure, h', ?_, raises_ruleChain rule h failure h' hchain⟩
          exact (bind_run_ok rfl).trans (bind_run_error hchain)
        · simp [hbase, hchain, Except.isOk, Except.toBool] at hlate

/-- Step lemma: any other rule is handed to the mux. -/
theorem addPathRule_of_not_refused (hacc : Registered earlier acc)
    (hrefused : ¬ Refused env ctx defaultHandler earlier rule h) :
    if env.muxAccepts (earlier.map PathRule.muxPattern) rule.muxPattern then
      ∃ acc', addPathRule env ctx defaultHandler acc rule h =
          (.ok acc', (ruleChain env ctx rule h).2) ∧
        Registered (earlier ++ [rule]) acc'
    else
      addPathRule env ctx defaultHandler acc rule h =
        (.error (.panic rule.muxPattern), (ruleChain env ctx rule h).2) := by
  simp only [Refused, not_or, Bool.not_eq_false] at hrefused
  obtain ⟨haddress, hpattern, hbase, hchain⟩ := hrefused
  have hnew : normalizePattern rule.pattern ∉ acc.registeredPatterns :=
    fun hmem => hpattern ((hacc.patterns _).mp hmem)
  cases hbase' : pathBaseHandler env defaultHandler rule with
  | error failure => simp [hbase', Except.isOk, Except.toBool] at hbase
  | ok base =>
    rcases hchain' : ruleChain env ctx rule h with ⟨failure | ⟨chain, appliedMw⟩, h'⟩
    · simp [hchain', Except.isOk, Except.toBool] at hchain
    · have hrun : addPathRule env ctx defaultHandler acc rule h =
          (handleFunc env acc.mux rule.muxPattern
              (wrapTrustedProxies env (chain base) rule.trustedProxies) >>= fun mux =>
            pure
              { registeredPatterns := acc.registeredPatterns.insert rule.muxPattern ()
                mux := mux
                backends := acc.backends ++ (rule.backend.map BackendConfig.address).toList
                snapshots := acc.snapshots ++
                  [⟨rule.pattern, (rule.backend.map BackendConfig.address).getD "",
                    middlewareNames appliedMw⟩] }) h' := by
        rw [addPathRule, if_neg haddress]
        dsimp only
        rw [if_neg hnew, hbase']
        exact (bind_run_ok rfl).trans (bind_run_ok hchain')
      rw [hrun, ← hacc.mux]
      split
      next haccepts =>
        have hmux : handleFunc env acc.mux rule.muxPattern
            (wrapTrustedProxies env (chain base) rule.trustedProxies) h' =
            (.ok (acc.mux ++ [(rule.muxPattern,
              wrapTrustedProxies env (chain base) rule.trustedProxies)]), h') := by
          simp only [handleFunc, haccepts, if_true]
          rfl
        refine ⟨_, bind_run_ok hmux, ?_, ?_⟩
        · simp [hacc.mux]
        · intro pattern
          simp [hacc.patterns, or_comm]
      next haccepts =>
        exact bind_run_error (by simp only [handleFunc, haccepts]; rfl)

def NoClash (earlier rule : PathRule) : Prop := ¬ rule.shape.Clash earlier.shape

instance (earlier rule : PathRule) : Decidable (NoClash earlier rule) :=
  inferInstanceAs (Decidable (¬ _))

theorem accepts_iff_noClash (unicodeName : List Char → Bool) (hrule : GlobPattern rule.pattern)
    (hearlier : ∀ r ∈ earlier, GlobPattern r.pattern) :
    accepts unicodeName (earlier.map PathRule.muxPattern) rule.muxPattern = true ↔
      ∀ r ∈ earlier, NoClash r rule := by
  obtain ⟨segs, hparse, hlast, hshape⟩ := parsePattern_muxPattern unicodeName hrule
  simp only [accepts, hparse, List.all_map, List.all_eq_true]
  refine forall₂_congr fun r hr => ?_
  obtain ⟨segs', hparse', hlast', hshape'⟩ := parsePattern_muxPattern unicodeName (hearlier r hr)
  simp [hparse', NoClash, ← hshape, ← hshape', ← conflictsWith_iff_clash hlast hlast']

section

variable (env ctx defaultHandler) (unicodeName : List Char → Bool)

theorem foldlM_addPathRule {rules : List PathRule}
    (hearlier : ∀ r ∈ earlier, GlobPattern r.pattern) (hrules : ∀ r ∈ rules, GlobPattern r.pattern)
    (hacc : Registered earlier acc) (hpairwise : earlier.Pairwise NoClash) (h : Metrics.Manager) :
    if (earlier ++ admitted env ctx defaultHandler earlier rules h).Pairwise NoClash then
      (∃ failure h', rules.foldlM
          (addPathRule (env.withServeMux unicodeName) ctx defaultHandler) acc h =
            (.error failure, h') ∧ NoPanic failure) ∨
        ∃ acc' h', rules.foldlM
            (addPathRule (env.withServeMux unicodeName) ctx defaultHandler) acc h =
              (.ok acc', h') ∧ Registered (earlier ++ rules) acc'
    else
      ∃ pattern h', rules.foldlM
        (addPathRule (env.withServeMux unicodeName) ctx defaultHandler) acc h =
          (.error (.panic pattern), h') := by
  induction rules generalizing earlier acc h with
  | nil =>
    simp only [admitted, List.append_nil, hpairwise, if_true]
    exact .inr ⟨acc, h, rfl, hacc⟩
  | cons rule rest ih =>
    rw [List.foldlM_cons]
    have hearlier' : ∀ r ∈ earlier ++ [rule], GlobPattern r.pattern := by
      simpa [or_imp, forall_and] using ⟨hearlier, hrules rule (by simp)⟩
    by_cases hrefused : Refused (env.withServeMux unicodeName) ctx defaultHandler earlier rule h
    · have hadmitted : admitted env ctx defaultHandler earlier (rule :: rest) h = [] :=
        if_pos hrefused
      simp only [hadmitted, List.append_nil, hpairwise, if_true]
      obtain ⟨failure, h', hrun, hno⟩ := addPathRule_of_refused hacc hrefused
      exact .inl ⟨failure, h', bind_run_error hrun, hno⟩
    · have hadmitted : admitted env ctx defaultHandler earlier (rule :: rest) h =
          rule :: admitted env ctx defaultHandler (earlier ++ [rule]) rest
            (ruleChain env ctx rule h).2 := if_neg hrefused
      have hstep := addPathRule_of_not_refused hacc hrefused
      have haccepts := accepts_iff_noClash unicodeName (hrules rule (by simp)) hearlier
      change if accepts unicodeName _ _ = true then _ else _ at hstep
      split at hstep
      next hyes =>
        obtain ⟨acc', hrun, hacc'⟩ := hstep
        change _ = (_, (ruleChain env ctx rule h).2) at hrun
        have hpairwise' : (earlier ++ [rule]).Pairwise NoClash := by
          simpa [List.pairwise_append, hpairwise] using haccepts.mp hyes
        have ih := ih hearlier' (fun r hr => hrules r (by simp [hr])) hacc' hpairwise'
          (ruleChain env ctx rule h).2
        simpa only [bind_run_ok hrun, hadmitted, List.append_assoc,
          List.singleton_append] using ih
      next hno =>
        rw [hadmitted, if_neg]
        · exact ⟨_, _, bind_run_error hstep⟩
        · intro hpairwise
          refine hno (haccepts.mpr fun r hr => ?_)
          exact (List.pairwise_append.mp hpairwise).2.2 r hr rule (by simp)

theorem muxPattern_of_root (hrule : GlobPattern rule.pattern) (hroot : rule.shape.segments = []) :
    rule.muxPattern = "/" ∨ rule.muxPattern = "/" ++ catchAll := by
  have hseg : ruleSegments rule.pattern = [""] ∨ ruleSegments rule.pattern = ["*"] := by
    rw [PathRule.shape] at hroot
    match hsegs : ruleSegments rule.pattern with
    | [] => exact absurd hsegs hrule.segments.ne_nil
    | [seg] =>
      simp only [hsegs, globShape] at hroot
      split at hroot
      next hempty => simpa using hempty
      next =>
        split at hroot
        · cases hroot
        · cases hroot
    | seg :: next :: rest =>
      simp [hsegs, globShape, Shape.cons] at hroot
  have hpattern : rule.muxPattern = normalizePattern rule.pattern := by
    have hcovering : ensureSubtree (normalizePattern rule.pattern) =
        normalizePattern rule.pattern := by
      obtain hsegs | hsegs := hseg
      · exact ensureSubtree_of_covering hrule (hsegs.trans (List.nil_append _).symm) (.inl rfl)
      · exact ensureSubtree_of_covering hrule (hsegs.trans (List.nil_append _).symm)
          (.inr (by decide))
    simp [PathRule.muxPattern, hcovering]
  have htext := toList_normalizePattern hrule.rooted
  rw [hpattern]
  refine hseg.imp (fun hsegs => ?_) (fun hsegs => ?_)
  · rw [← String.toList_inj, htext, hsegs]
    decide
  · rw [← String.toList_inj, htext, hsegs]
    decide

/-- The rule that the default catch-all stands for. -/
def rootRule : PathRule := { pattern := "/" }

theorem noClash_rootRule (h : rule.shape.segments ≠ []) : NoClash rule rootRule := by
  have hroot : rootRule.shape = ⟨[], true⟩ := by decide
  have hpos : 0 < rule.shape.segments.length := List.length_pos_iff.mpr h
  simp [NoClash, hroot, Shape.Clash, Shape.Wider, hpos]

theorem addCatchAll_ok {rules : List PathRule} (hrules : ∀ r ∈ rules, GlobPattern r.pattern)
    (hacc : Registered rules acc) (h : Metrics.Manager) :
    ∃ mux, addCatchAll (env.withServeMux unicodeName) defaultHandler acc h = (.ok mux, h) := by
  by_cases hroot : "/" ∈ acc.registeredPatterns ∨ "/" ++ catchAll ∈ acc.registeredPatterns
  · refine ⟨acc.mux, ?_⟩
    have hcond : ¬ ((!decide ("/" ∈ acc.registeredPatterns)) = true ∧
        (!decide ("/" ++ catchAll ∈ acc.registeredPatterns)) = true) := by
      simpa [or_iff_not_imp_left] using hroot
    simp only [addCatchAll, if_neg hcond]
    rfl
  · have haccepts : accepts unicodeName (rules.map PathRule.muxPattern) rootRule.muxPattern =
        true := by
      refine (accepts_iff_noClash unicodeName (by decide) hrules).mpr fun r hr => ?_
      refine noClash_rootRule fun hempty => hroot ?_
      have hmem := (hacc.patterns r.muxPattern).mpr (List.mem_map_of_mem hr)
      obtain heq | heq := muxPattern_of_root (hrules r hr) hempty
      · exact .inl (heq ▸ hmem)
      · exact .inr (heq ▸ hmem)
    have hcond : (!decide ("/" ∈ acc.registeredPatterns)) = true ∧
        (!decide ("/" ++ catchAll ∈ acc.registeredPatterns)) = true := by
      simpa [not_or] using hroot
    refine ⟨acc.mux ++ [("/", defaultHandler)], ?_⟩
    have hroot : rootRule.muxPattern = "/" := by decide
    rw [hroot, ← hacc.mux] at haccepts
    simp only [addCatchAll, if_pos hcond, handleFunc]
    exact congrFun (if_pos haccepts) h

end

/-- Registering the path rules of a route does not panic exactly when no two of the rules that the
loop comes to clash. -/
theorem buildPathDispatcher_no_panic_iff (env : Env) (unicodeName : List Char → Bool)
    (ctx : BuildContext) (defaultHandler : Handler) {pathRules : List PathRule}
    (hpatterns : ∀ rule ∈ pathRules, GlobPattern rule.pattern) (h : Metrics.Manager) :
    (∀ pattern, (buildPathDispatcher (env.withServeMux unicodeName) ctx defaultHandler
        pathRules h).1 ≠ .error (.panic pattern)) ↔
      (admitted env ctx defaultHandler [] pathRules h).Pairwise NoClash := by
  have hstart : Registered [] {} := ⟨rfl, by simp⟩
  have hrun := foldlM_addPathRule env ctx defaultHandler unicodeName (by simp) hpatterns hstart
    .nil h
  rw [List.nil_append] at hrun
  split at hrun
  next hpairwise =>
    refine iff_of_true (fun pattern => ?_) hpairwise
    obtain ⟨failure, h', hrun, hno⟩ | ⟨acc, h', hrun, hacc⟩ := hrun
    · rw [buildPathDispatcher, bind_run_error hrun]
      exact fun heq => hno pattern (Except.error.inj heq)
    · obtain ⟨mux, hcatch⟩ := addCatchAll_ok env defaultHandler unicodeName hpatterns hacc h'
      rw [buildPathDispatcher, bind_run_ok hrun, bind_run_ok hcatch]
      intro heq
      cases heq
  next hclash =>
    refine iff_of_false (fun hno => ?_) hclash
    obtain ⟨pattern, h', hrun⟩ := hrun
    refine hno pattern ?_
    rw [buildPathDispatcher, bind_run_error hrun]

end

def backendRule (pattern : String) : PathRule where
  pattern := pattern
  backend := some { address := "http://10.0.0.5" }
  disableDefaults := true

def plainRule (pattern : String) : PathRule where
  pattern := pattern
  disableDefaults := true

def levelRules : List PathRule :=
  [plainRule "/users/*", backendRule "/users/me/jobs", plainRule "/health"]

theorem no_panic_levelRules :
    (admitted sampleEnv { hasMetricsManager := false } (fun _ => []) [] levelRules
        Metrics.Manager.new).Pairwise NoClash ∧
      ∀ pattern, (buildPathDispatcher (sampleEnv.withServeMux fun _ => false)
        { hasMetricsManager := false } (fun _ => []) levelRules Metrics.Manager.new).1 ≠
          .error (.panic pattern) := by
  have hpairwise : (admitted sampleEnv { hasMetricsManager := false } (fun _ => []) [] levelRules
      Metrics.Manager.new).Pairwise NoClash := by decide +kernel
  exact ⟨hpairwise, (buildPathDispatcher_no_panic_iff _ _ _ _ (by decide +kernel) _).mpr hpairwise⟩

/-- A rule with a backend is widened to the pattern of another rule, after the check for
duplicates. -/
theorem widened_pattern_panics :
    (∀ rule ∈ [plainRule "/api/*", backendRule "/api"], GlobPattern rule.pattern) ∧
      (buildPathDispatcher (sampleEnv.withServeMux fun _ => false) { hasMetricsManager := false }
        (fun _ => []) [plainRule "/api/*", backendRule "/api"] Metrics.Manager.new).1 =
          .error (.panic "/api/\x7bpath...\x7d") :=
  ⟨by decide +kernel, by rfl⟩

end Torii.Proxy
