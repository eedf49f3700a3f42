import Torii.Lib.Refinement
import Torii.Middleware.Headers

/-!
# The header policy of a configuration

What the options of the header middleware ask of the final block of a response, and which rules
`parseConfiguration` makes of them: those of `set-headers-res` in some order, then those of
`strip-headers-res`.
-/

namespace Torii.Middleware

open Go Go.Http Torii.Util HeaderRule

/-! ### The rules of a configuration -/

namespace HeaderRule

/-- What a rule makes the values under a key, if it changes them. -/
def assigns (key : String) : HeaderRule → Option (List String)
  | .setResponse header value => if canonicalHeaderKey header = key then some [value] else none
  | .stripResponse header => if canonicalHeaderKey header = key then some [] else none
  | .setRequest _ _ => none
  | .compareRequest _ _ => none
  | .stripRequest _ => none

theorem lookup_applyResponse (rule : HeaderRule) (h : Header) (key : String) :
    (rule.applyResponse h).lookup key = (rule.assigns key).or (h.lookup key) := by
  cases rule with
  | setResponse | stripResponse =>
    simp only [applyResponse, Header.set, Header.withLines, GoMap.lookup_insert', assigns,
      eq_comm (a := key)]
    split <;> rfl
  | setRequest | compareRequest | stripRequest => rfl

end HeaderRule

theorem lookup_applyResponses (rules : List HeaderRule) (h : Header) (key : String) :
    (applyResponses rules h).lookup key =
      (rules.reverse.findSome? (·.assigns key)).or (h.lookup key) := by
  induction rules generalizing h with
  | nil => rfl
  | cons rule rules ih =>
    have hcons : applyResponses (rule :: rules) h = applyResponses rules (rule.applyResponse h) :=
      rfl
    rw [hcons, ih, lookup_applyResponse, List.reverse_cons, List.findSome?_append,
      List.findSome?_singleton, Option.or_assoc]

section

variable (src : Sources) (opts : GoMap String OptionValue)

/-- `set-headers-res` gives a value to a name. -/
def SetsResponse (name value : String) : Prop :=
  ∃ fields raw text, opts.lookup "set-headers-res" = some (.map fields) ∧
    (raw, OptionValue.string text) ∈ fields ∧ canonicalHeaderKey raw = name ∧
    compileStaticValueResolver src text = .ok value

/-- `strip-headers-res` has a name. -/
def StripsResponse (name : String) : Prop :=
  ∃ values raw, opts.lookup "strip-headers-res" = some (.list values) ∧
    OptionValue.string raw ∈ values ∧ canonicalHeaderKey raw = name

def Enforced (h : Header) : Prop :=
  (∀ name value, SetsResponse src opts name value → ¬ StripsResponse opts name →
    h.lines name = [value]) ∧
  ∀ name, StripsResponse opts name → h.lines name = []

def Consistent : Prop :=
  ∀ name value value', SetsResponse src opts name value → SetsResponse src opts name value' →
    ¬ StripsResponse opts name → value = value'

section

variable {src opts} {key : String} {rule : HeaderRule} {rules : List HeaderRule}
  {setFunc : String → String → Except HeadersError HeaderRule} {order : List String}

theorem mem_parseConfigMap (h : parseConfigMap opts key order setFunc = .ok rules) :
    rule ∈ rules ↔ ∃ fields raw text, opts.lookup key = some (.map fields) ∧
      (raw, OptionValue.string text) ∈ fields ∧
      setFunc (canonicalHeaderKey raw) text = .ok rule := by
  rw [parseConfigMap] at h
  split at h
  · next hnone =>
    cases h
    simp [hnone]
  · next fields hfields =>
    -- an empty key would have ended the loop with an error
    have hfield : ∀ raw text, (raw, OptionValue.string text) ∈ fields →
        parseField key setFunc (raw, .string text) = setFunc (canonicalHeaderKey raw) text := by
      intro raw text hmem
      obtain ⟨rule', hrule'⟩ := Except.ok_of_mapM h (mem_rangeFields.mpr hmem)
      simp only [parseField] at hrule' ⊢
      split at hrule'
      · cases hrule'
      · next hne => rw [if_neg hne]
    rw [Except.mem_mapM h]
    constructor
    · rintro ⟨⟨raw, value⟩, hmem, hrule⟩
      rw [mem_rangeFields] at hmem
      cases value with
      | string text => exact ⟨fields, raw, text, hfields, hmem, (hfield raw text hmem) ▸ hrule⟩
      | null | bool | int | float | list | map => cases hrule
    · rintro ⟨fields', raw, text, hfields', hmem, hrule⟩
      rw [hfields] at hfields'
      cases hfields'
      exact ⟨(raw, .string text), mem_rangeFields.mpr hmem, (hfield raw text hmem).trans hrule⟩
  · cases h

theorem mem_parseConfigSlice {setFunc : String → HeaderRule}
    (h : parseConfigSlice opts key setFunc = .ok rules) :
    rule ∈ rules ↔ ∃ values raw, opts.lookup key = some (.list values) ∧
      OptionValue.string raw ∈ values ∧ setFunc raw = rule := by
  rw [parseConfigSlice] at h
  split at h
  · next hnone =>
    cases h
    simp [hnone]
  · next values hvalues =>
    have helement : ∀ raw, OptionValue.string raw ∈ values →
        parseElement key setFunc (.string raw) = .ok (setFunc raw) := by
      intro raw hmem
      obtain ⟨rule', hrule'⟩ := Except.ok_of_mapM h hmem
      simp only [parseElement] at hrule' ⊢
      split at hrule'
      · cases hrule'
      · next hne => rw [if_neg hne]
    rw [Except.mem_mapM h]
    constructor
    · rintro ⟨value, hmem, hrule⟩
      cases value with
      | string raw =>
        rw [helement raw hmem] at hrule
        exact ⟨values, raw, hvalues, hmem, Except.ok.inj hrule⟩
      | null | bool | int | float | list | map => cases hrule
    · rintro ⟨values', raw, hvalues', hmem, rfl⟩
      rw [hvalues] at hvalues'
      cases hvalues'
      exact ⟨.string raw, hmem, helement raw hmem⟩
  · cases h

theorem assigns_of_parseConfigMap (h : parseConfigMap opts key order setFunc = .ok rules)
    (hfunc : ∀ name text rule, setFunc name text = .ok rule → ∀ k, rule.assigns k = none) :
    ∀ rule ∈ rules, ∀ k, rule.assigns k = none := by
  intro rule hrule
  obtain ⟨_, raw, text, -, -, hset⟩ := (mem_parseConfigMap h).mp hrule
  exact hfunc _ _ _ hset

theorem mem_setResponses (h : parseConfigMap opts "set-headers-res" order setFunc = .ok rules)
    (hfunc : ∀ name text rule, setFunc name text = .ok rule ↔
      ∃ value, compileStaticValueResolver src text = .ok value ∧ rule = .setResponse name value) :
    rule ∈ rules ↔
      ∃ name value, rule = .setResponse name value ∧ SetsResponse src opts name value := by
  rw [mem_parseConfigMap h]
  constructor
  · rintro ⟨fields, raw, text, hfields, hmem, hrule⟩
    obtain ⟨value, hvalue, rfl⟩ := (hfunc _ _ _).mp hrule
    exact ⟨_, value, rfl, fields, raw, text, hfields, hmem, rfl, hvalue⟩
  · rintro ⟨_, value, rfl, fields, raw, text, hfields, hmem, rfl, hvalue⟩
    exact ⟨fields, raw, text, hfields, hmem, (hfunc _ _ _).mpr ⟨value, hvalue, rfl⟩⟩

theorem setResponse_not_mem {name value : String}
    (h : ∀ rule ∈ rules, ∀ k, rule.assigns k = none) : .setResponse name value ∉ rules := by
  intro hmem
  have hnone := h _ hmem (canonicalHeaderKey name)
  rw [assigns, if_pos rfl] at hnone
  cases hnone

/-- The rules for the response: those of `set-headers-res`, then those of `strip-headers-res`. -/
structure ResponseRules (src : Sources) (opts : GoMap String OptionValue)
    (before strips : List HeaderRule) : Prop where
  set_iff : ∀ name value,
    .setResponse name value ∈ before ↔ SetsResponse src opts name value
  strip_iff : ∀ name, .stripResponse name ∈ strips ↔ StripsResponse opts name
  before_cases : ∀ rule ∈ before,
    (∃ name value, rule = .setResponse name value) ∨ ∀ key, rule.assigns key = none
  strips_cases : ∀ rule ∈ strips, ∃ name, rule = .stripResponse name

theorem parseConfiguration_spec {orders : RangeOrders} {conf : Config}
    (hopts : conf.options = some opts) (h : parseConfiguration src orders conf = .ok rules) :
    ∃ before strips, rules = before ++ strips ∧ ResponseRules src opts before strips := by
  rw [parseConfiguration, hopts] at h
  obtain ⟨setReq, hsetReq, h⟩ := Except.bind_eq_ok.mp h
  obtain ⟨cmpReq, hcmpReq, h⟩ := Except.bind_eq_ok.mp h
  obtain ⟨setRes, hsetRes, h⟩ := Except.bind_eq_ok.mp h
  obtain ⟨stripReq, hstripReq, h⟩ := Except.bind_eq_ok.mp h
  obtain ⟨stripRes, hstripRes, h⟩ := Except.bind_eq_ok.mp h
  cases h
  -- the rules for the request assign nothing to the block of the response
  have hsetReq' := assigns_of_parseConfigMap hsetReq (by
    intro name text rule hrule
    split at hrule <;> cases hrule
    exact fun _ => rfl)
  have hcmpReq' := assigns_of_parseConfigMap hcmpReq (by
    intro name text rule hrule
    split at hrule <;> cases hrule
    exact fun _ => rfl)
  have hstripReq' : ∀ rule ∈ stripReq, ∀ k, rule.assigns k = none := by
    intro rule hrule
    obtain ⟨_, raw, -, -, rfl⟩ := (mem_parseConfigSlice hstripReq).mp hrule
    exact fun _ => rfl
  have hsetRes' : ∀ rule, rule ∈ setRes ↔
      ∃ name value, rule = .setResponse name value ∧ SetsResponse src opts name value := by
    intro rule
    refine mem_setResponses hsetRes fun name text rule => ?_
    cases compileStaticValueResolver src text <;> simp [eq_comm]
  refine ⟨setReq ++ cmpReq ++ setRes ++ stripReq, stripRes, rfl, ?_, ?_, ?_, ?_⟩
  · intro name value
    simp [hsetRes', setResponse_not_mem hsetReq', setResponse_not_mem hcmpReq',
      setResponse_not_mem hstripReq']
  · intro name
    rw [mem_parseConfigSlice hstripRes]
    simp only [stripResponse.injEq]
    rfl
  · intro rule hrule
    simp only [List.mem_append, hsetRes'] at hrule
    obtain ((h | h) | h) | h := hrule
    · exact .inr (hsetReq' rule h)
    · exact .inr (hcmpReq' rule h)
    · obtain ⟨name, value, rfl, -⟩ := h
      exact .inl ⟨name, value, rfl⟩
    · exact .inr (hstripReq' rule h)
  · intro rule hrule
    obtain ⟨_, raw, -, -, hrule⟩ := (mem_parseConfigSlice hstripRes).mp hrule
    exact ⟨_, hrule.symm⟩

end

section

variable {src opts} {before strips : List HeaderRule}

theorem SetsResponse.canonical {name value : String} (h : SetsResponse src opts name value) :
    canonicalHeaderKey name = name := by
  obtain ⟨_, raw, _, -, -, rfl, -⟩ := h
  exact canonicalHeaderKey_idem raw

theorem StripsResponse.canonical {name : String} (h : StripsResponse opts name) :
    canonicalHeaderKey name = name := by
  obtain ⟨_, raw, -, -, rfl⟩ := h
  exact canonicalHeaderKey_idem raw

namespace ResponseRules

theorem findSome?_strips (R : ResponseRules src opts before strips) {name : String}
    (h : StripsResponse opts name) : strips.reverse.findSome? (·.assigns name) = some [] := by
  have hmem : stripResponse name ∈ strips.reverse :=
    List.mem_reverse.mpr ((R.strip_iff name).mpr h)
  cases hfind : strips.reverse.findSome? (·.assigns name) with
  | none =>
    have hnone := List.findSome?_eq_none_iff.mp hfind _ hmem
    rw [assigns, if_pos h.canonical] at hnone
    cases hnone
  | some values =>
    obtain ⟨rule, hrule, hvalues⟩ := List.exists_of_findSome?_eq_some hfind
    obtain ⟨name', rfl⟩ := R.strips_cases rule (List.mem_reverse.mp hrule)
    rw [assigns] at hvalues
    split at hvalues
    · exact hvalues.symm
    · cases hvalues

theorem findSome?_strips_none (R : ResponseRules src opts before strips) {name : String}
    (h : ¬ StripsResponse opts name) : strips.reverse.findSome? (·.assigns name) = none := by
  rw [List.findSome?_eq_none_iff]
  intro rule hrule
  have hmem := List.mem_reverse.mp hrule
  obtain ⟨name', rfl⟩ := R.strips_cases rule hmem
  have hstrips := (R.strip_iff name').mp hmem
  rw [assigns, if_neg]
  intro hname
  rw [hstrips.canonical] at hname
  exact h (hname ▸ hstrips)

theorem findSome?_before (R : ResponseRules src opts before strips) {name value : String}
    (h : SetsResponse src opts name value) :
    ∃ value', SetsResponse src opts name value' ∧
      before.reverse.findSome? (·.assigns name) = some [value'] := by
  have hmem : setResponse name value ∈ before.reverse :=
    List.mem_reverse.mpr ((R.set_iff name value).mpr h)
  cases hfind : before.reverse.findSome? (·.assigns name) with
  | none =>
    have hnone := List.findSome?_eq_none_iff.mp hfind _ hmem
    rw [assigns, if_pos h.canonical] at hnone
    cases hnone
  | some values =>
    obtain ⟨rule, hrule, hvalues⟩ := List.exists_of_findSome?_eq_some hfind
    have hrule := List.mem_reverse.mp hrule
    obtain ⟨name', value', rfl⟩ | hnone := R.before_cases rule hrule
    · have hsets := (R.set_iff name' value').mp hrule
      rw [assigns, hsets.canonical] at hvalues
      split at hvalues
      · next hname =>
        subst hname
        cases hvalues
        exact ⟨value', hsets, rfl⟩
      · cases hvalues
    · rw [hnone] at hvalues
      cases hvalues

variable (R : ResponseRules src opts before strips) (h : Header)

include R in
theorem lookup_of_strips {name : String} (hstrips : StripsResponse opts name) :
    (applyResponses (before ++ strips) h).lookup name = some [] := by
  rw [lookup_applyResponses, List.reverse_append, List.findSome?_append,
    R.findSome?_strips hstrips, Option.some_or, Option.some_or]

include R in
theorem lookup_of_sets {name value : String} (hsets : SetsResponse src opts name value)
    (hstrips : ¬ StripsResponse opts name) :
    ∃ value', SetsResponse src opts name value' ∧
      (applyResponses (before ++ strips) h).lookup name = some [value'] := by
  obtain ⟨value', hsets', hfind⟩ := R.findSome?_before hsets
  refine ⟨value', hsets', ?_⟩
  rw [lookup_applyResponses, List.reverse_append, List.findSome?_append,
    R.findSome?_strips_none hstrips, Option.none_or, hfind, Option.some_or]

theorem otherSpelling_applyResponses (rules : List HeaderRule) (h : Header) (name : String) :
    (applyResponses rules h).OtherSpelling name ↔ h.OtherSpelling name := by
  have hsame : ∀ key, canonicalHeaderKey key ≠ key →
      (applyResponses rules h).lookup key = h.lookup key := by
    intro key hkey
    have hnone : rules.reverse.findSome? (·.assigns key) = none := by
      rw [List.findSome?_eq_none_iff]
      intro rule _
      have hne : ∀ header, canonicalHeaderKey header ≠ key := by
        rintro header rfl
        exact hkey (canonicalHeaderKey_idem header)
      cases rule with
      | setResponse header value | stripResponse header => rw [assigns, if_neg (hne header)]
      | setRequest | compareRequest | stripRequest => rfl
    rw [lookup_applyResponses, hnone, Option.none_or]
  refine exists_congr fun key => exists_congr fun values => and_congr_left ?_
  rintro ⟨hne, hname, -⟩
  rw [hsame key (by rw [hname]; exact hne.symm)]

include R in
theorem enforced_iff :
    Enforced src opts (applyResponses (before ++ strips) h) ↔
      Consistent src opts ∧
        ∀ name, StripsResponse opts name ∨ (∃ value, SetsResponse src opts name value) →
          ¬ h.OtherSpelling name := by
  constructor
  · rintro ⟨hset, hstrip⟩
    refine ⟨?_, ?_⟩
    · intro name value value' hsets hsets' hkept
      have hlines := hset name value hsets hkept
      rw [hset name value' hsets' hkept] at hlines
      exact (List.cons.inj hlines).1.symm
    · intro name hname
      rw [← otherSpelling_applyResponses (before ++ strips)]
      by_cases hstrips : StripsResponse opts name
      · rw [← Header.lines_eq_nil_of_lookup hstrips.canonical (R.lookup_of_strips h hstrips)]
        exact hstrip name hstrips
      · obtain ⟨value, hsets⟩ := hname.resolve_left hstrips
        obtain ⟨value', -, hlookup⟩ := R.lookup_of_sets h hsets hstrips
        exact ((Header.lines_eq_singleton_of_lookup hsets.canonical hlookup).mp
          (hset name value hsets hstrips)).2
  · rintro ⟨hconsistent, hother⟩
    refine ⟨?_, ?_⟩
    · intro name value hsets hstrips
      obtain ⟨value', hsets', hlookup⟩ := R.lookup_of_sets h hsets hstrips
      rw [Header.lines_eq_singleton_of_lookup hsets.canonical hlookup,
        otherSpelling_applyResponses]
      exact ⟨hconsistent name value' value hsets' hsets hstrips,
        hother name (.inr ⟨value, hsets⟩)⟩
    · intro name hstrips
      rw [Header.lines_eq_nil_of_lookup hstrips.canonical (R.lookup_of_strips h hstrips),
        otherSpelling_applyResponses]
      exact hother name (.inl hstrips)

end ResponseRules

end

end

/-! ### The middleware -/

section

variable {src : Sources} {orders : RangeOrders} {conf : Config} {rules : List HeaderRule}
  {r r' : ClientRequest} {w : ServerReply}

theorem final_headersMiddleware (hparse : parseConfiguration src orders conf = .ok rules)
    (hpass : applyRequests rules r = .ok r') (next : ClientRequest → List HandlerCall)
    (hopen : w.settled = false) :
    (headersMiddleware src orders conf (fun r => proxied (next r)) w r).1.final.block =
      if startsInformational (next r') then (w.after (proxied (next r'))).final.block
      else applyResponses rules (w.after (proxied (next r'))).final.block := by
  rw [headersMiddleware, hparse]
  cases rules with
  | nil =>
    cases hpass
    exact (ite_self _).symm
  | cons =>
    simp only [hpass]
    exact HeadersWriter.final_run hopen (next r')

end

def frameOptions : GoMap String OptionValue :=
  AList.insert "set-headers-res" (.map [("x-frame-options", .string "DENY")]) ∅

def noSources : Sources := ⟨fun _ => .error "", fun _ => none⟩

theorem setsResponse_frameOptions {name value : String} :
    SetsResponse noSources frameOptions name value ↔ name = "X-Frame-Options" ∧ value = "DENY" := by
  have hfields : frameOptions.lookup "set-headers-res" =
      some (.map [("x-frame-options", .string "DENY")]) := by
    rw [frameOptions, AList.lookup_insert]
  have hkey : canonicalHeaderKey "x-frame-options" = "X-Frame-Options" := by decide +kernel
  have hvalue : compileStaticValueResolver noSources "DENY" = .ok "DENY" := by rfl
  constructor
  · rintro ⟨fields, raw, text, hlookup, hmem, rfl, htext⟩
    rw [hfields] at hlookup
    cases hlookup
    simp only [List.mem_cons, List.not_mem_nil, or_false, Prod.mk.injEq,
      OptionValue.string.injEq] at hmem
    obtain ⟨rfl, rfl⟩ := hmem
    rw [hvalue] at htext
    exact ⟨hkey, (Except.ok.inj htext).symm⟩
  · rintro ⟨rfl, rfl⟩
    exact ⟨_, _, _, hfields, List.mem_singleton.mpr rfl, hkey, hvalue⟩

theorem not_stripsResponse_frameOptions (name : String) : ¬ StripsResponse frameOptions name := by
  rintro ⟨values, raw, hlookup, -⟩
  rw [frameOptions, GoMap.lookup_insert', if_neg (by decide)] at hlookup
  cases hlookup

def earlyHints : List HandlerCall :=
  [.edit fun h => h.set "Link" "</a.css>; rel=preload",
    .writeHeader ⟨103, by decide, by decide⟩,
    .edit fun h => h.set "Content-Type" "text/html",
    .writeHeader .ok, .write [104, 105]]

end Torii.Middleware
