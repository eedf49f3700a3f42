import Torii.Proxy.Counting

/-!
# The forms of a Host header

`VirtualHostDispatcher.ServeHTTP` of `proxy/host_dispatcher.go` cuts the port off when the value
contains a colon, and `reverseAndTokenizeHost` of `proxy/host_trie_tree.go` tries the same again. An
IPv6 literal in brackets without a port contains colons but has no port to cut off, so it is
refused.
-/

namespace Torii.Proxy

open Go Go.Http Torii.Middleware Strings

/-- A registered name or an IPv4 literal. -/
structure HostName where
  text : String
  plain : ∀ c ∈ text.toList, c ≠ ':' ∧ c ≠ '[' ∧ c ≠ ']'
  noDot : text.toList.getLast? ≠ some '.'

structure Ipv6Literal where
  text : String
  plain : ∀ c ∈ text.toList, c ≠ '[' ∧ c ≠ ']'
  colons : 2 ≤ text.toList.count ':'
  noDot : text.toList.getLast? ≠ some '.'

structure PortDigits where
  text : String
  digits : ∀ c ∈ text.toList, c.isDigit = true

/-- A host as it is written; a name may end in a dot. -/
inductive HostForm where
  | name (name : HostName) (dot : Bool)
  | ipv6 (literal : Ipv6Literal)

structure HostValue where
  form : HostForm
  port : Option PortDigits

namespace HostForm

def text : HostForm → String
  | .name host dot => host.text ++ if dot then "." else ""
  | .ipv6 literal => "[" ++ literal.text ++ "]"

def host : HostForm → String
  | .name host dot => host.text ++ if dot then "." else ""
  | .ipv6 literal => literal.text

def base : HostForm → String
  | .name host _ => host.text
  | .ipv6 literal => literal.text

/-- The same host up to case and the dot at its end. -/
def Alike (lower : Char → Char) : HostForm → HostForm → Prop
  | .name host _, .name host' _ =>
    Strings.toLower lower host.text = Strings.toLower lower host'.text
  | .ipv6 literal, .ipv6 literal' =>
    Strings.toLower lower literal.text = Strings.toLower lower literal'.text
  | _, _ => False

end HostForm

def HostValue.text (v : HostValue) : String :=
  match v.port with
  | none => v.form.text
  | some port => v.form.text ++ ":" ++ port.text

def HostValue.BareIpv6 (v : HostValue) : Prop := v.port = none ∧ ∃ literal, v.form = .ipv6 literal

/-! ### What `SplitHostPort` makes of the forms -/

section

theorem splitHostPort_of_no_colon {s : String} (h : ':' ∉ s.toList) :
    Net.splitHostPort s = none := by
  rw [Net.splitHostPort, Net.splitLast_eq_none_iff.mpr h]

theorem PortDigits.not_mem (port : PortDigits) {c : Char} (hc : c.isDigit = false) :
    c ∉ port.text.toList := by
  intro hmem
  rw [port.digits c hmem] at hc
  cases hc

theorem splitHostPort_name {s : String} (hs : ∀ c ∈ s.toList, c ≠ ':' ∧ c ≠ '[' ∧ c ≠ ']')
    (port : PortDigits) : Net.splitHostPort (s ++ ":" ++ port.text) = some (s, port.text) := by
  have hlist : (s ++ ":" ++ port.text).toList = s.toList ++ ':' :: port.text.toList := by simp
  have hcolon : ':' ∉ s.toList := fun h => (hs _ h).1 rfl
  have hbracket : ∀ c, c.isDigit = false → c ≠ ':' → c ∉ s.toList →
      c ∉ s.toList ++ ':' :: port.text.toList := by
    intro c hdigit hc hs
    simp only [List.mem_append, List.mem_cons, not_or]
    exact ⟨hs, hc, port.not_mem hdigit⟩
  have hopen := hbracket '[' (by decide) (by decide) fun h => (hs _ h).2.1 rfl
  have hclose := hbracket ']' (by decide) (by decide) fun h => (hs _ h).2.2 rfl
  have hhead : (s.toList ++ ':' :: port.text.toList).head? ≠ some '[' := fun h =>
    hopen (List.mem_of_head? h)
  rw [Net.splitHostPort, hlist, Net.splitLast_append (port.not_mem (by decide))]
  simp only [if_neg hhead, hcolon, hopen, hclose, or_self, if_false, String.ofList_toList]

theorem idxOf?_append_cons {c : Char} {t : List Char} (h : c ∉ t) (rest : List Char) :
    (t ++ c :: rest).idxOf? c = some t.length := by
  induction t with
  | nil => simp [List.idxOf?_cons]
  | cons d t ih =>
    have hd : (d == c) = false := by
      rw [beq_eq_false_iff_ne]
      rintro rfl
      exact h List.mem_cons_self
    simp [List.idxOf?_cons, hd, ih fun hmem => h (List.mem_cons_of_mem _ hmem)]

section

variable (literal : Ipv6Literal)

theorem Ipv6Literal.not_mem_close : ']' ∉ '[' :: literal.text.toList := by
  simp only [List.mem_cons, not_or]
  exact ⟨by decide, fun h => (literal.plain _ h).2 rfl⟩

theorem splitHostPort_ipv6 (port : PortDigits) :
    Net.splitHostPort ("[" ++ literal.text ++ "]" ++ ":" ++ port.text) =
      some (literal.text, port.text) := by
  have hlist : ("[" ++ literal.text ++ "]" ++ ":" ++ port.text).toList =
      ('[' :: literal.text.toList ++ [']']) ++ ':' :: port.text.toList := by simp
  have hindex : (('[' :: literal.text.toList ++ [']']) ++ ':' :: port.text.toList).idxOf? ']' =
      some (literal.text.toList.length + 1) := by
    rw [List.append_assoc]
    exact idxOf?_append_cons literal.not_mem_close _
  have hopen : '[' ∉ (('[' :: literal.text.toList ++ [']']) ++ ':' :: port.text.toList).drop 1 := by
    simp only [List.cons_append, List.drop_one, List.tail_cons, List.mem_append, List.mem_cons,
      List.not_mem_nil, or_false, not_or]
    exact ⟨⟨fun h => (literal.plain _ h).1 rfl, by decide⟩, by decide, port.not_mem (by decide)⟩
  have hclose : ']' ∉ (('[' :: literal.text.toList ++ [']']) ++ ':' :: port.text.toList).drop
      (literal.text.toList.length + 1 + 1) := by
    rw [List.drop_left' (by simp)]
    simp only [List.mem_cons, not_or]
    exact ⟨by decide, port.not_mem (by decide)⟩
  rw [Net.splitHostPort, hlist, Net.splitLast_append (port.not_mem (by decide))]
  simp only [hindex, hopen, hclose, or_self, if_false]
  simp

theorem splitHostPort_bareIpv6 : Net.splitHostPort ("[" ++ literal.text ++ "]") = none := by
  have hlist : ("[" ++ literal.text ++ "]").toList = '[' :: literal.text.toList ++ [']'] := by simp
  have hindex : ('[' :: literal.text.toList ++ [']']).idxOf? ']' =
      some (literal.text.toList.length + 1) := idxOf?_append_cons literal.not_mem_close []
  rw [Net.splitHostPort, hlist]
  cases hlast : Net.splitLast ':' ('[' :: literal.text.toList ++ [']']) with
  | none => rfl
  | some halves =>
    obtain ⟨before, port⟩ := halves
    -- the last colon lies before the closing bracket
    have hlen := congrArg List.length (Net.eq_append_of_splitLast hlast).1
    simp only [List.length_append, List.length_cons, List.length_nil] at hlen
    have hne : ¬ literal.text.toList.length + 1 + 1 = before.length := by omega
    simp only [hindex, if_neg hne]
    rfl

theorem splitHostPort_literal : Net.splitHostPort literal.text = none := by
  rw [Net.splitHostPort]
  cases hlast : Net.splitLast ':' literal.text.toList with
  | none => rfl
  | some halves =>
    obtain ⟨before, port⟩ := halves
    obtain ⟨htext, hport⟩ := Net.eq_append_of_splitLast hlast
    have hbefore : ':' ∈ before := by
      have hcount := literal.colons
      rw [htext, List.count_append, List.count_cons_self, List.count_eq_zero.mpr hport] at hcount
      exact List.count_pos_iff.mp (by omega)
    have hhead : literal.text.toList.head? ≠ some '[' := fun h =>
      (literal.plain _ (List.mem_of_head? h)).1 rfl
    simp [hhead, hbefore]

theorem Ipv6Literal.colon_mem : ':' ∈ literal.text.toList :=
  List.count_pos_iff.mp (by have := literal.colons; omega)

end

end

/-! ### The labels of a host -/

section

variable (lower : Char → Char)

theorem HostName.colon_not_mem (host : HostName) (dot : Bool) :
    ∀ c ∈ (host.text ++ if dot then "." else "").toList, c ≠ ':' ∧ c ≠ '[' ∧ c ≠ ']' := by
  intro c hc
  rw [String.toList_append, List.mem_append] at hc
  obtain hc | hc := hc
  · exact host.plain c hc
  · cases dot with
    | false => simp at hc
    | true =>
      obtain rfl : c = '.' := by simpa using hc
      decide

theorem splitHostPort_host (form : HostForm) : Net.splitHostPort form.host = none := by
  cases form with
  | name host dot => exact splitHostPort_of_no_colon fun h => (host.colon_not_mem dot _ h).1 rfl
  | ipv6 literal => exact splitHostPort_literal literal

theorem trimSuffix_host (form : HostForm) : Strings.trimSuffix form.host '.' = form.base := by
  cases form with
  | name host dot =>
    cases dot with
    | false =>
      have hhost : (HostForm.name host false).host = host.text := by simp [HostForm.host]
      rw [hhost, trimSuffix, if_neg host.noDot]
      rfl
    | true =>
      have hlist : (HostForm.name host true).host.toList = host.text.toList ++ ['.'] := by
        simp [HostForm.host]
      rw [trimSuffix, hlist]
      simp [HostForm.base]
  | ipv6 literal => exact if_neg literal.noDot

theorem hostLabels_host (form : HostForm) :
    hostLabels lower form.host = Strings.split (Strings.toLower lower form.base) '.' := by
  simp only [hostLabels, splitHostPort_host, trimSuffix_host]

theorem HostForm.Alike.contains {H : Type*} {lower : Char → Char} {form form' : HostForm}
    (h : form.Alike lower form') (t : HostTrie H) :
    t.contains lower form.host = t.contains lower form'.host := by
  have hbase : toLower lower form.base = toLower lower form'.base := by
    cases form with
    | name =>
      cases form' with
      | name => exact h
      | ipv6 literal' => exact h.elim
    | ipv6 literal =>
      cases form' with
      | name => exact h.elim
      | ipv6 literal' => exact h
  rw [HostTrie.contains, HostTrie.contains, reverseAndTokenizeHost, reverseAndTokenizeHost,
    hostLabels_host, hostLabels_host, hbase]

end

/-! ### Which handler is called -/

/-- The handler that `ServeHTTP` calls for a Host header, or nothing when it answers 502. -/
def VirtualHostDispatcher.select (d : VirtualHostDispatcher) (lower : Char → Char)
    (hostHeader : String) : Option Handler :=
  let host :=
    if Strings.contains hostHeader ":" then (Net.splitHostPort hostHeader).map Prod.fst
    else some hostHeader
  host.bind fun host => (d.routeTrie.contains lower host).or d.default_

theorem VirtualHostDispatcher.serveHTTP_eq_select (d : VirtualHostDispatcher) (env : Env)
    (r : Inbound) :
    d.serveHTTP env r =
      match d.select env.lower r.host with
      | some handler => handler r
      | none => [.answered "Bad Gateway"] := by
  simp only [VirtualHostDispatcher.serveHTTP, VirtualHostDispatcher.select]
  cases (if contains r.host ":" then (Net.splitHostPort r.host).map Prod.fst
    else some r.host) with
  | none => rfl
  | some host =>
    simp only [Option.bind_some]
    cases d.routeTrie.contains env.lower host with
    | none => cases d.default_ <;> rfl
    | some handler => rfl

theorem contains_colon_iff (s : String) : Strings.contains s ":" = true ↔ ':' ∈ s.toList := by
  have hnone := indexList_eq_none_iff (s := s.toList) (show ":".toList ≠ [] by decide)
  have hsingle : ":".toList <:+: s.toList ↔ ':' ∈ s.toList := List.singleton_infix_iff ':' s.toList
  rw [contains, index, ← hsingle, ← not_iff_not, ← hnone]
  simp

section

variable (d : VirtualHostDispatcher) (lower : Char → Char)

theorem select_of_no_colon {s : String} (h : ':' ∉ s.toList) :
    d.select lower s = (d.routeTrie.contains lower s).or d.default_ := by
  have hcontains : ¬ contains s ":" = true := fun hc => h ((contains_colon_iff s).mp hc)
  simp [VirtualHostDispatcher.select, if_neg hcontains]

theorem select_of_colon {s : String} (h : ':' ∈ s.toList) :
    d.select lower s = ((Net.splitHostPort s).map Prod.fst).bind fun host =>
      (d.routeTrie.contains lower host).or d.default_ := by
  simp [VirtualHostDispatcher.select, if_pos ((contains_colon_iff s).mpr h)]

theorem select_of_bareIpv6 {v : HostValue} (h : v.BareIpv6) : d.select lower v.text = none := by
  obtain ⟨form, port⟩ := v
  obtain ⟨rfl, literal, rfl⟩ := h
  have hcolon : ':' ∈ (HostValue.mk (.ipv6 literal) none).text.toList := by
    simp [HostValue.text, HostForm.text, literal.colon_mem]
  rw [select_of_colon d lower hcolon]
  simp [HostValue.text, HostForm.text, splitHostPort_bareIpv6]

theorem select_of_not_bareIpv6 {v : HostValue} (h : ¬ v.BareIpv6) :
    d.select lower v.text = (d.routeTrie.contains lower v.form.host).or d.default_ := by
  obtain ⟨form, port⟩ := v
  cases port with
  | none =>
    cases form with
    | name host dot =>
      exact select_of_no_colon d lower fun hmem => (host.colon_not_mem dot _ hmem).1 rfl
    | ipv6 literal => exact absurd ⟨rfl, literal, rfl⟩ h
  | some port =>
    have hcolon : ':' ∈ (HostValue.mk form (some port)).text.toList := by
      simp [HostValue.text]
    rw [select_of_colon d lower hcolon]
    cases form with
    | name host dot =>
      simp [HostValue.text, HostForm.text, splitHostPort_name (host.colon_not_mem dot),
        HostForm.host]
    | ipv6 literal =>
      simp [HostValue.text, HostForm.text, splitHostPort_ipv6, HostForm.host]

end

/-- The value is served by the handler for its host without the port, or by the default. -/
def Routed (d : VirtualHostDispatcher) (lower : Char → Char) (v : HostValue) : Prop :=
  d.select lower v.text = (d.routeTrie.contains lower v.form.host).or d.default_

theorem routed_iff_of_value (d : VirtualHostDispatcher) (lower : Char → Char) (v : HostValue) :
    Routed d lower v ↔
      ¬ v.BareIpv6 ∨ d.routeTrie.contains lower v.form.host = none ∧ d.default_ = none := by
  by_cases hbare : v.BareIpv6
  · rw [Routed, select_of_bareIpv6 d lower hbare, eq_comm, Option.or_eq_none_iff]
    simp [hbare]
  · exact iff_of_true (select_of_not_bareIpv6 d lower hbare) (.inl hbare)

/-- Two values of the Host header that differ in case, port or the dot at the end are both served
by the handler for their host, and by the same one, exactly when neither is an IPv6 literal
without a port, or there is nothing to serve them. -/
theorem routed_iff (env : Env) (d : VirtualHostDispatcher) (v v' : HostValue)
    (halike : v.form.Alike env.lower v'.form) :
    (∀ r, d.serveHTTP env r =
        match d.select env.lower r.host with
        | some handler => handler r
        | none => [.answered "Bad Gateway"]) ∧
      ((Routed d env.lower v ∧ Routed d env.lower v' ∧
          d.select env.lower v.text = d.select env.lower v'.text) ↔
        ¬ v.BareIpv6 ∧ ¬ v'.BareIpv6 ∨
          d.routeTrie.contains env.lower v.form.host = none ∧ d.default_ = none) := by
  refine ⟨d.serveHTTP_eq_select env, ?_⟩
  have hcontains := halike.contains d.routeTrie
  constructor
  · rintro ⟨hrouted, hrouted', -⟩
    rw [routed_iff_of_value] at hrouted hrouted'
    rw [← hcontains] at hrouted'
    obtain hbare | hnothing := hrouted
    · exact hrouted'.imp (fun hbare' => ⟨hbare, hbare'⟩) id
    · exact .inr hnothing
  · intro h
    have hrouted : Routed d env.lower v := (routed_iff_of_value d env.lower v).mpr
      (h.imp And.left id)
    have hrouted' : Routed d env.lower v' := (routed_iff_of_value d env.lower v').mpr
      (h.imp And.right fun hnothing => by rwa [← hcontains])
    refine ⟨hrouted, hrouted', ?_⟩
    rw [hrouted, hrouted', hcontains]

def exampleHost : HostValue where
  form := .name ⟨"Example.com", by simp, by decide⟩ true
  port := none

def exampleHostPort : HostValue where
  form := .name ⟨"example.com", by simp, by decide⟩ false
  port := some ⟨"8080", by simp⟩

def loopback : HostValue where
  form := .ipv6 ⟨"::1", by simp, by decide, by decide⟩
  port := none

def defaultOnly : VirtualHostDispatcher where
  default_ := some fun _ => [.answered "default"]

theorem routed_exampleHost :
    exampleHost.text = "Example.com." ∧ exampleHostPort.text = "example.com:8080" ∧
      Routed defaultOnly sampleEnv.lower exampleHost ∧
      defaultOnly.select sampleEnv.lower exampleHost.text =
        defaultOnly.select sampleEnv.lower exampleHostPort.text := by
  have halike : exampleHost.form.Alike sampleEnv.lower exampleHostPort.form := by
    change toLower Char.toLower "Example.com" = toLower Char.toLower "example.com"
    decide
  have hname : ¬ exampleHost.BareIpv6 := by
    rintro ⟨-, _, ⟨⟩⟩
  have hport : ¬ exampleHostPort.BareIpv6 := by
    rintro ⟨⟨⟩, -⟩
  obtain ⟨hrouted, -, hsame⟩ :=
    (routed_iff sampleEnv defaultOnly exampleHost exampleHostPort halike).2.mpr
      (.inl ⟨hname, hport⟩)
  exact ⟨by decide, by decide, hrouted, hsame⟩

/-- The loopback literal without a port is answered with 502 although there is a default. -/
theorem bareIpv6_refused :
    loopback.text = "[::1]" ∧
      defaultOnly.serveHTTP sampleEnv { remoteAddr := "", header := ∅, host := "[::1]" } =
        [.answered "Bad Gateway"] ∧
      defaultOnly.serveHTTP sampleEnv { remoteAddr := "", header := ∅, host := "[::1]:80" } =
        [.answered "default"] := by
  decide

end Torii.Proxy
