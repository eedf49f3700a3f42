import Torii.TrustedProxy.Matcher

/-!
# Resolving the client address

`Resolve` of `internal/trustedproxy/trusted_proxies.go`. The header of a trusted peer is read from
the right: blank entries and trusted hops are skipped, and the first entry that is unparseable or
untrusted names the client.
-/

namespace Torii.TrustedProxy

open Go Go.Http Go.Net Go.Netip Strings

namespace Matcher

/-- The loop over the entries, here from the right end of the list. -/
def scan (m : Matcher) (remotePort : String) : List String → Option String
  | [] => none
  | part :: parts =>
    let candidate := Strings.trimSpace part
    if candidate = "" then m.scan remotePort parts
    else
      match parseAddr candidate with
      | none => some (joinHostPort candidate remotePort)
      | some cAddr =>
        if m.isTrusted cAddr then m.scan remotePort parts
        else some (joinHostPort cAddr.string remotePort)

def resolve (m : Matcher) (req : Request) : String :=
  match splitHostPort req.remoteAddr with
  | none => req.remoteAddr
  | some (remoteIP, remotePort) =>
    match parseAddr remoteIP with
    | none => req.remoteAddr
    | some addr =>
      if m.isTrusted addr then
        let headerVal := req.header.get m.header
        if headerVal = "" then req.remoteAddr
        else
          let parts := Strings.split headerVal ','
          match m.scan remotePort parts.reverse with
          | some client => client
          | none =>
            let first := Strings.trimSpace (parts.headD "")
            if first ≠ "" then joinHostPort first remotePort else req.remoteAddr
      else req.remoteAddr

/-- `WrapHandler`; the second argument of `next` is the `ClientIP` of the request context. -/
def wrapHandler {α : Type*} (m : Matcher) (next : Request → String → α) (req : Request) : α :=
  let resolved := m.resolve req
  next (if resolved ≠ req.remoteAddr then { req with remoteAddr := resolved } else req) resolved

theorem wrapHandler_eq {α : Type*} (m : Matcher) (next : Request → String → α) (req : Request) :
    m.wrapHandler next req = next { req with remoteAddr := m.resolve req } (m.resolve req) := by
  rw [wrapHandler]
  split
  · rfl
  · next h =>
    rw [Classical.not_not] at h
    rw [h]

end Matcher

section

variable (m : Matcher)

/-- The peer is a trusted proxy, and its connection has this port. -/
def RemoteTrusted (remoteAddr port : String) : Prop :=
  ∃ host addr, splitHostPort remoteAddr = some (host, port) ∧ parseAddr host = some addr ∧
    m.isTrusted addr = true

/-- The host that an entry names as the client: a non-blank entry that does not parse is
taken as it is, a parsed one only if it is not trusted. -/
def namedClient (entry : String) : Option String :=
  let candidate := Strings.trimSpace entry
  if candidate = "" then none
  else
    match parseAddr candidate with
    | none => some candidate
    | some addr => if m.isTrusted addr then none else some addr.string

def rightmostClient (entries : List String) : Option String :=
  (entries.filterMap (namedClient m)).getLast?

theorem rightmostClient_append (xs ys : List String) :
    rightmostClient m (xs ++ ys) = (rightmostClient m ys).or (rightmostClient m xs) := by
  simp [rightmostClient]

theorem rightmostClient_isSome {entries : List String} :
    (rightmostClient m entries).isSome ↔ ∃ entry ∈ entries, (namedClient m entry).isSome := by
  rw [rightmostClient, List.getLast?_isSome, ne_eq, List.filterMap_eq_nil_iff]
  simp [Option.isSome_iff_ne_none]

theorem scan_eq_rightmostClient (port : String) (entries : List String) :
    m.scan port entries.reverse = (rightmostClient m entries).map (joinHostPort · port) := by
  induction entries using List.reverseRecOn with
  | nil => rfl
  | append_singleton entries last ih =>
    rw [List.reverse_append, List.reverse_singleton, List.singleton_append,
      rightmostClient_append, Matcher.scan]
    have hlast : rightmostClient m [last] = namedClient m last := by
      cases h : namedClient m last <;> simp [rightmostClient, h]
    rw [hlast, namedClient]
    split
    · simpa using ih
    · cases parseAddr (trimSpace last) with
      | none => simp
      | some addr =>
        simp only
        split
        · simpa using ih
        · simp

/-- What `Resolve` answers to a trusted peer whose header has these entries. -/
def answer (remoteAddr port : String) (entries : List String) : String :=
  match rightmostClient m entries with
  | some client => joinHostPort client port
  | none =>
    if Strings.trimSpace (entries.headD "") ≠ "" then
      joinHostPort (Strings.trimSpace (entries.headD "")) port
    else remoteAddr

theorem resolve_of_not_remoteTrusted (req : Request)
    (h : ∀ port, ¬ RemoteTrusted m req.remoteAddr port) : m.resolve req = req.remoteAddr := by
  rw [Matcher.resolve]
  cases hsplit : splitHostPort req.remoteAddr with
  | none => rfl
  | some hostPort =>
    obtain ⟨host, port⟩ := hostPort
    cases hparse : parseAddr host with
    | none => simp only [hparse]
    | some addr =>
      have hno : m.isTrusted addr = false := by
        rw [← Bool.not_eq_true]
        exact fun htrusted => h port ⟨host, addr, hsplit, hparse, htrusted⟩
      simp [hparse, hno]

theorem resolve_of_remoteTrusted (req : Request) {port : String}
    (h : RemoteTrusted m req.remoteAddr port) :
    m.resolve req =
      answer m req.remoteAddr port (Strings.split (req.header.get m.header) ',') := by
  obtain ⟨host, addr, hsplit, hparse, htrusted⟩ := h
  rw [Matcher.resolve, hsplit]
  simp only [hparse, htrusted, if_true, scan_eq_rightmostClient]
  split
  · next hempty =>
    have hblank : trimSpace "" = "" := by decide
    have hsplit' : split "" ',' = [""] := by decide
    rw [hempty, hsplit']
    simp [answer, rightmostClient, namedClient, hblank]
  · rw [answer]
    cases rightmostClient m (split (req.header.get m.header) ',') <;> rfl

theorem split_join_lines (line : String) (lines : List String) :
    Strings.split (Strings.join (line :: lines) ',') ',' =
      (line :: lines).flatMap (Strings.split · ',') := by
  induction lines generalizing line with
  | nil => simp [join, List.intercalate]
  | cons next lines ih =>
    rw [join_cons (by simp), split_append_sep, ih]
    rfl

theorem answer_append {xs ys : List String} {client : String}
    (h : rightmostClient m ys = some client) (remoteAddr port : String) :
    answer m remoteAddr port (xs ++ ys) = joinHostPort client port := by
  simp [answer, rightmostClient_append, h]

theorem answer_append_of_none {x : String} {xs ys : List String}
    (h : rightmostClient m ys = none) (remoteAddr port : String) :
    answer m remoteAddr port (x :: xs ++ ys) = answer m remoteAddr port (x :: xs) := by
  rw [answer, rightmostClient_append, h, Option.none_or, List.cons_append, answer, List.headD_cons,
    List.headD_cons]

/-- Two requests from the same peer. An untrusted peer resolves to itself whatever its
header says. For a trusted peer, header values with a common right part that names a
client resolve to the same address. -/
theorem resolve_unspoofable (req₁ req₂ : Request) (hremote : req₁.remoteAddr = req₂.remoteAddr) :
    ((∀ port, ¬ RemoteTrusted m req₁.remoteAddr port) →
      m.resolve req₁ = req₁.remoteAddr ∧ m.resolve req₂ = req₁.remoteAddr) ∧
    ∀ port p₁ p₂ s : String, RemoteTrusted m req₁.remoteAddr port →
      req₁.header.get m.header = p₁ ++ "," ++ s →
      req₂.header.get m.header = p₂ ++ "," ++ s →
      (∃ entry ∈ Strings.split s ',', Strings.trimSpace entry ≠ "" ∧
        ∀ addr, parseAddr (Strings.trimSpace entry) = some addr → m.isTrusted addr = false) →
      m.resolve req₁ = m.resolve req₂ := by
  refine ⟨?_, ?_⟩
  · intro h
    refine ⟨resolve_of_not_remoteTrusted m req₁ h, ?_⟩
    rw [hremote]
    exact resolve_of_not_remoteTrusted m req₂ (by rwa [← hremote])
  · rintro port p₁ p₂ s htrusted h₁ h₂ ⟨entry, hentry, hblank, hdecides⟩
    have hnamed : (namedClient m entry).isSome := by
      rw [namedClient]
      simp only [hblank, if_false]
      cases hparse : parseAddr (trimSpace entry) with
      | none => rfl
      | some addr => simp [hdecides addr hparse]
    obtain ⟨client, hclient⟩ :=
      Option.isSome_iff_exists.mp ((rightmostClient_isSome m).mpr ⟨entry, hentry, hnamed⟩)
    have hsep : "," = String.singleton ',' := by decide
    rw [resolve_of_remoteTrusted m req₁ htrusted,
      resolve_of_remoteTrusted m req₂ (hremote ▸ htrusted), h₁, h₂, hsep,
      split_append_sep, split_append_sep, answer_append m hclient,
      answer_append m hclient]

def sampleRequest (lines : List String) : Request where
  remoteAddr := "10.0.0.1:4711"
  header := Header.withLines ∅ m.header lines

/-- A trusted peer, with a forged entry at the left of the header. -/
theorem resolve_unspoofable_forged :
    ∃ m, newTrustedProxyResolver ["10.0.0.0/8"] "" = .ok m ∧
      RemoteTrusted m "10.0.0.1:4711" "4711" ∧
      m.resolve (sampleRequest m ["127.0.0.1,203.0.113.7, 10.0.0.2"]) =
        m.resolve (sampleRequest m ["::1,203.0.113.7, 10.0.0.2"]) := by
  have htrusted : RemoteTrusted ⟨some (buildTrieTree ["10.0.0.0/8"]), "X-Forwarded-For"⟩
      "10.0.0.1:4711" "4711" :=
    ⟨"10.0.0.1", .v4 0x0A000001, by decide, by decide +kernel, by decide +kernel⟩
  have haddr : parseAddr (trimSpace "203.0.113.7") = some (.v4 0xCB007107) := by
    decide +kernel
  refine ⟨_, rfl, htrusted, ?_⟩
  refine (resolve_unspoofable ⟨some (buildTrieTree ["10.0.0.0/8"]), "X-Forwarded-For"⟩
    (sampleRequest _ ["127.0.0.1,203.0.113.7, 10.0.0.2"])
    (sampleRequest _ ["::1,203.0.113.7, 10.0.0.2"]) rfl).2
    "4711" "127.0.0.1" "::1" "203.0.113.7, 10.0.0.2" htrusted (by decide +kernel)
    (by decide +kernel) ⟨"203.0.113.7", by decide +kernel, by decide +kernel, ?_⟩
  intro addr hparse
  rw [haddr] at hparse
  cases hparse
  decide +kernel

/-- The later lines agree with the first one: if they name a client, the first line names
the same one, or it names none and falls back to the same text. -/
def LaterLinesAgree (remoteAddr port line : String) (lines : List String) : Prop :=
  ∀ client, rightmostClient m (lines.flatMap (Strings.split · ',')) = some client →
    rightmostClient m (Strings.split line ',') = some client ∨
      rightmostClient m (Strings.split line ',') = none ∧
        let first := Strings.trimSpace ((Strings.split line ',').headD "")
        (first ≠ "" → client = first) ∧ (first = "" → joinHostPort client port = remoteAddr)

theorem answer_flatMap_iff (remoteAddr port line : String) (lines : List String) :
    answer m remoteAddr port (Strings.split line ',') =
        answer m remoteAddr port ((line :: lines).flatMap (Strings.split · ',')) ↔
      LaterLinesAgree m remoteAddr port line lines := by
  rw [List.flatMap_cons]
  obtain ⟨x, xs, hxs⟩ := List.exists_cons_of_ne_nil (split_ne_nil line ',')
  cases hlater : rightmostClient m (lines.flatMap (split · ',')) with
  | none =>
    rw [hxs, answer_append_of_none m hlater]
    simp [LaterLinesAgree, hlater]
  | some client =>
    rw [answer_append m hlater, answer]
    simp only [LaterLinesAgree, hlater, Option.some.injEq, forall_eq']
    cases rightmostClient m (split line ',') with
    | some own =>
      simp only [Option.some.injEq, reduceCtorEq, false_and, or_false]
      exact ⟨fun heq => joinHostPort_inj heq, fun heq => heq ▸ rfl⟩
    | none =>
      simp only [reduceCtorEq, true_and, false_or]
      by_cases hfirst : trimSpace ((split line ',').headD "") = ""
      · simp only [hfirst, ne_eq, not_true_eq_false, if_false, false_implies, true_and,
          forall_const]
        exact eq_comm
      · simp only [hfirst, not_false_eq_true, if_true, ne_eq, forall_const, false_implies,
          and_true]
        exact ⟨fun heq => (joinHostPort_inj heq).symm, fun heq => heq ▸ rfl⟩

theorem RemoteTrusted.port_eq {remoteAddr port port' : String}
    (h : RemoteTrusted m remoteAddr port) (h' : RemoteTrusted m remoteAddr port') :
    port' = port := by
  obtain ⟨host, addr, hsplit, -, -⟩ := h
  obtain ⟨host', addr', hsplit', -, -⟩ := h'
  rw [hsplit] at hsplit'
  cases hsplit'
  rfl

/-- Several lines resolve as their joined form exactly when the peer is not a trusted proxy
or the lines after the first one change nothing: only the first line is read. -/
theorem resolve_joined_iff (req : Request) (line : String) (lines : List String) :
    m.resolve { req with header := req.header.withLines m.header (line :: lines) } =
        m.resolve { req with
          header := req.header.withLines m.header [Strings.join (line :: lines) ','] } ↔
      ∀ port, RemoteTrusted m req.remoteAddr port →
        LaterLinesAgree m req.remoteAddr port line lines := by
  by_cases htrusted : ∃ port, RemoteTrusted m req.remoteAddr port
  · obtain ⟨port, htrusted⟩ := htrusted
    have hresolve := fun h : Header =>
      resolve_of_remoteTrusted m { req with header := h } htrusted
    rw [hresolve, hresolve, Header.get_withLines, Header.get_withLines, List.headD_cons,
      List.headD_cons, split_join_lines, answer_flatMap_iff]
    constructor
    · intro hagree port' htrusted'
      rwa [htrusted.port_eq m htrusted']
    · intro hagree
      exact hagree port htrusted
  · have hnone : ∀ port, ¬ RemoteTrusted m req.remoteAddr port :=
      fun port ht => htrusted ⟨port, ht⟩
    have hresolve := fun h : Header =>
      resolve_of_not_remoteTrusted m { req with header := h } hnone
    rw [hresolve, hresolve]
    simp [hnone]

end

/-- A client forges a line and the trusted proxy appends its own: the forged line wins,
while the joined header resolves to the peer that the proxy saw. -/
theorem resolve_takes_first_line :
    let m : Matcher := ⟨some (buildTrieTree ["10.0.0.0/8"]), "X-Forwarded-For"⟩
    m.resolve (sampleRequest m ["192.0.2.1", "203.0.113.7"]) = "192.0.2.1:4711" ∧
      m.resolve (sampleRequest m [Strings.join ["192.0.2.1", "203.0.113.7"] ',']) =
        "203.0.113.7:4711" := by
  decide +kernel

end Torii.TrustedProxy
