import Torii.Go.Map
import Torii.Go.Strings
import Torii.Go.Time

/-!
# The table of API keys

`internal/sqlite/api_key.go`. A row keeps its scopes as a comma-separated text and its expiry date
as an RFC 3339 text. Every method is one transaction.
-/

namespace Torii.ApiKeys

open Go

abbrev Scope := String

/-- `map[Scope]byte`, a set of scopes. -/
abbrev Scopes := GoMap Scope UInt8

structure ApiKey where
  id : Nat
  keyAlias : String
  key : String
  scopes : Scopes
  expires : Nat
  createdAt : Int

def availableScopesMap : Scopes := AList.singleton "read_stats" 1

/-- `marshalScopes`; `order` is the order of the range loop. -/
def marshalScopes (order : List Scope) (scopes : Scopes) : String :=
  if scopes.len = 0 then "" else Strings.join (scopes.rangeKeys order) ','

/-- One turn of the loop of `unmarshalScopes`. -/
def addScope (m : Scopes) (s : String) : Scopes :=
  let trimmed := Strings.trimSpace s
  if trimmed ≠ "" then m.insert trimmed 1 else m

def unmarshalScopes (csv : String) : Scopes :=
  if csv = "" then ∅ else (Strings.split csv ',').foldl addScope ∅

def PlainScope (s : Scope) : Prop :=
  s ≠ "" ∧ ∀ c ∈ s.toList, c ≠ ',' ∧ Strings.isSpace c = false

instance (s : Scope) : Decidable (PlainScope s) :=
  @instDecidableAnd _ _ _ (List.decidableBAll _ _)

theorem mem_foldl_addScope {parts : List String} (hparts : ∀ s ∈ parts, PlainScope s)
    (m : Scopes) (scope : Scope) :
    scope ∈ parts.foldl addScope m ↔ scope ∈ parts ∨ scope ∈ m := by
  induction parts generalizing m with
  | nil => simp
  | cons s parts ih =>
    have hplain := hparts s List.mem_cons_self
    have htrim : Strings.trimSpace s = s :=
      Strings.trimSpace_of_forall fun c hc => (hplain.2 c hc).2
    rw [List.foldl_cons, ih fun s hs => hparts s (List.mem_cons_of_mem _ hs)]
    simp only [addScope, htrim, ne_eq, hplain.1, not_false_eq_true, if_true, AList.mem_insert,
      List.mem_cons]
    exact or_left_comm.trans or_assoc.symm

theorem mem_unmarshalScopes_marshalScopes {scopes : Scopes} (order : List Scope)
    (hplain : ∀ s ∈ scopes, PlainScope s) (scope : Scope) :
    scope ∈ unmarshalScopes (marshalScopes order scopes) ↔ scope ∈ scopes := by
  have hkeys : ∀ s ∈ scopes.rangeKeys order, PlainScope s :=
    fun s hs => hplain s (GoMap.mem_rangeKeys.mp hs)
  by_cases hlen : scopes.len = 0
  · have hnone : ∀ s, s ∉ scopes := by
      intro s hs
      have hnil : scopes.entries = [] := List.length_eq_zero_iff.mp hlen
      rw [AList.mem_keys, AList.keys, hnil] at hs
      cases hs
    simp [marshalScopes, hlen, unmarshalScopes, hnone]
  · have hne : scopes.rangeKeys order ≠ [] := by
      obtain ⟨e, he⟩ := List.exists_mem_of_length_pos (Nat.pos_of_ne_zero hlen)
      have hmem : e.1 ∈ scopes := AList.mem_keys.mpr (List.mem_map_of_mem he)
      exact List.ne_nil_of_mem (GoMap.mem_rangeKeys.mpr hmem)
    have hsplit : Strings.split (Strings.join (scopes.rangeKeys order) ',') ',' =
        scopes.rangeKeys order :=
      Strings.split_join hne fun s hs hc => ((hkeys s hs).2 ',' hc).1 rfl
    have htext : Strings.join (scopes.rangeKeys order) ',' ≠ "" := by
      intro hempty
      have hone : scopes.rangeKeys order = [""] := by
        rw [← hsplit, hempty]
        decide
      exact (hkeys "" (by simp [hone])).1 rfl
    rw [marshalScopes, if_neg hlen, unmarshalScopes, if_neg htext, hsplit,
      mem_foldl_addScope hkeys, GoMap.mem_rangeKeys]
    simp

structure Row where
  id : Nat
  keyAlias : String
  key : String
  scopes : String
  expiresAt : Option String
  createdAt : Int

structure Store where
  rows : List Row
  nextId : Nat
  alias_nodup : (rows.map Row.keyAlias).Nodup
  key_nodup : (rows.map Row.key).Nodup

inductive StoreError where
  | uniqueAlias
  | uniqueKey
  | unavailable
deriving DecidableEq

namespace Store

def empty : Store := ⟨[], 1, List.nodup_nil, List.nodup_nil⟩

/-- The row that `NewApiKey` inserts. -/
def newRow (layout : Time.RFC3339) (order : List Scope) (id : Nat) (key : ApiKey) : Row where
  id := id
  keyAlias := key.keyAlias
  key := key.key
  scopes := marshalScopes order key.scopes
  expiresAt := if key.expires ≠ 0 then some (layout.format key.expires) else none
  createdAt := key.createdAt

def newApiKey (layout : Time.RFC3339) (order : List Scope) (s : Store) (key : ApiKey) :
    Except StoreError Store :=
  if ha : key.keyAlias ∈ s.rows.map Row.keyAlias then .error .uniqueAlias
  else if hk : key.key ∈ s.rows.map Row.key then .error .uniqueKey
  else .ok
    { rows := newRow layout order s.nextId key :: s.rows
      nextId := s.nextId + 1
      alias_nodup := List.nodup_cons.mpr ⟨ha, s.alias_nodup⟩
      key_nodup := List.nodup_cons.mpr ⟨hk, s.key_nodup⟩ }

/-- `DeleteApiKey`; deleting no row is not an error. -/
def deleteApiKey (s : Store) (keyAlias : String) : Store where
  rows := s.rows.filter (·.keyAlias ≠ keyAlias)
  nextId := s.nextId
  alias_nodup := s.alias_nodup.sublist (List.filter_sublist.map _)
  key_nodup := s.key_nodup.sublist (List.filter_sublist.map _)

/-- `IsKeyValidForScope`. An expiry text that does not parse is ignored. -/
def isKeyValidForScope (layout : Time.RFC3339) (s : Store) (now : Nat) (key : String)
    (scope : Scope) : Bool :=
  match s.rows.find? (·.key = key) with
  | none => false
  | some row =>
    let expired :=
      match row.expiresAt with
      | none => false
      | some text =>
        match layout.parse text with
        | none => false
        | some t => decide (t < now)
    if expired then false else decide (scope ∈ unmarshalScopes row.scopes)

/-- The key of a row; a missing or unreadable expiry date is the zero time. -/
def rowApiKey (layout : Time.RFC3339) (row : Row) : ApiKey where
  id := row.id
  keyAlias := row.keyAlias
  key := row.key
  scopes := unmarshalScopes row.scopes
  expires := (row.expiresAt.bind layout.parse).getD 0
  createdAt := row.createdAt

def getApiKey (layout : Time.RFC3339) (s : Store) (keyAlias : String) : Option ApiKey :=
  (s.rows.find? (·.keyAlias = keyAlias)).map (rowApiKey layout)

/-- `GetApiKeyByRawKey`; the service passes the hashed key. -/
def getApiKeyByRawKey (layout : Time.RFC3339) (s : Store) (key : String) : Option ApiKey :=
  (s.rows.find? (·.key = key)).map (rowApiKey layout)

theorem mem_of_newApiKey {layout : Time.RFC3339} {order : List Scope} {s s' : Store}
    {key : ApiKey} (h : newApiKey layout order s key = .ok s') (row : Row) :
    row ∈ s'.rows ↔ row = newRow layout order s.nextId key ∨ row ∈ s.rows := by
  unfold newApiKey at h
  grind

theorem mem_deleteApiKey {s : Store} {keyAlias : String} {row : Row} :
    row ∈ (s.deleteApiKey keyAlias).rows ↔ row ∈ s.rows ∧ row.keyAlias ≠ keyAlias := by
  simp [deleteApiKey]

end Store

end Torii.ApiKeys
