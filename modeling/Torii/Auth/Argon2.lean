import Torii.Go.Base64
import Torii.Go.Strconv
import Torii.Go.Strings

/-!
# Argon2 hashes

`internal/auth/argon2.go` writes a hash as five texts behind dollar signs, and
`internal/auth/hasher.go` compares a password with such a text. The key derivation is a function
`idKey` of its arguments; like the library it panics without rounds or threads.
-/

namespace Torii.Auth

open Go Strings Strconv

abbrev itoa (n : Int64) : String := Strconv.itoa n.toInt

structure Argon2Hash where
  algorithmName : String
  version : Int64
  hashedData : List UInt8
  salt : List UInt8
  iterations : Int64
  parallelism : Int64
  memory : Int64
deriving DecidableEq

def argon2id : String := "argon2id"

/-- The keys of `algo_argon2`. -/
def algoArgon2 : List String := ["argon2i", "argon2d", argon2id]

inductive ParameterError where
  | missing (pre parameters : String)
  | number (text : String)
deriving DecidableEq

inductive Argon2Error where
  | unsupportedInput (input : String)
  | invalidFormat
  | unsupportedAlgorithm (algorithmName : String)
  | missingVersion (part : String)
  | invalidVersion (part : String)
  | memory (cause : ParameterError)
  | iterations (cause : ParameterError)
  | parallelism (cause : ParameterError)
  | salt (text : String)
  | hashedData (text : String)
deriving DecidableEq

section

variable (numError corruptInput : String → String) (order : List String)

def ParameterError.message : ParameterError → String
  | .missing pre parameters => "missing parameter " ++ pre ++ " in: " ++ parameters
  | .number text => numError text

def Argon2Error.message : Argon2Error → String
  | .unsupportedInput input => "unsupported input: " ++ input
  | .invalidFormat => "invalid input format"
  | .unsupportedAlgorithm algorithmName =>
    "unsupported algorithm: " ++ algorithmName ++ ". Expected one of: [" ++
      Strings.join order ' ' ++ "]"
  | .missingVersion part => "missing version prefix 'v=' in: " ++ part
  | .invalidVersion part => "invalid version: " ++ part
  | .memory cause => "invalid memory parameter: " ++ cause.message numError
  | .iterations cause => "invalid iterations parameter: " ++ cause.message numError
  | .parallelism cause => "invalid parallelism parameter: " ++ cause.message numError
  | .salt text => "invalid salt: " ++ corruptInput text
  | .hashedData text => "invalid hashed data: " ++ corruptInput text

end

def parseParameter (parameters pre : String) : Except ParameterError Int64 :=
  match (Strings.split parameters ',').find? fun part => pre.toList.isPrefixOf part.toList with
  | none => .error (.missing pre parameters)
  | some part =>
    let text := Strings.trimPrefix part pre
    match atoi text with
    | none => .error (.number text)
    | some n => .ok n

def parseMemory (parameters : String) : Except ParameterError Int64 :=
  parseParameter parameters "m="

def parseIterations (parameters : String) : Except ParameterError Int64 :=
  parseParameter parameters "t="

def parseParallelism (parameters : String) : Except ParameterError Int64 :=
  parseParameter parameters "p="

def parseVersion (part : String) : Except Argon2Error Int64 :=
  if "v=".toList.isPrefixOf part.toList then
    match atoi (Strings.trimPrefix part "v=") with
    | none => .error (.invalidVersion part)
    | some version => .ok version
  else .error (.missingVersion part)

/-- `argon2HashFromString`, on the first five parts. -/
def argon2HashFromString (name version parameters salt hashedData : String) :
    Except Argon2Error Argon2Hash := do
  let algorithmName := Strings.trimSpace name
  if algorithmName ∉ algoArgon2 then throw (.unsupportedAlgorithm algorithmName)
  let version ← parseVersion version
  let memoryKiB ← (parseMemory parameters).mapError .memory
  let iterations ← (parseIterations parameters).mapError .iterations
  let parallelism ← (parseParallelism parameters).mapError .parallelism
  let saltBytes ← (Base64.decodeString salt).elim (throw (.salt salt)) pure
  let hashedBytes ← (Base64.decodeString hashedData).elim (throw (.hashedData hashedData)) pure
  return {
    algorithmName, version, hashedData := hashedBytes, salt := saltBytes, iterations,
    memory := memoryKiB, parallelism }

def fromArgon2String (input : String) : Except Argon2Error Argon2Hash :=
  if "$".toList.isPrefixOf input.toList then
    match Strings.split (Strings.trimPrefix input "$") '$' with
    | name :: version :: parameters :: salt :: hashedData :: _ =>
      argon2HashFromString name version parameters salt hashedData
    | _ => .error .invalidFormat
  else .error (.unsupportedInput input)

namespace Argon2Hash

def parameters (h : Argon2Hash) : String :=
  "t=" ++ itoa h.iterations ++ ",m=" ++ itoa h.memory ++ ",p=" ++ itoa h.parallelism

def toArgon2String (h : Argon2Hash) : String :=
  "$" ++ h.algorithmName ++ "$v=" ++ itoa h.version ++ "$" ++ h.parameters ++ "$" ++
    Base64.encodeToString h.salt ++ "$" ++ Base64.encodeToString h.hashedData

/-- `Equals`, for another hash that is not nil. -/
def equals (h other : Argon2Hash) : Bool :=
  h.version = other.version && h.algorithmName = other.algorithmName &&
    h.iterations = other.iterations && h.parallelism = other.parallelism &&
    h.memory = other.memory && h.hashedData = other.hashedData && h.salt = other.salt

theorem equals_iff (h other : Argon2Hash) : h.equals other = true ↔ h = other := by
  cases h
  cases other
  simp only [equals, Bool.and_eq_true, decide_eq_true_eq, mk.injEq]
  tauto

end Argon2Hash

/-! ### Reading what was written -/

theorem atoi_itoa (n : Int64) : atoi (itoa n) = some n := by
  have hfits : Fits n.toInt := ⟨n.le_toInt, n.toInt_lt⟩
  simp [atoi, itoa, parseInt_itoa hfits]

theorem mem_itoa {n : Int64} {c : Char} (h : c ∈ (itoa n).toList) : c = '-' ∨ c.isDigit = true := by
  have hdigit : ∀ m, c ∈ Nat.toDigits 10 m → c.isDigit = true := fun _ =>
    Nat.isDigit_of_mem_toDigits (by decide) (by decide)
  rw [itoa, toList_itoa] at h
  split at h
  · exact .inr (hdigit _ h)
  · exact (List.mem_cons.mp h).imp_right (hdigit _)

theorem not_mem_itoa {c : Char} (hminus : c ≠ '-') (hdigit : c.isDigit = false) (n : Int64) :
    c ∉ (itoa n).toList := by
  intro h
  obtain h | h := mem_itoa h
  · exact hminus h
  · simp [hdigit] at h

namespace Argon2Hash

def parameterList (h : Argon2Hash) : List String :=
  ["t=" ++ itoa h.iterations, "m=" ++ itoa h.memory, "p=" ++ itoa h.parallelism]

def fields (h : Argon2Hash) : List String :=
  [h.algorithmName, "v=" ++ itoa h.version, h.parameters, Base64.encodeToString h.salt,
    Base64.encodeToString h.hashedData]

variable (h : Argon2Hash)

theorem split_parameters : Strings.split h.parameters ',' = h.parameterList := by
  have hjoin : h.parameters = join h.parameterList ',' := by
    rw [← String.toList_inj]
    simp [parameters, parameterList, join, List.intercalate]
  rw [hjoin]
  apply split_join (by simp [parameterList])
  have hnumber := not_mem_itoa (c := ',') (by decide) (by decide)
  simp [parameterList, hnumber]

theorem split_toArgon2String {h : Argon2Hash} (hname : h.algorithmName ∈ algoArgon2) :
    Strings.split (Strings.trimPrefix h.toArgon2String "$") '$' = h.fields := by
  have hjoin : trimPrefix h.toArgon2String "$" = join h.fields '$' := by
    rw [← String.toList_inj]
    simp [trimPrefix, toArgon2String, fields, join]
  rw [hjoin]
  apply split_join (by simp [fields])
  have hnumber := not_mem_itoa (c := '$') (by decide) (by decide)
  have hbase : ∀ b : List UInt8, '$' ∉ (Base64.encodeToString b).toList :=
    fun b hmem => absurd (Base64.mem_encodeToString hmem) (by decide +kernel)
  have hplain : '$' ∉ h.algorithmName.toList := by
    have hall : algoArgon2.all (fun name => '$' ∉ name.toList) = true := by decide +kernel
    simpa using List.all_eq_true.mp hall _ hname
  simp [fields, parameters, hnumber, hbase, hplain]

theorem trimPrefix_append (pre text : String) : Strings.trimPrefix (pre ++ text) pre = text := by
  rw [← String.toList_inj]
  simp [trimPrefix]

/-- The part that is found is read as the number behind it. -/
theorem parseParameter_of_find {parameters pre : String} {n : Int64}
    (h : (Strings.split parameters ',').find? (fun part => pre.toList.isPrefixOf part.toList) =
      some (pre ++ itoa n)) :
    parseParameter parameters pre = .ok n := by
  rw [parseParameter, h]
  simp only [trimPrefix_append, atoi_itoa]

theorem parseIterations_parameters : parseIterations h.parameters = .ok h.iterations := by
  apply parseParameter_of_find
  simp [split_parameters, parameterList]

theorem parseMemory_parameters : parseMemory h.parameters = .ok h.memory := by
  apply parseParameter_of_find
  simp [split_parameters, parameterList]

theorem parseParallelism_parameters : parseParallelism h.parameters = .ok h.parallelism := by
  apply parseParameter_of_find
  simp [split_parameters, parameterList]

theorem parseVersion_itoa (n : Int64) : parseVersion ("v=" ++ itoa n) = .ok n := by
  rw [parseVersion, if_pos (by simp)]
  simp only [trimPrefix_append, atoi_itoa]

theorem fromArgon2String_toArgon2String {h : Argon2Hash} (hname : h.algorithmName ∈ algoArgon2) :
    fromArgon2String h.toArgon2String = .ok h := by
  have hdollar : "$".toList.isPrefixOf h.toArgon2String.toList = true := by
    simp [toArgon2String]
  have htrim : trimSpace h.algorithmName = h.algorithmName := by
    apply trimSpace_of_forall
    have hall :
        algoArgon2.all (fun name => name.toList.all fun c => !isSpace c) = true := by
      decide +kernel
    simpa using List.all_eq_true.mp hall _ hname
  rw [fromArgon2String, if_pos hdollar, split_toArgon2String hname]
  simp only [fields, argon2HashFromString, htrim, hname, not_true_eq_false, if_false,
    parseVersion_itoa, parseMemory_parameters, parseIterations_parameters,
    parseParallelism_parameters, Base64.decodeString_encodeToString]
  rfl

end Argon2Hash

/-! ### Passwords -/

/-- `argon2.IDKey`: password, salt, rounds, memory, threads and length of the key. -/
abbrev IDKey := List UInt8 → List UInt8 → UInt32 → UInt32 → UInt8 → UInt32 → List UInt8

structure Argon2Hasher where
  memory : UInt32
  iterations : UInt32
  parallelism : UInt8
  keyLength : UInt32

def argon2Version : Int64 := 0x13

inductive CompareError where
  | decoding (cause : Argon2Error)
  | invalidPassword
deriving DecidableEq

def CompareError.message (numError corruptInput : String → String) (order : List String) :
    CompareError → String
  | .decoding cause => cause.message numError corruptInput order
  | .invalidPassword => "invalid password"

section

variable (idKey : IDKey)

/-- `argon2.IDKey` with its panics. -/
def callIDKey (password salt : List UInt8) (time memory : UInt32) (threads : UInt8)
    (keyLen : UInt32) : Except String (List UInt8) :=
  if time < 1 then .error "argon2: number of rounds too small"
  else if threads < 1 then .error "argon2: parallelism degree too low"
  else .ok (idKey password salt time memory threads keyLen)

/-- `hashInternal`; an error is a panic. -/
def hashInternal (version : Int64) (parallelism : UInt8) (iterations memory keyLength : UInt32)
    (password salt : List UInt8) : Except String Argon2Hash := do
  let hash ← callIDKey idKey password salt iterations memory parallelism keyLength
  return {
    algorithmName := argon2id, version, hashedData := hash, salt
    iterations := iterations.toUInt64.toInt64
    memory := memory.toUInt64.toInt64
    parallelism := parallelism.toUInt64.toInt64 }

namespace Argon2Hasher

/-- `CompareHashAndPassword`: the error it returns, unless it panics. -/
def compareHashAndPassword (h : Argon2Hasher) (hashedPwd : String) (password : List UInt8) :
    Except String (Option CompareError) :=
  match fromArgon2String hashedPwd with
  | .error e => .ok (some (.decoding e))
  | .ok arHash => do
      let hash ← hashInternal idKey arHash.version arHash.parallelism.toUInt64.toUInt8
        arHash.iterations.toUInt64.toUInt32 arHash.memory.toUInt64.toUInt32 h.keyLength password
        arHash.salt
      return if hash.equals arHash then none else some .invalidPassword

def hash (h : Argon2Hasher) (password salt : List UInt8) : Except String String := do
  let arHash ← hashInternal idKey argon2Version h.parallelism h.iterations h.memory h.keyLength
    password salt
  return arHash.toArgon2String

/-- The key of a password under the parameters of a hasher. -/
def key (h : Argon2Hasher) (password salt : List UInt8) : List UInt8 :=
  idKey password salt h.iterations h.memory h.parallelism h.keyLength

def hashOf (h : Argon2Hasher) (password salt : List UInt8) : Argon2Hash where
  algorithmName := argon2id
  version := argon2Version
  hashedData := h.key idKey password salt
  salt := salt
  iterations := h.iterations.toUInt64.toInt64
  memory := h.memory.toUInt64.toInt64
  parallelism := h.parallelism.toUInt64.toInt64

end Argon2Hasher

end

section

variable {h : Argon2Hasher} (hiterations : 1 ≤ h.iterations) (hparallelism : 1 ≤ h.parallelism)

include hiterations hparallelism

variable (idKey : IDKey)

theorem hashInternal_eq (password salt : List UInt8) :
    hashInternal idKey argon2Version h.parallelism h.iterations h.memory h.keyLength password salt =
      .ok (h.hashOf idKey password salt) := by
  rw [hashInternal, callIDKey, if_neg (UInt32.not_lt.mpr hiterations),
    if_neg (UInt8.not_lt.mpr hparallelism)]
  rfl

theorem hash_eq (password salt : List UInt8) :
    h.hash idKey password salt = .ok (h.hashOf idKey password salt).toArgon2String := by
  rw [Argon2Hasher.hash, hashInternal_eq hiterations hparallelism]
  rfl

theorem compareHashAndPassword_hashOf (p q salt : List UInt8) :
    h.compareHashAndPassword idKey (h.hashOf idKey p salt).toArgon2String q =
      .ok (if h.key idKey q salt = h.key idKey p salt then none else some .invalidPassword) := by
  have hname : (h.hashOf idKey p salt).algorithmName ∈ algoArgon2 := by
    simp [Argon2Hasher.hashOf, algoArgon2]
  have hsame : (h.hashOf idKey q salt).equals (h.hashOf idKey p salt) = true ↔
      h.key idKey q salt = h.key idKey p salt := by
    rw [Argon2Hash.equals_iff]
    simp [Argon2Hasher.hashOf]
  -- the parameters come back through the wider integers
  have hback : hashInternal idKey (h.hashOf idKey p salt).version
      (h.hashOf idKey p salt).parallelism.toUInt64.toUInt8
      (h.hashOf idKey p salt).iterations.toUInt64.toUInt32
      (h.hashOf idKey p salt).memory.toUInt64.toUInt32 h.keyLength q (h.hashOf idKey p salt).salt =
        .ok (h.hashOf idKey q salt) := by
    simpa [Argon2Hasher.hashOf] using hashInternal_eq hiterations hparallelism idKey q salt
  rw [Argon2Hasher.compareHashAndPassword, Argon2Hash.fromArgon2String_toArgon2String hname]
  simp only [hback]
  change Except.ok (if (h.hashOf idKey q salt).equals (h.hashOf idKey p salt) then _ else _) = _
  simp only [hsame]

end

/-- A hash is read back from its text, and the text of a password's hash accepts exactly the
passwords with the same key. -/
theorem argon2_round_trip :
    (∀ h : Argon2Hash, h.algorithmName ∈ algoArgon2 →
      fromArgon2String h.toArgon2String = .ok h) ∧
    ∀ (idKey : IDKey) (h : Argon2Hasher) (salt p q : List UInt8),
      1 ≤ h.iterations → 1 ≤ h.parallelism →
      ∃ hashed, h.hash idKey p salt = .ok hashed ∧
        (h.compareHashAndPassword idKey hashed q = .ok none ↔
          idKey q salt h.iterations h.memory h.parallelism h.keyLength =
            idKey p salt h.iterations h.memory h.parallelism h.keyLength) := by
  refine ⟨fun h hname => Argon2Hash.fromArgon2String_toArgon2String hname, ?_⟩
  intro idKey h salt p q hiterations hparallelism
  refine ⟨_, hash_eq hiterations hparallelism idKey p salt, ?_⟩
  rw [compareHashAndPassword_hashOf hiterations hparallelism, Except.ok.injEq]
  exact ite_eq_left_iff.trans (by simp [Argon2Hasher.key])

/-- The hasher that `internal/auth/encoder.go` makes. -/
def defaultHasher : Argon2Hasher := ⟨64 * 1024, 3, 4, 32⟩

def joinKey : IDKey := fun password salt _ _ _ _ => password ++ salt

theorem argon2_round_trip_default :
    "argon2id" ∈ algoArgon2 ∧
      fromArgon2String (defaultHasher.hashOf joinKey [112, 119] [1, 2, 3]).toArgon2String =
        .ok (defaultHasher.hashOf joinKey [112, 119] [1, 2, 3]) ∧
      1 ≤ defaultHasher.iterations ∧ 1 ≤ defaultHasher.parallelism ∧
      ∃ hashed, defaultHasher.hash joinKey [112, 119] [1, 2, 3] = .ok hashed ∧
        (defaultHasher.compareHashAndPassword joinKey hashed [112] = .ok none ↔
          [112] ++ [1, 2, 3] = ([112, 119] ++ [1, 2, 3] : List UInt8)) := by
  obtain ⟨hread, hcompare⟩ := argon2_round_trip
  exact ⟨by decide, hread _ (by decide), by decide, by decide,
    hcompare joinKey defaultHasher [1, 2, 3] [112, 119] [112] (by decide) (by decide)⟩

end Torii.Auth
