import Torii.Auth.Argon2
import Torii.Lib.Refinement

/-!
# Stored hashes

`CompareHashAndPassword` takes the parameters from the text of the hash, which for basic
authentication stands in the configuration. The numbers in the text are 64-bit integers, of which
the key derivation takes 32 and 8 bits.
-/

namespace Torii.Auth

open Go Strconv

/-! ### The call -/

structure IDKeyCall where
  password : List UInt8
  salt : List UInt8
  time : UInt32
  memory : UInt32
  threads : UInt8
  keyLen : UInt32

def IDKeyCall.run (idKey : IDKey) (call : IDKeyCall) : Except String (List UInt8) :=
  callIDKey idKey call.password call.salt call.time call.memory call.threads call.keyLen

/-- The call that `CompareHashAndPassword` makes for a text that it decodes. -/
def Argon2Hasher.idKeyCall (h : Argon2Hasher) (hashedPwd : String) (password : List UInt8) :
    Option IDKeyCall :=
  (fromArgon2String hashedPwd).toOption.map fun arHash =>
    { password
      salt := arHash.salt
      time := arHash.iterations.toUInt64.toUInt32
      memory := arHash.memory.toUInt64.toUInt32
      threads := arHash.parallelism.toUInt64.toUInt8
      keyLen := h.keyLength }

section

variable {h : Argon2Hasher} {hashedPwd : String} {password : List UInt8} {call : IDKeyCall}

theorem compareHashAndPassword_of_call (hcall : h.idKeyCall hashedPwd password = some call) :
    ∃ verdict : List UInt8 → Option CompareError, ∀ idKey,
      h.compareHashAndPassword idKey hashedPwd password = (call.run idKey).map verdict := by
  obtain ⟨arHash, harHash, rfl⟩ := Option.map_eq_some_iff.mp hcall
  have hok : fromArgon2String hashedPwd = .ok arHash := by
    cases hread : fromArgon2String hashedPwd with
    | error e => simp [hread, Except.toOption] at harHash
    | ok arHash' => simpa [hread, Except.toOption] using harHash
  refine ⟨fun key =>
    let hash : Argon2Hash :=
      { algorithmName := argon2id, version := arHash.version, hashedData := key
        salt := arHash.salt
        iterations := arHash.iterations.toUInt64.toUInt32.toUInt64.toInt64
        memory := arHash.memory.toUInt64.toUInt32.toUInt64.toInt64
        parallelism := arHash.parallelism.toUInt64.toUInt8.toUInt64.toInt64 }
    if hash.equals arHash then none else some .invalidPassword, fun idKey => ?_⟩
  simp only [Argon2Hasher.compareHashAndPassword, hok, hashInternal, IDKeyCall.run]
  cases callIDKey idKey password arHash.salt arHash.iterations.toUInt64.toUInt32
    arHash.memory.toUInt64.toUInt32 arHash.parallelism.toUInt64.toUInt8 h.keyLength with
  | error panic | ok key => rfl

theorem compareHashAndPassword_of_no_call (hcall : h.idKeyCall hashedPwd password = none)
    (idKey : IDKey) :
    ∃ e, h.compareHashAndPassword idKey hashedPwd password = .ok (some (.decoding e)) := by
  cases hread : fromArgon2String hashedPwd with
  | error e => exact ⟨e, by simp only [Argon2Hasher.compareHashAndPassword, hread]⟩
  | ok arHash => simp [Argon2Hasher.idKeyCall, hread, Except.toOption] at hcall

end

theorem IDKeyCall.run_ok_iff (idKey : IDKey) (call : IDKeyCall) :
    (∃ key, call.run idKey = .ok key) ↔ call.time ≠ 0 ∧ call.threads ≠ 0 := by
  have htime : call.time < 1 ↔ call.time = 0 := UInt32.lt_one_iff
  have hthreads : call.threads < 1 ↔ call.threads = 0 := UInt8.lt_one_iff
  simp only [IDKeyCall.run, callIDKey, htime, hthreads]
  split
  · next hzero => simp [hzero]
  · next hrounds =>
    split
    · next hzero => simp [hzero]
    · next hdegree => simp [hrounds, hdegree]

variable {hashedPwd : String}

theorem compareHashAndPassword_returns {h : Argon2Hasher} {password : List UInt8} {call : IDKeyCall}
    (hcall : h.idKeyCall hashedPwd password = some call) (htime : call.time ≠ 0)
    (hthreads : call.threads ≠ 0) (idKey : IDKey) :
    ∃ err, h.compareHashAndPassword idKey hashedPwd password = .ok err := by
  obtain ⟨verdict, hverdict⟩ := compareHashAndPassword_of_call hcall
  obtain ⟨key, hkey⟩ := (IDKeyCall.run_ok_iff idKey call).mpr ⟨htime, hthreads⟩
  refine ⟨verdict key, ?_⟩
  rw [hverdict, hkey]
  rfl

/-! ### The numbers in the text -/

/-- The decimal number that the text has for a parameter. -/
def Parameter (hashedPwd pre : String) (n : Int) : Prop :=
  ∃ parameters text, (Strings.split (Strings.trimPrefix hashedPwd "$") '$')[2]? = some parameters ∧
    (Strings.split parameters ',').find? (fun part => pre.toList.isPrefixOf part.toList) =
      some (pre ++ text) ∧
    Number text.toList n

theorem Parameter.unique {pre : String} {n n' : Int} (h : Parameter hashedPwd pre n)
    (h' : Parameter hashedPwd pre n') : n = n' := by
  obtain ⟨parameters, text, hpart, hfind, hnumber⟩ := h
  obtain ⟨parameters', text', hpart', hfind', hnumber'⟩ := h'
  obtain rfl := Option.some.inj (hpart.symm.trans hpart')
  have htext := Option.some.inj (hfind.symm.trans hfind')
  rw [← String.toList_inj, String.toList_append, String.toList_append,
    List.append_cancel_left_eq] at htext
  rw [hnumber.eq_signedValue, hnumber'.eq_signedValue, htext]

theorem atoi_eq_some {s : String} {n : Int64} (h : atoi s = some n) : Number s.toList n.toInt := by
  obtain ⟨m, hm, rfl⟩ := Option.map_eq_some_iff.mp h
  obtain ⟨hnumber, hlo, hhi⟩ := parseInt_eq_some_iff.mp hm
  rwa [Int64.toInt_ofInt_of_le hlo hhi]

theorem parseParameter_eq_ok {parameters pre : String} {n : Int64}
    (h : parseParameter parameters pre = .ok n) :
    ∃ text, (Strings.split parameters ',').find?
        (fun part => pre.toList.isPrefixOf part.toList) = some (pre ++ text) ∧
      Number text.toList n.toInt := by
  unfold parseParameter at h
  split at h
  · cases h
  · next part hfind =>
    dsimp only at h
    split at h
    · cases h
    · next n' hn =>
      cases h
      have hpre := List.find?_some hfind
      obtain ⟨rest, hrest⟩ := List.isPrefixOf_iff_prefix.mp hpre
      have hpart : part = pre ++ String.ofList rest := by
        rw [← String.toList_inj, String.toList_append, String.toList_ofList, hrest]
      subst hpart
      rw [Argon2Hash.trimPrefix_append] at hn
      exact ⟨_, hfind, atoi_eq_some hn⟩

theorem parameters_of_fromArgon2String {arHash : Argon2Hash}
    (h : fromArgon2String hashedPwd = .ok arHash) :
    Parameter hashedPwd "t=" arHash.iterations.toInt ∧
      Parameter hashedPwd "m=" arHash.memory.toInt ∧
      Parameter hashedPwd "p=" arHash.parallelism.toInt := by
  unfold fromArgon2String at h
  split at h
  · split at h
    · next name version parameters salt hashedData rest hsplit =>
      unfold argon2HashFromString at h
      dsimp only at h
      split at h
      · cases h
      obtain ⟨version', -, h⟩ := Except.bind_eq_ok.mp h
      obtain ⟨memory, hmemory, h⟩ := Except.bind_eq_ok.mp h
      obtain ⟨iterations, hiterations, h⟩ := Except.bind_eq_ok.mp h
      obtain ⟨parallelism, hparallelism, h⟩ := Except.bind_eq_ok.mp h
      obtain ⟨saltBytes, -, h⟩ := Except.bind_eq_ok.mp h
      obtain ⟨hashedBytes, -, h⟩ := Except.bind_eq_ok.mp h
      cases h
      have hthird : (Strings.split (Strings.trimPrefix hashedPwd "$") '$')[2]? =
          some parameters := by
        rw [hsplit]
        rfl
      obtain ⟨t, ht⟩ := parseParameter_eq_ok (Except.mapError_eq_ok.mp hiterations)
      obtain ⟨m, hm⟩ := parseParameter_eq_ok (Except.mapError_eq_ok.mp hmemory)
      obtain ⟨p, hp⟩ := parseParameter_eq_ok (Except.mapError_eq_ok.mp hparallelism)
      exact ⟨⟨parameters, t, hthird, ht⟩, ⟨parameters, m, hthird, hm⟩, ⟨parameters, p, hthird, hp⟩⟩
    · cases h
  · cases h

theorem toNat_toUInt64 (n : Int64) : (n.toUInt64.toNat : Int) = n.toInt % 2 ^ 64 := by
  change (n.toBitVec.toNat : Int) = n.toBitVec.toInt % 2 ^ 64
  have hlt := n.toBitVec.isLt
  rw [BitVec.toInt_eq_toNat_cond]
  split <;> omega

theorem toNat_narrow32 (n : Int64) : (n.toUInt64.toUInt32.toNat : Int) = n.toInt % 2 ^ 32 := by
  have hlow := toNat_toUInt64 n
  rw [UInt64.toNat_toUInt32]
  omega

theorem toNat_narrow8 (n : Int64) : (n.toUInt64.toUInt8.toNat : Int) = n.toInt % 2 ^ 8 := by
  have hlow := toNat_toUInt64 n
  rw [UInt64.toNat_toUInt8]
  omega

/-! ### Which texts are safe -/

/-- A password is compared with the text without a panic, and the derivation is called with the
numbers in the text. -/
structure SafelyVerified (h : Argon2Hasher) (hashedPwd : String) : Prop where
  returns : ∀ idKey password, ∃ err, h.compareHashAndPassword idKey hashedPwd password = .ok err
  nonzero : ∀ password call, h.idKeyCall hashedPwd password = some call →
    call.time ≠ 0 ∧ call.threads ≠ 0
  written : ∀ password call, h.idKeyCall hashedPwd password = some call →
    (∀ t, Parameter hashedPwd "t=" t → (call.time.toNat : Int) = t) ∧
    (∀ m, Parameter hashedPwd "m=" m → (call.memory.toNat : Int) = m) ∧
    ∀ p, Parameter hashedPwd "p=" p → (call.threads.toNat : Int) = p

/-- The text is refused, or its numbers are in the ranges of the derivation. -/
def WithinLimits (hashedPwd : String) : Prop :=
  (∃ e, fromArgon2String hashedPwd = .error e) ∨
    ∃ t m p, Parameter hashedPwd "t=" t ∧ Parameter hashedPwd "m=" m ∧ Parameter hashedPwd "p=" p ∧
      (1 ≤ t ∧ t < 2 ^ 32) ∧ (0 ≤ m ∧ m < 2 ^ 32) ∧ 1 ≤ p ∧ p < 2 ^ 8

def Argon2Hash.InRange (arHash : Argon2Hash) : Prop :=
  (1 ≤ arHash.iterations.toInt ∧ arHash.iterations.toInt < 2 ^ 32) ∧
    (0 ≤ arHash.memory.toInt ∧ arHash.memory.toInt < 2 ^ 32) ∧
    1 ≤ arHash.parallelism.toInt ∧ arHash.parallelism.toInt < 2 ^ 8

section

variable {hashedPwd : String} {arHash : Argon2Hash}
variable (hread : fromArgon2String hashedPwd = .ok arHash)

include hread

theorem withinLimits_iff_inRange : WithinLimits hashedPwd ↔ arHash.InRange := by
  obtain ⟨ht, hm, hp⟩ := parameters_of_fromArgon2String hread
  constructor
  · rintro (⟨e, herror⟩ | ⟨t, m, p, ht', hm', hp', htime, hmemory, hthreads⟩)
    · rw [hread] at herror
      cases herror
    · obtain rfl := ht.unique ht'
      obtain rfl := hm.unique hm'
      obtain rfl := hp.unique hp'
      exact ⟨htime, hmemory, hthreads⟩
  · rintro ⟨htime, hmemory, hthreads⟩
    exact .inr ⟨_, _, _, ht, hm, hp, htime, hmemory, hthreads⟩

variable {h : Argon2Hasher}

theorem idKeyCall_eq_some_iff (password : List UInt8) {call : IDKeyCall} :
    h.idKeyCall hashedPwd password = some call ↔
      call = ⟨password, arHash.salt, arHash.iterations.toUInt64.toUInt32,
        arHash.memory.toUInt64.toUInt32, arHash.parallelism.toUInt64.toUInt8, h.keyLength⟩ := by
  simp [Argon2Hasher.idKeyCall, hread, Except.toOption, eq_comm]

theorem inRange_of_safelyVerified (hsafe : SafelyVerified h hashedPwd) : arHash.InRange := by
  obtain ⟨ht, hm, hp⟩ := parameters_of_fromArgon2String hread
  have hcall := (idKeyCall_eq_some_iff hread (h := h) []).mpr rfl
  obtain ⟨htime, hthreads⟩ := hsafe.nonzero [] _ hcall
  obtain ⟨htime', hmemory', hthreads'⟩ := hsafe.written [] _ hcall
  have htimeEq := htime' _ ht
  have hmemoryEq := hmemory' _ hm
  have hthreadsEq := hthreads' _ hp
  have htimeNe : arHash.iterations.toUInt64.toUInt32.toNat ≠ 0 := fun hzero =>
    htime (UInt32.toNat_inj.mp hzero)
  have hthreadsNe : arHash.parallelism.toUInt64.toUInt8.toNat ≠ 0 := fun hzero =>
    hthreads (UInt8.toNat_inj.mp hzero)
  dsimp only at htimeEq hmemoryEq hthreadsEq
  have htimeLow := toNat_narrow32 arHash.iterations
  have hmemoryLow := toNat_narrow32 arHash.memory
  have hthreadsLow := toNat_narrow8 arHash.parallelism
  refine ⟨?_, ?_, ?_⟩ <;> omega

theorem safelyVerified_of_inRange (h : Argon2Hasher) (hrange : arHash.InRange) :
    SafelyVerified h hashedPwd := by
  obtain ⟨htime, hmemory, hthreads⟩ := hrange
  obtain ⟨ht, hm, hp⟩ := parameters_of_fromArgon2String hread
  have htimeLow := toNat_narrow32 arHash.iterations
  have hmemoryLow := toNat_narrow32 arHash.memory
  have hthreadsLow := toNat_narrow8 arHash.parallelism
  have htimeNe : arHash.iterations.toUInt64.toUInt32 ≠ 0 := by
    intro hzero
    rw [hzero, UInt32.toNat_zero] at htimeLow
    omega
  have hthreadsNe : arHash.parallelism.toUInt64.toUInt8 ≠ 0 := by
    intro hzero
    rw [hzero, UInt8.toNat_zero] at hthreadsLow
    omega
  refine ⟨?_, ?_, ?_⟩
  · intro idKey password
    have hcall := (idKeyCall_eq_some_iff hread (h := h) password).mpr rfl
    exact compareHashAndPassword_returns hcall htimeNe hthreadsNe idKey
  · intro password call hcall
    rw [(idKeyCall_eq_some_iff hread password).mp hcall]
    exact ⟨htimeNe, hthreadsNe⟩
  · intro password call hcall
    rw [(idKeyCall_eq_some_iff hread password).mp hcall]
    refine ⟨?_, ?_, ?_⟩
    · intro n hn
      rw [← ht.unique hn, htimeLow]
      omega
    · intro n hn
      rw [← hm.unique hn, hmemoryLow]
      omega
    · intro n hn
      rw [← hp.unique hn, hthreadsLow]
      omega

end

theorem safelyVerified_of_refused {hashedPwd : String} {e : Argon2Error}
    (hread : fromArgon2String hashedPwd = .error e) (h : Argon2Hasher) :
    SafelyVerified h hashedPwd := by
  have hcall : ∀ password, h.idKeyCall hashedPwd password = none := fun password => by
    simp [Argon2Hasher.idKeyCall, hread, Except.toOption]
  refine ⟨?_, ?_, ?_⟩
  · intro idKey password
    obtain ⟨cause, hcause⟩ := compareHashAndPassword_of_no_call (hcall password) idKey
    exact ⟨_, hcause⟩
  · intro password call hsome
    simp [hcall] at hsome
  · intro password call hsome
    simp [hcall] at hsome

/-- Exactly the texts within the limits are compared safely. -/
theorem safelyVerified_iff (h : Argon2Hasher) (hashedPwd : String) :
    SafelyVerified h hashedPwd ↔ WithinLimits hashedPwd := by
  cases hread : fromArgon2String hashedPwd with
  | error e => exact iff_of_true (safelyVerified_of_refused hread h) (.inl ⟨e, hread⟩)
  | ok arHash =>
    rw [withinLimits_iff_inRange hread]
    exact ⟨inRange_of_safelyVerified hread, safelyVerified_of_inRange hread h⟩

def manyThreads : String := "$argon2id$v=19$t=3,m=65536,p=256$AQID$AQID"

theorem manyThreads_panics :
    defaultHasher.compareHashAndPassword joinKey manyThreads [112, 119] =
        .error "argon2: parallelism degree too low" ∧
      ¬ SafelyVerified defaultHasher manyThreads := by
  have hpanic : defaultHasher.compareHashAndPassword joinKey manyThreads [112, 119] =
      .error "argon2: parallelism degree too low" := by decide +kernel
  refine ⟨hpanic, fun hsafe => ?_⟩
  obtain ⟨err, herr⟩ := hsafe.returns joinKey [112, 119]
  rw [hpanic] at herr
  cases herr

end Torii.Auth
