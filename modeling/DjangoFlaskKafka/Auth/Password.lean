/-
  Passwords — `internal/auth/password.go`.

  1. **Program** — `hashPassword` writes a hash that carries its own parameters, salt included, and
     `verifyPassword` reads them back from the stored text: split at `$`, scanned, decoded.  The key
     derivation itself is a library's (`Argon2`), of which the program relies on one thing: it
     returns as many bytes as it is asked for.

  2. **Law** — a stored hash is read back as it was written, whatever it was told to cost
     (`parse_encode`), so a password is accepted exactly when it derives the key of the one that was
     hashed (`hash_stays_readable`).

  3. **Crux** — what the parser takes is a text of six `Parts` (`parse_eq_some_iff`), no more and no
     less, and no field that is written contains the `$` that separates them.
-/
import DjangoFlaskKafka.Auth.Tokens
import Mathlib.Data.Option.Basic

namespace DjangoFlaskKafka.Auth

/-! ## Program -/

/-- `golang.org/x/crypto/argon2`. -/
structure Argon2 where
  /-- `IDKey(password, salt, time, memory, threads, keyLen)` -/
  idKey : List UInt8 → List UInt8 → Nat → Nat → Nat → Nat → List UInt8
  length_idKey : ∀ password salt time memory threads keyLen, 0 < time → 0 < threads →
    (idKey password salt time memory threads keyLen).length = keyLen

/-- `argon2.Version`. -/
def argonVersion : Nat := 0x13
def argonTime : Nat := 1
def argonMemory : Nat := 64 * 1024
def argonThreads : Nat := 4
def argonKeyLen : Nat := 32

/-- `[]byte(s)`. -/
def bytesOf (s : String) : List UInt8 := s.toUTF8.data.toList

/-- What an encoded hash carries. -/
structure Encoded where
  memory : Nat
  time : Nat
  threads : Nat
  salt : List UInt8
  want : List UInt8
  deriving DecidableEq, Repr

/-- Why a password is not accepted; `IDKey` panics when it is told no round or no thread. -/
inductive PasswordError where
  | invalidHash
  | mismatch
  | panics
  deriving DecidableEq, Repr

/-- The stored text, taken apart. -/
def parse (encoded : String) : Option Encoded :=
  match encoded.toList.splitOn '$' with
  | [_, name, version, parameters, salt, want] => do
    guard (name = "argon2id".toList)
    let input ← Go.scanText "v=" version
    let (version, _) ← Go.scanInt input
    guard (version = argonVersion)
    let input ← Go.scanText "m=" parameters
    let (memory, input) ← Go.scanUint 32 input
    let input ← Go.scanText ",t=" input
    let (time, input) ← Go.scanUint 32 input
    let input ← Go.scanText ",p=" input
    let (threads, _) ← Go.scanUint 8 input
    let salt ← Go.decodeString Go.rawStdEncoding (String.ofList salt)
    let want ← Go.decodeString Go.rawStdEncoding (String.ofList want)
    some ⟨memory, time, threads, salt, want⟩
  | _ => none

/-- What `HashPassword` formats. -/
def encode (h : Encoded) : String :=
  "$argon2id$v=" ++ toString argonVersion ++ "$m=" ++ toString h.memory ++ ",t=" ++
    toString h.time ++ ",p=" ++ toString h.threads ++ "$" ++
    Go.encodeToString Go.rawStdEncoding h.salt ++ "$" ++ Go.encodeToString Go.rawStdEncoding h.want

section
variable (A : Argon2)

/-- `HashPassword(password)`, with the salt it draws. -/
def hashPassword (salt : List UInt8) (password : String) : String :=
  let key := A.idKey (bytesOf password) salt argonTime argonMemory argonThreads argonKeyLen
  "$argon2id$v=" ++ toString argonVersion ++ "$m=" ++ toString argonMemory ++ ",t=" ++
    toString argonTime ++ ",p=" ++ toString argonThreads ++ "$" ++
    Go.encodeToString Go.rawStdEncoding salt ++ "$" ++ Go.encodeToString Go.rawStdEncoding key

/-- `VerifyPassword(password, encoded)`. -/
def verifyPassword (password encoded : String) : Except PasswordError Unit :=
  match parse encoded with
  | none => .error .invalidHash
  | some h =>
    if h.time < 1 ∨ h.threads < 1 then .error .panics
    else if A.idKey (bytesOf password) h.salt h.time h.memory h.threads (h.want.length % 2 ^ 32)
        = h.want then .ok ()
    else .error .mismatch

end

/-! ## What the parser takes -/

/-- The parts of a text the parser takes. -/
structure Parts where
  first : List Char
  version : Go.Numeral
  sign : List Char
  afterVersion : List Char
  memory : Go.Numeral
  time : Go.Numeral
  threads : Go.Numeral
  after : List Char
  salt : List Char
  key : List Char

/-- The fields they are in. -/
def Parts.fields (p : Parts) : List (List Char) :=
  [p.first, "argon2id".toList,
    "v=".toList ++ (p.version.space ++ p.sign ++ p.version.digits ++ p.afterVersion),
    "m=".toList ++ (p.memory.space ++ p.memory.digits ++ (",t=".toList ++
      (p.time.space ++ p.time.digits ++ (",p=".toList ++
        (p.threads.space ++ p.threads.digits ++ p.after))))),
    p.salt, p.key]

/-- The parser reads the numbers and the bytes off them. -/
structure Parts.Read (p : Parts) (h : Encoded) : Prop where
  version : p.version.Read p.afterVersion
  sign : p.sign = [] ∨ p.sign = ['+']
  value : p.version.value = argonVersion
  memory : p.memory.Read (",t=".toList ++ (p.time.space ++ p.time.digits ++ (",p=".toList ++
    (p.threads.space ++ p.threads.digits ++ p.after))))
  time : p.time.Read (",p=".toList ++ (p.threads.space ++ p.threads.digits ++ p.after))
  threads : p.threads.Read p.after
  memory_eq : p.memory.value = h.memory ∧ h.memory < 2 ^ 32
  time_eq : p.time.value = h.time ∧ h.time < 2 ^ 32
  threads_eq : p.threads.value = h.threads ∧ h.threads < 2 ^ 8
  salt : Go.decodeString Go.rawStdEncoding (String.ofList p.salt) = some h.salt
  want : Go.decodeString Go.rawStdEncoding (String.ofList p.key) = some h.want

/-- **What the parser takes.** -/
theorem parse_eq_some_iff {encoded : String} {h : Encoded} :
    parse encoded = some h ↔ ∃ p : Parts, encoded.toList.splitOn '$' = p.fields ∧ p.Read h := by
  unfold parse
  constructor
  · intro hparse
    split at hparse
    next first name version parameters salt want hfields =>
      obtain ⟨_, hname, hparse⟩ := Option.bind_eq_some_iff.mp hparse
      obtain ⟨input, hv, hparse⟩ := Option.bind_eq_some_iff.mp hparse
      obtain ⟨⟨v, afterVersion⟩, hversion, hparse⟩ := Option.bind_eq_some_iff.mp hparse
      obtain ⟨_, hvalue, hparse⟩ := Option.bind_eq_some_iff.mp hparse
      obtain ⟨inputM, hm, hparse⟩ := Option.bind_eq_some_iff.mp hparse
      obtain ⟨⟨memory, afterMemory⟩, hmemory, hparse⟩ := Option.bind_eq_some_iff.mp hparse
      obtain ⟨inputT, ht, hparse⟩ := Option.bind_eq_some_iff.mp hparse
      obtain ⟨⟨time, afterTime⟩, htime, hparse⟩ := Option.bind_eq_some_iff.mp hparse
      obtain ⟨inputP, hp, hparse⟩ := Option.bind_eq_some_iff.mp hparse
      obtain ⟨⟨threads, after⟩, hthreads, hparse⟩ := Option.bind_eq_some_iff.mp hparse
      obtain ⟨salt', hsalt, hparse⟩ := Option.bind_eq_some_iff.mp hparse
      obtain ⟨want', hwant, hparse⟩ := Option.bind_eq_some_iff.mp hparse
      obtain rfl := Option.some.inj hparse
      obtain rfl := (Option.guard_eq_some' _).mp hname
      obtain rfl := (Option.guard_eq_some' _).mp hvalue
      obtain ⟨nv, sign, hnv, rfl, hsigned, -⟩ := Go.scanInt_eq_some_iff.mp hversion
      obtain ⟨np, hnp, rfl, hthreads_eq⟩ := Go.scanUint_eq_some_iff.mp hthreads
      obtain rfl := Go.scanText_eq_some_iff.mp hp
      obtain ⟨nt, hnt, rfl, htime_eq⟩ := Go.scanUint_eq_some_iff.mp htime
      obtain rfl := Go.scanText_eq_some_iff.mp ht
      obtain ⟨nm, hnm, rfl, hmemory_eq⟩ := Go.scanUint_eq_some_iff.mp hmemory
      rw [Go.scanText_eq_some_iff.mp hv, Go.scanText_eq_some_iff.mp hm] at hfields
      have hsign : (sign = [] ∨ sign = ['+']) ∧ (argonVersion : Int) = nv.value := by
        rcases hsigned with ⟨-, hneg⟩ | hpos
        · unfold argonVersion at hneg
          omega
        · exact hpos
      exact ⟨⟨first, nv, sign, afterVersion, nm, nt, np, after, salt, want⟩, hfields,
        hnv, hsign.1, Int.ofNat_inj.mp hsign.2.symm, hnm, hnt, hnp, hmemory_eq,
        htime_eq, hthreads_eq, hsalt, hwant⟩
    · cases hparse
  · rintro ⟨p, hfields, hread⟩
    have hversion : Go.scanInt (p.version.space ++ p.sign ++ p.version.digits ++ p.afterVersion)
        = some ((argonVersion : Int), p.afterVersion) :=
      Go.scanInt_eq_some_iff.mpr ⟨p.version, p.sign, hread.version, rfl,
        .inr ⟨hread.sign, by rw [hread.value]⟩, by decide, by decide⟩
    have hmemory := Go.scanUint_eq_some_iff.mpr
      ⟨p.memory, hread.memory, rfl, hread.memory_eq.1, hread.memory_eq.2⟩
    have htime := Go.scanUint_eq_some_iff.mpr
      ⟨p.time, hread.time, rfl, hread.time_eq.1, hread.time_eq.2⟩
    have hthreads := Go.scanUint_eq_some_iff.mpr
      ⟨p.threads, hread.threads, rfl, hread.threads_eq.1, hread.threads_eq.2⟩
    have htext : ∀ (text : String) (rest : List Char),
        Go.scanText text (text.toList ++ rest) = some rest :=
      fun text rest => Go.scanText_eq_some_iff.mpr rfl
    rw [hfields]
    unfold Parts.fields
    dsimp only
    simp only [htext, hversion, hmemory, htime, hthreads, hread.salt, hread.want, guard_true,
      Option.bind_eq_bind, Option.bind_some]
    rfl

/-! ## Reading back what was written -/

/-- The parts of a text that is written. -/
def Encoded.parts (h : Encoded) : Parts where
  first := []
  version := .ofNat argonVersion
  sign := []
  afterVersion := []
  memory := .ofNat h.memory
  time := .ofNat h.time
  threads := .ofNat h.threads
  after := []
  salt := Base64.encode Go.rawStdEncoding h.salt
  key := Base64.encode Go.rawStdEncoding h.want

/-- The costs are in the range of their types. -/
structure Encoded.InRange (h : Encoded) : Prop where
  memory : h.memory < 2 ^ 32
  time : 1 ≤ h.time ∧ h.time < 2 ^ 32
  threads : 1 ≤ h.threads ∧ h.threads < 2 ^ 8

theorem not_mem_toDigits (n : Nat) {c : Char} (hc : c.isDigit = false) : c ∉ Nat.toDigits 10 n := by
  intro hmem
  rw [Nat.isDigit_of_mem_toDigits (by decide) (by decide) hmem] at hc
  cases hc

/-- The separator is in no field. -/
theorem splitOn_encode (h : Encoded) : (encode h).toList.splitOn '$' = h.parts.fields := by
  have hencode : ∀ bytes, '$' ∉ Base64.encode Go.rawStdEncoding bytes := fun bytes hmem =>
    absurd (Base64.mem_symbols_of_mem_encode _ hmem) (by decide +kernel)
  have hdigits : ∀ n : Nat, '$' ∉ Nat.toDigits 10 n := fun n => not_mem_toDigits n (by decide)
  refine Eq.trans (congrArg (List.splitOn '$') ?_)
    (List.splitOn_intercalate '$' ?_ (by simp [Parts.fields]))
  · unfold encode Go.encodeToString Parts.fields Encoded.parts Go.Numeral.ofNat
    simp only [String.toList_append, String.toList_ofList, List.intercalate_cons_cons,
      List.intercalate_singleton, Nat.toString_eq_ofList_toDigits, List.nil_append, List.append_nil,
      List.append_assoc]
    rfl
  · intro field hfield
    simp only [Parts.fields, Encoded.parts, Go.Numeral.ofNat, List.mem_cons, List.not_mem_nil,
      or_false, List.nil_append, List.append_nil] at hfield
    rcases hfield with rfl | rfl | rfl | rfl | rfl | rfl
    · decide
    · decide +kernel
    · simp [hdigits]
    · simp [hdigits]
    · exact hencode _
    · exact hencode _

/-- What is written is what is read. -/
theorem Encoded.InRange.read {h : Encoded} (hrange : h.InRange) : h.parts.Read h :=
  have hdecode : ∀ bytes, Go.decodeString Go.rawStdEncoding
      (String.ofList (Base64.encode Go.rawStdEncoding bytes)) = some bytes :=
    Go.decodeString_rawStdEncoding
  {
    version := Go.Numeral.read_ofNat _ (by simp [Encoded.parts])
    sign := .inl rfl
    value := Go.Numeral.value_ofNat _
    memory := Go.Numeral.read_ofNat _ (by simp)
    time := Go.Numeral.read_ofNat _ (by simp)
    threads := Go.Numeral.read_ofNat _ (by simp [Encoded.parts])
    memory_eq := ⟨Go.Numeral.value_ofNat _, hrange.memory⟩
    time_eq := ⟨Go.Numeral.value_ofNat _, hrange.time.2⟩
    threads_eq := ⟨Go.Numeral.value_ofNat _, hrange.threads.2⟩
    salt := hdecode _
    want := hdecode _ }

/-- **A stored hash is read back as it was written**, whatever the costs. -/
theorem parse_encode {h : Encoded} (hrange : h.InRange) : parse (encode h) = some h :=
  parse_eq_some_iff.mpr ⟨h.parts, splitOn_encode h, hrange.read⟩

section
variable (A : Argon2)

/-- **A password is accepted when it derives the key that was stored.** -/
theorem verifyPassword_encode {h : Encoded} (hrange : h.InRange) {keyLen : Nat}
    (hlength : h.want.length = keyLen) (hlt : keyLen < 2 ^ 32) (password : String) :
    verifyPassword A password (encode h) = .ok () ↔
      A.idKey (bytesOf password) h.salt h.time h.memory h.threads keyLen = h.want := by
  have htime := hrange.time.1
  have hthreads := hrange.threads.1
  unfold verifyPassword
  rw [parse_encode hrange]
  dsimp only
  rw [if_neg (by omega), hlength, Nat.mod_eq_of_lt hlt]
  by_cases hkey : A.idKey (bytesOf password) h.salt h.time h.memory h.threads keyLen = h.want
  · rw [if_pos hkey]
    exact iff_of_true rfl hkey
  · rw [if_neg hkey]
    exact iff_of_false (by simp) hkey

/-- `HashPassword` formats the costs of today. -/
theorem hashPassword_eq_encode (salt : List UInt8) (password : String) :
    hashPassword A salt password = encode ⟨argonMemory, argonTime, argonThreads, salt,
      A.idKey (bytesOf password) salt argonTime argonMemory argonThreads argonKeyLen⟩ := rfl

/-- **A hash stays readable**, whatever the costs were when it was written: the parser reads the
    parameters, the salt and the key off it, and a password is accepted exactly when it derives the
    same key with them.  A key has as many bytes as a `uint32` says. -/
theorem hash_stays_readable (password : String) (h : Encoded) (hrange : h.InRange) :
    parse (encode h) = some h ∧ ∀ keyLen : UInt32,
      h.want = A.idKey (bytesOf password) h.salt h.time h.memory h.threads keyLen.toNat →
      ∀ password', verifyPassword A password' (encode h) = .ok () ↔
        A.idKey (bytesOf password') h.salt h.time h.memory h.threads keyLen.toNat =
          A.idKey (bytesOf password) h.salt h.time h.memory h.threads keyLen.toNat := by
  refine ⟨parse_encode hrange, fun keyLen hwant password' => ?_⟩
  have hlength : h.want.length = keyLen.toNat := by
    rw [hwant, A.length_idKey _ _ _ _ _ _ hrange.time.1 hrange.threads.1]
  rw [verifyPassword_encode A hrange hlength keyLen.toNat_lt, hwant]

/-- The password itself is accepted. -/
theorem verifyPassword_self (salt : List UInt8) (password : String) :
    verifyPassword A password (hashPassword A salt password) = .ok () := by
  have hrange : Encoded.InRange ⟨argonMemory, argonTime, argonThreads, salt,
      A.idKey (bytesOf password) salt argonTime argonMemory argonThreads argonKeyLen⟩ := by
    refine ⟨?_, ?_, ?_⟩
    · show argonMemory < 2 ^ 32
      decide
    · show 1 ≤ argonTime ∧ argonTime < 2 ^ 32
      decide
    · show 1 ≤ argonThreads ∧ argonThreads < 2 ^ 8
      decide
  have hlength := A.length_idKey (bytesOf password) salt argonTime argonMemory argonThreads argonKeyLen
    (by decide) (by decide)
  exact (verifyPassword_encode A hrange hlength (by decide) password).mpr rfl

end

/-- A key derivation that hides nothing. -/
def plainArgon2 : Argon2 where
  idKey password salt _ _ _ keyLen := (List.range keyLen).map fun i => (password ++ salt).getD i 0
  length_idKey password salt time memory threads keyLen _ _ := by
    rw [List.length_map, List.length_range]

/-- A hash at three times the time and twice the memory and threads of today. -/
def raisedCost : Encoded where
  memory := 2 * argonMemory
  time := 3 * argonTime
  threads := 2 * argonThreads
  salt := List.replicate 16 0
  want := plainArgon2.idKey (bytesOf "correct horse") (List.replicate 16 0) (3 * argonTime)
    (2 * argonMemory) (2 * argonThreads) 32

theorem raisedCost_readable : parse (encode raisedCost) = some raisedCost ∧
    ∀ password', verifyPassword plainArgon2 password' (encode raisedCost) = .ok () ↔
      plainArgon2.idKey (bytesOf password') (List.replicate 16 0) (3 * argonTime) (2 * argonMemory)
          (2 * argonThreads) 32 = raisedCost.want :=
  have hrange : raisedCost.InRange := ⟨by decide, by decide, by decide⟩
  ⟨(hash_stays_readable plainArgon2 "correct horse" raisedCost hrange).1,
    (hash_stays_readable plainArgon2 "correct horse" raisedCost hrange).2 32 rfl⟩

/-! ## In the service -/

/-- The service with these two functions; `salt` is what `rand.Read` fills on a draw. -/
def Libs.withPasswords (L : Libs) (A : Argon2) (salt : String → List UInt8) : Libs where
  lower := L.lower
  sha256 := L.sha256
  sign := L.sign
  parse := L.parse
  parseUUID := L.parseUUID
  hashPassword random password := Auth.hashPassword A (salt random) password
  verifyPassword password encoded := (Auth.verifyPassword A password encoded).isOk

end DjangoFlaskKafka.Auth
