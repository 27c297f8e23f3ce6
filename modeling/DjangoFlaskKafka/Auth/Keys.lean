/-
  The published key — `KeyID`, `PublicJWKS` and `bigEndian` of `internal/auth/tokens.go`.

  Every other service verifies the tokens of this one with the key it reads here, so what is
  published has to decode to the key that signs.

  1. **Program** — the modulus is published as `big.Int` writes it, all its bytes; the exponent
     through `bigEndian`, which writes the lowest three bytes of an `int` and strips leading zeros
     down to one byte.

  2. **Law** (`Decodes`) — a member decodes as unpadded base64url, its bytes read as a number are
     the number published, and the first of them is not zero.

  3. **Crux** (`ofBytes_bigEndian`) — what is read back of an exponent is its remainder by `2 ^ 24`.
     Go's `crypto/rsa` admits exponents up to `2 ^ 31 - 1`, so from `2 ^ 24` on the published key is
     another one (`reconstructs_iff`), and not before.
-/
import DjangoFlaskKafka.Go
import DjangoFlaskKafka.Lib.BigEndian

namespace DjangoFlaskKafka.Auth

/-! ## Program -/

/-- `rsa.PublicKey`, in the range `crypto/rsa` admits. -/
structure PublicKey where
  N : Nat
  E : Nat
  N_pos : 0 < N
  two_le_E : 2 ≤ E
  E_le : E ≤ 2 ^ 31 - 1

/-- `JWK`. -/
structure JWK where
  kty : String
  use : String
  alg : String
  kid : String
  n : String
  e : String
  deriving DecidableEq, Repr

/-- `JWKS`. -/
structure JWKS where
  keys : List JWK
  deriving DecidableEq, Repr

/-- `for len(out) > 1 && out[0] == 0 { out = out[1:] }`. -/
def trimZeros : List UInt8 → List UInt8
  | a :: b :: out => if a = 0 then trimZeros (b :: out) else a :: b :: out
  | out => out

/-- `bigEndian(value)`: `byte` keeps the lowest eight bits. -/
def bigEndian (value : Nat) : List UInt8 :=
  trimZeros [.ofNat (value >>> 16), .ofNat (value >>> 8), .ofNat value]

section
variable (sum256 : List UInt8 → List UInt8)

/-- `KeyID(pub)`. -/
def keyID (pub : PublicKey) : String :=
  Go.hexString ((sum256 (BigEndian.bytes pub.N)).take 8)

/-- `PublicJWKS()`. -/
def publicJWKS (pub : PublicKey) : JWKS where
  keys := [{
    kty := "RSA"
    use := "sig"
    alg := "RS256"
    kid := keyID sum256 pub
    n := Go.encodeToString Go.rawURLEncoding (BigEndian.bytes pub.N)
    e := Go.encodeToString Go.rawURLEncoding (bigEndian pub.E) }]

end

/-! ## Law -/

/-- A published member is this number: no byte lost, none too many. -/
def Decodes (member : String) (value : Nat) : Prop :=
  ∃ bytes, Go.decodeString Go.rawURLEncoding member = some bytes ∧
    BigEndian.ofBytes bytes = value ∧ bytes.head? ≠ some 0

/-- The document has one key, and its members are those of the key that signs. -/
def Reconstructs (jwks : JWKS) (pub : PublicKey) : Prop :=
  ∃ key, jwks.keys = [key] ∧ Decodes key.n pub.N ∧ Decodes key.e pub.E

/-- A member that was encoded is the number of its bytes. -/
theorem decodes_encode {bytes : List UInt8} {value : Nat} :
    Decodes (Go.encodeToString Go.rawURLEncoding bytes) value ↔
      BigEndian.ofBytes bytes = value ∧ bytes.head? ≠ some 0 := by
  unfold Decodes
  rw [Go.decodeString_rawURLEncoding]
  constructor
  · rintro ⟨_, ⟨⟩, h⟩
    exact h
  · exact fun h => ⟨bytes, rfl, h⟩

/-! ## Crux: three bytes of the exponent -/

theorem ofBytes_trimZeros (out : List UInt8) :
    BigEndian.ofBytes (trimZeros out) = BigEndian.ofBytes out := by
  fun_induction trimZeros out with
  | case1 b out ih => rw [ih, BigEndian.ofBytes_zero_cons]
  | case2 => rfl
  | case3 => rfl

/-- Only zero keeps a leading zero. -/
theorem head_trimZeros {out : List UInt8} (h : BigEndian.ofBytes out ≠ 0) :
    (trimZeros out).head? ≠ some 0 := by
  fun_induction trimZeros out with
  | case1 b out ih =>
    rw [BigEndian.ofBytes_zero_cons] at h
    exact ih h
  | case2 a b out ha =>
    intro hzero
    exact ha (Option.some.inj hzero)
  | case3 out hshort =>
    intro hzero
    match out, hshort with
    | [], _ => cases hzero
    | [a], _ =>
      cases hzero
      exact h rfl
    | a :: b :: out, hshort => exact hshort a b out rfl

/-- **What is published of an exponent**: its remainder by `2 ^ 24`. -/
theorem ofBytes_bigEndian (value : Nat) : BigEndian.ofBytes (bigEndian value) = value % 2 ^ 24 := by
  unfold bigEndian
  rw [ofBytes_trimZeros]
  show ((0 * 256 + (UInt8.ofNat _).toNat) * 256 + (UInt8.ofNat _).toNat) * 256 +
    (UInt8.ofNat value).toNat = _
  rw [UInt8.toNat_ofNat', UInt8.toNat_ofNat', UInt8.toNat_ofNat', Nat.shiftRight_eq_div_pow,
    Nat.shiftRight_eq_div_pow]
  omega

/-- The exponent decodes exactly when it fits. -/
theorem decodes_bigEndian {value : Nat} (hpos : 0 < value) :
    Decodes (Go.encodeToString Go.rawURLEncoding (bigEndian value)) value ↔ value < 2 ^ 24 := by
  rw [decodes_encode, ofBytes_bigEndian]
  constructor
  · rintro ⟨hvalue, -⟩
    omega
  · intro hlt
    have hmod : value % 2 ^ 24 = value := Nat.mod_eq_of_lt hlt
    refine ⟨hmod, head_trimZeros ?_⟩
    rw [← ofBytes_trimZeros]
    show BigEndian.ofBytes (bigEndian value) ≠ 0
    rw [ofBytes_bigEndian, hmod]
    omega

/-- The modulus decodes, whatever its size. -/
theorem decodes_modulus (pub : PublicKey) :
    Decodes (Go.encodeToString Go.rawURLEncoding (BigEndian.bytes pub.N)) pub.N :=
  decodes_encode.mpr ⟨BigEndian.ofBytes_bytes pub.N, BigEndian.head_bytes pub.N_pos⟩

/-- **The published document decodes to the signing key exactly when the exponent has three
    bytes.** -/
theorem reconstructs_iff (sum256 : List UInt8 → List UInt8) (pub : PublicKey) :
    Reconstructs (publicJWKS sum256 pub) pub ↔ pub.E < 2 ^ 24 := by
  have hpos : 0 < pub.E := Nat.lt_of_lt_of_le (by omega) pub.two_le_E
  rw [← decodes_bigEndian hpos]
  constructor
  · rintro ⟨key, hkey, -, he⟩
    cases hkey
    exact he
  · exact fun he => ⟨_, rfl, decodes_modulus pub, he⟩

/-- Two primes of 1024 bits, as far apart as a quarter of the range, and an exponent that is a prime
    of four bytes and divides neither of their predecessors. -/
def longExponent : PublicKey where
  N := (2 ^ 1024 - 105) * (3 * 2 ^ 1022 + 1037)
  E := 16777259
  N_pos := by decide +kernel
  two_le_E := by omega
  E_le := by omega

/-- Of its exponent 43 is published. -/
theorem longExponent_lost :
    ¬ ∃ sum256 : List UInt8 → List UInt8,
      Reconstructs (publicJWKS sum256 longExponent) longExponent := by
  rintro ⟨sum256, key, hkey, -, he⟩
  cases hkey
  obtain ⟨hvalue, -⟩ := decodes_encode.mp he
  rw [ofBytes_bigEndian] at hvalue
  exact absurd hvalue (by decide +kernel)

end DjangoFlaskKafka.Auth
