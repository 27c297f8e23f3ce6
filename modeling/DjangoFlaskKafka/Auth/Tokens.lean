/-
  The tokens of the auth service — `internal/auth/tokens.go`.

  What is not this repository's is a parameter (`Libs`): Postgres's `lower`, SHA-256, the signature
  of a JWT and `uuid.Parse`; and so are the two functions of `internal/auth/password.go`, into which
  nothing here looks.  The claims of an access token, when `ParseWithClaims` refuses them, and what
  is stored of a refresh token are the program's.
-/
import DjangoFlaskKafka.Go
import DjangoFlaskKafka.Postgres

namespace DjangoFlaskKafka.Auth

open Postgres

/-- `Claims`; the dates are in seconds. -/
structure Claims where
  subject : String
  issuer : String
  audience : List String
  id : String
  issuedAt : Option Int
  expiresAt : Option Int
  notBefore : Option Int
  email : String
  tokenID : String
  deriving DecidableEq, Repr

/-- What the service is built on. -/
structure Libs where
  lower : String → String
  /-- SHA-256 of the bytes of a string, in hex -/
  sha256 : String → String
  /-- `token.SignedString(privateKey)` -/
  sign : Claims → String
  /-- a token of the RSA family whose signature the public key confirms -/
  parse : String → Option Claims
  parseUUID : String → Option Uuid
  /-- `HashPassword`, given the salt -/
  hashPassword : String → String → String
  /-- `VerifyPassword` returns `nil` -/
  verifyPassword : String → String → Bool

/-- The configuration of the `Issuer` and the `Server`. -/
structure Config where
  issuer : String
  audience : String
  accessTTL : Int
  refreshTTL : Int

def DefaultAccessTTL : Int := 15 * Go.minute
def DefaultRefreshTTL : Int := 30 * 24 * Go.hour

variable (L : Libs) (C : Config)

/-- `IssueAccess(userID, email, now)`, with the token id it draws: the claims it signs. -/
def issueAccess (tokenID : Uuid) (userID : Uuid) (email : String) (now : Int) : Claims where
  subject := userID.1
  issuer := C.issuer
  audience := [C.audience]
  id := tokenID.1
  issuedAt := some (Go.numericDate now)
  expiresAt := some (Go.numericDate (now + C.accessTTL))
  notBefore := some (Go.numericDate now)
  email := email
  tokenID := tokenID.1

/-- The dates of the claims admit the token: it must expire and has not, and it is not early. -/
def Claims.Current (claims : Claims) (now : Int) : Prop :=
  (∃ e ∈ claims.expiresAt, now < e * Go.second) ∧ ∀ n ∈ claims.notBefore, n * Go.second ≤ now

instance (claims : Claims) (now : Int) : Decidable (claims.Current now) :=
  decidable_of_iff ((claims.expiresAt.any fun e => now < e * Go.second) = true ∧
    ∀ n ∈ claims.notBefore, n * Go.second ≤ now) (by simp [Claims.Current, Option.any_eq_true])

/-- The claims are this issuer's, for this audience. -/
def Claims.Ours (claims : Claims) : Prop := claims.issuer = C.issuer ∧ C.audience ∈ claims.audience

instance (claims : Claims) : Decidable (claims.Ours C) := inferInstanceAs (Decidable (_ ∧ _))

/-- `Verify(token)` at the clock reading `now`. -/
def verify (now : Int) (token : String) : Option Claims :=
  (L.parse token).filter fun claims => claims.Current now ∧ claims.Ours C

/-- `HashRefreshToken(token)`. -/
def hashRefreshToken (token : String) : String := L.sha256 token

end DjangoFlaskKafka.Auth
