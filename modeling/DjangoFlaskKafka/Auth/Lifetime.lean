/-
  Lifetime — how long an access token lives, and how long its holder is told it does.

  1. **Program** — the way of `ACCESS_TTL_SECONDS` from the environment into a token: `accessTTL`
     reads it and multiplies, `newIssuer` falls back on the default, `issueAccess` dates the claims
     and `issueTokens` answers.  A `time.Duration` is 64 bits of nanoseconds, so here the clock is
     read in nanoseconds too; on whole microseconds the claims are those of the rest of the model
     (`issueAccess_micro`).

  2. **Law** — `Advertised`: the token lives for what was configured, or for the default where that
     was rejected, and `expires_in` says so.

  3. **The crux** — `issueTokens` answers with `DefaultAccessTTL`, whatever the issuer was given, and
     a product that wraps to a positive duration is not rejected.  So the law holds of a value
     exactly when it is the default, or wraps to what is rejected (`advertised_iff`).
-/
import DjangoFlaskKafka.Auth.Tokens
import Mathlib.Tactic.Ring

namespace DjangoFlaskKafka.Auth.Lifetime

open Postgres

/-! ## The program -/

/-- `time.Duration`: nanoseconds in 64 bits, which wrap. -/
abbrev Duration := Int64

/-- `time.Second`. -/
def second : Duration := 1000000000

def DefaultAccessTTL : Duration := 15 * (60 * second)

/-- `accessTTL()`, with the value of `ACCESS_TTL_SECONDS`. -/
def accessTTL (env : String) : Duration :=
  match Go.atoi env with
  | some seconds => if 0 < seconds then Int64.ofInt seconds * second else DefaultAccessTTL
  | none => DefaultAccessTTL

/-- `Issuer`, less its key. -/
structure Issuer where
  issuer : String
  audience : String
  accessTTL : Duration

/-- `NewIssuer(key, issuerURL, audience, accessTTL)`. -/
def newIssuer (issuerURL audience : String) (accessTTL : Duration) : Issuer where
  issuer := issuerURL
  audience := audience
  accessTTL := if accessTTL ≤ 0 then DefaultAccessTTL else accessTTL

/-- `jwt.NewNumericDate`: whole seconds. -/
def numericDate (t : Int) : Int := t / second.toInt

/-- `IssueAccess(userID, email, now)`, with the token id it draws: the claims it signs. -/
def Issuer.issueAccess (i : Issuer) (tokenID userID : Uuid) (email : String) (now : Int) : Claims where
  subject := userID.1
  issuer := i.issuer
  audience := [i.audience]
  id := tokenID.1
  issuedAt := some (numericDate now)
  expiresAt := some (numericDate (now + i.accessTTL.toInt))
  notBefore := some (numericDate now)
  email := email
  tokenID := tokenID.1

/-- The answer of `issueTokens`; the access token is the claims it is signed over. -/
structure Tokens where
  access_token : Claims
  refresh_token : String
  expires_in : Int

/-- `issueTokens(w, r, userID, email)`, when nothing fails. -/
def issueTokens (i : Issuer) (tokenID userID : Uuid) (email random : String) (now : Int) : Tokens where
  access_token := i.issueAccess tokenID userID email now
  refresh_token := random
  expires_in := (DefaultAccessTTL / second).toInt

/-! ## The law -/

/-- `accessTTL` or `NewIssuer` rejects the value. -/
def Rejected (env : String) : Prop := (∀ n ∈ Go.atoi env, n ≤ 0) ∨ accessTTL env ≤ 0

/-- The token lives for `n` seconds, or for the default where that is rejected, and its holder is
    told how long. -/
def Advertised (n : Int) (env : String) (t : Tokens) : Prop :=
  ∃ iat ∈ t.access_token.issuedAt, ∃ exp ∈ t.access_token.expiresAt,
    (exp - iat = n ∨ Rejected env ∧ exp - iat = (DefaultAccessTTL / second).toInt) ∧
      t.expires_in = exp - iat

/-! ## What the token and the answer say -/

/-- The nanoseconds of so many seconds. -/
theorem toInt_seconds (n : Int) : (Int64.ofInt n * second).toInt = (n * 1000000000).bmod (2 ^ 64) := by
  have hsecond : second.toInt = 1000000000 := by decide
  rw [Int64.toInt_mul, Int64.toInt_ofInt, hsecond, Int.bmod_mul_bmod]
  rfl

/-- A product that wraps comes out short by centuries. -/
theorem wrapped {n w : Int} (hpos : 0 < n) (hw : (n * 1000000000).bmod (2 ^ 64) = w) :
    w = n * 1000000000 ∨ w + 2 ^ 64 ≤ n * 1000000000 := by
  have hle : w ≤ n * 1000000000 := by
    rw [← hw, Int.bmod_def]
    split <;> omega
  obtain ⟨k, hk⟩ : (2 ^ 64 : Int) ∣ n * 1000000000 - w := by
    rw [← hw]
    exact Int.dvd_self_sub_bmod
  omega

/-- Two dates a duration apart are as many whole seconds apart, or one more. -/
theorem numericDate_sub (now w : Int) :
    numericDate (now + w) - numericDate now = w / 1000000000 ∨
      numericDate (now + w) - numericDate now = w / 1000000000 + 1 := by
  have hsecond : second.toInt = 1000000000 := by decide
  unfold numericDate
  rw [hsecond]
  omega

/-- Whole seconds are kept. -/
theorem numericDate_sub_seconds (now n : Int) :
    numericDate (now + n * 1000000000) - numericDate now = n := by
  have hsecond : second.toInt = 1000000000 := by decide
  unfold numericDate
  rw [hsecond, Int.add_mul_ediv_right now n (by decide)]
  omega

/-- **When the lifetime is the advertised one**: the value is that of the default, or its product
    with a second wraps to nothing or less, and is rejected. -/
theorem advertised_iff (issuerURL audience email random : String) (tokenID userID : Uuid) (now : Int)
    {env : String} {n : Int} (henv : Go.atoi env = some n) (hpos : 0 < n) :
    Advertised n env (issueTokens (newIssuer issuerURL audience (accessTTL env)) tokenID userID email
      random now) ↔ n = 900 ∨ (n * 1000000000).bmod (2 ^ 64) ≤ 0 := by
  have hdefault : (DefaultAccessTTL / second).toInt = 900 ∧
      DefaultAccessTTL.toInt = 900 * 1000000000 := by decide
  have hread : accessTTL env = Int64.ofInt n * second := by
    unfold accessTTL
    rw [henv]
    exact if_pos hpos
  have hnonpos : accessTTL env ≤ 0 ↔ (n * 1000000000).bmod (2 ^ 64) ≤ 0 := by
    rw [hread, Int64.le_iff_toInt_le, toInt_seconds]
    rfl
  have hrejected : Rejected env ↔ (n * 1000000000).bmod (2 ^ 64) ≤ 0 := by
    unfold Rejected
    rw [hnonpos, henv]
    constructor
    · rintro (h | h)
      · exact absurd (h n rfl) (by omega)
      · exact h
    · exact .inr
  have hdates : Advertised n env (issueTokens (newIssuer issuerURL audience (accessTTL env)) tokenID
      userID email random now) ↔ ∃ life,
        life = numericDate (now + (newIssuer issuerURL audience (accessTTL env)).accessTTL.toInt)
          - numericDate now ∧ (life = n ∨ Rejected env ∧ life = 900) ∧ 900 = life := by
    unfold Advertised issueTokens Issuer.issueAccess
    rw [hdefault.1]
    constructor
    · rintro ⟨iat, hiat, exp, hexp, h⟩
      obtain rfl := Option.some.inj hiat
      obtain rfl := Option.some.inj hexp
      exact ⟨_, rfl, h⟩
    · rintro ⟨life, rfl, h⟩
      exact ⟨_, rfl, _, rfl, h⟩
  rw [hdates, hrejected]
  unfold newIssuer
  by_cases hwrap : (n * 1000000000).bmod (2 ^ 64) ≤ 0
  · -- the issuer falls back on the default, which is what is answered
    rw [if_pos (hnonpos.mpr hwrap), hdefault.2, numericDate_sub_seconds]
    exact iff_of_true ⟨900, rfl, .inr ⟨hwrap, rfl⟩, rfl⟩ (.inr hwrap)
  · rw [if_neg (hnonpos.not.mpr hwrap), hread, toInt_seconds]
    rcases wrapped hpos rfl with hexact | hshort
    · rw [hexact, numericDate_sub_seconds]
      constructor
      · rintro ⟨life, rfl, -, h⟩
        exact .inl h.symm
      · rintro (rfl | h)
        · exact ⟨900, rfl, .inl rfl, rfl⟩
        · omega
    · -- the token is dated by what is left of the product
      have hdate := numericDate_sub now ((n * 1000000000).bmod (2 ^ 64))
      refine iff_of_false ?_ (by omega)
      rintro ⟨life, rfl, h, -⟩
      omega

/-- The token of the default lifetime. -/
theorem advertised_default : Advertised 900 "900" (issueTokens
    (newIssuer "http://auth:8080" "django-flask-kafka" (accessTTL "900")) (sampleUuid 11) (sampleUuid 10)
      "a@b" "r1" 0) :=
  (advertised_iff "http://auth:8080" "django-flask-kafka" "a@b" "r1" (sampleUuid 11) (sampleUuid 10) 0
    (by decide +kernel) (by decide)).mpr (.inl rfl)

/-- **A token that lives for an hour is advertised for a quarter of one.** -/
theorem hour_advertised_short : ¬ Advertised 3600 "3600" (issueTokens
    (newIssuer "http://auth:8080" "django-flask-kafka" (accessTTL "3600")) (sampleUuid 11)
      (sampleUuid 10) "a@b" "r1" 0) := by
  rintro ⟨iat, hiat, exp, hexp, -, hin⟩
  obtain rfl := Option.some.inj hiat
  obtain rfl := Option.some.inj hexp
  exact absurd hin (by decide +kernel)

/-! ## In the service -/

/-- On whole microseconds the claims are those of `Auth.issueAccess`, and so is what is answered. -/
theorem issueAccess_micro {C : Config} {i : Issuer} (hissuer : i.issuer = C.issuer)
    (haudience : i.audience = C.audience) (httl : i.accessTTL.toInt = C.accessTTL * 1000)
    (tokenID userID : Uuid) (email : String) (now : Int) :
    i.issueAccess tokenID userID email (now * 1000) = Auth.issueAccess C tokenID userID email now := by
  have hdate : ∀ t : Int, numericDate (t * 1000) = Go.numericDate t := by
    intro t
    have hsecond : second.toInt = Go.second * 1000 := by decide
    unfold numericDate Go.numericDate
    rw [hsecond, Int.mul_ediv_mul_of_pos_left t Go.second (by decide)]
  unfold Issuer.issueAccess Auth.issueAccess
  rw [hissuer, haudience, httl, ← add_mul, hdate, hdate]

theorem expires_in_eq (i : Issuer) (tokenID userID : Uuid) (email random : String) (now : Int) :
    (issueTokens i tokenID userID email random now).expires_in = Auth.DefaultAccessTTL / Go.second := by
  show (DefaultAccessTTL / second).toInt = _
  decide

end DjangoFlaskKafka.Auth.Lifetime
