/-
  In flight — whether a revocation is the end of the sessions before it.

  1. **Law** — `SessionsEnded`: once a revocation of a user has been answered 202, no refresh token
     of the user that descends from a login completed before its transaction is live.

  2. **The crux** — the transaction revokes the ROWS of the user, and a refresh that has consumed
     its token and not yet stored the next one has no row.  What it stores is live.  That is the
     only way (`sessionsEnded_iff`): the law holds exactly in the runs in which no refresh stores
     its new token after a revocation of its user that was answered since it consumed the old one.
-/
import DjangoFlaskKafka.Auth.Sessions

namespace DjangoFlaskKafka.Auth

open Postgres Rotation Machine

variable {L : Libs}

/-- No session that had begun when its user was revoked has a live refresh token. -/
def SessionsEnded (s : State L) : Prop :=
  ∀ r ∈ s.history.revocations, ∀ row ∈ s.db.refresh_tokens.1, row.user_id = r.1 →
    row.revoked_at = none → ∀ n ∈ s.history.login row.token_hash, r.2 ≤ n

instance (s : State L) : Decidable (SessionsEnded s) :=
  inferInstanceAs (Decidable (∀ r ∈ s.history.revocations, ∀ row ∈ s.db.refresh_tokens.1, _ → _ →
    ∀ n ∈ s.history.login row.token_hash, r.2 ≤ n))

/-- A refresh that stores its new token does so with no revocation of its user since it consumed the
    old one. -/
def NoneSince (C : Config) (s : State L) (a : Action) : Prop :=
  ∀ o parent userID, Lands C s a o parent userID →
    ∀ r ∈ s.history.revocations.drop o.since, r.1 ≠ userID

/-- The law, in the words of the ledger. -/
theorem sessionsEnded_iff_ended (s : State L) : SessionsEnded s ↔ Ended s.ledger := by
  constructor
  · intro h r hr t ht howner hlive n hn
    obtain ⟨row, hrow, rfl⟩ := List.mem_map.mp ht
    exact h r hr row hrow howner (of_decide_eq_true hlive) n hn
  · intro h r hr row hrow huser hnone n hn
    exact h r hr row.token (List.mem_map_of_mem hrow) huser (decide_eq_true hnone) n hn

section Steps

variable {C : Config}

/-- **A step keeps the law exactly when no revocation has come between.** -/
theorem sessionsEnded_step (s : State L) (a : Action) (s' : State L)
    (hs : Sound s.ledger ∧ TookOff s.ledger) (hended : SessionsEnded s)
    (h : step L C s a = some s') : SessionsEnded s' ↔ NoneSince C s a := by
  obtain ⟨hsound, htook⟩ := hs
  rw [sessionsEnded_iff_ended] at hended ⊢
  have hnone : (∀ o parent userID, ¬ Lands C s a o parent userID) → NoneSince C s a :=
    fun hno o parent userID hlands => absurd hlands (hno o parent userID)
  have heffect := step_effect h
  generalize s'.ledger = l at heffect
  cases heffect with
  | quiet hno flights h => exact iff_of_true hended (hnone hno)
  | redeem hno t ht hlive flights h => exact iff_of_true hended.redeem (hnone hno)
  | login hno id hid owner => exact iff_of_true (hended.begin hsound hid owner) (hnone hno)
  | revoke hno owner => exact iff_of_true (hended.revoke owner) (hnone hno)
  | land o parent userID hlands flights h id hid =>
    rw [ended_mint_iff hsound hended htook h hid]
    constructor
    · -- the step lands one request only
      intro hclear o' parent' userID' hlands'
      obtain ⟨i, d, email, rfl, ho, hstage, -⟩ := hlands
      obtain ⟨i', d', email', hact, ho', hstage', -⟩ := hlands'
      cases hact
      obtain rfl := Option.some.inj (ho.symm.trans ho')
      obtain ⟨-, rfl, -⟩ := Stage.issueTokens.inj (hstage.symm.trans hstage')
      exact hclear
    · exact fun hsince => hsince o parent userID hlands

/-- **Which runs end the sessions at a revocation**: those in which no refresh stores its new token
    after a revocation of its user that was answered 202 since it consumed the old one. -/
theorem sessionsEnded_iff (L : Libs) (C : Config) (acts : List Action) :
    Throughout (step L C) SessionsEnded (init L) acts ↔
      Along (step L C) (NoneSince C) (init L) acts := by
  refine throughout_iff_along (fun s a s' hs hended h => ?_) sessionsEnded_step acts
    ⟨ledger_init (L := L) ▸ sound_empty, fun f hf => by cases hf⟩ (fun r hr => by cases hr)
  rw [sessionsEnded_iff_ended] at hended
  have hmove := (step_effect h).move
  exact ⟨hs.1.move hmove, tookOff_move hs.1 hended hs.2 hmove⟩

end Steps

/-! ## A refresh that a revocation overtakes -/

/-- A service with the default lifetimes. -/
def plainConfig : Config where
  issuer := "http://auth:8080"
  audience := "django-flask-kafka"
  accessTTL := DefaultAccessTTL
  refreshTTL := DefaultRefreshTTL

def aliceID : Uuid := sampleUuid 10
def tokenID : Uuid := sampleUuid 11

/-- What the access token of the run says. -/
def aliceClaims : Claims := issueAccess plainConfig tokenID aliceID "a@b" 0

/-- Libraries that sign a token by its id, know the one token of the run, and hash nothing. -/
def plainLibs : Libs where
  lower := id
  sha256 := id
  sign claims := claims.id
  parse token := if token = tokenID.1 then some aliceClaims else none
  parseUUID s := if s = aliceID.1 then some aliceID else none
  hashPassword _ password := password
  verifyPassword password encoded := password = encoded

/-- A user registers, logs in and presents the refresh token; once it is consumed, the user revokes
    the access token; then the refresh goes on. -/
def overtakenRefresh : List Action :=
  let draw (uuid : Uuid) (random : String) : Draw := ⟨0, uuid, random, false⟩
  let body : Credentials := ⟨"a@b", "correct horse"⟩
  [.arrive (draw aliceID "") ⟨.register (some body), ""⟩, .proceed 0 (draw aliceID ""),
    .arrive (draw aliceID "") ⟨.login (some body), ""⟩, .proceed 0 (draw tokenID ""),
    .proceed 0 (draw tokenID "r1"),
    .arrive (draw tokenID "") ⟨.refresh (some "r1"), ""⟩, .proceed 0 (draw tokenID ""),
    .arrive (draw tokenID "") ⟨.revoke, "Bearer " ++ tokenID.1⟩, .proceed 1 (draw tokenID ""),
    .proceed 0 (draw tokenID ""), .proceed 0 (draw tokenID "r2")]

/-- **A revocation is not the end of every session before it.** -/
theorem session_survives : ∃ s, run (step plainLibs plainConfig) (init plainLibs) overtakenRefresh
    = some s ∧ ¬ SessionsEnded s := by
  have hsome : (run (step plainLibs plainConfig) (init plainLibs) overtakenRefresh).isSome := by
    decide +kernel
  have hlast : ∀ s ∈ run (step plainLibs plainConfig) (init plainLibs) overtakenRefresh,
      ¬ SessionsEnded s := by decide +kernel
  obtain ⟨s, hs⟩ := Option.isSome_iff_exists.mp hsome
  exact ⟨s, hs, hlast s hs⟩

end DjangoFlaskKafka.Auth
