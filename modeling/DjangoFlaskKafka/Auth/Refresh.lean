/-
  Refresh — what a refresh that fails costs.

  1. **Law** — `KeepsSession`: a `POST /refresh` that is answered with an error leaves
     `refresh_tokens` as it was, so that the token it presented is as good as before.

  2. **The crux** — `ConsumeRefreshToken` commits by itself, and three steps that can fail come after
     it: reading the user, issuing the pair, storing the new token.  None of them gives the old token
     back, so the law holds of a refresh exactly when it consumes nothing or none of them fails
     (`keepsSession_iff`).
-/
import DjangoFlaskKafka.Auth.Revocation

namespace DjangoFlaskKafka.Auth

open Postgres

variable (L : Libs) (C : Config)

/-! ## The law -/

/-- An error leaves the refresh tokens as they were, and what could redeem them still can. -/
def KeepsSession (db : Db L.lower) (a : Arrival) : Prop :=
  ∀ r ∈ (serve L C db a).2, 400 ≤ r.status →
    (serve L C db a).1.refresh_tokens = db.refresh_tokens ∧
      ∀ now hash, Redeemable db now hash → Redeemable (serve L C db a).1 now hash

/-- One of the steps after the consumption fails: the second statement, which reads the user, or the
    third, with the signature and the random draw before it, which stores the new token. -/
def Interrupted (db : Db L.lower) (a : Arrival) (userID : Uuid) : Prop :=
  a.statements.2.1.fails ∨ userByID db userID = none ∨ a.statements.2.2.fails ∨
    ∃ row ∈ db.refresh_tokens.1, row.token_hash = hashRefreshToken L a.statements.2.2.random

/-- The token is redeemed for nothing. -/
def Costly (db : Db L.lower) (a : Arrival) (token : String) : Prop :=
  ¬ a.statements.1.fails ∧ ∃ row ∈ db.refresh_tokens.1, row.token_hash = hashRefreshToken L token ∧
    row.revoked_at = none ∧ a.statements.1.now < row.expires_at ∧ Interrupted L db a row.user_id

/-! ## The steps after the consumption -/

section Steps

variable {L C} {db : Db L.lower}

/-- The last statement is answered with an error exactly when it, or the issuing before it, fails,
    and then it has stored nothing. -/
theorem drive_issueTokens_error (d : Draw) (parent : Option String) (userID : Uuid) (email : String) :
    ∃ db' r, drive L C [d] db (.stage (.issueTokens parent userID email)) = (db', some r) ∧
      (400 ≤ r.status ∧ db' = db ∧ (d.fails ∨ userByID db userID = none ∨
          ∃ row ∈ db.refresh_tokens.1, row.token_hash = hashRefreshToken L d.random) ∨
        r.status = 200 ∧ ¬ (d.fails ∨ userByID db userID = none ∨
          ∃ row ∈ db.refresh_tokens.1, row.token_hash = hashRefreshToken L d.random)) := by
  dsimp only [drive, proceed]
  by_cases hfails : d.fails
  · rw [if_pos hfails]
    exact ⟨db, fail, by simp [drive], .inl ⟨by decide, rfl, .inl hfails⟩⟩
  rw [if_neg hfails]
  cases hstored : storeRefreshToken db userID (hashRefreshToken L d.random) (d.now + C.refreshTTL) with
  | none =>
    have hcause := storeRefreshToken_eq_none_iff.mp hstored
    exact ⟨db, fail, by simp [drive], .inl ⟨by decide, rfl, .inr hcause⟩⟩
  | some db' =>
    refine ⟨db', _, by simp [drive]; rfl, .inr ⟨rfl, ?_⟩⟩
    rintro (hfails' | hcause)
    · exact hfails hfails'
    · rw [storeRefreshToken_eq_none_iff.mpr hcause] at hstored
      cases hstored

/-- Once the token is consumed, an error comes of an interruption, and leaves the table as the
    consumption has made it. -/
theorem drive_consumed (a : Arrival) (parent : String) (userID : Uuid) :
    ∃ db' r, drive L C [a.statements.2.1, a.statements.2.2] db (.stage (.userByID parent userID))
        = (db', some r) ∧
      (400 ≤ r.status ∧ db' = db ∧ Interrupted L db a userID ∨
        r.status = 200 ∧ ¬ Interrupted L db a userID) := by
  unfold drive Interrupted
  dsimp only [proceed]
  by_cases hfails : a.statements.2.1.fails
  · rw [if_pos hfails]
    exact ⟨db, fail, by simp [drive], .inl ⟨by decide, rfl, .inl hfails⟩⟩
  rw [if_neg hfails]
  cases huser : userByID db userID with
  | none => exact ⟨db, fail, by simp [drive], .inl ⟨by decide, rfl, .inr (.inl rfl)⟩⟩
  | some user =>
    obtain ⟨db', r, hdrive, hr⟩ := @drive_issueTokens_error L C db a.statements.2.2
      (some parent) user.id user.email
    -- the user that was read is the owner of the token
    have hid : user.id = userID := Keyed.lookup_key huser
    rw [hid, huser] at hr
    refine ⟨db', r, hdrive, ?_⟩
    rcases hr with ⟨hstatus, hdb, hcause⟩ | ⟨hstatus, hnot⟩
    · exact .inl ⟨hstatus, hdb, .inr (.inr (by simpa using hcause))⟩
    · refine .inr ⟨hstatus, ?_⟩
      simpa [hfails] using hnot

/-- A consumption leaves the users and the hashes where they are, so it interrupts nothing. -/
theorem interrupted_consumed {now : Int} {hash : String} {userID : Uuid} {db' : Db L.lower}
    {owner : Uuid} (h : consumeRefreshToken db now hash = some (db', owner)) (a : Arrival) :
    Interrupted L db' a userID ↔ Interrupted L db a userID := by
  have husers : userByID db' userID = userByID db userID := by
    unfold userByID
    rw [consumeRefreshToken_users h]
  obtain ⟨-, -, -, -, -, -, hrows⟩ := consumeRefreshToken_eq_some h
  have hhashes : ∀ hash', (∃ row ∈ db'.refresh_tokens.1, row.token_hash = hash') ↔
      ∃ row ∈ db.refresh_tokens.1, row.token_hash = hash' := by
    intro hash'
    have hkeys : db'.refresh_tokens.1.map RefreshToken.token_hash
        = db.refresh_tokens.1.map RefreshToken.token_hash := by
      rw [hrows, Keyed.map_key_modify RefreshToken.token_hash hash (by intro _ h; exact h)]
    simpa only [List.mem_map] using iff_of_eq (congrArg (hash' ∈ ·) hkeys)
  unfold Interrupted
  rw [husers, hhashes]

/-- A consumption changes the table. -/
theorem consumed_ne {now : Int} {hash : String} {db' : Db L.lower} {owner : Uuid}
    (h : consumeRefreshToken db now hash = some (db', owner)) :
    db'.refresh_tokens ≠ db.refresh_tokens := by
  intro heq
  obtain ⟨row, hrow, hhash, -, hnone, -, hrows⟩ := consumeRefreshToken_eq_some h
  have hrevoked : row.revoke now ∈ db.refresh_tokens.1 := by
    rw [← heq, hrows]
    exact List.mem_map.mpr ⟨row, hrow, if_pos hhash⟩
  have hsame : row.revoke now = row :=
    List.inj_on_of_nodup_map db.refresh_tokens.2 hrevoked hrow rfl
  rw [← hsame] at hnone
  cases hnone

/-- What redeems a token is a row. -/
theorem Redeemable.of_eq {db' : Db L.lower} (heq : db'.refresh_tokens = db.refresh_tokens) {now : Int}
    {hash : String} (h : Redeemable db now hash) : Redeemable db' now hash := by
  unfold Redeemable
  rw [heq]
  exact h

/-- What a request comes to, read off its answer. -/
theorem keepsSession_of_eq {a : Arrival} {db' : Db L.lower} {r : Response}
    (hserve : serve L C db a = (db', some r)) :
    KeepsSession L C db a ↔ (400 ≤ r.status → db'.refresh_tokens = db.refresh_tokens) := by
  unfold KeepsSession
  rw [hserve]
  constructor
  · exact fun h hstatus => (h r rfl hstatus).1
  · intro h r' hr' hstatus
    obtain rfl := Option.some.inj hr'
    exact ⟨h hstatus, fun now hash hredeemable => hredeemable.of_eq (h hstatus)⟩

/-- **When a failed refresh keeps the session**: unless it has redeemed a live token and a later step
    fails. -/
theorem keepsSession_iff (L : Libs) (C : Config) (db : Db L.lower) (token : Option String)
    (authorization : String) (draw : Draw) (statements : Draw × Draw × Draw) :
    KeepsSession L C db ⟨⟨.refresh token, authorization⟩, draw, statements⟩ ↔
      ∀ t ∈ token, ¬ Costly L db ⟨⟨.refresh token, authorization⟩, draw, statements⟩ t := by
  generalize ha : Arrival.mk ⟨.refresh token, authorization⟩ draw statements = a
  have harrive : arrive L C a.draw a.request
      = token.elim (.answer invalidJson) fun t => .stage (.refresh t) := by
    subst ha
    cases token <;> rfl
  cases token with
  | none =>
    have hserve : serve L C db a = (db, some invalidJson) := by
      unfold serve
      rw [harrive]
      rfl
    exact iff_of_true ((keepsSession_of_eq hserve).mpr fun _ => rfl) (by simp)
  | some token =>
    have hdrive : serve L C db a = drive L C [a.statements.1, a.statements.2.1, a.statements.2.2] db
        (.stage (.refresh token)) := by
      unfold serve
      rw [harrive]
      rfl
    unfold drive at hdrive
    dsimp only [proceed] at hdrive
    have hcostly : (∀ t ∈ some token, ¬ Costly L db a t) ↔ ¬ Costly L db a token := by simp
    rw [hcostly]
    by_cases hfails : a.statements.1.fails
    · rw [if_pos hfails, drive] at hdrive
      exact iff_of_true ((keepsSession_of_eq hdrive).mpr fun _ => rfl) fun h => h.1 hfails
    rw [if_neg hfails] at hdrive
    cases hconsume : consumeRefreshToken db a.statements.1.now (hashRefreshToken L token) with
    | none =>
      rw [hconsume] at hdrive
      dsimp only at hdrive
      rw [drive] at hdrive
      refine iff_of_true ((keepsSession_of_eq hdrive).mpr fun _ => rfl) ?_
      rintro ⟨-, row, hrow, hhash, hnone, hlive, -⟩
      exact consume_eq_none_iff.mp hconsume ⟨row, hrow, hhash, hnone, hlive⟩
    | some consumed =>
      obtain ⟨db', owner⟩ := consumed
      rw [hconsume] at hdrive
      obtain ⟨db'', r, hlater, hr⟩ := @drive_consumed L C db' a (hashRefreshToken L token)
        owner
      rw [interrupted_consumed hconsume] at hr
      obtain ⟨row, hrow, hhash, howner, hnone, hlive, -⟩ := consumeRefreshToken_eq_some hconsume
      rw [keepsSession_of_eq (hdrive.trans hlater)]
      rcases hr with ⟨hstatus, rfl, hinterrupted⟩ | ⟨hstatus, hnot⟩
      · refine iff_of_false (fun h => consumed_ne hconsume (h hstatus)) fun h => h ⟨hfails, ?_⟩
        exact ⟨row, hrow, hhash, hnone, hlive, howner ▸ hinterrupted⟩
      · refine iff_of_true (fun h => by omega) ?_
        rintro ⟨-, row', hrow', hhash', -, -, hinterrupted⟩
        -- no two rows have the hash
        obtain rfl := List.inj_on_of_nodup_map db.refresh_tokens.2 hrow' hrow (hhash'.trans hhash.symm)
        rw [howner] at hinterrupted
        exact hnot hinterrupted

end Steps

/-! ## A user that cannot be read -/

/-- A user with a live refresh token, `"r1"`. -/
def loggedIn : Db plainLibs.lower where
  users := ⟨[⟨aliceID, "a@b", "correct horse"⟩], by decide +kernel⟩
  refresh_tokens := ⟨[⟨aliceID, "r1", DefaultRefreshTTL, none⟩], by decide +kernel⟩
  outbox_events := ⟨[], List.nodup_nil⟩

/-- The refresh of it, whose second statement fails. -/
def unreadUser : Arrival :=
  let draw : Draw := ⟨0, tokenID, "r2", false⟩
  ⟨⟨.refresh (some "r1"), ""⟩, draw, draw, { draw with fails := true }, draw⟩

/-- **A refresh that fails costs the session.** -/
theorem failed_refresh_costs : ¬ KeepsSession plainLibs plainConfig loggedIn unreadUser := by
  intro h
  have hanswer : (serve plainLibs plainConfig loggedIn unreadUser).2 = some fail := by decide +kernel
  have hkept := (h fail (by rw [hanswer]; rfl) (by decide)).1
  have hrevoked : (serve plainLibs plainConfig loggedIn unreadUser).1.refresh_tokens.1
      ≠ loggedIn.refresh_tokens.1 := by decide +kernel
  exact hrevoked (congrArg Subtype.val hkept)

end DjangoFlaskKafka.Auth
