/-
  Revocation — what the auth service itself does with an access token it has revoked.

  1. **Program** — `serve`: one request after another, each from its arrival to its answer
     (`serve_answers`).

  2. **Law** — `RefusesRevoked`: after a `POST /revoke` has been answered 202, every later request
     that presents the same bearer token is answered 401 and leaves `refresh_tokens` and
     `outbox_events` alone.

  3. **The crux** — `revoke` is the only handler that looks at the bearer token, and `verify` looks
     at nothing but the token, the configuration and the clock.  So a later request is refused
     exactly when it would have been anyway (`refusesRevoked_iff`).
-/
import DjangoFlaskKafka.Auth.InFlight

namespace DjangoFlaskKafka.Auth

open Postgres

/-! ## The program -/

/-- A request, and what its steps draw: on arrival, and at each statement. -/
structure Arrival where
  request : Request
  draw : Draw
  statements : Draw × Draw × Draw

variable (L : Libs) (C : Config)

/-- The statements of a request, one after another. -/
def drive : List Draw → Db L.lower → Next → Db L.lower × Option Response
  | _, db, .answer response => (db, some response)
  | [], db, .stage _ => (db, none)
  | d :: draws, db, .stage stage =>
    let (db', next) := proceed L C d db stage
    drive draws db' next

/-- A whole request. -/
def serve (db : Db L.lower) (a : Arrival) : Db L.lower × Option Response :=
  drive L C [a.statements.1, a.statements.2.1, a.statements.2.2] db (arrive L C a.draw a.request)

/-- A request with the tables before and after it, and its answer. -/
structure Exchange where
  before : Db L.lower
  arrival : Arrival
  after : Db L.lower
  response : Option Response

/-- Requests one after another. -/
def exchanges (db : Db L.lower) : List Arrival → List (Exchange L)
  | [] => []
  | a :: arrivals =>
    let (db', response) := serve L C db a
    ⟨db, a, db', response⟩ :: exchanges db' arrivals

/-! ## The law -/

variable {L}

/-- The bearer token the request presents. -/
def Exchange.token (x : Exchange L) : String := bearerToken x.arrival.request

/-- A `POST /revoke` that is answered 202. -/
def Exchange.Revokes (x : Exchange L) : Prop :=
  x.arrival.request.endpoint = .revoke ∧ ∃ r ∈ x.response, r.status = 202

instance (x : Exchange L) : Decidable x.Revokes := inferInstanceAs (Decidable (_ ∧ _))

/-- The request is answered 401, and nothing has changed. -/
structure Exchange.Refused (x : Exchange L) : Prop where
  status : ∃ r ∈ x.response, r.status = 401
  refresh_tokens : x.after.refresh_tokens = x.before.refresh_tokens
  outbox_events : x.after.outbox_events = x.before.outbox_events

/-- What has been revoked is refused from then on. -/
def RefusesRevoked (xs : List (Exchange L)) : Prop :=
  xs.Pairwise fun x y => x.Revokes → y.token = x.token → y.Refused

/-- Some row redeems the token. -/
def Redeemable (db : Db L.lower) (now : Int) (hash : String) : Prop :=
  ∃ row ∈ db.refresh_tokens.1, row.token_hash = hash ∧ row.revoked_at = none ∧ now < row.expires_at

/-- The request is one that is refused whatever has been revoked: a login with wrong credentials, a
    refresh with a token that is not redeemable, a revocation by a token whose dates do not admit
    it. -/
def Exchange.Fails (x : Exchange L) : Prop :=
  let d := x.arrival.statements.1
  match x.arrival.request.endpoint with
  | .register _ => False
  | .login body => ¬ d.fails ∧ ∃ b ∈ body, ∀ user ∈ userByEmail x.before b.email,
      ¬ L.verifyPassword b.password user.password_hash
  | .refresh token => ¬ d.fails ∧ ∃ t ∈ token, ¬ Redeemable x.before d.now (hashRefreshToken L t)
  | .revoke => ∀ claims ∈ L.parse x.token, ¬ claims.Current x.arrival.draw.now

/-- What the revocations of a run are followed by fails anyway. -/
def FailsAfterRevoked (xs : List (Exchange L)) : Prop :=
  xs.Pairwise fun x y => x.Revokes → y.token = x.token → y.Fails

/-! ## Whole requests -/

section Serve

variable {C} (db : Db L.lower)

omit C in
/-- Nothing is redeemed when there is no live row in time under the hash. -/
theorem consume_eq_none_iff {db : Db L.lower} {now : Int} {hash : String} :
    consumeRefreshToken db now hash = none ↔ ¬ Redeemable db now hash := by
  unfold consumeRefreshToken Redeemable
  cases hrow : Keyed.lookup RefreshToken.token_hash hash db.refresh_tokens.1 with
  | none =>
    refine iff_of_true rfl ?_
    rintro ⟨row, hmem, hhash, -⟩
    exact Keyed.lookup_eq_none_iff.mp hrow row hmem hhash
  | some row =>
    obtain ⟨hmem, hhash⟩ := (Keyed.lookup_eq_some_iff db.refresh_tokens.2).mp hrow
    rw [Option.bind_some]
    by_cases hlive : row.revoked_at = none ∧ now < row.expires_at
    · rw [if_pos hlive]
      exact iff_of_false (by simp) fun h => h ⟨row, hmem, hhash, hlive⟩
    · rw [if_neg hlive]
      refine iff_of_true rfl ?_
      rintro ⟨row', hmem', hhash', hlive'⟩
      have hsame := (Keyed.lookup_eq_some_iff db.refresh_tokens.2).mpr ⟨hmem', hhash'⟩
      obtain rfl := Option.some.inj (hrow.symm.trans hsame)
      exact hlive hlive'

/-- A request that has come to its last statement is answered 200 or 500. -/
theorem drive_issueTokens (d : Draw) (draws : List Draw) (parent : Option String) (userID : Uuid)
    (email : String) : ∃ db' r, drive L C (d :: draws) db (.stage (.issueTokens parent userID email))
      = (db', some r) ∧ (r.status = 200 ∨ r.status = 500) := by
  dsimp only [drive, proceed]
  by_cases hfails : d.fails
  · rw [if_pos hfails]
    exact ⟨db, fail, by simp [drive], .inr rfl⟩
  rw [if_neg hfails]
  cases storeRefreshToken db userID (hashRefreshToken L d.random) (d.now + C.refreshTTL) with
  | none => exact ⟨db, fail, by simp [drive], .inr rfl⟩
  | some db' => exact ⟨db', _, by simp [drive]; rfl, .inl rfl⟩

/-- A refresh from its second statement on. -/
theorem drive_userByID (d d' : Draw) (draws : List Draw) (parent : String) (userID : Uuid) :
    ∃ db' r, drive L C (d :: d' :: draws) db (.stage (.userByID parent userID)) = (db', some r) ∧
      (r.status = 200 ∨ r.status = 500) := by
  unfold drive
  dsimp only [proceed]
  by_cases hfails : d.fails
  · rw [if_pos hfails]
    exact ⟨db, fail, by simp [drive], .inr rfl⟩
  rw [if_neg hfails]
  cases userByID db userID with
  | none => exact ⟨db, fail, by simp [drive], .inr rfl⟩
  | some user => exact drive_issueTokens db d' draws (some parent) user.id user.email

/-- A refresh is refused exactly when its token is not redeemable. -/
theorem drive_refresh (d d' d'' : Draw) (draws : List Draw) (token : String) :
    ∃ db' r, drive L C (d :: d' :: d'' :: draws) db (.stage (.refresh token)) = (db', some r) ∧
      (r.status = 401 ∧ db' = db ∧ ¬ d.fails ∧ ¬ Redeemable db d.now (hashRefreshToken L token) ∨
        r.status ≠ 401 ∧ (¬ d.fails → Redeemable db d.now (hashRefreshToken L token))) := by
  unfold drive
  dsimp only [proceed]
  by_cases hfails : d.fails
  · rw [if_pos hfails]
    exact ⟨db, fail, by simp [drive], .inr ⟨by decide, fun h => absurd hfails h⟩⟩
  rw [if_neg hfails]
  cases hconsume : consumeRefreshToken db d.now (hashRefreshToken L token) with
  | none =>
    exact ⟨db, _, by simp [drive]; rfl, .inl ⟨rfl, rfl, hfails, consume_eq_none_iff.mp hconsume⟩⟩
  | some consumed =>
    obtain ⟨db', userID⟩ := consumed
    obtain ⟨db'', r, hdrive, hstatus⟩ := drive_userByID (C := C) db' d' d'' draws
      (hashRefreshToken L token) userID
    refine ⟨db'', r, hdrive, .inr ⟨by omega, fun _ => ?_⟩⟩
    by_contra hnot
    rw [consume_eq_none_iff.mpr hnot] at hconsume
    cases hconsume

/-- A login is refused exactly when its credentials are wrong. -/
theorem drive_login (d d' : Draw) (draws : List Draw) (body : Credentials) :
    ∃ db' r, drive L C (d :: d' :: draws) db (.stage (.login body)) = (db', some r) ∧
      (r.status = 401 ∧ db' = db ∧ ¬ d.fails ∧ (∀ user ∈ userByEmail db body.email,
          ¬ L.verifyPassword body.password user.password_hash) ∨
        r.status ≠ 401 ∧ (¬ d.fails → ∃ user ∈ userByEmail db body.email,
          L.verifyPassword body.password user.password_hash)) := by
  unfold drive
  dsimp only [proceed]
  by_cases hfails : d.fails
  · rw [if_pos hfails]
    exact ⟨db, fail, by simp [drive], .inr ⟨by decide, fun h => absurd hfails h⟩⟩
  rw [if_neg hfails]
  cases huser : userByEmail db body.email with
  | none => exact ⟨db, _, by simp [drive]; rfl, .inl ⟨rfl, rfl, hfails, by simp⟩⟩
  | some user =>
    dsimp only
    by_cases hverify : L.verifyPassword body.password user.password_hash
    · rw [if_pos hverify]
      obtain ⟨db', r, hdrive, hstatus⟩ := drive_issueTokens (C := C) db d' draws none user.id
        user.email
      exact ⟨db', r, hdrive, .inr ⟨by omega, fun _ => ⟨user, rfl, hverify⟩⟩⟩
    · rw [if_neg hverify]
      refine ⟨db, _, by simp [drive]; rfl, .inl ⟨rfl, rfl, hfails, fun user' huser' => ?_⟩⟩
      obtain rfl := Option.some.inj huser'
      exact hverify

/-- A register has one statement. -/
theorem drive_register (d : Draw) (draws : List Draw) (email passwordHash : String) :
    ∃ db' r, drive L C (d :: draws) db (.stage (.register email passwordHash)) = (db', some r) ∧
      r.status ≠ 401 := by
  unfold drive
  dsimp only [proceed]
  by_cases hfails : d.fails
  · rw [if_pos hfails]
    exact ⟨db, fail, by simp [drive], by decide⟩
  rw [if_neg hfails]
  cases createUser db d.uuid email passwordHash with
  | none => exact ⟨db, _, by simp [drive]; rfl, by simp [writeError]⟩
  | some db' => exact ⟨db', _, by simp [drive]; rfl, by simp⟩

/-- A revoke has one statement. -/
theorem drive_revoke (d : Draw) (draws : List Draw) (tokenID : String) (userID : Uuid) (expires : Int) :
    ∃ db' r, drive L C (d :: draws) db (.stage (.revoke tokenID userID expires)) = (db', some r) ∧
      r.status ≠ 401 := by
  unfold drive
  dsimp only [proceed]
  by_cases hfails : d.fails
  · rw [if_pos hfails]
    exact ⟨db, fail, by simp [drive], by decide⟩
  rw [if_neg hfails]
  cases revokeAccessToken db d.now d.uuid tokenID userID expires with
  | none => exact ⟨db, fail, by simp [drive], by decide⟩
  | some db' => exact ⟨db', _, by simp [drive]; rfl, by simp⟩

/-- A revocation that reaches its statement had a token that is ours, of a subject that is a user id. -/
theorem arrive_revoke {d : Draw} {r : Request} (hrevoke : r.endpoint = .revoke)
    (claims : Claims) (hparse : L.parse (bearerToken r) = some claims) (hours : claims.Ours C)
    (userID : Uuid) (hsubject : L.parseUUID claims.subject = some userID) (htoken : bearerToken r ≠ "") :
    arrive L C d r = if claims.Current d.now then
      .stage (.revoke claims.id userID
        (claims.expiresAt.elim (d.now + DefaultAccessTTL) (· * Go.second)))
    else .answer (writeError 401 "token is not valid") := by
  unfold arrive
  rw [hrevoke]
  dsimp only
  rw [if_neg htoken, show verify L C d.now (bearerToken r) = if claims.Current d.now then some claims
    else none by unfold verify; rw [hparse, Option.filter_some]; simp [hours]]
  by_cases hcurrent : claims.Current d.now
  · rw [if_pos hcurrent, if_pos hcurrent]
    dsimp only
    rw [hsubject]
  · rw [if_neg hcurrent, if_neg hcurrent]

/-- No registration is answered 401. -/
theorem serve_register {a : Arrival} {body : Option Credentials}
    (hregister : a.request.endpoint = .register body) :
    ∃ db' r, serve L C db a = (db', some r) ∧ r.status ≠ 401 := by
  have harrive : (∃ r, arrive L C a.draw a.request = .answer r ∧ r.status ≠ 401) ∨
      ∃ email passwordHash, arrive L C a.draw a.request = .stage (.register email passwordHash) := by
    unfold arrive
    rw [hregister]
    cases body with
    | none => exact .inl ⟨_, rfl, by decide⟩
    | some body =>
      dsimp only
      split
      · exact .inl ⟨_, rfl, by simp [writeError]⟩
      split
      · exact .inl ⟨_, rfl, by simp [writeError]⟩
      split
      · exact .inl ⟨_, rfl, by decide⟩
      · exact .inr ⟨_, _, rfl⟩
  unfold serve
  rcases harrive with ⟨r, hr, hstatus⟩ | ⟨email, passwordHash, hstage⟩
  · exact ⟨db, r, by rw [hr, drive], hstatus⟩
  · rw [hstage]
    exact drive_register db a.statements.1 _ email passwordHash

/-- Every request is answered. -/
theorem serve_answers (a : Arrival) : ∃ db' r, serve L C db a = (db', some r) := by
  unfold serve
  cases arrive L C a.draw a.request with
  | answer r => exact ⟨db, r, by simp [drive]⟩
  | stage stage =>
    cases stage with
    | register email passwordHash =>
      obtain ⟨db', r, h, -⟩ := drive_register (C := C) db a.statements.1 _ email passwordHash
      exact ⟨db', r, h⟩
    | login body =>
      obtain ⟨db', r, h, -⟩ := drive_login (C := C) db a.statements.1 _ _ body
      exact ⟨db', r, h⟩
    | refresh token =>
      obtain ⟨db', r, h, -⟩ := drive_refresh (C := C) db a.statements.1 _ _ _ token
      exact ⟨db', r, h⟩
    | userByID parent userID =>
      obtain ⟨db', r, h, -⟩ := drive_userByID (C := C) db a.statements.1 _ _ parent userID
      exact ⟨db', r, h⟩
    | issueTokens parent userID email =>
      obtain ⟨db', r, h, -⟩ := drive_issueTokens (C := C) db a.statements.1 _ parent userID email
      exact ⟨db', r, h⟩
    | revoke tokenID userID expires =>
      obtain ⟨db', r, h, -⟩ := drive_revoke (C := C) db a.statements.1 _ tokenID userID expires
      exact ⟨db', r, h⟩

end Serve

/-! ## What the law comes to -/

section Law

variable {C}

/-- An exchange of the run is a request that was served in some state of it. -/
theorem serve_of_mem {db : Db L.lower} {arrivals : List Arrival} {x : Exchange L}
    (h : x ∈ exchanges L C db arrivals) : serve L C x.before x.arrival = (x.after, x.response) := by
  induction arrivals generalizing db with
  | nil => cases h
  | cons a arrivals ih =>
    rcases List.mem_cons.mp h with rfl | h
    · rfl
    · exact ih h

/-- The token of an answered revocation is this issuer's. -/
theorem Exchange.Revokes.token_ours {x : Exchange L} (h : x.Revokes)
    (hserve : serve L C x.before x.arrival = (x.after, x.response)) :
    x.token ≠ "" ∧ ∃ claims userID, L.parse x.token = some claims ∧ claims.Ours C ∧
      L.parseUUID claims.subject = some userID := by
  obtain ⟨hrevoke, r, hr, hstatus⟩ := h
  have hanswer : ∀ message, arrive L C x.arrival.draw x.arrival.request
      ≠ .answer (writeError 401 message) := by
    intro message harrive
    rw [serve, harrive] at hserve
    simp only [drive, Prod.mk.injEq] at hserve
    rw [← hserve.2] at hr
    obtain rfl := Option.some.inj hr
    cases hstatus
  unfold arrive at hanswer
  rw [hrevoke] at hanswer
  dsimp only at hanswer
  split at hanswer
  · exact absurd rfl (hanswer _)
  next htoken =>
    refine ⟨htoken, ?_⟩
    split at hanswer
    · exact absurd rfl (hanswer _)
    next claims hverify =>
      split at hanswer
      · exact absurd rfl (hanswer _)
      next userID hsubject =>
        obtain ⟨hparse, hclaims⟩ := Option.filter_eq_some_iff.mp hverify
        exact ⟨claims, userID, hparse, (of_decide_eq_true hclaims).2, hsubject⟩

/-- A request that comes to a 401 from a statement leaves everything as it was. -/
theorem Exchange.refused_iff {x : Exchange L} {db' : Db L.lower} {r : Response}
    (hserve : serve L C x.before x.arrival = (x.after, x.response)) {P : Prop}
    (h : serve L C x.before x.arrival = (db', some r))
    (hr : r.status = 401 ∧ db' = x.before ∧ P ∨ r.status ≠ 401 ∧ ¬ P) : x.Refused ↔ P := by
  obtain ⟨rfl, hresponse⟩ := Prod.mk.inj (hserve.symm.trans h)
  constructor
  · rintro ⟨⟨r', hr', hstatus⟩, -, -⟩
    rw [hresponse] at hr'
    obtain rfl := Option.some.inj hr'
    rcases hr with ⟨-, -, hP⟩ | ⟨hne, -⟩
    · exact hP
    · exact absurd hstatus hne
  · intro hP
    rcases hr with ⟨hstatus, hafter, -⟩ | ⟨-, hnot⟩
    · exact ⟨⟨r, hresponse, hstatus⟩, by rw [hafter], by rw [hafter]⟩
    · exact absurd hP hnot

/-- A request with the token of an answered revocation is refused exactly when it fails anyway. -/
theorem Exchange.refused_iff_fails {x y : Exchange L} (hx : x.Revokes) (htoken : y.token = x.token)
    (hserve : serve L C x.before x.arrival = (x.after, x.response))
    (hserve' : serve L C y.before y.arrival = (y.after, y.response)) : y.Refused ↔ y.Fails := by
  obtain ⟨hne, claims, userID, hparse, hours, hsubject⟩ := hx.token_ours hserve
  rw [← htoken] at hne hparse
  unfold Exchange.Fails
  cases hendpoint : y.arrival.request.endpoint with
  | register body =>
    obtain ⟨db', r, h, hstatus⟩ := serve_register (C := C) y.before hendpoint
    exact y.refused_iff hserve' h (.inr ⟨hstatus, id⟩)
  | login body =>
    cases body with
    | none =>
      have hserved : serve L C y.before y.arrival = (y.before, some invalidJson) := by
        unfold serve arrive
        rw [hendpoint, drive]
      exact y.refused_iff hserve' hserved
        (.inr ⟨by decide, fun h => by obtain ⟨b, hb, -⟩ := h.2; cases hb⟩)
    | some body =>
      obtain ⟨db', r, hdrive, hr⟩ := drive_login (C := C) y.before y.arrival.statements.1
        y.arrival.statements.2.1 [y.arrival.statements.2.2] body
      have hserved : serve L C y.before y.arrival = (db', some r) := by
        unfold serve arrive
        rw [hendpoint]
        exact hdrive
      refine y.refused_iff hserve' hserved ?_
      rcases hr with ⟨hstatus, hdb, hfails, hwrong⟩ | ⟨hstatus, hright⟩
      · exact .inl ⟨hstatus, hdb, hfails, body, rfl, hwrong⟩
      · refine .inr ⟨hstatus, ?_⟩
        rintro ⟨hfails, b, hb, hwrong⟩
        obtain rfl := Option.some.inj hb
        obtain ⟨user, huser, hverify⟩ := hright hfails
        exact hwrong user huser hverify
  | refresh token =>
    cases token with
    | none =>
      have hserved : serve L C y.before y.arrival = (y.before, some invalidJson) := by
        unfold serve arrive
        rw [hendpoint, drive]
      exact y.refused_iff hserve' hserved
        (.inr ⟨by decide, fun h => by obtain ⟨t, ht, -⟩ := h.2; cases ht⟩)
    | some token =>
      obtain ⟨db', r, hdrive, hr⟩ := drive_refresh (C := C) y.before y.arrival.statements.1
        y.arrival.statements.2.1 y.arrival.statements.2.2 [] token
      have hserved : serve L C y.before y.arrival = (db', some r) := by
        unfold serve arrive
        rw [hendpoint]
        exact hdrive
      refine y.refused_iff hserve' hserved ?_
      rcases hr with ⟨hstatus, hdb, hfails, hdead⟩ | ⟨hstatus, hlive⟩
      · exact .inl ⟨hstatus, hdb, hfails, token, rfl, hdead⟩
      · refine .inr ⟨hstatus, ?_⟩
        rintro ⟨hfails, t, ht, hdead⟩
        obtain rfl := Option.some.inj ht
        exact hdead (hlive hfails)
  | revoke =>
    -- the token still parses as it did, so it fails here only by having expired
    have harrive := arrive_revoke (d := y.arrival.draw) hendpoint claims hparse hours userID hsubject hne
    have hfails : (∀ c ∈ L.parse y.token, ¬ c.Current y.arrival.draw.now) ↔
        ¬ claims.Current y.arrival.draw.now := by simp [hparse]
    rw [hfails]
    by_cases hcurrent : claims.Current y.arrival.draw.now
    · rw [if_pos hcurrent] at harrive
      obtain ⟨db', r, hdrive, hstatus⟩ := drive_revoke (C := C) y.before
        y.arrival.statements.1 [y.arrival.statements.2.1, y.arrival.statements.2.2] claims.id userID
        (claims.expiresAt.elim (y.arrival.draw.now + DefaultAccessTTL) (· * Go.second))
      exact y.refused_iff hserve' (by rw [serve, harrive]; exact hdrive)
        (.inr ⟨hstatus, fun h => h hcurrent⟩)
    · rw [if_neg hcurrent] at harrive
      exact y.refused_iff hserve' (by rw [serve, harrive, drive]) (.inl ⟨rfl, rfl, hcurrent⟩)

/-- **When the service refuses what it has revoked**: exactly when every request that comes with a
    revoked token would have been refused without the revocation. -/
theorem refusesRevoked_iff (L : Libs) (C : Config) (db : Db L.lower) (arrivals : List Arrival) :
    RefusesRevoked (exchanges L C db arrivals) ↔ FailsAfterRevoked (exchanges L C db arrivals) := by
  refine List.Pairwise.iff_of_mem fun {x y} hx hy => ?_
  refine forall_congr' fun hrevokes => forall_congr' fun htoken => ?_
  exact Exchange.refused_iff_fails hrevokes htoken (serve_of_mem hx) (serve_of_mem hy)

end Law

/-! ## A token that revokes twice -/

/-- `POST /revoke`, and again with the same token. -/
def revokeTwice : List Arrival :=
  let draw (uuid : Uuid) : Draw := ⟨0, uuid, "", false⟩
  let revoke (uuid : Uuid) : Arrival :=
    ⟨⟨.revoke, "Bearer " ++ tokenID.1⟩, draw uuid, draw uuid, draw uuid, draw uuid⟩
  [revoke aliceID, revoke tokenID]

/-- **The service itself does not refuse a token it has revoked.** -/
theorem accepts_revoked : ¬ RefusesRevoked
    (exchanges plainLibs plainConfig (Db.empty plainLibs.lower) revokeTwice) := by
  intro h
  have hstatus : (exchanges plainLibs plainConfig (Db.empty plainLibs.lower) revokeTwice).Pairwise
      fun x y => x.Revokes → y.token = x.token → ∃ r ∈ y.response, r.status = 401 :=
    h.imp fun hrefused hrevokes htoken => (hrefused hrevokes htoken).status
  exact absurd hstatus (by decide +kernel)

end DjangoFlaskKafka.Auth
