/-
  The tables of the auth service and its statements — `internal/store/store.go` over
  `migrations/0001_init.sql`.

  Each function of the store is one statement or one transaction, so each is one function from
  tables to tables here; what it answers besides is `none` when a constraint or its `WHERE` turns it
  down.  `created_at` of users and refresh tokens and the `id` of a refresh token are written and
  never read, and are left out.
-/
import DjangoFlaskKafka.Go
import DjangoFlaskKafka.Kafka
import DjangoFlaskKafka.Postgres
import DjangoFlaskKafka.Lib.Keyed

namespace DjangoFlaskKafka.Auth

open Python Kafka Postgres

/-! ## Tables -/

/-- A row of `users`. -/
structure User where
  id : Uuid
  email : String
  password_hash : String
  deriving DecidableEq

/-- A row of `refresh_tokens`. -/
structure RefreshToken where
  user_id : Uuid
  token_hash : String
  expires_at : Int
  revoked_at : Option Int
  deriving DecidableEq

/-- A row of `outbox_events`. -/
structure OutboxEvent where
  id : Uuid
  topic : Topic
  key : String
  payload : Json
  created_at : Int
  published_at : Option Int

/-- The constraints of `users`: its primary key, and `users_email_lower_uniq`. -/
def UserConstraints (lower : String → String) (rows : List User) : Prop :=
  (rows.map User.id).Nodup ∧ (rows.map fun u => lower u.email).Nodup

instance (lower : String → String) : DecidablePred (UserConstraints lower) := fun _ =>
  inferInstanceAs (Decidable (_ ∧ _))

/-- The constraint of `refresh_tokens`: no hash twice. -/
def RefreshConstraints (rows : List RefreshToken) : Prop := (rows.map RefreshToken.token_hash).Nodup

instance : DecidablePred RefreshConstraints := fun _ => inferInstanceAs (Decidable (List.Nodup _))

/-- The constraint of `outbox_events`: its primary key. -/
def OutboxConstraints (rows : List OutboxEvent) : Prop := (rows.map OutboxEvent.id).Nodup

instance : DecidablePred OutboxConstraints := fun _ => inferInstanceAs (Decidable (List.Nodup _))

/-- The database; `lower` is Postgres's. -/
structure Db (lower : String → String) where
  users : { rows : List User // UserConstraints lower rows }
  refresh_tokens : { rows : List RefreshToken // RefreshConstraints rows }
  outbox_events : { rows : List OutboxEvent // OutboxConstraints rows }

/-- The database the migration leaves behind. -/
def Db.empty (lower : String → String) : Db lower where
  users := ⟨[], List.nodup_nil, List.nodup_nil⟩
  refresh_tokens := ⟨[], List.nodup_nil⟩
  outbox_events := ⟨[], List.nodup_nil⟩

/-! ## Statements -/

variable {lower : String → String} (db : Db lower)

/-- `CreateUser(email, passwordHash)`; `none` is a unique violation. -/
def createUser (id : Uuid) (email passwordHash : String) : Option (Db lower) :=
  (checked (UserConstraints lower) (db.users.1 ++ [⟨id, email, passwordHash⟩])).map fun users =>
    { db with users := users }

/-- `UserByEmail(email)`. -/
def userByEmail (email : String) : Option User :=
  Keyed.lookup (fun u => lower u.email) (lower email) db.users.1

/-- `UserByID(id)`. -/
def userByID (id : Uuid) : Option User := Keyed.lookup User.id id db.users.1

/-- `StoreRefreshToken(userID, hash, expiresAt)`; `none` is a hash that is there already, or a user
    that is not. -/
def storeRefreshToken (userID : Uuid) (hash : String) (expiresAt : Int) : Option (Db lower) :=
  if (userByID db userID).isSome then
    (checked RefreshConstraints (db.refresh_tokens.1 ++ [⟨userID, hash, expiresAt, none⟩])).map
      fun refresh_tokens => { db with refresh_tokens := refresh_tokens }
  else none

/-- The row once it is revoked. -/
def RefreshToken.revoke (now : Int) (row : RefreshToken) : RefreshToken :=
  { row with revoked_at := some now }

/-- `ConsumeRefreshToken(hash)`: the user of the row it has revoked. -/
def consumeRefreshToken (now : Int) (hash : String) : Option (Db lower × Uuid) :=
  (Keyed.lookup RefreshToken.token_hash hash db.refresh_tokens.1).bind fun row =>
    if row.revoked_at = none ∧ now < row.expires_at then
      let rows := Keyed.modify RefreshToken.token_hash hash (RefreshToken.revoke now) db.refresh_tokens.1
      have hrows : RefreshConstraints rows := by
        unfold RefreshConstraints
        rw [Keyed.map_key_modify RefreshToken.token_hash hash (by intro _ h; exact h)]
        exact db.refresh_tokens.2
      some ({ db with refresh_tokens := ⟨rows, hrows⟩ }, row.user_id)
    else none

/-- `UPDATE refresh_tokens SET revoked_at = now() WHERE user_id = $1 AND revoked_at IS NULL`. -/
def revokeAll (now : Int) (userID : Uuid) (rows : List RefreshToken) : List RefreshToken :=
  rows.map fun row => if row.user_id = userID ∧ row.revoked_at = none then row.revoke now else row

/-- A revocation leaves the hashes as they are. -/
theorem hashes_revokeAll (now : Int) (userID : Uuid) (rows : List RefreshToken) :
    (revokeAll now userID rows).map RefreshToken.token_hash = rows.map RefreshToken.token_hash := by
  unfold revokeAll
  rw [List.map_map]
  refine List.map_congr_left fun row _ => ?_
  show (if _ then row.revoke now else row).token_hash = row.token_hash
  split <;> rfl

theorem refreshConstraints_revokeAll (now : Int) (userID : Uuid) {rows : List RefreshToken}
    (h : RefreshConstraints rows) : RefreshConstraints (revokeAll now userID rows) := by
  show ((revokeAll now userID rows).map RefreshToken.token_hash).Nodup
  rw [hashes_revokeAll]
  exact h

/-- The payload of a revocation. -/
def revocationPayload (tokenID : String) (userID : Uuid) (expiresAt : Int) : Json :=
  .obj [("token_id", .str tokenID), ("user_id", .str userID.1),
    ("expires_at", .str (Go.formatRFC3339 expiresAt))]

/-- `RevokeAccessToken(tokenID, userID, expiresAt)`: one transaction. -/
def revokeAccessToken (now : Int) (id : Uuid) (tokenID : String) (userID : Uuid) (expiresAt : Int) :
    Option (Db lower) :=
  (checked OutboxConstraints (db.outbox_events.1 ++
    [⟨id, .tokenRevoked, userID.1, revocationPayload tokenID userID expiresAt, now, none⟩])).map
      fun outbox_events =>
        { db with
          refresh_tokens := ⟨revokeAll now userID db.refresh_tokens.1,
            refreshConstraints_revokeAll now userID db.refresh_tokens.2⟩
          outbox_events := outbox_events }

/-! ## What they do to the refresh tokens -/

section RefreshTokens

variable {db db' : Db lower}

/-- A new user comes without tokens. -/
theorem createUser_refresh {id : Uuid} {email passwordHash : String}
    (h : createUser db id email passwordHash = some db') :
    db'.refresh_tokens = db.refresh_tokens ∧ db'.outbox_events = db.outbox_events := by
  obtain ⟨users, -, rfl⟩ := Option.map_eq_some_iff.mp h
  exact ⟨rfl, rfl⟩

/-- A stored token is a new row with a new hash. -/
theorem storeRefreshToken_eq_some {userID : Uuid} {hash : String} {expiresAt : Int}
    (h : storeRefreshToken db userID hash expiresAt = some db') :
    db'.refresh_tokens.1 = db.refresh_tokens.1 ++ [⟨userID, hash, expiresAt, none⟩] ∧
      ∀ row ∈ db.refresh_tokens.1, row.token_hash ≠ hash := by
  unfold storeRefreshToken at h
  obtain ⟨-, h⟩ := Option.ite_none_right_eq_some.mp h
  obtain ⟨refresh_tokens, hrows, rfl⟩ := Option.map_eq_some_iff.mp h
  have heq := checked_eq_some hrows
  refine ⟨heq, fun row hrow => ?_⟩
  have hnodup := refresh_tokens.2
  unfold RefreshConstraints at hnodup
  rw [heq, List.map_append, List.nodup_append] at hnodup
  exact hnodup.2.2 row.token_hash (List.mem_map_of_mem hrow) hash (by simp)

/-- A consumed token was a live row, and is revoked. -/
theorem consumeRefreshToken_eq_some {now : Int} {hash : String} {userID : Uuid}
    (h : consumeRefreshToken db now hash = some (db', userID)) :
    ∃ row ∈ db.refresh_tokens.1, row.token_hash = hash ∧ row.user_id = userID ∧
      row.revoked_at = none ∧ now < row.expires_at ∧
      db'.refresh_tokens.1
        = Keyed.modify RefreshToken.token_hash hash (RefreshToken.revoke now) db.refresh_tokens.1 := by
  obtain ⟨row, hrow, h⟩ := Option.bind_eq_some_iff.mp h
  obtain ⟨⟨hnone, hexpires⟩, h⟩ := Option.ite_none_right_eq_some.mp h
  obtain ⟨rfl, rfl⟩ := Prod.mk.inj (Option.some.inj h)
  exact ⟨row, Keyed.lookup_mem hrow, Keyed.lookup_key hrow, rfl, hnone, hexpires, rfl⟩

/-- What a revocation leaves of the tokens. -/
theorem revokeAccessToken_eq_some {now : Int} {id : Uuid} {tokenID : String} {userID : Uuid}
    {expiresAt : Int} (h : revokeAccessToken db now id tokenID userID expiresAt = some db') :
    db'.refresh_tokens.1 = revokeAll now userID db.refresh_tokens.1 := by
  obtain ⟨outbox_events, -, rfl⟩ := Option.map_eq_some_iff.mp h
  rfl

end RefreshTokens

/-! ## What they do to the outbox -/

section Outbox

variable {db db' : Db lower}

theorem storeRefreshToken_outbox {userID : Uuid} {hash : String} {expiresAt : Int}
    (h : storeRefreshToken db userID hash expiresAt = some db') :
    db'.outbox_events = db.outbox_events := by
  obtain ⟨-, h⟩ := Option.ite_none_right_eq_some.mp h
  obtain ⟨refresh_tokens, -, rfl⟩ := Option.map_eq_some_iff.mp h
  rfl

theorem consumeRefreshToken_outbox {now : Int} {hash : String} {userID : Uuid}
    (h : consumeRefreshToken db now hash = some (db', userID)) :
    db'.outbox_events = db.outbox_events := by
  obtain ⟨row, -, h⟩ := Option.bind_eq_some_iff.mp h
  obtain ⟨-, h⟩ := Option.ite_none_right_eq_some.mp h
  obtain ⟨rfl, -⟩ := Prod.mk.inj (Option.some.inj h)
  rfl

/-- A revocation is a new row. -/
theorem revokeAccessToken_outbox {now : Int} {id : Uuid} {tokenID : String} {userID : Uuid}
    {expiresAt : Int} (h : revokeAccessToken db now id tokenID userID expiresAt = some db') :
    db'.outbox_events.1 = db.outbox_events.1 ++
      [⟨id, .tokenRevoked, userID.1, revocationPayload tokenID userID expiresAt, now, none⟩] := by
  obtain ⟨outbox_events, houtbox, rfl⟩ := Option.map_eq_some_iff.mp h
  exact checked_eq_some houtbox

/-- A revocation is queued unless its id is there. -/
theorem revokeAccessToken_eq_none_iff {now : Int} {id : Uuid} {tokenID : String} {userID : Uuid}
    {expiresAt : Int} : revokeAccessToken db now id tokenID userID expiresAt = none ↔
      ∃ e ∈ db.outbox_events.1, e.id = id := by
  have hkeys : ∀ e : OutboxEvent, OutboxConstraints (db.outbox_events.1 ++ [e]) ↔
      ∀ e' ∈ db.outbox_events.1, e'.id ≠ e.id := by
    intro e
    have hnodup : (db.outbox_events.1.map OutboxEvent.id).Nodup := db.outbox_events.2
    unfold OutboxConstraints
    rw [List.map_append, List.nodup_append]
    simp [hnodup]
  unfold revokeAccessToken
  rw [Option.map_eq_none_iff]
  constructor
  · intro hnone
    by_contra hnew
    push Not at hnew
    rw [checked_of ((hkeys _).mpr hnew)] at hnone
    cases hnone
  · rintro ⟨e, he, hid⟩
    exact checked_of_not fun h => (hkeys _).mp h e he hid

end Outbox

/-! ## What they do to the users -/

section Users

variable {db db' : Db lower}

/-- A created user is a new row. -/
theorem createUser_users {id : Uuid} {email passwordHash : String}
    (h : createUser db id email passwordHash = some db') :
    db'.users.1 = db.users.1 ++ [⟨id, email, passwordHash⟩] := by
  obtain ⟨users, husers, rfl⟩ := Option.map_eq_some_iff.mp h
  exact checked_eq_some husers

theorem storeRefreshToken_users {userID : Uuid} {hash : String} {expiresAt : Int}
    (h : storeRefreshToken db userID hash expiresAt = some db') : db'.users = db.users := by
  obtain ⟨-, h⟩ := Option.ite_none_right_eq_some.mp h
  obtain ⟨refresh_tokens, -, rfl⟩ := Option.map_eq_some_iff.mp h
  rfl

theorem consumeRefreshToken_users {now : Int} {hash : String} {userID : Uuid}
    (h : consumeRefreshToken db now hash = some (db', userID)) : db'.users = db.users := by
  obtain ⟨row, -, h⟩ := Option.bind_eq_some_iff.mp h
  obtain ⟨-, h⟩ := Option.ite_none_right_eq_some.mp h
  obtain ⟨rfl, -⟩ := Prod.mk.inj (Option.some.inj h)
  rfl

theorem revokeAccessToken_users {now : Int} {id : Uuid} {tokenID : String} {userID : Uuid}
    {expiresAt : Int} (h : revokeAccessToken db now id tokenID userID expiresAt = some db') :
    db'.users = db.users := by
  obtain ⟨outbox_events, -, rfl⟩ := Option.map_eq_some_iff.mp h
  rfl

/-- The one user an email finds. -/
theorem userByEmail_eq_some_iff {email : String} {user : User} :
    userByEmail db email = some user ↔ user ∈ db.users.1 ∧ lower user.email = lower email :=
  Keyed.lookup_eq_some_iff db.users.2.2

/-- Two rows of one id are one row. -/
theorem user_eq_of_id {user user' : User} (h : user ∈ db.users.1) (h' : user' ∈ db.users.1)
    (hid : user.id = user'.id) : user = user' :=
  List.inj_on_of_nodup_map db.users.2.1 h h' hid

/-- A new refresh token of a user is stored. -/
theorem storeRefreshToken_isSome {user : User} {hash : String} (expiresAt : Int)
    (huser : user ∈ db.users.1) (hnew : ∀ row ∈ db.refresh_tokens.1, row.token_hash ≠ hash) :
    ∃ db', storeRefreshToken db user.id hash expiresAt = some db' := by
  have hfound : userByID db user.id = some user :=
    (Keyed.lookup_eq_some_iff db.users.2.1).mpr ⟨huser, rfl⟩
  have hrows : RefreshConstraints (db.refresh_tokens.1 ++ [⟨user.id, hash, expiresAt, none⟩]) := by
    unfold RefreshConstraints
    rw [List.map_append, List.nodup_append]
    refine ⟨db.refresh_tokens.2, by simp, ?_⟩
    intro hash' hmem hash'' hmem'
    obtain ⟨row, hrow, rfl⟩ := List.mem_map.mp hmem
    obtain rfl := List.mem_singleton.mp hmem'
    exact hnew row hrow
  unfold storeRefreshToken
  rw [if_pos (by rw [hfound]; rfl), checked_of hrows]
  exact ⟨_, rfl⟩

/-- A token is stored unless its user is not there or its hash is. -/
theorem storeRefreshToken_eq_none_iff {userID : Uuid} {hash : String} {expiresAt : Int} :
    storeRefreshToken db userID hash expiresAt = none ↔
      userByID db userID = none ∨ ∃ row ∈ db.refresh_tokens.1, row.token_hash = hash := by
  constructor
  · intro hnone
    by_contra hnot
    push Not at hnot
    obtain ⟨huser, hnew⟩ := hnot
    obtain ⟨user, huser⟩ := Option.ne_none_iff_exists'.mp huser
    obtain ⟨db', hstored⟩ := storeRefreshToken_isSome expiresAt (Keyed.lookup_mem huser) hnew
    rw [Keyed.lookup_key huser, hnone] at hstored
    cases hstored
  · intro h
    cases hstored : storeRefreshToken db userID hash expiresAt with
    | none => rfl
    | some db' =>
      exfalso
      rcases h with huser | ⟨row, hrow, hhash⟩
      · rw [storeRefreshToken, huser] at hstored
        cases hstored
      · exact (storeRefreshToken_eq_some hstored).2 row hrow hhash

end Users

end DjangoFlaskKafka.Auth
