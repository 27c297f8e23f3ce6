/-
  Login — whether whoever can register can log in.

  1. **Program** — `after`: the tables after whole requests, one after another; the passwords are
     those of `internal/auth/password.go`.

  2. **Law** — after a registration that was answered 201, and whatever else was served since, a
     login with the same body is given tokens of the registered user, and of no other (`Issues`).

  3. **Crux** — no request takes a user away (`mem_after`), ids and lowered emails are unique, and a
     hash verifies the password it was made of.  So the login depends on the lookup alone, and
     there the endpoints differ: `register` stores the email without the white space around it,
     `login` looks for the email as it came (`issues_iff`).
-/
import DjangoFlaskKafka.Auth.Password
import DjangoFlaskKafka.Auth.Revocation

namespace DjangoFlaskKafka.Auth

open Postgres

/-! ## Program -/

section
variable (L : Libs) (C : Config)

/-- The tables after whole requests, one after another. -/
def after (db : Db L.lower) (arrivals : List Arrival) : Db L.lower :=
  arrivals.foldl (fun db a => (serve L C db a).1) db

/-! ## Law -/

/-- A `POST /register` with this body is answered 201, with this id. -/
def Registers (db : Db L.lower) (a : Arrival) (body : Credentials) (id : Uuid) : Prop :=
  a.request.endpoint = .register (some body) ∧
    ∃ email, (serve L C db a).2 = some ⟨201, .registered id email⟩

/-- Nothing fails under a login: neither of its statements, and its refresh token is a new one. -/
def Unhindered (db : Db L.lower) (a : Arrival) : Prop :=
  ¬ a.statements.1.fails ∧ ¬ a.statements.2.1.fails ∧
    ∀ row ∈ db.refresh_tokens.1, row.token_hash ≠ hashRefreshToken L a.statements.2.1.random

/-- The request is given tokens of this user and of no other: the access token names the user, and
    one refresh token is stored, which is the user's. -/
def Issues (db : Db L.lower) (a : Arrival) (id : Uuid) : Prop :=
  let d := a.statements.2.1
  (∃ email, (serve L C db a).2 = some ⟨200, .tokens (L.sign (issueAccess C d.uuid id email d.now))
      d.random (DefaultAccessTTL / Go.second)⟩) ∧
    (serve L C db a).1.refresh_tokens.1 = db.refresh_tokens.1 ++
      [⟨id, hashRefreshToken L d.random, d.now + C.refreshTTL, none⟩]

end

/-! ## Users stay -/

section
variable {L : Libs} {C : Config} {db : Db L.lower} {user : User}

theorem mem_proceed (d : Draw) (stage : Stage) (h : user ∈ db.users.1) :
    user ∈ (proceed L C d db stage).1.users.1 := by
  unfold proceed
  split
  · exact h
  cases stage with
  | register email passwordHash =>
    dsimp only
    split
    · exact h
    next db' hcreate =>
      rw [createUser_users hcreate]
      exact List.mem_append_left _ h
  | login body =>
    dsimp only
    split
    · exact h
    · split <;> exact h
  | refresh token =>
    dsimp only
    split
    · exact h
    next db' userID hconsume => exact consumeRefreshToken_users hconsume ▸ h
  | userByID parent userID =>
    dsimp only
    split <;> exact h
  | issueTokens parent userID email =>
    dsimp only
    split
    · exact h
    next db' hstore => exact storeRefreshToken_users hstore ▸ h
  | revoke tokenID userID expires =>
    dsimp only
    split
    · exact h
    next db' hrevoke => exact revokeAccessToken_users hrevoke ▸ h

theorem mem_drive (draws : List Draw) (next : Next) (h : user ∈ db.users.1) :
    user ∈ (drive L C draws db next).1.users.1 := by
  induction draws generalizing db next with
  | nil => cases next <;> exact h
  | cons d draws ih =>
    cases next with
    | answer response => exact h
    | stage stage => exact ih _ (mem_proceed d stage h)

/-- **No request takes a user away.** -/
theorem mem_after (arrivals : List Arrival) (h : user ∈ db.users.1) :
    user ∈ (after L C db arrivals).users.1 := by
  induction arrivals generalizing db with
  | nil => exact h
  | cons a arrivals ih => exact ih (mem_drive _ _ h)

end

/-! ## Registration and login -/

section
variable {L : Libs} {C : Config} {db : Db L.lower} {a : Arrival} {body : Credentials} {id : Uuid}

/-- What a registration stores: the email trimmed, and a hash of the password. -/
theorem Registers.stored (h : Registers L C db a body id) : ∃ random,
    ⟨id, Go.trimSpace body.email, L.hashPassword random body.password⟩ ∈
      (serve L C db a).1.users.1 := by
  obtain ⟨hregister, email, hanswer⟩ := h
  -- whatever refuses before the statement answers with another status
  have harrive : (∃ r, arrive L C a.draw a.request = .answer r ∧ r.status ≠ 201) ∨
      arrive L C a.draw a.request = .stage (.register (Go.trimSpace body.email)
        (L.hashPassword a.draw.random body.password)) := by
    unfold arrive
    rw [hregister]
    dsimp only
    split
    · exact .inl ⟨_, rfl, by simp [writeError]⟩
    split
    · exact .inl ⟨_, rfl, by simp [writeError]⟩
    split
    · exact .inl ⟨_, rfl, by decide⟩
    · exact .inr rfl
  refine ⟨a.draw.random, ?_⟩
  unfold serve at hanswer ⊢
  rcases harrive with ⟨r, hr, hstatus⟩ | hstage
  · rw [hr] at hanswer
    obtain rfl := Option.some.inj hanswer
    exact absurd rfl hstatus
  · rw [hstage] at hanswer ⊢
    dsimp only [drive, proceed] at hanswer ⊢
    by_cases hfails : a.statements.1.fails
    · rw [if_pos hfails] at hanswer
      simp [drive, fail, writeError] at hanswer
    rw [if_neg hfails] at hanswer ⊢
    cases hcreate : createUser db a.statements.1.uuid (Go.trimSpace body.email)
        (L.hashPassword a.draw.random body.password) with
    | none =>
      rw [hcreate] at hanswer
      simp [drive, writeError] at hanswer
    | some db' =>
      rw [hcreate] at hanswer
      simp only [drive, Option.some.injEq, Response.mk.injEq, Body.registered.injEq, true_and]
        at hanswer
      rw [← hanswer.1]
      show _ ∈ db'.users.1
      rw [createUser_users hcreate]
      exact List.mem_append_right _ List.mem_cons_self

/-- A login that nothing hinders is given the tokens of the user it finds, if the password is that
    user's. -/
theorem issues_login_iff (hlogin : a.request.endpoint = .login (some body))
    (hok : Unhindered L db a) : Issues L C db a id ↔
      ∃ user ∈ userByEmail db body.email, user.id = id ∧
        L.verifyPassword body.password user.password_hash := by
  obtain ⟨hfails, hfails', hnew⟩ := hok
  have hserve : serve L C db a = drive L C [a.statements.1, a.statements.2.1, a.statements.2.2] db
      (.stage (.login body)) := by
    unfold serve arrive
    rw [hlogin]
  unfold Issues
  rw [hserve]
  dsimp only [drive, proceed]
  rw [if_neg hfails]
  cases huser : userByEmail db body.email with
  | none =>
    refine iff_of_false ?_ (by simp)
    rintro ⟨⟨email, hanswer⟩, -⟩
    simp [drive, writeError] at hanswer
  | some user =>
    dsimp only
    by_cases hverify : L.verifyPassword body.password user.password_hash
    · obtain ⟨hmem, -⟩ := userByEmail_eq_some_iff.mp huser
      obtain ⟨db', hstore⟩ :=
        storeRefreshToken_isSome (a.statements.2.1.now + C.refreshTTL) hmem hnew
      obtain ⟨hrows, -⟩ := storeRefreshToken_eq_some hstore
      rw [if_pos hverify]
      dsimp only [drive, proceed]
      rw [if_neg hfails', hstore]
      dsimp only [drive]
      rw [hrows]
      constructor
      · rintro ⟨-, hrow⟩
        -- the token that is stored names the user that was found
        simp only [List.append_cancel_left_eq, List.cons.injEq, RefreshToken.mk.injEq] at hrow
        exact ⟨user, rfl, hrow.1.1, hverify⟩
      · rintro ⟨user', huser', rfl, -⟩
        obtain rfl := Option.some.inj huser'
        exact ⟨⟨user.email, rfl⟩, rfl⟩
    · rw [if_neg hverify]
      refine iff_of_false ?_ ?_
      · rintro ⟨⟨email, hanswer⟩, -⟩
        simp [drive, writeError] at hanswer
      · rintro ⟨user', huser', -, hverify'⟩
        obtain rfl := Option.some.inj huser'
        exact hverify hverify'

end

/-- **Who has registered can log in** exactly when the email is found as it came: when lowering does
    not tell it from what is left of it without the white space around it. -/
theorem issues_iff (A : Argon2) (salt : String → List UInt8) (L : Libs) (C : Config)
    (db : Db L.lower) (register : Arrival) (body : Credentials) (id : Uuid)
    (hregister : Registers (L.withPasswords A salt) C db register body id) (later : List Arrival)
    (login : Arrival) (hlogin : login.request.endpoint = .login (some body))
    (hok : Unhindered (L.withPasswords A salt)
      (after (L.withPasswords A salt) C db (register :: later)) login) :
    Issues (L.withPasswords A salt) C (after (L.withPasswords A salt) C db (register :: later))
      login id ↔ L.lower body.email = L.lower (Go.trimSpace body.email) := by
  obtain ⟨random, hstored⟩ := hregister.stored
  have hmem := mem_after (C := C) later hstored
  have hverify : (L.withPasswords A salt).verifyPassword body.password
      ((L.withPasswords A salt).hashPassword random body.password) := by
    show (verifyPassword A body.password (hashPassword A (salt random) body.password)).isOk
    rw [verifyPassword_self]
    rfl
  rw [issues_login_iff hlogin hok]
  constructor
  · rintro ⟨user, huser, hid, -⟩
    obtain ⟨hmem', hlower⟩ := userByEmail_eq_some_iff.mp huser
    -- ids are unique, so the user that was found is the one who registered
    obtain rfl := user_eq_of_id hmem' hmem hid
    exact hlower.symm
  · intro hlower
    exact ⟨_, userByEmail_eq_some_iff.mpr ⟨hmem, hlower.symm⟩, rfl, hverify⟩

/-! ## With and without white space -/

/-- `plainLibs`, with the passwords of the service and salts of zeros. -/
def saltedLibs : Libs := plainLibs.withPasswords plainArgon2 fun _ => List.replicate 16 0

/-- Credentials that register or log in with this email. -/
def withEmail (email : String) : Credentials := ⟨email, "correct horse"⟩

/-- A request whose every step draws this id and this refresh token. -/
def request (endpoint : Endpoint) (uuid : Uuid) (random : String) : Arrival :=
  let draw : Draw := ⟨0, uuid, random, false⟩
  ⟨⟨endpoint, ""⟩, draw, draw, draw, draw⟩

/-- The first user registers, with this email; then a second one. -/
def registrations (email : String) : List Arrival :=
  [request (.register (some (withEmail email))) aliceID "",
    request (.register (some (withEmail "b@c"))) tokenID ""]

/-- The tables when both have registered. -/
def registered (email : String) : Db saltedLibs.lower :=
  after saltedLibs plainConfig (Db.empty saltedLibs.lower) (registrations email)

theorem issues_plain : Issues saltedLibs plainConfig (registered "a@b")
    (request (.login (some (withEmail "a@b"))) tokenID "r1") aliceID :=
  (issues_iff plainArgon2 (fun _ => List.replicate 16 0) plainLibs plainConfig
    (Db.empty plainLibs.lower) (request (.register (some (withEmail "a@b"))) aliceID "")
    (withEmail "a@b") aliceID ⟨rfl, "a@b", by decide +kernel⟩
    [request (.register (some (withEmail "b@c"))) tokenID ""]
    (request (.login (some (withEmail "a@b"))) tokenID "r1") rfl
    ⟨by decide, by decide, by decide +kernel⟩).mpr (by decide +kernel)

/-- **A user who has registered with a space before the email cannot log in with it.** -/
theorem untrimmed_refused :
    Registers saltedLibs plainConfig (Db.empty saltedLibs.lower)
        (request (.register (some (withEmail " a@b"))) aliceID "") (withEmail " a@b") aliceID ∧
      Unhindered saltedLibs (registered " a@b")
        (request (.login (some (withEmail " a@b"))) tokenID "r1") ∧
      ¬ Issues saltedLibs plainConfig (registered " a@b")
        (request (.login (some (withEmail " a@b"))) tokenID "r1") aliceID := by
  refine ⟨⟨rfl, "a@b", by decide +kernel⟩, ⟨by decide, by decide, by decide +kernel⟩, ?_⟩
  have hanswer : (serve saltedLibs plainConfig (registered " a@b")
      (request (.login (some (withEmail " a@b"))) tokenID "r1")).2
        = some (writeError 401 "invalid credentials") := by decide +kernel
  rintro ⟨⟨email, htokens⟩, -⟩
  rw [hanswer] at htokens
  simp [writeError] at htokens

end DjangoFlaskKafka.Auth
