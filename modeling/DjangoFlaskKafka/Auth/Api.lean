/-
  The endpoints of the auth service — `internal/api/api.go`.

  A handler is cut where other requests can get between, which is before each statement: `arrive` is
  what it does before the first one, and `proceed` is one statement with what follows it, up to the
  next or to the answer.  A request on its way is a `Stage`, the local variables it still needs.

  `Draw` is what a step gets from outside: the clock, its random draws, and whether it fails (a
  statement, the signature or `crypto/rand` returning an error, which has no effect on the tables
  and is answered 500).
-/
import DjangoFlaskKafka.Auth.Store
import DjangoFlaskKafka.Auth.Tokens

namespace DjangoFlaskKafka.Auth

open Postgres

/-! ## Requests and answers -/

/-- `credentials`. -/
structure Credentials where
  email : String
  password : String
  deriving DecidableEq, Repr

/-- An endpoint and the body it decodes; `none` is a body that is not the JSON it wants. -/
inductive Endpoint where
  | register (body : Option Credentials)
  | login (body : Option Credentials)
  | refresh (refreshToken : Option String)
  | revoke
  deriving DecidableEq, Repr

/-- A request; `authorization` is its header of that name, empty when there is none. -/
structure Request where
  endpoint : Endpoint
  authorization : String
  deriving DecidableEq, Repr

/-- The JSON bodies of the answers. -/
inductive Body where
  | error (message : String)
  | registered (id : Uuid) (email : String)
  | tokens (access refresh : String) (expiresIn : Int)
  | revocationQueued
  deriving DecidableEq, Repr

/-- An answer: the status code and the body. -/
structure Response where
  status : Nat
  body : Body
  deriving DecidableEq, Repr

/-- `writeError(w, status, msg)`. -/
def writeError (status : Nat) (message : String) : Response := ⟨status, .error message⟩

/-- `s.fail(w, err)`. -/
def fail : Response := writeError 500 "internal error"

/-- `decode` failed. -/
def invalidJson : Response := writeError 400 "invalid json"

/-- What a step draws from outside. -/
structure Draw where
  /-- the clock, in microseconds -/
  now : Int
  /-- what `uuid.New` or the database's default for an id gives -/
  uuid : Uuid
  /-- the salt of a hash, or a refresh token -/
  random : String
  fails : Bool
  deriving DecidableEq, Repr

/-! ## The handlers -/

/-- Where a request is: the statement it comes to next, and what it has in hand.  `parent` is the
    hash of the refresh token it has redeemed. -/
inductive Stage where
  | register (email passwordHash : String)
  | login (body : Credentials)
  | refresh (refreshToken : String)
  | userByID (parent : String) (userID : Uuid)
  | issueTokens (parent : Option String) (userID : Uuid) (email : String)
  | revoke (tokenID : String) (userID : Uuid) (expires : Int)
  deriving DecidableEq, Repr

/-- The end of a step: the answer, or the next stage. -/
inductive Next where
  | answer (response : Response)
  | stage (stage : Stage)
  deriving DecidableEq, Repr

/-- `bearerToken(r)`. -/
def bearerToken (r : Request) : String :=
  let header := r.authorization.toList
  if Go.equalFold (header.take 7) "bearer ".toList then
    Go.trimSpace (String.ofList (header.drop 7))
  else ""

variable (L : Libs) (C : Config)

/-- The handlers, up to their first statement. -/
def arrive (d : Draw) (r : Request) : Next :=
  match r.endpoint with
  | .register none => .answer invalidJson
  | .register (some body) =>
    let email := Go.trimSpace body.email
    if email = "" ∨ '@' ∉ email.toList then
      .answer (writeError 400 "a valid email is required")
    else if body.password.utf8ByteSize < 12 then
      .answer (writeError 400 "password must be at least 12 characters")
    else if d.fails then .answer fail
    else .stage (.register email (L.hashPassword d.random body.password))
  | .login none => .answer invalidJson
  | .login (some body) => .stage (.login body)
  | .refresh none => .answer invalidJson
  | .refresh (some refreshToken) => .stage (.refresh refreshToken)
  | .revoke =>
    let token := bearerToken r
    if token = "" then .answer (writeError 401 "bearer token required")
    else match verify L C d.now token with
      | none => .answer (writeError 401 "token is not valid")
      | some claims =>
        match L.parseUUID claims.subject with
        | none => .answer (writeError 401 "token subject is not a uuid")
        | some userID =>
          -- a token without `exp` is taken to have been issued just now
          let expires := claims.expiresAt.elim (d.now + DefaultAccessTTL) (· * Go.second)
          .stage (.revoke claims.id userID expires)

/-- The statement a request has come to, and what follows it. -/
def proceed (d : Draw) (db : Db L.lower) (stage : Stage) : Db L.lower × Next :=
  if d.fails then (db, .answer fail)
  else match stage with
    | .register email passwordHash =>
      match createUser db d.uuid email passwordHash with
      | none => (db, .answer (writeError 409 "email is already registered"))
      | some db' => (db', .answer ⟨201, .registered d.uuid email⟩)
    | .login body =>
      match userByEmail db body.email with
      -- the password is checked against a dummy hash, for the time it takes
      | none => (db, .answer (writeError 401 "invalid credentials"))
      | some user =>
        if L.verifyPassword body.password user.password_hash then
          (db, .stage (.issueTokens none user.id user.email))
        else (db, .answer (writeError 401 "invalid credentials"))
    | .refresh refreshToken =>
      let hash := hashRefreshToken L refreshToken
      match consumeRefreshToken db d.now hash with
      | none => (db, .answer (writeError 401 "refresh token is not valid"))
      | some (db', userID) => (db', .stage (.userByID hash userID))
    | .userByID parent userID =>
      match userByID db userID with
      -- a user that is not there is an error like any other here
      | none => (db, .answer fail)
      | some user => (db, .stage (.issueTokens (some parent) user.id user.email))
    | .issueTokens _ userID email =>
      let access := L.sign (issueAccess C d.uuid userID email d.now)
      let hash := hashRefreshToken L d.random
      match storeRefreshToken db userID hash (d.now + C.refreshTTL) with
      | none => (db, .answer fail)
      | some db' => (db', .answer ⟨200, .tokens access d.random (DefaultAccessTTL / Go.second)⟩)
    | .revoke tokenID userID expires =>
      match revokeAccessToken db d.now d.uuid tokenID userID expires with
      | none => (db, .answer fail)
      | some db' => (db', .answer ⟨202, .revocationQueued⟩)

/-! ## What a request does on arrival -/

/-- `POST /register` takes these credentials. -/
structure Credentials.Valid (body : Credentials) : Prop where
  email : Go.trimSpace body.email ≠ ""
  at_sign : '@' ∈ (Go.trimSpace body.email).toList
  password : 12 ≤ body.password.utf8ByteSize

/-- What a request can do before its first statement. -/
inductive Arrived (d : Draw) (r : Request) : Next → Prop where
  | refused {status : Nat} {message : String} (hstatus : status ≠ 500)
    (hinvalid : ∀ body : Credentials, r.endpoint = .register (some body) → ¬ body.Valid) :
    Arrived d r (.answer (writeError status message))
  | unhashed {body : Credentials} (hbody : r.endpoint = .register (some body)) (hvalid : body.Valid)
    (hfails : d.fails) : Arrived d r (.answer fail)
  | registers {body : Credentials} (hbody : r.endpoint = .register (some body)) (hvalid : body.Valid)
    (hfails : ¬ d.fails) : Arrived d r
      (.stage (.register (Go.trimSpace body.email) (L.hashPassword d.random body.password)))
  | logsIn {body : Credentials} (hbody : r.endpoint = .login (some body)) :
    Arrived d r (.stage (.login body))
  | refreshes {refreshToken : String} (htoken : r.endpoint = .refresh (some refreshToken)) :
    Arrived d r (.stage (.refresh refreshToken))
  | revokes {claims : Claims} {userID : Uuid} (hrevoke : r.endpoint = .revoke)
    (hclaims : verify L C d.now (bearerToken r) = some claims)
    (huser : L.parseUUID claims.subject = some userID) :
    Arrived d r (.stage (.revoke claims.id userID
      (claims.expiresAt.elim (d.now + DefaultAccessTTL) (· * Go.second))))

/-- **Every request arrives in one of these ways.** -/
theorem arrive_arrived (d : Draw) (r : Request) : Arrived L C d r (arrive L C d r) := by
  unfold arrive
  cases hendpoint : r.endpoint with
  | register body =>
    cases body with
    | none => exact .refused (by decide) (by simp [hendpoint])
    | some body =>
      have hbody : ∀ body', r.endpoint = .register (some body') → body' = body := by
        intro body' h
        exact (Option.some.inj (Endpoint.register.inj (hendpoint.symm.trans h))).symm
      dsimp only
      split
      next hemail =>
        refine .refused (by decide) fun body' h hvalid => ?_
        obtain rfl := hbody body' h
        exact hemail.elim hvalid.email (absurd hvalid.at_sign)
      next hemail =>
        split
        next hshort =>
          refine .refused (by decide) fun body' h hvalid => ?_
          obtain rfl := hbody body' h
          exact absurd hvalid.password (by omega)
        next hlong =>
          have hvalid : body.Valid :=
            ⟨fun h => hemail (.inl h), not_not.mp fun h => hemail (.inr h), by omega⟩
          split
          next hfails => exact .unhashed hendpoint hvalid hfails
          next hfails => exact .registers hendpoint hvalid hfails
  | login body =>
    cases body with
    | none => exact .refused (by decide) (by simp [hendpoint])
    | some body => exact .logsIn hendpoint
  | refresh refreshToken =>
    cases refreshToken with
    | none => exact .refused (by decide) (by simp [hendpoint])
    | some refreshToken => exact .refreshes hendpoint
  | revoke =>
    dsimp only
    split
    · exact .refused (by decide) (by simp [hendpoint])
    · split
      · exact .refused (by decide) (by simp [hendpoint])
      next claims hclaims =>
        split
        · exact .refused (by decide) (by simp [hendpoint])
        next userID huser => exact .revokes hendpoint hclaims huser

/-! ## What a statement does -/

/-- What the statement of a stage can do, with the tables and the way on that it leaves. -/
inductive Did (d : Draw) (db : Db L.lower) : Stage → Db L.lower → Next → Prop where
  | failed (stage : Stage) (hfails : d.fails) : Did d db stage db (.answer fail)
  | taken {email passwordHash : String} (hfails : ¬ d.fails)
    (h : createUser db d.uuid email passwordHash = none) :
    Did d db (.register email passwordHash) db (.answer (writeError 409 "email is already registered"))
  | registered {email passwordHash : String} {db' : Db L.lower} (hfails : ¬ d.fails)
    (h : createUser db d.uuid email passwordHash = some db') :
    Did d db (.register email passwordHash) db' (.answer ⟨201, .registered d.uuid email⟩)
  | wrong {body : Credentials} (hfails : ¬ d.fails) :
    Did d db (.login body) db (.answer (writeError 401 "invalid credentials"))
  | verified {body : Credentials} {user : User} (hfails : ¬ d.fails)
    (h : userByEmail db body.email = some user)
    (hpassword : L.verifyPassword body.password user.password_hash) :
    Did d db (.login body) db (.stage (.issueTokens none user.id user.email))
  | invalid {refreshToken : String} (hfails : ¬ d.fails)
    (h : consumeRefreshToken db d.now (hashRefreshToken L refreshToken) = none) :
    Did d db (.refresh refreshToken) db (.answer (writeError 401 "refresh token is not valid"))
  | consumed {refreshToken : String} {userID : Uuid} {db' : Db L.lower} (hfails : ¬ d.fails)
    (h : consumeRefreshToken db d.now (hashRefreshToken L refreshToken) = some (db', userID)) :
    Did d db (.refresh refreshToken) db'
      (.stage (.userByID (hashRefreshToken L refreshToken) userID))
  | missing {parent : String} {userID : Uuid} (hfails : ¬ d.fails)
    (h : userByID db userID = none) : Did d db (.userByID parent userID) db (.answer fail)
  | found {parent : String} {userID : Uuid} {user : User} (hfails : ¬ d.fails)
    (h : userByID db userID = some user) :
    Did d db (.userByID parent userID) db (.stage (.issueTokens (some parent) user.id user.email))
  | unstored {parent : Option String} {userID : Uuid} {email : String} (hfails : ¬ d.fails)
    (h : storeRefreshToken db userID (hashRefreshToken L d.random) (d.now + C.refreshTTL) = none) :
    Did d db (.issueTokens parent userID email) db (.answer fail)
  | stored {parent : Option String} {userID : Uuid} {email : String} {db' : Db L.lower}
    (hfails : ¬ d.fails)
    (h : storeRefreshToken db userID (hashRefreshToken L d.random) (d.now + C.refreshTTL) = some db') :
    Did d db (.issueTokens parent userID email) db'
      (.answer ⟨200, .tokens (L.sign (issueAccess C d.uuid userID email d.now)) d.random
        (DefaultAccessTTL / Go.second)⟩)
  | unqueued {tokenID : String} {userID : Uuid} {expires : Int} (hfails : ¬ d.fails)
    (h : revokeAccessToken db d.now d.uuid tokenID userID expires = none) :
    Did d db (.revoke tokenID userID expires) db (.answer fail)
  | revoked {tokenID : String} {userID : Uuid} {expires : Int} {db' : Db L.lower}
    (hfails : ¬ d.fails)
    (h : revokeAccessToken db d.now d.uuid tokenID userID expires = some db') :
    Did d db (.revoke tokenID userID expires) db' (.answer ⟨202, .revocationQueued⟩)

/-- **Every statement does one of these.** -/
theorem proceed_did (d : Draw) (db : Db L.lower) (stage : Stage) :
    Did L C d db stage (proceed L C d db stage).1 (proceed L C d db stage).2 := by
  by_cases hfails : d.fails
  · rw [show proceed L C d db stage = (db, .answer fail) from if_pos hfails]
    exact .failed stage hfails
  · unfold proceed
    rw [if_neg hfails]
    -- a case for each stage, and one for each way its statement can go
    cases stage with
    | register email passwordHash =>
      dsimp only
      cases huser : createUser db d.uuid email passwordHash with
      | none => exact .taken hfails huser
      | some db' => exact .registered hfails huser
    | login body =>
      dsimp only
      cases huser : userByEmail db body.email with
      | none => exact .wrong hfails
      | some user =>
        dsimp only
        split
        next hpassword => exact .verified hfails huser hpassword
        · exact .wrong hfails
    | refresh refreshToken =>
      dsimp only
      cases hconsume : consumeRefreshToken db d.now (hashRefreshToken L refreshToken) with
      | none => exact .invalid hfails hconsume
      | some consumed => exact .consumed hfails hconsume
    | userByID parent userID =>
      dsimp only
      cases huser : userByID db userID with
      | none => exact .missing hfails huser
      | some user => exact .found hfails huser
    | issueTokens parent userID email =>
      dsimp only
      cases hstore : storeRefreshToken db userID (hashRefreshToken L d.random)
          (d.now + C.refreshTTL) with
      | none => exact .unstored hfails hstore
      | some db' => exact .stored hfails hstore
    | revoke tokenID userID expires =>
      dsimp only
      cases hrevoke : revokeAccessToken db d.now d.uuid tokenID userID expires with
      | none => exact .unqueued hfails hrevoke
      | some db' => exact .revoked hfails hrevoke

end DjangoFlaskKafka.Auth
