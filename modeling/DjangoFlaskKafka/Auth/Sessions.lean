/-
  Sessions — what becomes of a login while requests to the auth service interleave.

  1. **Program** — `step`.  A request arrives, and from then on any request on its way may be the
     next to proceed; one that never does is one that died.

  2. **History** — what the laws speak of and the tables do not record: the logins that have
     completed, the login a refresh token descends from, what has been redeemed, and how many logins
     had completed at each revocation that was answered 202.  `note` keeps it, and no step reads it.

  3. **Law** — `OneSession`: of each login at most one refresh token is live, or about to be stored
     by a request that has consumed its parent; and no refresh token is redeemed twice.

  4. **The crux** — what the tables and the requests on their way say about tokens is a ledger of
     `Lib.Rotation`, and every step is one of its moves (`step_cases`).  No assumption on the draws
     is needed: a refresh token whose hash is there already is not stored.
-/
import DjangoFlaskKafka.Auth.Api
import DjangoFlaskKafka.Lib.Machine
import DjangoFlaskKafka.Lib.Rotation

namespace DjangoFlaskKafka.Auth

open Postgres Rotation Machine

variable (L : Libs) (C : Config)

/-! ## The program -/

/-- A request on its way; `since` counts the revocations answered when it consumed its token. -/
structure Opened where
  stage : Stage
  since : Nat

/-- What no table holds: chains, revocations and redemptions. -/
structure History where
  /-- the user of each login, oldest first -/
  logins : List Uuid
  /-- the login a hash descends from -/
  login : String → Option Nat
  /-- whom a revocation was for, and how many logins had completed -/
  revocations : List (Uuid × Nat)
  /-- the refresh tokens presented with success -/
  redeemed : List String

/-- The tables, the requests on their way, and the history. -/
structure State where
  db : Db L.lower
  opened : List Opened
  history : History

/-- The service after its migration. -/
def init : State L := ⟨.empty L.lower, [], ⟨[], fun _ => none, [], []⟩⟩

/-- A request arrives, or goes on by one statement. -/
inductive Action where
  | arrive (d : Draw) (r : Request)
  | proceed (i : Nat) (d : Draw)

/-- What a step adds to the history. -/
def note (d : Draw) (h : History) : Stage → Next → History
  | .refresh refreshToken, .stage _ => { h with redeemed := h.redeemed ++ [refreshToken] }
  | .issueTokens none userID _, .answer ⟨200, _⟩ =>
    { h with
      logins := h.logins ++ [userID]
      login := Function.update h.login (hashRefreshToken L d.random) (some h.logins.length) }
  | .issueTokens (some parent) _ _, .answer ⟨200, _⟩ =>
    { h with login := Function.update h.login (hashRefreshToken L d.random) (h.login parent) }
  | .revoke _ userID _, .answer ⟨202, _⟩ =>
    { h with revocations := h.revocations ++ [(userID, h.logins.length)] }
  | _, _ => h

/-- The request after its step. -/
def Opened.next (h : History) (o : Opened) (stage : Stage) : Opened where
  stage := stage
  since := match o.stage with
    | .refresh _ => h.revocations.length
    | _ => o.since

/-- One step. -/
def step (s : State L) : Action → Option (State L)
  | .arrive d r =>
    match arrive L C d r with
    | .answer _ => some s
    | .stage stage => some { s with opened := s.opened ++ [⟨stage, 0⟩] }
  | .proceed i d => do
    let o ← s.opened[i]?
    let (db, next) := proceed L C d s.db o.stage
    return {
      db := db
      opened := match next with
        | .answer _ => s.opened.eraseIdx i
        | .stage stage => s.opened.set i (o.next s.history stage)
      history := note L d s.history o.stage next }

/-! ## The law -/

/-- The token whose successor the request is to store. -/
def Stage.parent : Stage → Option String
  | .userByID parent _ => some parent
  | .issueTokens parent _ _ => parent
  | _ => none

variable {L}

/-- The live refresh tokens that descend from the login. -/
def State.live (s : State L) (n : Nat) : Nat :=
  s.db.refresh_tokens.1.countP fun row =>
    row.revoked_at = none ∧ s.history.login row.token_hash = some n

/-- The requests that have consumed a token of the login and have not stored the next one yet. -/
def State.inFlight (s : State L) (n : Nat) : Nat :=
  s.opened.countP fun o => o.stage.parent.bind s.history.login = some n

/-- No login has two, and no token is redeemed twice. -/
def OneSession (s : State L) : Prop :=
  (∀ n, s.live n + s.inFlight n ≤ 1) ∧ s.history.redeemed.Nodup

/-! ## The ledger -/

/-- A row, as a token. -/
def RefreshToken.token (row : RefreshToken) : Token String Uuid where
  id := row.token_hash
  owner := row.user_id
  live := row.revoked_at = none

/-- A request on its way, as a flight. -/
def Opened.flight (o : Opened) : Option (Flight String Uuid) :=
  match o.stage with
  | .userByID parent userID => some ⟨parent, userID, o.since⟩
  | .issueTokens (some parent) userID _ => some ⟨parent, userID, o.since⟩
  | _ => none

/-- What the state says about tokens. -/
def State.ledger (s : State L) : Ledger String Uuid where
  tokens := s.db.refresh_tokens.1.map RefreshToken.token
  flights := s.opened.filterMap Opened.flight
  chains := s.history.logins
  chain := s.history.login
  revocations := s.history.revocations
  redeemed := s.history.redeemed.map (hashRefreshToken L)

/-- At the start there is nothing in the ledger. -/
theorem ledger_init : (init L).ledger = Ledger.empty := rfl

/-- A request is in flight when it has a parent. -/
theorem Opened.flight_parent (o : Opened) : o.flight.map Flight.parent = o.stage.parent := by
  unfold Opened.flight Stage.parent
  cases o.stage with
  | issueTokens parent userID email => cases parent <;> rfl
  | _ => rfl

/-- The ledger counts what the law counts. -/
theorem open_ledger (s : State L) (n : Nat) : s.ledger.open n = s.live n + s.inFlight n := by
  unfold Ledger.open State.live State.inFlight State.ledger
  congr 1
  · rw [List.countP_map]
    refine List.countP_congr fun row _ => ?_
    rw [Function.comp_apply, RefreshToken.token, decide_eq_true_iff, decide_eq_true_iff,
      decide_eq_true_iff]
  · rw [List.countP_filterMap]
    refine List.countP_congr fun o _ => ?_
    rw [← o.flight_parent]
    cases o.flight <;> simp

/-- The law is what the sound ledger says of the state. -/
theorem oneSession_of_sound {s : State L} (h : Sound s.ledger) : OneSession s :=
  ⟨fun n => open_ledger s n ▸ h.one n, List.Nodup.of_map _ h.once⟩

/-! ### The statements, on tokens -/

section Statements

variable {lower : String → String} {db db' : Db lower}

/-- Redeeming spends one token. -/
theorem tokens_consume {now : Int} {hash : String} {userID : Uuid}
    (h : consumeRefreshToken db now hash = some (db', userID)) :
    (⟨hash, userID, true⟩ : Token String Uuid) ∈ db.refresh_tokens.1.map RefreshToken.token ∧
      db'.refresh_tokens.1.map RefreshToken.token
        = Keyed.modify Token.id hash Token.spend (db.refresh_tokens.1.map RefreshToken.token) := by
  obtain ⟨row, hrow, hhash, huser, hnone, -, hrows⟩ := consumeRefreshToken_eq_some h
  refine ⟨List.mem_map.mpr ⟨row, hrow, ?_⟩, ?_⟩
  · unfold RefreshToken.token
    rw [hhash, huser, hnone]
    rfl
  · rw [hrows]
    exact Keyed.map_modify RefreshToken.token_hash Token.id (fun _ => rfl) hash fun _ _ _ => rfl

/-- Storing adds one. -/
theorem tokens_store {userID : Uuid} {hash : String} {expiresAt : Int}
    (h : storeRefreshToken db userID hash expiresAt = some db') :
    db'.refresh_tokens.1.map RefreshToken.token
        = db.refresh_tokens.1.map RefreshToken.token ++ [⟨hash, userID, true⟩] ∧
      ∀ t ∈ db.refresh_tokens.1.map RefreshToken.token, t.id ≠ hash := by
  obtain ⟨hrows, hfresh⟩ := storeRefreshToken_eq_some h
  refine ⟨by rw [hrows, List.map_append]; rfl, fun t ht => ?_⟩
  obtain ⟨row, hrow, rfl⟩ := List.mem_map.mp ht
  exact hfresh row hrow

/-- A revocation spends all tokens of its user. -/
theorem tokens_revoke {now : Int} {id : Uuid} {tokenID : String} {userID : Uuid} {expiresAt : Int}
    (h : revokeAccessToken db now id tokenID userID expiresAt = some db') :
    db'.refresh_tokens.1.map RefreshToken.token
      = (db.refresh_tokens.1.map RefreshToken.token).map fun t =>
          if t.owner = userID then t.spend else t := by
  rw [revokeAccessToken_eq_some h]
  unfold revokeAll
  rw [List.map_map, List.map_map]
  refine List.map_congr_left fun row _ => ?_
  show RefreshToken.token (if _ then row.revoke now else row)
    = if row.user_id = userID then row.token.spend else row.token
  by_cases huser : row.user_id = userID
  · rw [if_pos huser]
    cases hrevoked : row.revoked_at with
    | none =>
      rw [if_pos ⟨huser, rfl⟩]
      rfl
    | some t =>
      -- a row that was revoked before is not touched, and is as good as spent
      rw [if_neg (by simp)]
      unfold RefreshToken.token Token.spend
      rw [hrevoked]
      rfl
  · rw [if_neg huser, if_neg fun h => huser h.1]

end Statements

/-! ## What a step does -/

section Steps

variable {C} {s s' : State L}

/-- The flights, with the request at `i` taken out. -/
theorem flights_perm {opened : List Opened} {i : Nat} {o : Opened} (h : opened[i]? = some o) :
    (opened.filterMap Opened.flight).Perm
      (o.flight.toList ++ (opened.eraseIdx i).filterMap Opened.flight) := by
  obtain ⟨hi, rfl⟩ := List.getElem?_eq_some_iff.mp h
  have hperm := (List.getElem_cons_eraseIdx_perm hi).symm.filterMap Opened.flight
  rw [List.filterMap_cons] at hperm
  cases hflight : opened[i].flight <;> rw [hflight] at hperm <;> exact hperm

/-- The flights, with the request at `i` moved on. -/
theorem flights_set {opened : List Opened} {i : Nat} {o : Opened} (h : opened[i]? = some o)
    (o' : Opened) : ((opened.set i o').filterMap Opened.flight).Perm
      (o'.flight.toList ++ (opened.eraseIdx i).filterMap Opened.flight) := by
  obtain ⟨hi, -⟩ := List.getElem?_eq_some_iff.mp h
  have hperm := (List.set_perm_cons_eraseIdx hi o').filterMap Opened.flight
  rw [List.filterMap_cons] at hperm
  cases hflight : o'.flight <;> rw [hflight] at hperm <;> exact hperm

/-- A request that ends takes its flight with it. -/
theorem flights_erase {opened : List Opened} (i : Nat) :
    ((opened.eraseIdx i).filterMap Opened.flight).Subperm (opened.filterMap Opened.flight) :=
  ((List.eraseIdx_sublist opened i).filterMap _).subperm

/-- A request without a token in hand leaves no gap. -/
theorem flights_leave {opened : List Opened} {i : Nat} {o : Opened} (h : opened[i]? = some o)
    (hflight : o.flight = none) :
    (opened.eraseIdx i).filterMap Opened.flight = opened.filterMap Opened.flight := by
  induction opened generalizing i with
  | nil => rfl
  | cons o' opened ih =>
    cases i with
    | zero =>
      obtain rfl := Option.some.inj h
      rw [List.filterMap_cons_none hflight]
      rfl
    | succ i =>
      show (o' :: opened.eraseIdx i).filterMap Opened.flight = _
      rw [List.filterMap_cons, List.filterMap_cons, ih h]

/-- The state once a request has taken its statement. -/
def State.moved (s : State L) (i : Nat) (d : Draw) (o : Opened) (taken : Db L.lower × Next) :
    State L where
  db := taken.1
  opened := match taken.2 with
    | .answer _ => s.opened.eraseIdx i
    | .stage stage => s.opened.set i (o.next s.history stage)
  history := note L d s.history o.stage taken.2

/-- A request goes on from the stage it is at. -/
theorem step_proceed {i : Nat} {d : Draw} (h : step L C s (.proceed i d) = some s') :
    ∃ o, s.opened[i]? = some o ∧ s' = s.moved i d o (proceed L C d s.db o.stage) := by
  obtain ⟨o, ho, h⟩ := Option.bind_eq_some_iff.mp h
  exact ⟨o, ho, (Option.some.inj h).symm⟩

/-- A request that has only arrived has redeemed nothing. -/
theorem arrive_flight {d : Draw} {r : Request} {stage : Stage} (h : arrive L C d r = .stage stage)
    (since : Nat) : (Opened.mk stage since).flight = none := by
  unfold arrive at h
  split at h
  · cases h
  · dsimp only at h
    split at h
    · cases h
    · split at h
      · cases h
      · split at h <;> cases h
        rfl
  · cases h
  · cases h
    rfl
  · cases h
  · cases h
    rfl
  · dsimp only at h
    split at h
    · cases h
    · split at h
      · cases h
      · split at h <;> cases h
        rfl

variable (C) in
/-- The step stores the successor of a token that has been redeemed. -/
def Lands (s : State L) (a : Action) (o : Opened) (parent : String) (userID : Uuid) : Prop :=
  ∃ i d email, a = .proceed i d ∧ s.opened[i]? = some o ∧
    o.stage = .issueTokens (some parent) userID email ∧ ¬ d.fails ∧
    (storeRefreshToken s.db userID (hashRefreshToken L d.random) (d.now + C.refreshTTL)).isSome

/-- What one step makes of the ledger. -/
inductive Effect (s : State L) (a : Action) : Ledger String Uuid → Prop where
  | quiet (hno : ∀ o parent userID, ¬ Lands C s a o parent userID)
    (flights : List (Flight String Uuid)) (h : flights.Subperm s.ledger.flights) :
    Effect s a { s.ledger with flights := flights }
  | redeem (hno : ∀ o parent userID, ¬ Lands C s a o parent userID)
    (t : Token String Uuid) (ht : t ∈ s.ledger.tokens) (hlive : t.live)
    (flights : List (Flight String Uuid))
    (h : flights.Perm (⟨t.id, t.owner, s.ledger.revocations.length⟩ :: s.ledger.flights)) :
    Effect s a { s.ledger with
      tokens := Keyed.modify Token.id t.id Token.spend s.ledger.tokens
      flights := flights
      redeemed := s.ledger.redeemed ++ [t.id] }
  | login (hno : ∀ o parent userID, ¬ Lands C s a o parent userID)
    (id : String) (hid : ∀ t ∈ s.ledger.tokens, t.id ≠ id) (owner : Uuid) :
    Effect s a { s.ledger with
      tokens := s.ledger.tokens ++ [⟨id, owner, true⟩]
      chains := s.ledger.chains ++ [owner]
      chain := Function.update s.ledger.chain id (some s.ledger.chains.length) }
  | land (o : Opened) (parent : String) (userID : Uuid) (hlands : Lands C s a o parent userID)
    (flights : List (Flight String Uuid))
    (h : s.ledger.flights.Perm (⟨parent, userID, o.since⟩ :: flights)) (id : String)
    (hid : ∀ t ∈ s.ledger.tokens, t.id ≠ id) :
    Effect s a { s.ledger with
      tokens := s.ledger.tokens ++ [⟨id, userID, true⟩]
      flights := flights
      chain := Function.update s.ledger.chain id (s.ledger.chain parent) }
  | revoke (hno : ∀ o parent userID, ¬ Lands C s a o parent userID) (owner : Uuid) :
    Effect s a { s.ledger with
      tokens := s.ledger.tokens.map fun t => if t.owner = owner then t.spend else t
      revocations := s.ledger.revocations ++ [(owner, s.ledger.chains.length)] }

theorem quiet_effect {a : Action} (hno : ∀ o parent userID, ¬ Lands C s a o parent userID)
    {db : Db L.lower} {opened : List Opened} (hrows : db.refresh_tokens = s.db.refresh_tokens)
    (hflights : (opened.filterMap Opened.flight).Subperm (s.opened.filterMap Opened.flight)) :
    Effect (C := C) s a (State.ledger ⟨db, opened, s.history⟩) := by
  have hledger : State.ledger ⟨db, opened, s.history⟩
      = { s.ledger with flights := opened.filterMap Opened.flight } := by
    unfold State.ledger
    rw [hrows]
  rw [hledger]
  exact .quiet hno _ hflights

/-- A request at another stage lands nothing. -/
theorem not_lands {i : Nat} {d : Draw} {o : Opened} (ho : s.opened[i]? = some o)
    (hstage : ∀ parent userID email, o.stage = .issueTokens (some parent) userID email →
      d.fails ∨ storeRefreshToken s.db userID (hashRefreshToken L d.random)
        (d.now + C.refreshTTL) = none) :
    ∀ o' parent userID, ¬ Lands C s (.proceed i d) o' parent userID := by
  rintro o' parent userID ⟨i', d', email, hact, ho', hstage', hfails, hstores⟩
  cases hact
  obtain rfl := Option.some.inj (ho.symm.trans ho')
  rcases hstage parent userID email hstage' with h | h
  · exact hfails h
  · rw [h] at hstores
    cases hstores

/-- A failure leaves no mark in the history. -/
theorem note_fail (d : Draw) (h : History) (stage : Stage) : note L d h stage (.answer fail) = h := by
  cases stage with
  | issueTokens parent userID email => cases parent <;> rfl
  | _ => rfl

/-- Moving on without a token in hand adds no flight. -/
theorem flights_move {i : Nat} {o : Opened} (ho : s.opened[i]? = some o) (o' : Opened)
    (h : o'.flight = none ∨ o'.flight = o.flight) :
    ((s.opened.set i o').filterMap Opened.flight).Subperm (s.opened.filterMap Opened.flight) := by
  refine (flights_set ho o').subperm.trans ?_
  rcases h with h | h
  · rw [h]
    exact flights_erase i
  · rw [h]
    exact (flights_perm ho).symm.subperm

/-- A request that arrives has no flight yet. -/
theorem effect_arrive {d : Draw} {r : Request} (h : step L C s (.arrive d r) = some s') :
    Effect (C := C) s (.arrive d r) s'.ledger := by
  have hno : ∀ o parent userID, ¬ Lands C s (.arrive d r) o parent userID := by
    rintro o parent userID ⟨i, d', email, hact, -⟩
    cases hact
  dsimp only [step] at h
  cases harrive : arrive L C d r with
  | answer response =>
    rw [harrive] at h
    obtain rfl := Option.some.inj h
    exact .quiet hno _ (.refl _)
  | stage stage =>
    rw [harrive] at h
    obtain rfl := Option.some.inj h
    refine .quiet hno (List.filterMap Opened.flight _) ?_
    rw [List.filterMap_append, List.filterMap_cons_none (arrive_flight harrive 0),
      List.filterMap_nil, List.append_nil]
    exact .refl _

/-! Where a request is at a stage, and its statement does not fail. -/

section Stages

variable {i : Nat} {d : Draw} {since : Nat}

/-- A request at any other stage lands nothing. -/
theorem not_lands_of_ne {o : Opened} (ho : s.opened[i]? = some o)
    (hne : ∀ parent userID email, o.stage ≠ .issueTokens (some parent) userID email) :
    ∀ o' parent userID, ¬ Lands C s (.proceed i d) o' parent userID :=
  not_lands ho fun parent userID email h => absurd h (hne parent userID email)

/-- Registering has nothing to do with tokens. -/
theorem effect_register {email passwordHash : String}
    (ho : s.opened[i]? = some ⟨.register email passwordHash, since⟩) (hfails : ¬ d.fails) :
    Effect (C := C) s (.proceed i d) (s.moved i d ⟨.register email passwordHash, since⟩
      (proceed L C d s.db (.register email passwordHash))).ledger := by
  have hno := not_lands_of_ne (C := C) (d := d) ho (by simp)
  unfold proceed
  rw [if_neg hfails]
  dsimp only
  cases huser : createUser s.db d.uuid email passwordHash with
  | none => exact quiet_effect hno rfl (flights_erase i)
  | some db' => exact quiet_effect hno (createUser_refresh huser).1 (flights_erase i)

/-- A login spends nothing, and takes off for nothing. -/
theorem effect_login {body : Credentials} (ho : s.opened[i]? = some ⟨.login body, since⟩)
    (hfails : ¬ d.fails) : Effect (C := C) s (.proceed i d)
      (s.moved i d ⟨.login body, since⟩ (proceed L C d s.db (.login body))).ledger := by
  have hno := not_lands_of_ne (C := C) (d := d) ho (by simp)
  unfold proceed
  rw [if_neg hfails]
  dsimp only
  cases huser : userByEmail s.db body.email with
  | none => exact quiet_effect hno rfl (flights_erase i)
  | some user =>
    dsimp only
    split
    · exact quiet_effect hno rfl (flights_move ho _ (.inl rfl))
    · exact quiet_effect hno rfl (flights_erase i)

/-- A refresh redeems its token and takes off, or is refused. -/
theorem effect_refresh {refreshToken : String}
    (ho : s.opened[i]? = some ⟨.refresh refreshToken, since⟩) (hfails : ¬ d.fails) :
    Effect (C := C) s (.proceed i d) (s.moved i d ⟨.refresh refreshToken, since⟩
      (proceed L C d s.db (.refresh refreshToken))).ledger := by
  have hno := not_lands_of_ne (C := C) (d := d) ho (by simp)
  unfold proceed
  rw [if_neg hfails]
  dsimp only
  cases hconsume : consumeRefreshToken s.db d.now (hashRefreshToken L refreshToken) with
  | none => exact quiet_effect hno rfl (flights_erase i)
  | some consumed =>
    obtain ⟨db', userID⟩ := consumed
    obtain ⟨hmem, htokens⟩ := tokens_consume hconsume
    have htaken : s.ledger.flights.Perm ((s.opened.eraseIdx i).filterMap Opened.flight) :=
      flights_perm ho
    have hflights := (flights_set ho (Opened.next s.history ⟨.refresh refreshToken, since⟩
      (.userByID (hashRefreshToken L refreshToken) userID))).trans (List.Perm.cons _ htaken.symm)
    have heffect := Effect.redeem (C := C) hno _ hmem rfl _ hflights
    unfold State.ledger at heffect ⊢
    dsimp only [State.moved, note]
    rw [htokens, List.map_append]
    exact heffect

/-- Looking the user up keeps the flight in the air, or ends it. -/
theorem effect_userByID {parent : String} {userID : Uuid}
    (ho : s.opened[i]? = some ⟨.userByID parent userID, since⟩) (hfails : ¬ d.fails) :
    Effect (C := C) s (.proceed i d) (s.moved i d ⟨.userByID parent userID, since⟩
      (proceed L C d s.db (.userByID parent userID))).ledger := by
  have hno := not_lands_of_ne (C := C) (d := d) ho (by simp)
  unfold proceed
  rw [if_neg hfails]
  dsimp only
  cases huser : userByID s.db userID with
  | none => exact quiet_effect hno rfl (flights_erase i)
  | some user =>
    have hid : user.id = userID := Keyed.lookup_key huser
    exact quiet_effect hno rfl (flights_move ho _ (.inr (by rw [hid]; rfl)))

/-- The new token begins a chain, or lands a flight. -/
theorem effect_issueTokens {parent : Option String} {userID : Uuid} {email : String}
    (ho : s.opened[i]? = some ⟨.issueTokens parent userID email, since⟩) (hfails : ¬ d.fails) :
    Effect (C := C) s (.proceed i d) (s.moved i d ⟨.issueTokens parent userID email, since⟩
      (proceed L C d s.db (.issueTokens parent userID email))).ledger := by
  unfold proceed
  rw [if_neg hfails]
  dsimp only
  cases hstore : storeRefreshToken s.db userID (hashRefreshToken L d.random)
      (d.now + C.refreshTTL) with
  | none =>
    -- the row is not stored, so no flight lands
    have heffect := quiet_effect
      (not_lands ho fun _ _ _ h => .inr (by cases h; exact hstore)) rfl (flights_erase i)
    dsimp only [State.moved]
    rw [note_fail]
    exact heffect
  | some db' =>
    obtain ⟨htokens, hfresh⟩ := tokens_store hstore
    cases parent with
    | none =>
      have hno := not_lands_of_ne (C := C) (d := d) ho (by simp)
      have heffect := Effect.login (C := C) hno _ hfresh userID
      unfold State.ledger at heffect ⊢
      dsimp only [State.moved, note]
      rw [htokens, flights_leave ho rfl]
      exact heffect
    | some parent =>
      have heffect := Effect.land (C := C) ⟨.issueTokens (some parent) userID email, since⟩ parent
        userID ⟨i, d, email, rfl, ho, rfl, hfails, by rw [hstore]; rfl⟩ _ (flights_perm ho) _ hfresh
      unfold State.ledger at heffect ⊢
      dsimp only [State.moved, note]
      rw [htokens]
      exact heffect

/-- A revocation is one of the ledger. -/
theorem effect_revoke {tokenID : String} {userID : Uuid} {expires : Int}
    (ho : s.opened[i]? = some ⟨.revoke tokenID userID expires, since⟩) (hfails : ¬ d.fails) :
    Effect (C := C) s (.proceed i d) (s.moved i d ⟨.revoke tokenID userID expires, since⟩
      (proceed L C d s.db (.revoke tokenID userID expires))).ledger := by
  have hno := not_lands_of_ne (C := C) (d := d) ho (by simp)
  unfold proceed
  rw [if_neg hfails]
  dsimp only
  cases hrevoke : revokeAccessToken s.db d.now d.uuid tokenID userID expires with
  | none => exact quiet_effect hno rfl (flights_erase i)
  | some db' =>
    have heffect := Effect.revoke (C := C) hno userID
    unfold State.ledger at heffect ⊢
    dsimp only [State.moved, note]
    rw [tokens_revoke hrevoke, flights_leave ho rfl]
    exact heffect

end Stages

/-- **Every step is one of the effects.** -/
theorem step_effect {a : Action} (h : step L C s a = some s') : Effect (C := C) s a s'.ledger := by
  cases a with
  | arrive d r => exact effect_arrive h
  | proceed i d =>
    obtain ⟨⟨stage, since⟩, ho, rfl⟩ := step_proceed h
    by_cases hfails : d.fails
    · have heffect := quiet_effect
        (not_lands (C := C) ho fun _ _ _ _ => .inl hfails) rfl (flights_erase i)
      unfold proceed
      rw [if_pos hfails]
      dsimp only [State.moved]
      rw [note_fail]
      exact heffect
    · cases stage with
      | register email passwordHash => exact effect_register ho hfails
      | login body => exact effect_login ho hfails
      | refresh refreshToken => exact effect_refresh ho hfails
      | userByID parent userID => exact effect_userByID ho hfails
      | issueTokens parent userID email => exact effect_issueTokens ho hfails
      | revoke tokenID userID expires => exact effect_revoke ho hfails

/-- An effect is a move of the ledger. -/
theorem Effect.move {a : Action} {l : Ledger String Uuid} (h : Effect (C := C) s a l) :
    Move s.ledger l := by
  cases h with
  | quiet hno flights h => exact .drop flights h
  | redeem hno t ht hlive flights h => exact .redeem t ht hlive flights h
  | login hno id hid owner => exact .begin id hid owner
  | land o parent userID hlands flights h id hid =>
    exact .mint ⟨parent, userID, o.since⟩ flights h id hid
  | revoke hno owner => exact .revoke owner

/-- **Every step keeps the ledger sound.** -/
theorem sound_step (s : State L) (a : Action) (s' : State L) (hs : Sound s.ledger)
    (h : step L C s a = some s') : Sound s'.ledger :=
  hs.move (step_effect h).move

/-- **Rotation never forks a session**: in every run, at every moment, of each login at most one
    refresh token is live or about to be stored by a request that has consumed its parent, and no
    refresh token has been redeemed twice. -/
theorem throughout_oneSession (L : Libs) (C : Config) (acts : List Action) :
    Throughout (step L C) OneSession (init L) acts :=
  (throughout_of_inv sound_step (ledger_init (L := L) ▸ sound_empty) acts).mono
    fun _ hs => oneSession_of_sound hs

end Steps

end DjangoFlaskKafka.Auth
