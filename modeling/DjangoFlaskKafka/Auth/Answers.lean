/-
  Answers — what the auth service tells its clients, and what its tables say, while requests
  interleave.

  1. **Program** — the machine of `Auth.Sessions`; `answer` is what a step answers.

  2. **Laws** — the tables are the log of the answers: a user for each 201, a refresh token for each
     200, an outbox row for each 202, and no others (`tables_areAnswers`).  A 500 is a statement
     that has failed or a random draw that was there already, and never the work of another request
     (`internalError_iff`).  A refresh token works until it is redeemed or its user revokes
     (`staysRedeemable_iff`).

  3. **The crux** — no statement deletes a user, so whoever is named by a refresh token, or by a
     request on its way, is there (`Known`).
-/
import DjangoFlaskKafka.Auth.InFlight

namespace DjangoFlaskKafka.Auth

open Postgres Machine

variable (L : Libs) (C : Config)

/-! ## The answers -/

/-- The answer a step ends in. -/
def Next.response : Next → Option Response
  | .answer response => some response
  | .stage _ => none

/-- What a step answers, if it comes to an answer. -/
def answer (s : State L) : Action → Option Response
  | .arrive d r => (arrive L C d r).response
  | .proceed i d => s.opened[i]?.bind fun o => (proceed L C d s.db o.stage).2.response

/-- All that a run answers. -/
abbrev answers (acts : List Action) : List Response := outputs (step L C) (answer L C) (init L) acts

/-- The user that a 201 announces. -/
def Response.registered : Response → Option (Uuid × String)
  | ⟨201, .registered id email⟩ => some (id, email)
  | _ => none

/-- The refresh token that a 200 hands out. -/
def Response.refreshToken : Response → Option String
  | ⟨200, .tokens _ refresh _⟩ => some refresh
  | _ => none

/-- A revocation that a 202 has queued. -/
def Response.queued : Response → Option Unit
  | ⟨202, .revocationQueued⟩ => some ()
  | _ => none

/-- It announces nothing. -/
structure Response.Silent (r : Response) : Prop where
  registered : r.registered = none
  refreshToken : r.refreshToken = none
  queued : r.queued = none

/-- An error announces nothing. -/
theorem silent_writeError (status : Nat) (message : String) : (writeError status message).Silent := by
  refine ⟨?_, ?_, ?_⟩
  · unfold Response.registered writeError
    split <;> simp_all
  · unfold Response.refreshToken writeError
    split <;> simp_all
  · unfold Response.queued writeError
    split <;> simp_all

variable {L C}

/-- What is answered before the first statement announces nothing. -/
theorem Arrived.silent {d : Draw} {r : Request} {next : Next} (h : Arrived L C d r next) :
    ∀ response ∈ next.response, response.Silent := by
  intro response hresponse
  cases h with
  | refused hstatus hinvalid => exact Option.some.inj hresponse ▸ silent_writeError _ _
  | unhashed hbody hvalid hfails => exact Option.some.inj hresponse ▸ silent_writeError 500 _
  | _ => cases hresponse

/-! ## The tables are the log of the answers -/

/-- What a list of answers adds to the tables. -/
structure Records (db db' : Db L.lower) (rs : List Response) : Prop where
  users : db'.users.1.map (fun u => (u.id, u.email))
    = db.users.1.map (fun u => (u.id, u.email)) ++ rs.filterMap Response.registered
  refresh_tokens : db'.refresh_tokens.1.map RefreshToken.token_hash
    = db.refresh_tokens.1.map RefreshToken.token_hash
      ++ rs.filterMap fun r => r.refreshToken.map (hashRefreshToken L)
  outbox_events : db'.outbox_events.1.map (fun _ => ())
    = db.outbox_events.1.map (fun _ => ()) ++ rs.filterMap Response.queued

/-- Where nothing is announced, nothing has been added. -/
theorem records_silent (db : Db L.lower) {rs : List Response} (h : ∀ r ∈ rs, r.Silent) :
    Records db db rs where
  users := by
    rw [List.filterMap_eq_nil_iff.mpr fun r hr => (h r hr).registered, List.append_nil]
  refresh_tokens := by
    rw [List.filterMap_eq_nil_iff.mpr fun r hr => by rw [(h r hr).refreshToken]; rfl,
      List.append_nil]
  outbox_events := by
    rw [List.filterMap_eq_nil_iff.mpr fun r hr => (h r hr).queued, List.append_nil]

/-- An error adds nothing. -/
theorem records_error (db : Db L.lower) (status : Nat) (message : String) :
    Records db db [writeError status message] := by
  refine records_silent db fun r hr => ?_
  rw [List.mem_singleton.mp hr]
  exact silent_writeError status message

/-- **A statement adds to the tables what its request is answered.** -/
theorem Did.records {d : Draw} {db db' : Db L.lower} {stage : Stage} {next : Next}
    (h : Did L C d db stage db' next) : Records db db' next.response.toList := by
  cases h with
  | failed stage hfails => exact records_error db 500 _
  | taken hfails h => exact records_error db 409 _
  | registered hfails h =>
    obtain ⟨hrefresh, houtbox⟩ := createUser_refresh h
    refine ⟨?_, ?_, ?_⟩
    · rw [createUser_users h, List.map_append]
      rfl
    · rw [hrefresh]
      exact (List.append_nil _).symm
    · rw [houtbox]
      exact (List.append_nil _).symm
  | wrong hfails => exact records_error db 401 _
  | verified hfails h => exact records_silent db (by simp [Next.response])
  | invalid hfails h => exact records_error db 401 _
  | @consumed refreshToken userID db' hfails h =>
    obtain ⟨-, -, -, -, -, -, hrows⟩ := consumeRefreshToken_eq_some h
    refine ⟨?_, ?_, ?_⟩
    · rw [consumeRefreshToken_users h]
      exact (List.append_nil _).symm
    · rw [hrows, Keyed.map_key_modify RefreshToken.token_hash (hashRefreshToken L refreshToken)
        (by intro _ h; exact h)]
      exact (List.append_nil _).symm
    · rw [consumeRefreshToken_outbox h]
      exact (List.append_nil _).symm
  | missing hfails h => exact records_error db 500 _
  | found hfails h => exact records_silent db (by simp [Next.response])
  | unstored hfails h => exact records_error db 500 _
  | stored hfails h =>
    obtain ⟨hrows, -⟩ := storeRefreshToken_eq_some h
    refine ⟨?_, ?_, ?_⟩
    · rw [storeRefreshToken_users h]
      exact (List.append_nil _).symm
    · rw [hrows, List.map_append]
      rfl
    · rw [storeRefreshToken_outbox h]
      exact (List.append_nil _).symm
  | unqueued hfails h => exact records_error db 500 _
  | revoked hfails h =>
    refine ⟨?_, ?_, ?_⟩
    · rw [revokeAccessToken_users h]
      exact (List.append_nil _).symm
    · rw [revokeAccessToken_eq_some h, hashes_revokeAll]
      exact (List.append_nil _).symm
    · rw [revokeAccessToken_outbox h, List.map_append]
      rfl

/-- Every step adds to the tables what it answers. -/
theorem step_records {s s' : State L} {a : Action} (h : step L C s a = some s') :
    Records s.db s'.db (answer L C s a).toList := by
  cases a with
  | arrive d r =>
    have hsilent : ∀ response ∈ (answer L C s (.arrive d r)).toList, response.Silent :=
      fun response h => (arrive_arrived L C d r).silent response (Option.mem_toList.mp h)
    dsimp only [step] at h
    cases harrive : arrive L C d r with
    | answer response =>
      rw [harrive] at h
      obtain rfl := Option.some.inj h
      exact records_silent s.db hsilent
    | stage stage =>
      rw [harrive] at h
      obtain rfl := Option.some.inj h
      exact records_silent s.db hsilent
  | proceed i d =>
    obtain ⟨o, ho, rfl⟩ := step_proceed h
    dsimp only [answer]
    rw [ho]
    exact (proceed_did L C d s.db o.stage).records

/-- The tables are the log of the answers: a user for each 201, a refresh token for each 200 and an
    outbox row for each 202, in their order; no two 201s are for one address, and no two 200s hand
    out one refresh token. -/
structure LogOf (db : Db L.lower) (rs : List Response) : Prop where
  users : db.users.1.map (fun u => (u.id, u.email)) = rs.filterMap Response.registered
  refresh_tokens : db.refresh_tokens.1.map RefreshToken.token_hash
    = (rs.filterMap Response.refreshToken).map (hashRefreshToken L)
  outbox_events : db.outbox_events.1.length = (rs.filterMap Response.queued).length
  addresses : ((rs.filterMap Response.registered).map fun x => L.lower x.2).Nodup
  handedOut : (rs.filterMap Response.refreshToken).Nodup

/-- **Whatever interleaves, the tables are the log of the answers.** -/
theorem tables_areAnswers (L : Libs) (C : Config) {acts : List Action} {t : State L}
    (hrun : run (step L C) (init L) acts = some t) : LogOf t.db (answers L C acts) := by
  have husers : t.db.users.1.map (fun u => (u.id, u.email))
      = (answers L C acts).filterMap Response.registered :=
    run_logged (fun _ _ _ h => (step_records h).users) hrun
  have hrefresh : t.db.refresh_tokens.1.map RefreshToken.token_hash
      = ((answers L C acts).filterMap Response.refreshToken).map (hashRefreshToken L) :=
    (run_logged (fun _ _ _ h => (step_records h).refresh_tokens) hrun).trans
      List.map_filterMap.symm
  have houtbox : t.db.outbox_events.1.map (fun _ => ()) = (answers L C acts).filterMap Response.queued :=
    run_logged (fun _ _ _ h => (step_records h).outbox_events) hrun
  refine ⟨husers, hrefresh, ?_, ?_, ?_⟩
  · rw [← houtbox, List.length_map]
  · rw [← husers, List.map_map]
    exact t.db.users.2.2
  · have hnodup := t.db.refresh_tokens.2
    unfold RefreshConstraints at hnodup
    rw [hrefresh] at hnodup
    exact List.Nodup.of_map _ hnodup

/-- The run with a register, a login, a refresh and a revocation in it. -/
theorem tables_areAnswers_overtaken : ∃ t,
    run (step plainLibs plainConfig) (init plainLibs) overtakenRefresh = some t ∧
      LogOf t.db (answers plainLibs plainConfig overtakenRefresh) := by
  have hsome : (run (step plainLibs plainConfig) (init plainLibs) overtakenRefresh).isSome := by
    decide +kernel
  obtain ⟨t, ht⟩ := Option.isSome_iff_exists.mp hsome
  exact ⟨t, ht, tables_areAnswers plainLibs plainConfig ht⟩

/-! ## Nobody goes missing -/

/-- There is a user of that id. -/
def Db.Has (db : Db L.lower) (userID : Uuid) : Prop := ∃ user ∈ db.users.1, user.id = userID

/-- Who is there is found. -/
theorem userByID_isSome_iff {db : Db L.lower} {userID : Uuid} :
    (userByID db userID).isSome ↔ db.Has userID :=
  Keyed.lookup_isSome_iff

/-- The user a request on its way is to find. -/
def Stage.user : Stage → Option Uuid
  | .userByID _ userID => some userID
  | .issueTokens _ userID _ => some userID
  | _ => none

/-- Before its first statement a request is after nobody. -/
theorem Arrived.user {d : Draw} {r : Request} {next : Next} {stage : Stage}
    (h : Arrived L C d r next) (hnext : next = .stage stage) : stage.user = none := by
  cases h with
  | refused hstatus hinvalid => cases hnext
  | unhashed hbody hvalid hfails => cases hnext
  | _ => exact Next.stage.inj hnext ▸ rfl

/-- Refresh tokens, and the requests that have redeemed one, are of users that are there. -/
structure Known (s : State L) : Prop where
  rows : ∀ row ∈ s.db.refresh_tokens.1, s.db.Has row.user_id
  opened : ∀ o ∈ s.opened, ∀ userID ∈ o.stage.user, s.db.Has userID

/-- No answer takes a user away. -/
theorem Records.has {db db' : Db L.lower} {rs : List Response} (h : Records db db' rs)
    {userID : Uuid} (hhas : db.Has userID) : db'.Has userID := by
  obtain ⟨user, huser, rfl⟩ := hhas
  have hmem : (user.id, user.email) ∈ db'.users.1.map fun u => (u.id, u.email) := by
    rw [h.users]
    exact List.mem_append_left _ (List.mem_map.mpr ⟨user, huser, rfl⟩)
  obtain ⟨user', huser', heq⟩ := List.mem_map.mp hmem
  exact ⟨user', huser', (Prod.mk.inj heq).1⟩

/-- The owners of refresh tokens after a statement. -/
theorem Did.owner {d : Draw} {db db' : Db L.lower} {stage : Stage} {next : Next}
    (h : Did L C d db stage db' next) {row : RefreshToken} (hrow : row ∈ db'.refresh_tokens.1) :
    (∃ row' ∈ db.refresh_tokens.1, row'.user_id = row.user_id) ∨ db.Has row.user_id := by
  cases h with
  | registered hfails h => exact .inl ⟨row, (createUser_refresh h).1 ▸ hrow, rfl⟩
  | consumed hfails h =>
    obtain ⟨-, -, -, -, -, -, hrows⟩ := consumeRefreshToken_eq_some h
    rw [hrows] at hrow
    obtain ⟨row', hrow', rfl⟩ := List.mem_map.mp hrow
    refine .inl ⟨row', hrow', ?_⟩
    split <;> rfl
  | @stored parent userID email db' hfails h =>
    obtain ⟨hrows, -⟩ := storeRefreshToken_eq_some h
    rw [hrows] at hrow
    rcases List.mem_append.mp hrow with hrow | hrow
    · exact .inl ⟨row, hrow, rfl⟩
    · obtain rfl := List.mem_singleton.mp hrow
      -- the foreign key: the statement would have failed
      refine .inr (userByID_isSome_iff.mp (Option.isSome_iff_ne_none.mpr fun hmissing => ?_))
      rw [storeRefreshToken_eq_none_iff.mpr (.inl hmissing)] at h
      cases h
  | revoked hfails h =>
    rw [revokeAccessToken_eq_some h] at hrow
    obtain ⟨row', hrow', rfl⟩ := List.mem_map.mp hrow
    refine .inl ⟨row', hrow', ?_⟩
    split <;> rfl
  | _ => exact .inl ⟨row, hrow, rfl⟩

/-- The user a request is to find after its statement. -/
theorem Did.user {d : Draw} {db db' : Db L.lower} {stage stage' : Stage} {next : Next}
    (h : Did L C d db stage db' next) (hnext : next = .stage stage')
    (hrows : ∀ row ∈ db.refresh_tokens.1, db.Has row.user_id) :
    ∀ userID ∈ stage'.user, db.Has userID := by
  intro userID huser
  cases h with
  | verified hfails h =>
    obtain rfl := Next.stage.inj hnext
    obtain rfl := Option.some.inj huser
    exact ⟨_, (userByEmail_eq_some_iff.mp h).1, rfl⟩
  | consumed hfails h =>
    obtain rfl := Next.stage.inj hnext
    obtain rfl := Option.some.inj huser
    obtain ⟨row, hrow, -, howner, -⟩ := consumeRefreshToken_eq_some h
    exact howner ▸ hrows row hrow
  | found hfails h =>
    obtain rfl := Next.stage.inj hnext
    obtain rfl := Option.some.inj huser
    exact ⟨_, Keyed.lookup_mem h, rfl⟩
  | _ => cases hnext

/-- Nobody is named at the start. -/
theorem known_init : Known (init L) where
  rows := by simp [init, Db.empty]
  opened := by simp [init]

/-- **Nobody that is named goes missing.** -/
theorem known_step (s : State L) (a : Action) (s' : State L) (hs : Known s)
    (h : step L C s a = some s') : Known s' := by
  have hgrow : ∀ {userID}, s.db.Has userID → s'.db.Has userID := (step_records h).has
  cases a with
  | arrive d r =>
    dsimp only [step] at h
    cases harrive : arrive L C d r with
    | answer response =>
      rw [harrive] at h
      exact Option.some.inj h ▸ hs
    | stage stage =>
      rw [harrive] at h
      obtain rfl := Option.some.inj h
      refine ⟨hs.rows, fun o ho userID huser => ?_⟩
      rcases List.mem_append.mp ho with ho | ho
      · exact hs.opened o ho userID huser
      · obtain rfl := List.mem_singleton.mp ho
        rw [(arrive_arrived L C d r).user harrive] at huser
        cases huser
  | proceed i d =>
    obtain ⟨o, ho, rfl⟩ := step_proceed h
    have hdid := proceed_did L C d s.db o.stage
    refine ⟨fun row hrow => hgrow ?_, fun o' ho' userID huser => hgrow ?_⟩
    · rcases hdid.owner hrow with ⟨row', hrow', heq⟩ | hhas
      · exact heq ▸ hs.rows row' hrow'
      · exact hhas
    · dsimp only [State.moved] at ho'
      split at ho'
      · exact hs.opened o' (List.mem_of_mem_eraseIdx ho') userID huser
      next stage hnext =>
        rcases List.mem_or_eq_of_mem_set ho' with ho' | rfl
        · exact hs.opened o' ho' userID huser
        · exact hdid.user hnext hs.rows userID huser

/-! ## Internal errors -/

/-- What the statement is to store is there already. -/
def Collides (db : Db L.lower) (d : Draw) : Stage → Prop
  | .issueTokens _ _ _ => ∃ row ∈ db.refresh_tokens.1, row.token_hash = hashRefreshToken L d.random
  | .revoke _ _ _ => ∃ e ∈ db.outbox_events.1, e.id = d.uuid
  | _ => False

/-- The step fails, or what it has drawn is there already. -/
def Breaks (s : State L) : Action → Prop
  | .arrive d r => d.fails ∧ ∃ body, r.endpoint = .register (some body) ∧ body.Valid
  | .proceed i d => ∃ o, s.opened[i]? = some o ∧ (d.fails ∨ Collides s.db d o.stage)

/-- A statement for a user that is there is answered 500 exactly when it fails or collides. -/
theorem Did.status_iff {d : Draw} {db db' : Db L.lower} {stage : Stage} {next : Next}
    (h : Did L C d db stage db' next) (hknown : ∀ userID ∈ stage.user, db.Has userID) :
    (∃ response ∈ next.response, response.status = 500) ↔ d.fails ∨ Collides db d stage := by
  cases h with
  | failed stage hfails => exact iff_of_true ⟨fail, rfl, rfl⟩ (.inl hfails)
  | missing hfails h =>
    -- the user is there, so this cannot be
    have hhas := userByID_isSome_iff.mpr (hknown _ rfl)
    rw [h] at hhas
    cases hhas
  | unstored hfails h =>
    refine iff_of_true ⟨fail, rfl, rfl⟩ (.inr ?_)
    refine (storeRefreshToken_eq_none_iff.mp h).resolve_left fun hmissing => ?_
    have hhas := userByID_isSome_iff.mpr (hknown _ rfl)
    rw [hmissing] at hhas
    cases hhas
  | stored hfails h =>
    refine iff_of_false (by simp [Next.response]) (not_or.mpr ⟨hfails, fun hcollides => ?_⟩)
    rw [storeRefreshToken_eq_none_iff.mpr (.inr hcollides)] at h
    cases h
  | unqueued hfails h =>
    exact iff_of_true ⟨fail, rfl, rfl⟩ (.inr (revokeAccessToken_eq_none_iff.mp h))
  | revoked hfails h =>
    refine iff_of_false (by simp [Next.response]) (not_or.mpr ⟨hfails, fun hcollides => ?_⟩)
    rw [revokeAccessToken_eq_none_iff.mpr hcollides] at h
    cases h
  | _ hfails => exact iff_of_false (by simp [Next.response, writeError]) (not_or.mpr ⟨hfails, id⟩)

/-- **An internal error is a statement that has failed, or a random draw that was there already**:
    whatever other requests do in between, they cause none. -/
theorem internalError_iff (L : Libs) (C : Config) {acts : List Action} {s : State L}
    (hrun : run (step L C) (init L) acts = some s) (a : Action) :
    (∃ response ∈ answer L C s a, response.status = 500) ↔ Breaks s a := by
  have hknown := run_inv known_step known_init hrun
  cases a with
  | arrive d r =>
    have harrived := arrive_arrived L C d r
    show (∃ response ∈ (arrive L C d r).response, response.status = 500) ↔ _ ∧ _
    -- before its first statement a request can only fail to hash a valid password
    generalize arrive L C d r = next at harrived
    cases harrived with
    | refused hstatus hinvalid =>
      refine iff_of_false ?_ fun ⟨_, body, hbody, hvalid⟩ => hinvalid body hbody hvalid
      rintro ⟨response, hresponse, h⟩
      exact hstatus ((congrArg Response.status (Option.some.inj hresponse)).trans h)
    | unhashed hbody hvalid hfails => exact iff_of_true ⟨_, rfl, rfl⟩ ⟨hfails, _, hbody, hvalid⟩
    | registers hbody hvalid hfails =>
      exact iff_of_false (by simp [Next.response]) fun h => hfails h.1
    | _ => exact iff_of_false (by simp [Next.response]) (by simp_all)
  | proceed i d =>
    cases ho : s.opened[i]? with
    | none =>
      refine iff_of_false ?_ ?_
      · rintro ⟨response, hresponse, -⟩
        dsimp only [answer] at hresponse
        rw [ho] at hresponse
        cases hresponse
      · rintro ⟨o, ho', -⟩
        cases ho.symm.trans ho'
    | some o =>
      have hanswer : answer L C s (.proceed i d) = (proceed L C d s.db o.stage).2.response := by
        dsimp only [answer]
        rw [ho]
        rfl
      have hbreaks : Breaks s (.proceed i d) ↔ d.fails ∨ Collides s.db d o.stage := by
        constructor
        · rintro ⟨o', ho', h⟩
          obtain rfl := Option.some.inj (ho.symm.trans ho')
          exact h
        · exact fun h => ⟨o, ho, h⟩
      rw [hanswer, hbreaks]
      exact (proceed_did L C d s.db o.stage).status_iff
        (hknown.opened o (List.mem_of_getElem? ho))

/-- A refresh that is about to store a token that is there already. -/
theorem internalError_iff_collision : ∃ s,
    run (step plainLibs plainConfig) (init plainLibs) (overtakenRefresh.take 10) = some s ∧
      ((∃ response ∈ answer plainLibs plainConfig s (.proceed 0 ⟨0, tokenID, "r1", false⟩),
        response.status = 500) ↔ Breaks s (.proceed 0 ⟨0, tokenID, "r1", false⟩)) := by
  have hsome : (run (step plainLibs plainConfig) (init plainLibs) (overtakenRefresh.take 10)).isSome := by
    decide +kernel
  obtain ⟨s, hs⟩ := Option.isSome_iff_exists.mp hsome
  exact ⟨s, hs, internalError_iff plainLibs plainConfig hs _⟩

/-! ## How long a refresh token works -/

/-- The row is there, and live. -/
def State.Holds (s : State L) (row : RefreshToken) : Prop :=
  row ∈ s.db.refresh_tokens.1 ∧ row.revoked_at = none

instance (s : State L) (row : RefreshToken) : Decidable (s.Holds row) :=
  inferInstanceAs (Decidable (_ ∧ _))

/-- The statement redeems the token in time, or revokes what its user has. -/
def Spends (db : Db L.lower) (d : Draw) (row : RefreshToken) : Stage → Prop
  | .refresh token => hashRefreshToken L token = row.token_hash ∧ d.now < row.expires_at
  | .revoke _ userID _ => userID = row.user_id ∧ ∀ e ∈ db.outbox_events.1, e.id ≠ d.uuid
  | _ => False

/-- The step is such a statement, and does not fail. -/
def Ends (s : State L) (row : RefreshToken) : Action → Prop
  | .arrive _ _ => False
  | .proceed i d => ∃ o, s.opened[i]? = some o ∧ ¬ d.fails ∧ Spends s.db d row o.stage

/-- A row is spent by a statement exactly when it is no longer there as it was. -/
theorem Did.holds_iff {d : Draw} {db db' : Db L.lower} {stage : Stage} {next : Next}
    {row : RefreshToken} (h : Did L C d db stage db' next) (hrow : row ∈ db.refresh_tokens.1)
    (hlive : row.revoked_at = none) :
    row ∈ db'.refresh_tokens.1 ↔ ¬ (¬ d.fails ∧ Spends db d row stage) := by
  have hrevoked : ∀ {now : Int} {row' : RefreshToken}, row'.revoke now ≠ row := by
    rintro now row' rfl
    cases hlive
  cases h with
  | failed stage hfails => exact iff_of_true hrow fun h => h.1 hfails
  | registered hfails h =>
    rw [(createUser_refresh h).1]
    exact iff_of_true hrow fun h => h.2
  | invalid hfails h =>
    refine iff_of_true hrow fun ⟨_, hhash, hnow⟩ => ?_
    have hfound := (Keyed.lookup_eq_some_iff db.refresh_tokens.2).mpr ⟨hrow, rfl⟩
    unfold consumeRefreshToken at h
    rw [hhash, hfound, Option.bind_some, if_pos ⟨hlive, hnow⟩] at h
    cases h
  | consumed hfails h =>
    obtain ⟨row', hrow', hhash, -, -, hnow, hrows⟩ := consumeRefreshToken_eq_some h
    rw [hrows]
    -- it is spent if it is the one redeemed, and else it is not touched
    by_cases hsame : row.token_hash = row'.token_hash
    · obtain rfl := List.inj_on_of_nodup_map db.refresh_tokens.2 hrow hrow' hsame
      refine iff_of_false ?_ fun hno => hno ⟨hfails, hhash.symm, hnow⟩
      intro hmem
      obtain ⟨x, hx, heq⟩ := List.mem_map.mp hmem
      split at heq
      · exact hrevoked heq
      next hne => exact hne (heq ▸ hhash)
    · refine iff_of_true (List.mem_map.mpr ⟨row, hrow, if_neg ?_⟩)
        fun hspends => hsame (hspends.2.1.symm.trans hhash.symm)
      exact fun hkey => hsame (hkey.trans hhash.symm)
  | stored hfails h =>
    rw [(storeRefreshToken_eq_some h).1]
    exact iff_of_true (List.mem_append_left _ hrow) fun h => h.2
  | unqueued hfails h =>
    obtain ⟨e, he, hid⟩ := revokeAccessToken_eq_none_iff.mp h
    exact iff_of_true hrow fun hspends => hspends.2.2 e he hid
  | @revoked tokenID userID expires db' hfails h =>
    have hnew : ∀ e ∈ db.outbox_events.1, e.id ≠ d.uuid := by
      intro e he hid
      rw [revokeAccessToken_eq_none_iff.mpr ⟨e, he, hid⟩] at h
      cases h
    rw [revokeAccessToken_eq_some h]
    by_cases huser : row.user_id = userID
    · refine iff_of_false ?_ fun hno => hno ⟨hfails, huser.symm, hnew⟩
      intro hmem
      obtain ⟨x, hx, heq⟩ := List.mem_map.mp hmem
      split at heq
      · exact hrevoked heq
      next hne => exact hne (heq ▸ ⟨huser, hlive⟩)
    · exact iff_of_true (List.mem_map.mpr ⟨row, hrow, if_neg fun h => huser h.1⟩)
        fun hspends => huser hspends.2.1.symm
  | _ => exact iff_of_true hrow fun h => h.2

/-- **A row is live after a step exactly when the step does not end it.** -/
theorem holds_step {s s' : State L} {a : Action} {row : RefreshToken} (hs : s.Holds row)
    (h : step L C s a = some s') : s'.Holds row ↔ ¬ Ends s row a := by
  have hlive : s'.Holds row ↔ row ∈ s'.db.refresh_tokens.1 := and_iff_left hs.2
  rw [hlive]
  cases a with
  | arrive d r =>
    have hdb : s'.db = s.db := by
      dsimp only [step] at h
      split at h <;> exact Option.some.inj h ▸ rfl
    rw [hdb]
    exact iff_of_true hs.1 id
  | proceed i d =>
    obtain ⟨o, ho, rfl⟩ := step_proceed h
    have hends : Ends s row (.proceed i d) ↔ ¬ d.fails ∧ Spends s.db d row o.stage := by
      constructor
      · rintro ⟨o', ho', hspends⟩
        obtain rfl := Option.some.inj (ho.symm.trans ho')
        exact hspends
      · exact fun hspends => ⟨o, ho, hspends⟩
    rw [hends]
    exact (proceed_did L C d s.db o.stage).holds_iff hs.1 hs.2

/-- **A refresh token works until it is redeemed in time or its user revokes**, and nothing else that
    any request does takes it away. -/
theorem staysRedeemable_iff (L : Libs) (C : Config) {s : State L} {row : RefreshToken}
    (hs : s.Holds row) (acts : List Action) :
    Throughout (step L C) (fun t => t.Holds row) s acts ↔
      Along (step L C) (fun t a => ¬ Ends t row a) s acts :=
  throughout_iff_along (J := fun _ => True) (fun _ _ _ _ _ _ => trivial)
    (fun _ _ _ _ hs h => holds_step hs h) acts trivial hs

/-- The refresh token of a login, and what then becomes of it. -/
theorem staysRedeemable_iff_overtaken : ∃ s,
    run (step plainLibs plainConfig) (init plainLibs) (overtakenRefresh.take 5) = some s ∧
      (Throughout (step plainLibs plainConfig)
          (fun t => t.Holds ⟨aliceID, "r1", DefaultRefreshTTL, none⟩) s (overtakenRefresh.drop 5) ↔
        Along (step plainLibs plainConfig)
          (fun t a => ¬ Ends t ⟨aliceID, "r1", DefaultRefreshTTL, none⟩ a) s
          (overtakenRefresh.drop 5)) := by
  have hsome : (run (step plainLibs plainConfig) (init plainLibs) (overtakenRefresh.take 5)).isSome := by
    decide +kernel
  have hholds : ∀ s ∈ run (step plainLibs plainConfig) (init plainLibs) (overtakenRefresh.take 5),
      s.Holds ⟨aliceID, "r1", DefaultRefreshTTL, none⟩ := by
    decide +kernel
  obtain ⟨s, hs⟩ := Option.isSome_iff_exists.mp hsome
  exact ⟨s, hs, staysRedeemable_iff plainLibs plainConfig (hholds s hs) _⟩

end DjangoFlaskKafka.Auth
