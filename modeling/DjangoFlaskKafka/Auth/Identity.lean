/-
  Identity — who is behind a token.

  1. **Program** — the machine of `Auth.Sessions`, and the answers of `Auth.Answers`.

  2. **Law** — `tokens_earned`: whatever interleaves, and whatever refresh tokens are presented by
     whomever, the tokens of a 200 are those of a user whom a `POST /register` has created with a
     password, and for whom a `POST /login` has presented one that its hash verifies.

  3. **The crux** — what a request on its way has in hand, and whom a refresh token names, can be
     traced back to such requests (`Earned`), and the users it is traced back to stay.
-/
import DjangoFlaskKafka.Auth.Answers

namespace DjangoFlaskKafka.Auth

open Postgres Machine

/-! ## The law -/

/-- The credentials of a registration. -/
def Action.registers : Action → Option Credentials
  | .arrive _ ⟨.register body, _⟩ => body
  | _ => none

/-- The credentials of a login. -/
def Action.logsIn : Action → Option Credentials
  | .arrive _ ⟨.login body, _⟩ => body
  | _ => none

variable (L : Libs) (C : Config)

/-- The user that a registration with these credentials creates. -/
def User.RegisteredWith (user : User) (body : Credentials) : Prop :=
  user.email = Go.trimSpace body.email ∧ ∃ salt, user.password_hash = L.hashPassword salt body.password

/-- The user that a login with these credentials is for. -/
def User.Admits (user : User) (body : Credentials) : Prop :=
  L.lower user.email = L.lower body.email ∧ L.verifyPassword body.password user.password_hash

variable {L} (P Q : Credentials → Prop)

/-- The user is there, and credentials that meet `Q` were presented for him. -/
def Db.Proves (db : Db L.lower) (userID : Uuid) : Prop :=
  ∃ user ∈ db.users.1, user.id = userID ∧ ∃ body, Q body ∧ user.Admits L body

/-- What a request on its way has in hand. -/
def Stage.Earned (db : Db L.lower) : Stage → Prop
  | .register email passwordHash => ∃ body : Credentials, P body ∧ email = Go.trimSpace body.email ∧
      ∃ salt, passwordHash = L.hashPassword salt body.password
  | .login body => Q body
  | .userByID _ userID => db.Proves Q userID
  | .issueTokens _ userID email => ∃ user ∈ db.users.1, user.id = userID ∧ user.email = email ∧
      ∃ body, Q body ∧ user.Admits L body
  | _ => True

/-- Everything can be traced back to registrations that meet `P` and logins that meet `Q`. -/
structure Earned (s : State L) : Prop where
  users : ∀ user ∈ s.db.users.1, ∃ body, P body ∧ user.RegisteredWith L body
  rows : ∀ row ∈ s.db.refresh_tokens.1, s.db.Proves Q row.user_id
  opened : ∀ o ∈ s.opened, o.stage.Earned P Q s.db

/-- The answer hands out tokens, if it does, to a user of whom all this is true. -/
def HandsOut (db : Db L.lower) (r : Response) : Prop :=
  ∀ access refresh expiresIn, r = ⟨200, .tokens access refresh expiresIn⟩ →
    ∃ user ∈ db.users.1,
      (∃ id now, access = L.sign (issueAccess C id user.id user.email now)) ∧
      (∃ row ∈ db.refresh_tokens.1,
        row.token_hash = hashRefreshToken L refresh ∧ row.user_id = user.id) ∧
      (∃ body, P body ∧ user.RegisteredWith L body) ∧ ∃ body, Q body ∧ user.Admits L body

/-! ## What stays -/

section Stays

variable {C} {d : Draw} {db db' : Db L.lower} {stage : Stage} {next : Next}

/-- Users stay. -/
theorem Did.users_subset (h : Did L C d db stage db' next) : db.users.1 ⊆ db'.users.1 := by
  cases h with
  | registered hfails h =>
    rw [createUser_users h]
    exact List.subset_append_left _ _
  | consumed hfails h => exact (consumeRefreshToken_users h ▸ List.Subset.refl _)
  | stored hfails h => exact (storeRefreshToken_users h ▸ List.Subset.refl _)
  | revoked hfails h => exact (revokeAccessToken_users h ▸ List.Subset.refl _)
  | _ => exact List.Subset.refl _

/-- So does whom a refresh token is of. -/
theorem Did.keeps_row (h : Did L C d db stage db' next) {row : RefreshToken}
    (hrow : row ∈ db.refresh_tokens.1) : ∃ row' ∈ db'.refresh_tokens.1,
      row'.token_hash = row.token_hash ∧ row'.user_id = row.user_id := by
  cases h with
  | registered hfails h => exact ⟨row, (createUser_refresh h).1.symm ▸ hrow, rfl, rfl⟩
  | consumed hfails h =>
    obtain ⟨-, -, -, -, -, -, hrows⟩ := consumeRefreshToken_eq_some h
    rw [hrows]
    refine ⟨_, List.mem_map_of_mem hrow, ?_, ?_⟩
    · split <;> rfl
    · split <;> rfl
  | stored hfails h =>
    rw [(storeRefreshToken_eq_some h).1]
    exact ⟨row, List.mem_append_left _ hrow, rfl, rfl⟩
  | revoked hfails h =>
    rw [revokeAccessToken_eq_some h]
    refine ⟨_, List.mem_map_of_mem hrow, ?_, ?_⟩
    · split <;> rfl
    · split <;> rfl
  | _ => exact ⟨row, hrow, rfl, rfl⟩

variable {P Q}

/-- More users prove more. -/
theorem Db.Proves.mono (husers : db.users.1 ⊆ db'.users.1) {userID : Uuid}
    (h : db.Proves Q userID) : db'.Proves Q userID := by
  obtain ⟨user, huser, hrest⟩ := h
  exact ⟨user, husers huser, hrest⟩

/-- What a request has earned it keeps. -/
theorem Stage.Earned.mono (husers : db.users.1 ⊆ db'.users.1) (h : stage.Earned P Q db) :
    stage.Earned P Q db' := by
  cases stage with
  | userByID parent userID => exact Db.Proves.mono husers h
  | issueTokens parent userID email =>
    obtain ⟨user, huser, hrest⟩ := h
    exact ⟨user, husers huser, hrest⟩
  | _ => exact h

end Stays

/-! ## What every step keeps -/

section Steps

variable {P Q C} {d : Draw} {db db' : Db L.lower} {stage : Stage} {next : Next}

/-- A request has in hand what its body says. -/
theorem Arrived.earned {r : Request} (h : Arrived L C d r next)
    (hP : ∀ body ∈ (Action.arrive d r).registers, P body)
    (hQ : ∀ body ∈ (Action.arrive d r).logsIn, Q body) (hnext : next = .stage stage)
    (db : Db L.lower) : stage.Earned P Q db := by
  obtain ⟨endpoint, authorization⟩ := r
  cases h with
  | registers hbody hvalid hfails =>
    obtain rfl := Next.stage.inj hnext
    obtain rfl : endpoint = _ := hbody
    exact ⟨_, hP _ rfl, rfl, d.random, rfl⟩
  | logsIn hbody =>
    obtain rfl := Next.stage.inj hnext
    obtain rfl : endpoint = _ := hbody
    exact hQ _ rfl
  | refreshes htoken => exact Next.stage.inj hnext ▸ trivial
  | revokes hrevoke hclaims huser => exact Next.stage.inj hnext ▸ trivial
  | _ => cases hnext

/-- Who is registered by a statement. -/
theorem Did.registered_users (h : Did L C d db stage db' next) (hstage : stage.Earned P Q db)
    {user : User} (huser : user ∈ db'.users.1) :
    user ∈ db.users.1 ∨ ∃ body, P body ∧ user.RegisteredWith L body := by
  cases h with
  | registered hfails h =>
    rw [createUser_users h] at huser
    refine (List.mem_append.mp huser).imp_right fun huser => ?_
    obtain rfl := List.mem_singleton.mp huser
    obtain ⟨body, hbody, hemail, hhash⟩ := hstage
    exact ⟨body, hbody, hemail, hhash⟩
  | consumed hfails h => exact .inl (consumeRefreshToken_users h ▸ huser)
  | stored hfails h => exact .inl (storeRefreshToken_users h ▸ huser)
  | revoked hfails h => exact .inl (revokeAccessToken_users h ▸ huser)
  | _ => exact .inl huser

/-- Whom the refresh tokens are of, after a statement. -/
theorem Did.earned_rows (h : Did L C d db stage db' next) (hstage : stage.Earned P Q db)
    (hrows : ∀ row ∈ db.refresh_tokens.1, db.Proves Q row.user_id) {row : RefreshToken}
    (hrow : row ∈ db'.refresh_tokens.1) : db.Proves Q row.user_id := by
  cases h with
  | registered hfails h => exact hrows row ((createUser_refresh h).1 ▸ hrow)
  | consumed hfails h =>
    obtain ⟨-, -, -, -, -, -, heq⟩ := consumeRefreshToken_eq_some h
    rw [heq] at hrow
    obtain ⟨row', hrow', rfl⟩ := List.mem_map.mp hrow
    split
    · exact hrows row' hrow'
    · exact hrows row' hrow'
  | stored hfails h =>
    rw [(storeRefreshToken_eq_some h).1] at hrow
    rcases List.mem_append.mp hrow with hrow | hrow
    · exact hrows row hrow
    · obtain rfl := List.mem_singleton.mp hrow
      obtain ⟨user, huser, hid, -, hbody⟩ := hstage
      exact ⟨user, huser, hid, hbody⟩
  | revoked hfails h =>
    rw [revokeAccessToken_eq_some h] at hrow
    obtain ⟨row', hrow', rfl⟩ := List.mem_map.mp hrow
    split
    · exact hrows row' hrow'
    · exact hrows row' hrow'
  | _ => exact hrows row hrow

/-- What a request has in hand after a statement. -/
theorem Did.earned_stage {stage' : Stage} (h : Did L C d db stage db' next)
    (hstage : stage.Earned P Q db) (hrows : ∀ row ∈ db.refresh_tokens.1, db.Proves Q row.user_id)
    (hnext : next = .stage stage') : stage'.Earned P Q db' := by
  cases h with
  | verified hfails h hpassword =>
    obtain rfl := Next.stage.inj hnext
    obtain ⟨huser, hemail⟩ := userByEmail_eq_some_iff.mp h
    exact ⟨_, huser, rfl, rfl, _, hstage, hemail, hpassword⟩
  | consumed hfails h =>
    obtain rfl := Next.stage.inj hnext
    obtain ⟨row, hrow, -, howner, -⟩ := consumeRefreshToken_eq_some h
    exact howner ▸ (hrows row hrow).mono (consumeRefreshToken_users h ▸ List.Subset.refl _)
  | found hfails h =>
    obtain rfl := Next.stage.inj hnext
    obtain ⟨user', huser', hid, hbody⟩ := hstage
    have hfound := (Keyed.lookup_eq_some_iff db.users.2.1).mpr ⟨huser', hid⟩
    obtain rfl : user' = _ := Option.some.inj (hfound.symm.trans h)
    exact ⟨user', huser', rfl, rfl, hbody⟩
  | _ => cases hnext

/-- Nobody has anything at the start. -/
theorem earned_init : Earned P Q (init L) where
  users := by simp [init, Db.empty]
  rows := by simp [init, Db.empty]
  opened := by simp [init]

/-- **What is in hand is earned, step by step.** -/
theorem earned_step (s : State L) (a : Action) (s' : State L) (hs : Earned P Q s)
    (ha : (∀ body ∈ a.registers, P body) ∧ ∀ body ∈ a.logsIn, Q body)
    (h : step L C s a = some s') : Earned P Q s' := by
  cases a with
  | arrive d r =>
    dsimp only [step] at h
    cases harrive : arrive L C d r with
    | answer response =>
      rw [harrive] at h
      exact Option.some.inj h ▸ hs
    | stage stage =>
      rw [harrive] at h
      obtain rfl := Option.some.inj h
      refine ⟨hs.users, hs.rows, fun o ho => ?_⟩
      rcases List.mem_append.mp ho with ho | ho
      · exact hs.opened o ho
      · obtain rfl := List.mem_singleton.mp ho
        exact (arrive_arrived L C d r).earned ha.1 ha.2 harrive s.db
  | proceed i d =>
    obtain ⟨o, ho, rfl⟩ := step_proceed h
    have hdid := proceed_did L C d s.db o.stage
    have hstage := hs.opened o (List.mem_of_getElem? ho)
    refine ⟨fun user huser => ?_, fun row hrow => ?_, fun o' ho' => ?_⟩
    · rcases hdid.registered_users hstage huser with huser | hregistered
      · exact hs.users user huser
      · exact hregistered
    · exact (hdid.earned_rows hstage hs.rows hrow).mono hdid.users_subset
    · dsimp only [State.moved] at ho'
      split at ho'
      · exact (hs.opened o' (List.mem_of_mem_eraseIdx ho')).mono hdid.users_subset
      next stage' hnext =>
        rcases List.mem_or_eq_of_mem_set ho' with ho' | rfl
        · exact (hs.opened o' ho').mono hdid.users_subset
        · exact hdid.earned_stage hstage hs.rows hnext

/-! ## What is handed out -/

/-- A statement hands out what its request has earned. -/
theorem Did.handsOut (h : Did L C d db stage db' next) (hstage : stage.Earned P Q db)
    (husers : ∀ user ∈ db.users.1, ∃ body, P body ∧ user.RegisteredWith L body) :
    ∀ r ∈ next.response, HandsOut C P Q db' r := by
  rintro r hr access refresh expiresIn rfl
  cases h with
  | stored hfails h =>
    obtain ⟨rfl, rfl, -⟩ := Body.tokens.inj (Response.mk.inj (Option.some.inj hr)).2
    obtain ⟨user, huser, rfl, rfl, hbody⟩ := hstage
    refine ⟨user, storeRefreshToken_users h ▸ huser, ⟨d.uuid, d.now, rfl⟩, ?_, husers user huser, hbody⟩
    rw [(storeRefreshToken_eq_some h).1]
    exact ⟨_, List.mem_append_right _ (List.mem_singleton_self _), rfl, rfl⟩
  | _ => cases hr

/-- What a step hands out. -/
theorem handsOut_step (s : State L) (a : Action) (s' : State L) (hs : Earned P Q s)
    (h : step L C s a = some s') : ∀ r ∈ answer L C s a, HandsOut C P Q s'.db r := by
  intro r hr
  cases a with
  | arrive d request =>
    have hsilent := (arrive_arrived L C d request).silent r hr
    rintro access refresh expiresIn rfl
    cases hsilent.refreshToken
  | proceed i d =>
    obtain ⟨o, ho, rfl⟩ := step_proceed h
    dsimp only [answer] at hr
    rw [ho] at hr
    exact (proceed_did L C d s.db o.stage).handsOut (hs.opened o (List.mem_of_getElem? ho)) hs.users r hr

/-- What has been handed out stays so. -/
theorem handsOut_stays (r : Response) (s : State L) (a : Action) (s' : State L)
    (hr : HandsOut C P Q s.db r) (h : step L C s a = some s') : HandsOut C P Q s'.db r := by
  intro access refresh expiresIn heq
  obtain ⟨user, huser, haccess, ⟨row, hrow, hhash, howner⟩, hrest⟩ := hr access refresh expiresIn heq
  cases a with
  | arrive d r =>
    have hdb : s'.db = s.db := by
      dsimp only [step] at h
      split at h <;> exact Option.some.inj h ▸ rfl
    rw [hdb]
    exact ⟨user, huser, haccess, ⟨row, hrow, hhash, howner⟩, hrest⟩
  | proceed i d =>
    obtain ⟨o, ho, rfl⟩ := step_proceed h
    have hdid := proceed_did L C d s.db o.stage
    obtain ⟨row', hrow', hhash', howner'⟩ := hdid.keeps_row hrow
    exact ⟨user, hdid.users_subset huser, haccess,
      ⟨row', hrow', hhash'.trans hhash, howner'.trans howner⟩, hrest⟩

end Steps

/-- **Tokens are earned**: whatever interleaves, the tokens of a 200 are for a user whom a
    registration of the run has created, and for whom a login of the run has presented a password
    that the hash of the registered one verifies. -/
theorem tokens_earned (L : Libs) (C : Config) {acts : List Action} {t : State L}
    (hrun : run (step L C) (init L) acts = some t) :
    ∀ r ∈ answers L C acts, HandsOut C (· ∈ acts.filterMap Action.registers)
      (· ∈ acts.filterMap Action.logsIn) t.db r := by
  have hkeeps : ∀ s a s', Earned (· ∈ acts.filterMap Action.registers)
      (· ∈ acts.filterMap Action.logsIn) s → a ∈ acts → step L C s a = some s' →
      Earned (· ∈ acts.filterMap Action.registers) (· ∈ acts.filterMap Action.logsIn) s' := by
    intro s a s' hs ha h
    refine earned_step s a s' hs ⟨fun body hbody => ?_, fun body hbody => ?_⟩ h
    · exact List.mem_filterMap.mpr ⟨a, ha, hbody⟩
    · exact List.mem_filterMap.mpr ⟨a, ha, hbody⟩
  exact forall_outputs hkeeps (fun s a s' hs _ h => handsOut_step s a s' hs h) handsOut_stays
    earned_init (fun a ha => ha) hrun

/-- The run in which a login and a refresh hand out tokens. -/
theorem tokens_earned_overtaken : ∃ t,
    run (step plainLibs plainConfig) (init plainLibs) overtakenRefresh = some t ∧
      ∀ r ∈ answers plainLibs plainConfig overtakenRefresh,
        HandsOut plainConfig (· ∈ overtakenRefresh.filterMap Action.registers)
          (· ∈ overtakenRefresh.filterMap Action.logsIn) t.db r := by
  have hsome : (run (step plainLibs plainConfig) (init plainLibs) overtakenRefresh).isSome := by
    decide +kernel
  obtain ⟨t, ht⟩ := Option.isSome_iff_exists.mp hsome
  exact ⟨t, ht, tokens_earned plainLibs plainConfig ht⟩

end DjangoFlaskKafka.Auth
