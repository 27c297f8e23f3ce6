/-
  Guards — a revocation, from the answer of the auth service to the doors of the other two.

  1. **Program** — what a service asks of the `Authorization` header before a view runs:
     `authenticate` of the posts service, and `requires_auth` of the related service
     (`services/related/jwtauth.py`).  Both let PyJWT verify the token and then look its id up in
     their own denylist.

  2. **Law** — `revoked_everywhere`: whatever interleaves in the auth service, once both services
     have been handed its revocations, in any order and as often as it takes and with purges in
     between, both let in exactly the tokens that verify, are in date and have not been revoked with
     a 202.

  3. **The crux** — a row of the auth outbox tells the expiry of the token it revokes (`Honest`), so
     a row that a purge has dropped is one whose token PyJWT turns down anyway.

  Decoding and lookup are at one reading of the clock here; what can get between them is in
  `Posts.Purge`.
-/
import DjangoFlaskKafka.Sync.Denylists
import DjangoFlaskKafka.Auth.InFlight
import Mathlib.Data.Set.List

namespace DjangoFlaskKafka.Sync.Guards

open Python Kafka Postgres Machine Posts.Denylist Expiry Sync.Denylists

/-! ## The program -/

/-- `TokenUser`. -/
structure TokenUser where
  id : String
  email : String
  token_id : String
  deriving DecidableEq, Repr

/-- An answer of the wrapper in place of the view's. -/
structure Refusal where
  status : Nat
  error : String
  deriving DecidableEq, Repr

/-- What the wrapper leaves in `g`. -/
structure Caller where
  user_id : String
  email : String
  deriving DecidableEq, Repr

variable (L : Posts.Denylist.Libs)

/-- `authenticate(request)`: there is no user without a bearer token, and an error is the detail of
    `AuthenticationFailed`. -/
def authenticate (now : Int) (rows : List Posts.Denylist.RevokedToken) (header : String) :
    Except String (Option TokenUser) := do
  match ← decode L now header with
  | none => return none
  | some claims =>
    let claims ← checkDenylist rows claims
    return some ⟨claims.sub, claims.email, claims.jti⟩

/-- `requires_auth`, up to the call of the view. -/
def requiresAuth (now : Int) (rows : List Related.RevokedToken) (header : String) :
    Except Refusal Caller :=
  if (L.lower header.toList).take 7 ≠ "bearer ".toList then .error ⟨401, "bearer token required"⟩
  else
    match jwtDecode L now (strip (String.ofList (header.toList.drop 7))) with
    | .error (.pyJwtError text) => .error ⟨401, "token is not valid: " ++ text⟩
    | .error .exception => .error ⟨503, "cannot verify token right now"⟩
    | .ok claims =>
      if rows.any fun row => row.token_id = claims.jti then .error ⟨401, "token has been revoked"⟩
      else .ok ⟨claims.sub, claims.email⟩

/-! ## The law -/

/-- The token of a revocation that is answered 202. -/
def tokenRevoked : Auth.Stage → Auth.Next → Option String
  | .revoke tokenID _ _, .answer ⟨202, _⟩ => some tokenID
  | _, _ => none

/-- The token that a step revokes. -/
def revokes (A : Auth.Libs) (C : Auth.Config) (s : Auth.State A) : Auth.Action → Option String
  | .arrive _ _ => none
  | .proceed i d => s.opened[i]?.bind fun o =>
    tokenRevoked o.stage (Auth.proceed A C d s.db o.stage).2

/-- The tokens that a run revokes. -/
abbrev revoked (A : Auth.Libs) (C : Auth.Config) (acts : List Auth.Action) : List String :=
  outputs (Auth.step A C) (revokes A C) (Auth.init A) acts

/-- What the signature vouches for: the tokens that verify are those auth has signed, each with an
    id of its own and the expiry that goes with it, and PyJWT reads in them what auth does. -/
structure Vouched (A : Auth.Libs) (C : Auth.Config) (due : String → Rfc3339.Instant) : Prop where
  issued : ∀ token claims, A.parse token = some claims → claims.Ours C →
    ∃ (k : Uuid) (e : Int), claims.id = k.1 ∧ claims.expiresAt = some e ∧ (due k.1).1 = e * Go.second
  same : ∀ token claims, Verifies L token claims →
    ∃ claims', A.parse token = some claims' ∧ claims'.Ours C ∧ claims.jti = claims'.id ∧
      claims'.expiresAt = some claims.exp
  empty : ∀ claims, ¬ Verifies L "" claims

/-! ## Who is let in -/

variable {L}

/-- A header is decoded when it presents a token that verifies. -/
theorem decode_eq_some_iff (hempty : ∀ claims, ¬ Verifies L "" claims) {now : Int} {header : String}
    {claims : TokenClaims} :
    decode L now header = .ok (some claims) ↔ Presents L now header claims := by
  refine ⟨presents_of_decode, fun h => ?_⟩
  have hnonblank : strip (String.ofList (header.toList.drop 7)) ≠ "" := by
    intro hblank
    exact hempty claims (hblank ▸ h.verified)
  unfold decode
  rw [if_neg (not_not.mpr h.bearer), if_neg hnonblank,
    jwtDecode_eq_ok_iff.mpr ⟨h.verified, h.inDate⟩]

/-- **Whom the posts service lets in.** -/
theorem authenticate_eq_some_iff (hempty : ∀ claims, ¬ Verifies L "" claims) {now : Int}
    {rows : List Posts.Denylist.RevokedToken} {header : String} {user : TokenUser} :
    authenticate L now rows header = .ok (some user) ↔ ∃ claims, Presents L now header claims ∧
      isRevoked rows claims.jti = false ∧ user = ⟨claims.sub, claims.email, claims.jti⟩ := by
  unfold authenticate
  cases hdecode : decode L now header with
  | error e =>
    refine iff_of_false (by intro h; cases h) ?_
    rintro ⟨claims, hpresents, -⟩
    rw [(decode_eq_some_iff hempty).mpr hpresents] at hdecode
    cases hdecode
  | ok found =>
    cases found with
    | none =>
      refine iff_of_false (by intro h; cases h) ?_
      rintro ⟨claims, hpresents, -⟩
      rw [(decode_eq_some_iff hempty).mpr hpresents] at hdecode
      cases hdecode
    | some claims =>
      have hpresents := (decode_eq_some_iff hempty).mp hdecode
      show (do let claims ← checkDenylist rows claims; return some _ : Except String _) = _ ↔ _
      unfold checkDenylist
      cases hrevoked : isRevoked rows claims.jti with
      | true =>
        refine iff_of_false (by intro h; cases h) ?_
        rintro ⟨claims', hpresents', hlisted, -⟩
        obtain rfl := hpresents.verified.unique hpresents'.verified
        rw [hrevoked] at hlisted
        cases hlisted
      | false =>
        constructor
        · intro h
          exact ⟨claims, hpresents, hrevoked, (Option.some.inj (Except.ok.inj h)).symm⟩
        · rintro ⟨claims', hpresents', -, rfl⟩
          obtain rfl := hpresents.verified.unique hpresents'.verified
          rfl

/-- **Whom the related service lets in.** -/
theorem requiresAuth_eq_ok_iff {now : Int} {rows : List Related.RevokedToken} {header : String}
    {caller : Caller} :
    requiresAuth L now rows header = .ok caller ↔ ∃ claims, Presents L now header claims ∧
      (¬ ∃ row ∈ rows, row.token_id = claims.jti) ∧ caller = ⟨claims.sub, claims.email⟩ := by
  unfold requiresAuth
  by_cases hbearer : (L.lower header.toList).take 7 = "bearer ".toList
  · rw [if_neg (not_not.mpr hbearer)]
    have hpresents : ∀ claims, Presents L now header claims ↔
        jwtDecode L now (strip (String.ofList (header.toList.drop 7))) = .ok claims := fun claims =>
      ⟨fun h => jwtDecode_eq_ok_iff.mpr ⟨h.verified, h.inDate⟩,
        fun h => ⟨hbearer, (jwtDecode_eq_ok_iff.mp h).1, (jwtDecode_eq_ok_iff.mp h).2⟩⟩
    simp only [hpresents]
    split
    next text herror => simp [herror]
    next herror => simp [herror]
    next claims hfound =>
      simp only [hfound, Except.ok.injEq, exists_eq_left']
      split
      next hany =>
        obtain ⟨row, hrow, hid⟩ := List.any_eq_true.mp hany
        exact iff_of_false (by simp) fun h => h.1 ⟨row, hrow, of_decide_eq_true hid⟩
      next hany =>
        have hlisted : ¬ ∃ row ∈ rows, row.token_id = claims.jti := by
          rintro ⟨row, hrow, hid⟩
          exact hany (List.any_eq_true.mpr ⟨row, hrow, decide_eq_true hid⟩)
        constructor
        · intro h
          exact ⟨hlisted, (Except.ok.inj h).symm⟩
        · rintro ⟨-, rfl⟩
          rfl
  · rw [if_pos hbearer]
    refine iff_of_false (by simp) ?_
    rintro ⟨claims, hpresents, -⟩
    exact hbearer hpresents.bearer

/-! ## What the auth service tells -/

section AuthService

variable {A : Auth.Libs} {C : Auth.Config} {due : String → Rfc3339.Instant}

/-- The token a payload names. -/
def tokenIn (payload : Json) : String :=
  match payload.item "token_id" with
  | .ok (.str token) => token
  | _ => ""

/-- The tokens that the rows of an outbox name. -/
def named (db : Auth.Db A.lower) : List String := db.outbox_events.1.map fun row => tokenIn row.payload

/-- A statement names in the outbox the token of a revocation that it answers 202, and no other. -/
theorem named_did {d : Auth.Draw} {db db' : Auth.Db A.lower} {stage : Auth.Stage} {next : Auth.Next}
    (h : Auth.Did A C d db stage db' next) :
    named db' = named db ++ (tokenRevoked stage next).toList := by
  unfold named
  cases h with
  | failed stage hfails => cases stage <;> simp [tokenRevoked, Auth.fail, Auth.writeError]
  | registered hfails h => simp [(Auth.createUser_refresh h).2, tokenRevoked]
  | consumed hfails h => simp [Auth.consumeRefreshToken_outbox h, tokenRevoked]
  | stored hfails h => simp [Auth.storeRefreshToken_outbox h, tokenRevoked]
  | unqueued hfails h => simp [tokenRevoked, Auth.fail, Auth.writeError]
  | revoked hfails h =>
    rw [Auth.revokeAccessToken_outbox h, List.map_append]
    rfl
  | _ => simp [tokenRevoked]

/-- A step names the token it revokes, and no other. -/
theorem named_step {s s' : Auth.State A} {a : Auth.Action} (h : Auth.step A C s a = some s') :
    named s'.db = named s.db ++ (revokes A C s a).toList := by
  cases a with
  | arrive d r =>
    dsimp only [Auth.step] at h
    split at h
    · exact Option.some.inj h ▸ (List.append_nil _).symm
    · exact Option.some.inj h ▸ (List.append_nil _).symm
  | proceed i d =>
    obtain ⟨o, ho, rfl⟩ := Auth.step_proceed h
    dsimp only [revokes]
    rw [ho]
    exact named_did (Auth.proceed_did A C d s.db o.stage)

/-- The outbox names the tokens revoked. -/
theorem named_run {acts : List Auth.Action} {t : Auth.State A}
    (hrun : run (Auth.step A C) (Auth.init A) acts = some t) : named t.db = revoked A C acts := by
  have hlog := run_logged (f := some) (fun s a s' h => by rw [List.filterMap_some]; exact named_step h) hrun
  rw [List.filterMap_some] at hlog
  exact hlog

variable (due) in
/-- What is told of a token, or is about to be, is its expiry. -/
structure Honest (s : Auth.State A) : Prop where
  rows : ∀ row ∈ s.db.outbox_events.1, ∃ r : Revocation, row.payload = r.payload due
  opened : ∀ o ∈ s.opened, ∀ tokenID userID expires, o.stage = .revoke tokenID userID expires →
    ∃ k : Uuid, tokenID = k.1 ∧ expires = (due k.1).1

/-- Nothing is in the tables that could be wrong. -/
theorem honest_init : Honest due (Auth.init A) where
  rows := by simp [Auth.init, Auth.Db.empty]
  opened := by simp [Auth.init]

/-- A request that comes to revoke a token has verified it. -/
theorem arrived_honest (hvouched : Vouched L A C due) {d : Auth.Draw} {r : Auth.Request}
    {tokenID : String} {userID : Uuid} {expires : Int}
    (h : Auth.Arrived A C d r (.stage (.revoke tokenID userID expires))) :
    ∃ k : Uuid, tokenID = k.1 ∧ expires = (due k.1).1 := by
  cases h with
  | revokes hrevoke hclaims huser =>
    obtain ⟨hparse, hvalid⟩ := Option.filter_eq_some_iff.mp hclaims
    obtain ⟨k, e, hid, hexp, hdue⟩ := hvouched.issued _ _ hparse (of_decide_eq_true hvalid).2
    refine ⟨k, hid, ?_⟩
    rw [hexp, hdue]
    rfl

/-- What a statement leaves in the outbox. -/
theorem did_rows {d : Auth.Draw} {db db' : Auth.Db A.lower} {stage : Auth.Stage} {next : Auth.Next}
    (h : Auth.Did A C d db stage db' next) {row : Auth.OutboxEvent} (hrow : row ∈ db'.outbox_events.1) :
    row ∈ db.outbox_events.1 ∨ ∃ tokenID userID expires, stage = .revoke tokenID userID expires ∧
      row.payload = Auth.revocationPayload tokenID userID expires := by
  cases h with
  | registered hfails h => exact .inl ((Auth.createUser_refresh h).2 ▸ hrow)
  | consumed hfails h => exact .inl (Auth.consumeRefreshToken_outbox h ▸ hrow)
  | stored hfails h => exact .inl (Auth.storeRefreshToken_outbox h ▸ hrow)
  | revoked hfails h =>
    rw [Auth.revokeAccessToken_outbox h] at hrow
    refine (List.mem_append.mp hrow).imp_right fun hrow => ?_
    rw [List.mem_singleton.mp hrow]
    exact ⟨_, _, _, rfl, rfl⟩
  | _ => exact .inl hrow

/-- No statement leads on to a revocation. -/
theorem did_stage {d : Auth.Draw} {db db' : Auth.Db A.lower} {stage stage' : Auth.Stage}
    (h : Auth.Did A C d db stage db' (.stage stage')) (tokenID : String) (userID : Uuid)
    (expires : Int) : stage' ≠ .revoke tokenID userID expires := by
  cases h <;> simp

/-- **Every step keeps the payloads honest.** -/
theorem honest_step (hvouched : Vouched L A C due) (s : Auth.State A) (a : Auth.Action)
    (s' : Auth.State A) (hs : Honest due s) (h : Auth.step A C s a = some s') : Honest due s' := by
  cases a with
  | arrive d r =>
    have harrived := Auth.arrive_arrived A C d r
    dsimp only [Auth.step] at h
    cases harrive : Auth.arrive A C d r with
    | answer response =>
      rw [harrive] at h
      exact Option.some.inj h ▸ hs
    | stage stage =>
      rw [harrive] at h harrived
      obtain rfl := Option.some.inj h
      refine ⟨hs.rows, fun o ho tokenID userID expires hstage => ?_⟩
      rcases List.mem_append.mp ho with ho | ho
      · exact hs.opened o ho tokenID userID expires hstage
      · obtain rfl := List.mem_singleton.mp ho
        obtain rfl : stage = _ := hstage
        exact arrived_honest hvouched harrived
  | proceed i d =>
    obtain ⟨o, ho, rfl⟩ := Auth.step_proceed h
    have hdid := Auth.proceed_did A C d s.db o.stage
    refine ⟨fun row hrow => ?_, fun o' ho' tokenID userID expires hstage => ?_⟩
    · rcases did_rows hdid hrow with hrow | ⟨tokenID, userID, expires, hstage, hpayload⟩
      · exact hs.rows row hrow
      · obtain ⟨k, rfl, rfl⟩ :=
          hs.opened o (List.mem_of_getElem? ho) tokenID userID expires hstage
        exact ⟨⟨k, userID⟩, hpayload⟩
    · dsimp only [Auth.State.moved] at ho'
      split at ho'
      · exact hs.opened o' (List.mem_of_mem_eraseIdx ho') tokenID userID expires hstage
      next stage' hnext =>
        rcases List.mem_or_eq_of_mem_set ho' with ho' | rfl
        · exact hs.opened o' ho' tokenID userID expires hstage
        · rw [hnext] at hdid
          exact absurd hstage (did_stage hdid tokenID userID expires)

variable (due) in
/-- The events of an outbox. -/
def Tells (db : Auth.Db A.lower) (events : List Event) : Prop :=
  db.outbox_events.1.map (fun row => (row.id, row.payload))
    = events.map fun e => (e.id, e.revocation.payload due)

/-- **The outbox is a list of revocations.** -/
theorem exists_tells (hvouched : Vouched L A C due) {acts : List Auth.Action} {t : Auth.State A}
    (hrun : run (Auth.step A C) (Auth.init A) acts = some t) : ∃ events, Tells due t.db events := by
  have hhonest : Honest due t := run_inv (honest_step hvouched) honest_init hrun
  have hrange : t.db.outbox_events.1.map (fun row => (row.id, row.payload)) ∈
      Set.range (List.map fun e : Event => (e.id, e.revocation.payload due)) := by
    rw [Set.range_list_map]
    intro x hx
    obtain ⟨row, hrow, rfl⟩ := List.mem_map.mp hx
    obtain ⟨r, hr⟩ := hhonest.rows row hrow
    exact ⟨⟨row.id, r⟩, by rw [hr]⟩
  obtain ⟨events, hevents⟩ := hrange
  exact ⟨events, hevents.symm⟩

/-- The events have the ids of the rows. -/
theorem Tells.ids {db : Auth.Db A.lower} {events : List Event} (h : Tells due db events) :
    (events.map Event.id).Nodup := by
  have hids := congrArg (List.map Prod.fst) h
  rw [List.map_map, List.map_map] at hids
  exact (congrArg List.Nodup hids).mp db.outbox_events.2

/-- They revoke the tokens that the rows name. -/
theorem Tells.revoked_iff {db : Auth.Db A.lower} {events : List Event} (h : Tells due db events)
    (k : String) : Revoked events k ↔ k ∈ named db := by
  have hnamed := congrArg (List.map fun x => tokenIn x.2) h
  rw [List.map_map, List.map_map] at hnamed
  have htokens : named db = events.map fun e => e.revocation.token.1 := hnamed
  rw [htokens, List.mem_map]
  rfl

end AuthService

/-! ## Both doors -/

section Doors

variable {A : Auth.Libs} {C : Auth.Config} {due : String → Rfc3339.Instant} {σ : Type} [Zero σ]
  {R : Related.Libs σ} {events : List Event} {time : Int}

/-- Who presents a token presents it before it is due. -/
theorem live_of_presents (hvouched : Vouched L A C due) {now : Int} {header : String}
    {claims : TokenClaims} (h : Presents L now header claims) :
    (∃ k : Uuid, claims.jti = k.1) ∧ now < (due claims.jti).1 := by
  obtain ⟨claims', hparse, hours, hid, hexp⟩ := hvouched.same _ _ h.verified
  obtain ⟨k, e, hk, he, hdue⟩ := hvouched.issued _ _ hparse hours
  have hjti : claims.jti = k.1 := hid.trans hk
  obtain rfl : claims.exp = e := Option.some.inj (hexp.symm.trans he)
  refine ⟨⟨k, hjti⟩, ?_⟩
  rw [hjti, hdue]
  exact h.inDate.exp

variable (L due) in
/-- The posts service, once it has been handed the events. -/
theorem posts_lists {steps : List (Int × PostsStep)} (hsteps : PostsReceives events steps)
    (horder : (steps.map Prod.fst).Pairwise (· ≤ ·)) (htime : ∀ t ∈ steps.map Prod.fst, t ≤ time) :
    ∃ rows, postsRun due L ⟨[], by decide⟩ steps = some rows ∧
      Lists due (Revoked events) time rows.1 := by
  obtain ⟨start, hstart, hinOrder⟩ := exists_inOrder horder htime
  have hnone : Lists due (fun _ => False) start [] := tracks_nil
  obtain ⟨rows, hrun, hrows⟩ := postsRun_spec L ⟨[], by decide⟩ hnone hinOrder hstart
    fun x hx => htime x.1 (List.mem_map_of_mem hx)
  refine ⟨rows, hrun, hrows.congr fun k => ?_⟩
  rw [false_or]
  constructor
  · rintro ⟨x, hx, e, he, rfl⟩
    exact ⟨e, (hsteps e).mpr ⟨x.1, he ▸ hx⟩, rfl⟩
  · rintro ⟨e, he, rfl⟩
    obtain ⟨now, hnow⟩ := (hsteps e).mp he
    exact ⟨_, hnow, e, rfl, rfl⟩

variable (due) in
/-- The related service, once it has been handed the events. -/
theorem related_lists (hreads : ReadsRfc3339 R) (hids : (events.map Event.id).Nodup)
    {deliveries : List Delivery} (hdeliveries : RelatedReceives events deliveries)
    (horder : (deliveries.map Delivery.now).Pairwise (· ≤ ·))
    (htime : ∀ t ∈ deliveries.map Delivery.now, t ≤ time) :
    RelatedLists due (Revoked events) time (relatedRun due R (Related.Db.empty σ) deliveries) := by
  obtain ⟨start, hstart, hinOrder⟩ := exists_inOrder horder htime
  have hfollows : Follows due events (fun _ => False) start (Related.Db.empty σ) := by
    refine ⟨tracks_nil, fun e he hp => ?_⟩
    obtain ⟨x, hx, -⟩ := hp
    cases hx
  have hrelated := relatedRun_spec hreads hids hfollows
    (fun d hd => (hdeliveries d.event).mpr ⟨d, hd, rfl⟩) hinOrder hstart
    fun d hd => htime d.now (List.mem_map_of_mem hd)
  refine Tracks.congr hrelated fun k => ?_
  rw [false_or]
  constructor
  · rintro ⟨d, hd, rfl⟩
    exact ⟨d.event, (hdeliveries d.event).mpr ⟨d, hd, rfl⟩, rfl⟩
  · rintro ⟨e, he, rfl⟩
    obtain ⟨d, hd, rfl⟩ := (hdeliveries e).mp he
    exact ⟨d, hd, rfl⟩

/-- **A token that has been revoked is turned away at both doors, and no other**: whatever
    interleaves in the auth service and in whatever order the events of its outbox come to the two
    consumers, a header gets a caller in at either service exactly when its token verifies, is in
    date and no revocation of it has been answered 202. -/
theorem revoked_everywhere (hvouched : Vouched L A C due) (hreads : ReadsRfc3339 R)
    {acts : List Auth.Action} {t : Auth.State A}
    (hrun : run (Auth.step A C) (Auth.init A) acts = some t) :
    ∃ events, Tells due t.db events ∧ ∀ (steps : List (Int × PostsStep)) (deliveries : List Delivery)
      (now : Int), PostsReceives events steps → (steps.map Prod.fst).Pairwise (· ≤ ·) →
      (∀ t ∈ steps.map Prod.fst, t ≤ now) → RelatedReceives events deliveries →
      (deliveries.map Delivery.now).Pairwise (· ≤ ·) →
      (∀ t ∈ deliveries.map Delivery.now, t ≤ now) →
      ∃ rows, postsRun due L ⟨[], by decide⟩ steps = some rows ∧ ∀ header,
        (∀ user, authenticate L now rows.1 header = .ok (some user) ↔ ∃ claims,
          Presents L now header claims ∧ claims.jti ∉ revoked A C acts ∧
            user = ⟨claims.sub, claims.email, claims.jti⟩) ∧
        ∀ caller, requiresAuth L now
            (relatedRun due R (Related.Db.empty σ) deliveries).revoked_tokens.1 header = .ok caller ↔
          ∃ claims, Presents L now header claims ∧ claims.jti ∉ revoked A C acts ∧
            caller = ⟨claims.sub, claims.email⟩ := by
  obtain ⟨events, htells⟩ := exists_tells hvouched hrun
  refine ⟨events, htells, ?_⟩
  intro steps deliveries now hsteps horder htime hdeliveries horder' htime'
  obtain ⟨rows, hposts, hrows⟩ := posts_lists L due hsteps horder htime
  have hrelated := related_lists due hreads htells.ids hdeliveries horder' htime'
  have hrevoked : ∀ k, Revoked events k ↔ k ∈ revoked A C acts := by
    intro k
    rw [htells.revoked_iff, named_run hrun]
  refine ⟨rows, hposts, fun header => ⟨fun user => ?_, fun caller => ?_⟩⟩
  · rw [authenticate_eq_some_iff hvouched.empty]
    refine exists_congr fun claims => and_congr_right fun hpresents => and_congr_left fun _ => ?_
    obtain ⟨⟨k, hk⟩, hlive⟩ := live_of_presents hvouched hpresents
    rw [← hrevoked, ← hrows.listed_iff hlive, hk, ← isRevoked_iff, Bool.not_eq_true]
  · rw [requiresAuth_eq_ok_iff]
    refine exists_congr fun claims => and_congr_right fun hpresents => and_congr_left fun _ => ?_
    obtain ⟨-, hlive⟩ := live_of_presents hvouched hpresents
    rw [← hrevoked, ← Tracks.listed_iff hrelated hlive]

end Doors

/-! ## A token that is revoked -/

/-- Libraries that know the one token of the run by its id. -/
def doorLibs : Posts.Denylist.Libs :=
  { plainLibs with
    verify := fun token => if token = tokenID.1 then .ok plainClaims
      else .error (.pyJwtError "Not enough segments") }

theorem doorLibs_vouched : Vouched doorLibs Auth.plainLibs Auth.plainConfig plainDue where
  issued token claims hparse _ := by
    dsimp only [Auth.plainLibs] at hparse
    split at hparse
    · obtain rfl := Option.some.inj hparse
      exact ⟨tokenID, 900, by decide +kernel, by decide +kernel, rfl⟩
    · cases hparse
  same token claims h := by
    have hverify := h.1
    dsimp only [doorLibs] at hverify
    split at hverify
    next htoken =>
      obtain rfl := Except.ok.inj hverify
      exact ⟨Auth.aliceClaims, if_pos htoken, by decide +kernel, by decide +kernel, by decide +kernel⟩
    · cases hverify
  empty claims h := by
    have hverify := h.1
    dsimp only [doorLibs] at hverify
    split at hverify
    next htoken => exact absurd htoken.symm (uuid_ne_empty tokenID)
    · cases hverify

/-- The run in which the token is revoked while a refresh is on its way. -/
theorem revoked_everywhere_overtaken : ∃ t,
    run (Auth.step Auth.plainLibs Auth.plainConfig) (Auth.init Auth.plainLibs) Auth.overtakenRefresh
      = some t ∧ ∃ events, Tells plainDue t.db events ∧
    ∀ (steps : List (Int × PostsStep)) (deliveries : List Delivery) (now : Int),
      PostsReceives events steps → (steps.map Prod.fst).Pairwise (· ≤ ·) →
      (∀ t ∈ steps.map Prod.fst, t ≤ now) → RelatedReceives events deliveries →
      (deliveries.map Delivery.now).Pairwise (· ≤ ·) →
      (∀ t ∈ deliveries.map Delivery.now, t ≤ now) →
      ∃ rows, postsRun plainDue doorLibs ⟨[], by decide⟩ steps = some rows ∧ ∀ header,
        (∀ user, authenticate doorLibs now rows.1 header = .ok (some user) ↔ ∃ claims,
          Presents doorLibs now header claims ∧
            claims.jti ∉ revoked Auth.plainLibs Auth.plainConfig Auth.overtakenRefresh ∧
            user = ⟨claims.sub, claims.email, claims.jti⟩) ∧
        ∀ caller, requiresAuth doorLibs now
            (relatedRun plainDue readingLibs (Related.Db.empty ℚ) deliveries).revoked_tokens.1 header
              = .ok caller ↔
          ∃ claims, Presents doorLibs now header claims ∧
            claims.jti ∉ revoked Auth.plainLibs Auth.plainConfig Auth.overtakenRefresh ∧
            caller = ⟨claims.sub, claims.email⟩ := by
  have hsome : (run (Auth.step Auth.plainLibs Auth.plainConfig) (Auth.init Auth.plainLibs)
      Auth.overtakenRefresh).isSome := by decide +kernel
  obtain ⟨t, ht⟩ := Option.isSome_iff_exists.mp hsome
  exact ⟨t, ht, revoked_everywhere doorLibs_vouched (fun s d h => h) ht⟩

end DjangoFlaskKafka.Sync.Guards
