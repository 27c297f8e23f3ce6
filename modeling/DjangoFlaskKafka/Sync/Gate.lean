/-
  Gate — who writes to the posts service.

  1. **Program** — a request passes `JWTAuthentication` and `IsAuthenticatedOrReadOnly` before its
     view runs.  It is decoded (`arrive`); its token is looked up and its method permitted
     (`lookup`); then it is what it is in `Sync.Races` (`begin`, `finish`).  Meanwhile time passes,
     the revocation consumer applies events, and the denylist is purged.

  2. **Law** — `gated`: the gate is nothing but a gate.  What goes on behind it is a run of
     `Sync.Races`, so what holds there holds here; and each row of the outbox was written for a token
     that had been verified and in date and, when it was looked up, not on the denylist.
     `cut_off`: once a revocation of a token has been applied, and none of its requests has been
     let in and is still to finish, it writes nothing any more.

  3. **The crux** — the row of a token stays on the denylist until the token expires, whoever applies
     what and whenever it is purged (`Lists`), so a token that is looked up before it expires is
     found.  One that expires between its decoding and its lookup may not be, which is the
     reason for `InTime`; `Posts.Purge` has the run in which that lets a revoked token in.
-/
import DjangoFlaskKafka.Sync.Guards
import DjangoFlaskKafka.Sync.Races
import DjangoFlaskKafka.Posts.Purge
import DjangoFlaskKafka.Posts.Isolation

namespace DjangoFlaskKafka.Sync.Gate

open Python Postgres Machine Posts.Denylist Sync.Guards

/-! ## The program -/

/-- A request, by whether its method is one of the `SAFE_METHODS`. -/
inductive Ask where
  | read
  | write (request : Posts.Request)

/-- A request that has been decoded; without a bearer token there are no claims. -/
structure Decoded where
  claims : Option TokenClaims
  ask : Ask

/-- A write request, or its call, of the bearer of a token. -/
structure By (α : Type) where
  token : String
  what : α

/-- The service, its denylist and the requests at their stages.  `writers` records the tokens for which
    the rows of the outbox were written, and is read by no step. -/
structure State where
  now : Int
  denied : RevokedTable
  db : Posts.Db
  waiting : List Decoded
  admitted : List (By Posts.Request)
  opened : List (By Posts.Call)
  writers : List String

/-- Nothing has happened yet. -/
def init : State where
  now := 0
  denied := ⟨[], revokedConstraints_nil⟩
  db := .empty
  waiting := []
  admitted := []
  opened := []
  writers := []

/-- What can happen at the door, behind it, and to the clock. -/
inductive Action where
  | tick (elapsed : Nat)
  | revoke (r : Revocation)
  | purge
  | arrive (header : String) (ask : Ask)
  | lookup (i : Nat)
  | begin (i : Nat)
  | finish (i : Nat) (id : Uuid)

/-- The rest of `authenticate`. -/
def lookedUp (rows : List RevokedToken) : Option TokenClaims → Except String (Option TokenClaims)
  | none => .ok none
  | some claims => (checkDenylist rows claims).map some

/-- `IsAuthenticatedOrReadOnly`, and the write that goes on to its view. -/
def permitted : Ask → Option TokenClaims → Except String (Option (By Posts.Request))
  | .read, _ => .ok none
  | .write request, some claims => .ok (some ⟨claims.jti, request⟩)
  | .write _, none => .error "Authentication credentials were not provided."

/-- What happens to a decoded request; an error is the detail of a 401. -/
def letThrough (rows : List RevokedToken) (x : Decoded) : Except String (Option (By Posts.Request)) :=
  lookedUp rows x.claims >>= permitted x.ask

/-- The transaction has been committed. -/
def landed : Posts.Response → Bool
  | .serverError => false
  | _ => true

variable (L : Posts.Denylist.Libs) (due : String → Rfc3339.Instant)

/-- One step. -/
def step (s : State) : Action → Option State
  | .tick elapsed => some { s with now := s.now + elapsed }
  | .revoke r =>
    match Posts.Denylist.apply L s.denied (r.payload due) with
    | none => some s
    | some rows => some { s with denied := rows }
  | .purge => some { s with denied := purgeExpiredRevocations s.now s.denied }
  | .arrive header ask =>
    match decode L s.now header with
    | .ok claims => some { s with waiting := s.waiting ++ [⟨claims, ask⟩] }
    | .error _ => some s
  | .lookup i =>
    s.waiting[i]?.map fun x =>
      match letThrough s.denied.1 x with
      | .ok (some request) =>
        { s with waiting := s.waiting.eraseIdx i, admitted := s.admitted ++ [request] }
      | _ => { s with waiting := s.waiting.eraseIdx i }
  | .begin i =>
    s.admitted[i]?.map fun x =>
      match Posts.begin s.db.posts.1 x.what with
      | .ok call =>
        { s with admitted := s.admitted.eraseIdx i, opened := s.opened ++ [⟨x.token, call⟩] }
      | .error _ => { s with admitted := s.admitted.eraseIdx i }
  | .finish i id =>
    s.opened[i]?.map fun x =>
      let finished := Posts.finish s.now id s.db x.what
      { s with
        db := finished.1, opened := s.opened.eraseIdx i,
        writers := if landed finished.2 then s.writers ++ [x.token] else s.writers }

/-! ## The law -/

/-- The service behind the gate. -/
def State.inner (s : State) : Races.State := ⟨s.db, s.opened.map By.what⟩

/-- What a step does behind the gate. -/
def inside (s : State) : Action → Option Races.Action
  | .begin i => s.admitted[i]?.map fun x => .begin x.what
  | .finish i id => some (.finish i s.now id)
  | _ => none

/-- The claims were verified, and in date, when a request brought them. -/
def Borne (now : Int) (claims : TokenClaims) : Prop :=
  ∃ header, ∃ arrived ≤ now, Presents L arrived header claims

/-- In the run, a write of the token's bearer was let in: its claims had been verified, and they were not on
    the denylist when they were looked up. -/
def LetIn (acts : List Action) (token : String) : Prop :=
  ∃ before i after s claims request, acts = before ++ .lookup i :: after ∧
    run (step L due) init before = some s ∧ s.waiting[i]? = some ⟨some claims, .write request⟩ ∧
    claims.jti = token ∧ isRevoked s.denied.1 token = false ∧ Borne L s.now claims

/-- A token is looked up before it expires. -/
def InTime (s : State) : Action → Prop
  | .lookup i => ∀ x ∈ s.waiting[i]?, ∀ claims ∈ x.claims, s.now < claims.exp * Go.second
  | _ => True

instance (s : State) : ∀ a, Decidable (InTime s a)
  | .lookup i => inferInstanceAs (Decidable (∀ x ∈ s.waiting[i]?, ∀ claims ∈ x.claims, _))
  | .tick _ | .revoke _ | .purge | .arrive _ _ | .begin _ | .finish _ _ => .isTrue trivial

/-! ## What a step does -/

variable {L due}

/-- What is let in is a write of a token that is not on the denylist. -/
theorem letThrough_eq_some {rows : List RevokedToken} {x : Decoded} {request : By Posts.Request}
    (h : letThrough rows x = .ok (some request)) :
    ∃ claims, x = ⟨some claims, .write request.what⟩ ∧ claims.jti = request.token ∧
      isRevoked rows request.token = false := by
  obtain ⟨claims, ask⟩ := x
  obtain ⟨user, huser, h⟩ := bind_eq_ok.mp h
  cases ask with
  | read => cases h
  | write request' =>
    cases user with
    | none => cases h
    | some user =>
      obtain rfl := Option.some.inj (Except.ok.inj h)
      cases claims with
      | none => cases huser
      | some claims =>
        have huser : (checkDenylist rows claims).map some = .ok (some user) := huser
        unfold checkDenylist at huser
        split at huser
        · cases huser
        next hlisted =>
          obtain rfl : claims = user := Option.some.inj (Except.ok.inj huser)
          exact ⟨claims, rfl, rfl, Bool.eq_false_iff.mpr hlisted⟩

variable (L due) in
/-- What can be done. -/
inductive Did (s : State) : Action → State → Prop where
  | ticked (elapsed : Nat) : Did s (.tick elapsed) { s with now := s.now + elapsed }
  | revoked {r : Revocation} {rows : RevokedTable}
    (happly : Posts.Denylist.apply L s.denied (r.payload due) = some rows) :
    Did s (.revoke r) { s with denied := rows }
  | unapplied {r : Revocation} (happly : Posts.Denylist.apply L s.denied (r.payload due) = none) :
    Did s (.revoke r) s
  | purged : Did s .purge { s with denied := purgeExpiredRevocations s.now s.denied }
  | arrived {header : String} {ask : Ask} {claims : Option TokenClaims}
    (hborne : ∀ c ∈ claims, Presents L s.now header c) :
    Did s (.arrive header ask) { s with waiting := s.waiting ++ [⟨claims, ask⟩] }
  | turnedAway (header : String) (ask : Ask) : Did s (.arrive header ask) s
  | letIn {i : Nat} {claims : TokenClaims} {request : Posts.Request}
    (hx : s.waiting[i]? = some ⟨some claims, .write request⟩)
    (hlisted : isRevoked s.denied.1 claims.jti = false) :
    Did s (.lookup i) { s with
      waiting := s.waiting.eraseIdx i, admitted := s.admitted ++ [⟨claims.jti, request⟩] }
  | passed {i : Nat} {x : Decoded} (hx : s.waiting[i]? = some x) :
    Did s (.lookup i) { s with waiting := s.waiting.eraseIdx i }
  | began {i : Nat} {x : By Posts.Request} {call : Posts.Call} (hx : s.admitted[i]? = some x)
    (hcall : Posts.begin s.db.posts.1 x.what = .ok call) :
    Did s (.begin i) { s with
      admitted := s.admitted.eraseIdx i, opened := s.opened ++ [⟨x.token, call⟩] }
  | refused {i : Nat} {x : By Posts.Request} {response : Posts.Response}
    (hx : s.admitted[i]? = some x) (hcall : Posts.begin s.db.posts.1 x.what = .error response) :
    Did s (.begin i) { s with admitted := s.admitted.eraseIdx i }
  | rolledBack {i : Nat} {id : Uuid} {x : By Posts.Call} (hx : s.opened[i]? = some x)
    (houtbox : (Posts.finish s.now id s.db x.what).1.outbox = s.db.outbox) :
    Did s (.finish i id) { s with
      db := (Posts.finish s.now id s.db x.what).1, opened := s.opened.eraseIdx i }
  | wrote {i : Nat} {id : Uuid} {x : By Posts.Call} (hx : s.opened[i]? = some x)
    (houtbox : (Posts.finish s.now id s.db x.what).1.outbox.1.length = s.db.outbox.1.length + 1) :
    Did s (.finish i id) { s with
      db := (Posts.finish s.now id s.db x.what).1, opened := s.opened.eraseIdx i,
      writers := s.writers ++ [x.token] }

/-- **Every step does one of these.** -/
theorem did_of_step {s s' : State} {a : Action} (h : step L due s a = some s') :
    Did L due s a s' := by
  cases a with
  | tick elapsed => exact Option.some.inj h ▸ .ticked elapsed
  | revoke r =>
    dsimp only [step] at h
    split at h
    next hnone => exact Option.some.inj h ▸ .unapplied hnone
    next rows hrows => exact Option.some.inj h ▸ .revoked hrows
  | purge => exact Option.some.inj h ▸ .purged
  | arrive header ask =>
    dsimp only [step] at h
    split at h
    next claims hclaims =>
      refine Option.some.inj h ▸ .arrived fun c hc => ?_
      obtain rfl := Option.mem_def.mp hc
      exact presents_of_decode hclaims
    next => exact Option.some.inj h ▸ .turnedAway header ask
  | lookup i =>
    obtain ⟨x, hx, rfl⟩ := Option.map_eq_some_iff.mp h
    split
    next request hrequest =>
      obtain ⟨claims, rfl, htoken, hlisted⟩ := letThrough_eq_some hrequest
      rw [← htoken] at hlisted
      obtain ⟨token, what⟩ := request
      obtain rfl : claims.jti = token := htoken
      exact .letIn hx hlisted
    next => exact .passed hx
  | begin i =>
    obtain ⟨x, hx, rfl⟩ := Option.map_eq_some_iff.mp h
    split
    next call hcall => exact .began hx hcall
    next response hresponse => exact .refused hx hresponse
  | finish i id =>
    obtain ⟨x, hx, rfl⟩ := Option.map_eq_some_iff.mp h
    rcases (Posts.finish_cases s.now id s.db x.what).2 with ⟨-, houtbox, hresponse⟩ |
      ⟨-, houtbox, hresponse⟩
    · dsimp only
      rw [hresponse]
      exact .rolledBack hx houtbox
    · have hlanded : landed (Posts.finish s.now id s.db x.what).2 = true := by
        rw [hresponse]
        cases x.what <;> rfl
      dsimp only
      rw [hlanded]
      exact .wrote hx (by rw [houtbox, List.length_append, List.length_singleton])

/-! ## The service behind the gate -/

/-- A step is a step of the service behind the gate, or none. -/
theorem inner_step (s : State) (a : Action) (s' : State) (h : step L due s a = some s') :
    (inside s a).elim (some s.inner) (Races.step s.inner) = some s'.inner := by
  have hbegin : ∀ {i} {x : By Posts.Request}, s.admitted[i]? = some x →
      inside s (.begin i) = some (.begin x.what) := by
    intro i x hx
    show s.admitted[i]?.map _ = _
    rw [hx, Option.map_some]
  have hfinish : ∀ {i now id} {x : By Posts.Call}, s.opened[i]? = some x →
      Races.step s.inner (.finish i now id)
        = some ⟨(Posts.finish now id s.db x.what).1, (s.opened.eraseIdx i).map By.what⟩ := by
    intro i now id x hx
    have hcall : s.inner.opened[i]? = some x.what := by
      show (s.opened.map By.what)[i]? = _
      rw [List.getElem?_map, hx, Option.map_some]
    unfold Races.step
    dsimp only
    rw [hcall, ← List.eraseIdx_map]
    rfl
  cases did_of_step h with
  | began hx hcall =>
    rw [hbegin hx, Option.elim_some]
    unfold Races.step State.inner
    dsimp only
    rw [hcall, List.map_append]
    rfl
  | refused hx hcall =>
    rw [hbegin hx, Option.elim_some]
    unfold Races.step State.inner
    dsimp only
    rw [hcall]
  | rolledBack hx houtbox => exact hfinish hx
  | wrote hx houtbox => exact hfinish hx
  | _ => rfl

/-! ## The denylist and the requests that wait -/

/-- The token that an action revokes. -/
def Tells : Action → String → Prop
  | .revoke r, k => r.token.1 = k
  | _, _ => False

/-- The denylist has the tokens told that have not expired, and the requests that wait bear what
    they were decoded to bear. -/
structure Sound (L : Posts.Denylist.Libs) (due : String → Rfc3339.Instant) (told : String → Prop)
    (s : State) : Prop where
  lists : Lists due told s.now s.denied.1
  borne : ∀ x ∈ s.waiting, ∀ claims ∈ x.claims, Borne L s.now claims

/-- A token that was in date once stays borne. -/
theorem Borne.later {now now' : Int} {claims : TokenClaims} (h : Borne L now claims)
    (hle : now ≤ now') : Borne L now' claims := by
  obtain ⟨header, arrived, harrived, hpresents⟩ := h
  exact ⟨header, arrived, harrived.trans hle, hpresents⟩

theorem sound_init : Sound L due (fun _ => False) init where
  lists := Expiry.tracks_nil
  borne := by simp [init]

/-- **Every step keeps it.** -/
theorem sound_step {told : String → Prop} {s s' : State} {a : Action} (hs : Sound L due told s)
    (h : step L due s a = some s') : Sound L due (fun k => told k ∨ Tells a k) s' := by
  have hlists : ∀ {now rows}, Lists due told now rows → (∀ k, ¬ Tells a k) →
      Lists due (fun k => told k ∨ Tells a k) now rows :=
    fun h hnone => h.congr fun k => (or_iff_left (hnone k)).symm
  cases did_of_step h with
  | ticked elapsed =>
    have hle : s.now ≤ s.now + elapsed := by omega
    exact ⟨hlists (hs.lists.later hle) fun k => id, fun x hx c hc => (hs.borne x hx c hc).later hle⟩
  | @revoked r rows happly =>
    obtain ⟨rows', happly', hrows⟩ := hs.lists.apply_payload L r
    obtain rfl := Option.some.inj (happly.symm.trans happly')
    refine ⟨?_, hs.borne⟩
    rw [show rows.1 = _ from hrows]
    exact (hs.lists.upsert r).congr fun k => or_congr_right eq_comm
  | @unapplied r happly =>
    obtain ⟨rows, happly', -⟩ := hs.lists.apply_payload L r
    cases happly.symm.trans happly'
  | purged => exact ⟨hlists hs.lists.purge fun k => id, hs.borne⟩
  | @arrived header ask claims hborne =>
    refine ⟨hlists hs.lists fun k => id, fun x hx c hc => ?_⟩
    rcases List.mem_append.mp hx with hx | hx
    · exact hs.borne x hx c hc
    · obtain rfl := List.mem_singleton.mp hx
      exact ⟨header, s.now, le_rfl, hborne c hc⟩
  | turnedAway header ask => exact ⟨hlists hs.lists fun k => id, hs.borne⟩
  | letIn hx hlisted =>
    exact ⟨hlists hs.lists fun k => id, fun x hx => hs.borne x (List.mem_of_mem_eraseIdx hx)⟩
  | passed hx =>
    exact ⟨hlists hs.lists fun k => id, fun x hx => hs.borne x (List.mem_of_mem_eraseIdx hx)⟩
  | began hx hcall => exact ⟨hlists hs.lists fun k => id, hs.borne⟩
  | refused hx hcall => exact ⟨hlists hs.lists fun k => id, hs.borne⟩
  | rolledBack hx houtbox => exact ⟨hlists hs.lists fun k => id, hs.borne⟩
  | wrote hx houtbox => exact ⟨hlists hs.lists fun k => id, hs.borne⟩

/-- So does every run. -/
theorem sound_run {told : String → Prop} {s t : State} {acts : List Action} (hs : Sound L due told s)
    (hrun : run (step L due) s acts = some t) :
    Sound L due (fun k => told k ∨ ∃ a ∈ acts, Tells a k) t := by
  induction acts generalizing told s with
  | nil =>
    obtain rfl := Option.some.inj hrun
    exact ⟨hs.lists.congr fun k => by simp, hs.borne⟩
  | cons a acts ih =>
    obtain ⟨s', hstep, hrun'⟩ := run_cons_eq_some hrun
    have ht := ih (sound_step hs hstep) hrun'
    refine ⟨ht.lists.congr fun k => ?_, ht.borne⟩
    rw [List.exists_mem_cons_iff, or_assoc]

/-! ## Who has been let in -/

/-- Who was let in stays let in. -/
theorem LetIn.append {acts : List Action} {token : String} (h : LetIn L due acts token) (a : Action) :
    LetIn L due (acts ++ [a]) token := by
  obtain ⟨before, i, after, s, claims, request, rfl, h⟩ := h
  exact ⟨before, i, after ++ [a], s, claims, request, by simp, h⟩

/-- All that is past its lookup, and all that has been written, was let in. -/
structure Past (L : Posts.Denylist.Libs) (due : String → Rfc3339.Instant) (acts : List Action)
    (s : State) : Prop where
  admitted : ∀ x ∈ s.admitted, LetIn L due acts x.token
  opened : ∀ x ∈ s.opened, LetIn L due acts x.token
  writers : ∀ token ∈ s.writers, LetIn L due acts token
  length : s.writers.length = s.db.outbox.1.length

theorem past_step {acts : List Action} {s s' : State} {a : Action}
    (hrun : run (step L due) init acts = some s) (hs : Past L due acts s)
    (h : step L due s a = some s') : Past L due (acts ++ [a]) s' := by
  have hadmitted : ∀ x ∈ s.admitted, LetIn L due (acts ++ [a]) x.token :=
    fun x hx => (hs.admitted x hx).append a
  have hopened : ∀ x ∈ s.opened, LetIn L due (acts ++ [a]) x.token :=
    fun x hx => (hs.opened x hx).append a
  have hwriters : ∀ token ∈ s.writers, LetIn L due (acts ++ [a]) token :=
    fun token htoken => (hs.writers token htoken).append a
  cases did_of_step h with
  | @letIn i claims request hx hlisted =>
    refine ⟨fun x hx' => ?_, hopened, hwriters, hs.length⟩
    rcases List.mem_append.mp hx' with hx' | hx'
    · exact hadmitted x hx'
    · obtain rfl := List.mem_singleton.mp hx'
      exact ⟨acts, i, [], s, claims, request, rfl, hrun, hx, rfl, hlisted,
        (sound_run sound_init hrun).borne _ (List.mem_of_getElem? hx) claims rfl⟩
  | began hx hcall =>
    refine ⟨fun x hx' => hadmitted x (List.mem_of_mem_eraseIdx hx'), fun x hx' => ?_, hwriters,
      hs.length⟩
    rcases List.mem_append.mp hx' with hx' | hx'
    · exact hopened x hx'
    · obtain rfl := List.mem_singleton.mp hx'
      exact hadmitted _ (List.mem_of_getElem? hx)
  | refused hx hcall =>
    exact ⟨fun x hx' => hadmitted x (List.mem_of_mem_eraseIdx hx'), hopened, hwriters, hs.length⟩
  | rolledBack hx houtbox =>
    refine ⟨hadmitted, fun x hx' => hopened x (List.mem_of_mem_eraseIdx hx'), hwriters, ?_⟩
    show s.writers.length = _
    rw [houtbox]
    exact hs.length
  | wrote hx houtbox =>
    refine ⟨hadmitted, fun x hx' => hopened x (List.mem_of_mem_eraseIdx hx'), fun token htoken => ?_, ?_⟩
    · rcases List.mem_append.mp htoken with htoken | htoken
      · exact hwriters token htoken
      · exact List.mem_singleton.mp htoken ▸ hopened _ (List.mem_of_getElem? hx)
    · rw [List.length_append, List.length_singleton, houtbox, hs.length]
  | _ => exact ⟨hadmitted, hopened, hwriters, hs.length⟩

/-- **The gate is nothing but a gate, and nobody gets around it.** -/
theorem gated {acts : List Action} {s : State} (hrun : run (step L due) init acts = some s) :
    run Races.step Races.init (outputs (step L due) inside init acts) = some s.inner ∧
      s.writers.length = s.db.outbox.1.length ∧ ∀ token ∈ s.writers, LetIn L due acts token := by
  have hpast : Past L due acts s := by
    induction acts using List.reverseRecOn generalizing s with
    | nil =>
      obtain rfl := Option.some.inj hrun
      exact ⟨by simp [init], by simp [init], by simp [init], rfl⟩
    | append_singleton acts a ih =>
      rw [run_append] at hrun
      obtain ⟨s', hrun', hlast⟩ := Option.bind_eq_some_iff.mp hrun
      obtain ⟨t, hstep, ht⟩ := run_cons_eq_some hlast
      obtain rfl := Option.some.inj ht
      exact past_step hrun' (ih hrun') hstep
  exact ⟨run_outputs inner_step hrun, hpast.length, hpast.writers⟩

/-- The bearer of the token writes a post. -/
def written : List Action :=
  [.arrive "Bearer t" (.write (.create (Posts.fieldsAt "a"))), .arrive "" .read, .lookup 1, .lookup 0,
    .begin 0, .finish 0 (sampleUuid 0)]

theorem gated_written : ∃ s, run (step plainLibs plainDue) init written = some s ∧
    s.writers = [tokenID.1] ∧
    run Races.step Races.init (outputs (step plainLibs plainDue) inside init written)
      = some s.inner ∧ s.writers.length = s.db.outbox.1.length ∧
      ∀ token ∈ s.writers, LetIn plainLibs plainDue written token := by
  have hwrote : (run (step plainLibs plainDue) init written).map State.writers
      = some [tokenID.1] := by decide +kernel
  obtain ⟨s, hs, hwriters⟩ := Option.map_eq_some_iff.mp hwrote
  exact ⟨s, hs, hwriters, gated hs⟩

/-! ## Who is not let in any more -/

/-- No request of the token's bearer is past its lookup and still to finish. -/
structure Quiet (token : Uuid) (s : State) : Prop where
  admitted : ∀ x ∈ s.admitted, x.token ≠ token.1
  opened : ∀ x ∈ s.opened, x.token ≠ token.1

/-- A token that has been told is not let in while it has not expired. -/
theorem jti_ne_of_letIn (hgenuine : Posts.Purge.Genuine L due) {told : String → Prop} {token : Uuid}
    (htold : told token.1) {s : State} (hs : Sound L due told s) {i : Nat} {claims : TokenClaims}
    {ask : Ask} (hx : s.waiting[i]? = some ⟨some claims, ask⟩) (hintime : InTime s (.lookup i))
    (hlisted : isRevoked s.denied.1 claims.jti = false) : claims.jti ≠ token.1 := by
  intro hjti
  obtain ⟨header, arrived, -, hpresents⟩ := hs.borne _ (List.mem_of_getElem? hx) claims rfl
  obtain ⟨-, hdue⟩ := hgenuine _ claims hpresents.verified
  have hlive : s.now < (due token.1).1 := by
    rw [← hjti, ← hdue]
    exact hintime _ hx claims rfl
  have hthere := (isRevoked_iff s.denied.1 token).mpr (hs.lists.kept token.1 htold hlive)
  rw [hjti, hthere] at hlisted
  cases hlisted

theorem quiet_step (hgenuine : Posts.Purge.Genuine L due) {told : String → Prop} {token : Uuid}
    (htold : told token.1) {s s' : State} {a : Action} (hs : Sound L due told s)
    (hquiet : Quiet token s) (hintime : InTime s a) (h : step L due s a = some s') :
    Quiet token s' ∧ ∃ more, s'.writers = s.writers ++ more ∧ token.1 ∉ more := by
  have hsame : ∃ more, s.writers = s.writers ++ more ∧ token.1 ∉ more :=
    ⟨[], (List.append_nil _).symm, List.not_mem_nil⟩
  cases did_of_step h with
  | @letIn i claims request hx hlisted =>
    refine ⟨⟨fun x hx' => ?_, hquiet.opened⟩, hsame⟩
    rcases List.mem_append.mp hx' with hx' | hx'
    · exact hquiet.admitted x hx'
    · obtain rfl := List.mem_singleton.mp hx'
      exact jti_ne_of_letIn hgenuine htold hs hx hintime hlisted
  | began hx hcall =>
    refine ⟨⟨fun x hx' => hquiet.admitted x (List.mem_of_mem_eraseIdx hx'), fun x hx' => ?_⟩, hsame⟩
    rcases List.mem_append.mp hx' with hx' | hx'
    · exact hquiet.opened x hx'
    · obtain rfl := List.mem_singleton.mp hx'
      exact hquiet.admitted _ (List.mem_of_getElem? hx)
  | refused hx hcall =>
    exact ⟨⟨fun x hx' => hquiet.admitted x (List.mem_of_mem_eraseIdx hx'), hquiet.opened⟩, hsame⟩
  | rolledBack hx houtbox =>
    exact ⟨⟨hquiet.admitted, fun x hx' => hquiet.opened x (List.mem_of_mem_eraseIdx hx')⟩, hsame⟩
  | wrote hx houtbox =>
    refine ⟨⟨hquiet.admitted, fun x hx' => hquiet.opened x (List.mem_of_mem_eraseIdx hx')⟩, _, rfl, ?_⟩
    rw [List.mem_singleton]
    exact (hquiet.opened _ (List.mem_of_getElem? hx)).symm
  | _ => exact ⟨⟨hquiet.admitted, hquiet.opened⟩, hsame⟩

/-- **A token that has been revoked writes nothing any more**, once what it has been let in for is
    over, as long as tokens get to their lookup before they expire. -/
theorem cut_off (hgenuine : Posts.Purge.Genuine L due) {acts : List Action} {s : State}
    (hrun : run (step L due) init acts = some s) {r : Revocation} (hrevoked : .revoke r ∈ acts)
    (hquiet : Quiet r.token s) {later : List Action} (hintime : Along (step L due) InTime s later)
    {t : State} (hlater : run (step L due) s later = some t) :
    ∃ more, t.writers = s.writers ++ more ∧ r.token.1 ∉ more := by
  let Revoked (s : State) := ∃ told : String → Prop, told r.token.1 ∧ Sound L due told s
  let Silent (s' : State) := Quiet r.token s' ∧ ∃ more, s'.writers = s.writers ++ more ∧ r.token.1 ∉ more
  have hrevoked : Revoked s := ⟨_, .inr ⟨_, hrevoked, rfl⟩, sound_run sound_init hrun⟩
  have hsilent : Throughout (step L due) Silent s later := by
    refine throughout_of_along (J := Revoked) (G := InTime) ?_ ?_ hrevoked
      ⟨hquiet, [], (List.append_nil _).symm, List.not_mem_nil⟩ hintime
    · rintro s' a s'' ⟨told, htold, hs'⟩ - hstep
      exact ⟨_, .inl htold, sound_step hs' hstep⟩
    · rintro s' a s'' ⟨told, htold, hs'⟩ ⟨hquiet', more, hmore, hnone⟩ ha hstep
      obtain ⟨hquiet'', more', hmore', hnone'⟩ := quiet_step hgenuine htold hs' hquiet' ha hstep
      refine ⟨hquiet'', more ++ more', ?_, fun hin => ?_⟩
      · rw [hmore', hmore, List.append_assoc]
      · exact (List.mem_append.mp hin).elim hnone hnone'
  exact (hsilent.last hlater).2

/-- The token is revoked, and its bearer comes back. -/
def revokedThen : List Action := written ++ [.revoke ⟨tokenID, sampleUuid 12⟩]

def comesBack : List Action :=
  [.purge, .tick 5, .arrive "Bearer t" (.write (.destroy "a")), .lookup 0, .purge]

theorem cut_off_comesBack : ∃ s t, run (step plainLibs plainDue) init revokedThen = some s ∧
    run (step plainLibs plainDue) s comesBack = some t ∧
      ∃ more, t.writers = s.writers ++ more ∧ tokenID.1 ∉ more := by
  have hsome : (run (step plainLibs plainDue) init revokedThen).isSome := by decide +kernel
  obtain ⟨s, hs⟩ := Option.isSome_iff_exists.mp hsome
  have hlater : ∀ s ∈ run (step plainLibs plainDue) init revokedThen,
      (s.admitted.all fun x => x.token ≠ tokenID.1) ∧ (s.opened.all fun x => x.token ≠ tokenID.1) ∧
        Along (step plainLibs plainDue) InTime s comesBack ∧
        (run (step plainLibs plainDue) s comesBack).isSome := by decide +kernel
  obtain ⟨hadmitted, hopened, hintime, hback⟩ := hlater s hs
  obtain ⟨t, ht⟩ := Option.isSome_iff_exists.mp hback
  have hquiet : Quiet tokenID s :=
    ⟨by simpa using hadmitted, by simpa using hopened⟩
  exact ⟨s, t, hs, ht, cut_off Posts.Purge.plain_genuine hs (r := ⟨tokenID, sampleUuid 12⟩)
    (List.mem_append_right written List.mem_cons_self) hquiet hintime ht⟩

end DjangoFlaskKafka.Sync.Gate
