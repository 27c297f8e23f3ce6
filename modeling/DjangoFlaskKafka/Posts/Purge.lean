/-
  Purge — whether a revoked token can come back once the denylist has been purged.

  1. **Program** — requests and the revocation consumer on one clock.  A request is decoded
     (`arrive`), and looks its token up later (`lookup`); the consumer applies the events of the
     partitions in order (`receive`), any earlier one again (`redeliver`), commits its positions,
     dies and starts again from what it has committed (`crash`), and purges.

  2. **Law** — `NeverReadmits`: no request is admitted whose token was revoked by an event that had
     been committed before the request started.

  3. **The crux** — the token is dated when it is decoded, and missed when it is looked up.  A
     token that expires in between may be purged in between, and the lookup finds nothing
     (`readmitted`).  That is the only way: the law holds exactly in the runs in which no such
     request looks its token up after a purge that it has let pass (`neverReadmits_iff`).
-/
import DjangoFlaskKafka.Posts.Denylist
import DjangoFlaskKafka.Lib.Machine
import Mathlib.Logic.Function.Basic

namespace DjangoFlaskKafka.Posts.Purge

open Python Postgres Denylist Machine

/-! ## The program -/

/-- What happens to the table. -/
inductive Change where
  | applied (token : Uuid)
  | purged (now : Int)
  deriving DecidableEq

/-- A request that has been decoded: the offsets committed and the changes made by then. -/
structure Request where
  claims : TokenClaims
  started : Nat → Nat
  since : Nat

/-- The topic, the consumer, the table and the requests.  `history` and the two last fields of a
    request record what has happened and are read by no step. -/
structure State where
  now : Int
  log : Nat → List Revocation
  position : Nat → Nat
  committed : Nat → Nat
  rows : RevokedTable
  waiting : List Request
  admitted : List Request
  history : List Change

/-- Nothing has happened yet. -/
def init : State where
  now := 0
  log _ := []
  position _ := 0
  committed _ := 0
  rows := ⟨[], by decide⟩
  waiting := []
  admitted := []
  history := []

/-- What can happen in the posts service, and the clock. -/
inductive Action where
  | tick (elapsed : Nat)
  | publish (partition : Nat) (r : Revocation)
  | receive (partition : Nat)
  | redeliver (partition offset : Nat)
  | commit
  | crash
  | purge
  | arrive (header : String)
  | lookup (request : Nat)

variable (L : Libs) (due : String → Rfc3339.Instant)

/-- The consumer starts again from the committed offsets. -/
def State.restart (s : State) : State := { s with position := s.committed }

/-- The consumer moves on in a partition. -/
def State.advance (s : State) (p : Nat) : State :=
  { s with position := Function.update s.position p (s.position p + 1) }

/-- `_apply` of an event; an exception ends the process. -/
def State.apply (s : State) (r : Revocation) : State :=
  match Denylist.apply L s.rows (r.payload due) with
  | none => s.restart
  | some rows => { s with rows := rows, history := s.history ++ [.applied r.token] }

/-- One step. -/
def step (s : State) : Action → Option State
  | .tick elapsed => some { s with now := s.now + elapsed }
  | .publish p r => some { s with log := Function.update s.log p (s.log p ++ [r]) }
  | .receive p =>
    (s.log p)[s.position p]?.map fun r => (s.advance p).apply L due r
  | .redeliver p i =>
    if i < s.position p then (s.log p)[i]?.map fun r => s.apply L due r else none
  | .commit => some { s with committed := s.position }
  | .crash => some s.restart
  | .purge =>
    some { s with
      rows := purgeExpiredRevocations s.now s.rows, history := s.history ++ [.purged s.now] }
  | .arrive header =>
    match decode L s.now header with
    | .ok (some claims) =>
      some { s with waiting := s.waiting ++ [⟨claims, s.committed, s.history.length⟩] }
    | _ => some s
  | .lookup i =>
    s.waiting[i]?.map fun x =>
      match checkDenylist s.rows.1 x.claims with
      | .ok _ => { s with waiting := s.waiting.eraseIdx i, admitted := s.admitted ++ [x] }
      | .error _ => { s with waiting := s.waiting.eraseIdx i }

/-! ## The law -/

/-- The token of the request was revoked by an event that had been committed when it started. -/
def State.Revoked (s : State) (x : Request) : Prop :=
  ∃ p i r, i < x.started p ∧ (s.log p)[i]? = some r ∧ r.token.1 = x.claims.jti

/-- No such request is admitted. -/
def NeverReadmits (s : State) : Prop := ∀ x ∈ s.admitted, ¬ s.Revoked x

/-- Among the changes there is a purge that took the token, which has not been applied again. -/
def Swept (token : String) (changes : List Change) : Bool :=
  changes.foldl (fun swept c => match c with
    | .applied k => if k.1 = token then false else swept
    | .purged now => swept || decide ((due token).1 ≤ now)) false

/-- A request with a revoked token that looks it up has let no purge of it pass since it was
    decoded. -/
def InTime (s : State) (a : Action) : Prop :=
  ∀ i x, a = .lookup i → s.waiting[i]? = some x → s.Revoked x →
    ¬ Swept due x.claims.jti (s.history.drop x.since)

/-- What the signature vouches for: the token is one that auth has issued, with an id of its own and
    the expiry that goes with it. -/
def Genuine : Prop :=
  ∀ token claims, Verifies L token claims →
    (∃ k : Uuid, claims.jti = k.1) ∧ claims.exp * Go.second = (due claims.jti).1

/-! ## What a change does to the table -/

/-- The denylist has a row of the token. -/
def Listed (rows : List RevokedToken) (token : String) : Prop :=
  ∃ row ∈ rows, row.token_id = token

section Changes

variable {L due}

/-- An application brings its token back, and a purge sweeps what is due. -/
theorem swept_append (token : String) (cs : List Change) (c : Change) :
    Swept due token (cs ++ [c]) = match c with
      | .applied k => if k.1 = token then false else Swept due token cs
      | .purged now => Swept due token cs || decide ((due token).1 ≤ now) :=
  List.foldl_append

/-- Applying a revocation lists its token, and no other. -/
theorem listed_applied {rows rows' : List RevokedToken} {r : Revocation} {token : String}
    {cs : List Change} (hrows : rows' = upsert ⟨r.token.1, r.user.1, (due r.token.1).1⟩ rows)
    (h : Listed rows token ↔ ¬ Swept due token cs) :
    Listed rows' token ↔ ¬ Swept due token (cs ++ [.applied r.token]) := by
  rw [hrows, swept_append]
  unfold Listed at h ⊢
  rw [listed_upsert_iff, h]
  by_cases hk : r.token.1 = token <;> simp [hk]

/-- A purge leaves what is not due yet. -/
theorem listed_purged {told : String → Prop} {now : Int} {rows : RevokedTable} {token : String}
    {cs : List Change} (hlists : Lists due told now rows.1)
    (h : Listed rows.1 token ↔ ¬ Swept due token cs) :
    Listed (purgeExpiredRevocations now rows).1 token ↔ ¬ Swept due token (cs ++ [.purged now]) := by
  rw [swept_append]
  unfold Listed at h ⊢
  unfold purgeExpiredRevocations
  rw [hlists.mem_purge_iff, h]
  simp

variable (L) in
/-- An event is always applied. -/
theorem apply_spec {told : String → Prop} {s : State} (hlists : Lists due told s.now s.rows.1)
    (r : Revocation) : ∃ rows : RevokedTable,
    s.apply L due r = { s with rows := rows, history := s.history ++ [.applied r.token] } ∧
      rows.1 = upsert ⟨r.token.1, r.user.1, (due r.token.1).1⟩ s.rows.1 := by
  obtain ⟨rows, happly, hrows⟩ := hlists.apply_payload L r
  refine ⟨rows, ?_, hrows⟩
  unfold State.apply
  rw [happly]

end Changes

/-! ## The invariant -/

/-- The tokens that have been applied. -/
def Told (history : List Change) (token : String) : Prop :=
  ∃ k : Uuid, .applied k ∈ history ∧ k.1 = token

/-- A change tells the revocations it applies. -/
theorem told_append (history : List Change) (c : Change) (token : String) :
    Told (history ++ [c]) token ↔ Told history token ∨ ∃ k : Uuid, c = .applied k ∧ k.1 = token := by
  unfold Told
  simp only [List.mem_append, List.mem_singleton]
  constructor
  · rintro ⟨k, hk | hk, rfl⟩
    · exact .inl ⟨k, hk, rfl⟩
    · exact .inr ⟨k, hk.symm, rfl⟩
  · rintro (⟨k, hk, rfl⟩ | ⟨k, rfl, rfl⟩)
    · exact ⟨k, .inl hk, rfl⟩
    · exact ⟨k, .inr rfl, rfl⟩

/-- A request on its way: if its token is revoked, the table lists it, unless a purge has swept it
    away since. -/
structure Waits (s : State) (x : Request) : Prop where
  since : x.since ≤ s.history.length
  id : ∃ k : Uuid, x.claims.jti = k.1
  listed : s.Revoked x →
    (Listed s.rows.1 x.claims.jti ↔ ¬ Swept due x.claims.jti (s.history.drop x.since))

/-- What holds of every state. -/
structure Sound (s : State) : Prop where
  lists : Lists due (Told s.history) s.now s.rows.1
  committed : ∀ p, s.committed p ≤ s.position p
  position : ∀ p, s.position p ≤ (s.log p).length
  consumed : ∀ p i r, i < s.position p → (s.log p)[i]? = some r → .applied r.token ∈ s.history
  started : ∀ x ∈ s.waiting ++ s.admitted, ∀ p, x.started p ≤ s.committed p
  waits : ∀ x ∈ s.waiting, Waits due s x

section Steps

variable {L due}

/-- Nobody waits at the start. -/
theorem sound_init : Sound due init where
  lists := by
    refine (Expiry.tracks_nil).congr fun k => ?_
    simp [Told, init]
  committed _ := le_rfl
  position _ := le_rfl
  consumed p i r h := absurd h (Nat.not_lt_zero i)
  started := by simp [init]
  waits := by simp [init]

/-- What a request was revoked by stays where it is. -/
theorem Sound.revoked_publish {s : State} (hs : Sound due s) (p : Nat) (r : Revocation) {x : Request}
    (hx : x ∈ s.waiting ++ s.admitted) :
    State.Revoked { s with log := Function.update s.log p (s.log p ++ [r]) } x ↔ s.Revoked x := by
  refine exists_congr fun q => exists_congr fun i => exists_congr fun e => ?_
  refine and_congr_right fun hi => and_congr_left fun _ => ?_
  show (Function.update s.log p (s.log p ++ [r]) q)[i]? = _ ↔ _
  by_cases hq : q = p
  · subst hq
    have hlen := hs.started x hx q
    have := hs.committed q
    have := hs.position q
    rw [Function.update_self, List.getElem?_append_left (by omega)]
  · rw [Function.update_of_ne hq]

/-- Applying an event that is there keeps the table, and tells its token. -/
theorem Sound.lists_applied {s : State} (hs : Sound due s) {rows : RevokedTable} {r : Revocation}
    (hrows : rows.1 = upsert ⟨r.token.1, r.user.1, (due r.token.1).1⟩ s.rows.1) :
    Lists due (Told (s.history ++ [.applied r.token])) s.now rows.1 := by
  rw [hrows]
  refine (hs.lists.upsert r).congr fun k => ?_
  rw [told_append]
  refine or_congr_right ⟨?_, ?_⟩
  · rintro rfl
    exact ⟨r.token, rfl, rfl⟩
  · rintro ⟨k', hk', rfl⟩
    rw [Change.applied.inj hk']

/-- A request that waits goes on waiting, whatever becomes of the rows behind it. -/
theorem Waits.change {s : State} {x : Request} (h : Waits due s x) {rows : RevokedTable} {c : Change}
    (hlisted : ∀ cs, (Listed s.rows.1 x.claims.jti ↔ ¬ Swept due x.claims.jti cs) →
      (Listed rows.1 x.claims.jti ↔ ¬ Swept due x.claims.jti (cs ++ [c]))) (position : Nat → Nat) :
    Waits due { s with position := position, rows := rows, history := s.history ++ [c] } x where
  since := by
    show x.since ≤ (s.history ++ [c]).length
    have := h.since
    rw [List.length_append]
    omega
  id := h.id
  listed hrevoked := by
    show Listed rows.1 _ ↔ ¬ Swept due _ ((s.history ++ [c]).drop x.since)
    rw [List.drop_append_of_le_length h.since]
    exact hlisted _ (h.listed hrevoked)

/-- The consumer has applied an event, and moved past no other. -/
theorem Sound.applied {s : State} (hs : Sound due s) {r : Revocation} {rows : RevokedTable}
    (hrows : rows.1 = upsert ⟨r.token.1, r.user.1, (due r.token.1).1⟩ s.rows.1)
    {position : Nat → Nat} (hle : ∀ p, s.position p ≤ position p)
    (hlength : ∀ p, position p ≤ (s.log p).length)
    (hnew : ∀ p i e, s.position p ≤ i → i < position p → (s.log p)[i]? = some e → e = r) :
    Sound due { s with
      position := position, rows := rows, history := s.history ++ [.applied r.token] } where
  lists := hs.lists_applied hrows
  committed p := (hs.committed p).trans (hle p)
  position := hlength
  consumed p i e hi he := by
    by_cases hold : i < s.position p
    · exact List.mem_append_left _ (hs.consumed p i e hold he)
    · rw [hnew p i e (by omega) hi he]
      exact List.mem_append_right _ (List.mem_singleton_self _)
  started := hs.started
  waits x hx := (hs.waits x hx).change (fun _ => listed_applied hrows) position

/-- A restart rereads, and changes no row. -/
theorem Sound.restart {s : State} (hs : Sound due s) : Sound due s.restart where
  lists := hs.lists
  committed _ := le_rfl
  position p := (hs.committed p).trans (hs.position p)
  consumed p i e hi he := hs.consumed p i e (lt_of_lt_of_le hi (hs.committed p)) he
  started := hs.started
  waits x hx := ⟨(hs.waits x hx).since, (hs.waits x hx).id, (hs.waits x hx).listed⟩

/-- A request that has just been decoded: its token has not expired, so the table lists it if an
    event that revokes it has been consumed. -/
theorem Sound.arrived {s : State} (hs : Sound due s) (hgenuine : Genuine L due) {header : String}
    {claims : TokenClaims} (h : decode L s.now header = .ok (some claims)) :
    Waits due s ⟨claims, s.committed, s.history.length⟩ := by
  have hpresents := presents_of_decode h
  obtain ⟨hid, hdue⟩ := hgenuine _ claims hpresents.verified
  refine ⟨le_rfl, hid, ?_⟩
  rintro ⟨p, i, r, hi, hr, hjti⟩
  replace hi : i < s.committed p := hi
  have htold : Told s.history claims.jti :=
    ⟨r.token, hs.consumed p i r (lt_of_lt_of_le hi (hs.committed p)) hr, hjti⟩
  have hlisted : Listed s.rows.1 claims.jti := hs.lists.kept claims.jti htold (hdue ▸ hpresents.inDate.exp)
  rw [List.drop_length]
  exact iff_of_true hlisted (by simp [Swept])

variable {s s' : State}

theorem sound_tick {elapsed} (hs : Sound due s)
    (h : step L due s (.tick elapsed) = some s') : Sound due s' := by
  obtain rfl := Option.some.inj h
  exact ⟨hs.lists.later (by show s.now ≤ s.now + elapsed; omega), hs.committed, hs.position,
    hs.consumed, hs.started,
    fun x hx => ⟨(hs.waits x hx).since, (hs.waits x hx).id, (hs.waits x hx).listed⟩⟩

theorem sound_publish {p r} (hs : Sound due s)
    (h : step L due s (.publish p r) = some s') : Sound due s' := by
  obtain rfl := Option.some.inj h
  have hlog : ∀ q i, i < (s.log q).length →
      (Function.update s.log p (s.log p ++ [r]) q)[i]? = (s.log q)[i]? := by
    intro q i hi
    by_cases hq : q = p
    · subst hq
      rw [Function.update_self, List.getElem?_append_left hi]
    · rw [Function.update_of_ne hq]
  have hlength : ∀ q, (s.log q).length ≤ (Function.update s.log p (s.log p ++ [r]) q).length := by
    intro q
    by_cases hq : q = p
    · subst hq
      rw [Function.update_self, List.length_append]
      omega
    · rw [Function.update_of_ne hq]
  refine ⟨hs.lists, hs.committed, fun q => (hs.position q).trans (hlength q), ?_, hs.started, ?_⟩
  · intro q i e hi he
    exact hs.consumed q i e hi ((hlog q i (lt_of_lt_of_le hi (hs.position q))).symm.trans he)
  · intro x hx
    refine ⟨(hs.waits x hx).since, (hs.waits x hx).id, fun hrevoked => ?_⟩
    exact (hs.waits x hx).listed
      ((hs.revoked_publish p r (List.mem_append_left _ hx)).mp hrevoked)

theorem sound_receive {p} (hs : Sound due s)
    (h : step L due s (.receive p) = some s') : Sound due s' := by
  obtain ⟨r, hr, rfl⟩ := Option.map_eq_some_iff.mp h
  obtain ⟨rows, happly, hrows⟩ := @apply_spec L _ _ (s.advance p) hs.lists r
  rw [happly]
  have hinside := (List.getElem?_eq_some_iff.mp hr).1
  have hmoved : ∀ q, (s.advance p).position q = if q = p then s.position p + 1 else s.position q :=
    fun q => Function.update_apply s.position p (s.position p + 1) q
  refine hs.applied hrows (fun q => ?_) (fun q => ?_) fun q i e hi hi' he => ?_
  · rw [hmoved]
    split
    next hq => rw [hq]; omega
    · exact le_rfl
  · rw [hmoved]
    split
    next hq => rw [hq]; omega
    · exact hs.position q
  · rw [hmoved] at hi'
    split at hi'
    next hq =>
      subst hq
      obtain rfl : i = s.position q := by omega
      exact Option.some.inj (he.symm.trans hr)
    · omega

theorem sound_redeliver {p i} (hs : Sound due s)
    (h : step L due s (.redeliver p i) = some s') : Sound due s' := by
  obtain ⟨hi, h⟩ := Option.ite_none_right_eq_some.mp h
  obtain ⟨r, hr, rfl⟩ := Option.map_eq_some_iff.mp h
  obtain ⟨rows, happly, hrows⟩ := apply_spec L hs.lists r
  rw [happly]
  exact hs.applied hrows (fun _ => le_rfl) hs.position fun q j e hj hj' => by omega

theorem sound_commit (hs : Sound due s)
    (h : step L due s .commit = some s') : Sound due s' := by
  obtain rfl := Option.some.inj h
  exact ⟨hs.lists, fun _ => le_rfl, hs.position, hs.consumed,
    fun x hx p => (hs.started x hx p).trans (hs.committed p),
    fun x hx => ⟨(hs.waits x hx).since, (hs.waits x hx).id, (hs.waits x hx).listed⟩⟩

theorem sound_crash (hs : Sound due s)
    (h : step L due s .crash = some s') : Sound due s' := by
  obtain rfl := Option.some.inj h
  exact hs.restart

theorem sound_purge (hs : Sound due s)
    (h : step L due s .purge = some s') : Sound due s' := by
  obtain rfl := Option.some.inj h
  refine ⟨?_, hs.committed, hs.position,
    fun p i r hi hr => List.mem_append_left _ (hs.consumed p i r hi hr), hs.started,
    fun x hx => (hs.waits x hx).change (fun _ => listed_purged hs.lists) s.position⟩
  refine hs.lists.purge.congr fun k => ?_
  rw [told_append]
  simp

theorem sound_arrive {header} (hgenuine : Genuine L due) (hs : Sound due s)
    (h : step L due s (.arrive header) = some s') : Sound due s' := by
  dsimp only [step] at h
  split at h
  next claims hclaims =>
    obtain rfl := Option.some.inj h
    refine ⟨hs.lists, hs.committed, hs.position, hs.consumed, ?_, ?_⟩
    · intro x hx p
      simp only [List.mem_append, List.mem_singleton] at hx
      rcases hx with (hx | rfl) | hx
      · exact hs.started x (List.mem_append_left _ hx) p
      · exact le_rfl
      · exact hs.started x (List.mem_append_right _ hx) p
    · intro x hx
      have hx : Waits due s x := by
        rcases List.mem_append.mp hx with hx | hx
        · exact hs.waits x hx
        · rw [List.mem_singleton.mp hx]
          exact hs.arrived hgenuine hclaims
      exact ⟨hx.since, hx.id, hx.listed⟩
  · obtain rfl := Option.some.inj h
    exact hs

theorem sound_lookup {i} (hs : Sound due s)
    (h : step L due s (.lookup i) = some s') : Sound due s' := by
  obtain ⟨x, hx, rfl⟩ := Option.map_eq_some_iff.mp h
  have hmem := List.mem_of_getElem? hx
  have hrest : ∀ y ∈ s.waiting.eraseIdx i, y ∈ s.waiting := fun y hy =>
    List.mem_of_mem_eraseIdx hy
  have hwaits : ∀ y ∈ s.waiting.eraseIdx i, Waits due s y := fun y hy => hs.waits y (hrest y hy)
  split
  · refine ⟨hs.lists, hs.committed, hs.position, hs.consumed, fun y hy p => ?_,
      fun y hy => ⟨(hwaits y hy).since, (hwaits y hy).id, (hwaits y hy).listed⟩⟩
    simp only [List.mem_append, List.mem_singleton] at hy
    rcases hy with hy | hy | rfl
    · exact hs.started y (List.mem_append_left _ (hrest y hy)) p
    · exact hs.started y (List.mem_append_right _ hy) p
    · exact hs.started y (List.mem_append_left _ hmem) p
  · refine ⟨hs.lists, hs.committed, hs.position, hs.consumed, fun y hy p => ?_,
      fun y hy => ⟨(hwaits y hy).since, (hwaits y hy).id, (hwaits y hy).listed⟩⟩
    exact hs.started y ((List.mem_append.mp hy).elim
      (fun hy => List.mem_append_left _ (hrest y hy)) (List.mem_append_right _)) p

theorem sound_step (hgenuine : Genuine L due) (s : State) (a : Action) (s' : State)
    (hs : Sound due s) (h : step L due s a = some s') : Sound due s' := by
  cases a with
  | tick elapsed => exact sound_tick hs h
  | publish p r => exact sound_publish hs h
  | receive p => exact sound_receive hs h
  | redeliver p i => exact sound_redeliver hs h
  | commit => exact sound_commit hs h
  | crash => exact sound_crash hs h
  | purge => exact sound_purge hs h
  | arrive header => exact sound_arrive hgenuine hs h
  | lookup i => exact sound_lookup hs h

/-- A lookup in the table. -/
theorem checkDenylist_cases (rows : List RevokedToken) (claims : TokenClaims)
    (hid : ∃ k : Uuid, claims.jti = k.1) :
    checkDenylist rows claims = .ok claims ∧ ¬ Listed rows claims.jti ∨
      checkDenylist rows claims = .error "token has been revoked" ∧ Listed rows claims.jti := by
  obtain ⟨k, hk⟩ := hid
  unfold checkDenylist Listed
  rw [hk]
  by_cases h : isRevoked rows k.1
  · rw [if_pos h]
    exact .inr ⟨rfl, (isRevoked_iff rows k).mp h⟩
  · rw [if_neg h]
    exact .inl ⟨rfl, fun hlisted => h ((isRevoked_iff rows k).mpr hlisted)⟩

theorem neverReadmits_step (s : State) (a : Action) (s' : State) (hs : Sound due s)
    (hlaw : NeverReadmits s) (h : step L due s a = some s') :
    NeverReadmits s' ↔ InTime due s a := by
  have hother : (∀ i, a ≠ .lookup i) → InTime due s a := fun hne i x ha => absurd ha (hne i)
  cases a with
  | lookup i =>
    obtain ⟨x, hx, rfl⟩ := Option.map_eq_some_iff.mp h
    -- the only step that admits
    have hwaits := hs.waits x (List.mem_of_getElem? hx)
    have hintime : InTime due s (.lookup i) ↔
        (s.Revoked x → ¬ Swept due x.claims.jti (s.history.drop x.since)) := by
      constructor
      · exact fun hin => hin i x rfl hx
      · rintro hin i' x' hi' hx'
        cases hi'
        obtain rfl := Option.some.inj (hx.symm.trans hx')
        exact hin
    rw [hintime]
    rcases checkDenylist_cases s.rows.1 x.claims hwaits.id with ⟨hcheck, hlisted⟩ | ⟨hcheck, hlisted⟩
    · rw [hcheck]
      constructor
      · intro hnever hrevoked
        exact absurd hrevoked (hnever x (List.mem_append_right _ (List.mem_singleton_self x)))
      · intro hin y hy
        rcases List.mem_append.mp hy with hy | hy
        · exact hlaw y hy
        · rw [List.mem_singleton.mp hy]
          exact fun hrevoked => hlisted ((hwaits.listed hrevoked).mpr (hin hrevoked))
    · rw [hcheck]
      exact iff_of_true hlaw fun hrevoked => (hwaits.listed hrevoked).mp hlisted
  | publish p r =>
    obtain rfl := Option.some.inj h
    -- an event of now is later than every request that was admitted
    refine iff_of_true (fun x hx hrevoked => hlaw x hx ?_) (hother (by simp))
    exact (hs.revoked_publish p r (List.mem_append_right _ hx)).mp hrevoked
  | arrive header =>
    refine iff_of_true ?_ (hother (by simp))
    dsimp only [step] at h
    split at h <;> obtain rfl := Option.some.inj h <;> exact hlaw
  | receive p =>
    obtain ⟨r, -, rfl⟩ := Option.map_eq_some_iff.mp h
    obtain ⟨rows, happly, -⟩ := @apply_spec L _ _ (s.advance p) hs.lists r
    rw [happly]
    exact iff_of_true hlaw (hother (by simp))
  | redeliver p i =>
    obtain ⟨-, h⟩ := Option.ite_none_right_eq_some.mp h
    obtain ⟨r, -, rfl⟩ := Option.map_eq_some_iff.mp h
    obtain ⟨rows, happly, -⟩ := apply_spec L hs.lists r
    rw [happly]
    exact iff_of_true hlaw (hother (by simp))
  | tick | commit | crash | purge =>
    obtain rfl := Option.some.inj h
    exact iff_of_true hlaw (hother (by simp))

variable (L due)

/-- **Which runs never readmit a revoked token**: those in which no request, whose token was revoked
    by an event committed before it started, looks the token up after a purge that came since its
    decoding, when the token had expired, and with no application of the event after that. -/
theorem neverReadmits_iff (hgenuine : Genuine L due) (acts : List Action) :
    Throughout (step L due) NeverReadmits init acts ↔ Along (step L due) (InTime due) init acts :=
  throughout_iff_along (fun s a s' hs _ h => sound_step hgenuine s a s' hs h) neverReadmits_step acts
    sound_init (by simp [NeverReadmits, init])

end Steps

/-! ## A token that comes back -/

/-- The plain token carries its own expiry. -/
theorem plain_genuine : Genuine plainLibs plainDue := by
  rintro token claims ⟨h, -⟩
  obtain ⟨-, rfl⟩ : token = "t" ∧ plainClaims = claims := by
    dsimp only [plainLibs] at h
    split at h
    next htoken => exact ⟨htoken, Except.ok.inj h⟩
    · cases h
  exact ⟨⟨tokenID, rfl⟩, rfl⟩

/-- The token is revoked, and the event consumed and committed. -/
def revocation : List Action := [.publish 0 ⟨tokenID, tokenID⟩, .receive 0, .commit]

/-- A request with it is decoded a moment before it expires, and looks it up after the purge. -/
def readmission : List Action :=
  revocation ++ [.arrive "Bearer t", .tick 900000000, .purge, .lookup 0]

/-- The purge comes before the request, or after its lookup. -/
def inTime : List Action :=
  revocation ++ [.purge, .arrive "Bearer t", .tick 900000000, .lookup 0, .purge, .arrive "Bearer t"]

/-- No lookup comes after a purge that took its token. -/
def Unswept (s : State) : Action → Prop
  | .lookup i => ∀ x ∈ s.waiting[i]?, ¬ Swept plainDue x.claims.jti (s.history.drop x.since)
  | _ => True

instance (s : State) : ∀ a, Decidable (Unswept s a)
  | .lookup i => inferInstanceAs (Decidable (∀ x ∈ s.waiting[i]?, _))
  | .tick _ | .publish _ _ | .receive _ | .redeliver _ _ | .commit | .crash | .purge | .arrive _ =>
    .isTrue trivial

theorem neverReadmits_inTime :
    Throughout (step plainLibs plainDue) NeverReadmits init inTime := by
  refine (neverReadmits_iff plainLibs plainDue plain_genuine inTime).mpr ?_
  have hunswept : Along (step plainLibs plainDue) Unswept init inTime := by decide +kernel
  refine hunswept.mono fun s a h i x ha hx _ => ?_
  subst ha
  exact h x hx

/-- **A purge readmits a revoked token.** -/
theorem readmitted : ∃ s, run (step plainLibs plainDue) init readmission = some s ∧
    ¬ NeverReadmits s := by
  have hsome : (run (step plainLibs plainDue) init readmission).isSome := by decide +kernel
  have hlast : ∀ s ∈ run (step plainLibs plainDue) init readmission, ∃ x ∈ s.admitted,
      0 < x.started 0 ∧ ∃ r ∈ (s.log 0)[0]?, r.token.1 = x.claims.jti := by decide +kernel
  obtain ⟨s, hs⟩ := Option.isSome_iff_exists.mp hsome
  obtain ⟨x, hx, hstarted, r, hr, hjti⟩ := hlast s hs
  exact ⟨s, hs, fun hnever => hnever x hx ⟨0, 0, r, hstarted, hr, hjti⟩⟩

end DjangoFlaskKafka.Posts.Purge
