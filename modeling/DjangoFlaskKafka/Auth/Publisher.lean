/-
  The publisher — whether the relay of the auth service loses or invents a revocation.

  1. **Program** — `publishBatch` of `cmd/authd/relay.go` over `ClaimOutbox` and `MarkPublished` of
     `internal/store/store.go`, by any number of instances.  Each of its statements is a transaction
     of its own, so the locks of the claim are gone when it returns; `skipped` are the rows that
     another statement has locked just then.  What the writer has been given may reach the log at
     any later time, more than once or never (`store`); `WriteMessages` returns `nil` once the log
     has all of it (`written`); and a pass may end anywhere (`abort`).

  2. **Law** — `Delivers`, the law of `Relay.Delivery`, for this table; `neither_loses_nor_invents`
     is both.
-/
import DjangoFlaskKafka.Auth.Store
import DjangoFlaskKafka.Relay.Delivery

namespace DjangoFlaskKafka.Auth.Publisher

open Python Kafka Postgres Machine

/-! ## The program -/

/-- The table, with its constraint. -/
abbrev OutboxTable := { rows : List OutboxEvent // OutboxConstraints rows }

/-- The row that `RevokeAccessToken` inserts. -/
def revocationRow (now : Int) (id : Uuid) (tokenID : String) (userID : Uuid) (expiresAt : Int) :
    OutboxEvent :=
  ⟨id, .tokenRevoked, userID.1, revocationPayload tokenID userID expiresAt, now, none⟩

/-- The message of a row; the topic is the writer's. -/
def message (e : OutboxEvent) : Relay.Sent where
  topic := .tokenRevoked
  key := some e.key
  value := e.payload
  headers := [("event_id", e.id.1.toUTF8)]

/-- The message is one of this row. -/
def IsOf (e : OutboxEvent) (m : Relay.Sent) : Prop := m.headers = [("event_id", e.id.1.toUTF8)]

instance (e : OutboxEvent) (m : Relay.Sent) : Decidable (IsOf e m) :=
  inferInstanceAs (Decidable (_ = _))

/-- The header tells the row. -/
theorem isOf_message_iff {e e' : OutboxEvent} : IsOf e' (message e) ↔ e.id = e'.id := by
  constructor
  · intro h
    have hutf8 : e.id.1.toUTF8 = e'.id.1.toUTF8 := (Prod.mk.inj (List.cons.inj h).1).2
    exact Subtype.ext (String.toByteArray_inj.mp hutf8)
  · intro h
    unfold IsOf message
    rw [h]

/-- Oldest first, rows of the same age by rank. -/
def Older (rank : Uuid → Nat) (a b : OutboxEvent) : Prop :=
  a.created_at < b.created_at ∨ a.created_at = b.created_at ∧ rank a.id ≤ rank b.id

instance (rank : Uuid → Nat) : DecidableRel (Older rank) := fun _ _ =>
  inferInstanceAs (Decidable (_ ∨ _))

/-- The rows a claim can have, when those `skipped` are locked. -/
def candidates (outbox : List OutboxEvent) (skipped : List Uuid) : List OutboxEvent :=
  outbox.filter fun e => e.published_at.isNone ∧ e.id ∉ skipped

/-- `ClaimOutbox(ctx, 100)`. -/
def claimOutbox (outbox : List OutboxEvent) (rank : Uuid → Nat) (skipped : List Uuid) :
    List OutboxEvent :=
  ((candidates outbox skipped).insertionSort (Older rank)).take 100

/-- The row once it is published. -/
def OutboxEvent.mark (now : Int) (ids : List Uuid) (e : OutboxEvent) : OutboxEvent :=
  if e.id ∈ ids then { e with published_at := some now } else e

/-- `MarkPublished(ctx, ids)`. -/
def markPublished (now : Int) (ids : List Uuid) (outbox : OutboxTable) : OutboxTable where
  val := outbox.1.map (OutboxEvent.mark now ids)
  property := by
    show (List.map OutboxEvent.id (outbox.1.map _)).Nodup
    rw [List.map_map, show OutboxEvent.id ∘ OutboxEvent.mark now ids = OutboxEvent.id from ?_]
    · exact outbox.2
    · funext e
      show (if e.id ∈ ids then { e with published_at := some now } else e).id = e.id
      split <;> rfl

/-- How far a pass has come: its events are claimed, given to the writer, or acknowledged. -/
inductive Stage where
  | claimed
  | writing
  | written
  deriving DecidableEq, Repr

structure Pass where
  events : List OutboxEvent
  stage : Stage

/-- The outbox, the log, what writers have been given, and the pass each instance is in. -/
structure State (ι : Type) where
  outbox : OutboxTable
  log : List Relay.Sent
  given : List OutboxEvent
  pass : ι → Option Pass

inductive Action (ι : Type) where
  | insert (now : Int) (id : Uuid) (tokenID : String) (userID : Uuid) (expiresAt : Int)
  | claim (i : ι) (rank : Uuid → Nat) (skipped : List Uuid)
  | write (i : ι)
  | store (k : Nat)
  | written (i : ι)
  | mark (i : ι) (now : Int)
  | abort (i : ι)

variable {ι : Type}

/-- Nothing has happened yet. -/
def init : State ι where
  outbox := ⟨[], by decide⟩
  log := []
  given := []
  pass _ := none

/-- The broker has a message of the row. -/
def State.Logged (s : State ι) (e : OutboxEvent) : Prop := ∃ m ∈ s.log, IsOf e m

instance (s : State ι) (e : OutboxEvent) : Decidable (s.Logged e) :=
  inferInstanceAs (Decidable (∃ m ∈ s.log, IsOf e m))

variable [DecidableEq ι]

/-- One step. -/
def step (s : State ι) : Action ι → Option (State ι)
  | .insert now id tokenID userID expiresAt =>
    (checked OutboxConstraints (s.outbox.1 ++ [revocationRow now id tokenID userID expiresAt])).map
      fun outbox => { s with outbox := outbox }
  | .claim i rank skipped =>
    match s.pass i with
    | some _ => none
    | none =>
      match claimOutbox s.outbox.1 rank skipped with
      | [] => some s
      | e :: events => some { s with pass := Function.update s.pass i (some ⟨e :: events, .claimed⟩) }
  | .write i =>
    match s.pass i with
    | some ⟨events, .claimed⟩ =>
      some { s with
        given := s.given ++ events
        pass := Function.update s.pass i (some ⟨events, .writing⟩) }
    | _ => none
  | .store k => s.given[k]?.map fun e => { s with log := s.log ++ [message e] }
  | .written i =>
    match s.pass i with
    | some ⟨events, .writing⟩ =>
      if ∀ e ∈ events, s.Logged e then
        some { s with pass := Function.update s.pass i (some ⟨events, .written⟩) }
      else none
    | _ => none
  | .mark i now =>
    match s.pass i with
    | some ⟨events, .written⟩ =>
      some { s with
        outbox := markPublished now (events.map OutboxEvent.id) s.outbox
        pass := Function.update s.pass i none }
    | _ => none
  | .abort i => (s.pass i).map fun _ => { s with pass := Function.update s.pass i none }

/-! ## The law -/

/-- Nothing is lost and nothing is invented. -/
structure Delivers (s : State ι) : Prop where
  published : ∀ e ∈ s.outbox.1, e.published_at.isSome → e.topic = .tokenRevoked ∧ message e ∈ s.log
  unpublished : ∀ e ∈ s.outbox.1, e.published_at = none → e ∈ candidates s.outbox.1 []
  origin : ∀ m ∈ s.log, ∃ e ∈ s.outbox.1, m = message e

/-! ## The invariant -/

/-- The row is in the outbox, perhaps marked since. -/
def State.Known (s : State ι) (e : OutboxEvent) : Prop :=
  ∃ x ∈ s.outbox.1, x.id = e.id ∧ message x = message e

structure Inv (s : State ι) : Prop where
  topics : ∀ e ∈ s.outbox.1, e.topic = .tokenRevoked
  given : ∀ e ∈ s.given, s.Known e
  known : ∀ i, ∀ p ∈ s.pass i, ∀ e ∈ p.events, s.Known e
  written : ∀ i, ∀ p ∈ s.pass i, p.stage = .written → ∀ e ∈ p.events, s.Logged e

/-- The machine as an outbox. -/
def view (s : State ι) : Outbox.State OutboxEvent Relay.Sent := ⟨s.outbox.1, {m | m ∈ s.log}⟩

/-- The row is marked. -/
def Published (e : OutboxEvent) : Prop := e.published_at.isSome

abbrev Sound (s : State ι) : Prop := Outbox.Sound message Published (view s)

section Steps

variable {s : State ι}

theorem mark_message (now : Int) (ids : List Uuid) (e : OutboxEvent) :
    (OutboxEvent.mark now ids e).id = e.id ∧ (OutboxEvent.mark now ids e).topic = e.topic ∧
      message (OutboxEvent.mark now ids e) = message e := by
  unfold OutboxEvent.mark
  split <;> exact ⟨rfl, rfl, rfl⟩

omit [DecidableEq ι] in
theorem inv_init : Inv (init : State ι) where
  topics e he := by cases he
  given e he := by cases he
  known i p hp := by cases hp
  written i p hp := by cases hp

omit [DecidableEq ι] in
/-- With a header in the log, the message is in the log. -/
theorem Sound.message_mem (hs : Sound s) {e : OutboxEvent} (he : s.Known e) (hlogged : s.Logged e) :
    message e ∈ s.log := by
  obtain ⟨m, hm, his⟩ := hlogged
  obtain ⟨x, hx, rfl⟩ := hs.origin m hm
  obtain ⟨y, hy, hyid, hye⟩ := he
  have hsame : x = y := List.inj_on_of_nodup_map s.outbox.2 hx hy
    ((isOf_message_iff.mp his).trans hyid.symm)
  rw [← hye, ← hsame]
  exact hm

omit [DecidableEq ι] in
/-- A larger outbox and a larger log. -/
theorem Inv.grow (hi : Inv s) {outbox : OutboxTable} {log : List Relay.Sent}
    (htopics : ∀ e ∈ outbox.1, e.topic = .tokenRevoked)
    (houtbox : ∀ x ∈ s.outbox.1, ∃ y ∈ outbox.1, y.id = x.id ∧ message y = message x)
    (hlog : ∀ m ∈ s.log, m ∈ log) : Inv { s with outbox := outbox, log := log } := by
  have hknown : ∀ e, s.Known e → State.Known { s with outbox := outbox, log := log } e := by
    rintro e ⟨x, hx, hid, hmessage⟩
    obtain ⟨y, hy, hid', hmessage'⟩ := houtbox x hx
    exact ⟨y, hy, hid'.trans hid, hmessage'.trans hmessage⟩
  refine ⟨htopics, fun e he => hknown e (hi.given e he),
    fun i p hp e he => hknown e (hi.known i p hp e he), fun i p hp hstage e he => ?_⟩
  obtain ⟨m, hm, his⟩ := hi.written i p hp hstage e he
  exact ⟨m, hlog m hm, his⟩

/-- One pass has changed, in a way that keeps its own part of the invariant. -/
theorem Inv.update (hi : Inv s) {given : List OutboxEvent} (hgiven : ∀ e ∈ given, s.Known e) (i : ι)
    {x : Option Pass} (hknown : ∀ p ∈ x, ∀ e ∈ p.events, s.Known e)
    (hwritten : ∀ p ∈ x, p.stage = .written → ∀ e ∈ p.events, s.Logged e) :
    Inv { s with given := given, pass := Function.update s.pass i x } := by
  refine ⟨hi.topics, hgiven, fun j p hp => ?_, fun j p hp => ?_⟩
  · rcases mem_update hp with ⟨-, hp⟩ | ⟨-, hp⟩
    · exact hknown p hp
    · exact hi.known j p hp
  · rcases mem_update hp with ⟨-, hp⟩ | ⟨-, hp⟩
    · exact hwritten p hp
    · exact hi.written j p hp

/-- A claim takes rows of the outbox that are not published. -/
theorem mem_claimOutbox {outbox : List OutboxEvent} {rank : Uuid → Nat} {skipped : List Uuid}
    {e : OutboxEvent} (he : e ∈ claimOutbox outbox rank skipped) :
    e ∈ outbox ∧ e.published_at = none := by
  have hsorted := List.mem_of_mem_take he
  rw [List.mem_insertionSort] at hsorted
  obtain ⟨hmem, hwhere⟩ := List.mem_filter.mp hsorted
  exact ⟨hmem, Option.isNone_iff_eq_none.mp (of_decide_eq_true hwhere).1⟩

/-- A revocation comes in, unpublished. -/
theorem refines_insert {now id tokenID userID expiresAt} (hi : Inv s)
    (h : step s (.insert now id tokenID userID expiresAt) = some s') :
    Inv s' ∧ Outbox.Step message Published (view s) (view s') := by
  obtain ⟨outbox, houtbox, rfl⟩ := Option.map_eq_some_iff.mp h
  have hrows := checked_eq_some houtbox
  refine ⟨hi.grow (fun e he => ?_) (fun x hx => ⟨x, hrows ▸ List.mem_append_left _ hx, rfl, rfl⟩)
    (fun _ hm => hm), ?_⟩
  · rw [hrows] at he
    rcases List.mem_append.mp he with he | he
    · exact hi.topics e he
    · rw [List.mem_singleton.mp he]
      rfl
  · have hview : view { s with outbox := outbox } = ⟨(view s).rows ++
        [revocationRow now id tokenID userID expiresAt], (view s).log⟩ := by
      unfold view
      rw [hrows]
    rw [hview]
    exact .insert _ _ (by simp [Published, revocationRow])

/-- A pass begins with rows of the outbox. -/
theorem refines_claim {i rank skipped} (hi : Inv s) (h : step s (.claim i rank skipped) = some s') :
    Inv s' ∧ Outbox.Step message Published (view s) (view s') := by
  dsimp only [step] at h
  split at h
  · cases h
  split at h
  · obtain rfl := Option.some.inj h
    exact ⟨hi, .other _⟩
  next e events hbatch =>
    obtain rfl := Option.some.inj h
    rw [← hbatch]
    refine ⟨hi.update hi.given i (fun p hp x hx => ?_) (fun p hp hstage => ?_), .other _⟩ <;>
      obtain rfl := Option.some.inj hp
    · exact ⟨x, (mem_claimOutbox hx).1, rfl, rfl⟩
    · cases hstage

/-- The rows of a pass are given to the writer. -/
theorem refines_write {i} (hi : Inv s) (h : step s (.write i) = some s') :
    Inv s' ∧ Outbox.Step message Published (view s) (view s') := by
  dsimp only [step] at h
  split at h
  next events hpass =>
    obtain rfl := Option.some.inj h
    refine ⟨hi.update (fun x hx => ?_) i (fun p hp x hx => ?_) (fun p hp hstage => ?_), .other _⟩
    · rcases List.mem_append.mp hx with hx | hx
      · exact hi.given x hx
      · exact hi.known i _ hpass x hx
    all_goals obtain rfl := Option.some.inj hp
    · exact hi.known i _ hpass x hx
    · cases hstage
  · cases h

/-- The broker stores a row that was given. -/
theorem refines_store {k} (hi : Inv s) (h : step s (.store k) = some s') :
    Inv s' ∧ Outbox.Step message Published (view s) (view s') := by
  obtain ⟨e, he, rfl⟩ := Option.map_eq_some_iff.mp h
  obtain ⟨x, hx, -, hmessage⟩ := hi.given e (List.mem_of_getElem? he)
  refine ⟨hi.grow hi.topics (fun x hx => ⟨x, hx, rfl, rfl⟩)
    (fun _ hm => List.mem_append_left _ hm), ?_⟩
  have hview : view { s with log := s.log ++ [message e] }
      = ⟨(view s).rows, insert (message x) (view s).log⟩ := by
    unfold view
    rw [hmessage]
    congr 1
    ext m
    simp [or_comm]
  rw [hview]
  exact .store _ x hx

/-- The write returns once the broker has every row. -/
theorem refines_written {i} (hi : Inv s) (h : step s (.written i) = some s') :
    Inv s' ∧ Outbox.Step message Published (view s) (view s') := by
  dsimp only [step] at h
  split at h
  next events hpass =>
    obtain ⟨hlogged, h⟩ := Option.ite_none_right_eq_some.mp h
    obtain rfl := Option.some.inj h
    refine ⟨hi.update hi.given i (fun p hp x hx => ?_) (fun p hp _ => ?_), .other _⟩ <;>
      obtain rfl := Option.some.inj hp
    · exact hi.known i _ hpass x hx
    · exact hlogged
  · cases h

/-- A pass marks what the log has. -/
theorem refines_mark {i now} (hi : Inv s) (hs : Sound s) (h : step s (.mark i now) = some s') :
    Inv s' ∧ Outbox.Step message Published (view s) (view s') := by
  dsimp only [step] at h
  split at h
  next events hpass =>
    obtain rfl := Option.some.inj h
    have hclosed : Inv { s with pass := Function.update s.pass i none } :=
      hi.update hi.given i (by simp) (by simp)
    refine ⟨hclosed.grow (fun e he => ?_) (fun x hx => ?_) (fun _ hm => hm), ?_⟩
    · obtain ⟨x, hx, rfl⟩ := List.mem_map.mp he
      exact (mark_message now _ x).2.1.trans (hi.topics x hx)
    · obtain ⟨hid, -, hmessage⟩ := mark_message now (events.map OutboxEvent.id) x
      exact ⟨_, List.mem_map_of_mem hx, hid, hmessage⟩
    · refine .mark (view s) (OutboxEvent.mark now (events.map OutboxEvent.id))
        (fun e => (mark_message now _ e).2.2) fun e he hpublished => ?_
      by_cases hid : e.id ∈ events.map OutboxEvent.id
      · obtain ⟨x, hx, hxid⟩ := List.mem_map.mp hid
        have hknown := hi.known i _ hpass x hx
        have hlogged := Sound.message_mem hs hknown (hi.written i _ hpass rfl x hx)
        obtain ⟨y, hy, hyid, hye⟩ := hknown
        have hsame : y = e := List.inj_on_of_nodup_map s.outbox.2 hy he (hyid.trans hxid)
        refine .inr ?_
        rw [← hsame, hye]
        exact hlogged
      · unfold OutboxEvent.mark at hpublished
        rw [if_neg hid] at hpublished
        exact .inl hpublished
  · cases h

theorem refines_abort {i} (hi : Inv s) (h : step s (.abort i) = some s') :
    Inv s' ∧ Outbox.Step message Published (view s) (view s') := by
  obtain ⟨p, -, rfl⟩ := Option.map_eq_some_iff.mp h
  exact ⟨hi.update hi.given i (by simp) (by simp), .other _⟩

/-- **Every step is a step of an outbox.** -/
theorem refines (s : State ι) (a : Action ι) (s' : State ι) (hi : Inv s) (hs : Sound s)
    (h : step s a = some s') : Inv s' ∧ Outbox.Step message Published (view s) (view s') := by
  cases a with
  | insert now id tokenID userID expiresAt => exact refines_insert hi h
  | claim i rank skipped => exact refines_claim hi h
  | write i => exact refines_write hi h
  | store k => exact refines_store hi h
  | written i => exact refines_written hi h
  | mark i now => exact refines_mark hi hs h
  | abort i => exact refines_abort hi h

omit [DecidableEq ι] in
/-- The law, from the two invariants. -/
theorem delivers_of (hi : Inv s) (hs : Sound s) : Delivers s where
  published e he hpublished := ⟨hi.topics e he, hs.stored e he hpublished⟩
  unpublished e he hnone := List.mem_filter.mpr ⟨he, by simp [hnone]⟩
  origin m hm := by
    obtain ⟨e, he, rfl⟩ := hs.origin m hm
    exact ⟨e, he, rfl⟩

theorem throughout_delivers (acts : List (Action ι)) :
    Throughout step Delivers (init : State ι) acts := by
  have hempty : Sound (init : State ι) := by
    have hview : view (init : State ι) = ⟨[], ∅⟩ := by
      unfold view init
      simp
    unfold Sound
    rw [hview]
    exact Outbox.sound_empty
  exact (Outbox.throughout_sound view refines inv_init hempty acts).mono
    fun s hs => delivers_of hs.1 hs.2

end Steps

/-- **Neither relay loses or invents an event**, whatever the broker does, whatever fails and
    whoever dies. -/
theorem neither_loses_nor_invents (ι κ : Type) [Fintype ι] [DecidableEq ι] [DecidableEq κ]
    (relays : List (Relay.Delivery.Action ι)) (publishers : List (Action κ)) :
    Throughout Relay.Delivery.step Relay.Delivery.Delivers Relay.Delivery.init relays ∧
      Throughout step Delivers init publishers :=
  ⟨Relay.Delivery.throughout_delivers relays, throughout_delivers publishers⟩

end DjangoFlaskKafka.Auth.Publisher
