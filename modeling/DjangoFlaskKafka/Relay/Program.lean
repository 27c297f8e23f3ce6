/-
  The relay — `run_once` of `services/relay/relay.py`, by any number of relays at a time.

  1. **Program** — a pass is ONE transaction, but not one step.  `claim` runs the query of
     `claim_batch`; `send` resolves the next future of `publish_batch`, with whatever the broker
     made of it; `finish` is `mark_published` and the commit; `abort` is any exception or crash that
     rolls the transaction back.  Between them other relays move, and the posts service inserts
     rows. The locks of `FOR UPDATE` are not a table of their own: a row is locked exactly while an
     open pass holds it, and `SKIP LOCKED` is a filter on that.

  2. **Order** — a producer with `max_in_flight_requests_per_connection=1` hands the broker the
     records of a partition in the order of the `send` calls, so a pass resolves its rows in the
     order it has claimed them.  Rows with equal `created_at` come back from the query in any order:
     `claim` takes the ranking that decides.

  3. **Law** — `Sound`: what passes hold, what is marked and what is in the log fit together.
-/
import DjangoFlaskKafka.Posts.Views
import DjangoFlaskKafka.Lib.Machine
import Mathlib.Data.List.Sort
import Mathlib.Data.Fintype.Defs

namespace DjangoFlaskKafka.Relay

open Python Kafka Postgres Posts Machine

/-! ## Records -/

/-- A record as `producer.send` is given it, its key serialized. -/
structure Sent where
  topic : Topic
  key : Option String
  value : Json
  headers : List (String × ByteArray)

/-- The `event_id` header of a row. -/
def eventIdHeaders (e : OutboxEvent) : List (String × ByteArray) := [("event_id", e.id.1.toUTF8)]

/-- The record of a row. -/
def record (e : OutboxEvent) : Sent where
  topic := e.topic
  key := if e.key.1 = "" then none else some e.key.1
  value := e.payload
  headers := eventIdHeaders e

/-- The record is one of this row. -/
def Sent.IsOf (e : OutboxEvent) (r : Sent) : Prop := r.headers = eventIdHeaders e

instance (e : OutboxEvent) (r : Sent) : Decidable (r.IsOf e) :=
  inferInstanceAs (Decidable (_ = _))

/-- The header tells the row. -/
theorem isOf_record_iff {e e' : OutboxEvent} : (record e).IsOf e' ↔ e.id = e'.id := by
  constructor
  · intro h
    have hutf8 : e.id.1.toUTF8 = e'.id.1.toUTF8 := (Prod.mk.inj (List.cons.inj h).1).2
    exact Subtype.ext (String.toByteArray_inj.mp hutf8)
  · intro h
    unfold Sent.IsOf record eventIdHeaders
    rw [h]

/-! ## The program -/

/-- What becomes of a send: its future resolves, or it raises a `KafkaError`, whether the broker has
    stored the record all the same or not. -/
inductive Outcome where
  | acked
  | failed (stored : Bool)
  deriving DecidableEq, Repr

/-- The broker has stored the record. -/
def Outcome.stored : Outcome → Bool
  | .acked => true
  | .failed stored => stored

/-- An open pass: the rows whose futures are resolved, and the rows that are still to come. -/
structure Pass where
  resolved : List (OutboxEvent × Outcome)
  todo : List OutboxEvent

/-- The rows a pass has claimed. -/
def Pass.rows (p : Pass) : List OutboxEvent := p.resolved.map Prod.fst ++ p.todo

/-- `delivered`. -/
def Pass.delivered (p : Pass) : List Uuid :=
  (p.resolved.filter fun x => x.2 = .acked).map fun x => x.1.id

/-- The outbox, the log of each topic, and the pass each relay is in. -/
structure State (ι : Type) where
  outbox : OutboxTable
  log : Topic → List Sent
  pass : ι → Option Pass

/-- What can happen next. -/
inductive Action (ι : Type) where
  | insert (now : Int) (id : Uuid) (topic : Topic) (key : Text 200) (payload : Json)
  | claim (i : ι) (limit : Nat) (rank : Uuid → Nat)
  | send (i : ι) (outcome : Outcome)
  | finish (i : ι) (now : Int)
  | abort (i : ι)

variable {ι : Type}

/-- An outbox, and no relay at work. -/
def start (outbox : OutboxTable) : State ι := ⟨outbox, fun _ => [], fun _ => none⟩

/-- Some relay holds the lock of the row. -/
def State.Locked (s : State ι) (id : Uuid) : Prop :=
  ∃ i, ∃ p ∈ s.pass i, id ∈ p.rows.map OutboxEvent.id

instance [Fintype ι] (s : State ι) (id : Uuid) : Decidable (s.Locked id) :=
  inferInstanceAs (Decidable (∃ i, ∃ p ∈ s.pass i, id ∈ p.rows.map OutboxEvent.id))

/-- Oldest first, rows of the same age by rank. -/
def Earlier (rank : Uuid → Nat) (a b : OutboxEvent) : Prop :=
  a.created_at < b.created_at ∨ a.created_at = b.created_at ∧ rank a.id ≤ rank b.id

instance (rank : Uuid → Nat) : DecidableRel (Earlier rank) := fun _ _ =>
  inferInstanceAs (Decidable (_ ∨ _))

instance (rank : Uuid → Nat) : Std.Total (Earlier rank) :=
  ⟨fun a b => by unfold Earlier; omega⟩

instance (rank : Uuid → Nat) : IsTrans OutboxEvent (Earlier rank) :=
  ⟨fun a b c hab hbc => by unfold Earlier at *; omega⟩

/-- The rows `FOR UPDATE SKIP LOCKED` can have. -/
def State.eligible [Fintype ι] (s : State ι) : List OutboxEvent :=
  s.outbox.1.filter fun e => e.published_at.isNone ∧ ¬ s.Locked e.id

/-- `claim_batch(conn, limit)`. -/
def claimBatch [Fintype ι] (s : State ι) (limit : Nat) (rank : Uuid → Nat) : List OutboxEvent :=
  (s.eligible.insertionSort (Earlier rank)).take limit

/-- The log after a send. -/
def sendLog (log : Topic → List Sent) (outcome : Outcome) (e : OutboxEvent) : Topic → List Sent :=
  if outcome.stored then Function.update log e.topic (log e.topic ++ [record e]) else log

/-- The row once it is published. -/
def OutboxEvent.mark (now : Int) (e : OutboxEvent) : OutboxEvent := { e with published_at := some now }

/-- `mark_published(conn, event_ids)`. -/
def markPublished (now : Int) (ids : List Uuid) (outbox : OutboxTable) : OutboxTable where
  val := outbox.1.map fun e => if e.id ∈ ids then OutboxEvent.mark now e else e
  property := by
    show (List.map OutboxEvent.id (outbox.1.map _)).Nodup
    rw [List.map_map, show OutboxEvent.id ∘ _ = OutboxEvent.id from ?_]
    · exact outbox.2
    · funext e
      show (if e.id ∈ ids then OutboxEvent.mark now e else e).id = e.id
      split <;> rfl

variable [Fintype ι] [DecidableEq ι]

/-- One step. -/
def step (s : State ι) : Action ι → Option (State ι)
  | .insert now id topic key payload =>
    (checked OutboxConstraints (s.outbox.1 ++ [recordEvent now id topic key payload])).map
      fun outbox => { s with outbox := outbox }
  | .claim i limit rank =>
    match s.pass i with
    | some _ => none
    | none =>
      match claimBatch s limit rank with
      -- `if not rows: return 0`
      | [] => some s
      | e :: rows => some { s with pass := Function.update s.pass i (some ⟨[], e :: rows⟩) }
  | .send i outcome =>
    match s.pass i with
    | some ⟨resolved, e :: todo⟩ =>
      some { s with
        log := sendLog s.log outcome e
        pass := Function.update s.pass i (some ⟨resolved ++ [(e, outcome)], todo⟩) }
    | _ => none
  | .finish i now =>
    match s.pass i with
    | some ⟨resolved, []⟩ =>
      some { s with
        outbox := markPublished now (Pass.delivered ⟨resolved, []⟩) s.outbox
        pass := Function.update s.pass i none }
    | _ => none
  | .abort i =>
    match s.pass i with
    | some _ => some { s with pass := Function.update s.pass i none }
    | none => none

/-! ## What a step does -/

section Steps

variable {s s' : State ι}

theorem step_insert {now : Int} {id : Uuid} {topic : Topic} {key : Text 200} {payload : Json}
    (h : step s (.insert now id topic key payload) = some s') :
    s'.outbox.1 = s.outbox.1 ++ [recordEvent now id topic key payload] ∧ s'.log = s.log ∧
      s'.pass = s.pass := by
  obtain ⟨outbox, houtbox, rfl⟩ := Option.map_eq_some_iff.mp h
  exact ⟨checked_eq_some houtbox, rfl, rfl⟩

/-- A claim finds nothing, or opens a pass. -/
theorem step_claim {i : ι} {limit : Nat} {rank : Uuid → Nat}
    (h : step s (.claim i limit rank) = some s') :
    s.pass i = none ∧ (s' = s ∨
      s' = { s with pass := Function.update s.pass i (some ⟨[], claimBatch s limit rank⟩) }) := by
  dsimp only [step] at h
  cases hpass : s.pass i with
  | some p =>
    rw [hpass] at h
    cases h
  | none =>
    rw [hpass] at h
    refine ⟨rfl, ?_⟩
    cases hbatch : claimBatch s limit rank with
    | nil =>
      rw [hbatch] at h
      exact .inl (Option.some.inj h).symm
    | cons e rows =>
      rw [hbatch] at h
      exact .inr (Option.some.inj h).symm

theorem step_send {i : ι} {outcome : Outcome} (h : step s (.send i outcome) = some s') :
    ∃ resolved e todo, s.pass i = some ⟨resolved, e :: todo⟩ ∧ s' = { s with
      log := sendLog s.log outcome e
      pass := Function.update s.pass i (some ⟨resolved ++ [(e, outcome)], todo⟩) } := by
  dsimp only [step] at h
  split at h
  · rename_i resolved e todo hpass
    exact ⟨resolved, e, todo, hpass, (Option.some.inj h).symm⟩
  · cases h

theorem step_finish {i : ι} {now : Int} (h : step s (.finish i now) = some s') :
    ∃ p, s.pass i = some p ∧ p.todo = [] ∧ s' = { s with
      outbox := markPublished now p.delivered s.outbox
      pass := Function.update s.pass i none } := by
  dsimp only [step] at h
  split at h
  · rename_i resolved hpass
    exact ⟨_, hpass, rfl, (Option.some.inj h).symm⟩
  · cases h

theorem step_abort {i : ι} (h : step s (.abort i) = some s') :
    s' = { s with pass := Function.update s.pass i none } := by
  dsimp only [step] at h
  split at h
  · exact (Option.some.inj h).symm
  · cases h

end Steps

/-! ## What every step keeps -/

omit [Fintype ι] [DecidableEq ι] in
/-- The broker has stored a record of the row. -/
def State.Logged (s : State ι) (e : OutboxEvent) : Prop := ∃ r ∈ s.log e.topic, r.IsOf e

instance (s : State ι) (e : OutboxEvent) : Decidable (s.Logged e) :=
  inferInstanceAs (Decidable (∃ r ∈ s.log e.topic, r.IsOf e))

/-- Passes hold unpublished rows of the outbox, oldest first, and no row is held by two; what the
    broker has stored of them is in the log, and the log is records of rows. -/
structure Sound (s : State ι) : Prop where
  held : ∀ i, ∀ p ∈ s.pass i, ∀ e ∈ p.rows, e ∈ s.outbox.1 ∧ e.published_at = none
  apart : ∀ i j, i ≠ j → ∀ p ∈ s.pass i, ∀ q ∈ s.pass j, ∀ e ∈ p.rows, ∀ e' ∈ q.rows, e.id ≠ e'.id
  ordered : ∀ i, ∀ p ∈ s.pass i, p.rows.Pairwise fun e e' => e.created_at ≤ e'.created_at
  stored : ∀ i, ∀ p ∈ s.pass i, ∀ x ∈ p.resolved, x.2.stored → s.Logged x.1
  origin : ∀ topic, ∀ r ∈ s.log topic, ∃ e ∈ s.outbox.1, e.topic = topic ∧ r = record e

section Invariant

variable {s s' : State ι}

omit [Fintype ι] [DecidableEq ι] in
/-- There is no pass yet, and no record. -/
theorem sound_start (outbox : OutboxTable) : Sound (start outbox : State ι) where
  held i p hp := by cases hp
  apart i j _ p hp := by cases hp
  ordered i p hp := by cases hp
  stored i p hp := by cases hp
  origin topic r hr := by cases hr

omit [Fintype ι] in
/-- A pass that ends leaves the others as they were. -/
theorem Sound.close (hs : Sound s) (i : ι) : Sound { s with pass := Function.update s.pass i none } := by
  have hmem : ∀ {j p}, p ∈ Function.update s.pass i none j → p ∈ s.pass j := by
    intro j p hp
    rcases mem_update hp with ⟨-, hp⟩ | ⟨-, hp⟩
    · cases hp
    · exact hp
  exact
    { held := fun j p hp => hs.held j p (hmem hp)
      apart := fun j k hjk p hp q hq => hs.apart j k hjk p (hmem hp) q (hmem hq)
      ordered := fun j p hp => hs.ordered j p (hmem hp)
      stored := fun j p hp => hs.stored j p (hmem hp)
      origin := hs.origin }

omit [DecidableEq ι] in
/-- What is claimed is unpublished and in nobody's hands. -/
theorem mem_claimBatch {limit : Nat} {rank : Uuid → Nat} {e : OutboxEvent}
    (he : e ∈ claimBatch s limit rank) :
    e ∈ s.outbox.1 ∧ e.published_at = none ∧ ¬ s.Locked e.id := by
  have hsorted := List.mem_of_mem_take he
  rw [List.mem_insertionSort] at hsorted
  obtain ⟨hmem, hwhere⟩ := List.mem_filter.mp hsorted
  obtain ⟨hnone, hlocked⟩ := of_decide_eq_true hwhere
  exact ⟨hmem, Option.isNone_iff_eq_none.mp hnone, hlocked⟩

omit [DecidableEq ι] in
/-- A batch is in the order of the claim. -/
theorem claimBatch_sorted (limit : Nat) (rank : Uuid → Nat) :
    (claimBatch s limit rank).Pairwise (Earlier rank) :=
  (List.pairwise_insertionSort (Earlier rank) s.eligible).sublist (List.take_sublist ..)

omit [DecidableEq ι] in
/-- **The oldest go first**: nothing a claim could have had is older than something it took. -/
theorem mem_claimBatch_of_older {limit : Nat} {rank : Uuid → Nat} {e e' : OutboxEvent}
    (he : e ∈ s.eligible) (he' : e' ∈ claimBatch s limit rank) (hold : e.created_at < e'.created_at) :
    e ∈ claimBatch s limit rank := by
  have hsorted := List.pairwise_insertionSort (Earlier rank) s.eligible
  rw [← List.take_append_drop limit (s.eligible.insertionSort (Earlier rank)),
    List.pairwise_append] at hsorted
  have hmem : e ∈ s.eligible.insertionSort (Earlier rank) := (List.mem_insertionSort _).mpr he
  rw [← List.take_append_drop limit (s.eligible.insertionSort (Earlier rank)), List.mem_append] at hmem
  rcases hmem with hmem | hmem
  · exact hmem
  · have hle := hsorted.2.2 e' he' e hmem
    unfold Earlier at hle
    omega

omit [Fintype ι] [DecidableEq ι] in
theorem Sound.insert (hs : Sound s) {e : OutboxEvent} (houtbox : s'.outbox.1 = s.outbox.1 ++ [e])
    (hlog : s'.log = s.log) (hpass : s'.pass = s.pass) : Sound s' where
  held i p hp x hx := by
    obtain ⟨hmem, hnone⟩ := hs.held i p (hpass ▸ hp) x hx
    exact ⟨houtbox ▸ List.mem_append_left _ hmem, hnone⟩
  apart i j hij p hp q hq := hs.apart i j hij p (hpass ▸ hp) q (hpass ▸ hq)
  ordered i p hp := hs.ordered i p (hpass ▸ hp)
  stored i p hp x hx hstored := by
    obtain ⟨r, hr, his⟩ := hs.stored i p (hpass ▸ hp) x hx hstored
    exact ⟨r, hlog ▸ hr, his⟩
  origin topic r hr := by
    obtain ⟨x, hx, htopic⟩ := hs.origin topic r (hlog ▸ hr)
    exact ⟨x, houtbox ▸ List.mem_append_left _ hx, htopic⟩

theorem Sound.claim (hs : Sound s) (i : ι) (limit : Nat) (rank : Uuid → Nat) :
    Sound { s with pass := Function.update s.pass i (some ⟨[], claimBatch s limit rank⟩) } where
  held j p hp e he := by
    rcases mem_update hp with ⟨-, hp⟩ | ⟨-, hp⟩
    · obtain rfl := Option.some.inj hp
      obtain ⟨hmem, hnone, -⟩ := mem_claimBatch he
      exact ⟨hmem, hnone⟩
    · exact hs.held j p hp e he
  apart j k hjk p hp q hq e he e' he' := by
    -- a batch is claimed from rows that no pass holds
    have hfree : ∀ {x y : OutboxEvent} {l q}, x ∈ claimBatch s limit rank → q ∈ s.pass l →
        y ∈ q.rows → x.id ≠ y.id := by
      intro x y l q hx hq hy hxy
      exact (mem_claimBatch hx).2.2 ⟨l, q, hq, hxy ▸ List.mem_map_of_mem hy⟩
    rcases mem_update hp with ⟨hj, hp⟩ | ⟨hj, hp⟩ <;> rcases mem_update hq with ⟨hk, hq⟩ | ⟨hk, hq⟩
    · exact absurd (hj.trans hk.symm) hjk
    · obtain rfl := Option.some.inj hp
      exact hfree he hq he'
    · obtain rfl := Option.some.inj hq
      exact (hfree he' hp he).symm
    · exact hs.apart j k hjk p hp q hq e he e' he'
  ordered j p hp := by
    rcases mem_update hp with ⟨-, hp⟩ | ⟨-, hp⟩
    · obtain rfl := Option.some.inj hp
      refine (claimBatch_sorted limit rank).imp fun h => ?_
      unfold Earlier at h
      omega
    · exact hs.ordered j p hp
  stored j p hp := by
    rcases mem_update hp with ⟨-, hp⟩ | ⟨-, hp⟩
    · obtain rfl := Option.some.inj hp
      intro x hx
      cases hx
    · exact hs.stored j p hp
  origin := hs.origin

/-- A send appends to the log of its own topic, if it is stored. -/
theorem sendLog_apply (log : Topic → List Sent) (outcome : Outcome) (e : OutboxEvent) (topic : Topic) :
    sendLog log outcome e topic
      = log topic ++ if outcome.stored ∧ topic = e.topic then [record e] else [] := by
  unfold sendLog
  by_cases hstored : outcome.stored
  · by_cases htopic : topic = e.topic
    · subst htopic
      simp [hstored]
    · simp [hstored, htopic]
  · simp [hstored]

omit [Fintype ι] in
/-- A send keeps what its pass holds, and only adds to the log. -/
theorem Sound.send (hs : Sound s) {i : ι} {outcome : Outcome} {resolved : List (OutboxEvent × Outcome)}
    {e : OutboxEvent} {todo : List OutboxEvent} (hi : s.pass i = some ⟨resolved, e :: todo⟩) :
    Sound { s with
      log := sendLog s.log outcome e
      pass := Function.update s.pass i (some ⟨resolved ++ [(e, outcome)], todo⟩) } := by
  -- every pass holds the rows it held before
  have hrows : ∀ {j p}, p ∈ Function.update s.pass i (some ⟨resolved ++ [(e, outcome)], todo⟩) j →
      ∃ q ∈ s.pass j, q.rows = p.rows := by
    intro j p hp
    rcases mem_update hp with ⟨rfl, hp'⟩ | ⟨-, hp⟩
    · obtain rfl := Option.some.inj hp'
      exact ⟨_, hi, by simp [Pass.rows]⟩
    · exact ⟨p, hp, rfl⟩
  have hmono : ∀ topic, ∀ r ∈ s.log topic, r ∈ sendLog s.log outcome e topic := by
    intro topic r hr
    rw [sendLog_apply]
    exact List.mem_append_left _ hr
  refine ⟨fun j p hp x hx => ?_, fun j k hjk p hp q hq x hx y hy => ?_, fun j p hp => ?_,
    fun j p hp x hx hstored => ?_, fun topic r hr => ?_⟩
  · obtain ⟨q, hq, heq⟩ := hrows hp
    exact hs.held j q hq x (heq ▸ hx)
  · obtain ⟨p', hp', heq⟩ := hrows hp
    obtain ⟨q', hq', heq'⟩ := hrows hq
    exact hs.apart j k hjk p' hp' q' hq' x (heq ▸ hx) y (heq' ▸ hy)
  · obtain ⟨q, hq, heq⟩ := hrows hp
    exact heq ▸ hs.ordered j q hq
  · have hold : ∀ q ∈ s.pass j, x ∈ q.resolved →
        State.Logged { s with
          log := sendLog s.log outcome e
          pass := Function.update s.pass i (some ⟨resolved ++ [(e, outcome)], todo⟩) } x.1 := by
      intro q hq hx
      obtain ⟨r, hr, his⟩ := hs.stored j q hq x hx hstored
      exact ⟨r, hmono _ r hr, his⟩
    rcases mem_update hp with ⟨rfl, hp'⟩ | ⟨-, hp⟩
    · obtain rfl := Option.some.inj hp'
      rcases List.mem_append.mp hx with hx | hx
      · exact hold _ hi hx
      · obtain rfl := List.mem_singleton.mp hx
        refine ⟨record e, ?_, isOf_record_iff.mpr rfl⟩
        show record e ∈ sendLog s.log outcome e e.topic
        rw [sendLog_apply, if_pos ⟨hstored, rfl⟩]
        exact List.mem_append_right _ List.mem_cons_self
    · exact hold p hp hx
  · have hr' : r ∈ sendLog s.log outcome e topic := hr
    rw [sendLog_apply, List.mem_append] at hr'
    rcases hr' with hr' | hr'
    · exact hs.origin topic r hr'
    · split at hr'
      · rename_i hnew
        obtain rfl := List.mem_singleton.mp hr'
        exact ⟨e, (hs.held i _ hi e (by simp [Pass.rows])).1, hnew.2.symm, rfl⟩
      · cases hr'

/-- The rows that are marked, and the others as they were. -/
theorem mem_markPublished {now : Int} {ids : List Uuid} {outbox : OutboxTable} {e : OutboxEvent} :
    e ∈ (markPublished now ids outbox).1 ↔
      ∃ x ∈ outbox.1, (if x.id ∈ ids then OutboxEvent.mark now x else x) = e :=
  List.mem_map

/-- What `mark_published` leaves of a row: everything but `published_at`. -/
theorem exists_of_mem_markPublished {now : Int} {ids : List Uuid} {outbox : OutboxTable}
    {e : OutboxEvent} (he : e ∈ (markPublished now ids outbox).1) :
    ∃ x ∈ outbox.1, e.id = x.id ∧ e.topic = x.topic ∧ e.key = x.key ∧
      e.created_at = x.created_at ∧ (e = x ∧ x.id ∉ ids ∨ e.published_at.isSome ∧ x.id ∈ ids) := by
  obtain ⟨x, hx, rfl⟩ := mem_markPublished.mp he
  refine ⟨x, hx, ?_⟩
  by_cases hid : x.id ∈ ids
  · rw [if_pos hid]
    exact ⟨rfl, rfl, rfl, rfl, .inr ⟨rfl, hid⟩⟩
  · rw [if_neg hid]
    exact ⟨rfl, rfl, rfl, rfl, .inl ⟨rfl, hid⟩⟩

omit [Fintype ι] in
theorem Sound.finish (hs : Sound s) {i : ι} {p : Pass} (hi : s.pass i = some p) (now : Int) :
    Sound { s with
      outbox := markPublished now p.delivered s.outbox
      pass := Function.update s.pass i none } := by
  have hclosed := hs.close i
  refine ⟨fun j q hq x hx => ?_, hclosed.apart, hclosed.ordered, hclosed.stored,
    fun topic r hr => ?_⟩
  · -- the other passes hold other rows than the one that marks its own
    obtain ⟨hmem, hnone⟩ := hclosed.held j q hq x hx
    refine ⟨mem_markPublished.mpr ⟨x, hmem, if_neg fun hid => ?_⟩, hnone⟩
    obtain ⟨⟨y, outcome⟩, hy, hid⟩ := List.mem_map.mp hid
    rcases mem_update hq with ⟨-, hq⟩ | ⟨hj, hq⟩
    · cases hq
    · refine hs.apart j i hj q hq p hi x hx y ?_ hid.symm
      exact List.mem_append_left _ (List.mem_map_of_mem (List.mem_filter.mp hy).1)
  · obtain ⟨x, hx, htopic, rfl⟩ := hs.origin topic r hr
    refine ⟨_, mem_markPublished.mpr ⟨x, hx, rfl⟩, ?_⟩
    split
    · exact ⟨htopic, rfl⟩
    · exact ⟨htopic, rfl⟩

/-- **Every step keeps it.** -/
theorem sound_step (s : State ι) (a : Action ι) (s' : State ι) (hs : Sound s)
    (h : step s a = some s') : Sound s' := by
  cases a with
  | insert now id topic key payload =>
    obtain ⟨houtbox, hlog, hpass⟩ := step_insert h
    exact hs.insert houtbox hlog hpass
  | claim i limit rank =>
    obtain ⟨-, rfl | rfl⟩ := step_claim h
    · exact hs
    · exact hs.claim i limit rank
  | send i outcome =>
    obtain ⟨resolved, e, todo, hi, rfl⟩ := step_send h
    exact hs.send hi
  | finish i now =>
    obtain ⟨p, hi, -, rfl⟩ := step_finish h
    exact hs.finish hi now
  | abort i =>
    obtain rfl := step_abort h
    exact hs.close i

end Invariant

end DjangoFlaskKafka.Relay
