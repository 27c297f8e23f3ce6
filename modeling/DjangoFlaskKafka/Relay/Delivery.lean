/-
  Delivery — whether `relay.py` loses or invents an event.

  1. **Program** — `run_once` of `services/relay/relay.py` by any number of relays, with nothing
     taken for granted of the broker: what a producer has been given may reach the log at any later
     time, more than once or never, also when the pass that gave it is long over (`store`).  A pass
     claims its rows, sends them one by one, resolves their futures and commits; `abort` is any
     exception, failed statement or crash, which rolls its transaction back.

  2. **Law** — `Delivers`: a row that is marked has its record in the log; one that is not can be
     claimed again, at the latest when the pass that holds it is over; and every record is a row's.

  3. **The crux** — the machine is an outbox (`Lib.Outbox`): it marks only rows whose futures have
     resolved, and a resolved future means that the record is in the log.
-/
import DjangoFlaskKafka.Relay.Program
import DjangoFlaskKafka.Lib.Outbox

namespace DjangoFlaskKafka.Relay.Delivery

open Python Kafka Postgres Posts Machine

/-! ## The program -/

/-- An open pass: its rows, those not yet sent, the futures not yet resolved, and `delivered`. -/
structure Pass where
  rows : List OutboxEvent
  unsent : List OutboxEvent
  futures : List OutboxEvent
  delivered : List Uuid

/-- The outbox, the log, what producers have been given, and the pass each relay is in. -/
structure State (ι : Type) where
  outbox : OutboxTable
  log : Topic → List Sent
  given : List OutboxEvent
  pass : ι → Option Pass

/-- What can happen to the outbox, to a relay and at the broker. -/
inductive Action (ι : Type) where
  | insert (now : Int) (id : Uuid) (topic : Topic) (key : Text 200) (payload : Json)
  | claim (i : ι) (limit : Nat) (rank : Uuid → Nat)
  | send (i : ι)
  | store (k : Nat)
  | resolve (i : ι) (acked : Bool)
  | commit (i : ι) (now : Int)
  | abort (i : ι)

variable {ι : Type}

/-- Nothing has happened yet. -/
def init : State ι where
  outbox := ⟨[], List.nodup_nil⟩
  log _ := []
  given := []
  pass _ := none

/-- The rows and who has locked them, as `claim_batch` meets them. -/
def State.locks (s : State ι) : Relay.State ι where
  outbox := s.outbox
  log := s.log
  pass i := (s.pass i).map fun p => ⟨[], p.rows⟩

/-- The broker has a record of the row. -/
def State.Logged (s : State ι) (e : OutboxEvent) : Prop := ∃ r ∈ s.log e.topic, r.IsOf e

instance (s : State ι) (e : OutboxEvent) : Decidable (s.Logged e) :=
  inferInstanceAs (Decidable (∃ r ∈ s.log e.topic, r.IsOf e))

variable [Fintype ι] [DecidableEq ι]

/-- One step. -/
def step (s : State ι) : Action ι → Option (State ι)
  | .insert now id topic key payload =>
    (checked OutboxConstraints (s.outbox.1 ++ [recordEvent now id topic key payload])).map
      fun outbox => { s with outbox := outbox }
  | .claim i limit rank =>
    match s.pass i with
    | some _ => none
    | none =>
      match claimBatch s.locks limit rank with
      | [] => some s
      | e :: rows =>
        some { s with pass := Function.update s.pass i (some ⟨e :: rows, e :: rows, [], []⟩) }
  | .send i =>
    match s.pass i with
    | some ⟨rows, e :: unsent, futures, delivered⟩ =>
      some { s with
        given := s.given ++ [e]
        pass := Function.update s.pass i (some ⟨rows, unsent, futures ++ [e], delivered⟩) }
    | _ => none
  | .store k =>
    s.given[k]?.map fun e =>
      { s with log := Function.update s.log e.topic (s.log e.topic ++ [record e]) }
  | .resolve i acked =>
    match s.pass i with
    | some ⟨rows, [], e :: futures, delivered⟩ =>
      -- a future resolves only once the broker has the record
      if acked ∧ ¬ s.Logged e then none
      else some { s with
        pass := Function.update s.pass i
          (some ⟨rows, [], futures, if acked then delivered ++ [e.id] else delivered⟩) }
    | _ => none
  | .commit i now =>
    match s.pass i with
    | some ⟨_, [], [], delivered⟩ =>
      some { s with
        outbox := markPublished now delivered s.outbox
        pass := Function.update s.pass i none }
    | _ => none
  | .abort i => (s.pass i).map fun _ => { s with pass := Function.update s.pass i none }

/-! ## The law -/

omit [DecidableEq ι] in
/-- The row can be claimed, by a relay that takes enough rows. -/
def State.Eligible (s : State ι) (e : OutboxEvent) : Prop := e ∈ s.locks.eligible

/-- Nothing is lost and nothing is invented. -/
structure Delivers (s : State ι) : Prop where
  published : ∀ e ∈ s.outbox.1, e.published_at.isSome → record e ∈ s.log e.topic
  unpublished : ∀ e ∈ s.outbox.1, e.published_at = none →
    s.Eligible e ∨ ∃ i s', step s (.abort i) = some s' ∧ s'.Eligible e
  origin : ∀ topic, ∀ r ∈ s.log topic, ∃ e ∈ s.outbox.1, e.topic = topic ∧ r = record e

/-! ## The invariant -/

/-- The row is in the outbox, perhaps marked since. -/
def State.Known (s : State ι) (e : OutboxEvent) : Prop :=
  ∃ x ∈ s.outbox.1, x.id = e.id ∧ record x = record e

/-- What is given or held is of the outbox, a pass delivers only what the log has, and no row is
    held by two. -/
structure Inv (s : State ι) : Prop where
  topics : ∀ topic, ∀ r ∈ s.log topic, r.topic = topic
  given : ∀ e ∈ s.given, s.Known e
  known : ∀ i, ∀ p ∈ s.pass i, ∀ e ∈ p.rows, s.Known e
  inside : ∀ i, ∀ p ∈ s.pass i, ∀ e ∈ p.unsent ++ p.futures, e ∈ p.rows
  delivered : ∀ i, ∀ p ∈ s.pass i, ∀ id ∈ p.delivered, ∃ e ∈ p.rows, e.id = id ∧
    record e ∈ s.log e.topic
  apart : ∀ i j, i ≠ j → ∀ p ∈ s.pass i, ∀ q ∈ s.pass j, ∀ e ∈ p.rows, ∀ e' ∈ q.rows, e.id ≠ e'.id

/-- The machine as an outbox. -/
def view (s : State ι) : Outbox.State OutboxEvent Sent := ⟨s.outbox.1, {r | r ∈ s.log r.topic}⟩

/-- The row is marked. -/
def Published (e : OutboxEvent) : Prop := e.published_at.isSome

/-- The outbox is sound in the general sense, for this record and this mark. -/
abbrev Sound (s : State ι) : Prop := Outbox.Sound record Published (view s)

section Steps

variable {s s' : State ι}

omit [Fintype ι] [DecidableEq ι] in
/-- There are no rows and no passes. -/
theorem inv_init : Inv (init : State ι) where
  topics topic r hr := by cases hr
  given e he := by cases he
  known i p hp := by cases hp
  inside i p hp := by cases hp
  delivered i p hp := by cases hp
  apart i j _ p hp := by cases hp

omit [Fintype ι] [DecidableEq ι] in
/-- With a header in the log, the record is in the log. -/
theorem Sound.record_mem (hs : Sound s) (hi : Inv s) {e : OutboxEvent} (he : s.Known e)
    (hlogged : s.Logged e) : record e ∈ s.log e.topic := by
  obtain ⟨r, hr, his⟩ := hlogged
  have htopic : r.topic = e.topic := hi.topics e.topic r hr
  obtain ⟨x, hx, rfl⟩ := hs.origin r (show r ∈ s.log r.topic from htopic ▸ hr)
  obtain ⟨y, hy, hyid, hye⟩ := he
  have hsame : x = y := List.inj_on_of_nodup_map s.outbox.2 hx hy
    ((isOf_record_iff.mp his).trans hyid.symm)
  rw [← hye, ← hsame]
  exact hr

omit [Fintype ι] [DecidableEq ι] in
/-- A larger outbox and a larger log. -/
theorem Inv.grow (hi : Inv s) {outbox : OutboxTable} {log : Topic → List Sent}
    (houtbox : ∀ x ∈ s.outbox.1, ∃ y ∈ outbox.1, y.id = x.id ∧ record y = record x)
    (hlog : ∀ topic, ∀ r ∈ s.log topic, r ∈ log topic)
    (htopics : ∀ topic, ∀ r ∈ log topic, r.topic = topic) :
    Inv { s with outbox := outbox, log := log } := by
  have hknown : ∀ e, s.Known e → State.Known { s with outbox := outbox, log := log } e := by
    rintro e ⟨x, hx, hid, hrecord⟩
    obtain ⟨y, hy, hid', hrecord'⟩ := houtbox x hx
    exact ⟨y, hy, hid'.trans hid, hrecord'.trans hrecord⟩
  refine ⟨htopics, fun e he => hknown e (hi.given e he), fun i p hp e he =>
    hknown e (hi.known i p hp e he), hi.inside, fun i p hp id hid => ?_, hi.apart⟩
  obtain ⟨e, he, rfl, hlogged⟩ := hi.delivered i p hp id hid
  exact ⟨e, he, rfl, hlog _ _ hlogged⟩

omit [Fintype ι] in
/-- One pass has changed, in a way that keeps its own part of the invariant. -/
theorem Inv.update (hi : Inv s) {given : List OutboxEvent} (hgiven : ∀ e ∈ given, s.Known e) (i : ι)
    {x : Option Pass} (hknown : ∀ p ∈ x, ∀ e ∈ p.rows, s.Known e)
    (hinside : ∀ p ∈ x, ∀ e ∈ p.unsent ++ p.futures, e ∈ p.rows)
    (hdelivered : ∀ p ∈ x, ∀ id ∈ p.delivered, ∃ e ∈ p.rows, e.id = id ∧ record e ∈ s.log e.topic)
    (hapart : ∀ j, j ≠ i → ∀ p ∈ x, ∀ q ∈ s.pass j, ∀ e ∈ p.rows, ∀ e' ∈ q.rows, e.id ≠ e'.id) :
    Inv { s with given := given, pass := Function.update s.pass i x } := by
  refine ⟨hi.topics, hgiven, ?_, ?_, ?_, ?_⟩
  · intro j p hp
    rcases mem_update hp with ⟨-, hp⟩ | ⟨-, hp⟩
    · exact hknown p hp
    · exact hi.known j p hp
  · intro j p hp
    rcases mem_update hp with ⟨-, hp⟩ | ⟨-, hp⟩
    · exact hinside p hp
    · exact hi.inside j p hp
  · intro j p hp
    rcases mem_update hp with ⟨-, hp⟩ | ⟨-, hp⟩
    · exact hdelivered p hp
    · exact hi.delivered j p hp
  · intro j k hjk p hp q hq e he e' he'
    rcases mem_update hp with ⟨hj, hp⟩ | ⟨hj, hp⟩ <;> rcases mem_update hq with ⟨hk, hq⟩ | ⟨hk, hq⟩
    · exact absurd (hj.trans hk.symm) hjk
    · exact hapart k hk p hp q hq e he e' he'
    · exact (hapart j hj q hq p hp e' he' e he).symm
    · exact hi.apart j k hjk p hp q hq e he e' he'

omit [Fintype ι] [DecidableEq ι] in
/-- The log as a set, once a record is stored. -/
theorem view_store (s : State ι) (e : OutboxEvent) :
    (view { s with log := Function.update s.log e.topic (s.log e.topic ++ [record e]) }).log
      = insert (record e) (view s).log := by
  ext r
  show r ∈ Function.update s.log e.topic (s.log e.topic ++ [record e]) r.topic ↔
    r = record e ∨ r ∈ s.log r.topic
  by_cases htopic : r.topic = e.topic
  · rw [htopic, Function.update_self, List.mem_append, List.mem_singleton, or_comm]
  · rw [Function.update_of_ne htopic]
    refine ⟨.inr, ?_⟩
    rintro (rfl | hr)
    · exact absurd rfl htopic
    · exact hr

/-- A row comes in, unpublished. -/
theorem refines_insert {now id topic key payload} (hi : Inv s)
    (h : step s (.insert now id topic key payload) = some s') :
    Inv s' ∧ Outbox.Step record Published (view s) (view s') := by
  obtain ⟨outbox, houtbox, rfl⟩ := Option.map_eq_some_iff.mp h
  have hrows := checked_eq_some houtbox
  refine ⟨hi.grow (fun x hx => ⟨x, hrows ▸ List.mem_append_left _ hx, rfl, rfl⟩)
    (fun _ _ hr => hr) hi.topics, ?_⟩
  have hview : view { s with outbox := outbox }
      = ⟨(view s).rows ++ [recordEvent now id topic key payload], (view s).log⟩ := by
    unfold view
    rw [hrows]
  rw [hview]
  exact .insert _ _ (by simp [Published, recordEvent])

/-- A pass begins with rows that nobody holds. -/
theorem refines_claim {i limit rank} (hi : Inv s) (h : step s (.claim i limit rank) = some s') :
    Inv s' ∧ Outbox.Step record Published (view s) (view s') := by
  dsimp only [step] at h
  split at h
  · cases h
  split at h
  · obtain rfl := Option.some.inj h
    exact ⟨hi, .other _⟩
  next e rows hbatch =>
    obtain rfl := Option.some.inj h
    rw [← hbatch]
    have hmem : ∀ x ∈ claimBatch s.locks limit rank, x ∈ s.outbox.1 ∧ ¬ s.locks.Locked x.id :=
      fun x hx => ⟨(mem_claimBatch hx).1, (mem_claimBatch hx).2.2⟩
    refine ⟨hi.update hi.given i (fun p hp x hx => ?_) (fun p hp x hx => ?_) (fun p hp => ?_)
      (fun j _ p hp q hq x hx y hy => ?_), .other _⟩ <;> obtain rfl := Option.some.inj hp
    · exact ⟨x, (hmem x hx).1, rfl, rfl⟩
    · simpa using hx
    · simp
    · intro hid
      refine (hmem x hx).2 ⟨j, ⟨[], q.rows⟩, ?_, ?_⟩
      · exact Option.map_eq_some_iff.mpr ⟨q, hq, rfl⟩
      · rw [hid]
        exact List.mem_map_of_mem hy

/-- A row of the pass is given to the producer. -/
theorem refines_send {i} (hi : Inv s) (h : step s (.send i) = some s') :
    Inv s' ∧ Outbox.Step record Published (view s) (view s') := by
  dsimp only [step] at h
  split at h
  next rows e unsent futures delivered hpass =>
    obtain rfl := Option.some.inj h
    have hp : ⟨rows, e :: unsent, futures, delivered⟩ ∈ s.pass i := hpass
    have he : e ∈ rows := hi.inside i _ hp e (by simp)
    refine ⟨hi.update (fun x hx => ?_) i (fun p hq x hx => ?_) (fun p hq x hx => ?_)
      (fun p hq id hid => ?_) (fun j hj p hq q hqj x hx y hy => ?_), .other _⟩
    · rcases List.mem_append.mp hx with hx | hx
      · exact hi.given x hx
      · rw [List.mem_singleton.mp hx]
        exact hi.known i _ hp e he
    all_goals obtain rfl := Option.some.inj hq
    · exact hi.known i _ hp x hx
    · refine hi.inside i _ hp x ?_
      simp only [List.mem_append, List.mem_cons, List.not_mem_nil, or_false] at hx ⊢
      tauto
    · exact hi.delivered i _ hp id hid
    · exact hi.apart i j hj.symm _ hp q hqj x hx y hy
  · cases h

/-- The broker stores a row that was given. -/
theorem refines_store {k} (hi : Inv s) (h : step s (.store k) = some s') :
    Inv s' ∧ Outbox.Step record Published (view s) (view s') := by
  obtain ⟨e, he, rfl⟩ := Option.map_eq_some_iff.mp h
  obtain ⟨x, hx, -, hrecord⟩ := hi.given e (List.mem_of_getElem? he)
  refine ⟨hi.grow (fun x hx => ⟨x, hx, rfl, rfl⟩) (fun topic r hr => ?_) (fun topic r hr => ?_), ?_⟩
  · by_cases htopic : topic = e.topic
    · subst htopic
      rw [Function.update_self]
      exact List.mem_append_left _ hr
    · rwa [Function.update_of_ne htopic]
  · by_cases htopic : topic = e.topic
    · subst htopic
      rw [Function.update_self] at hr
      rcases List.mem_append.mp hr with hr | hr
      · exact hi.topics _ r hr
      · rw [List.mem_singleton.mp hr]
        rfl
    · rw [Function.update_of_ne htopic] at hr
      exact hi.topics topic r hr
  · have hview : view { s with log := Function.update s.log e.topic (s.log e.topic ++ [record e]) }
        = ⟨(view s).rows, insert (record x) (view s).log⟩ := by
      rw [hrecord, ← view_store]
      rfl
    rw [hview]
    exact .store _ x hx

/-- What a pass takes for delivered, the broker has. -/
theorem refines_resolve {i acked} (hi : Inv s) (hs : Sound s)
    (h : step s (.resolve i acked) = some s') :
    Inv s' ∧ Outbox.Step record Published (view s) (view s') := by
  dsimp only [step] at h
  split at h
  next rows e futures delivered hpass =>
    split at h
    · cases h
    next hacked =>
      obtain rfl := Option.some.inj h
      have hp : ⟨rows, [], e :: futures, delivered⟩ ∈ s.pass i := hpass
      have he : e ∈ rows := hi.inside i _ hp e (by simp)
      refine ⟨hi.update hi.given i (fun p hq x hx => ?_) (fun p hq x hx => ?_)
        (fun p hq id hid => ?_) (fun j hj p hq q hqj x hx y hy => ?_), .other _⟩
      all_goals obtain rfl := Option.some.inj hq
      · exact hi.known i _ hp x hx
      · refine hi.inside i _ hp x ?_
        simp only [List.mem_append, List.mem_cons, List.not_mem_nil, false_or] at hx ⊢
        tauto
      · have hid : (acked ∧ id = e.id) ∨ id ∈ delivered := by
          dsimp only at hid
          split at hid
          next hyes =>
            rcases List.mem_append.mp hid with hid | hid
            · exact .inr hid
            · exact .inl ⟨hyes, List.mem_singleton.mp hid⟩
          · exact .inr hid
        rcases hid with ⟨hyes, rfl⟩ | hid
        -- an acknowledgement comes only of what the log has
        · have hlogged : s.Logged e := by
            by_contra hnot
            exact hacked ⟨hyes, hnot⟩
          exact ⟨e, he, rfl, Sound.record_mem hs hi (hi.known i _ hp e he) hlogged⟩
        · exact hi.delivered i _ hp id hid
      · exact hi.apart i j hj.symm _ hp q hqj x hx y hy
  · cases h

/-- A commit marks what the log has. -/
theorem refines_commit {i now} (hi : Inv s) (h : step s (.commit i now) = some s') :
    Inv s' ∧ Outbox.Step record Published (view s) (view s') := by
  dsimp only [step] at h
  split at h
  next rows delivered hpass =>
    obtain rfl := Option.some.inj h
    have hp : ⟨rows, [], [], delivered⟩ ∈ s.pass i := hpass
    have hclosed : Inv { s with pass := Function.update s.pass i none } :=
      hi.update hi.given i (by simp) (by simp) (by simp) (by simp)
    refine ⟨hclosed.grow (fun x hx => ?_) (fun _ _ hr => hr) hi.topics, ?_⟩
    · refine ⟨_, mem_markPublished.mpr ⟨x, hx, rfl⟩, ?_⟩
      split <;> exact ⟨rfl, rfl⟩
    · refine .mark (view s) (fun e => if e.id ∈ delivered then OutboxEvent.mark now e else e)
        (fun e => ?_) fun e he hpublished => ?_
      · split <;> rfl
      · by_cases hid : e.id ∈ delivered
        · obtain ⟨x, hx, hxid, hlogged⟩ := hi.delivered i _ hp e.id hid
          obtain ⟨y, hy, hyid, hye⟩ := hi.known i _ hp x hx
          have hsame : y = e := List.inj_on_of_nodup_map s.outbox.2 hy he (hyid.trans hxid)
          refine .inr ?_
          rw [← hsame, hye]
          exact hlogged
        · rw [if_neg hid] at hpublished
          exact .inl hpublished
  · cases h

/-- A pass that is given up publishes nothing. -/
theorem refines_abort {i} (hi : Inv s) (h : step s (.abort i) = some s') :
    Inv s' ∧ Outbox.Step record Published (view s) (view s') := by
  obtain ⟨p, -, rfl⟩ := Option.map_eq_some_iff.mp h
  exact ⟨hi.update hi.given i (by simp) (by simp) (by simp) (by simp), .other _⟩

/-- **Every step is a step of an outbox.** -/
theorem refines (s : State ι) (a : Action ι) (s' : State ι) (hi : Inv s) (hs : Sound s)
    (h : step s a = some s') : Inv s' ∧ Outbox.Step record Published (view s) (view s') := by
  cases a with
  | insert now id topic key payload => exact refines_insert hi h
  | claim i limit rank => exact refines_claim hi h
  | send i => exact refines_send hi h
  | store k => exact refines_store hi h
  | resolve i acked => exact refines_resolve hi hs h
  | commit i now => exact refines_commit hi h
  | abort i => exact refines_abort hi h

/-- A row that is not marked can be claimed, now or once the pass that holds it is over. -/
theorem Inv.claimable (hi : Inv s) {e : OutboxEvent} (he : e ∈ s.outbox.1)
    (hnone : e.published_at = none) :
    s.Eligible e ∨ ∃ i s', step s (.abort i) = some s' ∧ s'.Eligible e := by
  have heligible : ∀ {t : State ι}, e ∈ t.outbox.1 → ¬ t.locks.Locked e.id → t.Eligible e :=
    fun hmem hfree => List.mem_filter.mpr ⟨hmem, decide_eq_true ⟨by rw [hnone]; rfl, hfree⟩⟩
  by_cases hlocked : s.locks.Locked e.id
  · obtain ⟨i, p, hp, hid⟩ := hlocked
    obtain ⟨p, hpass, rfl⟩ := Option.map_eq_some_iff.mp hp
    obtain ⟨x, hx, hxid⟩ := List.mem_map.mp hid
    refine .inr ⟨i, _, Option.map_eq_some_iff.mpr ⟨p, hpass, rfl⟩, heligible he ?_⟩
    rintro ⟨j, q, hq, hid'⟩
    obtain ⟨q, hqpass, rfl⟩ := Option.map_eq_some_iff.mp hq
    obtain ⟨y, hy, hyid⟩ := List.mem_map.mp hid'
    rcases mem_update hqpass with ⟨-, hqpass⟩ | ⟨hj, hqpass⟩
    · cases hqpass
    · exact hi.apart i j hj.symm p hpass q hqpass x hx y hy (hxid.trans hyid.symm)
  · exact .inl (heligible he hlocked)

/-- The law, from the two invariants. -/
theorem delivers_of (hi : Inv s) (hs : Sound s) : Delivers s where
  published e he hpublished := hs.stored e he hpublished
  unpublished e he hnone := hi.claimable he hnone
  origin topic r hr := by
    have htopic := hi.topics topic r hr
    obtain ⟨e, he, rfl⟩ := hs.origin r (show r ∈ s.log r.topic from htopic ▸ hr)
    exact ⟨e, he, htopic, rfl⟩

/-- **`relay.py` neither loses nor invents an event**, whatever the broker does, whatever fails and
    whoever dies. -/
theorem throughout_delivers (acts : List (Action ι)) :
    Throughout step Delivers (init : State ι) acts := by
  have hempty : Sound (init : State ι) := by
    have hview : view (init : State ι) = ⟨[], ∅⟩ := by
      unfold view init
      simp
    unfold Sound
    rw [hview]
    exact Outbox.sound_empty
  exact (Outbox.throughout_sound view refines inv_init hempty acts).mono
    fun s hs => delivers_of hs.1 hs.2

end Steps

end DjangoFlaskKafka.Relay.Delivery
