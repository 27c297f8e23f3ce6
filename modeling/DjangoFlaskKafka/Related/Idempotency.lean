/-
  Idempotency — at most one call commits an event, whoever else is at it.

  1. **Program** — `handle` again, cut in three where other instances can get between: the lookup in
     `processed_events`, what the handler reads, and the one commit.  `next` is one of the three, on
     the committed rows as they are by then; `drive_eq_handle` puts them back together.  Instances
     take any messages, so an event may be delivered at several offsets and to several of them at
     once.  Any statement may fail, and so may any commit; an instance may die anywhere (`crash`).

  2. **Law** — `Idempotent`, over a history of the calls and of the commits that no step reads.

  3. **The crux** — the lookup excludes nobody, since two calls can both find nothing.  The primary
     key of `processed_events` does: it is checked by the commit that carries the handler's work, so
     the ids of all commits are different because the table could not hold them otherwise.
-/
import DjangoFlaskKafka.Related.Consumer
import DjangoFlaskKafka.Lib.Machine

namespace DjangoFlaskKafka.Related.Idempotency

open Python Kafka Machine

variable {σ : Type} [Zero σ] (L : Libs σ)

/-! ## The program -/

/-- How far a call has come: nowhere, past the lookup, or with the work of its handler in hand. -/
inductive Stage (σ : Type) where
  | start
  | looked (event_id : String)
  | worked (event_id : String) (work : Work σ)

/-- How a call goes on: to another stage, or it ends, perhaps with a commit. -/
inductive Next (σ : Type) where
  | goes (stage : Stage σ)
  | ends (reply : Reply) (committed : Option (Db σ))

/-- What a call does next; `fails` is its statement or its commit failing. -/
def next (now : Int) (fails : Bool) (db : Db σ) (m : Message) : Stage σ → Next σ
  | .start =>
    match eventIdFor m with
    | .error e => .ends (.raised e) none
    | .ok event_id =>
      if fails ∨ nul ∈ event_id.toList then .ends (recover .sqlAlchemyError) none
      else if db.processed_events.1.any fun e => e.event_id = event_id then .ends (.returned true) none
      else .goes (.looked event_id)
  | .looked event_id =>
    if fails then .ends (recover .sqlAlchemyError) none
    else match HANDLERS L now db m.value m.topic with
      | .error e => .ends (recover e) none
      | .ok work => .goes (.worked event_id work)
  | .worked event_id work =>
    match if fails then none else db.commit work ⟨event_id, m.topic⟩ with
    | none => .ends (recover .sqlAlchemyError) none
    | some db' =>
      match m.value.get "slug" with
      | .ok _ => .ends (.returned true) (some db')
      | .error e => .ends (recover e) (some db')

/-- The rest of a call, with nobody else at work. -/
def drive (now : Int) (db : Db σ) (m : Message) : Nat → Stage σ → Option (Db σ × Reply)
  | 0, _ => none
  | n + 1, stage =>
    match next L now false db m stage with
    | .goes stage' => drive now db m n stage'
    | .ends reply committed => some (committed.getD db, reply)

/-- **The three parts are `handle`** when nothing comes between. -/
theorem drive_eq_handle (now : Int) (db : Db σ) (m : Message) :
    drive L now db m 3 .start = some (handle L now db m .none) := by
  unfold handle
  cases hid : eventIdFor m with
  | error e => simp [drive, next, hid]
  | ok event_id =>
    dsimp only
    by_cases hnul : nul ∈ event_id.toList
    · rw [if_pos (.inr hnul)]
      simp only [drive, next, hid, hnul, or_true, if_true, Option.getD_none]
    rw [if_neg (by simp [hnul])]
    by_cases hseen : (db.processed_events.1.any fun e => e.event_id = event_id)
    · rw [if_pos hseen]
      simp only [drive, next, hid, hnul, if_pos hseen, Bool.false_eq_true, or_false, if_false,
        Option.getD_none]
    rw [if_neg hseen]
    cases hwork : HANDLERS L now db m.value m.topic with
    | error e =>
      simp only [drive, next, hid, hwork, hnul, if_neg hseen, Bool.false_eq_true, or_false, if_false,
        Option.getD_none]
    | ok work =>
      dsimp only
      rw [if_neg (by decide : ¬ Fault.none = Fault.write)]
      simp only [drive, next, hid, hwork, hnul, if_neg hseen, Bool.false_eq_true, or_false, if_false]
      cases db.commit work ⟨event_id, m.topic⟩ with
      | none => rfl
      | some db' => cases m.value <;> rfl

/-- A call under way; every call has a number. -/
structure Running (σ : Type) where
  number : Nat
  message : Message
  stage : Stage σ

/-- A call that has returned or raised. -/
structure Finished where
  number : Nat
  message : Message
  reply : Reply

/-- A commit, and the database it left. -/
structure Commit (σ : Type) where
  number : Nat
  message : Message
  db : Db σ

/-- The database and the call each instance is in; and the history. -/
structure State (ι σ : Type) where
  db : Db σ
  running : ι → Option (Running σ)
  started : Nat
  finished : List Finished
  commits : List (Commit σ)

/-- A consumer takes a message, goes on by one statement, or dies. -/
inductive Action (ι : Type) where
  | receive (i : ι) (m : Message)
  | proceed (i : ι) (now : Int) (fails : Bool)
  | crash (i : ι)

variable {ι : Type}

/-- A database, and nobody at work. -/
def start (db : Db σ) : State ι σ := ⟨db, fun _ => none, 0, [], []⟩

section Machine

variable [DecidableEq ι]

/-- One step. -/
def step (s : State ι σ) : Action ι → Option (State ι σ)
  | .receive i m =>
    match s.running i with
    | some _ => none
    | none =>
      some { s with
        running := Function.update s.running i (some ⟨s.started, m, .start⟩)
        started := s.started + 1 }
  | .proceed i now fails =>
    match s.running i with
    | none => none
    | some r =>
      match next L now fails s.db r.message r.stage with
      | .goes stage =>
        some { s with running := Function.update s.running i (some { r with stage := stage }) }
      | .ends reply committed =>
        some { s with
          db := committed.getD s.db
          running := Function.update s.running i none
          finished := s.finished ++ [⟨r.number, r.message, reply⟩]
          commits := s.commits ++ (committed.map fun db => ⟨r.number, r.message, db⟩).toList }
  | .crash i =>
    match s.running i with
    | none => none
    | some _ => some { s with running := Function.update s.running i none }

end Machine

/-! ## The law -/

/-- Every event takes effect at most once. -/
structure Idempotent (db₀ : Db σ) (s : State ι σ) : Prop where
  /-- only commits change the database -/
  changes : s.db = (s.commits.getLast?.map Commit.db).getD db₀
  /-- no two of an event, and none of one that had been applied before -/
  once : (s.commits.map fun c => eventIdFor c.message).Nodup
  fresh : ∀ c ∈ s.commits, ¬ db₀.Applied c.message
  returnedTrue : ∀ f ∈ s.finished, f.reply = .returned true → s.db.Applied f.message
  returnedFalse : ∀ f ∈ s.finished, f.reply = .returned false → ∀ c ∈ s.commits, c.number ≠ f.number

/-! ## What a part of a call does -/

/-- The stage is one of this message. -/
def Stage.Of (m : Message) : Stage σ → Prop
  | .start => True
  | .looked event_id | .worked event_id _ => eventIdFor m = .ok event_id

/-- A call ends with its event applied, or not with `True`; and it commits nothing, or its event id
    too, and does not return `False` then. -/
structure Ends (db : Db σ) (m : Message) (reply : Reply) (committed : Option (Db σ)) : Prop where
  applied : reply = .returned true → (committed.getD db).Applied m
  commit : ∀ db' ∈ committed, reply ≠ .returned false ∧ ∃ event_id, eventIdFor m = .ok event_id ∧
    db'.processed_events.1 = db.processed_events.1 ++ [⟨event_id, m.topic⟩]

omit [Zero σ] in
/-- A call that ends in an error has committed nothing. -/
theorem ends_fail (db : Db σ) (m : Message) (e : PyErr) : Ends db m (recover e) none :=
  ⟨fun h => absurd h (recover_ne_true e), by simp⟩

omit [Zero σ] in
/-- One that commits has put its event on record. -/
theorem ends_commit {db db' : Db σ} {m : Message} {event_id : String} {work : Work σ} {reply : Reply}
    (hid : eventIdFor m = .ok event_id) (h : db.commit work ⟨event_id, m.topic⟩ = some db')
    (hreply : reply ≠ .returned false) : Ends db m reply (some db') where
  applied _ := by
    refine ⟨event_id, hid, ⟨event_id, m.topic⟩, ?_, rfl⟩
    show _ ∈ db'.processed_events.1
    rw [(commit_eq_some h).2]
    exact List.mem_append_right _ List.mem_cons_self
  commit x hx := by
    obtain rfl := Option.some.inj hx
    exact ⟨hreply, event_id, hid, (commit_eq_some h).2⟩

variable {L}

/-- **What a call can do next.** -/
theorem next_cases (now : Int) (fails : Bool) (db : Db σ) (m : Message) {stage : Stage σ}
    (hstage : stage.Of m) :
    (∃ stage', next L now fails db m stage = .goes stage' ∧ stage'.Of m) ∨
      ∃ reply committed, next L now fails db m stage = .ends reply committed ∧
        Ends db m reply committed := by
  cases stage with
  | start =>
    dsimp only [next]
    cases hid : eventIdFor m with
    | error e => exact .inr ⟨_, _, rfl, by simp, by simp⟩
    | ok event_id =>
      dsimp only
      by_cases hfails : fails ∨ nul ∈ event_id.toList
      · rw [if_pos hfails]
        exact .inr ⟨_, _, rfl, ends_fail db m _⟩
      · rw [if_neg hfails]
        split
        next hseen =>
          refine .inr ⟨_, _, rfl, fun _ => ?_, by simp⟩
          obtain ⟨e, he, heq⟩ := List.any_eq_true.mp hseen
          exact ⟨event_id, hid, e, he, of_decide_eq_true heq⟩
        · exact .inl ⟨_, rfl, hid⟩
  | looked event_id =>
    dsimp only [next]
    cases fails with
    | true => exact .inr ⟨_, _, rfl, ends_fail db m _⟩
    | false =>
      rw [if_neg Bool.false_ne_true]
      cases HANDLERS L now db m.value m.topic with
      | error e => exact .inr ⟨_, _, rfl, ends_fail db m e⟩
      | ok work => exact .inl ⟨_, rfl, hstage⟩
  | worked event_id work =>
    dsimp only [next]
    cases fails with
    | true => exact .inr ⟨_, _, rfl, ends_fail db m _⟩
    | false =>
      rw [if_neg Bool.false_ne_true]
      cases hcommit : db.commit work ⟨event_id, m.topic⟩ with
      | none => exact .inr ⟨_, _, rfl, ends_fail db m _⟩
      | some db' =>
        -- the log line fails on a value that is not a dict, and that is not caught
        have hreply : ∀ e, m.value.get "slug" = .error e → recover e ≠ .returned false := by
          cases m.value <;> simp [Json.get, recover, caught]
        dsimp only
        cases hslug : m.value.get "slug" with
        | ok x => exact .inr ⟨_, _, rfl, ends_commit hstage hcommit (by simp)⟩
        | error e => exact .inr ⟨_, _, rfl, ends_commit hstage hcommit (hreply e hslug)⟩

/-! ## The invariant -/

/-- The event ids of a database, as `event_id_for` gives them. -/
def eventIds (db : Db σ) : List (Except PyErr String) :=
  db.processed_events.1.map fun e => .ok e.event_id

omit [Zero σ] in
/-- The primary key of `processed_events`. -/
theorem nodup_eventIds (db : Db σ) : (eventIds db).Nodup := by
  have hids : (db.processed_events.1.map ProcessedEvent.event_id).Nodup := db.processed_events.2.1
  have hok := hids.map (f := (Except.ok : String → Except PyErr String)) fun _ _ h => Except.ok.inj h
  rwa [List.map_map] at hok

omit [Zero σ] in
/-- An event has been applied when its id is on record. -/
theorem applied_iff {db : Db σ} {m : Message} : db.Applied m ↔ eventIdFor m ∈ eventIds db := by
  constructor
  · rintro ⟨event_id, hid, e, he, rfl⟩
    rw [hid]
    exact List.mem_map_of_mem he
  · intro h
    obtain ⟨e, he, heq⟩ := List.mem_map.mp h
    exact ⟨e.event_id, heq.symm, e, he, rfl⟩

/-- The history is that of the database, and calls have numbers of their own. -/
structure Inv (db₀ : Db σ) (s : State ι σ) : Prop where
  changes : s.db = (s.commits.getLast?.map Commit.db).getD db₀
  processed : eventIds s.db = eventIds db₀ ++ s.commits.map fun c => eventIdFor c.message
  stages : ∀ i, ∀ r ∈ s.running i, r.stage.Of r.message
  numbers : ∀ i, ∀ r ∈ s.running i, r.number < s.started ∧ ∀ f ∈ s.finished, f.number ≠ r.number
  apart : ∀ i j, i ≠ j → ∀ r ∈ s.running i, ∀ r' ∈ s.running j, r.number ≠ r'.number
  past : ∀ f ∈ s.finished, f.number < s.started
  unique : (s.finished.map Finished.number).Nodup
  committed : ∀ c ∈ s.commits, ∃ f ∈ s.finished, f.number = c.number ∧ f.reply ≠ .returned false
  applied : ∀ f ∈ s.finished, f.reply = .returned true → s.db.Applied f.message

omit [Zero σ] in
/-- Nothing has been committed at the start. -/
theorem inv_start (db : Db σ) : Inv db (start db : State ι σ) where
  changes := rfl
  processed := (List.append_nil _).symm
  stages i r hr := by cases hr
  numbers i r hr := by cases hr
  apart i j _ r hr := by cases hr
  past f hf := by cases hf
  unique := List.nodup_nil
  committed c hc := by cases hc
  applied f hf := by cases hf

omit [Zero σ] in
/-- The law, from the invariant. -/
theorem Inv.idempotent {db₀ : Db σ} {s : State ι σ} (hs : Inv db₀ s) : Idempotent db₀ s := by
  have hnodup := nodup_eventIds s.db
  rw [hs.processed, List.nodup_append] at hnodup
  refine ⟨hs.changes, hnodup.2.1, fun c hc happlied => ?_, hs.applied, fun f hf hreply c hc hsame => ?_⟩
  · exact hnodup.2.2 _ (applied_iff.mp happlied) _ (List.mem_map_of_mem hc) rfl
  · obtain ⟨f', hf', hnumber, hne⟩ := hs.committed c hc
    rw [List.inj_on_of_nodup_map hs.unique hf' hf (hnumber.trans hsame)] at hne
    exact hne hreply

variable [DecidableEq ι]

omit [Zero σ] in
/-- One call has gone on, and has kept its number. -/
theorem Inv.update {db₀ : Db σ} {s : State ι σ} (hs : Inv db₀ s) {i : ι} {x : Option (Running σ)}
    (hx : ∀ r ∈ x, r.stage.Of r.message ∧ ∃ r' ∈ s.running i, r'.number = r.number) :
    Inv db₀ { s with running := Function.update s.running i x } := by
  have hold : ∀ {j r}, r ∈ Function.update s.running i x j →
      ∃ r' ∈ s.running j, r'.number = r.number := by
    intro j r hr
    rcases mem_update hr with ⟨rfl, hsame⟩ | ⟨-, hr⟩
    · exact (hx r hsame).2
    · exact ⟨r, hr, rfl⟩
  refine ⟨hs.changes, hs.processed, fun j r hr => ?_, fun j r hr => ?_, fun j k hjk r hr q hq => ?_,
    hs.past, hs.unique, hs.committed, hs.applied⟩
  · rcases mem_update hr with ⟨-, hr⟩ | ⟨-, hr⟩
    · exact (hx r hr).1
    · exact hs.stages j r hr
  · obtain ⟨r', hr', hnumber⟩ := hold hr
    exact hnumber ▸ hs.numbers j r' hr'
  · obtain ⟨r', hr', hr⟩ := hold hr
    obtain ⟨q', hq', hq⟩ := hold hq
    exact hr ▸ hq ▸ hs.apart j k hjk r' hr' q' hq'

omit [Zero σ] in
/-- A call has come in, under the next number. -/
theorem Inv.receive {db₀ : Db σ} {s : State ι σ} (hs : Inv db₀ s) (i : ι) (m : Message) :
    Inv db₀ { s with
      running := Function.update s.running i (some ⟨s.started, m, .start⟩)
      started := s.started + 1 } := by
  refine ⟨hs.changes, hs.processed, fun j r hr => ?_, fun j r hr => ?_, fun j k hjk r hr q hq => ?_,
    fun f hf => Nat.lt_succ_of_lt (hs.past f hf), hs.unique, hs.committed, hs.applied⟩
  · rcases mem_update hr with ⟨-, hr⟩ | ⟨-, hr⟩
    · obtain rfl := Option.some.inj hr
      trivial
    · exact hs.stages j r hr
  · rcases mem_update hr with ⟨-, hr⟩ | ⟨-, hr⟩
    · obtain rfl := Option.some.inj hr
      exact ⟨Nat.lt_succ_self _, fun f hf => Nat.ne_of_lt (hs.past f hf)⟩
    · exact ⟨Nat.lt_succ_of_lt (hs.numbers j r hr).1, (hs.numbers j r hr).2⟩
  · rcases mem_update hr with ⟨hj, hr⟩ | ⟨-, hr⟩ <;> rcases mem_update hq with ⟨hk, hq⟩ | ⟨-, hq⟩
    · exact absurd (hj.trans hk.symm) hjk
    · obtain rfl := Option.some.inj hr
      exact (Nat.ne_of_lt (hs.numbers k q hq).1).symm
    · obtain rfl := Option.some.inj hq
      exact Nat.ne_of_lt (hs.numbers j r hr).1
    · exact hs.apart j k hjk r hr q hq

omit [Zero σ] in
/-- A call has ended. -/
theorem Inv.finish {db₀ : Db σ} {s : State ι σ} (hs : Inv db₀ s) {i : ι} {r : Running σ}
    (hr : s.running i = some r) {reply : Reply} {committed : Option (Db σ)}
    (hends : Ends s.db r.message reply committed) :
    Inv db₀ { s with
      db := committed.getD s.db
      running := Function.update s.running i none
      finished := s.finished ++ [⟨r.number, r.message, reply⟩]
      commits := s.commits ++ (committed.map fun db => ⟨r.number, r.message, db⟩).toList } := by
  have hclosed : Inv db₀ { s with running := Function.update s.running i none } :=
    hs.update (by simp)
  have hids : eventIds (committed.getD s.db) = eventIds s.db ++
      ((committed.map fun db => (⟨r.number, r.message, db⟩ : Commit σ)).toList.map
        fun c => eventIdFor c.message) := by
    cases committed with
    | none => exact (List.append_nil _).symm
    | some db' =>
      obtain ⟨-, event_id, hid, hprocessed⟩ := hends.commit db' rfl
      show eventIds db' = eventIds s.db ++ [eventIdFor r.message]
      unfold eventIds
      rw [hprocessed, List.map_append, hid]
      rfl
  refine ⟨?_, ?_, hclosed.stages, fun j q hq => ?_, hclosed.apart, fun f hf => ?_, ?_, fun c hc => ?_,
    fun f hf hreply => ?_⟩
  · cases committed with
    | none => simpa using hs.changes
    | some db' => simp
  · rw [List.map_append, ← List.append_assoc, ← hs.processed]
    exact hids
  · -- the call that has ended had a number of its own
    refine ⟨(hclosed.numbers j q hq).1, fun f hf => ?_⟩
    rcases List.mem_append.mp hf with hf | hf
    · exact (hclosed.numbers j q hq).2 f hf
    · obtain rfl := List.mem_singleton.mp hf
      rcases mem_update hq with ⟨-, hq⟩ | ⟨hj, hq⟩
      · cases hq
      · exact hs.apart i j (Ne.symm hj) r hr q hq
  · rcases List.mem_append.mp hf with hf | hf
    · exact hs.past f hf
    · obtain rfl := List.mem_singleton.mp hf
      exact (hs.numbers i r hr).1
  · rw [List.map_append, List.nodup_append]
    refine ⟨hs.unique, List.nodup_singleton _, fun a ha b hb => ?_⟩
    obtain ⟨f, hf, rfl⟩ := List.mem_map.mp ha
    obtain rfl : b = r.number := by simpa using hb
    exact (hs.numbers i r hr).2 f hf
  · rcases List.mem_append.mp hc with hc | hc
    · obtain ⟨f, hf, h⟩ := hs.committed c hc
      exact ⟨f, List.mem_append_left _ hf, h⟩
    · cases committed with
      | none => cases hc
      | some db' =>
        obtain rfl := List.mem_singleton.mp hc
        exact ⟨⟨r.number, r.message, reply⟩, List.mem_append_right _ List.mem_cons_self, rfl,
          (hends.commit db' rfl).1⟩
  · rcases List.mem_append.mp hf with hf | hf
    · refine applied_iff.mpr ?_
      show eventIdFor f.message ∈ eventIds (committed.getD s.db)
      rw [hids]
      exact List.mem_append_left _ (applied_iff.mp (hs.applied f hf hreply))
    · obtain rfl := List.mem_singleton.mp hf
      exact hends.applied hreply

/-- **Every step keeps it.** -/
theorem inv_step {db₀ : Db σ} (s : State ι σ) (a : Action ι) (s' : State ι σ) (hs : Inv db₀ s)
    (h : step L s a = some s') : Inv db₀ s' := by
  cases a with
  | receive i m =>
    dsimp only [step] at h
    split at h
    · cases h
    · obtain rfl := Option.some.inj h
      exact hs.receive i m
  | proceed i now fails =>
    dsimp only [step] at h
    split at h
    · cases h
    next r hr =>
      rcases next_cases (L := L) now fails s.db r.message (hs.stages i r hr) with
        ⟨stage, hnext, hstage⟩ | ⟨reply, committed, hnext, hends⟩
      · rw [hnext] at h
        obtain rfl := Option.some.inj h
        refine hs.update fun x hx => ?_
        obtain rfl := Option.some.inj hx
        exact ⟨hstage, r, hr, rfl⟩
      · rw [hnext] at h
        obtain rfl := Option.some.inj h
        exact hs.finish hr hends
  | crash i =>
    dsimp only [step] at h
    split at h
    · cases h
    · obtain rfl := Option.some.inj h
      exact hs.update (by simp)

/-- **Every event takes effect at most once**, whoever consumes it and whatever fails. -/
theorem handled_atMostOnce (db : Db σ) (acts : List (Action ι)) :
    Throughout (step L) (Idempotent db) (start db : State ι σ) acts :=
  (throughout_of_inv inv_step (inv_start db) acts).mono fun _ hs => hs.idempotent

end DjangoFlaskKafka.Related.Idempotency
