/-
  Drain — which rows of the posts outbox a relay gets rid of, and which it never comes to.

  1. **Program** — `run_once` again and again, by one relay that nothing interrupts (`after`).
     Between two passes the posts service inserts rows.  The broker acknowledges the records of some
     rows and refuses those of the others, too large ones say, however often they are sent.

  2. **Law** — `publish_batch` leaves what is refused unpublished, so `claim_batch` has it again in
     the next pass.  A row gets through while fewer than `BATCH_SIZE` refused ones are up to it, and
     never if that many are older (`published_unless_blocked`).

  3. **The crux** — an uninterrupted pass is a round of `Lib.Queue` (`round_pass`).
-/
import DjangoFlaskKafka.Relay.Program
import DjangoFlaskKafka.Lib.Queue

namespace DjangoFlaskKafka.Relay

open Python Kafka Postgres Posts Machine

/-! ## The program -/

/-- A row that the posts service writes. -/
structure Insert where
  now : Int
  id : Uuid
  topic : Topic
  key : Text 200
  payload : Json

/-- What a pass meets with: the rows written before it, the ranking and the clock reading of its
    statements, and which of the records it refuses the broker keeps all the same. -/
structure Weather where
  inserts : List Insert
  rank : Uuid → Nat
  now : Int
  keeps : Uuid → Bool

variable (acks : Uuid → Bool) (limit : Nat)

/-- What becomes of a row's record. -/
def Weather.outcome (w : Weather) (e : OutboxEvent) : Outcome :=
  if acks e.id then .acked else .failed (w.keeps e.id)

variable {ι : Type} [Fintype ι] [DecidableEq ι] (i : ι)

/-- The posts service writes; a transaction that fails is rolled back. -/
def insertAll (s : State ι) (inserts : List Insert) : State ι :=
  inserts.foldl (fun s x => (step s (.insert x.now x.id x.topic x.key x.payload)).getD s) s

/-- The steps of a pass that nothing interrupts. -/
def passActions (s : State ι) (w : Weather) : List (Action ι) :=
  match claimBatch s limit w.rank with
  | [] => [.claim i limit w.rank]
  | batch => .claim i limit w.rank :: batch.map (fun e => .send i (w.outcome acks e)) ++
      [.finish i w.now]

/-- `run_once(conn, producer)`; see `run_passActions`. -/
def runOnce (s : State ι) (w : Weather) : State ι :=
  (run step s (passActions acks limit i s w)).getD s

/-- The state after some passes. -/
def after (weather : Nat → Weather) (s : State ι) : Nat → State ι
  | 0 => s
  | k + 1 =>
    let t := after weather s k
    runOnce acks limit i (insertAll t (weather k).inserts) (weather k)

/-- No relay is in a pass. -/
def State.Idle (s : State ι) : Prop := ∀ j, s.pass j = none

/-! ## A pass -/

section Pass

variable {acks limit i} {s t : State ι}

/-- The writes put new rows behind the old ones, and touch no pass. -/
theorem insertAll_spec (s : State ι) (inserts : List Insert) :
    (insertAll s inserts).pass = s.pass ∧ ∃ new, (insertAll s inserts).outbox.1 = s.outbox.1 ++ new ∧
      ∀ e ∈ new, e.published_at = none ∧ ∃ x ∈ inserts, e.created_at = x.now := by
  induction inserts generalizing s with
  | nil => exact ⟨rfl, [], (List.append_nil _).symm, by simp⟩
  | cons x inserts ih =>
    show (insertAll ((step s _).getD s) inserts).pass = s.pass ∧ ∃ new,
      (insertAll ((step s _).getD s) inserts).outbox.1 = s.outbox.1 ++ new ∧ _
    cases hstep : step s (.insert x.now x.id x.topic x.key x.payload) with
    | none =>
      obtain ⟨hpass, new, hrows, hnew⟩ := ih s
      refine ⟨hpass, new, hrows, fun e he => ?_⟩
      obtain ⟨hnone, y, hy, hage⟩ := hnew e he
      exact ⟨hnone, y, List.mem_cons_of_mem _ hy, hage⟩
    | some s' =>
      obtain ⟨houtbox, -, hpass'⟩ := step_insert hstep
      obtain ⟨hpass, new, hrows, hnew⟩ := ih s'
      refine ⟨hpass.trans hpass', recordEvent x.now x.id x.topic x.key x.payload :: new,
        hrows.trans ?_, fun e he => ?_⟩
      · rw [houtbox, List.append_assoc]
        rfl
      · rcases List.mem_cons.mp he with rfl | he
        · exact ⟨rfl, x, List.mem_cons_self, rfl⟩
        · obtain ⟨hnone, y, hy, hage⟩ := hnew e he
          exact ⟨hnone, y, List.mem_cons_of_mem _ hy, hage⟩

/-- The futures of a pass are resolved one after another. -/
theorem run_sends (outcome : OutboxEvent → Outcome) (todo : List OutboxEvent) {s : State ι}
    {resolved : List (OutboxEvent × Outcome)} (hpass : s.pass i = some ⟨resolved, todo⟩) :
    ∃ t, run step s (todo.map fun e => .send i (outcome e)) = some t ∧ t.outbox = s.outbox ∧
      t.pass = Function.update s.pass i (some ⟨resolved ++ todo.map fun e => (e, outcome e), []⟩) := by
  induction todo generalizing s resolved with
  | nil =>
    refine ⟨s, rfl, rfl, ?_⟩
    rw [List.map_nil, List.append_nil, ← hpass, Function.update_eq_self]
  | cons e todo ih =>
    have hsend : step s (.send i (outcome e)) = some { s with
        log := sendLog s.log (outcome e) e
        pass := Function.update s.pass i (some ⟨resolved ++ [(e, outcome e)], todo⟩) } := by
      dsimp only [step]
      rw [hpass]
    obtain ⟨t, hrun, houtbox, hend⟩ := ih (s := { s with
        log := sendLog s.log (outcome e) e
        pass := Function.update s.pass i (some ⟨resolved ++ [(e, outcome e)], todo⟩) })
      (Function.update_self ..)
    refine ⟨t, ?_, houtbox, ?_⟩
    · rw [List.map_cons, run_cons, hsend]
      exact hrun
    · rw [hend, Function.update_idem, List.map_cons, List.append_assoc]
      rfl

/-- The ids a pass marks. -/
def delivered (acks : Uuid → Bool) (batch : List OutboxEvent) : List Uuid :=
  (batch.filter fun e => acks e.id).map OutboxEvent.id

omit [Fintype ι] [DecidableEq ι] in
/-- A pass marks what the broker has acknowledged, whatever it keeps besides. -/
theorem delivered_resolved (w : Weather) (batch : List OutboxEvent) :
    Pass.delivered ⟨batch.map fun e => (e, w.outcome acks e), []⟩ = delivered acks batch := by
  unfold Pass.delivered delivered
  rw [List.filter_map, List.map_map]
  refine congrArg (List.map OutboxEvent.id) (List.filter_congr fun e _ => ?_)
  show decide ((if acks e.id then Outcome.acked else .failed (w.keeps e.id)) = .acked) = acks e.id
  cases acks e.id <;> rfl

/-- A pass that has nothing to mark leaves the outbox as it is. -/
theorem mark_nothing (now : Int) (outbox : OutboxTable) :
    (outbox.1.map fun e => if e.id ∈ ([] : List Uuid) then OutboxEvent.mark now e else e)
      = outbox.1 := by
  simp

variable (acks limit i) in
/-- **An uninterrupted pass** is a run, and marks what of its batch the broker has acknowledged. -/
theorem run_passActions (hidle : s.Idle) (w : Weather) :
    run step s (passActions acks limit i s w) = some (runOnce acks limit i s w) ∧
      (runOnce acks limit i s w).Idle ∧
      (runOnce acks limit i s w).outbox.1 = s.outbox.1.map fun e =>
        if e.id ∈ delivered acks (claimBatch s limit w.rank) then OutboxEvent.mark w.now e else e := by
  have hruns : ∃ t, run step s (passActions acks limit i s w) = some t ∧ t.Idle ∧
      t.outbox.1 = s.outbox.1.map fun e =>
        if e.id ∈ delivered acks (claimBatch s limit w.rank) then OutboxEvent.mark w.now e else e := by
    unfold passActions
    cases hbatch : claimBatch s limit w.rank with
    | nil =>
      -- nothing to claim, so the pass ends at once
      have hclaim : step s (.claim i limit w.rank) = some s := by
        dsimp only [step]
        rw [hidle i, hbatch]
      refine ⟨s, ?_, hidle, (mark_nothing w.now s.outbox).symm⟩
      rw [run_cons, hclaim]
      rfl
    | cons e batch =>
      have hclaim : step s (.claim i limit w.rank) = some { s with
          pass := Function.update s.pass i (some ⟨[], e :: batch⟩) } := by
        dsimp only [step]
        rw [hidle i, hbatch]
      obtain ⟨t, hsends, houtbox, hpass⟩ := run_sends (i := i) (w.outcome acks) (e :: batch)
        (s := { s with pass := Function.update s.pass i (some ⟨[], e :: batch⟩) })
        (Function.update_self ..)
      have hopen : t.pass i = some ⟨(e :: batch).map fun e => (e, w.outcome acks e), []⟩ := by
        rw [hpass, Function.update_self, List.nil_append]
      have hfinish : step t (.finish i w.now) = some { t with
          outbox := markPublished w.now (delivered acks (e :: batch)) t.outbox
          pass := Function.update t.pass i none } := by
        dsimp only [step]
        rw [hopen]
        dsimp only
        rw [delivered_resolved]
      -- the claim opens the pass, the sends resolve its futures, and the commit marks and closes it
      refine ⟨{ t with
          outbox := markPublished w.now (delivered acks (e :: batch)) t.outbox
          pass := Function.update t.pass i none }, ?_, fun j => ?_, ?_⟩
      · show run step s (_ :: _ ++ _) = _
        rw [List.cons_append, run_cons, hclaim, Option.bind_some, run_append, hsends,
          Option.bind_some, run_cons, hfinish]
        rfl
      · show Function.update t.pass i none j = none
        by_cases hj : j = i
        · rw [hj, Function.update_self]
        · rw [Function.update_of_ne hj, hpass, Function.update_of_ne hj]
          exact (Function.update_of_ne hj ..).trans (hidle j)
      · show t.outbox.1.map _ = s.outbox.1.map _
        rw [houtbox]
  obtain ⟨t, hrun, hidle', hrows⟩ := hruns
  have ht : runOnce acks limit i s w = t := by
    unfold runOnce
    rw [hrun]
    rfl
  rw [ht]
  exact ⟨hrun, hidle', hrows⟩

/-! ## The queue -/

open Classical in
/-- The rows that are to be published. -/
noncomputable def State.pending (s : State ι) : Finset OutboxEvent :=
  (s.outbox.1.filter fun e => e.published_at.isNone).toFinset

open Classical in
omit [Fintype ι] [DecidableEq ι] in
/-- What is pending are the rows that are not published. -/
theorem mem_pending {e : OutboxEvent} :
    e ∈ s.pending ↔ e ∈ s.outbox.1 ∧ e.published_at = none := by
  unfold State.pending
  rw [List.mem_toFinset, List.mem_filter, Option.isNone_iff_eq_none]

omit [DecidableEq ι] in
/-- Where no relay is in a pass, a claim can have all that is pending. -/
theorem mem_eligible (hidle : s.Idle) {e : OutboxEvent} : e ∈ s.eligible ↔ e ∈ s.pending := by
  have hfree : ¬ s.Locked e.id := by
    rintro ⟨j, p, hp, -⟩
    rw [hidle j] at hp
    cases hp
  unfold State.eligible
  rw [List.mem_filter, mem_pending, decide_eq_true_iff, Option.isNone_iff_eq_none]
  exact and_congr_right fun _ => and_iff_left hfree

variable (limit) in
open Classical in
omit [DecidableEq ι] in
/-- A claim takes the oldest. -/
theorem takes_claimBatch (hidle : s.Idle) (rank : Uuid → Nat) :
    Queue.Takes OutboxEvent.created_at limit s.pending (claimBatch s limit rank).toFinset := by
  have hsorted : ∀ {e}, e ∈ s.eligible.insertionSort (Earlier rank) ↔ e ∈ s.pending :=
    fun {e} => (List.mem_insertionSort _).trans (mem_eligible hidle)
  have hnodup : (claimBatch s limit rank).Nodup := by
    have hrows : s.outbox.1.Nodup := List.Nodup.of_map OutboxEvent.id s.outbox.2
    have heligible := hrows.filter fun e => decide (e.published_at.isNone ∧ ¬ s.Locked e.id)
    exact ((List.perm_insertionSort (Earlier rank) s.eligible).nodup_iff.mpr heligible).sublist
      (List.take_sublist ..)
  have hlength : (claimBatch s limit rank).toFinset.card = (claimBatch s limit rank).length :=
    List.toFinset_card_of_nodup hnodup
  refine ⟨fun e he => ?_, ?_, fun x hx y hy hout => ?_, fun hshort => ?_⟩
  · exact hsorted.mp (List.mem_of_mem_take (List.mem_toFinset.mp he))
  · rw [hlength]
    exact List.length_take_le ..
  · -- what a claim could have had and did not is no older than what it took
    by_contra hlt
    refine hout (List.mem_toFinset.mpr ?_)
    exact mem_claimBatch_of_older ((mem_eligible hidle).mpr hy) (List.mem_toFinset.mp hx) (by omega)
  · rw [hlength] at hshort
    have hall : claimBatch s limit rank = s.eligible.insertionSort (Earlier rank) := by
      refine List.take_of_length_le ?_
      unfold claimBatch at hshort
      rw [List.length_take] at hshort
      omega
    ext e
    rw [List.mem_toFinset, hall, hsorted]

variable (acks limit i) in
open Classical in
/-- **A pass is a round of the queue.** -/
theorem round_pass (hidle : s.Idle) {horizon : Int} {w : Weather}
    (hnew : ∀ x ∈ w.inserts, horizon < x.now) :
    Queue.Round OutboxEvent.created_at (fun e => acks e.id) limit horizon s.pending
      (runOnce acks limit i (insertAll s w.inserts) w).pending := by
  obtain ⟨hpass, new, hrows, hnews⟩ := insertAll_spec s w.inserts
  have hidle' : (insertAll s w.inserts).Idle := fun j => hpass ▸ hidle j
  obtain ⟨-, -, houtbox⟩ := run_passActions acks limit i hidle' w
  have hunion : (insertAll s w.inserts).pending = s.pending ∪ new.toFinset := by
    ext e
    rw [mem_pending, hrows, List.mem_append, Finset.mem_union, mem_pending, List.mem_toFinset]
    constructor
    · rintro ⟨he | he, hnone⟩
      · exact .inl ⟨he, hnone⟩
      · exact .inr he
    · rintro (⟨he, hnone⟩ | he)
      · exact ⟨.inl he, hnone⟩
      · exact ⟨.inr he, (hnews e he).1⟩
  have htakes := takes_claimBatch limit hidle' w.rank
  refine ⟨⟨_, new.toFinset, fun x hx => ?_, hunion ▸ htakes, ?_⟩⟩
  · obtain ⟨-, y, hy, hage⟩ := hnews x (List.mem_toFinset.mp hx)
    exact hage ▸ hnew y hy
  · rw [← hunion]
    have hserved : ∀ x ∈ (insertAll s w.inserts).outbox.1,
        (x.id ∈ delivered acks (claimBatch (insertAll s w.inserts) limit w.rank) ↔
          x ∈ (claimBatch (insertAll s w.inserts) limit w.rank).toFinset.filter fun e => acks e.id) := by
      intro x hx
      unfold delivered
      rw [Finset.mem_filter, List.mem_toFinset, List.mem_map]
      constructor
      · rintro ⟨y, hy, hid⟩
        obtain ⟨hy, hack⟩ := List.mem_filter.mp hy
        obtain rfl := List.inj_on_of_nodup_map (insertAll s w.inserts).outbox.2
          (mem_claimBatch hy).1 hx hid
        exact ⟨hy, hack⟩
      · rintro ⟨hx, hack⟩
        exact ⟨x, List.mem_filter.mpr ⟨hx, hack⟩, rfl⟩
    ext e
    rw [mem_pending, houtbox, List.mem_map, Finset.mem_sdiff, mem_pending]
    constructor
    · rintro ⟨⟨x, hx, rfl⟩, hnone⟩
      split at hnone
      · cases hnone
      next hout =>
        rw [if_neg hout]
        exact ⟨⟨hx, hnone⟩, fun h => hout ((hserved x hx).mpr h)⟩
    · rintro ⟨⟨he, hnone⟩, hout⟩
      exact ⟨⟨e, he, if_neg fun h => hout ((hserved e he).mp h)⟩, hnone⟩

end Pass

/-! ## The law -/

section Passes

variable {s : State ι} (weather : Nat → Weather)

/-- Passes that nothing interrupts end. -/
theorem after_idle (hidle : s.Idle) (n : Nat) : (after acks limit i weather s n).Idle := by
  induction n with
  | zero => exact hidle
  | succ n ih =>
    have hinserted : (insertAll (after acks limit i weather s n) (weather n).inserts).Idle :=
      fun j => (insertAll_spec (after acks limit i weather s n) (weather n).inserts).1 ▸ ih j
    exact (run_passActions acks limit i hinserted (weather n)).2.1

/-- The writes of the posts service are steps of a run. -/
theorem insertAll_reached (s : State ι) (inserts : List Insert) :
    ∃ acts, run step s acts = some (insertAll s inserts) := by
  induction inserts generalizing s with
  | nil => exact ⟨[], rfl⟩
  | cons x inserts ih =>
    obtain ⟨acts, hrun⟩ := ih ((step s (.insert x.now x.id x.topic x.key x.payload)).getD s)
    cases hstep : step s (.insert x.now x.id x.topic x.key x.payload) with
    | none =>
      rw [hstep] at hrun
      refine ⟨acts, hrun.trans ?_⟩
      show _ = some (insertAll ((step s _).getD s) inserts)
      rw [hstep]
    | some s' =>
      rw [hstep] at hrun
      refine ⟨.insert x.now x.id x.topic x.key x.payload :: acts, ?_⟩
      rw [run_cons, hstep]
      refine hrun.trans ?_
      show _ = some (insertAll ((step s _).getD s) inserts)
      rw [hstep]

/-- All of it is a run. -/
theorem after_reached (hidle : s.Idle) (n : Nat) :
    ∃ acts, run step s acts = some (after acks limit i weather s n) := by
  induction n with
  | zero => exact ⟨[], rfl⟩
  | succ n ih =>
    obtain ⟨acts, hrun⟩ := ih
    obtain ⟨inserts, hinserts⟩ :=
      insertAll_reached (after acks limit i weather s n) (weather n).inserts
    have hinserted : (insertAll (after acks limit i weather s n) (weather n).inserts).Idle :=
      fun j => (insertAll_spec (after acks limit i weather s n) (weather n).inserts).1 ▸
        after_idle acks limit i weather hidle n j
    refine ⟨acts ++ (inserts ++ passActions acks limit i
      (insertAll (after acks limit i weather s n) (weather n).inserts) (weather n)), ?_⟩
    rw [run_append, hrun, Option.bind_some, run_append, hinserts, Option.bind_some]
    exact (run_passActions acks limit i hinserted (weather n)).1

/-- A row stays as it is until it is published. -/
theorem after_row (hidle : s.Idle) {e : OutboxEvent} (he : e ∈ s.outbox.1) (n : Nat) :
    ∃ x ∈ (after acks limit i weather s n).outbox.1, x.id = e.id ∧
      (x = e ∨ x.published_at.isSome) := by
  induction n with
  | zero => exact ⟨e, he, rfl, .inl rfl⟩
  | succ n ih =>
    obtain ⟨x, hx, hid, hstate⟩ := ih
    obtain ⟨hpass, new, hrows, -⟩ :=
      insertAll_spec (after acks limit i weather s n) (weather n).inserts
    have hinserted : (insertAll (after acks limit i weather s n) (weather n).inserts).Idle :=
      fun j => hpass ▸ after_idle acks limit i weather hidle n j
    have hnext := (run_passActions acks limit i hinserted (weather n)).2.2
    refine ⟨_, (congrArg (_ ∈ ·) hnext).mpr (List.mem_map_of_mem (hrows ▸ List.mem_append_left _ hx)),
      ?_, ?_⟩
    · split <;> exact hid
    · split
      · exact .inr rfl
      · exact hstate

/-- How many rows are to be published of which `p` holds. -/
def State.count (s : State ι) (p : OutboxEvent → Bool) : Nat :=
  s.outbox.1.countP fun x => x.published_at.isNone && p x

omit [Fintype ι] [DecidableEq ι] in
open Classical in
theorem card_pending (s : State ι) (p : OutboxEvent → Prop) [DecidablePred p] :
    (s.pending.filter p).card = s.count fun x => p x := by
  have hrows : s.outbox.1.Nodup := List.Nodup.of_map OutboxEvent.id s.outbox.2
  have hfilter : s.pending.filter p = (s.outbox.1.filter fun x =>
      x.published_at.isNone && decide (p x)).toFinset := by
    ext x
    rw [Finset.mem_filter, mem_pending, List.mem_toFinset, List.mem_filter, Bool.and_eq_true,
      decide_eq_true_iff, Option.isNone_iff_eq_none, and_assoc]
  unfold State.count
  rw [hfilter, List.toFinset_card_of_nodup (hrows.filter _), List.countP_eq_length_filter]

/-- **A row whose record the broker takes is published, unless the relay is blocked**: with fewer
    than `limit` refused rows up to it, it is published once there have been as many passes as there
    are rows to publish up to it; with `limit` of them before it, it never is, and whatever is
    written in the meantime makes no difference. -/
theorem published_unless_blocked (hidle : s.Idle) {e : OutboxEvent} (he : e ∈ s.outbox.1)
    (hpending : e.published_at = none) (hacks : acks e.id)
    (hnew : ∀ k, ∀ x ∈ (weather k).inserts, e.created_at < x.now) :
    (s.count (fun x => x.created_at ≤ e.created_at ∧ ¬ acks x.id) < limit →
      ∀ n, s.count (fun x => x.created_at ≤ e.created_at ∧ acks x.id) ≤ n →
        ∃ x ∈ (after acks limit i weather s n).outbox.1, x.id = e.id ∧ x.published_at.isSome) ∧
    (limit ≤ s.count (fun x => x.created_at < e.created_at ∧ ¬ acks x.id) →
      ∀ n, e ∈ (after acks limit i weather s n).outbox.1) := by
  classical
  have hrounds : ∀ k, Queue.Round OutboxEvent.created_at (fun e => acks e.id) limit e.created_at
      (after acks limit i weather s k).pending (after acks limit i weather s (k + 1)).pending :=
    fun k => round_pass acks limit i (after_idle acks limit i weather hidle k) (hnew k)
  constructor
  · intro hfew n hn
    have hserved : e ∉ (after acks limit i weather s n).pending := by
      refine Queue.served_of_few hrounds hacks ?_ ?_
      · exact (card_pending s _).trans_lt hfew
      · exact (card_pending s _).trans_le hn
    obtain ⟨x, hx, hid, rfl | hpublished⟩ := after_row acks limit i weather hidle he n
    · exact absurd (mem_pending.mpr ⟨hx, hpending⟩) hserved
    · exact ⟨x, hx, hid, hpublished⟩
  · intro hmany n
    have hwaits : e ∈ (after acks limit i weather s n).pending := by
      refine Queue.waits_of_many hrounds (mem_pending.mpr ⟨he, hpending⟩) ?_ n
      exact hmany.trans (card_pending s _).ge
    exact (mem_pending.mp hwaits).1

end Passes

/-- An outbox with two rows, the older one of which the broker refuses. -/
def refusedOutbox : OutboxTable :=
  ⟨[recordEvent 1 (sampleUuid 1) .postCreated (blankText 200) .null,
    recordEvent 2 (sampleUuid 2) .postCreated (blankText 200) .null], by decide⟩

/-- Nothing is written, and nothing that is refused is kept. -/
def calm (_ : Nat) : Weather := ⟨[], fun _ => 0, 3, fun _ => false⟩

/-- The broker takes all but the older row. -/
def takesNewer (id : Uuid) : Bool := id ≠ sampleUuid 1

/-- Batches of two get past it, and batches of one do not. -/
theorem published_unless_blocked_refused :
    (∃ x ∈ (after takesNewer 2 true calm (start refusedOutbox) 1).outbox.1,
      x.id = sampleUuid 2 ∧ x.published_at.isSome) ∧
    ∀ n, recordEvent 2 (sampleUuid 2) .postCreated (blankText 200) .null ∈
      (after takesNewer 1 true calm (start refusedOutbox) n).outbox.1 :=
  ⟨(published_unless_blocked takesNewer 2 true calm (s := start refusedOutbox) (fun _ => rfl)
      (List.mem_cons_of_mem _ List.mem_cons_self) rfl (by decide +kernel) (by simp [calm])).1
      (by decide +kernel) 1 (by decide +kernel),
    (published_unless_blocked takesNewer 1 true calm (s := start refusedOutbox) (fun _ => rfl)
      (List.mem_cons_of_mem _ List.mem_cons_self) rfl (by decide +kernel) (by simp [calm])).2
      (by decide +kernel)⟩

end DjangoFlaskKafka.Relay
