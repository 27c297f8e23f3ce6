/-
  The main loop of the related consumer — `main` of `services/related/consumer.py` against a
  broker that keeps, per partition, a log and the group's committed offset.

  1. **Program** — `step`.  The process is polling, about to commit, or down.  `next tp` takes the
     next record of an assigned partition, which moves the partition's position past it, and calls
     `handle`; on `True` the loop goes on to `consumer.commit()`, which commits the position of
     EVERY assigned partition, on `False` it goes on to the next record, and an exception ends the
     process.  A process may crash at any point; a new one resumes from the committed offsets, with
     whatever partitions it is assigned.

  2. **Law** — `Acknowledged`: below a committed offset there are only applied records.

  3. **The crux** — a position is also past the records on which `handle` returned `False`, and a
     commit caused by any other record commits past them.  The history variable `failed` lists
     them, and `acknowledged_iff` says that the law holds throughout a run exactly when no commit
     is made while one of them is unapplied.
-/
import DjangoFlaskKafka.Related.Consumer
import DjangoFlaskKafka.Lib.Machine

namespace DjangoFlaskKafka.Related.Main

open Python Kafka Machine

variable {σ : Type}

/-! ## The program -/

/-- Where the process is in `main`. -/
inductive Phase where
  | polling
  | committing
  | down
  deriving DecidableEq, Repr

/-- The broker, the database and the process.  `failed` is a history variable: the records on which
    `handle` has returned `False` since the process started. -/
structure State (σ : Type) where
  log : TopicPartition → List Record
  committed : TopicPartition → Nat
  db : Db σ
  phase : Phase
  assigned : List TopicPartition
  position : TopicPartition → Nat
  failed : List (TopicPartition × Nat)

/-- Empty logs, nothing committed (`auto_offset_reset="earliest"`), no process. -/
def init (db : Db σ) : State σ where
  log _ := []
  committed _ := 0
  db := db
  phase := .down
  assigned := []
  position _ := 0
  failed := []

/-- What can happen next. -/
inductive Action where
  | produce (tp : TopicPartition) (record : Record)
  | start (assigned : List TopicPartition)
  | next (tp : TopicPartition) (now : Int) (fault : Fault)
  | commit
  | crash

/-- `message in consumer`, then `if handle(message)`. -/
def next [Zero σ] (L : Libs σ) (s : State σ) (tp : TopicPartition) (now : Int) (fault : Fault) :
    Option (State σ) := do
  let record ← (s.log tp)[s.position tp]?
  let (db, reply) := handle L now s.db (record.message tp (s.position tp)) fault
  let s' := { s with db := db, position := Function.update s.position tp (s.position tp + 1) }
  match reply with
  | .returned true => return { s' with phase := .committing }
  | .returned false => return { s' with failed := (tp, s.position tp) :: s.failed }
  | .raised _ => return { s' with phase := .down }

/-- One step of the system. -/
def step [Zero σ] (L : Libs σ) (s : State σ) : Action → Option (State σ)
  | .produce tp record => some { s with log := Function.update s.log tp (s.log tp ++ [record]) }
  | .start assigned =>
    if s.phase = .down then
      some { s with phase := .polling, assigned := assigned, position := s.committed, failed := [] }
    else none
  | .next tp now fault =>
    if s.phase = .polling ∧ tp ∈ s.assigned then next L s tp now fault else none
  | .commit =>
    if s.phase = .committing then
      some { s with
        phase := .polling
        committed := fun tp => if tp ∈ s.assigned then s.position tp else s.committed tp }
    else none
  | .crash => some { s with phase := .down }

/-! ## The law -/

/-- The record at an offset of a partition, as the message it is delivered as. -/
def State.messageAt (s : State σ) (tp : TopicPartition) (offset : Nat) : Option Message :=
  (s.log tp)[offset]?.map fun record => record.message tp offset

/-- Every record below its partition's committed offset has its event id in
    `processed_events`. -/
def Acknowledged (s : State σ) : Prop :=
  ∀ tp offset m, s.messageAt tp offset = some m → offset < s.committed tp → s.db.Applied m

/-- A record on which `handle` failed has been applied since. -/
def State.Recovered (s : State σ) : Prop :=
  ∀ x ∈ s.failed, ∀ m, s.messageAt x.1 x.2 = some m → s.db.Applied m

/-- `consumer.commit()` is called only when no failed record is still unapplied. -/
def CommitsRecovered (s : State σ) : Action → Prop
  | .commit => s.Recovered
  | _ => True

/-! ## What every step keeps -/

/-- The bookkeeping of offsets: nothing is committed or passed over that is not in the log, and a
    record passed over by a live process was committed before, applied, or failed. -/
structure Tracked (s : State σ) : Prop where
  committed_le : ∀ tp, s.committed tp ≤ (s.log tp).length
  position_le : ∀ tp, s.position tp ≤ (s.log tp).length
  passed : s.phase ≠ .down → ∀ tp ∈ s.assigned, ∀ offset m, offset < s.position tp →
    s.messageAt tp offset = some m →
      offset < s.committed tp ∨ s.db.Applied m ∨ (tp, offset) ∈ s.failed
  failed_passed : ∀ x ∈ s.failed, x.1 ∈ s.assigned ∧ x.2 < s.position x.1

theorem tracked_init (db : Db σ) : Tracked (init db) where
  committed_le _ := Nat.le_refl 0
  position_le _ := Nat.le_refl 0
  passed h := absurd rfl h
  failed_passed := by simp [init]

/-- Appending to a log leaves the records that were there where they were. -/
theorem messageAt_produce {s : State σ} {tp : TopicPartition} (record : Record)
    {tp' : TopicPartition} {offset : Nat} (h : offset < (s.log tp').length) :
    State.messageAt { s with log := Function.update s.log tp (s.log tp ++ [record]) } tp' offset
      = s.messageAt tp' offset := by
  unfold State.messageAt
  by_cases htp : tp' = tp
  · subst htp
    simp [List.getElem?_append_left h]
  · simp [Function.update_of_ne htp]

theorem length_produce (s : State σ) (tp : TopicPartition) (record : Record)
    (tp' : TopicPartition) :
    (s.log tp').length ≤ (Function.update s.log tp (s.log tp ++ [record]) tp').length := by
  by_cases htp : tp' = tp
  · subst htp; simp
  · simp [Function.update_of_ne htp]

section Steps

variable [Zero σ] {L : Libs σ}

/-- Everything that taking a record can do. -/
theorem next_cases {s s' : State σ} {tp : TopicPartition} {now : Int} {fault : Fault}
    (h : next L s tp now fault = some s') :
    ∃ record, (s.log tp)[s.position tp]? = some record ∧
      s'.log = s.log ∧ s'.committed = s.committed ∧ s'.assigned = s.assigned ∧
      s'.position = Function.update s.position tp (s.position tp + 1) ∧
      (∀ m, s.db.Applied m → s'.db.Applied m) ∧
      (s'.db.Applied (record.message tp (s.position tp)) ∧ s'.failed = s.failed ∨
        s'.failed = (tp, s.position tp) :: s.failed ∨
        s'.phase = .down ∧ s'.failed = s.failed) := by
  unfold next at h
  obtain ⟨record, hrecord, h⟩ := Option.bind_eq_some_iff.mp h
  refine ⟨record, hrecord, ?_⟩
  rcases hhandle : handle L now s.db (record.message tp (s.position tp)) fault with ⟨db, reply⟩
  have hmono : ∀ m, s.db.Applied m → db.Applied m := by
    intro m hm
    have hm' : (handle L now s.db (record.message tp (s.position tp)) fault).1.Applied m :=
      handle_applied hm
    rwa [hhandle] at hm'
  rw [hhandle] at h
  cases reply with
  | raised e =>
    obtain rfl := Option.some.inj h
    exact ⟨rfl, rfl, rfl, rfl, hmono, .inr (.inr ⟨rfl, rfl⟩)⟩
  | returned ok =>
    cases ok with
    | true =>
      obtain rfl := Option.some.inj h
      exact ⟨rfl, rfl, rfl, rfl, hmono, .inl ⟨handle_true hhandle, rfl⟩⟩
    | false =>
      obtain rfl := Option.some.inj h
      exact ⟨rfl, rfl, rfl, rfl, hmono, .inr (.inl rfl)⟩

/-- **What a step does to the database**: nothing, or what `handle` does with a record of a log. -/
theorem step_handles {s s' : State σ} {a : Action} (h : step L s a = some s') :
    s'.db = s.db ∨ ∃ tp, ∃ record ∈ s.log tp, ∃ offset now fault,
      s'.db = (handle L now s.db (record.message tp offset) fault).1 := by
  cases a with
  | produce tp record => exact .inl (Option.some.inj h ▸ rfl)
  | start assigned =>
    obtain ⟨-, h⟩ := Option.ite_none_right_eq_some.mp h
    exact .inl (Option.some.inj h ▸ rfl)
  | next tp now fault =>
    obtain ⟨-, h⟩ := Option.ite_none_right_eq_some.mp h
    obtain ⟨record, hrecord, h⟩ := Option.bind_eq_some_iff.mp h
    refine .inr ⟨tp, record, List.mem_of_getElem? hrecord, s.position tp, now, fault, ?_⟩
    dsimp only at h
    split at h <;> exact Option.some.inj h ▸ rfl
  | commit =>
    obtain ⟨-, h⟩ := Option.ite_none_right_eq_some.mp h
    exact .inl (Option.some.inj h ▸ rfl)
  | crash => exact .inl (Option.some.inj h ▸ rfl)

theorem tracked_next {s s' : State σ} {tp : TopicPartition} {now : Int} {fault : Fault}
    (hs : Tracked s) (hphase : s.phase = .polling) (htp : tp ∈ s.assigned)
    (h : next L s tp now fault = some s') : Tracked s' := by
  obtain ⟨record, hrecord, hlog, hcommitted, hassigned, hposition, hmono, hend⟩ := next_cases h
  have hlt : s.position tp < (s.log tp).length := (List.getElem?_eq_some_iff.mp hrecord).1
  have hmessage : ∀ tp' offset, s'.messageAt tp' offset = s.messageAt tp' offset := by
    intro tp' offset
    unfold State.messageAt
    rw [hlog]
  have hfailed : ∀ x ∈ s.failed, x ∈ s'.failed := by
    intro x hx
    rcases hend with ⟨-, hf⟩ | hf | ⟨-, hf⟩ <;> rw [hf]
    · exact hx
    · exact List.mem_cons_of_mem _ hx
    · exact hx
  refine ⟨fun tp' => ?_, fun tp' => ?_, fun hdown tp' htp' offset m hoff hm => ?_, fun x hx => ?_⟩
  · rw [hcommitted, hlog]; exact hs.committed_le tp'
  · rw [hposition, hlog]
    by_cases hne : tp' = tp
    · subst hne; rw [Function.update_self]; omega
    · rw [Function.update_of_ne hne]; exact hs.position_le tp'
  · rw [hassigned] at htp'
    rw [hmessage] at hm
    rw [hcommitted]
    -- the record polled is the one position that is passed anew
    by_cases hnew : tp' = tp ∧ offset = s.position tp
    · obtain ⟨rfl, rfl⟩ := hnew
      have hm' : record.message tp' (s.position tp') = m := by
        unfold State.messageAt at hm
        rw [hrecord] at hm
        exact Option.some.inj hm
      rcases hend with ⟨ha, -⟩ | hf | ⟨hd, -⟩
      · exact .inr (.inl (hm' ▸ ha))
      · exact .inr (.inr (hf ▸ List.mem_cons_self))
      · exact absurd hd hdown
    · have hold : offset < s.position tp' := by
        rw [hposition] at hoff
        by_cases hne : tp' = tp
        · subst hne; rw [Function.update_self] at hoff
          have : offset ≠ s.position tp' := fun h => hnew ⟨rfl, h⟩
          omega
        · rwa [Function.update_of_ne hne] at hoff
      rcases hs.passed (by rw [hphase]; simp) tp' htp' offset m hold hm with h1 | h1 | h1
      · exact .inl h1
      · exact .inr (.inl (hmono m h1))
      · exact .inr (.inr (hfailed _ h1))
  · have hle : ∀ tp', s.position tp' ≤ s'.position tp' := by
      intro tp'
      rw [hposition]
      by_cases hne : tp' = tp
      · subst hne; rw [Function.update_self]; omega
      · rw [Function.update_of_ne hne]
    have hold : ∀ x ∈ s.failed, x.1 ∈ s'.assigned ∧ x.2 < s'.position x.1 := by
      intro x hx
      obtain ⟨h1, h2⟩ := hs.failed_passed x hx
      exact ⟨hassigned ▸ h1, Nat.lt_of_lt_of_le h2 (hle x.1)⟩
    rcases hend with ⟨-, hf⟩ | hf | ⟨-, hf⟩ <;> rw [hf] at hx
    · exact hold x hx
    · rcases List.mem_cons.mp hx with rfl | hx
      · refine ⟨hassigned ▸ htp, ?_⟩
        rw [hposition, Function.update_self]
        exact Nat.lt_succ_self _
      · exact hold x hx
    · exact hold x hx

theorem tracked_step (s : State σ) (a : Action) (s' : State σ) (hs : Tracked s)
    (h : step L s a = some s') : Tracked s' := by
  cases a with
  | produce tp record =>
    obtain rfl := Option.some.inj h
    have hlen := length_produce s tp record
    refine ⟨fun tp' => Nat.le_trans (hs.committed_le tp') (hlen tp'),
      fun tp' => Nat.le_trans (hs.position_le tp') (hlen tp'),
      fun hdown tp' htp' offset m hoff hm => ?_, hs.failed_passed⟩
    have hin : offset < (s.log tp').length := Nat.lt_of_lt_of_le hoff (hs.position_le tp')
    rw [messageAt_produce record hin] at hm
    exact hs.passed hdown tp' htp' offset m hoff hm
  | start assigned =>
    obtain ⟨-, h⟩ := Option.ite_none_right_eq_some.mp h
    obtain rfl := Option.some.inj h
    exact ⟨hs.committed_le, hs.committed_le, fun _ _ _ _ _ hoff _ => .inl hoff, by simp⟩
  | next tp now fault =>
    obtain ⟨⟨hphase, htp⟩, h⟩ := Option.ite_none_right_eq_some.mp h
    exact tracked_next hs hphase htp h
  | commit =>
    obtain ⟨hphase, h⟩ := Option.ite_none_right_eq_some.mp h
    obtain rfl := Option.some.inj h
    refine ⟨fun tp' => ?_, hs.position_le, fun _ tp' htp' offset m hoff hm => .inl ?_,
      hs.failed_passed⟩
    · dsimp only
      split
      · exact hs.position_le tp'
      · exact hs.committed_le tp'
    · dsimp only
      rw [if_pos htp']
      exact hoff
  | crash =>
    obtain rfl := Option.some.inj h
    exact ⟨hs.committed_le, hs.position_le, fun hdown => absurd rfl hdown, hs.failed_passed⟩

/-! ## The law, step by step -/

/-- From a lawful state only a commit can break the law, and it does so exactly when a failed
    record is still unapplied. -/
theorem acknowledged_step (s : State σ) (a : Action) (s' : State σ) (hs : Tracked s)
    (hack : Acknowledged s) (h : step L s a = some s') :
    Acknowledged s' ↔ CommitsRecovered s a := by
  cases a with
  | produce tp record =>
    obtain rfl := Option.some.inj h
    refine iff_of_true (fun tp' offset m hm hoff => ?_) trivial
    rw [messageAt_produce record (Nat.lt_of_lt_of_le hoff (hs.committed_le tp'))] at hm
    exact hack tp' offset m hm hoff
  | start assigned =>
    obtain ⟨-, h⟩ := Option.ite_none_right_eq_some.mp h
    obtain rfl := Option.some.inj h
    exact iff_of_true hack trivial
  | next tp now fault =>
    obtain ⟨-, h⟩ := Option.ite_none_right_eq_some.mp h
    obtain ⟨record, -, hlog, hcommitted, -, -, hmono, -⟩ := next_cases h
    refine iff_of_true (fun tp' offset m hm hoff => hmono m (hack tp' offset m ?_ ?_)) trivial
    · unfold State.messageAt at hm ⊢
      rwa [hlog] at hm
    · rwa [hcommitted] at hoff
  | commit =>
    obtain ⟨hphase, h⟩ := Option.ite_none_right_eq_some.mp h
    obtain rfl := Option.some.inj h
    have hlive : s.phase ≠ .down := by rw [hphase]; simp
    constructor
    · intro hack' x hx m hm
      obtain ⟨hassigned, hpos⟩ := hs.failed_passed x hx
      refine hack' x.1 x.2 m hm ?_
      dsimp only
      rw [if_pos hassigned]
      exact hpos
    · intro hrecovered tp offset m hm hoff
      dsimp only at hoff
      split at hoff
      · rename_i htp
        rcases hs.passed hlive tp htp offset m hoff hm with h1 | h1 | h1
        · exact hack tp offset m hm h1
        · exact h1
        · exact hrecovered (tp, offset) h1 m hm
      · exact hack tp offset m hm hoff
  | crash =>
    obtain rfl := Option.some.inj h
    exact iff_of_true hack trivial

/-- **Which runs acknowledge only applied events**: those in which `consumer.commit()` is never
    called while a record that `handle` has returned `False` for is still unapplied. -/
theorem acknowledged_iff (L : Libs σ) (db : Db σ) (acts : List Action) :
    Throughout (step L) Acknowledged (init db) acts ↔
      Along (step L) CommitsRecovered (init db) acts :=
  throughout_iff_along (fun s a s' hs _ => tracked_step s a s' hs) acknowledged_step acts
    (tracked_init db)
    (by intro tp offset m hm; simp [State.messageAt, init] at hm)

end Steps

/-- The partition of the lossy run. -/
def lossyPartition : TopicPartition := ⟨.postDeleted, 0⟩

/-- Two deletions are waiting; the database drops the connection on the first and is back for the
    second, whose commit acknowledges both. -/
def lossyRun : List Action :=
  let record : Record := ⟨none, .obj [("slug", .str "a")]⟩
  [.produce lossyPartition record, .produce lossyPartition record, .start [lossyPartition],
    .next lossyPartition 0 .read, .next lossyPartition 0 .none, .commit]

/-- **Not every run acknowledges only applied events.** -/
theorem acknowledged_lost :
    ¬ ∀ acts, Throughout (step asciiLibs) Acknowledged (init (Db.empty ℚ)) acts := by
  intro h
  have hlast := (h lossyRun).last rfl
  obtain ⟨event_id, hid, e, he, heq⟩ := hlast lossyPartition 0 _ rfl (by decide)
  obtain rfl : "post_deleted:0:0" = event_id := Except.ok.inj hid
  obtain rfl : e = ⟨"post_deleted:0:1", .postDeleted⟩ := List.mem_singleton.mp he
  exact absurd heq (by decide)

end DjangoFlaskKafka.Related.Main
