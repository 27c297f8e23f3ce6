/-
  Sharing — whether several relays duplicate each other's work.

  1. **Program** — `run_once` of `services/relay/relay.py` by any number of relays, where no send
     fails and nobody dies.  A pass is one transaction of four steps: `claim` is the query of
     `claim_batch`, with its locks and its `SKIP LOCKED`; `publish` is one record reaching the
     broker, in any order, after which all futures resolve; `mark` is `mark_published`, which nobody
     else sees yet; and `commit` makes the marks visible and lets the locks go.

  2. **Law** — `Shares`: no row is in two hands, none is in the log twice, and one that is marked is
     in it once.

  3. **The crux** — a relay holds its rows until its marks are there for all to see, so that at no
     time a row is neither locked nor marked after its record was written.
-/
import DjangoFlaskKafka.Relay.Program
import DjangoFlaskKafka.Lib.Batches

namespace DjangoFlaskKafka.Relay.Sharing

open Python Kafka Postgres Posts Machine

/-! ## The program -/

/-- How far a pass has come: some of its records are not with the broker yet, or its rows are marked
    in its transaction. -/
inductive Stage where
  | publishing (unwritten : List OutboxEvent)
  | marked (now : Int)

/-- A pass and the rows it has locked. -/
structure Pass where
  rows : List OutboxEvent
  stage : Stage

/-- The outbox as committed, the broker's log, and the pass each relay is in. -/
structure State (ι : Type) where
  outbox : OutboxTable
  log : List Sent
  pass : ι → Option Pass

/-- What can happen to the outbox and to a relay. -/
inductive Action (ι : Type) where
  | insert (now : Int) (id : Uuid) (topic : Topic) (key : Text 200) (payload : Json)
  | claim (i : ι) (limit : Nat) (rank : Uuid → Nat)
  | publish (i : ι) (k : Nat)
  | mark (i : ι) (now : Int)
  | commit (i : ι)

variable {ι : Type}

/-- Nothing has happened yet. -/
def init : State ι where
  outbox := ⟨[], List.nodup_nil⟩
  log := []
  pass _ := none

/-- The rows and who has locked them, as `claim_batch` meets them. -/
def State.locks (s : State ι) : Relay.State ι where
  outbox := s.outbox
  log _ := []
  pass i := (s.pass i).map fun p => ⟨[], p.rows⟩

section Machine

variable [Fintype ι] [DecidableEq ι]

/-- One step. -/
def step (s : State ι) : Action ι → Option (State ι)
  | .insert now id topic key payload =>
    (checked OutboxConstraints (s.outbox.1 ++ [recordEvent now id topic key payload])).map
      fun outbox => { s with outbox := outbox }
  | .claim i limit rank =>
    match s.pass i with
    | some _ => none
    | none =>
      match claimBatch s.locks limit rank with
      -- `if not rows: return 0`
      | [] => some s
      | e :: rows =>
        some { s with pass := Function.update s.pass i (some ⟨e :: rows, .publishing (e :: rows)⟩) }
  | .publish i k =>
    match s.pass i with
    | some ⟨rows, .publishing unwritten⟩ =>
      unwritten[k]?.map fun e => { s with
        log := s.log ++ [record e]
        pass := Function.update s.pass i (some ⟨rows, .publishing (unwritten.eraseIdx k)⟩) }
    | _ => none
  | .mark i now =>
    match s.pass i with
    -- every future is resolved, so `delivered` is all of the rows
    | some ⟨rows, .publishing []⟩ =>
      some { s with pass := Function.update s.pass i (some ⟨rows, .marked now⟩) }
    | _ => none
  | .commit i =>
    match s.pass i with
    | some ⟨rows, .marked now⟩ =>
      some { s with
        outbox := markPublished now (rows.map OutboxEvent.id) s.outbox
        pass := Function.update s.pass i none }
    | _ => none

end Machine

/-! ## The law -/

/-- How often the row is in the log. -/
def State.written (s : State ι) (e : OutboxEvent) : Nat := s.log.countP fun r => r.IsOf e

/-- The relays share the outbox without duplicating work. -/
structure Shares (s : State ι) : Prop where
  apart : ∀ i j, i ≠ j → ∀ p ∈ s.pass i, ∀ q ∈ s.pass j, ∀ e ∈ p.rows, ∀ e' ∈ q.rows, e.id ≠ e'.id
  once : ∀ e ∈ s.outbox.1, s.written e ≤ 1
  published : ∀ e ∈ s.outbox.1, e.published_at.isSome → s.written e = 1

/-! ## The machine as workers with batches -/

/-- The header tells the row. -/
theorem eventIdHeaders_inj {e e' : OutboxEvent} : eventIdHeaders e = eventIdHeaders e' ↔ e.id = e'.id :=
  isOf_record_iff

/-- The row is marked. -/
def Published (e : OutboxEvent) : Prop := e.published_at.isSome

/-- The rows whose records are still to come. -/
def Stage.unwritten : Stage → List OutboxEvent
  | .publishing unwritten => unwritten
  | .marked _ => []

/-- A pass, as a batch of headers. -/
def toBatch (p : Pass) : Batches.Batch (List (String × ByteArray)) :=
  ⟨p.rows.map eventIdHeaders, p.stage.unwritten.map eventIdHeaders⟩

/-- The machine as workers that take rows in batches. -/
def view (s : State ι) : Batches.State ι (List (String × ByteArray)) where
  done := Batches.doneOf eventIdHeaders Published s.outbox.1
  log := s.log.map Sent.headers
  batch := Option.map toBatch ∘ s.pass

/-- Relays hold rows of the outbox, each its own. -/
structure Held (s : State ι) : Prop where
  known : ∀ i, ∀ p ∈ s.pass i, ∀ e ∈ p.rows, ∃ x ∈ s.outbox.1, x.id = e.id
  apart : ∀ i j, i ≠ j → ∀ p ∈ s.pass i, ∀ q ∈ s.pass j, ∀ e ∈ p.rows, ∀ e' ∈ q.rows, e.id ≠ e'.id

section Steps

variable {s s' : State ι}

/-- How often a row has been written, counted by its header. -/
theorem written_eq (s : State ι) (e : OutboxEvent) :
    Batches.written (view s) (eventIdHeaders e) = s.written e := by
  unfold Batches.written view List.count
  rw [List.countP_map]
  exact List.countP_congr fun r _ => Iff.rfl

/-- Rows that are locked are in one pass only. -/
theorem Held.batches (hs : Held s) : Batches.Apart (view s) := by
  intro i j hij b hb c hc x hx hx'
  obtain ⟨p, hp, rfl⟩ := Option.mem_map.mp hb
  obtain ⟨q, hq, rfl⟩ := Option.mem_map.mp hc
  obtain ⟨e, he, rfl⟩ := List.mem_map.mp hx
  obtain ⟨e', he', heq⟩ := List.mem_map.mp hx'
  exact hs.apart i j hij p hp q hq e he e' he' (eventIdHeaders_inj.mp heq).symm

/-- No two rows have the same header. -/
theorem nodup_headers (outbox : OutboxTable) : (outbox.1.map eventIdHeaders).Nodup := by
  have hids : (outbox.1.map OutboxEvent.id).Nodup := outbox.2
  refine List.Nodup.map_on (fun e he e' he' heq => ?_) hids.of_map
  exact List.inj_on_of_nodup_map hids he he' (eventIdHeaders_inj.mp heq)

/-- A batch has no row twice. -/
theorem nodup_claimBatch [Fintype ι] (s : State ι) (limit : Nat) (rank : Uuid → Nat) :
    ((claimBatch s.locks limit rank).map eventIdHeaders).Nodup := by
  have hfree : (s.locks.eligible.map eventIdHeaders).Nodup :=
    (nodup_headers s.outbox).sublist (List.filter_sublist.map eventIdHeaders)
  have hsorted := ((List.perm_insertionSort (Earlier rank)
    s.locks.eligible).map eventIdHeaders).nodup_iff.mpr hfree
  exact hsorted.sublist ((List.take_sublist ..).map eventIdHeaders)

/-- The rows that are done, once some are marked. -/
theorem doneOf_markPublished {outbox : OutboxTable} {rows : List OutboxEvent} {now : Int}
    (hknown : ∀ e ∈ rows, ∃ x ∈ outbox.1, x.id = e.id) :
    Batches.doneOf eventIdHeaders Published (markPublished now (rows.map OutboxEvent.id) outbox).1
      = Batches.doneOf eventIdHeaders Published outbox.1 ∪ {h | h ∈ rows.map eventIdHeaders} := by
  refine Batches.doneOf_map (fun e => eventIdHeaders_inj.mpr ?_) (fun e => ?_) fun h hh => ?_
  · split <;> rfl
  · have hmem : e.id ∈ rows.map OutboxEvent.id ↔ eventIdHeaders e ∈ rows.map eventIdHeaders := by
      simp only [List.mem_map, eventIdHeaders_inj]
    by_cases hid : e.id ∈ rows.map OutboxEvent.id
    · rw [if_pos hid]
      exact ⟨fun _ => .inr (hmem.mp hid), fun _ => rfl⟩
    · rw [if_neg hid]
      exact ⟨.inl, fun h => h.resolve_right fun hh => hid (hmem.mpr hh)⟩
  · obtain ⟨y, hy, rfl⟩ := List.mem_map.mp hh
    obtain ⟨x, hx, hxy⟩ := hknown y hy
    exact ⟨x, hx, eventIdHeaders_inj.mpr hxy⟩

variable [DecidableEq ι]

/-- A pass that holds no more than before, over an outbox that keeps its rows. -/
theorem Held.update (hs : Held s) {i : ι} {o : Option Pass}
    (ho : ∀ p ∈ o, ∃ q ∈ s.pass i, q.rows = p.rows) {outbox : OutboxTable}
    (houtbox : ∀ x ∈ s.outbox.1, ∃ y ∈ outbox.1, y.id = x.id) (log : List Sent) :
    Held ⟨outbox, log, Function.update s.pass i o⟩ := by
  have hold : ∀ {j p}, p ∈ Function.update s.pass i o j → ∃ q ∈ s.pass j, q.rows = p.rows := by
    intro j p hp
    rcases mem_update hp with ⟨rfl, hsame⟩ | ⟨-, hp⟩
    · exact ho p hsame
    · exact ⟨p, hp, rfl⟩
  refine ⟨fun j p hp e he => ?_, fun j k hjk p hp q hq e he e' he' => ?_⟩
  · obtain ⟨p', hp', hpeq⟩ := hold hp
    obtain ⟨x, hx, hxe⟩ := hs.known j p' hp' e (hpeq ▸ he)
    obtain ⟨y, hy, hyx⟩ := houtbox x hx
    exact ⟨y, hy, hyx.trans hxe⟩
  · obtain ⟨p', hp', hpeq⟩ := hold hp
    obtain ⟨q', hq', hqeq⟩ := hold hq
    exact hs.apart j k hjk p' hp' q' hq' e (hpeq ▸ he) e' (hqeq ▸ he')

variable [Fintype ι]

/-- **What is locked is skipped**, so a claim takes rows that nobody holds. -/
theorem Held.claim (hs : Held s) (i : ι) (limit : Nat) (rank : Uuid → Nat) (stage : Stage) :
    Held { s with pass := Function.update s.pass i (some ⟨claimBatch s.locks limit rank, stage⟩) } := by
  have hfree : ∀ {j q}, q ∈ s.pass j → ∀ e ∈ claimBatch s.locks limit rank, ∀ e' ∈ q.rows,
      e.id ≠ e'.id := by
    intro j q hq e he e' he' hid
    refine (mem_claimBatch he).2.2 ⟨j, ⟨[], q.rows⟩, Option.mem_map_of_mem _ hq, ?_⟩
    rw [hid]
    exact List.mem_map_of_mem he'
  refine ⟨fun j p hp e he => ?_, fun j k hjk p hp q hq e he e' he' => ?_⟩
  · rcases mem_update hp with ⟨-, hp⟩ | ⟨-, hp⟩
    · obtain rfl := Option.some.inj hp
      exact ⟨e, (mem_claimBatch he).1, rfl⟩
    · exact hs.known j p hp e he
  · rcases mem_update hp with ⟨hj, hp⟩ | ⟨-, hp⟩ <;> rcases mem_update hq with ⟨hk, hq⟩ | ⟨-, hq⟩
    · exact absurd (hj.trans hk.symm) hjk
    · obtain rfl := Option.some.inj hp
      exact hfree hq e he e' he'
    · obtain rfl := Option.some.inj hq
      exact (hfree hp e' he' e he).symm
    · exact hs.apart j k hjk p hp q hq e he e' he'

/-- A new row is in no batch. -/
theorem refines_insert {now id topic key payload} (hs : Held s)
    (h : step s (.insert now id topic key payload) = some s') :
    Held s' ∧ Batches.Step (view s) (view s') := by
  obtain ⟨outbox, houtbox, rfl⟩ := Option.map_eq_some_iff.mp h
  have hrows := checked_eq_some houtbox
  refine ⟨⟨fun i p hp e he => ?_, hs.apart⟩, ?_⟩
  · obtain ⟨x, hx, hxe⟩ := hs.known i p hp e he
    exact ⟨x, hrows ▸ List.mem_append_left _ hx, hxe⟩
  · have hview : view { s with outbox := outbox } = view s := by
      unfold view
      rw [hrows, Batches.doneOf_append (by simp [Published, recordEvent])]
    rw [hview]
    exact .other _

/-- A relay claims rows that nobody holds. -/
theorem refines_claim {i limit rank} (hs : Held s)
    (h : step s (.claim i limit rank) = some s') : Held s' ∧ Batches.Step (view s) (view s') := by
  dsimp only [step] at h
  split at h
  · cases h
  next hpass =>
  split at h
  · obtain rfl := Option.some.inj h
    exact ⟨hs, .other _⟩
  next e rows hbatch =>
    obtain rfl := Option.some.inj h
    rw [← hbatch]
    refine ⟨hs.claim i limit rank _, ?_⟩
    have hview : view { s with
          pass := Function.update s.pass i (some ⟨claimBatch s.locks limit rank,
            .publishing (claimBatch s.locks limit rank)⟩) }
        = { view s with
          batch := Function.update (view s).batch i
            (some ⟨(claimBatch s.locks limit rank).map eventIdHeaders,
              (claimBatch s.locks limit rank).map eventIdHeaders⟩) } := by
      unfold view
      rw [Function.comp_update]
      rfl
    rw [hview]
    refine .claim _ i _ (by simp [view, hpass]) (nodup_claimBatch s limit rank) fun x hx => ?_
    obtain ⟨y, hy, rfl⟩ := List.mem_map.mp hx
    obtain ⟨hmem, hnone, -⟩ := mem_claimBatch hy
    exact Batches.key_notMem_doneOf (nodup_headers s.outbox) hmem (by simp [Published, hnone])

/-- One row of the batch is written. -/
theorem refines_publish {i k} (hs : Held s)
    (h : step s (.publish i k) = some s') : Held s' ∧ Batches.Step (view s) (view s') := by
  dsimp only [step] at h
  split at h
  next rows unwritten hpass =>
    obtain ⟨e, he, rfl⟩ := Option.map_eq_some_iff.mp h
    refine ⟨hs.update (fun p hp => ?_) (fun x hx => ⟨x, hx, rfl⟩) _, ?_⟩
    · obtain rfl := Option.some.inj hp
      exact ⟨_, hpass, rfl⟩
    · have hview : view { s with
            log := s.log ++ [record e]
            pass := Function.update s.pass i (some ⟨rows, .publishing (unwritten.eraseIdx k)⟩) }
          = { view s with
            log := (view s).log ++ [eventIdHeaders e]
            batch := Function.update (view s).batch i
              (some ⟨rows.map eventIdHeaders, (unwritten.eraseIdx k).map eventIdHeaders⟩) } := by
        unfold view
        rw [Function.comp_update, List.map_append]
        rfl
      rw [hview]
      refine .write _ i ⟨rows.map eventIdHeaders, unwritten.map eventIdHeaders⟩ _ _
        (by simp [view, hpass, toBatch, Stage.unwritten]) ?_
      obtain ⟨hk, rfl⟩ := List.getElem?_eq_some_iff.mp he
      exact ((List.getElem_cons_eraseIdx_perm hk).map eventIdHeaders).symm
  · cases h

/-- Nobody sees the marks yet. -/
theorem refines_mark {i now} (hs : Held s)
    (h : step s (.mark i now) = some s') : Held s' ∧ Batches.Step (view s) (view s') := by
  dsimp only [step] at h
  split at h
  next rows hpass =>
    obtain rfl := Option.some.inj h
    refine ⟨hs.update (fun p hp => ?_) (fun x hx => ⟨x, hx, rfl⟩) _, ?_⟩
    · obtain rfl := Option.some.inj hp
      exact ⟨_, hpass, rfl⟩
    · -- nobody sees the marks yet
      have hview : view { s with pass := Function.update s.pass i (some ⟨rows, .marked now⟩) }
          = view s := by
        unfold view
        rw [Function.comp_update]
        congr 1
        refine Function.update_eq_self_iff.mpr ?_
        rw [Function.comp_apply, hpass]
        rfl
      rw [hview]
      exact .other _
  · cases h

/-- The batch is done. -/
theorem refines_commit {i} (hs : Held s)
    (h : step s (.commit i) = some s') : Held s' ∧ Batches.Step (view s) (view s') := by
  dsimp only [step] at h
  split at h
  next rows now hpass =>
    obtain rfl := Option.some.inj h
    refine ⟨hs.update (by simp) (fun x hx => ?_) _, ?_⟩
    · refine ⟨_, List.mem_map_of_mem hx, ?_⟩
      split <;> rfl
    · have hview : view { s with
            outbox := markPublished now (rows.map OutboxEvent.id) s.outbox
            pass := Function.update s.pass i none }
          = { view s with
            done := (view s).done ∪ {x | x ∈ rows.map eventIdHeaders}
            batch := Function.update (view s).batch i none } := by
        unfold view
        rw [Function.comp_update, doneOf_markPublished (hs.known i _ hpass)]
        rfl
      rw [hview]
      exact .finish _ i ⟨rows.map eventIdHeaders, []⟩
        (by simp [view, hpass, toBatch, Stage.unwritten]) rfl
  · cases h

/-- **Every step is a step of workers with batches**, and leaves each its own rows. -/
theorem refines (s : State ι) (a : Action ι) (s' : State ι) (hs : Held s)
    (h : step s a = some s') : Held s' ∧ Batches.Step (view s) (view s') := by
  cases a with
  | insert now id topic key payload => exact refines_insert hs h
  | claim i limit rank => exact refines_claim hs h
  | publish i k => exact refines_publish hs h
  | mark i now => exact refines_mark hs h
  | commit i => exact refines_commit hs h

/-- **Relays share the outbox without duplicating work.** -/
theorem relays_share (acts : List (Action ι)) : Throughout step Shares (init : State ι) acts := by
  have hview : view (init : State ι) = Batches.init := by
    unfold view init Batches.init Batches.doneOf
    congr 1
    ext x
    simp
  have hheld : Held (init : State ι) := by
    refine ⟨fun i p hp => ?_, fun i j _ p hp => ?_⟩
    · cases hp
    · cases hp
  have hapart : Throughout step (fun s => Batches.Apart (view s)) (init : State ι) acts :=
    (throughout_of_inv (fun s a s' hs h => (refines s a s' hs h).1) hheld acts).mono
      fun s hs => hs.batches
  have hsingle := Batches.throughout_single view refines hheld (hview ▸ Batches.inv_init)
    (hview ▸ Batches.single_init) hapart
  refine hsingle.mono fun s hs => ⟨hs.1.apart, fun e _ => ?_, fun e he hpublished => ?_⟩
  · rw [← written_eq]
    exact hs.2.2.written_le_one _
  · rw [← written_eq]
    exact hs.2.2.written_eq_one hs.2.1 ⟨e, he, rfl, hpublished⟩

end Steps

end DjangoFlaskKafka.Relay.Sharing
