/-
  Exclusion — whether two publishers of the auth service write the same revocation twice.

  1. **Program** — `publishBatch` of `cmd/authd/relay.go` by any number of instances, where nothing
     fails and nobody dies.  `ClaimOutbox` and `MarkPublished` are two statements outside any
     transaction: the locks that the first takes are gone when it returns, long before the second
     runs.  `skipped` are the rows another statement has locked just then.  `WriteMessages` gets
     each of its messages to the broker once (`write`), in any order, and returns when all are
     there.

  2. **Law** — `AtMostOnce`: no row has two messages in the log.

  3. **The crux** — `FOR UPDATE SKIP LOCKED` does not tell a row that another instance has claimed
     from one that nobody has (`claimed_twice`).  The law is kept as long as each claim is
     `Exclusive`, and a run in which one is not breaks it by the time all passes are over.
-/
import DjangoFlaskKafka.Auth.Publisher
import DjangoFlaskKafka.Lib.Batches

namespace DjangoFlaskKafka.Auth.Exclusion

open Python Kafka Postgres Machine Publisher

/-! ## The program -/

/-- A pass: its events, and those whose messages the broker does not have yet. -/
structure Pass where
  events : List OutboxEvent
  unwritten : List OutboxEvent

/-- The outbox, the log, and the pass each instance is in. -/
structure State (ι : Type) where
  outbox : OutboxTable
  log : List Relay.Sent
  pass : ι → Option Pass

/-- What can happen to the outbox and to an instance. -/
inductive Action (ι : Type) where
  | insert (now : Int) (id : Uuid) (tokenID : String) (userID : Uuid) (expiresAt : Int)
  | claim (i : ι) (rank : Uuid → Nat) (skipped : List Uuid)
  | write (i : ι) (k : Nat)
  | mark (i : ι) (now : Int)

variable {ι : Type}

/-- Nothing has happened yet. -/
def init : State ι where
  outbox := ⟨[], List.nodup_nil⟩
  log := []
  pass _ := none

section Machine

variable [DecidableEq ι]

/-- One step. -/
def step (s : State ι) : Action ι → Option (State ι)
  | .insert now id tokenID userID expiresAt =>
    (checked OutboxConstraints (s.outbox.1 ++ [revocationRow now id tokenID userID expiresAt])).map
      fun outbox => { s with outbox := outbox }
  | .claim i rank skipped =>
    match s.pass i with
    | some _ => none
    | none =>
      match claimOutbox s.outbox.1 rank skipped with
      -- `if err != nil || len(events) == 0`
      | [] => some s
      | e :: events =>
        some { s with pass := Function.update s.pass i (some ⟨e :: events, e :: events⟩) }
  | .write i k =>
    match s.pass i with
    | some ⟨events, unwritten⟩ =>
      unwritten[k]?.map fun e => { s with
        log := s.log ++ [message e]
        pass := Function.update s.pass i (some ⟨events, unwritten.eraseIdx k⟩) }
    | none => none
  | .mark i now =>
    match s.pass i with
    | some ⟨events, []⟩ =>
      some { s with
        outbox := markPublished now (events.map OutboxEvent.id) s.outbox
        pass := Function.update s.pass i none }
    | _ => none

end Machine

/-! ## The law -/

/-- No event is written more than once. -/
def AtMostOnce (s : State ι) : Prop := ∀ e ∈ s.outbox.1, s.log.countP (fun m => IsOf e m) ≤ 1

instance (s : State ι) : Decidable (AtMostOnce s) :=
  inferInstanceAs (Decidable (∀ e ∈ s.outbox.1, s.log.countP (fun m => IsOf e m) ≤ 1))

/-- A claim takes no row that another instance has claimed and not marked yet. -/
def Exclusive (s : State ι) : Action ι → Prop
  | .claim i rank skipped =>
    ∀ j, j ≠ i → ∀ p ∈ s.pass j, ∀ e ∈ claimOutbox s.outbox.1 rank skipped,
      e.id ∉ p.events.map OutboxEvent.id
  | _ => True

instance [Fintype ι] [DecidableEq ι] (s : State ι) (a : Action ι) : Decidable (Exclusive s a) := by
  cases a <;> unfold Exclusive <;> infer_instance

/-! ## The machine as workers with batches -/

/-- What a message tells its event by. -/
def headers (e : OutboxEvent) : List (String × ByteArray) := (message e).headers

/-- The header tells the row. -/
theorem headers_inj {e e' : OutboxEvent} : headers e = headers e' ↔ e.id = e'.id :=
  isOf_message_iff

/-- A pass, as a batch of headers. -/
def toBatch (p : Pass) : Batches.Batch (List (String × ByteArray)) :=
  ⟨p.events.map headers, p.unwritten.map headers⟩

/-- The machine as workers that take rows in batches. -/
def view (s : State ι) : Batches.State ι (List (String × ByteArray)) where
  done := Batches.doneOf headers Published s.outbox.1
  log := s.log.map Relay.Sent.headers
  batch := Option.map toBatch ∘ s.pass

/-- Instances hold rows of the outbox. -/
def Known (s : State ι) : Prop :=
  ∀ i, ∀ p ∈ s.pass i, ∀ e ∈ p.events, ∃ x ∈ s.outbox.1, x.id = e.id

section Steps

variable {s s' : State ι}

/-- No two rows have the same header. -/
theorem nodup_headers (outbox : OutboxTable) : (outbox.1.map headers).Nodup := by
  have hids : (outbox.1.map OutboxEvent.id).Nodup := outbox.2
  refine List.Nodup.map_on (fun e he e' he' heq => ?_) hids.of_map
  exact List.inj_on_of_nodup_map hids he he' (headers_inj.mp heq)

/-- A batch has no row twice. -/
theorem nodup_claimOutbox (outbox : OutboxTable) (rank : Uuid → Nat) (skipped : List Uuid) :
    ((claimOutbox outbox.1 rank skipped).map headers).Nodup := by
  have hfree : ((candidates outbox.1 skipped).map headers).Nodup :=
    (nodup_headers outbox).sublist (List.filter_sublist.map headers)
  have hsorted := ((List.perm_insertionSort (Older rank)
    (candidates outbox.1 skipped)).map headers).nodup_iff.mpr hfree
  exact hsorted.sublist ((List.take_sublist ..).map headers)

/-- How often a row has been written, counted by its header. -/
theorem written_headers (s : State ι) (e : OutboxEvent) :
    Batches.written (view s) (headers e) = s.log.countP (fun m => IsOf e m) := by
  unfold Batches.written view List.count
  rw [List.countP_map]
  exact List.countP_congr fun m _ => Iff.rfl

/-- The rows that are done, once some are marked. -/
theorem doneOf_markPublished {outbox : OutboxTable} {events : List OutboxEvent} {now : Int}
    (hknown : ∀ e ∈ events, ∃ x ∈ outbox.1, x.id = e.id) :
    Batches.doneOf headers Published (markPublished now (events.map OutboxEvent.id) outbox).1
      = Batches.doneOf headers Published outbox.1 ∪ {h | h ∈ events.map headers} := by
  refine Batches.doneOf_map (fun e => headers_inj.mpr (mark_message now _ e).1) (fun e => ?_)
    fun h hh => ?_
  · have hmem : e.id ∈ events.map OutboxEvent.id ↔ headers e ∈ events.map headers := by
      simp only [List.mem_map, headers_inj]
    unfold OutboxEvent.mark Published
    by_cases hid : e.id ∈ events.map OutboxEvent.id
    · rw [if_pos hid]
      exact ⟨fun _ => .inr (hmem.mp hid), fun _ => rfl⟩
    · rw [if_neg hid]
      exact ⟨.inl, fun h => h.resolve_right fun hh => hid (hmem.mpr hh)⟩
  · obtain ⟨y, hy, rfl⟩ := List.mem_map.mp hh
    obtain ⟨x, hx, hxy⟩ := hknown y hy
    exact ⟨x, hx, headers_inj.mpr hxy⟩

variable [DecidableEq ι]

/-- What a step keeps. -/
theorem known_step (s : State ι) (a : Action ι) (s' : State ι) (hs : Known s)
    (h : step s a = some s') : Known s' := by
  -- an outbox that keeps its rows, and a pass that holds nothing else than rows
  have hgrow : ∀ {outbox : OutboxTable}, (∀ x ∈ s.outbox.1, ∃ y ∈ outbox.1, y.id = x.id) →
      ∀ {i : ι} {o : Option Pass}, (∀ p ∈ o, ∀ e ∈ p.events, ∃ x ∈ s.outbox.1, x.id = e.id) →
      ∀ j, ∀ p ∈ Function.update s.pass i o j, ∀ e ∈ p.events, ∃ x ∈ outbox.1, x.id = e.id := by
    intro outbox houtbox i o ho j p hp e he
    have hrow : ∃ x ∈ s.outbox.1, x.id = e.id := by
      rcases mem_update hp with ⟨-, hp⟩ | ⟨-, hp⟩
      · exact ho p hp e he
      · exact hs j p hp e he
    obtain ⟨x, hx, hxe⟩ := hrow
    obtain ⟨y, hy, hyx⟩ := houtbox x hx
    exact ⟨y, hy, hyx.trans hxe⟩
  cases a with
  | insert now id tokenID userID expiresAt =>
    obtain ⟨outbox, houtbox, rfl⟩ := Option.map_eq_some_iff.mp h
    intro i p hp e he
    obtain ⟨x, hx, hxe⟩ := hs i p hp e he
    have hrows := checked_eq_some houtbox
    exact ⟨x, hrows ▸ List.mem_append_left _ hx, hxe⟩
  | claim i rank skipped =>
    dsimp only [step] at h
    split at h
    · cases h
    split at h
    · obtain rfl := Option.some.inj h
      exact hs
    next e events hbatch =>
      obtain rfl := Option.some.inj h
      refine hgrow (fun x hx => ⟨x, hx, rfl⟩) fun p hp x hx => ?_
      obtain rfl := Option.some.inj hp
      exact ⟨x, (mem_claimOutbox (hbatch ▸ hx)).1, rfl⟩
  | write i k =>
    dsimp only [step] at h
    split at h
    next events unwritten hpass =>
      obtain ⟨e, -, rfl⟩ := Option.map_eq_some_iff.mp h
      refine hgrow (fun x hx => ⟨x, hx, rfl⟩) fun p hp x hx => ?_
      obtain rfl := Option.some.inj hp
      exact hs i _ hpass x hx
    · cases h
  | mark i now =>
    dsimp only [step] at h
    split at h
    next events hpass =>
      obtain rfl := Option.some.inj h
      refine hgrow (fun x hx => ?_) (by simp)
      exact ⟨_, List.mem_map_of_mem hx, (mark_message now _ x).1⟩
    · cases h

/-- A new row is in no batch. -/
theorem refines_insert {now id tokenID userID expiresAt}
    (h : step s (.insert now id tokenID userID expiresAt) = some s') :
    Batches.Step (view s) (view s') := by
  obtain ⟨outbox, houtbox, rfl⟩ := Option.map_eq_some_iff.mp h
  have hview : view { s with outbox := outbox } = view s := by
    unfold view
    rw [checked_eq_some houtbox, Batches.doneOf_append (by simp [Published, revocationRow])]
  rw [hview]
  exact .other _

/-- A publisher claims rows that are not done. -/
theorem refines_claim {i rank skipped}
    (h : step s (.claim i rank skipped) = some s') : Batches.Step (view s) (view s') := by
  dsimp only [step] at h
  split at h
  · cases h
  next hfree =>
  split at h
  · obtain rfl := Option.some.inj h
    exact .other _
  next e events hbatch =>
    obtain rfl := Option.some.inj h
    rw [← hbatch]
    have hview : view { s with
          pass := Function.update s.pass i (some ⟨claimOutbox s.outbox.1 rank skipped,
            claimOutbox s.outbox.1 rank skipped⟩) }
        = { view s with
          batch := Function.update (view s).batch i
            (some ⟨(claimOutbox s.outbox.1 rank skipped).map headers,
              (claimOutbox s.outbox.1 rank skipped).map headers⟩) } := by
      unfold view
      rw [Function.comp_update]
      rfl
    rw [hview]
    refine .claim _ i _ (by simp [view, hfree]) (nodup_claimOutbox s.outbox rank skipped) ?_
    intro x hx
    obtain ⟨z, hz, rfl⟩ := List.mem_map.mp hx
    obtain ⟨hmem, hnone⟩ := mem_claimOutbox hz
    exact Batches.key_notMem_doneOf (nodup_headers s.outbox) hmem (by simp [Published, hnone])

/-- One row of the batch is written. -/
theorem refines_write {i k}
    (h : step s (.write i k) = some s') : Batches.Step (view s) (view s') := by
  dsimp only [step] at h
  split at h
  next events unwritten hpass =>
    obtain ⟨e, he, rfl⟩ := Option.map_eq_some_iff.mp h
    have hview : view { s with
          log := s.log ++ [message e]
          pass := Function.update s.pass i (some ⟨events, unwritten.eraseIdx k⟩) }
        = { view s with
          log := (view s).log ++ [headers e]
          batch := Function.update (view s).batch i
            (some ⟨events.map headers, (unwritten.eraseIdx k).map headers⟩) } := by
      unfold view
      rw [Function.comp_update, List.map_append]
      rfl
    rw [hview]
    refine .write _ i ⟨events.map headers, unwritten.map headers⟩ _ _
      (by simp [view, hpass, toBatch]) ?_
    obtain ⟨hk, rfl⟩ := List.getElem?_eq_some_iff.mp he
    exact ((List.getElem_cons_eraseIdx_perm hk).map headers).symm
  · cases h

/-- The batch is done. -/
theorem refines_mark {i now} (hs : Known s)
    (h : step s (.mark i now) = some s') : Batches.Step (view s) (view s') := by
  dsimp only [step] at h
  split at h
  next events hpass =>
    obtain rfl := Option.some.inj h
    have hview : view { s with
          outbox := markPublished now (events.map OutboxEvent.id) s.outbox
          pass := Function.update s.pass i none }
        = { view s with
          done := (view s).done ∪ {x | x ∈ events.map headers}
          batch := Function.update (view s).batch i none } := by
      unfold view
      rw [Function.comp_update, doneOf_markPublished (hs i _ hpass)]
      rfl
    rw [hview]
    exact .finish _ i ⟨events.map headers, []⟩ (by simp [view, hpass, toBatch]) rfl
  · cases h

/-- **Every step is a step of workers with batches.** -/
theorem refines (s : State ι) (a : Action ι) (s' : State ι) (hs : Known s)
    (h : step s a = some s') : Batches.Step (view s) (view s') := by
  cases a with
  | insert now id tokenID userID expiresAt => exact refines_insert h
  | claim i rank skipped => exact refines_claim h
  | write i k => exact refines_write h
  | mark i now => exact refines_mark hs h

omit [DecidableEq ι] in
/-- Exclusive passes are batches apart. -/
theorem apart_view : Batches.Apart (view s) ↔
    ∀ i j, i ≠ j → ∀ p ∈ s.pass i, ∀ q ∈ s.pass j, ∀ e ∈ p.events,
      e.id ∉ q.events.map OutboxEvent.id := by
  constructor
  · intro h i j hij p hp q hq e he hid
    obtain ⟨x, hx, hxe⟩ := List.mem_map.mp hid
    refine h i j hij (toBatch p) (Option.mem_map_of_mem _ hp) (toBatch q)
      (Option.mem_map_of_mem _ hq) (headers e) (List.mem_map_of_mem he) ?_
    exact List.mem_map.mpr ⟨x, hx, headers_inj.mpr hxe⟩
  · intro h i j hij b hb c hc x hx hx'
    obtain ⟨p, hp, rfl⟩ := Option.mem_map.mp hb
    obtain ⟨q, hq, rfl⟩ := Option.mem_map.mp hc
    obtain ⟨e, he, rfl⟩ := List.mem_map.mp hx
    obtain ⟨y, hy, hye⟩ := List.mem_map.mp hx'
    exact h i j hij p hp q hq e he (List.mem_map.mpr ⟨y, hy, headers_inj.mp hye⟩)

/-- Passes that hold no more than before stay apart. -/
theorem apart_update (hs : Batches.Apart (view s)) {i : ι} {o : Option Pass}
    (ho : ∀ p ∈ o, ∃ q ∈ s.pass i, q.events = p.events) (outbox : OutboxTable)
    (log : List Relay.Sent) : Batches.Apart (view ⟨outbox, log, Function.update s.pass i o⟩) := by
  have hold : ∀ {j p}, p ∈ Function.update s.pass i o j → ∃ q ∈ s.pass j, q.events = p.events := by
    intro j p hp
    rcases mem_update hp with ⟨rfl, hsame⟩ | ⟨-, hp⟩
    · exact ho p hsame
    · exact ⟨p, hp, rfl⟩
  refine apart_view.mpr fun j k hjk p hp q hq e he hid => ?_
  obtain ⟨p', hp', hpeq⟩ := hold hp
  obtain ⟨q', hq', hqeq⟩ := hold hq
  exact apart_view.mp hs j k hjk p' hp' q' hq' e (hpeq ▸ he) (hqeq ▸ hid)

/-- **The batches stay apart exactly when the claims are exclusive.** -/
theorem apart_iff (hs : Batches.Apart (view s)) {a : Action ι} (h : step s a = some s') :
    Batches.Apart (view s') ↔ Exclusive s a := by
  cases a with
  | insert now id tokenID userID expiresAt =>
    obtain ⟨outbox, -, rfl⟩ := Option.map_eq_some_iff.mp h
    exact ⟨fun _ => trivial, fun _ => hs⟩
  | claim i rank skipped =>
    dsimp only [step] at h
    split at h
    · cases h
    next hfree =>
    split at h
    next hbatch =>
      obtain rfl := Option.some.inj h
      refine ⟨fun _ j hj p hp e he => ?_, fun _ => hs⟩
      rw [hbatch] at he
      cases he
    next e events hbatch =>
      obtain rfl := Option.some.inj h
      -- the other passes are as they were, so all depends on what the new one takes
      rw [← hbatch, apart_view]
      constructor
      · intro hapart j hj p hp x hx
        refine hapart i j (Ne.symm hj)
          ⟨claimOutbox s.outbox.1 rank skipped, claimOutbox s.outbox.1 rank skipped⟩ ?_ p ?_ x hx
        · show _ ∈ Function.update s.pass i _ i
          rw [Function.update_self]
          rfl
        · show p ∈ Function.update s.pass i _ j
          rwa [Function.update_of_ne hj]
      · intro hexclusive j k hjk p hp q hq x hx
        rcases mem_update hp with ⟨hj, hp⟩ | ⟨hj, hp⟩ <;>
          rcases mem_update hq with ⟨hk, hq⟩ | ⟨hk, hq⟩
        · exact absurd (hj.trans hk.symm) hjk
        · obtain rfl := Option.some.inj hp
          exact hexclusive k hk q hq x hx
        · obtain rfl := Option.some.inj hq
          intro hid
          obtain ⟨y, hy, hyx⟩ := List.mem_map.mp hid
          exact hexclusive j hj p hp y hy (hyx ▸ List.mem_map_of_mem hx)
        · exact apart_view.mp hs j k hjk p hp q hq x hx
  | write i k =>
    dsimp only [step] at h
    split at h
    next events unwritten hpass =>
      obtain ⟨e, -, rfl⟩ := Option.map_eq_some_iff.mp h
      refine ⟨fun _ => trivial, fun _ => apart_update hs (fun p hp => ?_) _ _⟩
      obtain rfl := Option.some.inj hp
      exact ⟨_, hpass, rfl⟩
    · cases h
  | mark i now =>
    dsimp only [step] at h
    split at h
    next events hpass =>
      obtain rfl := Option.some.inj h
      exact ⟨fun _ => trivial, fun _ => apart_update hs (by simp) _ _⟩
    · cases h

end Steps

section Results

/-- At the start no task is taken. -/
theorem view_init : view (init : State ι) = Batches.init := by
  unfold view init Batches.init Batches.doneOf
  congr 1
  ext x
  simp

variable [Fintype ι] {s : State ι}

/-- Tasks that are written once are rows that are published once. -/
theorem atMostOnce_of_single (hs : Batches.Single (view s)) : AtMostOnce s := by
  intro e _
  rw [← written_headers]
  exact hs.written_le_one (headers e)

/-- When nobody is at work, the log says it all. -/
theorem single_of_atMostOnce (hi : Batches.Inv (view s))
    (hidle : ∀ i, s.pass i = none) (hs : AtMostOnce s) : Batches.Single (view s) := by
  have hidle' : ∀ i, (view s).batch i = none := fun i => by simp [view, hidle]
  intro x
  rw [Batches.claims_eq_written hidle']
  by_cases hx : x ∈ (view s).log
  · rcases hi.known x hx with ⟨e, he, rfl, -⟩ | ⟨i, b, hb, -⟩
    · rw [written_headers]
      exact hs e he
    · rw [hidle' i] at hb
      cases hb
  · exact (Batches.written_eq_zero hx).trans_le (Nat.zero_le 1)

variable [DecidableEq ι]

omit [Fintype ι] in
/-- **Every step is one of batches.** -/
theorem step_known (s : State ι) (a : Action ι) (s' : State ι) (hs : Known s)
    (h : step s a = some s') : Known s' ∧ Batches.Step (view s) (view s') :=
  ⟨known_step s a s' hs h, refines s a s' hs h⟩

omit [Fintype ι] [DecidableEq ι] in
theorem apart_init : Batches.Apart (view (init : State ι)) := by
  rw [view_init]
  exact Batches.apart_init

omit [Fintype ι] in
theorem apart_iff_along (acts : List (Action ι)) :
    Throughout step (fun s => Batches.Apart (view s)) (init : State ι) acts ↔
      Along step Exclusive (init : State ι) acts :=
  throughout_iff_along (J := fun _ => True) (fun _ _ _ h _ _ => h)
    (fun _ _ _ _ hs h => apart_iff hs h) acts trivial apart_init

/-- **Publishers exclude each other exactly when their claims do.**  Exclusive claims keep the law
    in every state; and a run after which all passes are over has kept it only with such claims. -/
theorem atMostOnce_iff_exclusive (acts : List (Action ι)) :
    (Along step Exclusive (init : State ι) acts → Throughout step AtMostOnce init acts) ∧
      ∀ t, run step (init : State ι) acts = some t → (∀ i, t.pass i = none) →
        (Throughout step AtMostOnce init acts ↔ Along step Exclusive init acts) := by
  have hknown : Known (init : State ι) := fun i p hp => by cases hp
  have hinv : Batches.Inv (view (init : State ι)) := by
    rw [view_init]
    exact Batches.inv_init
  have hzero : Batches.Single (view (init : State ι)) := by
    rw [view_init]
    exact Batches.single_init
  have hforward : Along step Exclusive (init : State ι) acts → Throughout step AtMostOnce init acts := by
    intro h
    have hsingle := Batches.throughout_single view step_known hknown hinv hzero
      ((apart_iff_along acts).mpr h)
    exact hsingle.mono fun s hs => atMostOnce_of_single hs.2.2
  refine ⟨hforward, fun t hrun hidle => ⟨fun h => ?_, hforward⟩⟩
  have hlast : Known t ∧ Batches.Inv (view t) :=
    run_inv (P := fun s => Known s ∧ Batches.Inv (view s))
      (fun s a s' hs hs' => ⟨known_step s a s' hs.1 hs', hs.2.step (refines s a s' hs.1 hs')⟩)
      ⟨hknown, hinv⟩ hrun
  refine (apart_iff_along acts).mp (Batches.throughout_apart view step_known hknown hinv
    apart_init hrun ?_)
  exact single_of_atMostOnce hlast.2 hidle (h.last hrun)

end Results

/-! ## Two instances -/

def eventID : Uuid := sampleUuid 12

def nextEventID : Uuid := sampleUuid 13

/-- One pass of an instance, from its claim to its mark. -/
def pass (i : Bool) : List (Action Bool) := [.claim i (fun _ => 0) [], .write i 0, .mark i 1]

/-- One instance after the other. -/
def inTurn : List (Action Bool) :=
  [.insert 0 eventID "t" eventID 900] ++ pass true ++ [.insert 1 nextEventID "t" eventID 900] ++
    pass false ++ [.claim true (fun _ => 0) []]

/-- The second instance claims while the broker has not yet answered the first. -/
def atOnce : List (Action Bool) :=
  [.insert 0 eventID "t" eventID 900, .claim true (fun _ => 0) [], .claim false (fun _ => 0) [],
    .write true 0, .write false 0]

theorem atMostOnce_inTurn : Throughout step AtMostOnce (init : State Bool) inTurn := by
  have hexclusive : Along step Exclusive (init : State Bool) inTurn := by decide +kernel
  exact (atMostOnce_iff_exclusive inTurn).1 hexclusive

/-- **Two instances write one event twice**, with nothing failing. -/
theorem claimed_twice : ∃ s, run step (init : State Bool) atOnce = some s ∧ ¬ AtMostOnce s := by
  have hsome : (run step (init : State Bool) atOnce).isSome := by decide +kernel
  have hlast : ∀ s ∈ run step (init : State Bool) atOnce, ¬ AtMostOnce s := by decide +kernel
  obtain ⟨s, hs⟩ := Option.isSome_iff_exists.mp hsome
  exact ⟨s, hs, hlast s hs⟩

end DjangoFlaskKafka.Auth.Exclusion
