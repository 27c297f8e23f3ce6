/-
  Stuck — what one record that the broker refuses does to the revocations.

  1. **Law** — `publishBatch` marks a batch as a whole, when `WriteMessages` has returned `nil`, and
     every pass begins with the oldest rows again.  So a row whose message the broker never takes,
     once it is among the hundred oldest, is in every batch, and no batch is ever marked: nothing is
     published any more, by any number of instances, whatever fails and whoever starts again
     (`stuck_forever`).

  2. **The crux** — `Stuck`: every pass there is holds the row, and none of them is written.

  The relay of the posts service marks what has gone through, and gets past such a row
  (`Relay.Drain`).
-/
import DjangoFlaskKafka.Auth.Publisher

namespace DjangoFlaskKafka.Auth.Publisher

open Python Kafka Postgres Machine

variable {ι : Type}

/-! ## The law -/

/-- The broker does not take the row's message, no other statement has the row locked when a claim
    is made, and what is inserted is newer. -/
def Refused (x : OutboxEvent) (s : State ι) : Action ι → Prop
  | .insert now _ _ _ _ => x.created_at < now
  | .claim _ _ skipped => x.id ∉ skipped
  | .store k => ∀ e ∈ s.given[k]?, e.id ≠ x.id
  | _ => True

instance (x : OutboxEvent) (s : State ι) : DecidablePred (Refused x s)
  | .insert now _ _ _ _ => inferInstanceAs (Decidable (x.created_at < now))
  | .claim _ _ skipped => inferInstanceAs (Decidable (x.id ∉ skipped))
  | .store k => inferInstanceAs (Decidable (∀ e ∈ s.given[k]?, e.id ≠ x.id))
  | .write _ | .written _ | .mark _ _ | .abort _ => .isTrue trivial

/-- How many rows are to be published up to a row. -/
def State.upTo (s : State ι) (x : OutboxEvent) : Nat :=
  s.outbox.1.countP fun e => e.published_at.isNone ∧ e.created_at ≤ x.created_at

/-- The row waits among the hundred oldest, in every batch that is on its way, and whatever is
    published was published before. -/
structure Stuck (x : OutboxEvent) (published : List OutboxEvent) (s : State ι) : Prop where
  row : x ∈ s.outbox.1 ∧ x.published_at = none
  oldest : s.upTo x ≤ 100
  unlogged : ¬ s.Logged x
  passes : ∀ i, ∀ p ∈ s.pass i, p.stage ≠ .written ∧ ∃ e ∈ p.events, e.id = x.id
  published : ∀ e ∈ s.outbox.1, e.published_at.isSome → e ∈ published

/-! ## Every step keeps it -/

instance (rank : Uuid → Nat) : Std.Total (Older rank) :=
  ⟨fun a b => by unfold Older; omega⟩

instance (rank : Uuid → Nat) : IsTrans OutboxEvent (Older rank) :=
  ⟨fun a b c hab hbc => by unfold Older at *; omega⟩

/-- A row among the hundred oldest is in every batch that does not skip it. -/
theorem mem_claimOutbox_of_oldest {s : State ι} {x : OutboxEvent} (hx : x ∈ s.outbox.1)
    (hpending : x.published_at = none) (holdest : s.upTo x ≤ 100) (rank : Uuid → Nat)
    {skipped : List Uuid} (hskipped : x.id ∉ skipped) : x ∈ claimOutbox s.outbox.1 rank skipped := by
  have hcandidate : x ∈ candidates s.outbox.1 skipped :=
    List.mem_filter.mpr ⟨hx, decide_eq_true ⟨by rw [hpending]; rfl, hskipped⟩⟩
  have hmem := (List.mem_insertionSort (Older rank)).mpr hcandidate
  have hsorted := List.pairwise_insertionSort (Older rank) (candidates s.outbox.1 skipped)
  by_contra hout
  -- otherwise a hundred others, none of them newer, are before it
  rw [← List.take_append_drop 100 ((candidates s.outbox.1 skipped).insertionSort (Older rank)),
    List.mem_append] at hmem
  have hafter := hmem.resolve_left hout
  rw [← List.take_append_drop 100 ((candidates s.outbox.1 skipped).insertionSort (Older rank)),
    List.pairwise_append] at hsorted
  have hbatch : ∀ e ∈ claimOutbox s.outbox.1 rank skipped, e.created_at ≤ x.created_at := by
    intro e he
    have hle := hsorted.2.2 e he x hafter
    unfold Older at hle
    omega
  have hfull : (claimOutbox s.outbox.1 rank skipped).length = 100 := by
    have hpos := List.length_pos_of_mem hafter
    unfold claimOutbox
    rw [List.length_drop] at hpos
    rw [List.length_take]
    omega
  have hrows : s.outbox.1.Nodup := List.Nodup.of_map OutboxEvent.id s.outbox.2
  have hnodup : (claimOutbox s.outbox.1 rank skipped).Nodup :=
    ((List.perm_insertionSort (Older rank) (candidates s.outbox.1 skipped)).nodup_iff.mpr
      (hrows.filter _)).sublist (List.take_sublist ..)
  have hsubset : x :: claimOutbox s.outbox.1 rank skipped ⊆
      s.outbox.1.filter fun e => e.published_at.isNone ∧ e.created_at ≤ x.created_at := by
    intro e he
    rcases List.mem_cons.mp he with rfl | he
    · exact List.mem_filter.mpr ⟨hx, decide_eq_true ⟨by rw [hpending]; rfl, le_rfl⟩⟩
    · obtain ⟨hmem, hnone⟩ := mem_claimOutbox he
      exact List.mem_filter.mpr ⟨hmem, decide_eq_true ⟨by rw [hnone]; rfl, hbatch e he⟩⟩
  have hlength := (List.subperm_of_subset (List.nodup_cons.mpr ⟨hout, hnodup⟩) hsubset).length_le
  unfold State.upTo at holdest
  rw [List.countP_eq_length_filter] at holdest
  rw [List.length_cons] at hlength
  omega

section Steps

variable [DecidableEq ι] {x : OutboxEvent} {published : List OutboxEvent} {s s' : State ι}

omit [DecidableEq ι] in
/-- A pass that changes, and still holds the row. -/
theorem Stuck.update [DecidableEq ι] (hs : Stuck x published s) (given : List OutboxEvent) (i : ι)
    {pass : Option Pass} (hpass : ∀ p ∈ pass, p.stage ≠ .written ∧ ∃ e ∈ p.events, e.id = x.id) :
    Stuck x published { s with given := given, pass := Function.update s.pass i pass } := by
  refine ⟨hs.row, hs.oldest, hs.unlogged, fun j p hp => ?_, hs.published⟩
  rcases mem_update hp with ⟨-, hp⟩ | ⟨-, hp⟩
  · exact hpass p hp
  · exact hs.passes j p hp

/-- A newer row comes in behind it. -/
theorem stuck_insert {now id tokenID userID expiresAt} (hs : Stuck x published s)
    (hnew : x.created_at < now) (h : step s (.insert now id tokenID userID expiresAt) = some s') :
    Stuck x published s' := by
  obtain ⟨outbox, houtbox, rfl⟩ := Option.map_eq_some_iff.mp h
  have hrows := checked_eq_some houtbox
  refine ⟨⟨hrows ▸ List.mem_append_left _ hs.row.1, hs.row.2⟩, ?_, hs.unlogged, hs.passes,
    fun e he hpublished => ?_⟩
  · have hold := hs.oldest
    unfold State.upTo at hold ⊢
    rw [hrows, List.countP_append, List.countP_singleton]
    have hnewer : ¬ now ≤ x.created_at := by omega
    simpa [revocationRow, hnewer] using hold
  · rw [hrows] at he
    rcases List.mem_append.mp he with he | he
    · exact hs.published e he hpublished
    · obtain rfl := List.mem_singleton.mp he
      cases hpublished

/-- Every batch takes the row along. -/
theorem stuck_claim {i rank skipped} (hs : Stuck x published s) (hskipped : x.id ∉ skipped)
    (h : step s (.claim i rank skipped) = some s') : Stuck x published s' := by
  dsimp only [step] at h
  split at h
  · cases h
  split at h
  · exact Option.some.inj h ▸ hs
  next e events hbatch =>
    obtain rfl := Option.some.inj h
    have hx := mem_claimOutbox_of_oldest hs.row.1 hs.row.2 hs.oldest rank hskipped
    refine hs.update s.given i fun p hp => ?_
    obtain rfl := Option.some.inj hp
    exact ⟨by simp, x, hbatch ▸ hx, rfl⟩

/-- A write hands the broker what the pass has claimed. -/
theorem stuck_write {i} (hs : Stuck x published s) (h : step s (.write i) = some s') :
    Stuck x published s' := by
  dsimp only [step] at h
  split at h
  next events hpass =>
    obtain rfl := Option.some.inj h
    refine hs.update (s.given ++ events) i fun p hp => ?_
    obtain rfl := Option.some.inj hp
    exact ⟨by simp, (hs.passes i _ hpass).2⟩
  · cases h

/-- The broker stores another message. -/
theorem stuck_store {k} (hs : Stuck x published s) (hrefused : ∀ e ∈ s.given[k]?, e.id ≠ x.id)
    (h : step s (.store k) = some s') : Stuck x published s' := by
  obtain ⟨e, he, rfl⟩ := Option.map_eq_some_iff.mp h
  refine ⟨hs.row, hs.oldest, ?_, hs.passes, hs.published⟩
  rintro ⟨m, hm, his⟩
  rcases List.mem_append.mp hm with hm | hm
  · exact hs.unlogged ⟨m, hm, his⟩
  · obtain rfl := List.mem_singleton.mp hm
    exact hrefused e he (isOf_message_iff.mp his)

/-- **A step with the row refused keeps everything stuck.** -/
theorem stuck_step (s : State ι) (a : Action ι) (s' : State ι) (hs : Stuck x published s)
    (hrefused : Refused x s a) (h : step s a = some s') : Stuck x published s' := by
  cases a with
  | insert now id tokenID userID expiresAt => exact stuck_insert hs hrefused h
  | claim i rank skipped => exact stuck_claim hs hrefused h
  | write i => exact stuck_write hs h
  | store k => exact stuck_store hs hrefused h
  | written i =>
    -- the row's message would have to be in the log
    dsimp only [step] at h
    split at h
    next events hpass =>
      obtain ⟨hall, -⟩ := Option.ite_none_right_eq_some.mp h
      obtain ⟨e, he, hid⟩ := (hs.passes i _ hpass).2
      obtain ⟨m, hm, his⟩ := hall e he
      refine absurd ⟨m, hm, ?_⟩ hs.unlogged
      unfold IsOf at his ⊢
      rw [his, hid]
    · cases h
  | mark i now =>
    dsimp only [step] at h
    split at h
    next events hpass => exact absurd rfl (hs.passes i _ hpass).1
    · cases h
  | abort i =>
    obtain ⟨p, -, rfl⟩ := Option.map_eq_some_iff.mp h
    exact hs.update s.given i (by simp)

/-- **One refused message stops every later publication**: in every run of any number of instances
    in which the broker does not take it, while its row is among the hundred oldest. -/
theorem stuck_forever (x : OutboxEvent) {s : State ι} (hx : x ∈ s.outbox.1)
    (hpending : x.published_at = none) (holdest : s.upTo x ≤ 100) (hunlogged : ¬ s.Logged x)
    (hidle : ∀ i, s.pass i = none) (acts : List (Action ι)) (hrefused : Along step (Refused x) s acts) :
    Throughout step (fun t => x ∈ t.outbox.1 ∧
      ∀ e ∈ t.outbox.1, e.published_at.isSome → e ∈ s.outbox.1) s acts := by
  have hstart : Stuck x s.outbox.1 s :=
    ⟨⟨hx, hpending⟩, holdest, hunlogged,
      fun i p hp => absurd (Option.mem_def.mp hp) (by rw [hidle i]; simp), fun e he _ => he⟩
  exact (throughout_of_along (J := fun _ => True) (fun _ _ _ _ _ _ => trivial)
    (fun s a s' _ hs hG h => stuck_step s a s' hs hG h) trivial hstart hrefused).mono
    fun t ht => ⟨ht.row.1, ht.published⟩

end Steps

/-- A row that the broker refuses, and one after it. -/
def refusedRow : OutboxEvent := revocationRow 1 (sampleUuid 1) "t" (sampleUuid 9) 900

def stuckState : State Bool where
  outbox := ⟨[refusedRow, revocationRow 2 (sampleUuid 2) "u" (sampleUuid 9) 900], by decide +kernel⟩
  log := []
  given := []
  pass _ := none

/-- Two instances claim both rows, and the broker takes the newer one; a third row comes in. -/
theorem stuck_forever_newer : Throughout step (fun t => refusedRow ∈ t.outbox.1 ∧
    ∀ e ∈ t.outbox.1, e.published_at.isSome → e ∈ stuckState.outbox.1) stuckState
    [.claim true (fun _ => 0) [], .write true, .store 1, .claim false (fun _ => 0) [], .abort true,
      .insert 3 (sampleUuid 3) "v" (sampleUuid 9) 900, .claim true (fun _ => 0) []] :=
  stuck_forever refusedRow List.mem_cons_self rfl (by decide +kernel) (by decide +kernel)
    (fun _ => rfl) _ (by decide +kernel)

end DjangoFlaskKafka.Auth.Publisher
