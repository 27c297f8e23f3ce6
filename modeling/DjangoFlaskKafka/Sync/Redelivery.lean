/-
  Redeliveries — the outbox of a serial history, delivered to `handle` with repetitions.

  1. **Program** — `consume` feeds deliveries of outbox rows to `handle`.  A delivery carries the
     row's `event_id` header wherever it is read from, so a republish, a rewind of the group and a
     replay after a crash are all the same thing here: the event is delivered again.

  2. **Law** — however often, and however late, events come back: when `n` distinct events have been
     delivered the two tables agree on the posts as they were after `n` writes, and no call has
     returned `False`.

  3. **The crux** — a stale event must not run its handler: a create that arrives again after its
     post was deleted would bring it back.  What stands in its way is `processed_events`, so the
     invariant (`Caught`) is about both tables: the replica plays the first `n` events and
     `processed_events` holds exactly their ids.
-/
import DjangoFlaskKafka.Sync.History

namespace DjangoFlaskKafka.Sync

open Python Kafka Postgres Related Books

variable {σ : Type} [Zero σ] (L : Libs σ)

/-! ## The program -/

/-- One delivery of a row of the outbox. -/
structure Redelivery (outbox : List Posts.OutboxEvent) where
  event : Fin outbox.length
  partition : Nat
  offset : Nat
  now : Int

variable {outbox : List Posts.OutboxEvent}

/-- The delivery, as `handle` gets it. -/
def Redelivery.arrival (d : Redelivery outbox) : Int × Message :=
  (d.now, message (outbox.get d.event) d.partition d.offset)

/-- The database after a list of deliveries, and the replies on the way. -/
def consume (db : Related.Db σ) (ds : List (Redelivery outbox)) : Related.Db σ × List Reply :=
  handleAll L db (ds.map Redelivery.arrival)

/-- Before an event is delivered the first time, all older ones have been. -/
def InOutboxOrder (ds : List (Redelivery outbox)) : Prop :=
  ∀ before d after, ds = before ++ d :: after → ∀ i < d.event, ∃ d' ∈ before, d'.event = i

/-- The events delivered, each counted once. -/
def distinct (ds : List (Redelivery outbox)) : Nat := (ds.map Redelivery.event).dedup.length

/-! ## The invariant -/

/-- The first `n` events have been applied, and nothing else. -/
structure Caught (outbox : List Posts.OutboxEvent) (es : List (Event Int String PostPayload))
    (n : Nat) (db : Related.Db σ) : Prop where
  book : replica db.post.1 = replay empty (es.take n)
  processed : ∀ i : Fin outbox.length, db.Processed (outbox.get i).id.1 ↔ i.1 < n

omit [Zero σ] in
theorem caught_empty (outbox : List Posts.OutboxEvent) (es : List (Event Int String PostPayload)) :
    Caught outbox es 0 (Related.Db.empty σ) where
  book := by
    funext i
    rfl
  processed i := iff_of_false (by rintro ⟨e, he, -⟩; exact absurd he (by simp [Related.Db.empty]))
    (Nat.not_lt_zero i.1)

section Step

variable {db : Posts.Db} {es : List (Event Int String PostPayload)}

/-- **One delivery**: of an old event it changes nothing, of the next one it applies it. -/
theorem Caught.step (hdb : Recorded db es)
    (hids : ∀ e ∈ db.outbox.1, ∀ k, About e k → InInteger k) {n : Nat} {r : Related.Db σ}
    (h : Caught db.outbox.1 es n r) (d : Redelivery db.outbox.1) (hd : d.event.1 ≤ n) :
    (consume L r [d]).2 = [.returned true] ∧
      Caught db.outbox.1 es (max n (d.event.1 + 1)) (consume L r [d]).1 := by
  by_cases hold : d.event.1 < n
  · have hseen := handle_seen L d.now d.partition d.offset ((h.processed d.event).mpr hold)
    have hone : consume L r [d] = (r, [.returned true]) := by
      unfold consume handleAll Redelivery.arrival
      simp only [List.map_cons, List.map_nil, hseen]
      rfl
    rw [hone]
    exact ⟨rfl, by rwa [Nat.max_eq_left hold]⟩
  · have hn : n = d.event.1 := by omega
    subst hn
    have hnew : ¬ r.Processed (db.outbox.1.get d.event).id.1 := fun hp =>
      Nat.lt_irrefl _ ((h.processed d.event).mp hp)
    have he : db.outbox.1[d.event.1]? = some (db.outbox.1.get d.event) :=
      List.getElem?_eq_getElem d.event.2
    obtain ⟨ev, hev, htell⟩ := exists_getElem?_of_forall₂ hdb.tells he
    have htake : es.take (d.event.1 + 1) = es.take d.event.1 ++ [ev] := by
      rw [List.take_add_one, hev]
      rfl
    have hplay : play (replica r.post.1) ev = replay empty (es.take (d.event.1 + 1)) := by
      rw [htake, replay_append, h.book]
      rfl
    have hunique : Unique (play (replica r.post.1) ev) := by
      rw [hplay]
      exact (hdb.legal.of_append (List.take_append_drop ..).symm).unique
    obtain ⟨r', hhandle, hpost, hprocessed⟩ := handle_applies L htell d.now d.partition d.offset
      hnew ⟨hunique, inRange_of_about htell (hids _ (List.get_mem ..))⟩
    have hone : consume L r [d] = (r', [.returned true]) := by
      unfold consume handleAll Redelivery.arrival
      simp only [List.map_cons, List.map_nil, hhandle]
      rfl
    rw [hone, Nat.max_eq_right (Nat.le_succ _)]
    refine ⟨rfl, ?_, fun i => ?_⟩
    · rw [hpost, replica_played L r.post.2.ids htell, hplay]
    · have hsnoc : r'.Processed (db.outbox.1.get i).id.1 ↔
          r.Processed (db.outbox.1.get i).id.1 ∨
            (db.outbox.1.get d.event).id.1 = (db.outbox.1.get i).id.1 := by
        unfold Related.Db.Processed
        rw [hprocessed]
        simp [or_and_right, exists_or]
      have hi : db.outbox.1[i.1]? = some (db.outbox.1.get i) := List.getElem?_eq_getElem i.2
      rw [hsnoc, h.processed, outbox_id_inj db.outbox.2 he hi]
      omega

end Step

/-! ## Whole deliveries -/

/-- Counting the distinct events of a downward closed set of them. -/
theorem distinct_eq {ds : List (Redelivery outbox)} {n : Nat} (hn : n ≤ outbox.length)
    (h : ∀ i, (∃ d ∈ ds, d.event = i) ↔ i.1 < n) : distinct ds = n := by
  have hperm : ((ds.map Redelivery.event).dedup.map Fin.val).Perm (List.range n) := by
    refine (List.perm_ext_iff_of_nodup ((List.nodup_dedup _).map fun _ _ => Fin.ext)
      List.nodup_range).mpr fun i => ?_
    rw [List.mem_range]
    constructor
    · intro hi
      obtain ⟨j, hj, rfl⟩ := List.mem_map.mp hi
      exact (h j).mp (List.mem_map.mp (List.mem_dedup.mp hj))
    · intro hi
      obtain ⟨d, hd, heq⟩ := (h ⟨i, by omega⟩).mpr hi
      exact List.mem_map.mpr
        ⟨d.event, List.mem_dedup.mpr (List.mem_map_of_mem hd), congrArg Fin.val heq⟩
  have hlen := hperm.length_eq
  rwa [List.length_map, List.length_range] at hlen

theorem InOutboxOrder.of_append {ds ds' : List (Redelivery outbox)} (h : InOutboxOrder (ds ++ ds')) :
    InOutboxOrder ds := fun before d after hds =>
  h before d (after ++ ds') (by rw [hds, List.append_assoc, List.cons_append])

theorem InOutboxOrder.snoc {ds : List (Redelivery outbox)} (h : InOutboxOrder ds)
    {d : Redelivery outbox} (hd : ∀ i < d.event, ∃ d' ∈ ds, d'.event = i) :
    InOutboxOrder (ds ++ [d]) := by
  intro before x after hds
  induction after using List.reverseRecOn with
  | nil =>
    obtain ⟨rfl, heq⟩ := List.append_inj' hds rfl
    obtain rfl : d = x := List.singleton_inj.mp heq
    exact hd
  | append_singleton after y _ =>
    have hsplit : ds ++ [d] = (before ++ x :: after) ++ [y] := by simpa using hds
    exact h before x after (List.append_inj' hsplit rfl).1

/-- **All deliveries**: the events delivered are the first `n` for some `n`, and exactly they have
    been applied.  By induction on the deliveries, the last one first. -/
theorem caught_consume {db : Posts.Db} {es : List (Event Int String PostPayload)}
    (hdb : Recorded db es) (hids : ∀ e ∈ db.outbox.1, ∀ k, About e k → InInteger k)
    {ds : List (Redelivery db.outbox.1)} (horder : InOutboxOrder ds) :
    ∃ n ≤ db.outbox.1.length, (∀ i, (∃ d ∈ ds, d.event = i) ↔ i.1 < n) ∧
      Caught db.outbox.1 es n (consume L (.empty σ) ds).1 ∧
      ∀ reply ∈ (consume L (.empty σ) ds).2, reply = .returned true := by
  induction ds using List.reverseRecOn with
  | nil =>
    refine ⟨0, Nat.zero_le _, fun i => ?_, caught_empty _ _, fun reply h => ?_⟩
    · simp
    · exact absurd h List.not_mem_nil
  | append_singleton ds d ih =>
    obtain ⟨n, hn, hmem, hcaught, hreplies⟩ := ih horder.of_append
    -- all events older than this one have been delivered
    have hd : d.event.1 ≤ n := by
      by_contra hgt
      have hlt : n < d.event.1 := by omega
      have hnext := horder ds d [] rfl ⟨n, Nat.lt_trans hlt d.event.2⟩ hlt
      exact Nat.lt_irrefl n ((hmem _).mp hnext)
    obtain ⟨hreply, hcaught'⟩ := hcaught.step L hdb hids d hd
    have happend := handleAll_append L (.empty σ) (ds.map Redelivery.arrival) [d.arrival]
    rw [← List.map_singleton, ← List.map_append] at happend
    unfold consume
    rw [happend]
    refine ⟨max n (d.event.1 + 1), Nat.max_le.mpr ⟨hn, d.event.2⟩, fun i => ?_, hcaught', ?_⟩
    · have hsnoc : (∃ d' ∈ ds ++ [d], d'.event = i) ↔ (∃ d' ∈ ds, d'.event = i) ∨ d.event = i := by
        simp [or_and_right, exists_or]
      rw [hsnoc, hmem, Fin.ext_iff]
      omega
    · intro reply h
      rcases List.mem_append.mp h with h | h
      · exact hreplies reply h
      · exact List.mem_singleton.mp (hreply ▸ h)

/-- **Replay never diverges the replica.** -/
theorem redeliveries_mirror (arrivals : List Posts.Arrival)
    (hids : ∀ e ∈ (Posts.serveAll .empty arrivals).outbox.1, ∀ k, About e k → InInteger k)
    (ds : List (Redelivery (Posts.serveAll .empty arrivals).outbox.1)) (horder : InOutboxOrder ds)
    (delivered : List (Redelivery (Posts.serveAll .empty arrivals).outbox.1))
    (hdelivered : delivered <+: ds) :
    (∀ reply ∈ (consume L (.empty σ) delivered).2, reply = .returned true) ∧
      ∃ before, before <+: arrivals ∧
        (Posts.serveAll .empty before).outbox.1.length = distinct delivered ∧
        Mirrors (consume L (.empty σ) delivered).1.post.1 (Posts.serveAll .empty before).posts.1 := by
  obtain ⟨es, hdb, hbefore⟩ := recorded_serveAll arrivals
  obtain ⟨rest, rfl⟩ := hdelivered
  obtain ⟨n, hn, hmem, hcaught, hreplies⟩ := caught_consume L hdb hids horder.of_append
  have hlen : n ≤ es.length := hdb.tells.length_eq ▸ hn
  obtain ⟨before, hprefix, hrecorded⟩ := hbefore n hlen
  refine ⟨hreplies, before, hprefix, ?_, ?_⟩
  · rw [distinct_eq hn hmem, hrecorded.tells.length_eq, List.length_take, Nat.min_eq_left hlen]
  · refine (mirrors_iff (consume L (.empty σ) delivered).1.post.2.ids
      (Posts.serveAll .empty before).posts.2.ids).mpr ?_
    rw [hcaught.book, hrecorded.book]

/-- The create of a deleted post comes back, at a new offset. -/
def lateCreate : List (Redelivery (Posts.serveAll .empty shortLife).outbox.1) :=
  let event (i : Nat) (h : i < 2) := Fin.mk i (length_shortLife ▸ h)
  [⟨event 0 (by decide), 0, 0, 0⟩, ⟨event 1 (by decide), 0, 0, 1⟩, ⟨event 0 (by decide), 0, 1, 2⟩]

theorem redeliveries_mirror_lateCreate :
    (∀ reply ∈ (consume asciiLibs (.empty ℚ) lateCreate).2, reply = .returned true) ∧
      ∃ before, before <+: shortLife ∧
        (Posts.serveAll .empty before).outbox.1.length = distinct lateCreate ∧
        Mirrors (consume asciiLibs (.empty ℚ) lateCreate).1.post.1
          (Posts.serveAll .empty before).posts.1 := by
  refine redeliveries_mirror asciiLibs shortLife ?_ lateCreate ?_ lateCreate List.prefix_rfl
  · have hids : (Posts.serveAll .empty shortLife).outbox.1.map (·.payload.item "id")
        = [.ok (.int 1), .ok (.int 1)] := rfl
    intro e he k hk
    have hitem := List.mem_map_of_mem (f := fun e : Posts.OutboxEvent => e.payload.item "id") he
    rw [hids, show e.payload.item "id" = .ok (.int k) from hk] at hitem
    obtain rfl : k = 1 := by simpa using hitem
    decide
  · have hnil : InOutboxOrder ([] : List (Redelivery (Posts.serveAll .empty shortLife).outbox.1)) :=
      fun _ _ _ h => absurd h (by simp)
    refine ((hnil.snoc ?_).snoc ?_).snoc (d := ⟨⟨0, by rw [length_shortLife]; decide⟩, 0, 1, 2⟩) ?_
    · exact fun i hi => absurd hi (Nat.not_lt_zero _)
    · intro i hi
      have hlt : i.1 < 1 := hi
      exact ⟨_, List.mem_cons_self, Fin.ext (by show 0 = i.1; omega)⟩
    · exact fun i hi => absurd hi (Nat.not_lt_zero _)

end DjangoFlaskKafka.Sync
