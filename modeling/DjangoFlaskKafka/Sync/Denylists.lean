/-
  Two denylists — the revoked tokens of the posts service and of the related service.

  1. **Program** — both services are handed the events that `RevokeAccessToken` has written, each in
     its own order and as often as it comes: the posts service upserts (`_apply`) and purges when
     its consumer is idle, the related service inserts what is absent, once per event, and purges on
     the way (`apply_token_revoked` under `handle`).

  2. **Law** — `denylists_agree`: whatever the orders, the repetitions and the purges, from then on
     the tokens whose expiry is still to come are the same in both, namely those revoked, each on
     its own expiry.

  3. **The crux** — either table TRACKS the tokens it has been told (`Lib.Expiry`): both ways of
     writing tell the token, both purges drop what is due, and the RFC 3339 text of the expiry reads
     as the same instant either way.
-/
import DjangoFlaskKafka.Posts.Denylist
import DjangoFlaskKafka.Related.Consumer

namespace DjangoFlaskKafka.Sync.Denylists

open Python Kafka Postgres Posts.Denylist Expiry

/-! ## The program -/

/-- A `token_revoked` row of the outbox. -/
structure Event where
  id : Uuid
  revocation : Revocation
  deriving DecidableEq

variable (due : String → Rfc3339.Instant)

/-- What the posts consumer does. -/
inductive PostsStep where
  | apply (e : Event)
  | purge
  deriving DecidableEq

/-- One step of the posts consumer; `none` is an exception. -/
def postsStep (L : Posts.Denylist.Libs) (rows : Posts.Denylist.RevokedTable) :
    Int × PostsStep → Option Posts.Denylist.RevokedTable
  | (_, .apply e) => Posts.Denylist.apply L rows (e.revocation.payload due)
  | (now, .purge) => some (purgeExpiredRevocations now rows)

/-- The posts consumer, step by step. -/
def postsRun (L : Posts.Denylist.Libs) (rows : Posts.Denylist.RevokedTable)
    (steps : List (Int × PostsStep)) : Option Posts.Denylist.RevokedTable :=
  steps.foldlM (postsStep due L) rows

/-- A delivery to the related consumer: the clock reading, the event, and where it was read. -/
structure Delivery where
  now : Int
  event : Event
  partition : Nat
  offset : Nat

/-- The record of an event as a consumer receives it. -/
def Delivery.message (d : Delivery) : Message where
  topic := .tokenRevoked
  partition := d.partition
  offset := d.offset
  headers := some [("event_id", d.event.id.1.toUTF8)]
  value := d.event.revocation.payload due

variable {σ : Type} [Zero σ]

/-- The related consumer, message by message. -/
def relatedRun (L : Related.Libs σ) (db : Related.Db σ) (deliveries : List Delivery) :
    Related.Db σ :=
  deliveries.foldl (fun db d => (Related.handle L d.now db (d.message due) .none).1) db

/-! ## The law -/

/-- The token is revoked by one of the events. -/
def Revoked (events : List Event) (token : String) : Prop :=
  ∃ e ∈ events, e.revocation.token.1 = token

/-- `datetime.fromisoformat` reads RFC 3339. -/
def ReadsRfc3339 (L : Related.Libs σ) : Prop :=
  ∀ s d, Rfc3339.readDateTime s = some d → L.fromisoformat s = some d

/-- The steps come in the order of time, and all after `start`. -/
def InOrder (start : Int) (times : List Int) : Prop := (start :: times).Pairwise (· ≤ ·)

/-! ## The posts service -/

section PostsService

variable {due} (L : Posts.Denylist.Libs)

theorem postsStep_spec {told : String → Prop} {start now : Int} {rows : Posts.Denylist.RevokedTable}
    (h : Lists due told start rows.1) (hle : start ≤ now) (a : PostsStep) :
    ∃ rows', postsStep due L rows (now, a) = some rows' ∧
      Lists due (fun k => told k ∨ ∃ e, a = .apply e ∧ e.revocation.token.1 = k) now rows'.1 := by
  cases a with
  | apply e =>
    obtain ⟨rows', happly, hrows⟩ := h.apply_payload L e.revocation
    refine ⟨rows', happly, ?_⟩
    rw [hrows]
    refine (Lists.upsert (h.later hle) e.revocation).congr fun k => or_congr_right ?_
    constructor
    · rintro rfl
      exact ⟨e, rfl, rfl⟩
    · rintro ⟨e', he', rfl⟩
      rw [PostsStep.apply.inj he']
  | purge =>
    refine ⟨_, rfl, (h.later hle).purge.congr fun k => ?_⟩
    simp

/-- The posts table tracks what it has been told, whatever the order. -/
theorem postsRun_spec {told : String → Prop} {start : Int} (rows : Posts.Denylist.RevokedTable)
    (h : Lists due told start rows.1) {steps : List (Int × PostsStep)}
    (horder : InOrder start (steps.map Prod.fst)) {time : Int} (hstart : start ≤ time)
    (htime : ∀ x ∈ steps, x.1 ≤ time) : ∃ rows', postsRun due L rows steps = some rows' ∧
      Lists due (fun k => told k ∨ ∃ x ∈ steps, ∃ e, x.2 = .apply e ∧ e.revocation.token.1 = k) time
        rows'.1 := by
  induction steps generalizing told start rows with
  | nil => exact ⟨rows, rfl, (h.later hstart).congr fun k => by simp⟩
  | cons x steps ih =>
    obtain ⟨now, a⟩ := x
    obtain ⟨hstart', horder'⟩ := List.pairwise_cons.mp horder
    obtain ⟨rows', hstep, hrows'⟩ := postsStep_spec L h (hstart' now (by simp)) a
    obtain ⟨rows'', hrun, hrows''⟩ := ih rows' hrows' horder' (htime (now, a) (by simp))
      fun x hx => htime x (List.mem_cons_of_mem _ hx)
    refine ⟨rows'', ?_, hrows''.congr fun k => ?_⟩
    · unfold postsRun
      rw [List.foldlM_cons, hstep]
      exact hrun
    · rw [or_assoc, List.exists_mem_cons_iff]

end PostsService

/-! ## The related service -/

section RelatedService

variable {due} {L : Related.Libs σ}

/-- The related denylist holds the tokens told, up to those that have expired by now. -/
abbrev RelatedLists (due : String → Rfc3339.Instant) (told : String → Prop) (now : Int)
    (db : Related.Db σ) : Prop :=
  Tracks Related.RevokedToken.token_id Related.RevokedToken.expires_at (fun k => (due k).1) told now
    db.revoked_tokens.1

/-- The row that `apply_token_revoked` adds, if the token has none. -/
def newRow (due : String → Rfc3339.Instant) (rows : List Related.RevokedToken) (r : Revocation) :
    Option Related.RevokedToken :=
  if rows.any fun t => t.token_id = r.token.1 then none
  else some ⟨r.token.1, r.user.1, (due r.token.1).1⟩

omit [Zero σ] in
theorem applyTokenRevoked_spec (hreads : ReadsRfc3339 L) (now : Int)
    (rows : List Related.RevokedToken) (r : Revocation) :
    Related.applyTokenRevoked L now rows (r.payload due) = .ok ⟨newRow due rows r, now⟩ := by
  have hparse := hreads _ _ (Rfc3339.readDateTime_replaceZ (due r.token.1).2)
  have hany : (rows.any fun t => some t.token_id = some r.token.1)
      = rows.any fun t => t.token_id = r.token.1 := by simp
  show ((L.fromisoformat (replaceZ (Go.formatRFC3339 (due r.token.1).1))).elim
    (Except.error PyErr.valueError) Except.ok).bind _ = _
  rw [hparse]
  show (L.sqlToken (.str r.token.1)).bind _ = _
  rw [Related.sqlToken_str]
  show (if rows.any fun t => some t.token_id = some r.token.1 then _ else _) = _
  rw [hany]
  unfold newRow
  by_cases h : rows.any fun t => t.token_id = r.token.1
  · rw [if_pos h, if_pos h]
    rfl
  · rw [if_neg h, if_neg h]
    have hsend : L.send [.str r.token.1, .str r.user.1] = .ok () :=
      Related.send_str L _ (Related.send_str L _ rfl)
    show (L.send [.str r.token.1, .str r.user.1]).bind _ = _
    rw [hsend]
    show (L.textOf (.str r.token.1)).bind _ = _
    rw [Related.textOf_str]
    show (L.textOf (.str r.user.1)).bind _ = _
    rw [Related.textOf_str]
    rfl

variable (due) in
theorem newRow_constraints (rows : Related.RevokedTable) (r : Revocation) :
    Related.RevokedConstraints (rows.1 ++ (newRow due rows.1 r).toList) := by
  unfold newRow
  by_cases h : rows.1.any fun t => t.token_id = r.token.1
  · rw [if_pos h, Option.toList_none, List.append_nil]
    exact rows.2
  · rw [if_neg h, Option.toList_some]
    refine ⟨?_, fun t ht => ?_⟩
    · rw [List.map_append, List.nodup_append]
      refine ⟨rows.2.1, List.nodup_singleton _, fun a ha b hb hab => h ?_⟩
      obtain ⟨t, ht, rfl⟩ := List.mem_map.mp ha
      have hb : b = r.token.1 := by simpa using hb
      exact List.any_eq_true.mpr ⟨t, ht, by simpa using hab.trans hb⟩
    · rcases List.mem_append.mp ht with ht | ht
      · exact rows.2.2 t ht
      · rw [List.mem_singleton.mp ht]
        exact ⟨varchar_uuid r.token, varchar_uuid r.user⟩

variable (due) in
/-- A first delivery inserts what is absent and purges. -/
theorem handle_revocation (hreads : ReadsRfc3339 L) (db : Related.Db σ) (d : Delivery)
    (hnew : ¬ db.Processed d.event.id.1) :
    let db' := (Related.handle L d.now db (d.message due) .none).1
    db'.revoked_tokens.1 = (db.revoked_tokens.1 ++ (newRow due db.revoked_tokens.1
        d.event.revocation).toList).filter (fun t => ¬ t.expires_at ≤ d.now) ∧
      db'.processed_events.1 = db.processed_events.1 ++ [⟨d.event.id.1, .tokenRevoked⟩] := by
  intro db'
  have hid : Related.eventIdFor (d.message due) = .ok d.event.id.1 := Related.eventIdFor_uuid rfl
  let change : Related.RevokedChange := ⟨newRow due db.revoked_tokens.1 d.event.revocation, d.now⟩
  have hwork : Related.HANDLERS L d.now db (d.event.revocation.payload due) .tokenRevoked
      = .ok ⟨[], some change⟩ := by
    show (Related.applyTokenRevoked L d.now db.revoked_tokens.1 _).map _ = _
    rw [applyTokenRevoked_spec hreads]
    rfl
  have hcommit := Related.commit_revoked (c := change)
    (newRow_constraints due db.revoked_tokens d.event.revocation)
    (fun x hx heq => hnew ⟨x, hx, heq⟩)
    (show Varchar 64 (Related.ProcessedEvent.mk d.event.id.1 .tokenRevoked).event_id from
      varchar_uuid d.event.id)
  have hhandle : db' = (db.commit ⟨[], some change⟩ ⟨d.event.id.1, .tokenRevoked⟩).getD db := by
    show (Related.handle L d.now db (d.message due) .none).1 = _
    rw [Related.handle_new (m := d.message due) hid hnew hwork rfl]
    show Prod.fst (Option.elim (db.commit ⟨[], some change⟩ ⟨d.event.id.1, .tokenRevoked⟩) _ _) = _
    rw [hcommit]
    rfl
  rw [hhandle, hcommit]
  exact ⟨rfl, rfl⟩

omit [Zero σ] in
/-- With its row added, or there already, the token is told. -/
theorem RelatedLists.insert {told : String → Prop} {now : Int} {db : Related.Db σ}
    (h : RelatedLists due told now db) (r : Revocation) :
    Tracks Related.RevokedToken.token_id Related.RevokedToken.expires_at (fun k => (due k).1)
      (fun k => told k ∨ k = r.token.1) now
      (db.revoked_tokens.1 ++ (newRow due db.revoked_tokens.1 r).toList) := by
  refine Tracks.tell h (fun x hx => ?_) (fun x hx => .inr (List.mem_append_left _ hx)) ?_
  · rcases List.mem_append.mp hx with hx | hx
    · exact .inl hx
    · unfold newRow at hx
      split at hx
      · cases hx
      · rw [List.mem_singleton.mp hx]
        exact .inr ⟨rfl, rfl⟩
  · unfold newRow
    split
    next hany =>
      obtain ⟨x, hx, hkey⟩ := List.any_eq_true.mp hany
      exact ⟨x, List.mem_append_left _ hx, of_decide_eq_true hkey⟩
    · exact ⟨_, List.mem_append_right _ (List.mem_singleton_self _), rfl⟩

/-- A repetition changes nothing. -/
theorem handle_repeated (db : Related.Db σ) (d : Delivery) (hseen : db.Processed d.event.id.1) :
    (Related.handle L d.now db (d.message due) .none).1 = db := by
  rw [Related.handle_processed d.now (Related.eventIdFor_uuid rfl) hseen]

/-- The database between two deliveries: what has been told is tracked, and what has been processed
    has been told. -/
structure Follows (due : String → Rfc3339.Instant) (events : List Event) (told : String → Prop)
    (now : Int) (db : Related.Db σ) : Prop where
  lists : RelatedLists due told now db
  told : ∀ e ∈ events, db.Processed e.id.1 → told e.revocation.token.1

/-- One delivery. -/
theorem Follows.deliver (hreads : ReadsRfc3339 L) {events : List Event}
    (hids : (events.map Event.id).Nodup) {told : String → Prop} {start : Int} {db : Related.Db σ}
    (h : Follows due events told start db) {d : Delivery} (hle : start ≤ d.now)
    (hevent : d.event ∈ events) :
    Follows due events (fun k => told k ∨ d.event.revocation.token.1 = k) d.now
      (Related.handle L d.now db (d.message due) .none).1 := by
  by_cases hseen : db.Processed d.event.id.1
  · rw [handle_repeated db d hseen]
    refine ⟨(h.lists.later hle).congr fun k => ?_, fun e he hp => .inl (h.told e he hp)⟩
    refine ⟨.inl, ?_⟩
    rintro (hk | rfl)
    · exact hk
    · exact h.told d.event hevent hseen
  · obtain ⟨hrows, hprocessed⟩ := handle_revocation due hreads db d hseen
    refine ⟨?_, fun e he hp => ?_⟩
    · unfold RelatedLists
      rw [hrows]
      refine (RelatedLists.insert (h.lists.later hle) d.event.revocation).purge.congr fun k => ?_
      exact or_congr_right eq_comm
    · obtain ⟨x, hx, heq⟩ := hp
      rw [hprocessed] at hx
      rcases List.mem_append.mp hx with hx | hx
      · exact .inl (h.told e he ⟨x, hx, heq⟩)
      · rw [List.mem_singleton.mp hx] at heq
        have hsame := List.inj_on_of_nodup_map hids hevent he (Subtype.ext heq)
        exact .inr (hsame ▸ rfl)

/-- The related table tracks what it has been told, whatever the order. -/
theorem relatedRun_spec (hreads : ReadsRfc3339 L) {events : List Event}
    (hids : (events.map Event.id).Nodup) {told : String → Prop} {start : Int} {db : Related.Db σ}
    (h : Follows due events told start db) {deliveries : List Delivery}
    (hevents : ∀ d ∈ deliveries, d.event ∈ events)
    (horder : InOrder start (deliveries.map Delivery.now)) {time : Int} (hstart : start ≤ time)
    (htime : ∀ d ∈ deliveries, d.now ≤ time) :
    RelatedLists due (fun k => told k ∨ ∃ d ∈ deliveries, d.event.revocation.token.1 = k) time
      (relatedRun due L db deliveries) := by
  induction deliveries generalizing told start db with
  | nil => exact (h.lists.later hstart).congr fun k => by simp
  | cons d deliveries ih =>
    obtain ⟨hstart', horder'⟩ := List.pairwise_cons.mp horder
    have hnext := h.deliver hreads hids (hstart' d.now (by simp)) (hevents d (by simp))
    refine (ih hnext (fun x hx => hevents x (List.mem_cons_of_mem _ hx)) horder'
      (htime d (by simp)) fun x hx => htime x (List.mem_cons_of_mem _ hx)).congr fun k => ?_
    rw [or_assoc, List.exists_mem_cons_iff]

end RelatedService

/-! ## Both -/

/-- Every event comes to the posts consumer, and no other. -/
def PostsReceives (events : List Event) (steps : List (Int × PostsStep)) : Prop :=
  ∀ e, e ∈ events ↔ ∃ now, (now, PostsStep.apply e) ∈ steps

/-- Every event comes to the related consumer, and no other. -/
def RelatedReceives (events : List Event) (deliveries : List Delivery) : Prop :=
  ∀ e, e ∈ events ↔ ∃ d ∈ deliveries, d.event = e

/-- Times that do not decrease are in order after the first of them. -/
theorem exists_inOrder {times : List Int} (h : times.Pairwise (· ≤ ·)) {time : Int}
    (htime : ∀ t ∈ times, t ≤ time) : ∃ start ≤ time, InOrder start times := by
  cases times with
  | nil => exact ⟨time, le_rfl, List.pairwise_singleton _ _⟩
  | cons t times =>
    refine ⟨t, htime t (by simp), List.pairwise_cons.mpr ⟨fun t' ht' => ?_, h⟩⟩
    rcases List.mem_cons.mp ht' with rfl | ht'
    · exact le_rfl
    · exact (List.pairwise_cons.mp h).1 t' ht'

/-- **The two denylists agree.**  Once both services have been handed all the events, in whatever
    order and as often as it takes, the tokens listed until later than now are in both exactly those
    revoked and not yet expired, each on its own expiry. -/
theorem denylists_agree (LP : Posts.Denylist.Libs) (LR : Related.Libs σ) (hreads : ReadsRfc3339 LR)
    {events : List Event} (hids : (events.map Event.id).Nodup)
    {steps : List (Int × PostsStep)} (hsteps : PostsReceives events steps)
    (horder : (steps.map Prod.fst).Pairwise (· ≤ ·))
    {db : Related.Db σ} (hempty : db.revoked_tokens.1 = [])
    (hfresh : ∀ e ∈ events, ¬ db.Processed e.id.1)
    {deliveries : List Delivery} (hdeliveries : RelatedReceives events deliveries)
    (horder' : (deliveries.map Delivery.now).Pairwise (· ≤ ·))
    {time : Int} (htime : ∀ t ∈ steps.map Prod.fst, t ≤ time)
    (htime' : ∀ t ∈ deliveries.map Delivery.now, t ≤ time) :
    ∃ rows, postsRun due LP ⟨[], by decide⟩ steps = some rows ∧ ∀ k date,
      ((∃ x ∈ rows.1, x.token_id = k ∧ x.expires_at = date ∧ time < date) ↔
        Revoked events k ∧ date = (due k).1 ∧ time < date) ∧
      ((∃ x ∈ (relatedRun due LR db deliveries).revoked_tokens.1,
          x.token_id = k ∧ x.expires_at = date ∧ time < date) ↔
        Revoked events k ∧ date = (due k).1 ∧ time < date) := by
  -- both services begin with nothing listed
  obtain ⟨start, hstart, hinOrder⟩ := exists_inOrder horder htime
  obtain ⟨start', hstart', hinOrder'⟩ := exists_inOrder horder' htime'
  have hnone : Lists due (fun _ => False) start [] := tracks_nil
  obtain ⟨rows, hrun, hrows⟩ := postsRun_spec LP ⟨[], by decide⟩ hnone hinOrder hstart
    fun x hx => htime x.1 (List.mem_map_of_mem hx)
  have hfollows : Follows due events (fun _ => False) start' db :=
    ⟨by unfold RelatedLists; rw [hempty]; exact tracks_nil, fun e he hp => hfresh e he hp⟩
  have hrelated := relatedRun_spec hreads hids hfollows
    (fun d hd => (hdeliveries d.event).mpr ⟨d, hd, rfl⟩) hinOrder' hstart'
    fun d hd => htime' d.now (List.mem_map_of_mem hd)
  refine ⟨rows, hrun, fun k date => ⟨?_, ?_⟩⟩
  · rw [hrows.live_iff le_rfl]
    refine and_congr_left fun _ => ?_
    constructor
    · rintro (hfalse | ⟨x, hx, e, he, rfl⟩)
      · exact hfalse.elim
      · exact ⟨e, (hsteps e).mpr ⟨x.1, he ▸ hx⟩, rfl⟩
    · rintro ⟨e, he, rfl⟩
      obtain ⟨now, hnow⟩ := (hsteps e).mp he
      exact .inr ⟨_, hnow, e, rfl, rfl⟩
  · rw [Tracks.live_iff hrelated le_rfl]
    refine and_congr_left fun _ => ?_
    constructor
    · rintro (hfalse | ⟨d, hd, rfl⟩)
      · exact hfalse.elim
      · exact ⟨d.event, (hdeliveries d.event).mpr ⟨d, hd, rfl⟩, rfl⟩
    · rintro ⟨e, he, rfl⟩
      obtain ⟨d, hd, rfl⟩ := (hdeliveries e).mp he
      exact .inr ⟨d, hd, rfl⟩

/-! ## A token revoked twice -/

def firstEvent : Event := ⟨sampleUuid 12, tokenID, tokenID⟩

def secondEvent : Event := ⟨sampleUuid 13, tokenID, tokenID⟩

def readingLibs : Related.Libs ℚ := { Related.asciiLibs with fromisoformat := Rfc3339.readDateTime }

/-- The posts consumer gets the second event first, and again. -/
def someSteps : List (Int × PostsStep) :=
  [(0, .apply secondEvent), (1, .purge), (1, .apply firstEvent), (2, .apply secondEvent)]

/-- The related consumer gets the first event twice. -/
def someDeliveries : List Delivery :=
  [⟨0, firstEvent, 0, 0⟩, ⟨0, firstEvent, 0, 0⟩, ⟨5, secondEvent, 0, 1⟩]

theorem denylists_agree_revokedTwice :
    ∃ rows, postsRun plainDue plainLibs ⟨[], by decide⟩ someSteps = some rows ∧ ∀ k date,
      ((∃ x ∈ rows.1, x.token_id = k ∧ x.expires_at = date ∧ 6 < date) ↔
        Revoked [firstEvent, secondEvent] k ∧ date = (plainDue k).1 ∧ 6 < date) ∧
      ((∃ x ∈ (relatedRun plainDue readingLibs (Related.Db.empty ℚ)
          someDeliveries).revoked_tokens.1, x.token_id = k ∧ x.expires_at = date ∧ 6 < date) ↔
        Revoked [firstEvent, secondEvent] k ∧ date = (plainDue k).1 ∧ 6 < date) := by
  refine denylists_agree plainDue plainLibs readingLibs (fun s d h => h)
    (by decide +kernel) (fun e => ?_) (by decide) rfl (fun e _ h => ?_) (fun e => ?_) (by decide)
    (by decide) (by decide)
  · simp only [someSteps, List.mem_cons, List.not_mem_nil, or_false, Prod.mk.injEq,
      PostsStep.apply.injEq]
    constructor
    · rintro (rfl | rfl)
      · exact ⟨1, by simp⟩
      · exact ⟨0, by simp⟩
    · rintro ⟨now, ⟨-, rfl⟩ | ⟨-, h⟩ | ⟨-, rfl⟩ | ⟨-, rfl⟩⟩
      · exact .inr rfl
      · cases h
      · exact .inl rfl
      · exact .inr rfl
  · obtain ⟨x, hx, -⟩ := h
    cases hx
  · simp [someDeliveries, eq_comm]

end DjangoFlaskKafka.Sync.Denylists
