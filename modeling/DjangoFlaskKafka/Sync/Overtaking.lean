/-
  Overtaking — the outbox of a serial history, delivered through partitions.

  1. **Program** — every outbox row is written, in outbox order, to the partition of its own topic
     that `part` selects from its key.  The consumer receives each partition in order and the
     partitions interleaved in any way (`Lanes.Delivery`), and `handle`s what it receives.

  2. **Law** — whatever the interleaving, every event is applied and the related table ends up
     holding exactly the posts of the posts service.

  3. **The crux** — the three topics of one post are three partitions, and a rename changes the key.
     `deliveries_mirror_iff` says exactly which histories survive (`NoOvertaking`): no post is ever
     deleted; the updates of a post stay in one partition; no post is created under a slug that was
     in use before; and an update takes a slug that another post has used only in the partition
     that carries the updates of that other post.  Besides, the ids have to fit the replica's
     column.

  Both directions are `Lanes.agrees_iff`, which knows nothing of posts: what is done here is to read
  lanes, labels and keys off the outbox rows, and `handle`'s replies off the book.
-/
import DjangoFlaskKafka.Sync.History
import DjangoFlaskKafka.Lib.Lanes

namespace DjangoFlaskKafka.Sync

open Python Kafka Postgres Related Books Lanes

variable {σ : Type}

/-! ## The program -/

variable (part : String → Nat) (outbox : List Posts.OutboxEvent)

/-- The partition an outbox row is written to. -/
def partitionOf (e : Posts.OutboxEvent) : TopicPartition := ⟨e.topic, part e.key.1⟩

/-- The lane of the outbox row at a position: its partition. -/
def laneAt (i : Nat) : Option TopicPartition := outbox[i]?.map (partitionOf part)

/-- The offset the row at a position gets in its partition. -/
def offsetAt (i : Nat) : Nat :=
  (List.range i).countP fun j => laneAt part outbox j = laneAt part outbox i

/-- The message that the row at a position becomes. -/
def messageAt (i : Nat) : Option Message :=
  outbox[i]?.map fun e => message e (part e.key.1) (offsetAt part outbox i)

/-- The messages received when the rows come in the order `d`; no post handler reads the clock. -/
def received (now : Int) (d : List Nat) : List (Int × Message) :=
  (d.filterMap (messageAt part outbox)).map fun m => (now, m)

/-! ## The law -/

/-- **The outboxes that no delivery can spoil.** -/
structure NoOvertaking : Prop where
  no_destroy : ∀ e ∈ outbox, e.topic ≠ .postDeleted
  one_partition : ∀ u ∈ outbox, ∀ u' ∈ outbox, u.topic = .postUpdated → u'.topic = .postUpdated →
    ∀ k, About u k → About u' k → part u.key.1 = part u'.key.1
  new_slug : ∀ (i j : Nat) (e c : Posts.OutboxEvent), i < j → outbox[i]? = some e →
    outbox[j]? = some c → c.topic = .postCreated → e.key ≠ c.key
  handover : ∀ (i j : Nat) (e u : Posts.OutboxEvent), i < j → outbox[i]? = some e →
    outbox[j]? = some u → u.topic = .postUpdated → e.key = u.key → ∀ k k', About e k → About u k' →
    k ≠ k' → ∀ u' ∈ outbox, u'.topic = .postUpdated → About u' k → part u'.key.1 = part u.key.1
  ids : ∀ e ∈ outbox, ∀ k, About e k → InInteger k

/-! ## Rows and what they tell -/

section Tells

variable {part outbox} {e : Posts.OutboxEvent} {ev : Event Int String PostPayload}

/-- An event is labelled with the key of its row. -/
theorem Tells.label (h : Tells e ev) : ev.label = e.key.1 := by
  cases h with
  | created _ hkey _ _ => exact hkey.symm
  | updated _ hkey _ _ => exact hkey.symm
  | deleted _ hkey _ => exact hkey.symm

/-- The kind of event that a topic is for. -/
def kindOf : Topic → Kind
  | .postCreated => .offers
  | .postUpdated => .puts
  | _ => .drops

/-- Its kind is the topic of the row. -/
theorem Tells.kind (h : Tells e ev) : kind ev = kindOf e.topic := by
  cases h with
  | created htopic _ _ _ => rw [htopic]; rfl
  | updated htopic _ _ _ => rw [htopic]; rfl
  | deleted htopic _ _ => rw [htopic]; rfl

/-- No post is told of in the topic of revocations. -/
theorem Tells.topic_ne (h : Tells e ev) : e.topic ≠ .tokenRevoked := by
  cases h with
  | created htopic _ _ _ => rw [htopic]; simp
  | updated htopic _ _ _ => rw [htopic]; simp
  | deleted htopic _ _ => rw [htopic]; simp

/-- One topic for each kind. -/
theorem kindOf_inj {t t' : Topic} (ht : t ≠ .tokenRevoked) (ht' : t' ≠ .tokenRevoked) :
    kindOf t = kindOf t' ↔ t = t' := by
  cases t <;> cases t' <;> simp_all [kindOf]

/-- A row names one id. -/
theorem about_inj {k k' : Int} (h : About e k) (h' : About e k') : k = k' :=
  Json.int.inj (Except.ok.inj (h.symm.trans h'))

/-- An event writes under the id and the slug that its row names. -/
theorem Tells.writes_iff (h : Tells e ev) (hdestroy : e.topic ≠ .postDeleted) {k : Int}
    {a : String} : ev.Writes k a ↔ About e k ∧ e.key.1 = a := by
  cases h with
  | created _ hkey hcarries _ =>
    refine and_congr ⟨fun hk => hk ▸ hcarries.id, fun hk => about_inj hcarries.id hk⟩ ?_
    rw [hkey]
  | updated _ hkey hcarries _ =>
    refine and_congr ⟨fun hk => hk ▸ hcarries.id, fun hk => about_inj hcarries.id hk⟩ ?_
    rw [hkey]
  | deleted htopic _ _ => exact absurd htopic hdestroy

theorem Tells.offer_iff (h : Tells e ev) {k : Int} {a : String} :
    (∃ r, ev = .offer k a r) ↔ e.topic = .postCreated ∧ About e k ∧ e.key.1 = a := by
  cases h with
  | created htopic hkey hcarries _ =>
    constructor
    · rintro ⟨r, heq⟩
      obtain ⟨rfl, rfl, -⟩ := Event.offer.inj heq
      exact ⟨htopic, hcarries.id, hkey⟩
    · rintro ⟨-, habout, rfl⟩
      exact ⟨_, by rw [about_inj habout hcarries.id, hkey]⟩
  | updated htopic _ _ _ => simp [htopic]
  | deleted htopic _ _ => simp [htopic]

theorem Tells.put_iff (h : Tells e ev) {k : Int} {a : String} :
    (∃ r, ev = .put k a r) ↔ e.topic = .postUpdated ∧ About e k ∧ e.key.1 = a := by
  cases h with
  | created htopic _ _ _ => simp [htopic]
  | updated htopic hkey hcarries _ =>
    constructor
    · rintro ⟨r, heq⟩
      obtain ⟨rfl, rfl, -⟩ := Event.put.inj heq
      exact ⟨htopic, hcarries.id, hkey⟩
    · rintro ⟨-, habout, rfl⟩
      exact ⟨_, by rw [about_inj habout hcarries.id, hkey]⟩
  | deleted htopic _ _ => simp [htopic]

end Tells

/-! ## Outboxes and the histories they tell -/

section Outbox

variable {part outbox} {es : List (Event Int String PostPayload)}

/-- The row that tells an event. -/
theorem exists_row (h : List.Forall₂ Tells outbox es) {i : Nat} {ev : Event Int String PostPayload}
    (hev : es[i]? = some ev) : ∃ e, outbox[i]? = some e ∧ Tells e ev :=
  exists_getElem?_of_forall₂ h.flip hev

/-- The event that a row tells. -/
theorem exists_event (h : List.Forall₂ Tells outbox es) {e : Posts.OutboxEvent} (he : e ∈ outbox) :
    ∃ ev ∈ es, Tells e ev := by
  obtain ⟨i, hi⟩ := List.mem_iff_getElem?.mp he
  obtain ⟨ev, hev, htell⟩ := exists_getElem?_of_forall₂ h hi
  exact ⟨ev, List.mem_of_getElem? hev, htell⟩

/-- The row that tells an event of the history. -/
theorem exists_row_mem (h : List.Forall₂ Tells outbox es) {ev : Event Int String PostPayload}
    (hev : ev ∈ es) : ∃ e ∈ outbox, Tells e ev := by
  obtain ⟨i, hi⟩ := List.mem_iff_getElem?.mp hev
  obtain ⟨e, he, htell⟩ := exists_row h hi
  exact ⟨e, List.mem_of_getElem? he, htell⟩

/-- **The conditions on the rows are the conditions on the history they tell.** -/
theorem noOvertaking_iff (h : List.Forall₂ Tells outbox es) :
    NoOvertaking part outbox ↔ Orderly part es ∧ ∀ ev ∈ es, InRange ev := by
  constructor
  · intro hrows
    refine ⟨⟨?_, ?_, ?_, ?_⟩, fun ev hev => ?_⟩
    · intro a hin
      obtain ⟨e, he, htell⟩ := exists_row_mem h hin
      cases htell with
      | deleted htopic _ _ => exact hrows.no_destroy e he htopic
    · intro k a r a' r' hin hin'
      obtain ⟨u, hu, htell⟩ := exists_row_mem h hin
      obtain ⟨u', hu', htell'⟩ := exists_row_mem h hin'
      obtain ⟨htopic, habout, rfl⟩ := htell.put_iff.mp ⟨r, rfl⟩
      obtain ⟨htopic', habout', rfl⟩ := htell'.put_iff.mp ⟨r', rfl⟩
      exact hrows.one_partition u hu u' hu' htopic htopic' k habout habout'
    · intro i j ev k a r hij hi hj hlabel
      obtain ⟨e, he, htell⟩ := exists_row h hi
      obtain ⟨c, hc, htell'⟩ := exists_row h hj
      obtain ⟨htopic, -, rfl⟩ := htell'.offer_iff.mp ⟨r, rfl⟩
      exact hrows.new_slug i j e c hij he hc htopic (Subtype.ext (htell.label.symm.trans hlabel))
    · intro i j ev k k' a r a' r' hij hi hj hw hne hin
      obtain ⟨e, he, htell⟩ := exists_row h hi
      obtain ⟨u, hu, htell'⟩ := exists_row h hj
      obtain ⟨u', hu', htell''⟩ := exists_row_mem h hin
      obtain ⟨htopic, habout, rfl⟩ := htell'.put_iff.mp ⟨r, rfl⟩
      obtain ⟨htopic', habout', rfl⟩ := htell''.put_iff.mp ⟨r', rfl⟩
      have hdestroy := hrows.no_destroy e (List.mem_of_getElem? he)
      obtain ⟨habout'', hkey⟩ := (htell.writes_iff hdestroy).mp hw
      exact hrows.handover i j e u hij he hu htopic (Subtype.ext hkey) k' k habout'' habout hne u'
        hu' htopic' habout'
    · obtain ⟨e, he, htell⟩ := exists_row_mem h hev
      exact inRange_of_about htell (hrows.ids e he)
  · rintro ⟨ho, hrange⟩
    have hdestroy : ∀ e ∈ outbox, e.topic ≠ .postDeleted := by
      intro e he htopic
      obtain ⟨ev, hev, htell⟩ := exists_event h he
      cases htell with
      | created htopic' _ _ _ => rw [htopic] at htopic'; cases htopic'
      | updated htopic' _ _ _ => rw [htopic] at htopic'; cases htopic'
      | deleted _ _ _ => exact ho.no_drop _ hev
    refine ⟨hdestroy, ?_, ?_, ?_, ?_⟩
    · intro u hu u' hu' htopic htopic' k habout habout'
      obtain ⟨ev, hev, htell⟩ := exists_event h hu
      obtain ⟨ev', hev', htell'⟩ := exists_event h hu'
      obtain ⟨r, rfl⟩ := htell.put_iff.mpr ⟨htopic, habout, rfl⟩
      obtain ⟨r', rfl⟩ := htell'.put_iff.mpr ⟨htopic', habout', rfl⟩
      exact ho.one_lane k _ r _ r' hev hev'
    · intro i j e c hij he hc htopic hkey
      obtain ⟨ev, hev, htell⟩ := exists_getElem?_of_forall₂ h he
      obtain ⟨ev', hev', htell'⟩ := exists_getElem?_of_forall₂ h hc
      cases htell' with
      | @created p _ hkey' _ _ =>
        refine ho.fresh i j ev p.id p.slug p hij hev hev' ?_
        rw [htell.label, hkey, hkey']
      | updated htopic' _ _ _ => rw [htopic] at htopic'; cases htopic'
      | deleted htopic' _ _ => rw [htopic] at htopic'; cases htopic'
    · intro i j e u hij he hu htopic hkey k k' habout habout' hne u' hu' htopic' habout''
      obtain ⟨ev, hev, htell⟩ := exists_getElem?_of_forall₂ h he
      obtain ⟨ev', hev', htell'⟩ := exists_getElem?_of_forall₂ h hu
      obtain ⟨ev'', hev'', htell''⟩ := exists_event h hu'
      obtain ⟨r, rfl⟩ := htell'.put_iff.mpr ⟨htopic, habout', rfl⟩
      obtain ⟨r', rfl⟩ := htell''.put_iff.mpr ⟨htopic', habout'', rfl⟩
      have hw := (htell.writes_iff (hdestroy e (List.mem_of_getElem? he))).mpr
        ⟨habout, congrArg Subtype.val hkey⟩
      exact ho.handover i j ev k' k _ r _ r' hij hev hev' hw hne hev''
    · intro e he k habout
      obtain ⟨ev, hev, htell⟩ := exists_event h he
      have hok := hrange ev hev
      cases htell with
      | created _ _ hcarries _ => exact about_inj hcarries.id habout ▸ hok
      | updated _ _ hcarries _ => exact about_inj hcarries.id habout ▸ hok
      | deleted htopic _ _ => exact absurd htopic (hdestroy e he)

/-- Two positions are in one partition exactly when their events are in one lane. -/
theorem laneAt_eq_iff (h : List.Forall₂ Tells outbox es) (i j : Nat) :
    laneAt part outbox i = laneAt part outbox j ↔ lane part es i = lane part es j := by
  have hnone : ∀ i : Nat, outbox[i]? = none ↔ es[i]? = none := by
    intro i
    rw [List.getElem?_eq_none_iff, List.getElem?_eq_none_iff, h.length_eq]
  unfold laneAt lane
  cases hi : outbox[i]? with
  | none =>
    rw [(hnone i).mp hi]
    cases hj : outbox[j]? with
    | none => simp [(hnone j).mp hj]
    | some e =>
      obtain ⟨ev, hev, -⟩ := exists_getElem?_of_forall₂ h hj
      simp [hev]
  | some e =>
    obtain ⟨ev, hev, htell⟩ := exists_getElem?_of_forall₂ h hi
    cases hj : outbox[j]? with
    | none => simp [(hnone j).mp hj, hev]
    | some e' =>
      obtain ⟨ev', hev', htell'⟩ := exists_getElem?_of_forall₂ h hj
      simp only [hev, hev', Option.map_some, Option.some.injEq, Prod.mk.injEq, partitionOf,
        TopicPartition.mk.injEq, htell.label, htell'.label, htell.kind, htell'.kind,
        kindOf_inj htell.topic_ne htell'.topic_ne]

end Outbox

/-! ## What `handle` replies -/

section Received

variable {part outbox} [Zero σ] (L : Libs σ) (now : Int) {es : List (Event Int String PostPayload)}

/-- What is delivered is received, in that order. -/
theorem received_cons {i : Nat} {e : Posts.OutboxEvent} (hi : outbox[i]? = some e) (d : List Nat) :
    received part outbox now (i :: d)
      = (now, message e (part e.key.1) (offsetAt part outbox i)) :: received part outbox now d := by
  simp [received, messageAt, hi]

/-- **When every reply is `True`**: when the book meets no label twice and every id fits; and then
    the replica has played the events.  By induction on what is received, each `handle` call being a
    first delivery. -/
theorem handleAll_received (part : String → Nat) (htells : List.Forall₂ Tells outbox es)
    (houtbox : Posts.OutboxConstraints outbox) {d : List Nat} (hnodup : d.Nodup)
    (hlt : ∀ i ∈ d, i < outbox.length) {db : Related.Db σ}
    (hnew : ∀ i ∈ d, ∀ e, outbox[i]? = some e → ¬ db.Processed e.id.1) :
    ((∀ reply ∈ (handleAll L db (received part outbox now d)).2, reply = .returned true) ↔
        Accepts (replica db.post.1) (pick es d) ∧ ∀ ev ∈ pick es d, InRange ev) ∧
      (Accepts (replica db.post.1) (pick es d) ∧ (∀ ev ∈ pick es d, InRange ev) →
        replica (handleAll L db (received part outbox now d)).1.post.1
          = replay (replica db.post.1) (pick es d)) := by
  induction d generalizing db with
  | nil => exact ⟨by simp [received, handleAll, pick, Accepts], fun _ => rfl⟩
  | cons i d ih =>
    obtain ⟨hid, hnodup⟩ := List.nodup_cons.mp hnodup
    obtain ⟨e, hi⟩ : ∃ e, outbox[i]? = some e :=
      ⟨_, List.getElem?_eq_getElem (hlt i List.mem_cons_self)⟩
    obtain ⟨ev, hev, htell⟩ := exists_getElem?_of_forall₂ htells hi
    have hpick : pick es (i :: d) = ev :: pick es d := by simp [pick, hev]
    have hfirst := hnew i List.mem_cons_self _ hi
    rw [received_cons now hi, hpick, List.forall_mem_cons]
    by_cases hok : Unique (play (replica db.post.1) ev) ∧ InRange ev
    · obtain ⟨db', hhandle, hpost, hprocessed⟩ := handle_applies L htell now (part e.key.1)
        (offsetAt part outbox i) hfirst hok
      have hplayed : replica db'.post.1 = play (replica db.post.1) ev := by
        rw [hpost, replica_played L db.post.2.ids htell]
      have hnew' : ∀ j ∈ d, ∀ e, outbox[j]? = some e → ¬ db'.Processed e.id.1 := by
        rintro j hj e' he' ⟨x, hx, heq⟩
        rw [hprocessed] at hx
        rcases List.mem_append.mp hx with hx | hx
        · exact hnew j (List.mem_cons_of_mem _ hj) e' he' ⟨x, hx, heq⟩
        · obtain rfl := List.mem_singleton.mp hx
          exact hid ((outbox_id_inj houtbox hi he').mp heq ▸ hj)
      obtain ⟨hreplies, hbook⟩ := ih hnodup (fun j hj => hlt j (List.mem_cons_of_mem _ hj)) hnew'
      rw [hplayed] at hreplies hbook
      have hstep : handleAll L db ((now, message e (part e.key.1) (offsetAt part outbox i))
            :: received part outbox now d)
          = ((handleAll L db' (received part outbox now d)).1,
            .returned true :: (handleAll L db' (received part outbox now d)).2) := by
        simp only [handleAll, hhandle]
      rw [hstep]
      refine ⟨?_, fun h => hbook ⟨h.1.2, h.2.2⟩⟩
      rw [List.forall_mem_cons, hreplies]
      exact ⟨fun h => ⟨⟨hok.1, h.2.1⟩, hok.2, h.2.2⟩, fun h => ⟨rfl, h.1.2, h.2.2⟩⟩
    · have hhandle := handle_refuses L htell now (part e.key.1) (offsetAt part outbox i) hfirst hok
      refine ⟨iff_of_false (fun h => ?_) fun h => hok ⟨h.1.1, h.2.1⟩,
        fun h => absurd ⟨h.1.1, h.2.1⟩ hok⟩
      have hreply := h (.returned false) (by simp [handleAll, hhandle])
      simp at hreply

end Received

/-! ## Which histories survive every delivery -/

section Deliveries

variable [Zero σ] (L : Libs σ) (now : Int) (arrivals : List Posts.Arrival)

/-- Receiving the outbox in the order `d` applies every event, and leaves the related table with
    exactly the posts of the posts service. -/
def Survives (d : List Nat) : Prop :=
  let db := Posts.serveAll .empty arrivals
  let r := handleAll L (.empty σ) (received part db.outbox.1 now d)
  (∀ reply ∈ r.2, reply = .returned true) ∧ Mirrors r.1.post.1 db.posts.1

variable {part L now arrivals} {es : List (Event Int String PostPayload)}

/-- Surviving is agreeing (`Lanes.Agrees`), with ids that fit. -/
theorem survives_iff (hdb : Recorded (Posts.serveAll .empty arrivals) es) {d : List Nat}
    (hd : Delivery (lane part es) es.length d) :
    Survives part L now arrivals d ↔ Agrees es d ∧ ∀ ev ∈ es, InRange ev := by
  have hlen := hdb.tells.length_eq
  have hnew : ∀ i ∈ d, ∀ e, (Posts.serveAll .empty arrivals).outbox.1[i]? = some e →
      ¬ (Related.Db.empty σ).Processed e.id.1 := by
    rintro i - e - ⟨x, hx, -⟩
    exact absurd hx (by simp [Related.Db.empty])
  obtain ⟨hreplies, hbook⟩ := handleAll_received L now part hdb.tells
    (Posts.serveAll .empty arrivals).outbox.2 (hd.perm.nodup_iff.mpr List.nodup_range)
    (fun i hi => hlen ▸ hd.mem.mp hi) hnew
  have hempty : replica (Related.Db.empty σ).post.1 = empty := rfl
  have hall : (∀ ev ∈ pick es d, InRange ev) ↔ ∀ ev ∈ es, InRange ev := by
    refine forall_congr' fun ev => imp_congr ?_ Iff.rfl
    rw [mem_pick, List.mem_iff_getElem?]
    exact ⟨fun ⟨i, _, hi⟩ => ⟨i, hi⟩,
      fun ⟨i, hi⟩ => ⟨i, hd.mem.mpr (List.getElem?_eq_some_iff.mp hi).1, hi⟩⟩
  rw [hempty, hall] at hreplies hbook
  unfold Survives Agrees
  dsimp only
  rw [hreplies, and_assoc, and_assoc, and_congr_right_iff]
  intro haccepts
  rw [and_comm, and_congr_left_iff]
  intro hrange
  rw [mirrors_iff (handleAll L (.empty σ) _).1.post.2.ids (Posts.serveAll .empty arrivals).posts.2.ids,
    hbook ⟨haccepts, hrange⟩, hdb.book]

/-- **Which serial histories survive every delivery** that the topics and keys permit. -/
theorem deliveries_mirror_iff (L : Libs σ) (now : Int) (part : String → Nat)
    (arrivals : List Posts.Arrival) :
    (∀ d, Delivery (laneAt part (Posts.serveAll .empty arrivals).outbox.1)
        (Posts.serveAll .empty arrivals).outbox.1.length d → Survives part L now arrivals d) ↔
      NoOvertaking part (Posts.serveAll .empty arrivals).outbox.1 := by
  obtain ⟨es, hdb, -⟩ := recorded_serveAll arrivals
  have hlanes : ∀ d, Delivery (laneAt part (Posts.serveAll .empty arrivals).outbox.1)
      (Posts.serveAll .empty arrivals).outbox.1.length d ↔ Delivery (lane part es) es.length d := by
    intro d
    rw [hdb.tells.length_eq]
    exact ⟨fun h => h.congr fun i j => (laneAt_eq_iff hdb.tells i j).mpr,
      fun h => h.congr fun i j => (laneAt_eq_iff hdb.tells i j).mp⟩
  rw [noOvertaking_iff hdb.tells, ← agrees_iff hdb.legal]
  constructor
  · intro h
    refine ⟨fun d hd => ((survives_iff hdb hd).mp (h d ((hlanes d).mpr hd))).1, ?_⟩
    have hrange := delivery_range (lane part es) es.length
    exact ((survives_iff hdb hrange).mp (h _ ((hlanes _).mpr hrange))).2
  · rintro ⟨h, hrange⟩ d hd
    have hd' := (hlanes d).mp hd
    exact (survives_iff hdb hd').mpr ⟨h d hd', hrange⟩

end Deliveries

/-- **Not every delivery mirrors the posts**: the deletion of a post overtakes its creation, which
    then brings it back for good. -/
theorem deletion_overtakes : ¬ ∀ (part : String → Nat) (arrivals : List Posts.Arrival) (d : List Nat),
    Delivery (laneAt part (Posts.serveAll .empty arrivals).outbox.1)
      (Posts.serveAll .empty arrivals).outbox.1.length d →
    Survives part asciiLibs 0 arrivals d := by
  intro h
  have hd : Delivery (laneAt (fun _ => 0) (Posts.serveAll .empty shortLife).outbox.1)
      (Posts.serveAll .empty shortLife).outbox.1.length [1, 0] := by
    rw [length_shortLife]
    exact ⟨by decide, by decide +kernel⟩
  have hmirrors := (h (fun _ => 0) shortLife [1, 0] hd).2
  revert hmirrors
  unfold Mirrors
  decide +kernel

end DjangoFlaskKafka.Sync
