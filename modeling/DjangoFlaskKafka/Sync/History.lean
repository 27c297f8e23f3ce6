/-
  Serial histories — requests to the posts service one after another, and what their outbox says.

  `Recorded db es`: the outbox of `db` tells, row by row, the events `es`, which are a writer's
  history (`Lib.Books`) that ends in the book of the posts table.  It holds of the empty database
  and is kept by every request that nothing else runs in between (`recorded_serve`), so of every
  database that a serial history reaches (`recorded_serveAll`).
-/
import DjangoFlaskKafka.Sync.Replica

namespace DjangoFlaskKafka.Sync

open Python Kafka Postgres Related Books

variable {σ : Type}

/-- The outbox tells the history of the table. -/
structure Recorded (db : Posts.Db) (es : List (Event Int String PostPayload)) : Prop where
  legal : Legal es
  tells : List.Forall₂ Tells db.outbox.1 es
  book : replay empty es = source db.posts.1
  ids : ∀ e ∈ es, ∀ k a, e.Writes k a → k < db.nextId

/-- Nothing has been told of nothing. -/
theorem recorded_empty : Recorded .empty [] where
  legal := .nil
  tells := .nil
  book := by
    funext i
    rfl
  ids := by simp

/-- Unique slugs, as labels. -/
theorem unique_source {rows : List Posts.Post} (h : Posts.PostConstraints rows) :
    Unique (source rows) := by
  refine (unique_bookOf_iff (ids_content rows ▸ h.ids)).mpr ?_
  have hslugs : (rows.map content).map PostPayload.slug
      = (rows.map Posts.Post.slug).map Subtype.val := by
    rw [List.map_map, List.map_map]
    rfl
  rw [hslugs]
  exact h.slugs.map Subtype.val_injective

/-- A row of the table is an entry of its book. -/
theorem source_isSome {rows : List Posts.Post} {post : Posts.Post} (h : post ∈ rows) :
    (source rows post.id).isSome := by
  rw [Option.isSome_iff_ne_none]
  intro hnone
  exact bookOf_eq_none_iff.mp hnone (content post) (List.mem_map_of_mem h) rfl

/-- A mirror of the posts has unique ids and slugs as they do. -/
theorem constraints_of_mirrors {rows : List (Related.Post σ)} {posts : List Posts.Post}
    (hposts : Posts.PostConstraints posts) (h : Mirrors rows posts) :
    (rows.map Related.Post.id).Nodup ∧ (rows.map Related.Post.slug).Nodup := by
  have hids : (rows.map Related.Post.id).Nodup := by
    rw [← ids_copied, (h.map PostPayload.id).nodup_iff, ids_content]
    exact hposts.ids
  refine ⟨hids, (slugs_iff hids).mpr ?_⟩
  rw [(mirrors_iff hids hposts.ids).mp h]
  exact unique_source hposts

/-- The outbox is keyed by id. -/
theorem outbox_id_inj {outbox : List Posts.OutboxEvent} (houtbox : Posts.OutboxConstraints outbox)
    {i j : Nat} {e e' : Posts.OutboxEvent} (hi : outbox[i]? = some e) (hj : outbox[j]? = some e') :
    e.id.1 = e'.id.1 ↔ i = j := by
  have hlt : i < (outbox.map Posts.OutboxEvent.id).length := by
    rw [List.length_map]
    exact (List.getElem?_eq_some_iff.mp hi).1
  rw [← List.getElem?_inj hlt houtbox, List.getElem?_map, List.getElem?_map, hi, hj, Option.map_some,
    Option.map_some, Option.some.injEq, Subtype.ext_iff]

section Step

variable {db : Posts.Db} {es : List (Event Int String PostPayload)}

/-- The ids of the table have been handed out. -/
theorem Recorded.id_lt (h : Recorded db es) {post : Posts.Post} (hpost : post ∈ db.posts.1) :
    post.id < db.nextId := by
  have hsome : (replay empty es post.id).isSome := by
    rw [h.book]
    exact source_isSome hpost
  obtain ⟨a, r, hoffer⟩ := h.legal.offered hsome
  exact h.ids _ hoffer post.id a ⟨rfl, rfl⟩

/-- A request that runs on rows that still hold its instance does what it tells. -/
theorem Recorded.write (h : Recorded db es) {call : Posts.Call}
    (hloaded : ∀ post ∈ call.loaded, post ∈ db.posts.1) :
    source (call.write db.nextId db.posts.1).rows = play (replay empty es) (told db.nextId call) := by
  rw [h.book]
  cases call with
  | create data => exact source_create (fun p hp hid => by have := h.id_lt hp; omega) data
  | update post data => exact source_update post data
  | destroy post =>
    refine (source_destroy db.posts.2 post).mpr fun q hq => ?_
    have hpost := hloaded post rfl
    exact ⟨fun hid => List.inj_on_of_nodup_map db.posts.2.ids hq hpost hid ▸ rfl,
      fun hslug => List.inj_on_of_nodup_map db.posts.2.slugs hq hpost hslug ▸ rfl⟩

/-- And the writer may do it. -/
theorem Recorded.allowed (h : Recorded db es) {call : Posts.Call}
    (hloaded : ∀ post ∈ call.loaded, post ∈ db.posts.1)
    (hrows : Posts.PostConstraints (call.write db.nextId db.posts.1).rows) :
    Allowed es (told db.nextId call) := by
  have hunique := unique_source hrows
  rw [h.write hloaded] at hunique
  cases call with
  | create data =>
    refine allowed_offer (fun e he a hw => ?_) hunique
    exact absurd (h.ids e he _ a hw) (Int.lt_irrefl _)
  | update post data =>
    refine allowed_put ?_ hunique
    rw [h.book]
    show (source db.posts.1 post.id).isSome
    exact source_isSome (hloaded post rfl)
  | destroy post =>
    have hpost := List.mem_map_of_mem (f := content) (hloaded post rfl)
    refine ⟨post.id, content post, ?_⟩
    rw [h.book]
    exact (bookOf_eq_some_iff (ids_content _ ▸ db.posts.2.ids)).mpr ⟨hpost, rfl, rfl⟩

/-- **One request**: it changes neither table, or adds what it tells. -/
theorem recorded_serve (h : Recorded db es) (a : Posts.Arrival) :
    let db' := (Posts.serve db a).1
    (db'.posts = db.posts ∧ db'.outbox = db.outbox ∧ Recorded db' es) ∨
      ∃ e, Recorded db' (es ++ [e]) := by
  intro db'
  cases hbegin : Posts.begin db.posts.1 a.request with
  | error response =>
    have hserve : db' = db := by simp only [db', Posts.serve, hbegin]
    exact .inl ⟨by rw [hserve], by rw [hserve], by rwa [hserve]⟩
  | ok call =>
    have hserve : db' = (Posts.finish a.now a.id db call).1 := by
      simp only [db', Posts.serve, hbegin]
    obtain ⟨hnext, hcases⟩ := Posts.finish_cases a.now a.id db call
    rw [← hserve] at hnext hcases
    have hle : db.nextId ≤ db'.nextId := by
      rw [hnext]
      cases call <;> simp only [Posts.Call.nextId] <;> omega
    have hids : ∀ e ∈ es, ∀ k a, e.Writes k a → k < db'.nextId := fun e he k a hw =>
      Int.lt_of_lt_of_le (h.ids e he k a hw) hle
    rcases hcases with ⟨hposts, houtbox, -⟩ | ⟨hposts, houtbox, -⟩
    · exact .inl ⟨hposts, houtbox, ⟨h.legal, houtbox ▸ h.tells, hposts ▸ h.book, hids⟩⟩
    · have hloaded := Posts.begin_loaded hbegin
      refine .inr ⟨told db.nextId call, .snoc h.legal (h.allowed hloaded ?_), ?_, ?_, ?_⟩
      · exact hposts ▸ db'.posts.2
      · rw [houtbox]
        exact List.rel_append h.tells (.cons (tells_write ..) .nil)
      · rw [replay_append, hposts, h.write hloaded]
        rfl
      · intro e he k a' hw
        rcases List.mem_append.mp he with he | he
        · exact hids e he k a' hw
        · obtain rfl := List.mem_singleton.mp he
          rw [hnext]
          cases call with
          | create data =>
            obtain ⟨rfl, -⟩ := hw
            show db.nextId < db.nextId + 1
            omega
          | update post data =>
            obtain ⟨rfl, -⟩ := hw
            show post.id < db.nextId
            exact h.id_lt (hloaded post rfl)
          | destroy post => exact hw.elim

end Step

/-- **Every serial history is recorded**, and so is each of its states: the first `n` events are
    those of a beginning of the history. -/
theorem recorded_serveAll (arrivals : List Posts.Arrival) :
    ∃ es, Recorded (Posts.serveAll .empty arrivals) es ∧ ∀ n ≤ es.length, ∃ before,
      before <+: arrivals ∧ Recorded (Posts.serveAll .empty before) (es.take n) := by
  induction arrivals using List.reverseRecOn with
  | nil =>
    refine ⟨[], recorded_empty, fun n _ => ⟨[], List.prefix_rfl, ?_⟩⟩
    rw [List.take_nil]
    exact recorded_empty
  | append_singleton arrivals a ih =>
    obtain ⟨es, hes, hbefore⟩ := ih
    have hlast : Posts.serveAll .empty (arrivals ++ [a])
        = (Posts.serve (Posts.serveAll .empty arrivals) a).1 := List.foldl_concat ..
    have hearlier : ∀ n ≤ es.length, ∃ before, before <+: arrivals ++ [a] ∧
        Recorded (Posts.serveAll .empty before) (es.take n) := by
      intro n hn
      obtain ⟨before, hprefix, h⟩ := hbefore n hn
      exact ⟨before, hprefix.trans (List.prefix_append _ _), h⟩
    rw [hlast]
    rcases recorded_serve hes a with ⟨-, -, h⟩ | ⟨e, h⟩
    · exact ⟨es, h, hearlier⟩
    · refine ⟨es ++ [e], h, fun n hn => ?_⟩
      rw [List.length_append, List.length_singleton] at hn
      by_cases hle : n ≤ es.length
      · rw [List.take_append_of_le_length hle]
        exact hearlier n hle
      · refine ⟨arrivals ++ [a], List.prefix_rfl, ?_⟩
        rwa [List.take_of_length_le (by simp; omega), hlast]

/-- A post is created and deleted. -/
def shortLife : List Posts.Arrival :=
  [⟨0, sampleUuid 0,
      .create (.obj [("title", .str "A"), ("body", .str "b"), ("slug", .str "a")])⟩,
    ⟨1, sampleUuid 1, .destroy "a"⟩]

theorem length_shortLife : (Posts.serveAll .empty shortLife).outbox.1.length = 2 := by
  decide +kernel

end DjangoFlaskKafka.Sync
