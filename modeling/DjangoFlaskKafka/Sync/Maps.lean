/-
  The related maps over a serial history.

  Requests to the posts service come one after another, and the handlers of the related consumer
  are folded over the outbox they leave.  `MapsExact` says that every related map is what a fresh
  computation from the current rows would give (`Related.Exact`).

  In a serial history every update finds its row in the related table, so what one request does to
  the maps is what `Related.Maps` says of one handler, and only an update that changes a slug can
  spoil them.  `mapsExact_iff` pins the law down to such updates: they have to find the post alone
  in the table.
-/
import DjangoFlaskKafka.Sync.History
import DjangoFlaskKafka.Related.Maps
import DjangoFlaskKafka.Lib.Machine

namespace DjangoFlaskKafka.Sync

open Python Kafka Postgres Related Books Machine

variable {σ : Type} [Zero σ] (L : Libs σ)

/-- The posts service as a machine, one request a step. -/
def serveStep (db : Posts.Db) (a : Posts.Arrival) : Option Posts.Db := some (Posts.serve db a).1

/-- The handlers, folded over the outbox, leave every related map exact. -/
def MapsExact (db : Posts.Db) : Prop :=
  ∃ rows, applyEvents L [] db.outbox.1 = some rows ∧ Exact L rows

/-- A successful update changes the slug only of a post that is alone in the table. -/
def RenamesAlone (db : Posts.Db) (a : Posts.Arrival) : Prop :=
  ∀ post, (Posts.serve db a).2 = .ok post → ∀ old ∈ db.posts.1, old.id = post.id →
    post.slug = old.slug ∨ ∀ q ∈ db.posts.1, q.id = post.id

/-- The outbox is a recorded history, and the handlers folded over it mirror the posts. -/
def Followed (db : Posts.Db) : Prop :=
  ∃ es rows, Recorded db es ∧ applyEvents L [] db.outbox.1 = some rows ∧ Mirrors rows db.posts.1

variable {L}

theorem followed_empty : Followed L .empty := ⟨[], [], recorded_empty, rfl, .refl _⟩

/-- What one request does: nothing to either table, or its write, which the handlers follow. -/
theorem serve_follows {db : Posts.Db} {es : List (Event Int String PostPayload)}
    {rows : List (Related.Post σ)} (hdb : Recorded db es)
    (hrows : applyEvents L [] db.outbox.1 = some rows) (hmirrors : Mirrors rows db.posts.1)
    (a : Posts.Arrival) :
    let db' := (Posts.serve db a).1
    (db'.posts = db.posts ∧ db'.outbox = db.outbox ∧ ∀ post, (Posts.serve db a).2 ≠ .ok post) ∨
      ∃ call rows', Posts.begin db.posts.1 a.request = .ok call ∧
        rows' = played L rows (told db.nextId call) ∧
        applyEvents L [] db'.outbox.1 = some rows' ∧ Mirrors rows' db'.posts.1 ∧
        (Posts.serve db a).2 = (call.write db.nextId db.posts.1).response := by
  intro db'
  cases hbegin : Posts.begin db.posts.1 a.request with
  | error response =>
    have hserve : Posts.serve db a = (db, response) := by simp only [Posts.serve, hbegin]
    refine .inl ⟨?_, ?_, fun post => ?_⟩ <;> simp only [db', hserve]
    exact Posts.begin_error hbegin post
  | ok call =>
    have hserve : Posts.serve db a = Posts.finish a.now a.id db call := by
      simp only [Posts.serve, hbegin]
    rcases (Posts.finish_cases a.now a.id db call).2 with ⟨hposts, houtbox, hresponse⟩ |
      ⟨hposts, houtbox, hresponse⟩
    · refine .inl ⟨?_, ?_, fun post => ?_⟩ <;> simp only [db', hserve]
      · exact hposts
      · exact houtbox
      · rw [hresponse]; simp
    · obtain ⟨hids, hslugs⟩ := constraints_of_mirrors db.posts.2 hmirrors
      have htell := tells_write a.now a.id db.nextId db.posts.1 call
      refine .inr ⟨call, _, rfl, rfl, ?_, ?_, ?_⟩ <;> simp only [db', hserve]
      · rw [houtbox]
        exact applyEvents_concat L hrows (applyEvent_spec L hids hslugs htell)
      · rw [mirrors_iff (ids_played L hids htell) (Posts.finish a.now a.id db call).1.posts.2.ids,
          replica_played L hids htell, (mirrors_iff hids db.posts.2.ids).mp hmirrors, hposts,
          hdb.write (Posts.begin_loaded hbegin), hdb.book]
      · exact hresponse

theorem followed_step (db : Posts.Db) (a : Posts.Arrival) (db' : Posts.Db) (h : Followed L db)
    (hstep : serveStep db a = some db') : Followed L db' := by
  obtain ⟨es, rows, hdb, hrows, hmirrors⟩ := h
  obtain rfl := Option.some.inj hstep
  obtain ⟨es', hdb'⟩ : ∃ es', Recorded (Posts.serve db a).1 es' := by
    rcases recorded_serve hdb a with ⟨-, -, h⟩ | ⟨e, h⟩
    · exact ⟨es, h⟩
    · exact ⟨_, h⟩
  rcases serve_follows hdb hrows hmirrors a with ⟨hposts, houtbox, -⟩ | ⟨-, rows', -, -, h, hm, -⟩
  · exact ⟨es', rows, hdb', houtbox ▸ hrows, hposts ▸ hmirrors⟩
  · exact ⟨es', rows', hdb', h, hm⟩

omit [Zero σ] in
/-- The row that mirrors a post. -/
theorem exists_mirror {rows : List (Related.Post σ)} {posts : List Posts.Post}
    (h : Mirrors rows posts) {post : Posts.Post} (hpost : post ∈ posts) :
    ∃ r ∈ rows, r.id = post.id ∧ r.slug = post.slug.1 := by
  obtain ⟨r, hr, heq⟩ := List.mem_map.mp (h.mem_iff.mpr (List.mem_map_of_mem (f := content) hpost))
  exact ⟨r, hr, congrArg PostPayload.id heq, congrArg PostPayload.slug heq⟩

omit [Zero σ] in
theorem forall_id_iff {rows : List (Related.Post σ)} {posts : List Posts.Post}
    (h : Mirrors rows posts) (i : Int) : (∀ q ∈ rows, q.id = i) ↔ ∀ q ∈ posts, q.id = i := by
  have hids : ∀ j, j ∈ rows.map Related.Post.id ↔ j ∈ posts.map Posts.Post.id := fun j => by
    rw [← ids_copied, ← ids_content]
    exact (h.map PostPayload.id).mem_iff
  simpa using (forall_congr' fun j => imp_congr (hids j) Iff.rfl :
    (∀ j, j ∈ rows.map Related.Post.id → j = i) ↔ ∀ j, j ∈ posts.map Posts.Post.id → j = i)

omit [Zero σ] in
/-- The ids of a mirror have been handed out. -/
theorem forall_mirrored_lt {db : Posts.Db} {es : List (Event Int String PostPayload)}
    {rows : List (Related.Post σ)} (hdb : Recorded db es) (h : Mirrors rows db.posts.1) :
    ∀ q ∈ rows, q.id < db.nextId := by
  intro q hq
  obtain ⟨post, hpost, heq⟩ := List.mem_map.mp (h.mem_iff.mp (List.mem_map_of_mem (f := copied) hq))
  have hid : post.id = q.id := congrArg PostPayload.id heq
  exact hid ▸ hdb.id_lt hpost

/-- **One request** keeps the maps exact unless it changes a slug next to other posts. -/
theorem mapsExact_step (hsymm : ∀ a b, L.cosine a b = L.cosine b a) (db : Posts.Db)
    (a : Posts.Arrival) (db' : Posts.Db) (h : Followed L db) (hexact : MapsExact L db)
    (hstep : serveStep db a = some db') : MapsExact L db' ↔ RenamesAlone db a := by
  obtain ⟨es, rows, hdb, hrows, hmirrors⟩ := h
  obtain ⟨rows₀, hrows₀, hexact⟩ := hexact
  obtain rfl : rows = rows₀ := Option.some.inj (hrows.symm.trans hrows₀)
  obtain rfl := Option.some.inj hstep
  obtain ⟨hids, hslugs⟩ := constraints_of_mirrors db.posts.2 hmirrors
  rcases serve_follows hdb hrows hmirrors a with ⟨-, houtbox, hresponse⟩ |
    ⟨call, rows', hbegin, hplayed, hrows', hmirrors', hresponse⟩
  · exact iff_of_true ⟨rows, houtbox ▸ hrows, hexact⟩ fun post hpost => absurd hpost (hresponse post)
  · have hslugs' := (constraints_of_mirrors (Posts.serve db a).1.posts.2 hmirrors').2
    have hiff : MapsExact L (Posts.serve db a).1 ↔ Exact L rows' :=
      ⟨fun ⟨rows'', h, hexact'⟩ => Option.some.inj (h.symm.trans hrows') ▸ hexact',
        fun h => ⟨rows', hrows', h⟩⟩
    rw [hiff]
    cases call with
    | create data =>
      refine iff_of_true ?_ fun post hpost => ?_
      · rw [hplayed] at hslugs' ⊢
        refine exact_created hsymm hexact (fun q hq hid => ?_) hslugs'
        have hlt := forall_mirrored_lt hdb hmirrors q hq
        have hnew : q.id = db.nextId := hid
        omega
      · rw [hresponse] at hpost
        cases hpost
    | destroy post =>
      refine iff_of_true ?_ fun post' hpost => ?_
      · rw [hplayed]
        exact exact_deleted hexact _
      · rw [hresponse] at hpost
        cases hpost
    | update post data =>
      have hpost : post ∈ db.posts.1 := Posts.begin_loaded hbegin post rfl
      obtain ⟨r, hr, hrid, hrslug⟩ := exists_mirror hmirrors hpost
      rw [hplayed] at hslugs' ⊢
      have hupdated := exact_updated_iff hsymm hexact hids hslugs hslugs' hr
        (p := content (data.update post)) hrid
      rw [show played L rows (told db.nextId (.update post data))
        = updated L rows (content (data.update post)) from rfl, hupdated, hrslug,
        forall_id_iff hmirrors]
      constructor
      · rintro hcond post' hpost' old hold hid
        obtain rfl : data.update post = post' := by
          rw [hresponse] at hpost'
          exact Posts.Response.ok.inj hpost'
        obtain rfl := List.inj_on_of_nodup_map db.posts.2.ids hold hpost hid
        exact hcond.imp_left Subtype.ext
      · intro hcond
        exact (hcond _ hresponse post hpost rfl).imp_left (congrArg Subtype.val)

/-- **Which serial histories keep the related maps exact**: those in which every successful update
    leaves the slug alone or finds no other post in the table. -/
theorem mapsExact_iff (hsymm : ∀ a b, L.cosine a b = L.cosine b a)
    (arrivals : List Posts.Arrival) :
    Throughout serveStep (MapsExact L) .empty arrivals ↔ Along serveStep RenamesAlone .empty arrivals :=
  throughout_iff_along (fun s a s' hs _ => followed_step s a s' hs) (mapsExact_step hsymm) arrivals
    followed_empty ⟨[], rfl, by simp [Exact]⟩

/-! ## A rename next to another post -/

/-- Two posts are created, and the first one gets a new slug. -/
def renameFirst : List Posts.Arrival :=
  let fields (slug : String) : Json :=
    .obj [("title", .str "A"), ("body", .str "b"), ("slug", .str slug)]
  [⟨0, sampleUuid 0, .create (fields "a")⟩,
    ⟨1, sampleUuid 1, .create (fields "b")⟩,
    ⟨2, sampleUuid 2, .update "a" (fields "c")⟩]

theorem mapsExact_iff_renameFirst :
    Throughout serveStep (MapsExact asciiLibs) .empty renameFirst ↔
      Along serveStep RenamesAlone .empty renameFirst :=
  mapsExact_iff (fun a b => by simp [asciiLibs, eq_comm]) renameFirst

/-- **Not every serial history keeps the related maps exact**: the other post goes on pointing at a
    slug that no row has. -/
theorem renamed_slug_dangles :
    ¬ ∀ arrivals, Throughout serveStep (MapsExact asciiLibs) .empty arrivals := by
  intro h
  have hlast := (h renameFirst).last (t := Posts.serveAll .empty renameFirst) rfl
  obtain ⟨rows, hrows, hexact⟩ := hlast
  have hcolumns : (applyEvents asciiLibs [] (Posts.serveAll .empty renameFirst).outbox.1).map
      (List.map fun p => (p.slug, (p.related.lookup "a").isSome)) =
        some [("c", false), ("b", true)] := by
    decide +kernel
  rw [hrows] at hcolumns
  have hcolumns := Option.some.inj hcolumns
  obtain ⟨p, hp, hdangling⟩ : ∃ p ∈ rows, (p.slug, (p.related.lookup "a").isSome) = ("b", true) :=
    List.mem_map.mp (hcolumns ▸ by simp)
  obtain ⟨s, hs⟩ := Option.isSome_iff_exists.mp (Prod.mk.inj hdangling).2
  obtain ⟨q, hq, -, hslug, -⟩ := (hexact p hp "a" s).mp hs
  have hin := List.mem_map_of_mem (f := fun p => (p.slug, (p.related.lookup "a").isSome)) hq
  rw [hcolumns, hslug] at hin
  simp at hin

end DjangoFlaskKafka.Sync
