/-
  Readers — what the readers of the related service are answered while it catches up.

  1. **Program** — the deliveries of `Sync.Redelivery`; the routes `GET /posts` and
     `GET /posts/<slug>` of the related service, and `GET /posts/<slug>` of the posts service.

  2. **Law** — `reads_follow`: at every moment the related service answers what the posts service
     answered after some first of its requests, with as many events as have been delivered; and a
     later moment never answers from fewer requests than an earlier one did.  The answers are
     compared in what is copied; each service adds stamps of its own, and the related map is shown
     by one of them only.

  3. **The crux** — both sides answer from the contents of their tables, whatever the order of the
     rows (`shows_of_mirrors`): a slug is looked up as what it is, and a first page is a first page.
     The number of distinct events delivered says how far the replica has come, and it never drops.
-/
import DjangoFlaskKafka.Sync.Redelivery
import DjangoFlaskKafka.Posts.Isolation
import DjangoFlaskKafka.Lib.Pages

namespace DjangoFlaskKafka.Sync

open Python Kafka Postgres Related Books Pages

variable {σ : Type}

/-! ## The law -/

/-- The columns that a 200 shows of a post. -/
def shown : Posts.Response → Option PostPayload
  | .ok post => some (content post)
  | _ => none

/-- The related service answers what the posts service has. -/
structure Shows (db : Related.Db σ) (source : Posts.Db) : Prop where
  detail : ∀ slug, (postDetail db slug).map copied = shown (Posts.retrieve source.posts.1 slug)
  page : ∀ PAGE_SIZE, 0 ≤ PAGE_SIZE → ∃ page, posts db PAGE_SIZE = some page ∧
    FirstPage PostPayload.id (min PAGE_SIZE 500).toNat (source.posts.1.map content)
      (page.map copied)

/-! ## What a read depends on -/

/-- The posts service shows the post under the slug, in these fields. -/
theorem shown_retrieve (rows : List Posts.Post) (slug : String) :
    shown (Posts.retrieve rows slug) = Keyed.lookup PostPayload.slug slug (rows.map content) := by
  have hfind : Keyed.lookup PostPayload.slug slug (rows.map content)
      = (rows.find? fun p => p.slug.1 = slug).map content := List.find?_map
  rw [hfind]
  unfold Posts.retrieve Posts.getObjectOr404
  cases rows.find? fun p => p.slug.1 = slug with
  | none => rfl
  | some post => rfl

/-- **Tables that agree are read alike.** -/
theorem shows_of_mirrors {db : Related.Db σ} {source : Posts.Db}
    (h : Mirrors db.post.1 source.posts.1) : Shows db source where
  detail slug := by
    have hslugs : ((db.post.1.map copied).map PostPayload.slug).Nodup := by
      rw [List.map_map]
      exact db.post.2.slugs
    have hfind : (postDetail db slug).map copied
        = Keyed.lookup PostPayload.slug slug (db.post.1.map copied) := by
      unfold postDetail Keyed.lookup
      rw [List.find?_map]
      rfl
    rw [shown_retrieve, hfind]
    exact Keyed.lookup_perm h hslugs slug
  page PAGE_SIZE hsize := by
    refine ⟨_, if_pos (le_min hsize (by decide)), ?_⟩
    have hpage := firstPage_take db.post.2.ids (min PAGE_SIZE 500).toNat
    exact (hpage.map (f := copied) fun _ => rfl).of_perm h

/-! ## How far the replica has come -/

/-- No request takes a row out of the outbox. -/
theorem length_outbox_serve (db : Posts.Db) (a : Posts.Arrival) :
    db.outbox.1.length ≤ (Posts.serve db a).1.outbox.1.length := by
  unfold Posts.serve
  cases Posts.begin db.posts.1 a.request with
  | error response => exact le_rfl
  | ok call =>
    show _ ≤ (Posts.finish a.now a.id db call).1.outbox.1.length
    rcases (Posts.finish_cases a.now a.id db call).2 with ⟨-, houtbox, -⟩ | ⟨-, houtbox, -⟩
    · rw [houtbox]
    · rw [houtbox, List.length_append]
      omega

/-- Further requests take nothing out of the outbox. -/
theorem length_outbox_serveAll {before arrivals : List Posts.Arrival} (h : before <+: arrivals) :
    (Posts.serveAll .empty before).outbox.1.length
      ≤ (Posts.serveAll .empty arrivals).outbox.1.length := by
  obtain ⟨rest, rfl⟩ := h
  induction rest using List.reverseRecOn with
  | nil => rw [List.append_nil]
  | append_singleton rest a ih =>
    have hlast : Posts.serveAll .empty (before ++ (rest ++ [a]))
        = (Posts.serve (Posts.serveAll .empty (before ++ rest)) a).1 := by
      rw [← List.append_assoc]
      exact List.foldl_concat ..
    rw [hlast]
    exact ih.trans (length_outbox_serve _ a)

/-- **Consistent prefixes, in order.**  At every moment the related service answers what the posts
    service had after some first of its requests, as many events of which as have been delivered;
    and at a later moment it answers from no fewer requests. -/
theorem reads_follow [Zero σ] (L : Libs σ) (arrivals : List Posts.Arrival)
    (hids : ∀ e ∈ (Posts.serveAll .empty arrivals).outbox.1, ∀ k, About e k → InInteger k)
    (ds : List (Redelivery (Posts.serveAll .empty arrivals).outbox.1)) (horder : InOutboxOrder ds)
    (sooner later : List (Redelivery (Posts.serveAll .empty arrivals).outbox.1))
    (hsooner : sooner <+: later) (hlater : later <+: ds) :
    ∃ before after, before <+: after ∧ after <+: arrivals ∧
      (Posts.serveAll .empty before).outbox.1.length = distinct sooner ∧
      (Posts.serveAll .empty after).outbox.1.length = distinct later ∧
      Shows (consume L (.empty σ) sooner).1 (Posts.serveAll .empty before) ∧
      Shows (consume L (.empty σ) later).1 (Posts.serveAll .empty after) := by
  obtain ⟨es, hdb, hbefore⟩ := recorded_serveAll arrivals
  have hshows : ∀ {source : Posts.Db} {r : Related.Db σ} {n : Nat}, Recorded source (es.take n) →
      Caught (Posts.serveAll .empty arrivals).outbox.1 es n r → Shows r source := by
    intro source r n hsource hcaught
    refine shows_of_mirrors ((mirrors_iff r.post.2.ids source.posts.2.ids).mpr ?_)
    rw [hcaught.book, hsource.book]
  obtain ⟨rest, rfl⟩ := hlater
  obtain ⟨between, rfl⟩ := hsooner
  obtain ⟨n', hn', hmem', hcaught', -⟩ := caught_consume L hdb hids horder.of_append
  obtain ⟨n, hn, hmem, hcaught, -⟩ := caught_consume L hdb hids horder.of_append.of_append
  have hnn' : n ≤ n' := by
    by_contra hgt
    obtain ⟨d, hd, hd'⟩ := (hmem ⟨n', by omega⟩).mpr (by show n' < n; omega)
    exact Nat.lt_irrefl n' ((hmem' ⟨n', by omega⟩).mp ⟨d, List.mem_append_left between hd, hd'⟩)
  have hes : n ≤ es.length ∧ n' ≤ es.length := by
    rw [← hdb.tells.length_eq]
    exact ⟨hn, hn'⟩
  obtain ⟨before, hprefix, hrecorded⟩ := hbefore n hes.1
  obtain ⟨after, hprefix', hrecorded'⟩ := hbefore n' hes.2
  have hlen : (Posts.serveAll .empty before).outbox.1.length = n := by
    rw [hrecorded.tells.length_eq, List.length_take, Nat.min_eq_left hes.1]
  have hlen' : (Posts.serveAll .empty after).outbox.1.length = n' := by
    rw [hrecorded'.tells.length_eq, List.length_take, Nat.min_eq_left hes.2]
  rw [distinct_eq hn hmem, distinct_eq hn' hmem']
  rcases List.prefix_or_prefix_of_prefix hprefix hprefix' with h | h
  · exact ⟨before, after, h, hprefix', hlen, hlen', hshows hrecorded hcaught,
      hshows hrecorded' hcaught'⟩
  · -- the requests in between have recorded nothing
    have hle := length_outbox_serveAll h
    obtain rfl : n = n' := by omega
    exact ⟨before, before, List.prefix_rfl, hprefix, hlen, hlen, hshows hrecorded hcaught,
      hshows hrecorded hcaught'⟩

/-- A post is created, and read about by a replica that is told of it twice. -/
def readTwice : List Posts.Arrival := [⟨0, sampleUuid 0, .create (Posts.fieldsAt "a")⟩]

theorem length_readTwice : (Posts.serveAll .empty readTwice).outbox.1.length = 1 := by
  decide +kernel

/-- The deliveries of its creation. -/
def toldTwice : List (Redelivery (Posts.serveAll .empty readTwice).outbox.1) :=
  let event := Fin.mk 0 (length_readTwice ▸ Nat.one_pos)
  [⟨event, 0, 0, 0⟩, ⟨event, 0, 1, 1⟩]

theorem reads_follow_toldTwice : ∃ before after, before <+: after ∧ after <+: readTwice ∧
    (Posts.serveAll .empty before).outbox.1.length = distinct (toldTwice.take 0) ∧
    (Posts.serveAll .empty after).outbox.1.length = distinct toldTwice ∧
    Shows (consume asciiLibs (.empty ℚ) (toldTwice.take 0)).1 (Posts.serveAll .empty before) ∧
    Shows (consume asciiLibs (.empty ℚ) toldTwice).1 (Posts.serveAll .empty after) := by
  refine reads_follow asciiLibs readTwice ?_ toldTwice ?_ (toldTwice.take 0) toldTwice
    (List.take_prefix ..) List.prefix_rfl
  · have hids : (Posts.serveAll .empty readTwice).outbox.1.map (·.payload.item "id")
        = [.ok (.int 1)] := rfl
    intro e he k hk
    have hitem := List.mem_map_of_mem (f := fun e : Posts.OutboxEvent => e.payload.item "id") he
    rw [hids, show e.payload.item "id" = .ok (.int k) from hk] at hitem
    obtain rfl : k = 1 := by simpa using hitem
    decide
  · -- no event is older than the one there is
    intro before d after _ i hi
    have hlt : d.event.1 < 1 := length_readTwice ▸ d.event.2
    have hi : i.1 < d.event.1 := hi
    omega

end DjangoFlaskKafka.Sync
