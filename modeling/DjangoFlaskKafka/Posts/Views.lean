/-
  The views of the posts service — `PostViewSet` of `services/posts/posts/views.py`.

  1. **Program** — a write request runs in two stages, and other requests may run in between:
     `begin` looks the post up and validates the data against the rows committed by then;
     `finish` runs the `transaction.atomic` block on the rows committed by THEN, with the instance
     that `begin` loaded.  What the block writes is `Call.write`; `commit` is the transaction that
     writes it together with its outbox row, or rolls both back.

  2. **Law** — `finish_cases`: a request either leaves both tables as they were, or lands exactly
     its `Call.write`.

  The ids come from a sequence, which a rollback does not take back.
-/
import DjangoFlaskKafka.Posts.Models
import DjangoFlaskKafka.Lib.Keyed

namespace DjangoFlaskKafka.Posts

open Python Kafka Postgres

/-! ## The program -/

/-- The database of the posts service, and the sequence of its post ids. -/
structure Db where
  posts : PostTable
  outbox : OutboxTable
  nextId : Int

/-- The database the migrations leave behind. -/
def Db.empty : Db where
  posts := ⟨[], by decide⟩
  outbox := ⟨[], by decide⟩
  nextId := 1

/-- The write requests of the API. -/
inductive Request where
  | create (data : Json)
  | update (slug : String) (data : Json)
  | destroy (slug : String)

/-- The answers: 201, 200, 204, 400, 404 and 500. -/
inductive Response where
  | created (post : Post)
  | ok (post : Post)
  | noContent
  | badRequest (errors : Errors)
  | notFound
  | serverError

/-- A request between its two stages, with the instance it has loaded. -/
inductive Call where
  | create (data : Validated)
  | update (post : Post) (data : Validated)
  | destroy (post : Post)

/-- `get_object_or_404(Post, slug=slug)`. -/
def getObjectOr404 (rows : List Post) (slug : String) : Except Response Post :=
  (rows.find? fun p => p.slug.1 = slug).elim (.error .notFound) .ok

/-- `retrieve`: `GET /posts/<slug>`. -/
def retrieve (rows : List Post) (slug : String) : Response :=
  match getObjectOr404 rows slug with
  | .ok post => .ok post
  | .error response => response

/-- `serializer.is_valid(raise_exception=True)`. -/
def validate (existing : Option Post) (rows : List Post) (data : Json) :
    Except Response Validated :=
  (isValid existing rows data).mapError .badRequest

/-- The stage before the transaction. -/
def begin (rows : List Post) : Request → Except Response Call
  | .create data => do
    let data ← validate none rows data
    return .create data
  | .update slug data => do
    let post ← getObjectOr404 rows slug
    let data ← validate (some post) rows data
    return .update post data
  | .destroy slug => do
    let post ← getObjectOr404 rows slug
    return .destroy post

/-- What a transaction is about to write: the rows of `Post`, the outbox row, and the answer. -/
structure Write where
  rows : List Post
  topic : Topic
  key : Text 200
  payload : Json
  response : Response

/-- `post.save()`: the row with that id, or a new one if it is gone. -/
def save (post : Post) (rows : List Post) : List Post :=
  if (Keyed.lookup Post.id post.id rows).isSome then Keyed.modify Post.id post.id (fun _ => post) rows
  else rows ++ [post]

/-- `post.delete()`. -/
def delete (post : Post) (rows : List Post) : List Post := rows.filter fun p => p.id ≠ post.id

/-- The bodies of the `transaction.atomic` blocks. -/
def Call.write (nextId : Int) (rows : List Post) : Call → Write
  | .create data =>
    let post := data.create nextId
    ⟨rows ++ [post], .postCreated, post.slug, post.data, .created post⟩
  | .update post data =>
    let post := data.update post
    ⟨save post rows, .postUpdated, post.slug, post.data, .ok post⟩
  | .destroy post =>
    let payload := .obj [("id", .int post.id), ("slug", .str post.slug.1)]
    ⟨delete post rows, .postDeleted, post.slug, payload, .noContent⟩

/-- `record_event(topic, key, payload)`: the row it creates. -/
def recordEvent (now : Int) (id : Uuid) (topic : Topic) (key : Text 200) (payload : Json) :
    OutboxEvent where
  id := id
  topic := topic
  key := key
  payload := payload
  created_at := now
  published_at := none

/-- The transaction: both tables, or `none`. -/
def Db.commit (now : Int) (id : Uuid) (db : Db) (w : Write) : Option Db := do
  let posts ← checked PostConstraints w.rows
  let outbox ← checked OutboxConstraints
    (db.outbox.1 ++ [recordEvent now id w.topic w.key w.payload])
  return { db with posts := posts, outbox := outbox }

/-- `nextval` of the sequence, where the call draws from it. -/
def Call.nextId (call : Call) (nextId : Int) : Int :=
  match call with
  | .create _ => nextId + 1
  | _ => nextId

/-- The stage that is the transaction. -/
def finish (now : Int) (id : Uuid) (db : Db) (call : Call) : Db × Response :=
  let w := call.write db.nextId db.posts.1
  let db := { db with nextId := call.nextId db.nextId }
  match db.commit now id w with
  | some db' => (db', w.response)
  | none => (db, .serverError)

/-- A request with the clock reading and the random id its outbox row is going to have. -/
structure Arrival where
  now : Int
  id : Uuid
  request : Request

/-- A request that nothing else runs in between. -/
def serve (db : Db) (a : Arrival) : Db × Response :=
  match begin db.posts.1 a.request with
  | .error response => (db, response)
  | .ok call => finish a.now a.id db call

/-- Requests one after another. -/
def serveAll (db : Db) (arrivals : List Arrival) : Db :=
  arrivals.foldl (fun db a => (serve db a).1) db

/-! ## What a transaction does -/

theorem commit_eq_some {now : Int} {id : Uuid} {db db' : Db} {w : Write}
    (h : db.commit now id w = some db') :
    db'.posts.1 = w.rows ∧
      db'.outbox.1 = db.outbox.1 ++ [recordEvent now id w.topic w.key w.payload] ∧
      db'.nextId = db.nextId := by
  unfold Db.commit at h
  obtain ⟨posts, hposts, h⟩ := Option.bind_eq_some_iff.mp h
  obtain ⟨outbox, houtbox, h⟩ := Option.bind_eq_some_iff.mp h
  obtain rfl := Option.some.inj h
  exact ⟨checked_eq_some hposts, checked_eq_some houtbox, rfl⟩

/-- When a transaction rolls back. -/
theorem commit_eq_none_iff (now : Int) (id : Uuid) (db : Db) (w : Write) :
    db.commit now id w = none ↔ ¬ PostConstraints w.rows ∨ ∃ e ∈ db.outbox.1, e.id = id := by
  have houtbox : ∀ e : OutboxEvent, OutboxConstraints (db.outbox.1 ++ [e]) ↔
      ¬ ∃ e' ∈ db.outbox.1, e'.id = e.id := by
    intro e
    have hnodup : (db.outbox.1.map OutboxEvent.id).Nodup := db.outbox.2
    show ((db.outbox.1 ++ [e]).map OutboxEvent.id).Nodup ↔ _
    rw [List.map_append, List.nodup_append]
    simp [hnodup]
  unfold Db.commit
  by_cases hposts : PostConstraints w.rows
  · rw [checked_of hposts, Option.bind_eq_bind, Option.bind_some]
    by_cases hid : ∃ e ∈ db.outbox.1, e.id = id
    · rw [checked_of_not fun h => (houtbox _).mp h hid]
      exact iff_of_true rfl (.inr hid)
    · rw [checked_of ((houtbox (recordEvent now id w.topic w.key w.payload)).mpr hid)]
      exact iff_of_false (by simp) (not_or.mpr ⟨not_not.mpr hposts, hid⟩)
  · rw [checked_of_not hposts]
    exact iff_of_true rfl (.inl hposts)

theorem mem_save {post p : Post} {rows : List Post} (h : p ∈ save post rows) : p = post ∨ p ∈ rows := by
  unfold save at h
  split at h
  · obtain ⟨q, hq, rfl⟩ := List.mem_map.mp h
    split
    · exact .inl rfl
    · exact .inr hq
  · rcases List.mem_append.mp h with h | h
    · exact .inr h
    · exact .inl (List.mem_singleton.mp h)

theorem mem_save_self (post : Post) (rows : List Post) : post ∈ save post rows := by
  unfold save
  split
  next hthere =>
    obtain ⟨q, hq, hid⟩ := Keyed.lookup_isSome_iff.mp hthere
    exact List.mem_map.mpr ⟨q, hq, if_pos hid⟩
  next => exact List.mem_append_right _ (List.mem_singleton_self post)

/-- **All that `finish` can do**: nothing, or exactly the call's write. -/
theorem finish_cases (now : Int) (id : Uuid) (db : Db) (call : Call) :
    let w := call.write db.nextId db.posts.1
    let db' := (finish now id db call).1
    db'.nextId = call.nextId db.nextId ∧
      ((db'.posts = db.posts ∧ db'.outbox = db.outbox ∧ (finish now id db call).2 = .serverError) ∨
        (db'.posts.1 = w.rows ∧
          db'.outbox.1 = db.outbox.1 ++ [recordEvent now id w.topic w.key w.payload] ∧
          (finish now id db call).2 = w.response)) := by
  intro w db'
  cases h : Db.commit now id { db with nextId := call.nextId db.nextId } w with
  | none =>
    have hfinish : finish now id db call
        = ({ db with nextId := call.nextId db.nextId }, .serverError) := by
      unfold finish
      dsimp only
      rw [h]
    refine ⟨?_, .inl ?_⟩ <;> simp only [db', hfinish, and_self]
  | some db'' =>
    have hfinish : finish now id db call = (db'', w.response) := by
      unfold finish
      dsimp only
      rw [h]
    obtain ⟨hposts, houtbox, hnext⟩ := commit_eq_some h
    refine ⟨?_, .inr ?_⟩ <;> simp only [db', hfinish]
    · exact hnext
    · exact ⟨hposts, houtbox, trivial⟩

/-- A deletion under a new random id lands. -/
theorem finish_destroy (now : Int) {id : Uuid} {db : Db} (post : Post)
    (hfresh : ∀ e ∈ db.outbox.1, e.id ≠ id) :
    (finish now id db (.destroy post)).2 = .noContent := by
  let w := (Call.destroy post).write db.nextId db.posts.1
  have hposts : PostConstraints w.rows :=
    ⟨db.posts.2.ids.sublist (List.filter_sublist.map _),
      db.posts.2.slugs.sublist (List.filter_sublist.map _)⟩
  have houtbox : OutboxConstraints
      (db.outbox.1 ++ [recordEvent now id w.topic w.key w.payload]) := by
    unfold OutboxConstraints
    rw [List.map_append, List.nodup_append]
    refine ⟨db.outbox.2, List.nodup_singleton _, fun x hx y hy hxy => ?_⟩
    obtain ⟨e, he, rfl⟩ := List.mem_map.mp hx
    exact hfresh e he (hxy.trans (List.mem_singleton.mp hy))
  have hcommit : Db.commit now id { db with nextId := (Call.destroy post).nextId db.nextId } w
      = some ⟨⟨_, hposts⟩, ⟨_, houtbox⟩, db.nextId⟩ := by
    unfold Db.commit
    dsimp only
    rw [checked_of hposts, checked_of houtbox]
    rfl
  unfold finish
  dsimp only
  rw [hcommit]
  rfl

/-! ## What `begin` answers and has loaded -/

/-- A request that is refused before its transaction is not answered 200. -/
theorem begin_error {rows : List Post} {request : Request} {response : Response}
    (h : begin rows request = .error response) (post : Post) : response ≠ .ok post := by
  have hvalidate : ∀ existing data e, validate existing rows data = .error e → e ≠ .ok post := by
    intro existing data e he
    unfold validate at he
    cases hvalid : isValid existing rows data with
    | ok v => rw [hvalid] at he; cases he
    | error errors => rw [hvalid] at he; cases he; simp
  have hlookup : ∀ slug e, getObjectOr404 rows slug = .error e → e ≠ .ok post := by
    intro slug e he
    unfold getObjectOr404 at he
    cases hfind : rows.find? fun p => p.slug.1 = slug with
    | some p => rw [hfind] at he; cases he
    | none => rw [hfind] at he; cases he; simp
  cases request with
  | create data =>
    cases hv : validate none rows data with
    | ok v => simp [begin, hv, bind, Except.bind, pure, Except.pure] at h
    | error e =>
      simp only [begin, hv, bind, Except.bind, Except.error.injEq] at h
      exact h ▸ hvalidate none data e hv
  | update slug data =>
    cases hp : getObjectOr404 rows slug with
    | error e =>
      simp only [begin, hp, bind, Except.bind, Except.error.injEq] at h
      exact h ▸ hlookup slug e hp
    | ok p =>
      cases hv : validate (some p) rows data with
      | ok v => simp [begin, hp, hv, bind, Except.bind, pure, Except.pure] at h
      | error e =>
        simp only [begin, hp, hv, bind, Except.bind, Except.error.injEq] at h
        exact h ▸ hvalidate (some p) data e hv
  | destroy slug =>
    cases hp : getObjectOr404 rows slug with
    | ok p => simp [begin, hp, bind, Except.bind, pure, Except.pure] at h
    | error e =>
      simp only [begin, hp, bind, Except.bind, Except.error.injEq] at h
      exact h ▸ hlookup slug e hp

theorem getObjectOr404_eq_ok {rows : List Post} {slug : String} {post : Post}
    (h : getObjectOr404 rows slug = .ok post) : post ∈ rows ∧ post.slug.1 = slug := by
  unfold getObjectOr404 at h
  cases hfind : rows.find? fun p => p.slug.1 = slug with
  | none => rw [hfind] at h; exact absurd h (by simp)
  | some p =>
    rw [hfind] at h
    obtain rfl : p = post := Except.ok.inj h
    exact ⟨List.mem_of_find?_eq_some hfind, by simpa using List.find?_some hfind⟩

/-- The instance that a call has loaded, if it is not a create. -/
def Call.loaded : Call → Option Post
  | .create _ => none
  | .update post _ => some post
  | .destroy post => some post

/-- A loaded instance was a committed row. -/
theorem begin_loaded {rows : List Post} {request : Request} {call : Call}
    (h : begin rows request = .ok call) : ∀ post ∈ call.loaded, post ∈ rows := by
  intro post hpost
  cases request with
  | create data =>
    cases hv : validate none rows data with
    | error r => simp [begin, hv, bind, Except.bind] at h
    | ok v =>
      simp only [begin, hv, bind, Except.bind, pure, Except.pure, Except.ok.injEq] at h
      subst h
      exact absurd hpost (by simp [Call.loaded])
  | update slug data =>
    cases hp : getObjectOr404 rows slug with
    | error r => simp [begin, hp, bind, Except.bind] at h
    | ok p =>
      cases hv : validate (some p) rows data with
      | error r => simp [begin, hp, hv, bind, Except.bind] at h
      | ok v =>
        simp only [begin, hp, hv, bind, Except.bind, pure, Except.pure, Except.ok.injEq] at h
        subst h
        obtain rfl : p = post := by simpa [Call.loaded] using hpost
        exact (getObjectOr404_eq_ok hp).1
  | destroy slug =>
    cases hp : getObjectOr404 rows slug with
    | error r => simp [begin, hp, bind, Except.bind] at h
    | ok p =>
      simp only [begin, hp, bind, Except.bind, pure, Except.pure, Except.ok.injEq] at h
      subst h
      obtain rfl : p = post := by simpa [Call.loaded] using hpost
      exact (getObjectOr404_eq_ok hp).1

end DjangoFlaskKafka.Posts
