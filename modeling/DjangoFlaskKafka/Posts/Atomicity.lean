/-
  Atomicity — whether the outbox of the posts service is the log of its writes.

  1. **Program** — the requests of `Posts.Views`, with any of their database statements failing
     (`Statement`): `serveWith` runs them one by one, and the `transaction.atomic` block takes both
     tables back when one of its statements fails.  Without a fault it is `serve`
     (`serveWith_none`).

  2. **Law** — `outbox_isLog`: a request that is not answered with success leaves both tables as
     they were, and the rows that a run adds to the outbox are, in order and one for one, its
     successful writes (`Logs`).

  3. **The crux** — every way out of a request before its COMMIT is an error, and every one after it
     is none, so `serveWith_cases` has two cases only.
-/
import DjangoFlaskKafka.Posts.Views
import Mathlib.Data.List.Forall2

namespace DjangoFlaskKafka.Posts.Atomicity

open Python Kafka Postgres

/-! ## The program -/

/-- The database statements of a request: the lookup of the token, of the post and of the slug, then
    those of the transaction. -/
inductive Statement where
  | authenticate
  | load
  | unique
  | begin
  | write
  | record
  | commit
  deriving DecidableEq, Repr

/-- A request, the statement of it that fails, and whether a create that fails has drawn its id. -/
structure Attempt where
  arrival : Arrival
  fault : Option Statement
  drew : Bool

/-- A statement outside the transaction: its failure is answered 500. -/
def attempt (fault : Option Statement) (statement : Statement) : Except Response Unit :=
  if fault = some statement then .error .serverError else .ok ()

/-- `UniqueValidator` runs its query: there is a slug to look for. -/
def queriesSlug : Json → Bool
  | .obj items => (items.lookup "slug").any fun value => ¬ isBlank value ∧ (toInternalValue value).isSome
  | _ => false

/-- `serializer.is_valid(raise_exception=True)`, with the query of `UniqueValidator`. -/
def validateWith (fault : Option Statement) (existing : Option Post) (rows : List Post) (data : Json) :
    Except Response Validated := do
  if queriesSlug data then attempt fault .unique
  validate existing rows data

/-- The stage before the transaction. -/
def beginWith (fault : Option Statement) (rows : List Post) : Request → Except Response Call
  | .create data => do
    attempt fault .authenticate
    let data ← validateWith fault none rows data
    return .create data
  | .update slug data => do
    attempt fault .authenticate
    attempt fault .load
    let post ← getObjectOr404 rows slug
    let data ← validateWith fault (some post) rows data
    return .update post data
  | .destroy slug => do
    attempt fault .authenticate
    attempt fault .load
    let post ← getObjectOr404 rows slug
    return .destroy post

/-- A statement of the transaction. -/
def execute (fault : Option Statement) (statement : Statement) : Option Unit :=
  if fault = some statement then none else some ()

/-- The `transaction.atomic` block: what it commits, or `none` when it is rolled back. -/
def transaction (fault : Option Statement) (now : Int) (id : Uuid) (db : Db) (call : Call) :
    Option Db := do
  let w := call.write db.nextId db.posts.1
  execute fault .begin
  execute fault .write
  let posts ← checked PostConstraints w.rows
  execute fault .record
  let outbox ← checked OutboxConstraints (db.outbox.1 ++ [recordEvent now id w.topic w.key w.payload])
  execute fault .commit
  return { posts := posts, outbox := outbox, nextId := call.nextId db.nextId }

/-- The stage that is the transaction. -/
def finishWith (a : Attempt) (db : Db) (call : Call) : Db × Response :=
  match transaction a.fault a.arrival.now a.arrival.id db call with
  | some db' => (db', (call.write db.nextId db.posts.1).response)
  | none => ({ db with nextId := if a.drew then call.nextId db.nextId else db.nextId }, .serverError)

/-- A whole request. -/
def serveWith (db : Db) (a : Attempt) : Db × Response :=
  match beginWith a.fault db.posts.1 a.arrival.request with
  | .error response => (db, response)
  | .ok call => finishWith a db call

/-- A request with the database before and after it, and its answer. -/
structure Exchange where
  before : Db
  attempt : Attempt
  response : Response
  after : Db

/-- Requests one after another. -/
def exchanges (db : Db) : List Attempt → List Exchange
  | [] => []
  | a :: attempts =>
    let (db', response) := serveWith db a
    ⟨db, a, response, db'⟩ :: exchanges db' attempts

/-- The database they leave. -/
def serveAllWith (db : Db) (attempts : List Attempt) : Db :=
  attempts.foldl (fun db a => (serveWith db a).1) db

/-! ## The law -/

/-- 201, 200 and 204. -/
def Response.success : Response → Bool
  | .created _ | .ok _ | .noContent => true
  | .badRequest _ | .notFound | .serverError => false

/-- The payload says the columns of the post. -/
structure Describes (payload : Json) (post : Post) : Prop where
  id : payload.item "id" = .ok (.int post.id)
  title : payload.item "title" = .ok (.str post.title.1)
  image : payload.item "image" = .ok (.str post.image.1)
  body : payload.item "body" = .ok (.str post.body.1)
  slug : payload.item "slug" = .ok (.str post.slug.1)

/-- The outbox row is that of the write the request made. -/
def Logs (x : Exchange) (e : OutboxEvent) : Prop :=
  match x.attempt.arrival.request with
  | .create _ => ∃ post, x.response = .created post ∧
      x.after.posts.1 = x.before.posts.1 ++ [post] ∧
      e.topic = .postCreated ∧ e.key = post.slug ∧ Describes e.payload post
  | .update slug _ => ∃ old post, old ∈ x.before.posts.1 ∧ old.slug.1 = slug ∧ post.id = old.id ∧
      x.response = .ok post ∧
      x.after.posts.1 = Keyed.modify Post.id old.id (fun _ => post) x.before.posts.1 ∧
      e.topic = .postUpdated ∧ e.key = post.slug ∧ Describes e.payload post
  | .destroy slug => ∃ old ∈ x.before.posts.1, old.slug.1 = slug ∧ x.response = .noContent ∧
      x.after.posts.1 = x.before.posts.1.filter (fun p => p.id ≠ old.id) ∧
      e.topic = .postDeleted ∧ e.key = old.slug ∧
      e.payload.item "id" = .ok (.int old.id) ∧ e.payload.item "slug" = .ok (.str old.slug.1)

/-- The request has left both tables alone. -/
def Exchange.Unchanged (x : Exchange) : Prop :=
  x.after.posts = x.before.posts ∧ x.after.outbox = x.before.outbox

/-! ## Before the transaction -/

/-- A stage that ends a request does not end it with success. -/
def Refuses {α : Type} (x : Except Response α) : Prop := ∀ r, x = .error r → ¬ Response.success r

theorem refuses_ok {α : Type} (a : α) : Refuses (.ok a) := by
  intro r h
  cases h

theorem Refuses.bind {α β : Type} {x : Except Response α} {f : α → Except Response β}
    (hx : Refuses x) (hf : ∀ a, Refuses (f a)) : Refuses (x >>= f) := by
  cases x with
  | error e =>
    intro r h
    obtain rfl : e = r := Except.error.inj h
    exact hx e rfl
  | ok a => exact hf a

theorem refuses_attempt (fault : Option Statement) (statement : Statement) :
    Refuses (attempt fault statement) := by
  intro r h
  unfold attempt at h
  split at h
  · cases h
    decide
  · cases h

theorem refuses_getObjectOr404 (rows : List Post) (slug : String) :
    Refuses (getObjectOr404 rows slug) := by
  intro r h
  unfold getObjectOr404 at h
  cases hfind : rows.find? fun p => p.slug.1 = slug with
  | some p => rw [hfind] at h; cases h
  | none => rw [hfind] at h; cases h; decide

theorem refuses_validateWith (fault : Option Statement) (existing : Option Post) (rows : List Post)
    (data : Json) : Refuses (validateWith fault existing rows data) := by
  have hvalidate : Refuses (validate existing rows data) := by
    intro r h
    unfold validate at h
    cases hvalid : isValid existing rows data with
    | ok v => rw [hvalid] at h; cases h
    | error errors => rw [hvalid] at h; cases h; simp [Response.success]
  unfold validateWith
  split
  · exact (refuses_attempt fault .unique).bind fun _ => hvalidate
  · exact hvalidate

theorem refuses_beginWith (fault : Option Statement) (rows : List Post) (request : Request) :
    Refuses (beginWith fault rows request) := by
  cases request with
  | create data =>
    exact (refuses_attempt fault .authenticate).bind fun _ =>
      (refuses_validateWith fault none rows data).bind fun _ => refuses_ok _
  | update slug data =>
    exact (refuses_attempt fault .authenticate).bind fun _ =>
      (refuses_attempt fault .load).bind fun _ =>
        (refuses_getObjectOr404 rows slug).bind fun post =>
          (refuses_validateWith fault (some post) rows data).bind fun _ => refuses_ok _
  | destroy slug =>
    exact (refuses_attempt fault .authenticate).bind fun _ =>
      (refuses_attempt fault .load).bind fun _ =>
        (refuses_getObjectOr404 rows slug).bind fun _ => refuses_ok _

/-- The call is the request's, on the row it names. -/
def Calls (rows : List Post) : Request → Call → Prop
  | .create _, .create _ => True
  | .update slug _, .update post _ => post ∈ rows ∧ post.slug.1 = slug
  | .destroy slug, .destroy post => post ∈ rows ∧ post.slug.1 = slug
  | _, _ => False

theorem beginWith_calls {fault : Option Statement} {rows : List Post} {request : Request} {call : Call}
    (h : beginWith fault rows request = .ok call) : Calls rows request call := by
  cases request with
  | create data =>
    obtain ⟨-, -, h⟩ := bind_eq_ok.mp h
    obtain ⟨data, -, h⟩ := bind_eq_ok.mp h
    obtain rfl := Except.ok.inj h
    trivial
  | update slug data =>
    obtain ⟨-, -, h⟩ := bind_eq_ok.mp h
    obtain ⟨-, -, h⟩ := bind_eq_ok.mp h
    obtain ⟨post, hpost, h⟩ := bind_eq_ok.mp h
    obtain ⟨data, -, h⟩ := bind_eq_ok.mp h
    obtain rfl := Except.ok.inj h
    exact getObjectOr404_eq_ok hpost
  | destroy slug =>
    obtain ⟨-, -, h⟩ := bind_eq_ok.mp h
    obtain ⟨-, -, h⟩ := bind_eq_ok.mp h
    obtain ⟨post, hpost, h⟩ := bind_eq_ok.mp h
    obtain rfl := Except.ok.inj h
    exact getObjectOr404_eq_ok hpost

/-! ## The transaction -/

theorem transaction_eq_some {fault : Option Statement} {now : Int} {id : Uuid} {db db' : Db}
    {call : Call} (h : transaction fault now id db call = some db') :
    let w := call.write db.nextId db.posts.1
    db'.posts.1 = w.rows ∧
      db'.outbox.1 = db.outbox.1 ++ [recordEvent now id w.topic w.key w.payload] := by
  obtain ⟨-, -, h⟩ := Option.bind_eq_some_iff.mp h
  obtain ⟨-, -, h⟩ := Option.bind_eq_some_iff.mp h
  obtain ⟨posts, hposts, h⟩ := Option.bind_eq_some_iff.mp h
  obtain ⟨-, -, h⟩ := Option.bind_eq_some_iff.mp h
  obtain ⟨outbox, houtbox, h⟩ := Option.bind_eq_some_iff.mp h
  obtain ⟨-, -, h⟩ := Option.bind_eq_some_iff.mp h
  obtain rfl := Option.some.inj h
  exact ⟨checked_eq_some hposts, checked_eq_some houtbox⟩

/-- **What a request can do**: nothing, and then it is not answered with success; or exactly the
    write of its call, and then it is. -/
theorem serveWith_cases (db : Db) (a : Attempt) :
    let db' := (serveWith db a).1
    let response := (serveWith db a).2
    (¬ Response.success response ∧ db'.posts = db.posts ∧ db'.outbox = db.outbox) ∨
      ∃ call, Calls db.posts.1 a.arrival.request call ∧
        let w := call.write db.nextId db.posts.1
        response = w.response ∧ Response.success response ∧ db'.posts.1 = w.rows ∧
          db'.outbox.1 = db.outbox.1 ++
            [recordEvent a.arrival.now a.arrival.id w.topic w.key w.payload] := by
  unfold serveWith
  cases hbegin : beginWith a.fault db.posts.1 a.arrival.request with
  | error response =>
    exact .inl ⟨refuses_beginWith _ _ _ response hbegin, rfl, rfl⟩
  | ok call =>
    dsimp only
    unfold finishWith
    cases htransaction : transaction a.fault a.arrival.now a.arrival.id db call with
    | none => exact .inl ⟨by simp [Response.success], rfl, rfl⟩
    | some db' =>
      obtain ⟨hposts, houtbox⟩ := transaction_eq_some htransaction
      refine .inr ⟨call, beginWith_calls hbegin, rfl, ?_, hposts, houtbox⟩
      cases call <;> rfl

/-- Without a fault it is the request of `Posts.Views`. -/
theorem serveWith_none (db : Db) (a : Arrival) : serveWith db ⟨a, none, true⟩ = serve db a := by
  have hbegin : beginWith none db.posts.1 a.request = begin db.posts.1 a.request := by
    cases a.request <;> simp [beginWith, begin, attempt, validateWith, bind, Except.bind]
  have htransaction : ∀ call, transaction none a.now a.id db call
      = Db.commit a.now a.id { db with nextId := call.nextId db.nextId }
        (call.write db.nextId db.posts.1) := by
    intro call
    unfold transaction Db.commit
    simp [execute]
  unfold serveWith serve
  dsimp only
  rw [hbegin]
  cases begin db.posts.1 a.request with
  | error response => rfl
  | ok call =>
    dsimp only
    unfold finishWith finish
    dsimp only
    rw [htransaction]
    rfl

/-! ## Runs -/

/-- A successful request logs its write. -/
theorem logs_of_calls {x : Exchange} {call : Call}
    (hcall : Calls x.before.posts.1 x.attempt.arrival.request call) (now : Int) (id : Uuid)
    (hresponse : x.response = (call.write x.before.nextId x.before.posts.1).response)
    (hposts : x.after.posts.1 = (call.write x.before.nextId x.before.posts.1).rows) :
    let w := call.write x.before.nextId x.before.posts.1
    Logs x (recordEvent now id w.topic w.key w.payload) := by
  unfold Logs
  cases hrequest : x.attempt.arrival.request with
  | create data =>
    rw [hrequest] at hcall
    cases call with
    | create data => exact ⟨_, hresponse, hposts, rfl, rfl, ⟨rfl, rfl, rfl, rfl, rfl⟩⟩
    | update => exact hcall.elim
    | destroy => exact hcall.elim
  | update slug data =>
    rw [hrequest] at hcall
    cases call with
    | create => exact hcall.elim
    | update post data =>
      obtain ⟨hpost, hslug⟩ := hcall
      refine ⟨post, data.update post, hpost, hslug, rfl, hresponse, ?_, rfl, rfl,
        ⟨rfl, rfl, rfl, rfl, rfl⟩⟩
      -- the post is there, so the statement finds its row
      have hthere : (Keyed.lookup Post.id post.id x.before.posts.1).isSome :=
        Keyed.lookup_isSome_iff.mpr ⟨post, hpost, rfl⟩
      exact hposts.trans (if_pos hthere)
    | destroy => exact hcall.elim
  | destroy slug =>
    rw [hrequest] at hcall
    cases call with
    | create => exact hcall.elim
    | update => exact hcall.elim
    | destroy post =>
      obtain ⟨hpost, hslug⟩ := hcall
      exact ⟨post, hpost, hslug, hresponse, hposts, rfl, rfl, rfl, rfl⟩

/-- **The outbox is the log of the writes**: whichever statements fail, what is not answered with
    success changes neither table, and the outbox grows by one row for each success, in order. -/
theorem outbox_isLog (db : Db) (attempts : List Attempt) :
    (∀ x ∈ exchanges db attempts, ¬ Response.success x.response → x.Unchanged) ∧
      ∃ events, (serveAllWith db attempts).outbox.1 = db.outbox.1 ++ events ∧
        List.Forall₂ Logs ((exchanges db attempts).filter fun x => Response.success x.response)
          events := by
  induction attempts generalizing db with
  | nil => exact ⟨by simp [exchanges], [], by simp [serveAllWith], .nil⟩
  | cons a attempts ih =>
    obtain ⟨hrest, events, houtbox, hlogs⟩ := ih (serveWith db a).1
    let x : Exchange := ⟨db, a, (serveWith db a).2, (serveWith db a).1⟩
    have hexchanges : exchanges db (a :: attempts) = x :: exchanges (serveWith db a).1 attempts := rfl
    have hserve : serveAllWith db (a :: attempts) = serveAllWith (serveWith db a).1 attempts := rfl
    rw [hexchanges, hserve, List.filter_cons, houtbox]
    rcases serveWith_cases db a with ⟨hfail, hposts, hsame⟩ | ⟨call, hcall, hresponse, hok, hposts, hrow⟩
    · refine ⟨List.forall_mem_cons.mpr ⟨fun _ => ⟨hposts, hsame⟩, hrest⟩, events, by rw [hsame], ?_⟩
      rw [if_neg hfail]
      exact hlogs
    · refine ⟨List.forall_mem_cons.mpr ⟨fun hfail => absurd hok hfail, hrest⟩, ?_⟩
      have hlog := logs_of_calls (x := x) hcall a.arrival.now a.arrival.id hresponse hposts
      refine ⟨_ :: events, ?_, by rw [if_pos hok]; exact .cons hlog hlogs⟩
      rw [hrow, List.append_assoc]
      rfl

end DjangoFlaskKafka.Posts.Atomicity
