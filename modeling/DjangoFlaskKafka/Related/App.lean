/-
  The database of the related service — the tables of `services/related/app.py`, the changes a
  handler makes to them, and the commit that either lands as a whole or not at all.

  A handler works on rows it has loaded and ASSIGNS to them; SQLAlchemy turns the assignments into
  statements when it flushes, and the database checks its constraints.  So a handler is modelled
  by the list of changes it makes (`Change`), `flush` runs them as statements, and a table is a
  list of rows TOGETHER WITH its constraints (`PostTable`, a subtype): a table that violates its
  primary key, its unique slug or a column's width cannot be built, and a commit that would build
  one fails instead.  An `UPDATE` sets the columns that differ from what was loaded, and those only
  (`Columns`); without such a column none is sent.  One of a row that is gone fails (SQLAlchemy's
  `StaleDataError`); `DELETE` of one does not.

  `add_date`, `revoked_at` and `processed_at` are written and never read by the consumer, and are
  left out.
-/
import DjangoFlaskKafka.Kafka
import DjangoFlaskKafka.Postgres
import DjangoFlaskKafka.Lib.Keyed
import Mathlib.Data.Finmap

namespace DjangoFlaskKafka.Related

open Python Kafka Postgres

/-! ## Rows -/

/-- The `related` column: scores by slug. -/
abbrev RelatedMap (σ : Type) := Finmap fun _ : String => σ

/-- A row of `post`. -/
@[ext] structure Post (σ : Type) where
  id : Int
  title : String
  image : Option String
  body : Option String
  slug : String
  related : RelatedMap σ
  deriving DecidableEq

/-- A row of `revoked_tokens`; `expires_at` is a naive timestamp. -/
structure RevokedToken where
  token_id : String
  user_id : String
  expires_at : Int
  deriving DecidableEq, Repr

/-- A row of `processed_events`. -/
structure ProcessedEvent where
  event_id : String
  topic : Topic
  deriving DecidableEq, Repr

/-- The row's values fit the columns of `post`. -/
structure Post.Fits {σ : Type} (p : Post σ) : Prop where
  id : InInteger p.id
  title : Varchar 200 p.title
  image : ∀ s ∈ p.image, Varchar 250 s
  body : ∀ s ∈ p.body, Varchar 1500 s
  slug : Varchar 250 p.slug

/-- The fields, as a conjunction that can be decided. -/
theorem Post.fits_iff {σ : Type} (p : Post σ) : p.Fits ↔ InInteger p.id ∧ Varchar 200 p.title ∧
    (∀ s ∈ p.image, Varchar 250 s) ∧ (∀ s ∈ p.body, Varchar 1500 s) ∧ Varchar 250 p.slug :=
  ⟨fun h => ⟨h.id, h.title, h.image, h.body, h.slug⟩, fun ⟨h1, h2, h3, h4, h5⟩ => ⟨h1, h2, h3, h4, h5⟩⟩

instance {σ : Type} (p : Post σ) : Decidable p.Fits := decidable_of_iff _ p.fits_iff.symm

/-! ## Tables carry their constraints -/

/-- The constraints of `post`: primary key, unique slug, column types. -/
structure PostConstraints {σ : Type} (rows : List (Post σ)) : Prop where
  ids : (rows.map Post.id).Nodup
  slugs : (rows.map Post.slug).Nodup
  fits : ∀ p ∈ rows, p.Fits

/-- The same of the table. -/
theorem postConstraints_iff {σ : Type} (rows : List (Post σ)) : PostConstraints rows ↔
    (rows.map Post.id).Nodup ∧ (rows.map Post.slug).Nodup ∧ ∀ p ∈ rows, p.Fits :=
  ⟨fun h => ⟨h.ids, h.slugs, h.fits⟩, fun ⟨h1, h2, h3⟩ => ⟨h1, h2, h3⟩⟩

instance {σ : Type} : DecidablePred (PostConstraints (σ := σ)) := fun rows =>
  decidable_of_iff _ (postConstraints_iff rows).symm

/-- The constraints of `processed_events`. -/
def ProcessedConstraints (rows : List ProcessedEvent) : Prop :=
  (rows.map (·.event_id)).Nodup ∧ ∀ e ∈ rows, Varchar 64 e.event_id

instance : DecidablePred ProcessedConstraints := fun _ => inferInstanceAs (Decidable (_ ∧ _))

/-- The constraints of `revoked_tokens`. -/
def RevokedConstraints (rows : List RevokedToken) : Prop :=
  (rows.map (·.token_id)).Nodup ∧ ∀ t ∈ rows, Varchar 64 t.token_id ∧ Varchar 64 t.user_id

instance : DecidablePred RevokedConstraints := fun _ => inferInstanceAs (Decidable (_ ∧ _))

/-- The `post` table. -/
abbrev PostTable (σ : Type) := { rows : List (Post σ) // PostConstraints rows }

/-- The `processed_events` table. -/
abbrev ProcessedTable := { rows : List ProcessedEvent // ProcessedConstraints rows }

/-- The `revoked_tokens` table. -/
abbrev RevokedTable := { rows : List RevokedToken // RevokedConstraints rows }

/-- The database. -/
structure Db (σ : Type) where
  post : PostTable σ
  processed_events : ProcessedTable
  revoked_tokens : RevokedTable

/-- The database the migrations leave behind. -/
def Db.empty (σ : Type) : Db σ where
  post := ⟨[], ⟨List.nodup_nil, List.nodup_nil, by simp⟩⟩
  processed_events := ⟨[], by decide⟩
  revoked_tokens := ⟨[], by decide⟩

/-! ## Changes and their flush -/

/-- The columns that an `UPDATE` sets; it leaves a column alone that has `none` here. -/
structure Columns where
  title : Option String := none
  image : Option (Option String) := none
  body : Option (Option String) := none
  slug : Option String := none
  deriving DecidableEq, Repr

/-- What a handler does to `post`. -/
inductive Change (σ : Type) where
  | insert (row : Post σ)
  | assign (id : Int) (columns : Columns)
  | relate (id : Int) (related : RelatedMap σ)
  | delete (id : Int)

/-- `UPDATE post SET …`. -/
def Post.set {σ : Type} (columns : Columns) (p : Post σ) : Post σ :=
  { p with
    title := columns.title.getD p.title
    image := columns.image.getD p.image
    body := columns.body.getD p.body
    slug := columns.slug.getD p.slug }

/-- The columns `apply_updated` assigns. -/
def Post.assign {σ : Type} (title : String) (image body : Option String) (slug : String)
    (p : Post σ) : Post σ :=
  { p with title := title, image := image, body := body, slug := slug }

/-- The assignment `row.related = related`. -/
def Post.relate {σ : Type} (related : RelatedMap σ) (p : Post σ) : Post σ :=
  { p with related := related }

section Frames

variable {σ : Type} (p : Post σ) (title slug : String) (image body : Option String)
  (related : RelatedMap σ)

@[simp] theorem Post.assign_id : (p.assign title image body slug).id = p.id := rfl
@[simp] theorem Post.assign_title : (p.assign title image body slug).title = title := rfl
@[simp] theorem Post.assign_image : (p.assign title image body slug).image = image := rfl
@[simp] theorem Post.assign_body : (p.assign title image body slug).body = body := rfl
@[simp] theorem Post.assign_slug : (p.assign title image body slug).slug = slug := rfl
@[simp] theorem Post.assign_related : (p.assign title image body slug).related = p.related := rfl
@[simp] theorem Post.relate_id : (p.relate related).id = p.id := rfl
@[simp] theorem Post.relate_title : (p.relate related).title = p.title := rfl
@[simp] theorem Post.relate_image : (p.relate related).image = p.image := rfl
@[simp] theorem Post.relate_body : (p.relate related).body = p.body := rfl
@[simp] theorem Post.relate_slug : (p.relate related).slug = p.slug := rfl
@[simp] theorem Post.relate_related : (p.relate related).related = related := rfl

end Frames

/-- One change as a statement; `none` when it fails at once. -/
def Change.apply {σ : Type} (rows : List (Post σ)) : Change σ → Option (List (Post σ))
  | insert row => some (rows ++ [row])
  | assign id columns => Keyed.update Post.id Post.set rows (id, columns)
  | relate id related => Keyed.update Post.id Post.relate rows (id, related)
  | delete id => some (rows.filter fun p => p.id ≠ id)

/-- The statements of a unit of work, in order. -/
def flush {σ : Type} (rows : List (Post σ)) (changes : List (Change σ)) : Option (List (Post σ)) :=
  changes.foldlM Change.apply rows

/-- What a handler does to `revoked_tokens`: the new row, if any, then the purge of the rows that
    expired by `now`. -/
structure RevokedChange where
  add : Option RevokedToken
  now : Int

/-- `RevokedToken.query.filter(RevokedToken.expires_at <= now).delete()`. -/
def purge (now : Int) (t : RevokedTable) : RevokedTable where
  val := t.1.filter fun r => ¬ r.expires_at ≤ now
  property := ⟨t.2.1.sublist (List.filter_sublist.map _),
    fun r hr => t.2.2 r (List.mem_filter.mp hr).1⟩

/-- The insert, which the autoflush of the purge sends first, then the purge. -/
def RevokedChange.apply (t : RevokedTable) (c : RevokedChange) : Option RevokedTable :=
  (checked RevokedConstraints (t.1 ++ c.add.toList)).map (purge c.now)

/-- The work of one handler call. -/
structure Work (σ : Type) where
  post : List (Change σ)
  revoked : Option RevokedChange

/-- `db.session.commit()` with a new `processed_events` row: all of it, or `none`. -/
def Db.commit {σ : Type} (db : Db σ) (work : Work σ) (event : ProcessedEvent) : Option (Db σ) := do
  let rows ← flush db.post.1 work.post
  let post ← checked PostConstraints rows
  let processed ← checked ProcessedConstraints (db.processed_events.1 ++ [event])
  let revoked ← work.revoked.elim (some db.revoked_tokens) (·.apply db.revoked_tokens)
  return { post := post, processed_events := processed, revoked_tokens := revoked }

section Flush

variable {σ : Type}

@[simp] theorem flush_nil (rows : List (Post σ)) : flush rows [] = some rows := rfl

/-- The first statement is sent first. -/
theorem flush_cons (rows : List (Post σ)) (c : Change σ) (cs : List (Change σ)) :
    flush rows (c :: cs) = (c.apply rows).bind fun rows' => flush rows' cs := rfl

/-- Units of work one after the other. -/
theorem flush_append (rows : List (Post σ)) (cs cs' : List (Change σ)) :
    flush rows (cs ++ cs') = (flush rows cs).bind fun rows' => flush rows' cs' :=
  List.foldlM_append

theorem flush_singleton (rows : List (Post σ)) (c : Change σ) : flush rows [c] = c.apply rows := by
  rw [flush_cons]
  cases c.apply rows <;> rfl

/-- The row is there, so the `UPDATE` finds it. -/
theorem apply_assign {rows : List (Post σ)} {id : Int} (hid : id ∈ rows.map Post.id)
    (columns : Columns) :
    Change.apply rows (.assign id columns) = some (Keyed.modify Post.id id (Post.set columns) rows) := by
  unfold Change.apply
  exact Keyed.update_of_mem Post.id hid columns

/-- The same of its map. -/
theorem apply_relate {rows : List (Post σ)} {id : Int} (hid : id ∈ rows.map Post.id)
    (related : RelatedMap σ) :
    Change.apply rows (.relate id related)
      = some (Keyed.modify Post.id id (Post.relate related) rows) := by
  unfold Change.apply
  exact Keyed.update_of_mem Post.id hid related

/-- **The loops of the handlers**: assigning `related` to every loaded row that satisfies `q`. -/
theorem flush_relate {rows : List (Post σ)} (hids : (rows.map Post.id).Nodup) (q : Post σ → Bool)
    (g : Post σ → RelatedMap σ) :
    flush rows ((rows.filter q).map fun p => .relate p.id (g p))
      = some (rows.map fun p => if q p then p.relate (g p) else p) := by
  have hid : ∀ (related : RelatedMap σ) p, (Post.relate related p).id = p.id := fun _ _ => rfl
  rw [← Keyed.foldlM_update hid hids q g]
  unfold flush
  rw [List.foldlM_map, List.foldlM_map]
  rfl

end Flush

/-! ## What a commit does -/

section Commit

variable {σ : Type}

/-- A commit that lands flushed the post changes and recorded the event. -/
theorem commit_eq_some {db db' : Db σ} {work : Work σ} {event : ProcessedEvent}
    (h : db.commit work event = some db') :
    flush db.post.1 work.post = some db'.post.1 ∧
      db'.processed_events.1 = db.processed_events.1 ++ [event] := by
  unfold Db.commit at h
  obtain ⟨rows, hrows, h⟩ := Option.bind_eq_some_iff.mp h
  obtain ⟨post, hpost, h⟩ := Option.bind_eq_some_iff.mp h
  obtain ⟨processed, hprocessed, h⟩ := Option.bind_eq_some_iff.mp h
  obtain ⟨revoked, -, h⟩ := Option.bind_eq_some_iff.mp h
  obtain rfl := Option.some.inj h
  exact ⟨by rw [hrows, checked_eq_some hpost], checked_eq_some hprocessed⟩

/-- A fresh event id that fits can be recorded. -/
theorem processed_append (processed : ProcessedTable) {event : ProcessedEvent}
    (hfresh : ∀ e ∈ processed.1, e.event_id ≠ event.event_id) (hfits : Varchar 64 event.event_id) :
    ProcessedConstraints (processed.1 ++ [event]) := by
  refine ⟨?_, ?_⟩
  · rw [List.map_append, List.nodup_append]
    refine ⟨processed.2.1, List.nodup_singleton _, ?_⟩
    intro a ha b hb
    obtain ⟨e, he, rfl⟩ := List.mem_map.mp ha
    obtain rfl : b = event.event_id := by simpa using hb
    exact hfresh e he
  · intro e he
    rcases List.mem_append.mp he with he | he
    · exact processed.2.2 e he
    · obtain rfl : e = event := by simpa using he
      exact hfits

/-- Post changes whose flush keeps the constraints land, under a fresh event id that fits. -/
theorem commit_post {db : Db σ} {cs : List (Change σ)} {rows : List (Post σ)}
    {event : ProcessedEvent} (hflush : flush db.post.1 cs = some rows) (hrows : PostConstraints rows)
    (hfresh : ∀ e ∈ db.processed_events.1, e.event_id ≠ event.event_id)
    (hfits : Varchar 64 event.event_id) :
    ∃ db', db.commit ⟨cs, none⟩ event = some db' ∧ db'.post.1 = rows := by
  have hprocessed := processed_append db.processed_events hfresh hfits
  refine ⟨⟨⟨rows, hrows⟩, ⟨_, hprocessed⟩, db.revoked_tokens⟩, ?_, rfl⟩
  unfold Db.commit
  rw [hflush, Option.bind_eq_bind, Option.bind_some, checked_of hrows, checked_of hprocessed]
  rfl

/-- So does a revocation whose row is absent. -/
theorem commit_revoked {db : Db σ} {c : RevokedChange} {event : ProcessedEvent}
    (hrow : RevokedConstraints (db.revoked_tokens.1 ++ c.add.toList))
    (hfresh : ∀ e ∈ db.processed_events.1, e.event_id ≠ event.event_id)
    (hfits : Varchar 64 event.event_id) :
    db.commit ⟨[], some c⟩ event = some ⟨db.post,
      ⟨_, processed_append db.processed_events hfresh hfits⟩, purge c.now ⟨_, hrow⟩⟩ := by
  unfold Db.commit
  rw [flush_nil, Option.bind_eq_bind, Option.bind_some, checked_of db.post.2,
    checked_of (processed_append db.processed_events hfresh hfits)]
  show (c.apply db.revoked_tokens).bind _ = _
  unfold RevokedChange.apply
  rw [checked_of hrow]
  rfl

end Commit

/-! ## The routes -/

section Routes

variable {σ : Type} (db : Db σ)

/-- `GET /posts`: the rows it answers, or `none` for a 500; a negative `LIMIT` is refused. -/
def posts (PAGE_SIZE : Int) : Option (List (Post σ)) :=
  let limit := min PAGE_SIZE 500
  if 0 ≤ limit then some ((db.post.1.mergeSort fun p q => q.id ≤ p.id).take limit.toNat) else none

/-- `GET /posts/<slug>`: the row it answers, or `none` for a 404. -/
def postDetail (slug : String) : Option (Post σ) := Keyed.lookup Post.slug slug db.post.1

end Routes

end DjangoFlaskKafka.Related
