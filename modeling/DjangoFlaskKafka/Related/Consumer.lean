/-
  The related consumer — the handlers and `handle` of `services/related/consumer.py`.

  1. **Program** — `applyCreated`, `applyUpdated`, `applyDeleted`, `applyTokenRevoked` take the rows
     they query and the raw JSON payload, and return the changes they assign, or the exception they
     raise.  `handle` wraps one of them: dedup lookup, handler, `processed_events` row, one commit.

  2. **On posts** — a payload that `Carries` a post (an integer id, string title and slug, optional
     image and body) makes no handler raise, and what a handler does to the table is then a closed
     form: `created`, `updated`, `deleted`.  Everything said about the related table elsewhere is
     said about these three; `apply_created_spec`, `apply_updated_spec` and `apply_deleted_spec`
     connect them to the program.
-/
import DjangoFlaskKafka.Related.App
import DjangoFlaskKafka.Related.Similarity

namespace DjangoFlaskKafka.Related

open Python Kafka Postgres

variable {σ : Type} (L : Libs σ)

/-! ## The program: the handlers -/

/-- psycopg dumps the values of a statement in their order, before the server sees any of them.  A
    string with a surrogate cannot be encoded, and that is no error of the database.  At a text with
    a NUL this ends: no column takes one (`Varchar`), and no row is found under it. -/
def Libs.send : List Json → Except PyErr Unit
  | [] => .ok ()
  | .null :: values => Libs.send values
  | .str s :: values => if nul ∈ s.toList then .ok () else Libs.send values
  | .lone _ :: _ => .error .valueError
  | value :: values => do
    L.dump value
    Libs.send values

/-- A value that has been sent, in an integer column. -/
def Libs.intOf (j : Json) : Except PyErr (Option Int) :=
  (L.bindInt j).elim (.error .sqlAlchemyError) .ok

/-- A value that has been sent, in a text column. -/
def Libs.textOf (j : Json) : Except PyErr (Option String) :=
  (L.bindText j).elim (.error .sqlAlchemyError) .ok

/-- The key that `db.session.get` is asked for, which a list or a dict gives by its columns. -/
def identity (column : String) : Json → Except PyErr Json
  | .arr [key] => key.hashable
  | .arr _ => .error .sqlAlchemyError
  | .obj [(name, key)] => if name = column then key.hashable else .error .sqlAlchemyError
  | .obj _ => .error .sqlAlchemyError
  | key => .ok key

/-- The id in `db.session.get(Post, value)`. -/
def Libs.sqlInt (j : Json) : Except PyErr (Option Int) := do
  let key ← identity "id" j
  L.send [key]
  L.intOf key

/-- The token in `db.session.get(RevokedToken, value)`. -/
def Libs.sqlToken (j : Json) : Except PyErr (Option String) := do
  let key ← identity "token_id" j
  L.send [key]
  L.textOf key

/-- The slug in `filter_by(slug=value)`; a Boolean is no parameter of the statement, and no text is
    compared with one. -/
def Libs.sqlText (j : Json) : Except PyErr (Option String) :=
  match j with
  | .bool _ => .error .sqlAlchemyError
  | _ => do
    L.send [j]
    L.textOf j

/-- NULL in a column that is not nullable. -/
def notNull {α : Type} (x : Option α) : Except PyErr α := x.elim (.error .sqlAlchemyError) .ok

/-- `db.session.get(Post, id)`; no row has the id NULL. -/
def getPost (rows : List (Post σ)) (id : Option Int) : Option (Post σ) :=
  id.bind fun id => Keyed.lookup Post.id id rows

/-- The loop over the other rows: each with the key and the score it is about to be given. -/
def scoreOthers [Zero σ] (others : List (Post σ)) (title slug : Json) :
    Except PyErr (List (Post σ × String × σ)) :=
  others.mapM fun other => do
    let score ← similarity L (.str other.title) title
    let key ← slug.dictKey
    return (other, key, score)

/-- `related[other.slug] = score`, over the loop. -/
def forwardRefs (scored : List (Post σ × String × σ)) : RelatedMap σ :=
  scored.foldl (fun related x => related.insert x.1.slug x.2.2) ∅

/-- The row has not got the entry yet that it is about to be given. -/
def lacks (x : Post σ × String × σ) : Bool :=
  haveI := L.decEq
  x.1.related.lookup x.2.1 ≠ some x.2.2

/-- `other.related = {**(other.related or {}), slug: score}`, over the loop, as it is flushed. -/
def backRefs (scored : List (Post σ × String × σ)) : List (Change σ) :=
  (scored.filter (lacks L)).map fun x => .relate x.1.id (x.1.related.insert x.2.1 x.2.2)

/-- The flush of a create: the maps of the other rows go first, and no JSONB document takes the slug
    as a key that has a surrogate or a NUL in it; then the new row.  An id out of the range of its
    column does not get that far, for no row is found under it and none takes it. -/
def Libs.sendNew (others : List (Post σ)) (id : Option Int) (slug : Json) (values : List Json) :
    Except PyErr Unit :=
  if ∃ n ∈ id, ¬ InInteger n then .ok ()
  else match others, slug with
    | _ :: _, .lone _ => .error .sqlAlchemyError
    | _ :: _, .str s => if nul ∈ s.toList then .ok () else L.send values
    | _, _ => L.send values

/-- The id in the new row: the one looked up, but no integer is made of a list or a dict. -/
def newId (value : Json) (id : Option Int) : Except PyErr (Option Int) :=
  match value with
  | .arr _ | .obj _ => .error .sqlAlchemyError
  | _ => .ok id

/-- `apply_created(payload)`. -/
def applyCreated [Zero σ] (rows : List (Post σ)) (payload : Json) : Except PyErr (List (Change σ)) := do
  let idValue ← payload.item "id"
  let id ← L.sqlInt idValue
  if (getPost rows id).isSome then
    return []
  else
    let title ← payload.item "title"
    let slug ← payload.item "slug"
    let scored ← scoreOthers L rows title slug
    let image ← payload.get "image"
    let body ← payload.get "body"
    L.sendNew rows id slug [idValue, title, image, body, slug]
    let row : Post σ :=
      { id := ← notNull (← newId idValue id), title := ← notNull (← L.textOf title),
        image := ← L.textOf image, body := ← L.textOf body, slug := ← notNull (← L.textOf slug),
        related := forwardRefs scored }
    return backRefs L scored ++ [.insert row]

/-- The column has the value already that is assigned to it. -/
def unchanged (column : Option String) : Json → Bool
  | .str s => column = some s
  | .null => column = none
  | _ => false

/-- The assignments of `apply_updated` to a post, and their flush. -/
def assignColumns (post : Post σ) (payload title : Json) : Except PyErr Columns := do
  let image ← payload.get "image"
  let body ← payload.get "body"
  let slug ← payload.item "slug"
  L.send [title, image, body, slug]
  let newTitle ← notNull (← L.textOf title)
  let newImage ← L.textOf image
  let newBody ← L.textOf body
  let newSlug ← notNull (← L.textOf slug)
  return {
    title := if unchanged (some post.title) title then none else some newTitle
    image := if unchanged post.image image then none else some newImage
    body := if unchanged post.body body then none else some newBody
    slug := if unchanged (some post.slug) slug then none else some newSlug }

/-- The `UPDATE` of the post, if there is anything to set. -/
def assignChanges (id : Int) (columns : Columns) : List (Change σ) :=
  if columns = {} then [] else [.assign id columns]

/-- `post.related = related`, as it is flushed. -/
def ownRefs (post : Post σ) (related : RelatedMap σ) : List (Change σ) :=
  haveI := L.decEq
  if related = post.related then [] else [.relate post.id related]

/-- `apply_updated(payload)`. -/
def applyUpdated [Zero σ] (rows : List (Post σ)) (payload : Json) : Except PyErr (List (Change σ)) := do
  let id ← L.sqlInt (← payload.item "id")
  match getPost rows id with
  | none =>
    -- The create may not have arrived yet.
    applyCreated L rows payload
  | some post =>
    let title ← payload.item "title"
    let titleChanged := (← title.stripped) ≠ some (strip post.title)
    let columns ← assignColumns L post payload title
    if ¬ titleChanged then
      return assignChanges post.id columns
    else
      let slug ← payload.item "slug"
      let scored ← scoreOthers L (rows.filter fun p => p.id ≠ post.id) title slug
      return assignChanges post.id columns ++ backRefs L scored ++ ownRefs L post (forwardRefs scored)

/-- The key of `slug in current`, which is first hashed when there is a row to ask. -/
def askedKey (others : List (Post σ)) (slug : Json) : Except PyErr (Option String) :=
  if others.isEmpty then .ok none else slug.stringKey

/-- `apply_deleted(payload)`. -/
def applyDeleted (rows : List (Post σ)) (payload : Json) : Except PyErr (List (Change σ)) := do
  let slug ← payload.item "slug"
  let key ← L.sqlText slug
  let post := key.bind fun s => Keyed.lookup Post.slug s rows
  let gone : List (Change σ) := (post.map fun p => .delete p.id).toList
  -- `slug != NULL` is rendered as `IS NOT NULL`, which every row satisfies.
  let others := rows.filter fun p => some p.slug ≠ key
  let member ← askedKey others slug
  let hits := others.filter fun p => (member.bind fun s => p.related.lookup s).isSome
  return gone ++ hits.map fun p => .relate p.id (member.elim p.related p.related.erase)

/-- `datetime.fromisoformat(value.replace("Z", "+00:00"))`. -/
def Libs.readExpiry : Json → Except PyErr DateTime
  | .str s => (L.fromisoformat (replaceZ s)).elim (.error .valueError) .ok
  | .lone t => (L.fromisoformatLone t.replaceZ).elim (.error .valueError) .ok
  | _ => .error .attributeError

/-- `apply_token_revoked(payload)` at the clock reading `now`. -/
def applyTokenRevoked (now : Int) (rows : List RevokedToken) (payload : Json) :
    Except PyErr RevokedChange := do
  let expires_at ← L.readExpiry (← payload.item "expires_at")
  let token ← payload.item "token_id"
  let token_id ← L.sqlToken token
  if rows.any fun t => some t.token_id = token_id then
    return { add := none, now := now }
  else
    let user ← payload.item "user_id"
    L.send [token, user]
    let row : RevokedToken :=
      { token_id := ← notNull (← L.textOf token), user_id := ← notNull (← L.textOf user),
        expires_at := expires_at.wall }
    return { add := some row, now := now }

/-- `HANDLERS[topic](payload)`. -/
def HANDLERS [Zero σ] (now : Int) (db : Db σ) (payload : Json) : Topic → Except PyErr (Work σ)
  | .postCreated => (applyCreated L db.post.1 payload).map fun cs => ⟨cs, none⟩
  | .postUpdated => (applyUpdated L db.post.1 payload).map fun cs => ⟨cs, none⟩
  | .postDeleted => (applyDeleted L db.post.1 payload).map fun cs => ⟨cs, none⟩
  | .tokenRevoked => (applyTokenRevoked L now db.revoked_tokens.1 payload).map fun c => ⟨[], some c⟩

/-! ## The program: `handle` -/

/-- `event_id_for(message)`; a header that is not UTF-8 raises `UnicodeDecodeError`. -/
def eventIdFor (m : Message) : Except PyErr String :=
  match header (m.headers.getD []) "event_id" with
  | some raw =>
    if raw.size ≠ 0 then (String.fromUTF8? raw).elim (.error .valueError) .ok
    else .ok (m.topic.name ++ ":" ++ toString m.partition ++ ":" ++ toString m.offset)
  | none => .ok (m.topic.name ++ ":" ++ toString m.partition ++ ":" ++ toString m.offset)

/-- Which database statement of a `handle` call fails. -/
inductive Fault where
  | none
  | read
  | write
  deriving DecidableEq, Repr

/-- How a call ends. -/
inductive Reply where
  | returned (ok : Bool)
  | raised (e : PyErr)
  deriving DecidableEq, Repr

/-- `except (SQLAlchemyError, KeyError, TypeError)`. -/
def caught : PyErr → Bool
  | .sqlAlchemyError | .keyError | .typeError => true
  | _ => false

/-- The end of a call that raised inside the `try`. -/
def recover (e : PyErr) : Reply := if caught e then .returned false else .raised e

/-- `handle(message)`: the database afterwards and the reply. -/
def handle [Zero σ] (now : Int) (db : Db σ) (m : Message) (fault : Fault) : Db σ × Reply :=
  match eventIdFor m with
  | .error e => (db, .raised e)
  | .ok event_id =>
    -- The lookup binds the id, and no text column takes a NUL.
    if fault = .read ∨ nul ∈ event_id.toList then (db, recover .sqlAlchemyError)
    else if db.processed_events.1.any fun e => e.event_id = event_id then (db, .returned true)
    else match HANDLERS L now db m.value m.topic with
      | .error e => (db, recover e)
      | .ok work =>
        match if fault = .write then none else db.commit work ⟨event_id, m.topic⟩ with
        | none => (db, recover .sqlAlchemyError)
        | some db' =>
          -- The log line after the commit reads `message.value.get("slug")`.
          match m.value.get "slug" with
          | .ok _ => (db', .returned true)
          | .error e => (db', recover e)

/-! ## Payloads that carry a post -/

/-- What a well-formed post payload says. -/
structure PostPayload where
  id : Int
  title : String
  image : Option String
  body : Option String
  slug : String
  deriving DecidableEq, Repr

/-- A string or `None`. -/
def optStr (s : Option String) : Json := s.elim .null .str

/-- The payload says `p`. -/
structure Carries (payload : Json) (p : PostPayload) : Prop where
  id : payload.item "id" = .ok (.int p.id)
  title : payload.item "title" = .ok (.str p.title)
  image : payload.get "image" = .ok (optStr p.image)
  body : payload.get "body" = .ok (optStr p.body)
  slug : payload.item "slug" = .ok (.str p.slug)

/-- The scores of a new title against the given rows, by slug. -/
def scores [Zero σ] (others : List (Post σ)) (title : String) : RelatedMap σ :=
  others.foldl (fun related p => related.insert p.slug (score L p.title title)) ∅

/-- A row told about a post with this slug and title. -/
def Post.refer [Zero σ] (slug title : String) (p : Post σ) : Post σ :=
  p.relate (p.related.insert slug (score L p.title title))

/-- The row `apply_created` inserts. -/
def createdRow [Zero σ] (rows : List (Post σ)) (p : PostPayload) : Post σ where
  id := p.id
  title := p.title
  image := p.image
  body := p.body
  slug := p.slug
  related := scores L rows p.title

/-- What `apply_created` makes of the table. -/
def created [Zero σ] (rows : List (Post σ)) (p : PostPayload) : List (Post σ) :=
  if (Keyed.lookup Post.id p.id rows).isSome then rows
  else rows.map (Post.refer L p.slug p.title) ++ [createdRow L rows p]

/-- What `apply_updated` makes of the table. -/
def updated [Zero σ] (rows : List (Post σ)) (p : PostPayload) : List (Post σ) :=
  match Keyed.lookup Post.id p.id rows with
  | none => created L rows p
  | some post =>
    if strip p.title = strip post.title then
      Keyed.modify Post.id p.id (Post.assign p.title p.image p.body p.slug) rows
    else
      rows.map fun q =>
        if q.id = p.id then
          (q.assign p.title p.image p.body p.slug).relate
            (scores L (rows.filter fun q => q.id ≠ p.id) p.title)
        else q.refer L p.slug p.title

/-- What `apply_deleted` makes of the table. -/
def deleted (rows : List (Post σ)) (slug : String) : List (Post σ) :=
  (rows.filter fun p => p.slug ≠ slug).map fun p => p.relate (p.related.erase slug)

/-! ### The ids stay unique -/

section Ids

variable [Zero σ] {rows : List (Post σ)}

/-- A create keeps the ids unique. -/
theorem ids_created (hids : (rows.map Post.id).Nodup) (p : PostPayload) :
    ((created L rows p).map Post.id).Nodup := by
  unfold created
  split
  · exact hids
  next hnone =>
    rw [List.map_append, List.map_map, List.nodup_append]
    refine ⟨hids, List.nodup_singleton _, fun i hi j hj hij => hnone ?_⟩
    obtain ⟨q, hq, hqid⟩ := List.mem_map.mp hi
    have hj' : j = p.id := List.mem_singleton.mp hj
    exact Keyed.lookup_isSome_iff.mpr ⟨q, hq, hqid.trans (hij.trans hj')⟩

/-- So does an update. -/
theorem ids_updated (hids : (rows.map Post.id).Nodup) (p : PostPayload) :
    ((updated L rows p).map Post.id).Nodup := by
  unfold updated
  split
  · exact ids_created L hids p
  · split
    · rwa [Keyed.map_key_modify Post.id p.id (by intro _ h; exact h)]
    · have hkeeps : ∀ q : Post σ, Post.id (if q.id = p.id then
          (q.assign p.title p.image p.body p.slug).relate
            (scores L (rows.filter fun q => q.id ≠ p.id) p.title)
          else q.refer L p.slug p.title) = q.id := by
        intro q
        split <;> rfl
      rw [List.map_map]
      exact (List.map_congr_left fun q _ => hkeeps q).symm ▸ hids

omit [Zero σ] in
/-- So does a deletion. -/
theorem ids_deleted (hids : (rows.map Post.id).Nodup) (slug : String) :
    ((deleted rows slug).map Post.id).Nodup := by
  unfold deleted
  rw [List.map_map]
  exact hids.sublist (List.filter_sublist.map Post.id)

end Ids

@[simp] theorem Post.refer_id [Zero σ] (slug title : String) (p : Post σ) :
    (p.refer L slug title).id = p.id := rfl

/-! ### On such payloads the handlers do not raise -/

section Sending

variable {values : List Json}

/-- An integer is always sent. -/
theorem send_int (n : Int) : L.send (.int n :: values) = L.send values := by
  show (L.dump (.int n) >>= fun _ => L.send values) = L.send values
  rw [L.dump_int]
  rfl

/-- A text is sent, or the rest is not looked at. -/
theorem send_str (s : String) (h : L.send values = .ok ()) : L.send (.str s :: values) = .ok () := by
  show (if nul ∈ s.toList then .ok () else L.send values) = .ok ()
  split
  · rfl
  · exact h

theorem send_optStr (s : Option String) (h : L.send values = .ok ()) :
    L.send (optStr s :: values) = .ok () := by
  cases s with
  | none => exact h
  | some s => exact send_str L s h

/-- A payload of texts is sent. -/
theorem sendNew_str (others : List (Post σ)) (id : Option Int) (slug : String)
    (h : L.send values = .ok ()) : L.sendNew others id (.str slug) values = .ok () := by
  unfold Libs.sendNew
  split
  · rfl
  · cases others with
    | nil => exact h
    | cons =>
      show (if nul ∈ slug.toList then .ok () else L.send values) = .ok ()
      split
      · rfl
      · exact h

@[simp] theorem textOf_str (s : String) : L.textOf (.str s) = .ok (some s) := by
  unfold Libs.textOf
  rw [L.bindText_str]
  rfl

@[simp] theorem textOf_optStr (s : Option String) : L.textOf (optStr s) = .ok s := by
  cases s with
  | none =>
    unfold Libs.textOf optStr
    rw [Option.elim_none, L.bindText_null]
    rfl
  | some s => exact textOf_str L s

@[simp] theorem sqlInt_int (n : Int) : L.sqlInt (.int n) = .ok (some n) := by
  show (L.send [.int n] >>= fun _ => L.intOf (.int n)) = _
  rw [send_int]
  unfold Libs.intOf
  rw [L.bindInt_int]
  rfl

theorem sqlToken_str (s : String) : L.sqlToken (.str s) = .ok (some s) := by
  show (L.send [.str s] >>= fun _ => L.textOf (.str s)) = _
  rw [send_str L s rfl, textOf_str]
  rfl

theorem sqlText_str (s : String) : L.sqlText (.str s) = .ok (some s) := sqlToken_str L s

end Sending

/-- The id of the new row is the one looked up. -/
theorem newId_eq_ok {value : Json} {id id' : Option Int} (h : newId value id = .ok id') : id = id' := by
  cases value with
  | arr => cases h
  | obj => cases h
  | _ => exact Except.ok.inj h

@[simp] theorem notNull_some {α : Type} (x : α) : notNull (some x) = .ok x := rfl

/-- Titles that are texts are scored. -/
theorem scoreOthers_str [Zero σ] (others : List (Post σ)) (title slug : String) :
    scoreOthers L others (.str title) (.str slug)
      = .ok (others.map fun p => (p, slug, score L p.title title)) := by
  unfold scoreOthers
  simp only [similarity_str, Json.dictKey_str]
  exact List.mapM_pure

/-- What the loop makes of a row. -/
def triple [Zero σ] (title slug : Json) (p : Post σ) : Post σ × String × σ :=
  (p, slug.dictKey.toOption.getD "", (similarity L (.str p.title) title).toOption.getD 0)

variable {L} in
/-- A loop that did not raise does not raise on rows with the same titles. -/
theorem scoreOthers_eq_ok [Zero σ] {rows : List (Post σ)} {title slug : Json}
    {scored : List (Post σ × String × σ)} (h : scoreOthers L rows title slug = .ok scored)
    {rows' : List (Post σ)} (hrows : rows'.map Post.title ⊆ rows.map Post.title) :
    scoreOthers L rows' title slug = .ok (rows'.map (triple L title slug)) := by
  refine mapM_of_ok fun q hq => ?_
  obtain ⟨p, hp, htitle⟩ := List.mem_map.mp (hrows (List.mem_map_of_mem hq))
  obtain ⟨y, hy⟩ := mapM_eq_ok h p hp
  obtain ⟨s, hs, hy⟩ := bind_eq_ok.mp hy
  obtain ⟨k, hk, -⟩ := bind_eq_ok.mp hy
  unfold triple
  rw [← htitle, hs, hk]
  rfl

variable {L} in
/-- What the loop returns is a triple for each row. -/
theorem eq_triples_of_ok [Zero σ] {rows : List (Post σ)} {title slug : Json}
    {scored : List (Post σ × String × σ)} (h : scoreOthers L rows title slug = .ok scored) :
    scored = rows.map (triple L title slug) :=
  Except.ok.inj (h.symm.trans (scoreOthers_eq_ok h (List.Subset.refl _)))

/-- The map of the post itself, from the triples. -/
theorem forwardRefs_map [Zero σ] (others : List (Post σ)) (title slug : String) :
    forwardRefs (others.map fun p => (p, slug, score L p.title title)) = scores L others title := by
  unfold forwardRefs scores
  rw [List.foldl_map]

/-- The columns of a row that a payload changes. -/
def Post.diff (p : PostPayload) (post : Post σ) : Columns where
  title := if post.title = p.title then none else some p.title
  image := if post.image = p.image then none else some p.image
  body := if post.body = p.body then none else some p.body
  slug := if post.slug = p.slug then none else some p.slug

/-- A column is unchanged when the value is the one it has. -/
theorem unchanged_optStr (column value : Option String) :
    unchanged column (optStr value) = decide (column = value) := by
  cases value <;> rfl

/-- The columns of a well-formed payload: those that differ. -/
theorem assignColumns_carries {payload : Json} {p : PostPayload} (h : Carries payload p)
    (post : Post σ) : assignColumns L post payload (.str p.title) = .ok (post.diff p) := by
  have hsend : L.send [.str p.title, optStr p.image, optStr p.body, .str p.slug] = .ok () :=
    send_str L _ (send_optStr L _ (send_optStr L _ (send_str L _ rfl)))
  unfold assignColumns Post.diff
  simp only [h.image, h.body, h.slug, hsend, bind, Except.bind, pure, Except.pure, textOf_str,
    textOf_optStr, notNull_some, unchanged_optStr, decide_eq_true_eq]
  simp only [unchanged, Option.some.injEq, decide_eq_true_eq]

variable {L} [Zero σ]

/-- `apply_created` of a well-formed payload. -/
theorem applyCreated_carries {payload : Json} {p : PostPayload} (h : Carries payload p)
    (rows : List (Post σ)) :
    applyCreated L rows payload = .ok (if (Keyed.lookup Post.id p.id rows).isSome then []
      else backRefs L (rows.map fun q => (q, p.slug, score L q.title p.title))
        ++ [.insert (createdRow L rows p)]) := by
  have hget : getPost rows (some p.id) = Keyed.lookup Post.id p.id rows := rfl
  have hsend : L.send [.int p.id, .str p.title, optStr p.image, optStr p.body, .str p.slug] = .ok () :=
    (send_int L p.id).trans
      (send_str L _ (send_optStr L _ (send_optStr L _ (send_str L _ rfl))))
  unfold applyCreated
  simp only [h.id, h.title, h.image, h.body, h.slug, bind, Except.bind, pure, Except.pure,
    sqlInt_int, textOf_str, textOf_optStr, notNull_some, newId, hget, scoreOthers_str,
    forwardRefs_map, sendNew_str L rows (some p.id) p.slug hsend]
  split <;> rfl

/-- `apply_updated` of a well-formed payload. -/
theorem applyUpdated_carries {payload : Json} {p : PostPayload} (h : Carries payload p)
    (rows : List (Post σ)) :
    applyUpdated L rows payload = match Keyed.lookup Post.id p.id rows with
      | none => applyCreated L rows payload
      | some post => .ok (assignChanges post.id (post.diff p) ++
          if strip p.title = strip post.title then []
          else backRefs L ((rows.filter fun q => q.id ≠ post.id).map fun q =>
              (q, p.slug, score L q.title p.title))
            ++ ownRefs L post (scores L (rows.filter fun q => q.id ≠ post.id) p.title)) := by
  have hget : getPost rows (some p.id) = Keyed.lookup Post.id p.id rows := rfl
  unfold applyUpdated
  simp only [h.id, h.title, h.slug, bind, Except.bind, pure, Except.pure, sqlInt_int, hget,
    scoreOthers_str, forwardRefs_map, Json.stripped_str, assignColumns_carries L h]
  cases Keyed.lookup Post.id p.id rows with
  | none => rfl
  | some post =>
    by_cases hstrip : strip p.title = strip post.title <;> simp [hstrip]

omit [Zero σ] in
/-- `apply_deleted` needs of its payload only the slug. -/
theorem applyDeleted_slug {payload : Json} {slug : String}
    (h : payload.item "slug" = .ok (.str slug)) (rows : List (Post σ)) :
    applyDeleted L rows payload = .ok (
      ((Keyed.lookup Post.slug slug rows).map fun p => Change.delete p.id).toList
        ++ ((rows.filter fun p => p.slug ≠ slug).filter fun p => (p.related.lookup slug).isSome).map
          fun p => .relate p.id (p.related.erase slug)) := by
  unfold applyDeleted askedKey
  simp only [h, bind, Except.bind, pure, Except.pure, sqlText_str, Json.stringKey_str,
    Option.bind_some, ne_eq, Option.some.injEq]
  cases rows.filter fun p => ¬ p.slug = slug <;> rfl

/-! ### What they make of the table -/

omit [Zero σ] in
theorem erase_of_lookup_none {related : RelatedMap σ} {slug : String}
    (h : related.lookup slug = none) : related.erase slug = related := by
  refine Finmap.ext_lookup fun key => ?_
  by_cases hkey : key = slug
  · rw [hkey, Finmap.lookup_erase, h]
  · exact Finmap.lookup_erase_ne hkey

omit [Zero σ] in
/-- Inserting an entry that is there changes nothing. -/
theorem insert_of_lookup {related : RelatedMap σ} {slug : String} {x : σ}
    (h : related.lookup slug = some x) : related.insert slug x = related := by
  refine Finmap.ext_lookup fun key => ?_
  by_cases hkey : key = slug
  · rw [hkey, Finmap.lookup_insert, h]
  · exact Finmap.lookup_insert_of_ne related hkey

variable (L) in
omit [Zero σ] in
theorem lacks_eq_false_iff {x : Post σ × String × σ} :
    lacks L x = false ↔ x.1.related.lookup x.2.1 = some x.2.2 := by
  unfold lacks
  rw [decide_eq_false_iff_not, not_not]

omit [Zero σ] in
/-- The loop over the other rows, as flushed: the entry is in their maps. -/
theorem flush_backRefs {rows : List (Post σ)} (hids : (rows.map Post.id).Nodup) (q : Post σ → Bool)
    (slug : String) (value : Post σ → σ) :
    flush rows (backRefs L ((rows.filter q).map fun p => (p, slug, value p)))
      = some (rows.map fun p => if q p then p.relate (p.related.insert slug (value p)) else p) := by
  let stale : Post σ → Bool := fun p => lacks L (p, slug, value p)
  have hback : backRefs L ((rows.filter q).map fun p => (p, slug, value p))
      = (rows.filter fun p => stale p && q p).map fun p =>
          .relate p.id (p.related.insert slug (value p)) := by
    unfold backRefs
    rw [List.filter_map, List.map_map, ← List.filter_filter]
    rfl
  rw [hback, flush_relate hids (fun p => stale p && q p) fun p => p.related.insert slug (value p)]
  refine congrArg some (List.map_congr_left fun p _ => ?_)
  by_cases hstale : stale p = true
  · rw [hstale, Bool.true_and]
  · -- the entry is there, and to put it there changes nothing
    have hentry : p.related.lookup slug = some (value p) :=
      (lacks_eq_false_iff L).mp (eq_false_of_ne_true hstale)
    have hsame : p.relate (p.related.insert slug (value p)) = p := by
      rw [insert_of_lookup hentry]
      rfl
    rw [if_neg (by simp [hstale]), hsame, ite_self]

omit [Zero σ] in
/-- The assignments, as flushed: the columns of the row are those of the payload. -/
theorem flush_assignChanges {rows : List (Post σ)} (hids : (rows.map Post.id).Nodup) {post : Post σ}
    (hpost : post ∈ rows) (p : PostPayload) :
    flush rows (assignChanges post.id (post.diff p))
      = some (Keyed.modify Post.id post.id (Post.assign p.title p.image p.body p.slug) rows) := by
  have hset : post.set (post.diff p) = post.assign p.title p.image p.body p.slug := by
    have hcolumn : ∀ {α : Type} [DecidableEq α] (x y : α),
        (if x = y then none else some y).getD x = y := by
      intro α _ x y
      split
      · assumption
      · rfl
    unfold Post.set Post.diff Post.assign
    simp only [hcolumn]
  unfold assignChanges
  split
  next hsame =>
    -- no column differs
    rw [hsame] at hset
    exact congrArg some (Keyed.modify_of_eq hids hpost hset.symm).symm
  · rw [flush_singleton, apply_assign (List.mem_map_of_mem hpost)]
    exact congrArg some (Keyed.modify_congr hids hpost hset)

omit [Zero σ] in
/-- The assignment of the map, as flushed. -/
theorem flush_ownRefs {rows : List (Post σ)} (hids : (rows.map Post.id).Nodup) {post row : Post σ}
    (hrow : row ∈ rows) (hid : row.id = post.id) (hrelated : row.related = post.related)
    (related : RelatedMap σ) :
    flush rows (ownRefs L post related)
      = some (Keyed.modify Post.id post.id (Post.relate related) rows) := by
  rw [← hid]
  unfold ownRefs
  split
  next hsame =>
    have hrelate : row.relate related = row := by
      rw [hsame, ← hrelated]
      rfl
    exact congrArg some (Keyed.modify_of_eq hids hrow hrelate).symm
  · rw [← hid, flush_singleton, apply_relate (List.mem_map_of_mem hrow)]

/-- **`apply_created` makes `created` of the table.** -/
theorem apply_created_spec {payload : Json} {p : PostPayload} (h : Carries payload p)
    {rows : List (Post σ)} (hids : (rows.map Post.id).Nodup) :
    ∃ cs, applyCreated L rows payload = .ok cs ∧ flush rows cs = some (created L rows p) := by
  refine ⟨_, applyCreated_carries h rows, ?_⟩
  unfold created
  split
  · rfl
  · have hloop := flush_backRefs (L := L) hids (fun _ => true) p.slug fun q => score L q.title p.title
    rw [List.filter_true] at hloop
    rw [flush_append, hloop]
    rfl

/-- **`apply_updated` makes `updated` of the table.** -/
theorem apply_updated_spec {payload : Json} {p : PostPayload} (h : Carries payload p)
    {rows : List (Post σ)} (hids : (rows.map Post.id).Nodup) :
    ∃ cs, applyUpdated L rows payload = .ok cs ∧ flush rows cs = some (updated L rows p) := by
  rw [applyUpdated_carries h rows]
  unfold updated
  cases hp : Keyed.lookup Post.id p.id rows with
  | none => exact apply_created_spec h hids
  | some post =>
    have hid : post.id = p.id := Keyed.lookup_key hp
    have hpost : post ∈ rows := Keyed.lookup_mem hp
    refine ⟨_, rfl, ?_⟩
    dsimp only
    rw [flush_append, flush_assignChanges hids hpost, Option.bind_some, hid]
    by_cases hstrip : strip p.title = strip post.title
    · rw [if_pos hstrip, if_pos hstrip]
      rfl
    · rw [if_neg hstrip, if_neg hstrip]
      -- the loop runs on the rows after the assignment, which changed no other row
      let assign : Post σ → Post σ := Post.assign p.title p.image p.body p.slug
      let refer : Post σ → Post σ := fun q =>
        if q.id ≠ p.id then q.relate (q.related.insert p.slug (score L q.title p.title)) else q
      let rows' := Keyed.modify Post.id p.id assign rows
      have hids' : rows'.map Post.id = rows.map Post.id :=
        Keyed.map_key_modify Post.id p.id (by intro _ h; exact h) rows
      have hothers : (rows'.filter fun q => q.id ≠ p.id) = rows.filter fun q => q.id ≠ p.id :=
        Keyed.filter_ne_modify Post.id (by intro _ h; exact h) rows
      have hloop := flush_backRefs (L := L) (hids' ▸ hids) (fun q => q.id ≠ p.id) p.slug
        fun q => score L q.title p.title
      simp only [decide_eq_true_eq] at hloop
      have hrefer : (rows'.map refer).map Post.id = rows.map Post.id := by
        rw [← hids', List.map_map]
        refine List.map_congr_left fun q _ => ?_
        by_cases hq : q.id = p.id <;> simp [refer, hq]
      have hrow : assign post ∈ rows'.map refer := by
        have hassigned : assign post ∈ rows' := List.mem_map.mpr ⟨post, hpost, if_pos hid⟩
        exact List.mem_map.mpr ⟨assign post, hassigned, if_neg (not_not.mpr hid)⟩
      have hown := flush_ownRefs (L := L) (hrefer ▸ hids) hrow rfl rfl
        (scores L (rows.filter fun q => q.id ≠ p.id) p.title)
      rw [show (assign post).id = p.id from hid] at hown
      rw [hothers] at hloop
      rw [flush_append, hloop, Option.bind_some]
      refine hown.trans ?_
      show some (((rows.map _).map refer).map _) = _
      rw [List.map_map, List.map_map]
      refine congrArg some (List.map_congr_left fun q _ => ?_)
      by_cases hq : q.id = p.id
      · simp [refer, assign, hq]
      · simp [refer, hq, Post.refer]

omit [Zero σ] in
/-- **`apply_deleted` makes `deleted` of the table.** -/
theorem apply_deleted_spec {payload : Json} {slug : String}
    (h : payload.item "slug" = .ok (.str slug)) {rows : List (Post σ)}
    (hids : (rows.map Post.id).Nodup) (hslugs : (rows.map Post.slug).Nodup) :
    ∃ cs, applyDeleted L rows payload = .ok cs ∧ flush rows cs = some (deleted rows slug) := by
  refine ⟨_, applyDeleted_slug h rows, ?_⟩
  let others := rows.filter fun q => q.slug ≠ slug
  have hgone : flush rows ((Keyed.lookup Post.slug slug rows).map fun q => Change.delete q.id).toList
      = some others := by
    cases hp : Keyed.lookup Post.slug slug rows with
    | none =>
      refine congrArg some (List.filter_eq_self.mpr fun q hq => ?_).symm
      simpa using Keyed.lookup_eq_none_iff.mp hp q hq
    | some post =>
      -- the loaded row is the only one with that slug, and the only one with its id
      have hpost := Keyed.lookup_mem hp
      have hslug : post.slug = slug := Keyed.lookup_key hp
      refine (flush_singleton rows _).trans (congrArg some (List.filter_congr fun q hq => ?_))
      have hsame : q.id = post.id ↔ q.slug = slug :=
        ⟨fun h => List.inj_on_of_nodup_map hids hq hpost h ▸ hslug,
          fun h => List.inj_on_of_nodup_map hslugs hq hpost (h.trans hslug.symm) ▸ rfl⟩
      simp only [ne_eq, hsame]
  have hloop := flush_relate (hids.sublist (List.filter_sublist.map _) : (others.map Post.id).Nodup)
    (fun q => (q.related.lookup slug).isSome) fun q => q.related.erase slug
  rw [flush_append, hgone, Option.bind_some, hloop]
  refine congrArg some (List.map_congr_left fun q _ => ?_)
  split
  · rfl
  · rename_i hslug
    rw [erase_of_lookup_none (Option.not_isSome_iff_eq_none.mp hslug)]
    rfl

/-! ## What a `handle` call does -/

/-- The id a relay has sent along is the event's id. -/
theorem eventIdFor_uuid {m : Message} {id : Postgres.Uuid}
    (h : m.headers = some [("event_id", id.1.toUTF8)]) : eventIdFor m = .ok id.1 := by
  have hsize : id.1.toUTF8.size ≠ 0 := fun hzero =>
    Postgres.uuid_ne_empty id (String.utf8ByteSize_eq_zero_iff.mp hzero)
  have hdecode : String.fromUTF8? id.1.toUTF8 = some id.1 := dif_pos id.1.isValidUTF8
  unfold eventIdFor
  rw [h]
  show (if id.1.toUTF8.size ≠ 0 then _ else _) = _
  rw [if_pos hsize, hdecode]
  rfl

/-- The event id is in `processed_events`. -/
def Db.Processed (db : Db σ) (event_id : String) : Prop :=
  ∃ e ∈ db.processed_events.1, e.event_id = event_id

/-- The message's event has been applied. -/
def Db.Applied (db : Db σ) (m : Message) : Prop :=
  ∃ event_id, eventIdFor m = .ok event_id ∧ db.Processed event_id

omit [Zero σ] in
/-- An id on record fits its column. -/
theorem Db.Processed.no_nul {db : Db σ} {event_id : String} (h : db.Processed event_id) :
    nul ∉ event_id.toList := by
  obtain ⟨e, he, rfl⟩ := h
  exact (db.processed_events.2.2 e he).2

omit [Zero σ] in
/-- No event is recorded under an id with a NUL. -/
theorem commit_of_nul {db : Db σ} {work : Work σ} {event : ProcessedEvent}
    (h : nul ∈ event.event_id.toList) : db.commit work event = none := by
  cases hcommit : db.commit work event with
  | none => rfl
  | some db' =>
    have hrows := (commit_eq_some hcommit).2
    have hfits := db'.processed_events.2.2 event (hrows ▸ List.mem_append_right _ (by simp))
    exact absurd h hfits.2

omit [Zero σ] in
/-- No error is answered `True`. -/
theorem recover_ne_true (e : PyErr) : recover e ≠ .returned true := by
  unfold recover
  split <;> simp

/-- A message whose event has been applied is passed over. -/
theorem handle_processed (now : Int) {db : Db σ} {m : Message} {event_id : String}
    (hid : eventIdFor m = .ok event_id) (hseen : db.Processed event_id) :
    handle L now db m .none = (db, .returned true) := by
  have hany : (db.processed_events.1.any fun e => e.event_id = event_id) = true := by
    simpa [Db.Processed] using hseen
  have hread : ¬ (Fault.none = Fault.read ∨ nul ∈ event_id.toList) := by
    rintro (hfault | hnul)
    · cases hfault
    · exact hseen.no_nul hnul
  unfold handle
  rw [hid]
  dsimp only
  rw [if_neg hread, if_pos hany]

/-- A message whose event is new, and whose handler has some work, comes down to the commit. -/
theorem handle_new {now : Int} {db : Db σ} {m : Message} {event_id : String} {work : Work σ}
    {slug : Json} (hid : eventIdFor m = .ok event_id) (hnew : ¬ db.Processed event_id)
    (hwork : HANDLERS L now db m.value m.topic = .ok work) (hslug : m.value.get "slug" = .ok slug) :
    handle L now db m .none =
      (db.commit work ⟨event_id, m.topic⟩).elim (db, .returned false) (·, .returned true) := by
  have hany : ¬ (db.processed_events.1.any fun e => e.event_id = event_id) = true := by
    simpa [Db.Processed] using hnew
  unfold handle
  rw [hid]
  dsimp only
  by_cases hnul : nul ∈ event_id.toList
  · -- the commit would not take it either
    rw [if_pos (.inr hnul), commit_of_nul hnul]
    rfl
  rw [if_neg (by simp [hnul]), if_neg hany, hwork]
  dsimp only
  rw [if_neg (by simp)]
  cases db.commit work ⟨event_id, m.topic⟩ with
  | none => rfl
  | some db' =>
    dsimp only
    rw [hslug]
    rfl

/-- **What a call can do.**  It finds the event applied and does nothing; or it fails and does
    nothing; or it commits the work of the handler together with the event id. -/
theorem handle_cases (now : Int) (db : Db σ) (m : Message) (fault : Fault) :
    (handle L now db m fault = (db, .returned true) ∧ db.Applied m) ∨
    (∃ reply, handle L now db m fault = (db, reply) ∧ reply ≠ .returned true) ∨
    (∃ event_id work db' reply, handle L now db m fault = (db', reply) ∧
      eventIdFor m = .ok event_id ∧ ¬ db.Processed event_id ∧
      HANDLERS L now db m.value m.topic = .ok work ∧
      db.commit work ⟨event_id, m.topic⟩ = some db' ∧ reply ≠ .returned false) := by
  unfold handle
  cases hid : eventIdFor m with
  | error e => exact .inr (.inl ⟨_, rfl, by simp⟩)
  | ok event_id =>
    dsimp only
    by_cases hread : fault = .read ∨ nul ∈ event_id.toList
    · rw [if_pos hread]
      exact .inr (.inl ⟨_, rfl, recover_ne_true _⟩)
    rw [if_neg hread]
    by_cases hseen : (db.processed_events.1.any fun e => e.event_id = event_id)
    · rw [if_pos hseen]
      exact .inl ⟨rfl, event_id, hid, by simpa [Db.Processed] using hseen⟩
    rw [if_neg hseen]
    have hnew : ¬ db.Processed event_id := by simpa [Db.Processed] using hseen
    cases hwork : HANDLERS L now db m.value m.topic with
    | error e => exact .inr (.inl ⟨_, rfl, recover_ne_true e⟩)
    | ok work =>
      dsimp only
      by_cases hwrite : fault = .write
      · rw [if_pos hwrite]
        exact .inr (.inl ⟨_, rfl, recover_ne_true _⟩)
      rw [if_neg hwrite]
      cases hcommit : db.commit work ⟨event_id, m.topic⟩ with
      | none => exact .inr (.inl ⟨_, rfl, recover_ne_true _⟩)
      | some db' =>
        refine .inr (.inr ⟨event_id, work, db', ?_⟩)
        -- the only way to fail after the commit is not to be a dict, and that is not caught
        cases m.value with
        | obj items => exact ⟨_, rfl, rfl, hnew, rfl, hcommit, by simp⟩
        | _ => exact ⟨_, rfl, rfl, hnew, rfl, hcommit, by simp [recover, caught]⟩

/-- A call that returns `True` leaves its event applied. -/
theorem handle_true {now : Int} {db db' : Db σ} {m : Message} {fault : Fault}
    (h : handle L now db m fault = (db', .returned true)) : db'.Applied m := by
  rcases handle_cases (L := L) now db m fault with ⟨h', ha⟩ | ⟨reply, h', hne⟩ |
    ⟨event_id, work, db'', reply, h', hid, -, -, hcommit, -⟩
  · obtain ⟨rfl, -⟩ := Prod.mk.inj (h'.symm.trans h)
    exact ha
  · exact absurd (Prod.mk.inj (h'.symm.trans h)).2 hne
  · obtain ⟨rfl, -⟩ := Prod.mk.inj (h'.symm.trans h)
    refine ⟨event_id, hid, ⟨event_id, m.topic⟩, ?_, rfl⟩
    rw [(commit_eq_some hcommit).2]
    exact List.mem_append_right _ List.mem_cons_self

/-- What has been applied stays applied. -/
theorem handle_applied {now : Int} {db : Db σ} {m : Message} {fault : Fault} {m' : Message}
    (h : db.Applied m') : (handle L now db m fault).1.Applied m' := by
  rcases handle_cases (L := L) now db m fault with ⟨h', -⟩ | ⟨reply, h', -⟩ |
    ⟨event_id, work, db', reply, h', -, -, -, hcommit, -⟩
  · rw [h']; exact h
  · rw [h']; exact h
  · obtain ⟨id, hid, e, he, heq⟩ := h
    rw [h']
    refine ⟨id, hid, e, ?_, heq⟩
    rw [(commit_eq_some hcommit).2]
    exact List.mem_append_left _ he

end DjangoFlaskKafka.Related
