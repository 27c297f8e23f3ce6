/-
  Two tables, one book — the posts of the posts service and their copy in the related service.

  Both tables are read as a BOOK (`Lib.Books`): under a post's id its slug as the label and the five
  copied columns as the record (`Related.PostPayload`).  Then

  * a transaction of the posts service is a writer's move (`Call.event`), which the outbox row it
    records TELLS (`Tells`);
  * each handler of the consumer plays the event it is told (`book_created`, `book_updated`,
    `book_deleted`), whatever the related maps say.

  The tables agree (`Mirrors`) when their books do.
-/
import DjangoFlaskKafka.Related.Consumer
import DjangoFlaskKafka.Posts.Views
import DjangoFlaskKafka.Lib.Books

namespace DjangoFlaskKafka.Sync

open Python Kafka Postgres Related Books

variable {σ : Type}

/-! ## The books -/

/-- The copied columns of a row of the posts service. -/
def content (p : Posts.Post) : PostPayload where
  id := p.id
  title := p.title.1
  image := some p.image.1
  body := some p.body.1
  slug := p.slug.1

/-- The same columns of a row of the related service. -/
def copied (p : Related.Post σ) : PostPayload where
  id := p.id
  title := p.title
  image := p.image
  body := p.body
  slug := p.slug

/-- The book of a list of contents. -/
def bookOf (cs : List PostPayload) : Book Int String PostPayload := fun i =>
  (Keyed.lookup PostPayload.id i cs).map fun p => (p.slug, p)

/-- The book of the posts table. -/
def source (rows : List Posts.Post) : Book Int String PostPayload := bookOf (rows.map content)

/-- The book of the related table. -/
def replica (rows : List (Related.Post σ)) : Book Int String PostPayload := bookOf (rows.map copied)

/-- The related table holds exactly the posts of the posts service, with equal id, slug, title, body
    and image. -/
def Mirrors (related : List (Related.Post σ)) (posts : List Posts.Post) : Prop :=
  (related.map copied).Perm (posts.map content)

/-- The ids of the contents are those of the rows. -/
theorem ids_content (rows : List Posts.Post) :
    (rows.map content).map PostPayload.id = rows.map Posts.Post.id := List.map_map

/-- The same of the copies. -/
theorem ids_copied (rows : List (Related.Post σ)) :
    (rows.map copied).map PostPayload.id = rows.map Related.Post.id := List.map_map

section BookOf

variable {cs cs' : List PostPayload}

/-- An entry is a content, under its id and with its slug. -/
theorem bookOf_eq_some_iff (hcs : (cs.map PostPayload.id).Nodup) {i : Int} {a : String}
    {p : PostPayload} : bookOf cs i = some (a, p) ↔ p ∈ cs ∧ p.id = i ∧ p.slug = a := by
  unfold bookOf
  rw [Option.map_eq_some_iff]
  constructor
  · rintro ⟨q, hq, heq⟩
    obtain ⟨rfl, rfl⟩ := Prod.mk.inj heq
    exact ⟨Keyed.lookup_mem hq, Keyed.lookup_key hq, rfl⟩
  · rintro ⟨hp, rfl, rfl⟩
    exact ⟨p, (Keyed.lookup_eq_some_iff hcs).mpr ⟨hp, rfl⟩, rfl⟩

/-- No entry where no content has the id. -/
theorem bookOf_eq_none_iff {i : Int} : bookOf cs i = none ↔ ∀ p ∈ cs, p.id ≠ i := by
  unfold bookOf
  rw [Option.map_eq_none_iff]
  exact Keyed.lookup_eq_none_iff

/-- **Equal books are equal contents.** -/
theorem bookOf_eq_iff (hcs : (cs.map PostPayload.id).Nodup) (hcs' : (cs'.map PostPayload.id).Nodup) :
    bookOf cs = bookOf cs' ↔ ∀ p, p ∈ cs ↔ p ∈ cs' := by
  constructor
  · intro h p
    have hiff : bookOf cs p.id = some (p.slug, p) ↔ bookOf cs' p.id = some (p.slug, p) := by rw [h]
    rw [bookOf_eq_some_iff hcs, bookOf_eq_some_iff hcs'] at hiff
    simpa using hiff
  · intro h
    funext i
    refine Option.ext fun x => ?_
    obtain ⟨a, p⟩ := x
    rw [bookOf_eq_some_iff hcs, bookOf_eq_some_iff hcs', h]

/-- **Unique labels are unique slugs.** -/
theorem unique_bookOf_iff (hcs : (cs.map PostPayload.id).Nodup) :
    Unique (bookOf cs) ↔ (cs.map PostPayload.slug).Nodup := by
  constructor
  · intro h
    refine List.Nodup.map_on (fun p hp q hq hslug => ?_) (List.Nodup.of_map _ hcs)
    refine List.inj_on_of_nodup_map hcs hp hq (h p.id q.id q.slug p q ?_ ?_)
    · exact (bookOf_eq_some_iff hcs).mpr ⟨hp, rfl, hslug⟩
    · exact (bookOf_eq_some_iff hcs).mpr ⟨hq, rfl, rfl⟩
  · intro h i j a p q hi hj
    obtain ⟨hp, rfl, hpa⟩ := (bookOf_eq_some_iff hcs).mp hi
    obtain ⟨hq, rfl, hqa⟩ := (bookOf_eq_some_iff hcs).mp hj
    rw [List.inj_on_of_nodup_map h hp hq (hpa.trans hqa.symm)]

/-- A new row at the end is a new entry. -/
theorem bookOf_append {p : PostPayload} (hp : ∀ q ∈ cs, q.id ≠ p.id) :
    bookOf (cs ++ [p]) = Function.update (bookOf cs) p.id (some (p.slug, p)) := by
  funext i
  unfold bookOf
  rw [Keyed.lookup_append]
  by_cases hi : i = p.id
  · subst hi
    rw [Function.update_self, Keyed.lookup_eq_none_iff.mpr hp]
    simp [Keyed.lookup_cons]
  · rw [Function.update_of_ne hi]
    have hnone : Keyed.lookup PostPayload.id i [p] = none := by
      simp [Keyed.lookup, Ne.symm hi]
    rw [hnone, Option.or_none]

/-- Writing over a row writes over its entry. -/
theorem bookOf_modify {p : PostPayload} (hp : ∃ q ∈ cs, q.id = p.id) :
    bookOf (Keyed.modify PostPayload.id p.id (fun _ => p) cs)
      = Function.update (bookOf cs) p.id (some (p.slug, p)) := by
  obtain ⟨q, hq, hqid⟩ := hp
  funext i
  unfold bookOf
  rw [Keyed.lookup_modify (fun _ _ => rfl)]
  by_cases hi : i = p.id
  · subst hi
    rw [if_pos rfl, Function.update_self]
    cases hrow : Keyed.lookup PostPayload.id p.id cs with
    | none => exact absurd hqid (Keyed.lookup_eq_none_iff.mp hrow q hq)
    | some _ => rfl
  · rw [if_neg hi, Function.update_of_ne hi]

/-- Striking rows out strikes their entries out. -/
theorem bookOf_filter (hcs : (cs.map PostPayload.id).Nodup) (q : PostPayload → Bool) (i : Int) :
    bookOf (cs.filter q) i = (bookOf cs i).filter fun e => q e.2 := by
  unfold bookOf
  rw [Keyed.lookup_filter hcs]
  cases Keyed.lookup PostPayload.id i cs with
  | none => rfl
  | some p => by_cases hp : q p <;> simp [Option.filter, hp]

end BookOf

/-- **The tables agree when their books do.** -/
theorem mirrors_iff {related : List (Related.Post σ)} {posts : List Posts.Post}
    (hrelated : (related.map Related.Post.id).Nodup) (hposts : (posts.map Posts.Post.id).Nodup) :
    Mirrors related posts ↔ replica related = source posts := by
  rw [← ids_copied] at hrelated
  rw [← ids_content] at hposts
  exact (List.perm_ext_iff_of_nodup (.of_map _ hrelated) (.of_map _ hposts)).trans
    (bookOf_eq_iff hrelated hposts).symm

/-! ## The writer: transactions of the posts service -/

/-- What the outbox row of a transaction is going to tell. -/
def told (nextId : Int) : Posts.Call → Event Int String PostPayload
  | .create data =>
    let p := content (data.create nextId)
    .offer p.id p.slug p
  | .update post data =>
    let p := content (data.update post)
    .put p.id p.slug p
  | .destroy post => .drop post.slug.1

/-- The texts of a payload fit the columns they are copied into. -/
structure Sendable (p : PostPayload) : Prop where
  title : Varchar 200 p.title
  image : ∀ s ∈ p.image, Varchar 250 s
  body : ∀ s ∈ p.body, Varchar 1500 s
  slug : Varchar 200 p.slug

/-- What an outbox row tells its readers. -/
inductive Tells : Posts.OutboxEvent → Event Int String PostPayload → Prop
  | created {e : Posts.OutboxEvent} {p : PostPayload} : e.topic = .postCreated → e.key.1 = p.slug →
      Carries e.payload p → Sendable p → Tells e (.offer p.id p.slug p)
  | updated {e : Posts.OutboxEvent} {p : PostPayload} : e.topic = .postUpdated → e.key.1 = p.slug →
      Carries e.payload p → Sendable p → Tells e (.put p.id p.slug p)
  | deleted {e : Posts.OutboxEvent} {slug : String} : e.topic = .postDeleted → e.key.1 = slug →
      e.payload.item "slug" = .ok (.str slug) → Tells e (.drop slug)

/-- The event names the post id `k`. -/
def About (e : Posts.OutboxEvent) (k : Int) : Prop := e.payload.item "id" = .ok (.int k)

/-- Lists related element by element, at one position. -/
theorem exists_getElem?_of_forall₂ {α β : Type} {R : α → β → Prop} {l : List α} {l' : List β}
    (h : List.Forall₂ R l l') {i : Nat} {a : α} (ha : l[i]? = some a) :
    ∃ b, l'[i]? = some b ∧ R a b := by
  induction h generalizing i with
  | nil => exact absurd ha (by simp)
  | @cons a' b' l l' hab _ ih =>
    cases i with
    | zero =>
      obtain rfl := Option.some.inj ha
      exact ⟨b', rfl, hab⟩
    | succ i => exact ih ha

/-- The representation of a post carries its content. -/
theorem carries_data (p : Posts.Post) : Carries p.data (content p) where
  id := rfl
  title := rfl
  image := rfl
  body := rfl
  slug := rfl

/-- The columns of the posts service are no wider than those they are copied into. -/
theorem sendable_content (p : Posts.Post) : Sendable (content p) where
  title := p.title.2
  image _ hs := Option.some.inj hs ▸ p.image.2
  body _ hs := Option.some.inj hs ▸ p.body.2
  slug := p.slug.2

/-- **Every outbox row tells what its transaction was going to do.** -/
theorem tells_write (now : Int) (id : Uuid) (nextId : Int) (rows : List Posts.Post)
    (call : Posts.Call) :
    let w := call.write nextId rows
    Tells (Posts.recordEvent now id w.topic w.key w.payload) (told nextId call) := by
  cases call with
  | create data => exact .created rfl rfl (carries_data _) (sendable_content _)
  | update post data => exact .updated rfl rfl (carries_data _) (sendable_content _)
  | destroy post => exact .deleted rfl rfl rfl

section Source

variable {rows : List Posts.Post} {nextId : Int}

/-- Inserting a row with a fresh id is an offer. -/
theorem source_create (hfresh : ∀ p ∈ rows, p.id ≠ nextId) (data : Posts.Validated) :
    source ((Posts.Call.create data).write nextId rows).rows
      = play (source rows) (told nextId (.create data)) := by
  let p := content (data.create nextId)
  have hnew : ∀ q ∈ rows.map content, q.id ≠ p.id := by
    intro q hq
    obtain ⟨r, hr, rfl⟩ := List.mem_map.mp hq
    exact hfresh r hr
  show bookOf ((rows ++ [data.create nextId]).map content) = play _ (.offer p.id p.slug p)
  have hnone : source rows p.id = none := bookOf_eq_none_iff.mpr hnew
  rw [play_offer_of_none hnone, List.map_append]
  exact bookOf_append hnew

/-- Saving a row, also one that is gone, is a put. -/
theorem source_update (post : Posts.Post) (data : Posts.Validated) :
    source ((Posts.Call.update post data).write nextId rows).rows
      = play (source rows) (told nextId (.update post data)) := by
  let q := data.update post
  let p := content q
  show bookOf ((Posts.save q rows).map content) = play _ (.put p.id p.slug p)
  rw [play_put]
  unfold Posts.save
  by_cases hq : (Keyed.lookup Posts.Post.id q.id rows).isSome
  · have hsaved : (Keyed.modify Posts.Post.id q.id (fun _ => q) rows).map content
        = Keyed.modify PostPayload.id p.id (fun _ => p) (rows.map content) :=
      Keyed.map_modify Posts.Post.id PostPayload.id (fun _ => rfl) q.id fun _ _ _ => rfl
    rw [if_pos hq, hsaved]
    obtain ⟨r, hr, hrid⟩ := Keyed.lookup_isSome_iff.mp hq
    exact bookOf_modify ⟨content r, List.mem_map_of_mem hr, hrid⟩
  · rw [if_neg hq, List.map_append]
    refine bookOf_append fun r hr => ?_
    obtain ⟨r', hr', rfl⟩ := List.mem_map.mp hr
    exact fun hid => hq (Keyed.lookup_isSome_iff.mpr ⟨r', hr', hid⟩)

/-- **Deleting a row is a drop of its loaded slug exactly when, in the table it runs on, the loaded
    id and the loaded slug name the same rows.** -/
theorem source_destroy (hrows : Posts.PostConstraints rows) (post : Posts.Post) :
    source ((Posts.Call.destroy post).write nextId rows).rows
        = play (source rows) (told nextId (.destroy post))
      ↔ ∀ q ∈ rows, q.id = post.id ↔ q.slug = post.slug := by
  have hids : ((rows.map content).map PostPayload.id).Nodup := ids_content rows ▸ hrows.ids
  have hleft : source ((Posts.Call.destroy post).write nextId rows).rows
      = bookOf ((rows.map content).filter fun p => p.id ≠ post.id) := by
    show bookOf ((rows.filter _).map content) = _
    rw [List.filter_map]
    rfl
  have hright : play (source rows) (told nextId (.destroy post))
      = bookOf ((rows.map content).filter fun p => p.slug ≠ post.slug.1) := by
    funext i
    rw [bookOf_filter hids]
    show (bookOf (rows.map content) i).filter _ = _
    cases h : bookOf (rows.map content) i with
    | none => rfl
    | some x =>
      obtain ⟨-, -, hlabel⟩ := (bookOf_eq_some_iff hids).mp h
      simp only [Option.filter, hlabel]
  rw [hleft, hright, bookOf_eq_iff (hids.sublist (List.filter_sublist.map _))
    (hids.sublist (List.filter_sublist.map _))]
  constructor
  · intro h q hq
    have hiff := h (content q)
    simp only [List.mem_filter, List.mem_map_of_mem hq, true_and, decide_eq_true_eq] at hiff
    have hiff' : q.id ≠ post.id ↔ q.slug.1 ≠ post.slug.1 := hiff
    rw [Subtype.ext_iff]
    exact not_iff_not.mp hiff'
  · intro h p
    rw [List.mem_filter, List.mem_filter]
    refine and_congr_right fun hp => ?_
    obtain ⟨q, hq, rfl⟩ := List.mem_map.mp hp
    have hiff := h q hq
    rw [Subtype.ext_iff] at hiff
    simp only [decide_eq_true_eq, ne_eq]
    exact not_congr hiff

end Source

/-! ## The reader: the handlers of the related consumer -/

/-- What an event makes of the related table. -/
def played [Zero σ] (L : Libs σ) (rows : List (Related.Post σ)) :
    Event Int String PostPayload → List (Related.Post σ)
  | .offer _ _ p => created L rows p
  | .put _ _ p => updated L rows p
  | .drop slug => deleted rows slug

/-- The changes the event's handler makes to the rows. -/
def changesFor [Zero σ] (L : Libs σ) (rows : List (Related.Post σ)) (e : Posts.OutboxEvent) :
    Except PyErr (List (Change σ)) :=
  match e.topic with
  | .postCreated => applyCreated L rows e.payload
  | .postUpdated => applyUpdated L rows e.payload
  | .postDeleted => applyDeleted L rows e.payload
  | .tokenRevoked => .ok []

/-- The handlers over one outbox row: the rows afterwards, or `none` when it raises. -/
def applyEvent [Zero σ] (L : Libs σ) (rows : List (Related.Post σ)) (e : Posts.OutboxEvent) :
    Option (List (Related.Post σ)) :=
  (changesFor L rows e).toOption.bind (flush rows)

/-- The handlers over outbox rows, one after another. -/
def applyEvents [Zero σ] (L : Libs σ) (rows : List (Related.Post σ)) (es : List Posts.OutboxEvent) :
    Option (List (Related.Post σ)) :=
  es.foldlM (applyEvent L) rows

section Reader

variable [Zero σ] (L : Libs σ) {rows : List (Related.Post σ)}

omit [Zero σ] in
theorem copied_map_relate (f : Related.Post σ → RelatedMap σ) (rows : List (Related.Post σ)) :
    (rows.map fun p => p.relate (f p)).map copied = rows.map copied := by
  rw [List.map_map]
  rfl

/-- `created`, in contents. -/
theorem copied_created (rows : List (Related.Post σ)) (p : PostPayload) :
    (created L rows p).map copied
      = if (Keyed.lookup Related.Post.id p.id rows).isSome then rows.map copied
        else rows.map copied ++ [p] := by
  unfold created
  split
  · rfl
  · rw [List.map_append]
    exact congrArg (· ++ [p]) (copied_map_relate _ rows)

/-- `updated`, in contents. -/
theorem copied_updated (rows : List (Related.Post σ)) (p : PostPayload) :
    (updated L rows p).map copied
      = if (Keyed.lookup Related.Post.id p.id rows).isSome
        then Keyed.modify PostPayload.id p.id (fun _ => p) (rows.map copied)
        else rows.map copied ++ [p] := by
  unfold updated
  cases hp : Keyed.lookup Related.Post.id p.id rows with
  | none => exact (copied_created L rows p).trans (by simp [hp])
  | some post =>
    dsimp only
    rw [Option.isSome_some, if_pos rfl]
    -- in both branches the row with the id becomes `p`, and the others keep their contents
    have hmodify : (Keyed.modify Related.Post.id p.id (Post.assign p.title p.image p.body p.slug)
          rows).map copied
        = Keyed.modify PostPayload.id p.id (fun _ => p) (rows.map copied) := by
      refine Keyed.map_modify Related.Post.id PostPayload.id (fun _ => rfl) p.id fun q _ hq => ?_
      show PostPayload.mk q.id p.title p.image p.body p.slug = p
      rw [hq]
    split
    · exact hmodify
    · rw [← hmodify]
      unfold Keyed.modify
      rw [List.map_map, List.map_map]
      refine List.map_congr_left fun q _ => ?_
      by_cases hq : q.id = p.id
      · simp only [Function.comp_apply, hq, if_true]
        rfl
      · simp only [Function.comp_apply, hq, if_false]
        rfl

omit [Zero σ] in
/-- `deleted`, in contents. -/
theorem copied_deleted (rows : List (Related.Post σ)) (slug : String) :
    (deleted rows slug).map copied = (rows.map copied).filter fun p => p.slug ≠ slug := by
  unfold deleted
  rw [copied_map_relate, List.filter_map]
  rfl

/-- **Each handler plays the event it is told.** -/
theorem replica_played (hids : (rows.map Related.Post.id).Nodup) {e : Posts.OutboxEvent}
    {ev : Event Int String PostPayload} (h : Tells e ev) :
    replica (played L rows ev) = play (replica rows) ev := by
  have hnew : ∀ p : PostPayload, ¬ (Keyed.lookup Related.Post.id p.id rows).isSome →
      ∀ q ∈ rows.map copied, q.id ≠ p.id := by
    intro p hp q hq hid
    obtain ⟨r, hr, rfl⟩ := List.mem_map.mp hq
    exact hp (Keyed.lookup_isSome_iff.mpr ⟨r, hr, hid⟩)
  have hold : ∀ p : PostPayload, (Keyed.lookup Related.Post.id p.id rows).isSome →
      ∃ q ∈ rows.map copied, q.id = p.id := by
    intro p hp
    obtain ⟨r, hr, hid⟩ := Keyed.lookup_isSome_iff.mp hp
    exact ⟨copied r, List.mem_map_of_mem hr, hid⟩
  cases h with
  | @created p =>
    show bookOf ((created L rows p).map copied) = _
    rw [copied_created]
    by_cases hp : (Keyed.lookup Related.Post.id p.id rows).isSome
    -- an event about a post that is there changes nothing
    · have hsome : (replica rows p.id).isSome := by
        rw [Option.isSome_iff_ne_none, Ne, show replica rows p.id = bookOf _ p.id from rfl,
          bookOf_eq_none_iff]
        intro hall
        obtain ⟨q, hq, hid⟩ := hold p hp
        exact hall q hq hid
      rw [if_pos hp, play_offer_of_isSome hsome]
      rfl
    · have hnone : replica rows p.id = none := bookOf_eq_none_iff.mpr (hnew p hp)
      rw [if_neg hp, play_offer_of_none hnone]
      exact bookOf_append (hnew p hp)
  | @updated p =>
    show bookOf ((updated L rows p).map copied) = _
    rw [copied_updated, play_put]
    by_cases hp : (Keyed.lookup Related.Post.id p.id rows).isSome
    · rw [if_pos hp]
      exact bookOf_modify (hold p hp)
    · rw [if_neg hp]
      exact bookOf_append (hnew p hp)
  | @deleted slug =>
    have hids' : ((rows.map copied).map PostPayload.id).Nodup := ids_copied rows ▸ hids
    show bookOf ((deleted rows slug).map copied) = _
    rw [copied_deleted]
    funext i
    -- a post has one slug, so what has another is kept
    rw [bookOf_filter hids']
    show _ = (bookOf (rows.map copied) i).filter _
    cases h : bookOf (rows.map copied) i with
    | none => rfl
    | some x =>
      obtain ⟨-, -, hlabel⟩ := (bookOf_eq_some_iff hids').mp h
      simp only [Option.filter, hlabel]

/-- The handler does not raise on an outbox row that tells something, and makes `played` of the
    table. -/
theorem changesFor_spec (hids : (rows.map Related.Post.id).Nodup)
    (hslugs : (rows.map Related.Post.slug).Nodup) {e : Posts.OutboxEvent}
    {ev : Event Int String PostPayload} (h : Tells e ev) :
    ∃ cs, changesFor L rows e = .ok cs ∧ flush rows cs = some (played L rows ev) := by
  cases h with
  | created htopic _ hcarries _ =>
    unfold changesFor
    rw [htopic]
    exact apply_created_spec hcarries hids
  | updated htopic _ hcarries _ =>
    unfold changesFor
    rw [htopic]
    exact apply_updated_spec hcarries hids
  | deleted htopic _ hslug =>
    unfold changesFor
    rw [htopic]
    exact apply_deleted_spec hslug hids hslugs

theorem applyEvent_spec (hids : (rows.map Related.Post.id).Nodup)
    (hslugs : (rows.map Related.Post.slug).Nodup) {e : Posts.OutboxEvent}
    {ev : Event Int String PostPayload} (h : Tells e ev) :
    applyEvent L rows e = some (played L rows ev) := by
  obtain ⟨cs, hcs, hflush⟩ := changesFor_spec L hids hslugs h
  unfold applyEvent
  rw [hcs]
  exact hflush

/-- One more outbox row. -/
theorem applyEvents_concat {rows rows' rows'' : List (Related.Post σ)} {es : List Posts.OutboxEvent}
    {e : Posts.OutboxEvent} (h : applyEvents L rows es = some rows')
    (he : applyEvent L rows' e = some rows'') : applyEvents L rows (es ++ [e]) = some rows'' := by
  unfold applyEvents at h ⊢
  rw [List.foldlM_append, h]
  show (applyEvent L rows' e).bind some = _
  rw [he]
  rfl

/-- The ids stay unique. -/
theorem ids_played (hids : (rows.map Related.Post.id).Nodup) {e : Posts.OutboxEvent}
    {ev : Event Int String PostPayload} (h : Tells e ev) :
    ((played L rows ev).map Related.Post.id).Nodup := by
  cases h with
  | @created p => exact ids_created L hids p
  | @updated p => exact ids_updated L hids p
  | @deleted slug => exact ids_deleted hids slug

end Reader

/-! ## Deliveries to `handle` -/

/-- The record that the relay makes of an outbox row, as a consumer receives it: the payload, and
    the row's id in the `event_id` header. -/
def message (e : Posts.OutboxEvent) (partition offset : Nat) : Message where
  topic := e.topic
  partition := partition
  offset := offset
  headers := some [("event_id", e.id.1.toUTF8)]
  value := e.payload

/-- `handle`, called with one message after another: the database afterwards, and the replies. -/
def handleAll [Zero σ] (L : Libs σ) (db : Related.Db σ) :
    List (Int × Message) → Related.Db σ × List Reply
  | [] => (db, [])
  | (now, m) :: ms =>
    let (db', reply) := handle L now db m .none
    let (db'', replies) := handleAll L db' ms
    (db'', reply :: replies)

theorem handleAll_append [Zero σ] (L : Libs σ) (db : Related.Db σ) (ms ms' : List (Int × Message)) :
    handleAll L db (ms ++ ms') = ((handleAll L (handleAll L db ms).1 ms').1,
      (handleAll L db ms).2 ++ (handleAll L (handleAll L db ms).1 ms').2) := by
  induction ms generalizing db with
  | nil => rfl
  | cons m ms ih =>
    show ((handleAll L _ (ms ++ ms')).1, _ :: (handleAll L _ (ms ++ ms')).2) = _
    rw [ih]
    rfl

/-- The key of the event fits the replica's id column. -/
def InRange : Event Int String PostPayload → Prop
  | .offer i _ _ => InInteger i
  | .put i _ _ => InInteger i
  | .drop _ => True

/-- An id in range is one the copy can take. -/
theorem inRange_of_about {e : Posts.OutboxEvent} {ev : Event Int String PostPayload}
    (h : Tells e ev) (hids : ∀ k, About e k → InInteger k) : InRange ev := by
  cases h with
  | created _ _ hcarries _ => exact hids _ hcarries.id
  | updated _ _ hcarries _ => exact hids _ hcarries.id
  | deleted _ _ _ => trivial

/-- The event id is the id of the outbox row. -/
theorem eventIdFor_message (e : Posts.OutboxEvent) (partition offset : Nat) :
    eventIdFor (message e partition offset) = .ok e.id.1 :=
  eventIdFor_uuid rfl

/-- A payload that can be indexed is a dict. -/
theorem get_of_item {payload v : Json} {key : String} (h : payload.item key = .ok v)
    (key' : String) : ∃ v', payload.get key' = .ok v' := by
  cases payload with
  | obj items => exact ⟨_, rfl⟩
  | _ => cases h

theorem item_slug {e : Posts.OutboxEvent} {ev : Event Int String PostPayload} (h : Tells e ev) :
    ∃ slug, e.payload.item "slug" = .ok (.str slug) := by
  cases h with
  | created _ _ hcarries _ => exact ⟨_, hcarries.slug⟩
  | updated _ _ hcarries _ => exact ⟨_, hcarries.slug⟩
  | deleted _ _ hslug => exact ⟨_, hslug⟩

section Handle

variable [Zero σ] (L : Libs σ) {e : Posts.OutboxEvent} {ev : Event Int String PostPayload}

theorem handlers_message (h : Tells e ev) (now : Int) (db : Related.Db σ) :
    HANDLERS L now db e.payload e.topic = (changesFor L db.post.1 e).map fun cs => ⟨cs, none⟩ := by
  unfold changesFor
  cases h with
  | created htopic _ _ _ => rw [htopic]; rfl
  | updated htopic _ _ _ => rw [htopic]; rfl
  | deleted htopic _ _ => rw [htopic]; rfl

/-- The rows of the table after an event fit their columns if the event's id does. -/
theorem fits_played (h : Tells e ev) (hrange : InRange ev) {rows : List (Related.Post σ)}
    (hfits : ∀ p ∈ rows, p.Fits) : ∀ p ∈ played L rows ev, p.Fits := by
  have hof : ∀ (p : Related.Post σ) (c : PostPayload), Sendable c → InInteger c.id →
      copied p = c → p.Fits := by
    rintro p c hc hid rfl
    exact ⟨hid, hc.title, hc.image, hc.body, ⟨Nat.le_trans hc.slug.1 (by omega), hc.slug.2⟩⟩
  have hkept : ∀ p q : Related.Post σ, q.Fits → copied p = copied q → p.Fits := by
    intro p q hq hpq
    obtain ⟨hid, htitle, himage, hbody, hslug⟩ := PostPayload.mk.inj hpq
    exact ⟨hid ▸ hq.id, htitle ▸ hq.title, himage ▸ hq.image, hbody ▸ hq.body, hslug ▸ hq.slug⟩
  -- every row of the new table has the contents of the event or of an old row
  have hcopied : ∀ p ∈ played L rows ev, (∃ q ∈ rows, copied p = copied q) ∨
      ∃ c, Sendable c ∧ InInteger c.id ∧ copied p = c := by
    intro p hp
    have hin := List.mem_map_of_mem (f := copied) hp
    have hold : ∀ l, copied p ∈ l → l = rows.map copied → ∃ q ∈ rows, copied p = copied q := by
      rintro l hl rfl
      obtain ⟨q, hq, heq⟩ := List.mem_map.mp hl
      exact ⟨q, hq, heq.symm⟩
    cases h with
    | @created c _ _ _ hsend =>
      have heq : (played L rows (.offer c.id c.slug c)).map copied = _ := copied_created L rows c
      rw [heq] at hin
      split at hin
      · exact .inl (hold _ hin rfl)
      · rcases List.mem_append.mp hin with hin | hin
        · exact .inl (hold _ hin rfl)
        · exact .inr ⟨c, hsend, hrange, List.mem_singleton.mp hin⟩
    | @updated c _ _ _ hsend =>
      have heq : (played L rows (.put c.id c.slug c)).map copied = _ := copied_updated L rows c
      rw [heq] at hin
      split at hin
      · obtain ⟨q, hq, hqp⟩ := List.mem_map.mp hin
        dsimp only at hqp
        split at hqp
        · exact .inr ⟨c, hsend, hrange, hqp.symm⟩
        · exact .inl (hold _ (hqp ▸ hq) rfl)
      · rcases List.mem_append.mp hin with hin | hin
        · exact .inl (hold _ hin rfl)
        · exact .inr ⟨c, hsend, hrange, List.mem_singleton.mp hin⟩
    | @deleted slug _ _ _ =>
      have heq : (played L rows (.drop slug)).map copied = _ := copied_deleted rows slug
      rw [heq] at hin
      exact .inl (hold _ (List.mem_filter.mp hin).1 rfl)
  intro p hp
  rcases hcopied p hp with ⟨q, hq, heq⟩ | ⟨c, hsend, hid, heq⟩
  · exact hkept p q (hfits q hq) heq
  · exact hof p c hsend hid heq

omit [Zero σ] in
/-- The slugs are unique exactly when the labels are. -/
theorem slugs_iff {rows : List (Related.Post σ)} (hids : (rows.map Related.Post.id).Nodup) :
    (rows.map Related.Post.slug).Nodup ↔ Unique (replica rows) := by
  have hslugs : rows.map Related.Post.slug = (rows.map copied).map PostPayload.slug := by
    rw [List.map_map]
    rfl
  rw [hslugs]
  exact (unique_bookOf_iff (ids_copied rows ▸ hids)).symm

/-- An event enters its own id. -/
theorem exists_played (h : Tells e ev) (rows : List (Related.Post σ)) {k : Int} {a : String}
    (hw : ev.Writes k a) : ∃ p ∈ played L rows ev, p.id = k := by
  have hof : ∀ (c : PostPayload) (rows' : List (Related.Post σ)), c ∈ rows'.map copied →
      ∃ p ∈ rows', p.id = c.id := by
    intro c rows' hc
    obtain ⟨p, hp, rfl⟩ := List.mem_map.mp hc
    exact ⟨p, hp, rfl⟩
  cases h with
  | @created c =>
    obtain ⟨rfl, -⟩ := hw
    by_cases hold : (Keyed.lookup Related.Post.id c.id rows).isSome
    · obtain ⟨p, hp, hid⟩ := Keyed.lookup_isSome_iff.mp hold
      refine hid ▸ hof (copied p) (created L rows c) ?_
      rw [copied_created, if_pos hold]
      exact List.mem_map_of_mem hp
    · refine hof c (created L rows c) ?_
      rw [copied_created, if_neg hold]
      exact List.mem_append_right _ List.mem_cons_self
  | @updated c =>
    obtain ⟨rfl, -⟩ := hw
    refine hof c (updated L rows c) ?_
    rw [copied_updated]
    split
    · rename_i hold
      obtain ⟨p, hp, hid⟩ := Keyed.lookup_isSome_iff.mp hold
      exact List.mem_map.mpr ⟨copied p, List.mem_map_of_mem hp, if_pos hid⟩
    · exact List.mem_append_right _ List.mem_cons_self
  | deleted _ _ _ => exact hw.elim

/-- **When the table that an event makes satisfies its constraints**: no slug twice, and the id
    fits. -/
theorem constraints_played_iff (h : Tells e ev) {rows : List (Related.Post σ)}
    (hrows : Related.PostConstraints rows) :
    Related.PostConstraints (played L rows ev) ↔ Unique (play (replica rows) ev) ∧ InRange ev := by
  have hids := ids_played L hrows.ids h
  rw [← replica_played L hrows.ids h, ← slugs_iff hids]
  constructor
  · intro hplayed
    refine ⟨hplayed.slugs, ?_⟩
    have hfits : ∀ k a, ev.Writes k a → InInteger k := by
      intro k a hw
      obtain ⟨p, hp, rfl⟩ := exists_played L h rows hw
      exact (hplayed.fits p hp).id
    cases ev with
    | offer k a r => exact hfits k a ⟨rfl, rfl⟩
    | put k a r => exact hfits k a ⟨rfl, rfl⟩
    | drop a => trivial
  · rintro ⟨hslugs, hrange⟩
    exact ⟨hids, hslugs, fits_played L h hrange hrows.fits⟩

/-- A redelivery is answered `True`, and changes nothing. -/
theorem handle_seen (now : Int) {db : Related.Db σ} (partition offset : Nat)
    (hseen : db.Processed e.id.1) :
    handle L now db (message e partition offset) .none = (db, .returned true) :=
  handle_processed now (eventIdFor_message e partition offset) hseen

/-- A first delivery runs the handler and commits. -/
theorem handle_first (h : Tells e ev) (now : Int) {db : Related.Db σ} (partition offset : Nat)
    (hnew : ¬ db.Processed e.id.1) :
    ∃ cs, flush db.post.1 cs = some (played L db.post.1 ev) ∧
      handle L now db (message e partition offset) .none
        = (db.commit ⟨cs, none⟩ ⟨e.id.1, e.topic⟩).elim (db, .returned false) (·, .returned true) := by
  obtain ⟨cs, hcs, hflush⟩ := changesFor_spec L db.post.2.ids db.post.2.slugs h
  refine ⟨cs, hflush, ?_⟩
  have hwork : HANDLERS L now db e.payload e.topic = .ok ⟨cs, none⟩ := by
    rw [handlers_message L h, hcs]
    rfl
  obtain ⟨slug, hslug⟩ := item_slug h
  obtain ⟨v, hv⟩ := get_of_item hslug "slug"
  exact handle_new (eventIdFor_message e partition offset) hnew hwork hv

/-- **An event is applied** at its first delivery if it meets no slug twice and its id fits. -/
theorem handle_applies (h : Tells e ev) (now : Int) {db : Related.Db σ} (partition offset : Nat)
    (hnew : ¬ db.Processed e.id.1) (hok : Unique (play (replica db.post.1) ev) ∧ InRange ev) :
    ∃ db', handle L now db (message e partition offset) .none = (db', .returned true) ∧
      db'.post.1 = played L db.post.1 ev ∧
      db'.processed_events.1 = db.processed_events.1 ++ [⟨e.id.1, e.topic⟩] := by
  obtain ⟨cs, hflush, hhandle⟩ := handle_first L h now partition offset hnew
  have hconstraints := (constraints_played_iff L h db.post.2).mpr hok
  have hfits : Varchar 64 (ProcessedEvent.mk e.id.1 e.topic).event_id := varchar_uuid e.id
  obtain ⟨db', hcommit, hpost⟩ := commit_post hflush hconstraints
    (fun x hx heq => hnew ⟨x, hx, heq⟩) hfits
  refine ⟨db', ?_, hpost, (Related.commit_eq_some hcommit).2⟩
  rw [hhandle, hcommit]
  rfl

/-- **An event is refused** at its first delivery otherwise. -/
theorem handle_refuses (h : Tells e ev) (now : Int) {db : Related.Db σ} (partition offset : Nat)
    (hnew : ¬ db.Processed e.id.1) (hbad : ¬ (Unique (play (replica db.post.1) ev) ∧ InRange ev)) :
    handle L now db (message e partition offset) .none = (db, .returned false) := by
  obtain ⟨cs, hflush, hhandle⟩ := handle_first L h now partition offset hnew
  have hcommit : db.commit ⟨cs, none⟩ ⟨e.id.1, e.topic⟩ = none := by
    unfold Related.Db.commit
    rw [← constraints_played_iff L h db.post.2] at hbad
    rw [hflush, Option.bind_eq_bind, Option.bind_some, checked_of_not hbad]
    rfl
  rw [hhandle, hcommit]
  rfl

end Handle

end DjangoFlaskKafka.Sync
