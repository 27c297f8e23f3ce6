/-
  Scaling — several consumers of the related service at work at the same time.

  1. **Program** — `handle`, cut where other instances can get between: what a call READS of the
     committed rows (`reads`: the dedup lookup and the queries of its handler) and the one
     transaction it commits later (`Db.commit`).  `handle_eq_exec` puts the two back together.  The
     system is the one of `Lib.Optimistic`: each instance takes its messages in order, and the
     calls of different instances interleave.

  2. **Law** — `Serialisable`: the post table, related maps included, is the one the finished calls
     would have made one after another, in some order.

  3. **The crux** — `related` is assigned as a whole from a value read earlier, under no lock, and a
     create or a new title reads and writes the maps of ALL rows.  So two concurrent creates lose
     entries (`created_apart`).  What a call really depends on is `observed`; when the rows a commit
     runs on are still as observed, it does what a whole call would do there (`commit_observed`),
     and a run of such commits is serial.
-/
import DjangoFlaskKafka.Related.Consumer
import DjangoFlaskKafka.Lib.Optimistic
import Mathlib.Data.List.Permutation

namespace DjangoFlaskKafka.Related.Scaling

open Python Kafka Optimistic Machine

variable {σ : Type} [Zero σ] (L : Libs σ)

/-! ## The program -/

/-- A `handle` call: the message, and the clock when its handler reads it. -/
structure Call where
  now : Int
  message : Message

/-- The reading half of `handle`; `none` when the call ends there, without a commit. -/
def reads (db : Db σ) (call : Call) : Option (ProcessedEvent × Work σ) :=
  match eventIdFor call.message with
  | .error _ => none
  | .ok event_id =>
    if nul ∈ event_id.toList then none
    else if db.processed_events.1.any fun e => e.event_id = event_id then none
    else match HANDLERS L call.now db call.message.value call.message.topic with
      | .error _ => none
      | .ok work => some (⟨event_id, call.message.topic⟩, work)

/-- `handle`, in its two halves. -/
def calls : Calls (Db σ) Call (ProcessedEvent × Work σ) where
  read := reads L
  write db _ w := db.commit w.2 w.1

/-- **The two halves are `handle`** when nothing comes between. -/
theorem handle_eq_exec (db : Db σ) (call : Call) :
    (handle L call.now db call.message .none).1 = exec (calls L) db call := by
  unfold handle exec
  show _ = (reads L db call).elim db fun w => (db.commit w.2 w.1).getD db
  unfold reads
  cases eventIdFor call.message with
  | error e => rfl
  | ok event_id =>
    dsimp only
    by_cases hnul : nul ∈ event_id.toList
    · rw [if_pos (.inr hnul), if_pos hnul]
      rfl
    rw [if_neg (by simp [hnul]), if_neg hnul]
    by_cases hseen : (db.processed_events.1.any fun e => e.event_id = event_id)
    · rw [if_pos hseen, if_pos hseen]
      rfl
    rw [if_neg hseen, if_neg hseen]
    cases HANDLERS L call.now db call.message.value call.message.topic with
    | error e => rfl
    | ok work =>
      dsimp only
      rw [if_neg (by decide : ¬ Fault.none = Fault.write), Option.elim_some]
      cases db.commit work ⟨event_id, call.message.topic⟩ with
      | none => rfl
      | some db' => cases call.message.value <;> rfl

/-! ## What a call depends on -/

/-- What a handler uses of a row it scores: its id, title, slug and map. -/
def cell {σ : Type} (p : Post σ) : Int × String × String × RelatedMap σ :=
  (p.id, p.title, p.slug, p.related)

/-- The rows a handler scores, in no order. -/
def cells {σ : Type} (rows : List (Post σ)) : Multiset (Int × String × String × RelatedMap σ) :=
  ↑(rows.map cell)

/-- What the outcome of a call depends on. -/
inductive Observed (σ : Type) where
  /-- a create of a post that is there: only that it is -/
  | known
  /-- a create, or an update of a post that is not there: every row -/
  | unknown (rows : Multiset (Int × String × String × RelatedMap σ))
  /-- an update with the title the post has: the columns it sets, those that are not as it says -/
  | kept (columns : Columns)
  /-- an update with a new title: these, the map of the post, and every other row -/
  | retitled (columns : Columns) (own : RelatedMap σ)
    (others : Multiset (Int × String × String × RelatedMap σ))
  /-- a deletion: the id of the row with the slug, the maps that have the slug, and whether there
  are other rows whose maps are asked for it -/
  | named (gone : Option Int) (hits : Multiset (Int × RelatedMap σ)) (alone : Bool)
  /-- a revocation: whether the token is on record -/
  | token (onRecord : Bool)
  deriving DecidableEq

/-- The value a payload binds, if it binds one. -/
def bound {α : Type} (x : Except PyErr (Option α)) : Option α := x.toOption.join

/-- The row the payload is about. -/
def target (rows : List (Post σ)) (payload : Json) : Option (Post σ) :=
  getPost rows (bound (payload.item "id" >>= L.sqlInt))

/-- The update has the title of the post, up to whitespace at its ends. -/
def keepsTitle (payload : Json) (post : Post σ) : Bool :=
  bound (payload.item "title" >>= Json.stripped) = some (strip post.title)

/-- The columns that the update sets. -/
def columnsSet (payload : Json) (post : Post σ) : Columns :=
  ((payload.item "title" >>= assignColumns L post payload).toOption).getD {}

/-- The rows whose maps a deletion rewrites. -/
def hits (rows : List (Post σ)) (key member : Option String) : List (Post σ) :=
  (rows.filter fun p => some p.slug ≠ key).filter fun p =>
    (member.bind fun s => p.related.lookup s).isSome

/-- A create looks whether the post is there, and else at all rows. -/
def observedCreated (payload : Json) (rows : List (Post σ)) : Observed σ :=
  if (target L rows payload).isSome then .known else .unknown (cells rows)

/-- An update looks at its own row, and at the others when the title is another. -/
def observedUpdated (payload : Json) (rows : List (Post σ)) : Observed σ :=
  match target L rows payload with
  | none => .unknown (cells rows)
  | some post =>
    if keepsTitle payload post then .kept (columnsSet L payload post)
    else .retitled (columnsSet L payload post) post.related (cells (rows.filter fun p => p.id ≠ post.id))

/-- A deletion looks at the row with its slug and at the maps that have the slug. -/
def observedDeleted (payload : Json) (rows : List (Post σ)) : Observed σ :=
  let key := bound (payload.item "slug" >>= L.sqlText)
  let others := rows.filter fun p => some p.slug ≠ key
  let member := bound (payload.item "slug" >>= askedKey others)
  .named ((key.bind fun s => Keyed.lookup Post.slug s rows).map Post.id)
    ↑((hits rows key member).map fun p => (p.id, p.related))
    others.isEmpty

/-- A revocation looks whether its token is on record. -/
def observedTokenRevoked (payload : Json) (rows : List RevokedToken) : Observed σ :=
  .token (rows.any fun t => some t.token_id = bound (payload.item "token_id" >>= L.sqlToken))

/-- What a call depends on in a database. -/
def observed (call : Call) (db : Db σ) : Observed σ :=
  match call.message.topic with
  | .postCreated => observedCreated L call.message.value db.post.1
  | .postUpdated => observedUpdated L call.message.value db.post.1
  | .postDeleted => observedDeleted L call.message.value db.post.1
  | .tokenRevoked => observedTokenRevoked L call.message.value db.revoked_tokens.1

/-! ## The same observation, the same work -/

/-- Two lists of changes that no table can tell apart. -/
def SameChanges {σ : Type} (cs cs' : List (Change σ)) : Prop := ∀ rows, flush rows cs = flush rows cs'

omit [Zero σ] in
theorem SameChanges.refl (cs : List (Change σ)) : SameChanges cs cs := fun _ => rfl

omit [Zero σ] in
/-- Units of work that cannot be told apart, one after the other. -/
theorem SameChanges.append {cs₁ cs₁' cs₂ cs₂' : List (Change σ)} (h₁ : SameChanges cs₁ cs₁')
    (h₂ : SameChanges cs₂ cs₂') : SameChanges (cs₁ ++ cs₂) (cs₁' ++ cs₂') := by
  intro rows
  rw [flush_append, flush_append, h₁ rows]
  congr 1
  funext rows'
  exact h₂ rows'

omit [Zero σ] in
/-- The loops assign to different rows, so the order of their rows does not matter. -/
theorem sameChanges_relate {us us' : List (Int × RelatedMap σ)} (h : us.Perm us')
    (hids : (us.map Prod.fst).Nodup) :
    SameChanges (us.map fun u => .relate u.1 u.2) (us'.map fun u => .relate u.1 u.2) := by
  have hid : ∀ (related : RelatedMap σ) p, (Post.relate related p).id = p.id := fun _ _ => rfl
  intro rows
  have hperm := Keyed.foldlM_update_perm hid h hids rows
  unfold flush
  rw [List.foldlM_map, List.foldlM_map]
  exact hperm

variable {L}

/-- The maps of two loops over the same cells are the same. -/
theorem forwardRefs_perm {rows rows' : List (Post σ)} (h : (rows.map cell).Perm (rows'.map cell))
    (hslugs : (rows.map Post.slug).Nodup) (title slug : Json) :
    forwardRefs (rows.map (triple L title slug)) = forwardRefs (rows'.map (triple L title slug)) := by
  let entry : Int × String × String × RelatedMap σ → String × σ := fun c =>
    (c.2.2.1, (similarity L (.str c.2.1) title).toOption.getD 0)
  let insert : RelatedMap σ → String × σ → RelatedMap σ := fun related kv =>
    related.insert kv.1 kv.2
  have hfold : ∀ rows : List (Post σ), forwardRefs (rows.map (triple L title slug))
      = ((rows.map cell).map entry).foldl insert ∅ := by
    intro rows
    unfold forwardRefs
    rw [List.map_map, List.foldl_map, List.foldl_map]
    rfl
  have hkeys : ((rows.map cell).map entry).map Prod.fst = rows.map Post.slug := by
    rw [List.map_map, List.map_map]
    rfl
  rw [hfold, hfold]
  refine (h.map entry).foldl_eq' (fun x hx y hy related => ?_) ∅
  by_cases hxy : x.1 = y.1
  · rw [List.inj_on_of_nodup_map (hkeys ▸ hslugs) hx hy hxy]
  · exact Finmap.insert_insert_of_ne related hxy

/-- The loop over the other rows, in another order. -/
theorem backRefs_perm {rows rows' : List (Post σ)} (h : (rows.map cell).Perm (rows'.map cell))
    (hids : (rows.map Post.id).Nodup) (title slug : Json) :
    SameChanges (backRefs L (rows.map (triple L title slug)))
      (backRefs L (rows'.map (triple L title slug))) := by
  let entry : Int × String × String × RelatedMap σ → Int × RelatedMap σ × String × σ := fun c =>
    (c.1, c.2.2.2, slug.dictKey.toOption.getD "", (similarity L (.str c.2.1) title).toOption.getD 0)
  let lacking : Int × RelatedMap σ × String × σ → Bool := fun e =>
    haveI := L.decEq
    e.2.1.lookup e.2.2.1 ≠ some e.2.2.2
  let assign : Int × RelatedMap σ × String × σ → Int × RelatedMap σ := fun e =>
    (e.1, e.2.1.insert e.2.2.1 e.2.2.2)
  have hback : ∀ rows : List (Post σ), backRefs L (rows.map (triple L title slug))
      = ((((rows.map cell).map entry).filter lacking).map assign).map fun u => .relate u.1 u.2 := by
    intro rows
    unfold backRefs
    rw [List.filter_map, List.filter_map, List.filter_map, List.map_map, List.map_map, List.map_map,
      List.map_map]
    rfl
  have hentries : ((rows.map cell).map entry).map Prod.fst = rows.map Post.id := by
    rw [List.map_map, List.map_map]
    rfl
  rw [hback, hback]
  refine sameChanges_relate (((h.map entry).filter lacking).map assign) ?_
  rw [List.map_map]
  exact (hentries ▸ hids).sublist (List.filter_sublist.map _)

/-- What the two loops over the same cells make: the same assignments, the same map. -/
theorem scored_perm {rows rows' : List (Post σ)} (h : cells rows = cells rows')
    (hids : (rows.map Post.id).Nodup) (hslugs : (rows.map Post.slug).Nodup) {title slug : Json}
    {scored : List (Post σ × String × σ)} (hscored : scoreOthers L rows title slug = .ok scored) :
    ∃ scored', scoreOthers L rows' title slug = .ok scored' ∧
      forwardRefs scored = forwardRefs scored' ∧
      SameChanges (backRefs L scored) (backRefs L scored') := by
  have hperm : (rows.map cell).Perm (rows'.map cell) := Multiset.coe_eq_coe.mp h
  have htitles : rows'.map Post.title ⊆ rows.map Post.title := by
    have hmap := (hperm.map fun c => c.2.1).symm.subset
    rwa [List.map_map, List.map_map] at hmap
  obtain rfl := eq_triples_of_ok hscored
  exact ⟨_, scoreOthers_eq_ok hscored htitles, forwardRefs_perm hperm hslugs title slug,
    backRefs_perm hperm hids title slug⟩

omit [Zero σ] in
/-- Whether there are other rows to flush first, the cells tell. -/
theorem sendNew_cells {rows rows' : List (Post σ)} (h : cells rows = cells rows') (id : Option Int)
    (slug : Json) (values : List Json) :
    L.sendNew rows id slug values = L.sendNew rows' id slug values := by
  have hlength := (Multiset.coe_eq_coe.mp h).length_eq
  rw [List.length_map, List.length_map] at hlength
  unfold Libs.sendNew
  cases rows with
  | nil => rw [List.eq_nil_of_length_eq_zero hlength.symm]
  | cons p rows =>
    cases rows' with
    | nil => cases hlength
    | cons => cases slug <;> rfl

omit [Zero σ] in
/-- The row that the id finds. -/
theorem target_eq {payload item : Json} {id : Option Int} (hitem : payload.item "id" = .ok item)
    (hid : L.sqlInt item = .ok id) (rows : List (Post σ)) : target L rows payload = getPost rows id := by
  unfold target
  rw [bind_eq_ok.mpr ⟨item, hitem, hid⟩]
  rfl

/-- **A create that observes the same makes the same changes.** -/
theorem applyCreated_observed {rows rows' : List (Post σ)} (hids : (rows.map Post.id).Nodup)
    (hslugs : (rows.map Post.slug).Nodup) {payload : Json}
    (hknown : (target L rows payload).isSome = (target L rows' payload).isSome)
    (hcells : target L rows payload = none → cells rows = cells rows') {cs : List (Change σ)}
    (h : applyCreated L rows payload = .ok cs) :
    ∃ cs', applyCreated L rows' payload = .ok cs' ∧ SameChanges cs cs' := by
  unfold applyCreated at h
  obtain ⟨item, hitem, h⟩ := bind_eq_ok.mp h
  obtain ⟨id, hid, h⟩ := bind_eq_ok.mp h
  have htarget := target_eq hitem hid
  rw [htarget, htarget] at hknown
  rw [htarget] at hcells
  unfold applyCreated
  by_cases hsome : (getPost rows id).isSome
  · rw [if_pos hsome] at h
    refine ⟨cs, ?_, .refl cs⟩
    simp only [hitem, hid, hknown ▸ hsome, if_true, bind, Except.bind]
    exact h
  · rw [if_neg hsome] at h
    obtain ⟨title, htitle, h⟩ := bind_eq_ok.mp h
    obtain ⟨slug, hslug, h⟩ := bind_eq_ok.mp h
    obtain ⟨scored, hscored, h⟩ := bind_eq_ok.mp h
    have hsame := hcells (Option.not_isSome_iff_eq_none.mp hsome)
    obtain ⟨scored', hscored', hforward, hback⟩ := scored_perm hsame hids hslugs hscored
    have hnone : ¬ (getPost rows' id).isSome := hknown ▸ hsome
    obtain ⟨imageItem, himageItem, h⟩ := bind_eq_ok.mp h
    obtain ⟨bodyItem, hbodyItem, h⟩ := bind_eq_ok.mp h
    obtain ⟨sent, hsend, h⟩ := bind_eq_ok.mp h
    obtain ⟨stored, hstored, h⟩ := bind_eq_ok.mp h
    obtain ⟨id', hid', h⟩ := bind_eq_ok.mp h
    obtain ⟨titleText, htitleText, h⟩ := bind_eq_ok.mp h
    obtain ⟨title', htitle', h⟩ := bind_eq_ok.mp h
    obtain ⟨image, himage, h⟩ := bind_eq_ok.mp h
    obtain ⟨body, hbody, h⟩ := bind_eq_ok.mp h
    obtain ⟨slugText, hslugText, h⟩ := bind_eq_ok.mp h
    obtain ⟨slug', hslug', h⟩ := bind_eq_ok.mp h
    obtain rfl := Except.ok.inj h
    rw [sendNew_cells hsame] at hsend
    refine ⟨backRefs L scored' ++ [.insert ⟨id', title', image, body, slug', forwardRefs scored'⟩],
      ?_, hforward ▸ hback.append (.refl _)⟩
    simp only [hitem, hid, hnone, htitle, hslug, hscored', himageItem, hbodyItem, hsend, hstored,
      himage, hbody, hid', htitleText, htitle', hslugText, hslug', bind, Except.bind]
    rfl

omit [Zero σ] in
/-- An update of an unknown post has observed every row. -/
theorem observedUpdated_none {rows rows' : List (Post σ)} {payload : Json}
    (hobs : observedUpdated L payload rows = observedUpdated L payload rows')
    (h : target L rows payload = none) :
    target L rows' payload = none ∧ cells rows = cells rows' := by
  unfold observedUpdated at hobs
  rw [h] at hobs
  cases h' : target L rows' payload with
  | none =>
    rw [h'] at hobs
    exact ⟨rfl, Observed.unknown.inj hobs⟩
  | some post' =>
    rw [h'] at hobs
    dsimp only at hobs
    split at hobs <;> cases hobs

omit [Zero σ] in
/-- An update of a known post has observed which columns it sets and whether it keeps the title, and
    if not the map of the post and the other rows. -/
theorem observedUpdated_some {rows rows' : List (Post σ)} {payload : Json}
    (hobs : observedUpdated L payload rows = observedUpdated L payload rows') {post : Post σ}
    (h : target L rows payload = some post) :
    ∃ post', target L rows' payload = some post' ∧
      (keepsTitle payload post ↔ keepsTitle payload post') ∧
      columnsSet L payload post = columnsSet L payload post' ∧
      (¬ keepsTitle payload post → post.related = post'.related ∧
        cells (rows.filter fun p => p.id ≠ post.id) = cells (rows'.filter fun p => p.id ≠ post'.id)) := by
  unfold observedUpdated at hobs
  rw [h] at hobs
  cases h' : target L rows' payload with
  | none =>
    rw [h'] at hobs
    dsimp only at hobs
    split at hobs <;> cases hobs
  | some post' =>
    rw [h'] at hobs
    dsimp only at hobs
    refine ⟨post', rfl, ?_⟩
    by_cases hkept : keepsTitle payload post
    · by_cases hkept' : keepsTitle payload post'
      · rw [if_pos hkept, if_pos hkept'] at hobs
        exact ⟨iff_of_true hkept hkept', Observed.kept.inj hobs, fun hne => absurd hkept hne⟩
      · rw [if_pos hkept, if_neg hkept'] at hobs
        cases hobs
    · by_cases hkept' : keepsTitle payload post'
      · rw [if_neg hkept, if_pos hkept'] at hobs
        cases hobs
      · rw [if_neg hkept, if_neg hkept'] at hobs
        obtain ⟨hcolumns, hown, hothers⟩ := Observed.retitled.inj hobs
        exact ⟨iff_of_false hkept hkept', hcolumns, fun _ => ⟨hown, hothers⟩⟩

omit [Zero σ] in
/-- Reading the columns of an update raises on no post if it does not on one. -/
theorem assignColumns_eq_ok {post : Post σ} {payload title : Json} {columns : Columns}
    (h : assignColumns L post payload title = .ok columns) (post' : Post σ) :
    ∃ columns', assignColumns L post' payload title = .ok columns' := by
  obtain ⟨image, himage, h⟩ := bind_eq_ok.mp h
  obtain ⟨body, hbody, h⟩ := bind_eq_ok.mp h
  obtain ⟨slug, hslug, h⟩ := bind_eq_ok.mp h
  obtain ⟨sent, hsend, h⟩ := bind_eq_ok.mp h
  obtain ⟨titleText, htitleText, h⟩ := bind_eq_ok.mp h
  obtain ⟨newTitle, hnewTitle, h⟩ := bind_eq_ok.mp h
  obtain ⟨newImage, hnewImage, h⟩ := bind_eq_ok.mp h
  obtain ⟨newBody, hnewBody, h⟩ := bind_eq_ok.mp h
  obtain ⟨slugText, hslugText, h⟩ := bind_eq_ok.mp h
  obtain ⟨newSlug, hnewSlug, -⟩ := bind_eq_ok.mp h
  unfold assignColumns
  simp only [himage, hbody, hslug, hsend, htitleText, hnewTitle, hnewImage, hnewBody, hslugText,
    hnewSlug, bind, Except.bind]
  exact ⟨_, rfl⟩

omit [Zero σ] in
/-- The columns that are read are those that the call observes. -/
theorem columnsSet_eq {post : Post σ} {payload title : Json} {columns : Columns}
    (htitle : payload.item "title" = .ok title)
    (h : assignColumns L post payload title = .ok columns) : columnsSet L payload post = columns := by
  unfold columnsSet
  rw [bind_eq_ok.mpr ⟨title, htitle, h⟩]
  rfl

omit [Zero σ] in
/-- The row that is found has the id that was asked for. -/
theorem getPost_id {rows rows' : List (Post σ)} {id : Option Int} {post post' : Post σ}
    (h : getPost rows id = some post) (h' : getPost rows' id = some post') :
    post'.id = post.id := by
  obtain ⟨n, hn, hlookup⟩ := Option.bind_eq_some_iff.mp h
  obtain ⟨n', hn', hlookup'⟩ := Option.bind_eq_some_iff.mp h'
  rw [Keyed.lookup_key hlookup, Keyed.lookup_key hlookup']
  exact Option.some.inj (hn'.symm.trans hn)

/-- **So does an update.** -/
theorem applyUpdated_observed {rows rows' : List (Post σ)} (hids : (rows.map Post.id).Nodup)
    (hslugs : (rows.map Post.slug).Nodup) {payload : Json}
    (hobs : observedUpdated L payload rows = observedUpdated L payload rows')
    {cs : List (Change σ)} (h : applyUpdated L rows payload = .ok cs) :
    ∃ cs', applyUpdated L rows' payload = .ok cs' ∧ SameChanges cs cs' := by
  unfold applyUpdated at h
  obtain ⟨item, hitem, h⟩ := bind_eq_ok.mp h
  obtain ⟨id, hid, h⟩ := bind_eq_ok.mp h
  have htarget := target_eq hitem hid
  cases hpost : getPost rows id with
  | none =>
    -- the update falls back on creating the post
    rw [hpost] at h
    obtain ⟨hnone', hcells⟩ := observedUpdated_none hobs ((htarget rows).trans hpost)
    have hpost' : getPost rows' id = none := (htarget rows').symm.trans hnone'
    obtain ⟨cs', hcs', hsame⟩ := applyCreated_observed hids hslugs
      (by rw [htarget, htarget, hpost, hpost']) (fun _ => hcells) h
    refine ⟨cs', ?_, hsame⟩
    unfold applyUpdated
    simp only [hitem, hid, hpost', bind, Except.bind]
    exact hcs'
  | some post =>
    rw [hpost] at h
    obtain ⟨post', hsome', hkept, hset, hothers⟩ :=
      observedUpdated_some hobs ((htarget rows).trans hpost)
    have hpost' : getPost rows' id = some post' := (htarget rows').symm.trans hsome'
    have hsameId : post'.id = post.id := getPost_id hpost hpost'
    obtain ⟨title, htitle, h⟩ := bind_eq_ok.mp h
    obtain ⟨newTitle, hnewTitle, h⟩ := bind_eq_ok.mp h
    obtain ⟨columns, hcolumns, h⟩ := bind_eq_ok.mp h
    -- the row as it is now has the same columns to set
    have hcolumns' : assignColumns L post' payload title = .ok columns := by
      obtain ⟨columns', hcolumns'⟩ := assignColumns_eq_ok hcolumns post'
      rwa [← columnsSet_eq htitle hcolumns, hset, columnsSet_eq htitle hcolumns']
    have hkeeps : ∀ post : Post σ, keepsTitle payload post ↔ newTitle = some (strip post.title) := by
      intro post
      unfold keepsTitle
      rw [bind_eq_ok.mpr ⟨title, htitle, hnewTitle⟩, decide_eq_true_iff]
      rfl
    unfold applyUpdated
    simp only [hitem, hid, hpost', htitle, hnewTitle, hcolumns', hsameId, bind, Except.bind]
    by_cases hsame : newTitle = some (strip post.title)
    · have hsame' : newTitle = some (strip post'.title) :=
        (hkeeps post').mp (hkept.mp ((hkeeps post).mpr hsame))
      rw [if_pos (not_not.mpr hsame)] at h
      rw [if_pos (not_not.mpr hsame')]
      exact ⟨cs, h, .refl cs⟩
    · have hsame' : ¬ newTitle = some (strip post'.title) := fun hsame' =>
        hsame ((hkeeps post).mp (hkept.mpr ((hkeeps post').mpr hsame')))
      obtain ⟨hown, hcells⟩ := hothers fun hkeep => hsame ((hkeeps post).mp hkeep)
      rw [hsameId] at hcells
      rw [if_neg fun hn => hsame (not_not.mp hn)] at h
      rw [if_neg fun hn => hsame' (not_not.mp hn)]
      obtain ⟨slug, hslug, h⟩ := bind_eq_ok.mp h
      obtain ⟨scored, hscored, h⟩ := bind_eq_ok.mp h
      obtain ⟨scored', hscored', hforward, hback⟩ := scored_perm hcells
        (hids.sublist (List.filter_sublist.map _)) (hslugs.sublist (List.filter_sublist.map _))
        hscored
      obtain rfl := Except.ok.inj h
      have hownRefs : ownRefs L post' (forwardRefs scored') = ownRefs L post (forwardRefs scored) := by
        unfold ownRefs
        rw [hown, hsameId, hforward]
      rw [hslug]
      dsimp only
      rw [hscored']
      refine ⟨_, rfl, ?_⟩
      rw [hownRefs]
      exact ((SameChanges.refl _).append hback).append (.refl _)

omit [Zero σ] in
/-- **So does a deletion.** -/
theorem applyDeleted_observed {rows rows' : List (Post σ)} (hids : (rows.map Post.id).Nodup)
    {payload : Json} (hobs : observedDeleted L payload rows = observedDeleted L payload rows')
    {cs : List (Change σ)} (h : applyDeleted L rows payload = .ok cs) :
    ∃ cs', applyDeleted L rows' payload = .ok cs' ∧ SameChanges cs cs' := by
  unfold applyDeleted at h
  obtain ⟨slug, hslug, h⟩ := bind_eq_ok.mp h
  obtain ⟨key, hkey, h⟩ := bind_eq_ok.mp h
  obtain ⟨member, hmember, h⟩ := bind_eq_ok.mp h
  obtain rfl := Except.ok.inj h
  have hbound : ∀ {α : Type} {f : Json → Except PyErr (Option α)} {x : Option α},
      f slug = .ok x → bound (payload.item "slug" >>= f) = x :=
    fun hx => bind_eq_ok.mpr ⟨slug, hslug, hx⟩ ▸ rfl
  unfold observedDeleted at hobs
  rw [hbound hkey] at hobs
  obtain ⟨hgone, hhits, halone⟩ := Observed.named.inj hobs
  -- the slug is hashed now if and only if it was then
  have hmember' : askedKey (rows'.filter fun p => some p.slug ≠ key) slug = .ok member := by
    unfold askedKey at hmember ⊢
    rw [← halone]
    exact hmember
  rw [hbound hmember, hbound hmember'] at hhits
  have hgone' : ∀ rows : List (Post σ),
      ((key.bind fun s => Keyed.lookup Post.slug s rows).map fun p => Change.delete (σ := σ) p.id).toList
        = ((key.bind fun s => Keyed.lookup Post.slug s rows).map Post.id).toList.map .delete := by
    intro rows
    cases key.bind fun s => Keyed.lookup Post.slug s rows <;> rfl
  have herase : ∀ rows : List (Post σ), ((hits rows key member).map fun p =>
        Change.relate p.id (member.elim p.related p.related.erase))
      = (((hits rows key member).map fun p => (p.id, p.related)).map fun u =>
          (u.1, member.elim u.2 u.2.erase)).map fun u => .relate u.1 u.2 := by
    intro rows
    rw [List.map_map, List.map_map]
    rfl
  unfold applyDeleted
  simp only [hslug, hkey, hmember', bind, Except.bind]
  refine ⟨_, rfl, ?_⟩
  rw [hgone', hgone', hgone]
  refine (SameChanges.refl _).append ?_
  have hperm := (Multiset.coe_eq_coe.mp hhits).map fun u : Int × RelatedMap σ =>
    (u.1, member.elim u.2 u.2.erase)
  have hnodup : ((hits rows key member).map Post.id).Nodup :=
    hids.sublist ((List.filter_sublist.trans List.filter_sublist).map _)
  have hsame := sameChanges_relate hperm (by rw [List.map_map, List.map_map]; exact hnodup)
  rw [← herase, ← herase] at hsame
  exact hsame

omit [Zero σ] in
/-- **So does a revocation.** -/
theorem applyTokenRevoked_observed {rows rows' : List RevokedToken} {payload : Json}
    (hobs : observedTokenRevoked L payload rows = observedTokenRevoked L payload rows') (now : Int)
    {c : RevokedChange} (h : applyTokenRevoked L now rows payload = .ok c) :
    applyTokenRevoked L now rows' payload = .ok c := by
  unfold applyTokenRevoked at h
  obtain ⟨item, hitem, h⟩ := bind_eq_ok.mp h
  obtain ⟨expires_at, hexpires, h⟩ := bind_eq_ok.mp h
  obtain ⟨token, htoken, h⟩ := bind_eq_ok.mp h
  obtain ⟨token_id, htokenId, h⟩ := bind_eq_ok.mp h
  unfold observedTokenRevoked at hobs
  rw [show bound (payload.item "token_id" >>= L.sqlToken) = token_id from
      bind_eq_ok.mpr ⟨token, htoken, htokenId⟩ ▸ rfl] at hobs
  unfold applyTokenRevoked
  simp only [hitem, hexpires, htoken, htokenId, bind, Except.bind]
  rw [← Observed.token.inj hobs]
  exact h

omit [Zero σ] in
theorem known_of_observed {payload : Json} {rows rows' : List (Post σ)}
    (hobs : observedCreated L payload rows = observedCreated L payload rows') :
    (target L rows payload).isSome = (target L rows' payload).isSome ∧
      (target L rows payload = none → cells rows = cells rows') := by
  unfold observedCreated at hobs
  by_cases hsome : (target L rows payload).isSome <;>
    by_cases hsome' : (target L rows' payload).isSome
  · exact ⟨hsome.trans hsome'.symm, fun hnone => by rw [hnone] at hsome; cases hsome⟩
  · rw [if_pos hsome, if_neg hsome'] at hobs
    cases hobs
  · rw [if_neg hsome, if_pos hsome'] at hobs
    cases hobs
  · rw [if_neg hsome, if_neg hsome'] at hobs
    rw [Bool.not_eq_true] at hsome hsome'
    exact ⟨hsome.trans hsome'.symm, fun _ => Observed.unknown.inj hobs⟩

/-- **The same observation, the same work**: handlers that raised for neither reading of the table
    make the same changes. -/
theorem HANDLERS_observed {call : Call} {seen db : Db σ}
    (hobs : observed L call seen = observed L call db)
    {work : Work σ} (h : HANDLERS L call.now seen call.message.value call.message.topic = .ok work) :
    ∃ work', HANDLERS L call.now db call.message.value call.message.topic = .ok work' ∧
      SameChanges work.post work'.post ∧ work.revoked = work'.revoked := by
  obtain ⟨hids, hslugs, -⟩ := seen.post.2
  unfold observed at hobs
  cases htopic : call.message.topic with
  | postCreated =>
    rw [htopic] at h hobs
    obtain ⟨cs, hcs, rfl⟩ := map_eq_ok.mp h
    obtain ⟨hknown, hcells⟩ := known_of_observed hobs
    obtain ⟨cs', hcs', hsame⟩ := applyCreated_observed hids hslugs hknown hcells hcs
    exact ⟨⟨cs', none⟩, map_eq_ok.mpr ⟨cs', hcs', rfl⟩, hsame, rfl⟩
  | postUpdated =>
    rw [htopic] at h hobs
    obtain ⟨cs, hcs, rfl⟩ := map_eq_ok.mp h
    obtain ⟨cs', hcs', hsame⟩ := applyUpdated_observed hids hslugs hobs hcs
    exact ⟨⟨cs', none⟩, map_eq_ok.mpr ⟨cs', hcs', rfl⟩, hsame, rfl⟩
  | postDeleted =>
    rw [htopic] at h hobs
    obtain ⟨cs, hcs, rfl⟩ := map_eq_ok.mp h
    obtain ⟨cs', hcs', hsame⟩ := applyDeleted_observed hids hobs hcs
    exact ⟨⟨cs', none⟩, map_eq_ok.mpr ⟨cs', hcs', rfl⟩, hsame, rfl⟩
  | tokenRevoked =>
    rw [htopic] at h hobs
    obtain ⟨c, hc, rfl⟩ := map_eq_ok.mp h
    exact ⟨⟨[], some c⟩, map_eq_ok.mpr ⟨c, applyTokenRevoked_observed hobs call.now hc, rfl⟩,
      .refl [], rfl⟩

omit [Zero σ] in
/-- Commits of changes that cannot be told apart end alike. -/
theorem commit_same {db : Db σ} {work work' : Work σ} (hpost : SameChanges work.post work'.post)
    (hrevoked : work.revoked = work'.revoked) (event : ProcessedEvent) :
    db.commit work event = db.commit work' event := by
  unfold Db.commit
  rw [hpost, hrevoked]

/-- What a call that has something to commit has read. -/
theorem reads_eq_some {db : Db σ} {call : Call} {event : ProcessedEvent} {work : Work σ}
    (h : reads L db call = some (event, work)) :
    eventIdFor call.message = .ok event.event_id ∧ event.topic = call.message.topic ∧
      HANDLERS L call.now db call.message.value call.message.topic = .ok work := by
  unfold reads at h
  cases hid : eventIdFor call.message with
  | error e =>
    rw [hid] at h
    cases h
  | ok event_id =>
    rw [hid] at h
    dsimp only at h
    split at h
    · cases h
    split at h
    · cases h
    cases hwork : HANDLERS L call.now db call.message.value call.message.topic with
    | error e =>
      rw [hwork] at h
      cases h
    | ok work' =>
      rw [hwork] at h
      obtain ⟨rfl, rfl⟩ := Prod.mk.inj (Option.some.inj h)
      exact ⟨rfl, rfl, rfl⟩

/-- **A commit on rows that are still as observed does what a whole call would do there.**  That
    the event is still not on record by then, the primary key of `processed_events` has checked. -/
theorem commit_observed (call : Call) (seen db : Db σ) (w : ProcessedEvent × Work σ) (db' : Db σ)
    (hobs : observed L call seen = observed L call db) (hread : reads L seen call = some w)
    (hcommit : db.commit w.2 w.1 = some db') : exec (calls L) db call = db' := by
  obtain ⟨event, work⟩ := w
  obtain ⟨hid, htopic, hwork⟩ := reads_eq_some hread
  obtain ⟨work', hwork', hpost, hrevoked⟩ := HANDLERS_observed hobs hwork
  have hnew : ¬ (db.processed_events.1.any fun e => e.event_id = event.event_id) := by
    have hnodup := db'.processed_events.2.1
    rw [(commit_eq_some hcommit).2, List.map_append, List.nodup_append] at hnodup
    rw [List.any_eq_true]
    rintro ⟨e, he, heq⟩
    exact hnodup.2.2 e.event_id (List.mem_map_of_mem he) event.event_id (by simp)
      (of_decide_eq_true heq)
  have hnul : nul ∉ event.event_id.toList := by
    intro hnul
    rw [commit_of_nul hnul] at hcommit
    cases hcommit
  have hreads : reads L db call = some (event, work') := by
    unfold reads
    rw [hid]
    dsimp only
    rw [if_neg hnul, if_neg hnew, hwork', ← htopic]
  have hlands : db.commit work' event = some db' := by rw [← hcommit, commit_same hpost hrevoked]
  unfold exec
  show (reads L db call).elim db (fun w => (db.commit w.2 w.1).getD db) = db'
  rw [hreads, Option.elim_some, hlands]
  rfl

/-! ## When scaling is safe -/

section Runs

variable {ι : Type} [DecidableEq ι]

variable (L) in
/-- Whole calls of `handle`, one after another. -/
def handleEach (db : Db σ) (order : List Call) : Db σ :=
  order.foldl (fun db call => (handle L call.now db call.message .none).1) db

variable (L) in
/-- The post table is the one the finished calls make of `db₀` one after another in SOME order. -/
def Serialisable (db₀ : Db σ) (s : State ι (Db σ) Call (ProcessedEvent × Work σ)) : Prop :=
  ∃ order : List Call, order.Perm s.done ∧ (handleEach L db₀ order).post = s.db.post

variable (L) in
/-- A commit finds what its call depends on as its call has observed it. -/
def AsObserved : State ι (Db σ) Call (ProcessedEvent × Work σ) → Action ι → Prop :=
  Current fun call seen db => observed L call seen = observed L call db

/-- **Scaling is safe while every commit finds the rows as observed**: at every moment of such a
    run, of however many instances, the post table is that of a serial run. -/
theorem serialisable_of_asObserved (db₀ : Db σ) (todo : ι → List Call) (acts : List (Action ι))
    (h : Along (step (calls L)) (AsObserved L) (start db₀ todo) acts) :
    Throughout (step (calls L)) (Serialisable L db₀) (start db₀ todo) acts := by
  refine (serial_of_current commit_observed db₀ todo h).mono fun s hs => ⟨s.done, .refl _, ?_⟩
  have heach : handleEach L db₀ s.done = serial (calls L) db₀ s.done := by
    unfold handleEach serial
    congr 1
    funext db call
    exact handle_eq_exec L db call
  rw [heach, ← show s.db = _ from hs]

/-- No record of a partition is handled by two instances. -/
def Apart (todo : ι → List Call) : Prop :=
  ∀ i j, i ≠ j → ∀ c ∈ todo i, ∀ c' ∈ todo j,
    c.message.topic = c'.message.topic → c.message.partition ≠ c'.message.partition

instance [DecidableEq σ] (s : State ι (Db σ) Call (ProcessedEvent × Work σ)) (a : Action ι) :
    Decidable (AsObserved L s a) := inferInstanceAs (Decidable (Current _ s a))

instance [DecidableEq σ] (db₀ : Db σ) (s : State ι (Db σ) Call (ProcessedEvent × Work σ)) :
    Decidable (Serialisable L db₀ s) :=
  decidable_of_iff (∃ order ∈ s.done.permutations', (handleEach L db₀ order).post.1 = s.db.post.1) <| by
    unfold Serialisable
    simp only [List.mem_permutations', Subtype.ext_iff]

end Runs

/-! ## Two instances -/

/-- The record of a post event, on a partition of its own. -/
def postCall (topic : Topic) (partition : Nat) (id : Int) (title body slug : String) : Call where
  now := 0
  message :=
    { topic := topic, partition := partition, offset := 0, headers := none,
      value := .obj [("id", .int id), ("title", .str title), ("body", .str body),
        ("slug", .str slug)] }

/-- One post is created and edited by the one instance, another created by the other. -/
def editsAndCreates : Bool → List Call
  | true => [postCall .postCreated 0 1 "one" "" "one", postCall .postUpdated 0 1 "one" "text" "one"]
  | false => [postCall .postCreated 1 2 "two" "" "two"]

/-- The second create is read before, and committed after, an edit of the first post. -/
theorem serialisable_editsAndCreates : Throughout (step (calls asciiLibs))
    (Serialisable asciiLibs (.empty ℚ)) (start (.empty ℚ) editsAndCreates)
    [.read true, .commit true, .read false, .read true, .commit true, .commit false] :=
  serialisable_of_asObserved _ _ _ (by decide +kernel)

/-- Each instance creates a post. -/
def twoCreates : Bool → List Call
  | true => [postCall .postCreated 0 1 "one" "" "one"]
  | false => [postCall .postCreated 1 2 "two" "" "two"]

/-- **Scaling is not safe.**  Two instances, on partitions of their own, create a post each; both
    read before either commits.  Both commits land, and neither map has the other post. -/
theorem creates_lost : Apart twoCreates ∧
    ∃ s, run (step (calls asciiLibs)) (start (.empty ℚ) twoCreates)
        [.read true, .read false, .commit true, .commit false] = some s ∧
      (∀ i, s.todo i = [] ∧ s.pending i = none) ∧ ¬ Serialisable asciiLibs (.empty ℚ) s := by
  have hsome : (run (step (calls asciiLibs)) (start (.empty ℚ) twoCreates)
      [.read true, .read false, .commit true, .commit false]).isSome := by decide +kernel
  have hlast : ∀ s ∈ run (step (calls asciiLibs)) (start (.empty ℚ) twoCreates)
      [.read true, .read false, .commit true, .commit false],
      (∀ i, s.todo i = [] ∧ s.pending i = none) ∧ ¬ Serialisable asciiLibs (.empty ℚ) s := by
    decide +kernel
  obtain ⟨s, hs⟩ := Option.isSome_iff_exists.mp hsome
  exact ⟨by unfold Apart; decide +kernel, s, hs, hlast s hs⟩

end DjangoFlaskKafka.Related.Scaling
