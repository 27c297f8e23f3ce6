/-
  Commutation — events of different posts may come in any order.

  1. **Program** — `apply_created`, `apply_updated` and `apply_deleted` over a list of events, each
     flushed before the next.

  2. **Law** — for events keyed by slug (one slug for each id), rearranging them without touching
     the order of any one post leaves the same rows, related maps included (`rearranged_same`).

  3. **The crux** — what an event makes of a table is said of one row at a time (`lookup_after`):
     its `effect` on the row of its own post is decided by that row alone, and every other row is
     only `touch`ed under the event's slug.  Two events of different posts touch under different
     slugs; and what a fresh map says of the other post is what the touch would have said
     (`lookup_touch`), by the symmetry of the score and because the whitespace around a title does
     not count.
-/
import DjangoFlaskKafka.Related.Maps
import DjangoFlaskKafka.Lib.Traces

namespace DjangoFlaskKafka.Related.Commutation

open Python Kafka Traces

/-! ## The program -/

/-- An event of a post: its payload carries the post, or names it. -/
inductive PostEvent where
  | created (payload : Json) (p : PostPayload) (carries : Carries payload p)
  | updated (payload : Json) (p : PostPayload) (carries : Carries payload p)
  | deleted (payload : Json) (id : Int) (slug : String) (hid : payload.item "id" = .ok (.int id))
      (hslug : payload.item "slug" = .ok (.str slug))

namespace PostEvent

/-- The id of the post. -/
def id : PostEvent → Int
  | created _ p _ | updated _ p _ => p.id
  | deleted _ id _ _ _ => id

/-- The slug of the post, which the event is keyed by. -/
def slug : PostEvent → String
  | created _ p _ | updated _ p _ => p.slug
  | deleted _ _ slug _ _ => slug

end PostEvent

variable {σ : Type} [Zero σ] (L : Libs σ)

/-- The changes the handler of the event makes. -/
def PostEvent.changes (rows : List (Post σ)) : PostEvent → Except PyErr (List (Change σ))
  | created payload _ _ => applyCreated L rows payload
  | updated payload _ _ => applyUpdated L rows payload
  | deleted payload _ _ _ _ => applyDeleted L rows payload

/-- The rows after the handlers of all events, or `none` when one of them fails. -/
def applyAll (rows : List (Post σ)) (events : List PostEvent) : Option (List (Post σ)) :=
  events.foldlM (fun rows e => (e.changes L rows).toOption.bind (flush rows)) rows

/-- What an event makes of the rows. -/
def PostEvent.after (rows : List (Post σ)) : PostEvent → List (Post σ)
  | created _ p _ => Related.created L rows p
  | updated _ p _ => Related.updated L rows p
  | deleted _ _ slug _ _ => Related.deleted rows slug

/-! ## One row at a time -/

/-- What an event does to its post: nothing; a row with new scores; a row with the old ones; no row. -/
inductive Effect where
  | nothing
  | fresh (p : PostPayload)
  | kept (p : PostPayload)
  | gone

/-- The effect is decided by the row of the post. -/
def PostEvent.effect (row : Option (Post σ)) : PostEvent → Effect
  | created _ p _ => if row.isSome then .nothing else .fresh p
  | updated _ p _ =>
    match row with
    | none => .fresh p
    | some post => if strip p.title = strip post.title then .kept p else .fresh p
  | deleted .. => .gone

/-- The row of the post, afterwards. -/
def Effect.own (rows : List (Post σ)) (row : Option (Post σ)) : Effect → Option (Post σ)
  | nothing => row
  | fresh p => some ⟨p.id, p.title, p.image, p.body, p.slug,
      scores L (rows.filter fun q => q.id ≠ p.id) p.title⟩
  | kept p => row.map (Post.assign p.title p.image p.body p.slug)
  | gone => none

/-- Any other row, afterwards. -/
def Effect.touch (x : Effect) (slug : String) (q : Post σ) : Post σ :=
  match x with
  | nothing | kept _ => q
  | fresh p => q.refer L slug p.title
  | gone => q.relate (q.related.erase slug)

section Touch

variable (slug : String) (q : Post σ) (x : Effect)

@[simp] theorem touch_id : (x.touch L slug q).id = q.id := by cases x <;> rfl

@[simp] theorem touch_title : (x.touch L slug q).title = q.title := by cases x <;> rfl

@[simp] theorem touch_image : (x.touch L slug q).image = q.image := by cases x <;> rfl

@[simp] theorem touch_body : (x.touch L slug q).body = q.body := by cases x <;> rfl

@[simp] theorem touch_slug : (x.touch L slug q).slug = q.slug := by cases x <;> rfl

variable {L slug q}

/-- A touch is about its own slug only. -/
theorem lookup_touch_of_ne {u : String} (hu : u ≠ slug) :
    (x.touch L slug q).related.lookup u = q.related.lookup u := by
  cases x with
  | nothing => rfl
  | kept p => rfl
  | fresh p => exact Finmap.lookup_insert_of_ne _ hu
  | gone => exact Finmap.lookup_erase_ne hu

/-- What it writes there depends on the title only. -/
theorem lookup_touch_congr {q' : Post σ} (htitle : q.title = q'.title)
    (hlookup : q.related.lookup slug = q'.related.lookup slug) :
    (x.touch L slug q).related.lookup slug = (x.touch L slug q').related.lookup slug := by
  cases x with
  | nothing => exact hlookup
  | kept p => exact hlookup
  | fresh p =>
    show (q.related.insert slug _).lookup slug = (q'.related.insert slug _).lookup slug
    rw [Finmap.lookup_insert, Finmap.lookup_insert, htitle]
  | gone =>
    show (q.related.erase slug).lookup slug = (q'.related.erase slug).lookup slug
    rw [Finmap.lookup_erase, Finmap.lookup_erase]

/-- Touches under different slugs commute. -/
theorem touch_comm {slug' : String} (hslug : slug ≠ slug') (y : Effect) :
    y.touch L slug' (x.touch L slug q) = x.touch L slug (y.touch L slug' q) := by
  refine Post.ext ?_ ?_ ?_ ?_ ?_ (Finmap.ext_lookup fun u => ?_)
  · simp
  · simp
  · simp
  · simp
  · simp
  · -- each entry is written by one of the two at most, and the other leaves the title alone
    by_cases hu : u = slug
    · subst hu
      rw [lookup_touch_of_ne y hslug]
      exact lookup_touch_congr x (by simp) (lookup_touch_of_ne y hslug).symm
    · rw [lookup_touch_of_ne x hu]
      by_cases hu' : u = slug'
      · subst hu'
        exact lookup_touch_congr y (by simp) (lookup_touch_of_ne x hu)
      · rw [lookup_touch_of_ne y hu', lookup_touch_of_ne y hu', lookup_touch_of_ne x hu]

/-- A row that is right about the post of an event is right about it afterwards. -/
theorem lookup_touch {e : PostEvent} {row : Option (Post σ)} (rows : List (Post σ))
    (hright : q.related.lookup slug = row.map fun r => score L q.title r.title) :
    ((e.effect row).touch L slug q).related.lookup slug
      = ((e.effect row).own L rows row).map fun r => score L q.title r.title := by
  have hfresh : ∀ p : PostPayload, ((Effect.fresh p).touch L slug q).related.lookup slug
      = ((Effect.fresh p).own L rows row).map fun r => score L q.title r.title :=
    fun p => Finmap.lookup_insert _
  cases e with
  | created payload p carries =>
    cases row with
    | none => exact hfresh p
    | some post => exact hright
  | updated payload p carries =>
    cases row with
    | none => exact hfresh p
    | some post =>
      dsimp only [PostEvent.effect]
      by_cases hstrip : strip p.title = strip post.title
      · rw [if_pos hstrip]
        refine hright.trans (congrArg some ?_)
        exact (score_strip L hstrip.symm q.title).2
      · rw [if_neg hstrip]
        exact hfresh p
  | deleted payload id slug' hid hslug => exact Finmap.lookup_erase _ _

end Touch

/-- Ids and slugs are unique, and the ids of the events have the slugs of the events. -/
structure KeyedBySlug (events : List PostEvent) (rows : List (Post σ)) : Prop where
  ids : (rows.map Post.id).Nodup
  slugs : (rows.map Post.slug).Nodup
  keyed : ∀ e ∈ events, ∀ q ∈ rows, q.id = e.id ↔ q.slug = e.slug

section After

variable {L} {events : List PostEvent} {rows : List (Post σ)}

/-- A post that is not there comes in, and all rows are told. -/
theorem lookup_created_of_none {p : PostPayload} (hnone : Keyed.lookup Post.id p.id rows = none)
    (i : Int) :
    Keyed.lookup Post.id i (created L rows p) = if i = p.id
      then (Effect.fresh p).own L rows none
      else (Keyed.lookup Post.id i rows).map ((Effect.fresh p).touch L p.slug) := by
  have hothers : (rows.filter fun q => q.id ≠ p.id) = rows :=
    List.filter_eq_self.mpr fun q hq => by simpa using Keyed.lookup_eq_none_iff.mp hnone q hq
  have hrow : createdRow L rows p = ⟨p.id, p.title, p.image, p.body, p.slug,
      scores L (rows.filter fun q => q.id ≠ p.id) p.title⟩ := by
    rw [hothers]
    rfl
  unfold created
  rw [hnone, if_neg (by simp), Keyed.lookup_append,
    Keyed.lookup_map (f := Post.refer L p.slug p.title) (fun _ => rfl), Keyed.lookup_cons]
  by_cases hi : i = p.id
  · subst hi
    rw [if_pos rfl, hnone, hrow, if_pos rfl]
    rfl
  · rw [if_neg hi, if_neg (fun h => hi h.symm)]
    exact Option.or_none

/-- A post that is there has its columns assigned; all rows are told if its title is another. -/
theorem lookup_updated_of_some {p : PostPayload} {post : Post σ}
    (hsome : Keyed.lookup Post.id p.id rows = some post) (i : Int) :
    let x : Effect := if strip p.title = strip post.title then .kept p else .fresh p
    Keyed.lookup Post.id i (updated L rows p) = if i = p.id then x.own L rows (some post)
      else (Keyed.lookup Post.id i rows).map (x.touch L p.slug) := by
  have hid : post.id = p.id := Keyed.lookup_key hsome
  have hrevise : ∀ q : Post σ, q.revise L rows p post.title
      = if strip p.title = strip post.title then
          if q.id = p.id then q.assign p.title p.image p.body p.slug else q
        else if q.id = p.id then
          ⟨p.id, p.title, p.image, p.body, p.slug, scores L (rows.filter fun q => q.id ≠ p.id) p.title⟩
        else q.refer L p.slug p.title := by
    intro q
    unfold Post.revise
    by_cases hq : q.id = p.id
    · simp only [← hq]
      rfl
    · simp only [if_neg hq]
  intro x
  rw [updated_eq_map hsome, Keyed.lookup_map (fun q => revise_id L rows post.title)]
  by_cases hi : i = p.id
  · subst hi
    rw [if_pos rfl, hsome, Option.map_some, hrevise]
    by_cases hstrip : strip p.title = strip post.title <;> simp only [x, hstrip, hid, if_true, if_false]
    · rfl
    · rfl
  · rw [if_neg hi]
    refine Option.map_congr fun q hq => ?_
    have hne : q.id ≠ p.id := fun h => hi ((Keyed.lookup_key hq).symm.trans h)
    rw [hrevise]
    by_cases hstrip : strip p.title = strip post.title <;> simp only [x, hstrip, hne, if_true, if_false]
    · rfl
    · rfl

/-- The post goes, and its slug from all maps. -/
theorem lookup_deleted {id : Int} {slug : String} (hids : (rows.map Post.id).Nodup)
    (hkeyed : ∀ q ∈ rows, q.id = id ↔ q.slug = slug) (i : Int) :
    Keyed.lookup Post.id i (deleted rows slug) = if i = id
      then none else (Keyed.lookup Post.id i rows).map (Effect.gone.touch L slug) := by
  have hid : ∀ q : Post σ, (q.relate (q.related.erase slug)).id = q.id := fun _ => rfl
  unfold deleted
  rw [Keyed.lookup_map hid, Keyed.lookup_filter hids]
  cases hq : Keyed.lookup Post.id i rows with
  | none => split <;> rfl
  | some q =>
    have hqid : q.id = i := Keyed.lookup_key hq
    have hqslug := hkeyed q (Keyed.lookup_mem hq)
    by_cases hi : i = id
    · rw [if_pos hi, Option.filter_some_neg (by simpa using hqslug.mp (hqid.trans hi))]
      rfl
    · have hne : q.slug ≠ slug := fun h => hi (hqid.symm.trans (hqslug.mpr h))
      rw [if_neg hi, Option.filter_some_pos (by simpa using hne)]
      rfl

/-- **What an event makes of each row.** -/
theorem lookup_after {e : PostEvent} (hrows : KeyedBySlug events rows) (he : e ∈ events)
    {row : Option (Post σ)} (hrow : Keyed.lookup Post.id e.id rows = row) (i : Int) :
    Keyed.lookup Post.id i (e.after L rows) = if i = e.id then (e.effect row).own L rows row
      else (Keyed.lookup Post.id i rows).map ((e.effect row).touch L e.slug) := by
  cases e with
  | created payload p carries =>
    cases row with
    | none => exact lookup_created_of_none hrow i
    | some post =>
      have hafter : created L rows p = rows := if_pos (Option.isSome_iff_exists.mpr ⟨post, hrow⟩)
      show Keyed.lookup Post.id i (created L rows p)
        = if i = p.id then some post else (Keyed.lookup Post.id i rows).map fun q => q
      rw [hafter]
      by_cases hi : i = p.id
      · rw [if_pos hi, hi]
        exact hrow
      · rw [if_neg hi, Option.map_id']
  | updated payload p carries =>
    cases row with
    | none =>
      have hafter : updated L rows p = created L rows p := by
        unfold updated
        rw [show Keyed.lookup Post.id p.id rows = none from hrow]
      show Keyed.lookup Post.id i (updated L rows p) = _
      rw [hafter]
      exact lookup_created_of_none hrow i
    | some post => exact lookup_updated_of_some hrow i
  | deleted payload id slug hid hslug => exact lookup_deleted hrows.ids (hrows.keyed _ he) i

/-- Its row has the slug of the event. -/
theorem slug_own {e : PostEvent} {row : Option (Post σ)} (hrow : ∀ r ∈ row, r.slug = e.slug)
    {q : Post σ} (h : (e.effect row).own L rows row = some q) : q.slug = e.slug := by
  cases e with
  | created payload p carries =>
    cases row with
    | none => rw [← Option.some.inj h]; rfl
    | some post => exact Option.some.inj h ▸ hrow post rfl
  | updated payload p carries =>
    cases row with
    | none => rw [← Option.some.inj h]; rfl
    | some post =>
      dsimp only [PostEvent.effect] at h
      split at h <;> (rw [← Option.some.inj h]; rfl)
  | deleted payload id slug hid hslug => cases h

/-- Ids stay unique, whatever the event. -/
theorem ids_after (hids : (rows.map Post.id).Nodup) (e : PostEvent) :
    ((e.after L rows).map Post.id).Nodup := by
  cases e with
  | created payload p carries => exact ids_created L hids p
  | updated payload p carries => exact ids_updated L hids p
  | deleted payload id slug hid hslug => exact ids_deleted hids slug

/-- The rows afterwards: the one of the post, and the others, touched. -/
theorem mem_after {e : PostEvent} (hrows : KeyedBySlug events rows) (he : e ∈ events)
    {row : Option (Post σ)} (hrow : Keyed.lookup Post.id e.id rows = row) {q : Post σ} :
    q ∈ e.after L rows ↔ q.id = e.id ∧ (e.effect row).own L rows row = some q ∨
      q.id ≠ e.id ∧ ∃ r ∈ rows, (e.effect row).touch L e.slug r = q := by
  have hlookup : q ∈ e.after L rows ↔ Keyed.lookup Post.id q.id (e.after L rows) = some q := by
    rw [Keyed.lookup_eq_some_iff (ids_after hrows.ids e), and_iff_left rfl]
  rw [hlookup, lookup_after hrows he hrow]
  by_cases hq : q.id = e.id
  · rw [if_pos hq]
    simp [hq]
  · rw [if_neg hq, Option.map_eq_some_iff]
    simp only [hq, false_and, false_or, ne_eq, not_false_eq_true, true_and,
      Keyed.lookup_eq_some_iff hrows.ids]
    refine exists_congr fun r => ⟨fun h => ⟨h.1.1, h.2⟩, fun h => ⟨⟨h.1, ?_⟩, h.2⟩⟩
    rw [← h.2, touch_id]

/-- Events keyed by slug keep the rows so. -/
theorem keyed_after (hevents : ∀ e ∈ events, ∀ e' ∈ events, e.id = e'.id ↔ e.slug = e'.slug)
    {e : PostEvent} (hrows : KeyedBySlug events rows) (he : e ∈ events) :
    KeyedBySlug events (e.after L rows) := by
  have hids := ids_after (L := L) hrows.ids e
  -- a row has the id and the slug of the event, or of an old row, of another post
  have hmem : ∀ q ∈ e.after L rows, q.id = e.id ∧ q.slug = e.slug ∨
      q.id ≠ e.id ∧ ∃ r ∈ rows, r.id = q.id ∧ r.slug = q.slug := by
    intro q hq
    rcases (mem_after hrows he rfl).mp hq with ⟨hid, hown⟩ | ⟨hid, r, hr, rfl⟩
    · refine .inl ⟨hid, slug_own (fun r hr => ?_) hown⟩
      exact (hrows.keyed e he r (Keyed.lookup_mem hr)).mp (Keyed.lookup_key hr)
    · exact .inr ⟨hid, r, hr, by simp, by simp⟩
  refine ⟨hids, List.Nodup.map_on (fun q hq q' hq' hslug => ?_) hids.of_map, fun e' he' q hq => ?_⟩
  · refine List.inj_on_of_nodup_map hids hq hq' ?_
    rcases hmem q hq with ⟨hid, hs⟩ | ⟨hne, r, hr, hid, hs⟩ <;>
      rcases hmem q' hq' with ⟨hid', hs'⟩ | ⟨hne', r', hr', hid', hs'⟩
    · exact hid.trans hid'.symm
    · refine absurd ?_ hne'
      rw [← hid']
      exact (hrows.keyed e he r' hr').mpr (hs'.trans (hslug.symm.trans hs))
    · refine absurd ?_ hne
      rw [← hid]
      exact (hrows.keyed e he r hr).mpr (hs.trans (hslug.trans hs'))
    · rw [← hid, ← hid']
      rw [List.inj_on_of_nodup_map hrows.slugs hr hr' (hs.trans (hslug.trans hs'.symm))]
  · rcases hmem q hq with ⟨hid, hs⟩ | ⟨-, r, hr, hid, hs⟩
    · rw [hid, hs]
      exact hevents e he e' he'
    · rw [← hid, ← hs]
      exact hrows.keyed e' he' r hr

end After

/-! ## Two events -/

section Pairs

variable {L} {events : List PostEvent} {rows : List (Post σ)} {e f : PostEvent}

/-- Scores are a look at the other rows, by slug. -/
theorem lookup_scores_eq {others : List (Post σ)} (hslugs : (others.map Post.slug).Nodup)
    (title u : String) : (scores L others title).lookup u
      = (Keyed.lookup Post.slug u others).map fun q => score L q.title title := by
  refine Option.ext fun s => ?_
  rw [lookup_scores hslugs, Option.map_eq_some_iff]
  simp only [Keyed.lookup_eq_some_iff hslugs, and_assoc]
  exact exists_congr fun q => and_congr_right fun _ => and_congr_right fun _ => eq_comm

omit [Zero σ] in
/-- The row with the slug of an event is the row with its id. -/
theorem lookup_slug_eq (hrows : KeyedBySlug events rows) (he : e ∈ events) :
    Keyed.lookup Post.slug e.slug rows = Keyed.lookup Post.id e.id rows := by
  refine Option.ext fun q => ?_
  rw [Keyed.lookup_eq_some_iff hrows.slugs, Keyed.lookup_eq_some_iff hrows.ids]
  exact and_congr_right fun hq => (hrows.keyed e he q hq).symm

/-- Under another slug, the row is found as before, touched. -/
theorem lookup_slug_after (hevents : ∀ e ∈ events, ∀ e' ∈ events, e.id = e'.id ↔ e.slug = e'.slug)
    (hrows : KeyedBySlug events rows) (hf : f ∈ events) {row : Option (Post σ)}
    (hrow : Keyed.lookup Post.id f.id rows = row) {u : String} (hu : u ≠ f.slug) :
    Keyed.lookup Post.slug u (f.after L rows)
      = (Keyed.lookup Post.slug u rows).map ((f.effect row).touch L f.slug) := by
  have hafter := keyed_after (L := L) hevents hrows hf
  refine Option.ext fun q => ?_
  rw [Keyed.lookup_eq_some_iff hafter.slugs, Option.map_eq_some_iff]
  simp only [Keyed.lookup_eq_some_iff hrows.slugs]
  constructor
  · rintro ⟨hq, hslug⟩
    have hid : q.id ≠ f.id := fun h => hu (hslug.symm.trans ((hafter.keyed f hf q hq).mp h))
    rcases (mem_after hrows hf hrow).mp hq with ⟨h, -⟩ | ⟨-, r, hr, rfl⟩
    · exact absurd h hid
    · exact ⟨r, ⟨hr, by simpa using hslug⟩, rfl⟩
  · rintro ⟨r, ⟨hr, hslug⟩, rfl⟩
    have hid : r.id ≠ f.id := fun h => hu (hslug.symm.trans ((hrows.keyed f hf r hr).mp h))
    exact ⟨(mem_after hrows hf hrow).mpr (.inr ⟨by simpa using hid, r, hr, rfl⟩), by simpa using hslug⟩

/-- **Fresh scores before the other event, and touched by it, are those after it.** -/
theorem fresh_touch (hsymm : ∀ a b, L.cosine a b = L.cosine b a)
    (hevents : ∀ e ∈ events, ∀ e' ∈ events, e.id = e'.id ↔ e.slug = e'.slug)
    (hrows : KeyedBySlug events rows) (hf : f ∈ events) {frow : Option (Post σ)}
    (hfrow : Keyed.lookup Post.id f.id rows = frow) {p : PostPayload} (hp : p.id ≠ f.id)
    (row row' : Option (Post σ)) :
    ((Effect.fresh p).own L rows row).map ((f.effect frow).touch L f.slug)
      = (Effect.fresh p).own L (f.after L rows) row' := by
  have hafter := keyed_after (L := L) hevents hrows hf
  have hother : ∀ {rows' : List (Post σ)}, KeyedBySlug events rows' → ∀ u,
      (scores L (rows'.filter fun q => q.id ≠ p.id) p.title).lookup u
        = ((Keyed.lookup Post.slug u rows').filter fun q => q.id ≠ p.id).map
          fun q => score L q.title p.title := by
    intro rows' hrows' u
    rw [lookup_scores_eq (hrows'.slugs.sublist (List.filter_sublist.map Post.slug)),
      Keyed.lookup_filter hrows'.slugs]
  -- the row of the other event is among the rows scored
  have hkept : ∀ {rows' : List (Post σ)} {x : Option (Post σ)}, Keyed.lookup Post.id f.id rows' = x →
      x.filter (fun q => q.id ≠ p.id) = x := by
    intro rows' x hx
    cases x with
    | none => rfl
    | some q =>
      have hid : q.id = f.id := Keyed.lookup_key hx
      exact Option.filter_some_pos (by simpa [hid] using hp.symm)
  refine congrArg some (Post.ext (by simp) (by simp) (by simp) (by simp) (by simp)
    (Finmap.ext_lookup fun u => ?_))
  show _ = (scores L ((f.after L rows).filter fun q => q.id ≠ p.id) p.title).lookup u
  rw [hother hafter]
  by_cases hu : u = f.slug
  · subst hu
    have hown := (lookup_after (L := L) hrows hf hfrow f.id).trans (if_pos rfl)
    rw [lookup_slug_eq hafter hf, hown, hkept hown]
    have hright : (scores L (rows.filter fun q => q.id ≠ p.id) p.title).lookup f.slug
        = frow.map fun r => score L p.title r.title := by
      rw [hother hrows, lookup_slug_eq hrows hf, hfrow, hkept hfrow]
      exact congrArg (frow.map ·) (funext fun r => score_comm L hsymm r.title p.title)
    refine (lookup_touch rows hright).trans ?_
    exact congrArg (Option.map · _) (funext fun r => score_comm L hsymm p.title r.title)
  · rw [lookup_touch_of_ne _ hu, lookup_slug_after hevents hrows hf hfrow hu]
    refine (hother hrows u).trans ?_
    cases Keyed.lookup Post.slug u rows with
    | none => rfl
    | some q => by_cases hq : q.id = p.id <;> simp [Option.filter, hq]

/-- Columns assigned without a new title do not change what the other event says of the row. -/
theorem assign_touch (x : Effect) {q : Post σ} {p : PostPayload} (slug : String)
    (hstrip : strip p.title = strip q.title) :
    x.touch L slug (q.assign p.title p.image p.body p.slug)
      = (x.touch L slug q).assign p.title p.image p.body p.slug := by
  cases x with
  | nothing => rfl
  | kept p' => rfl
  | gone => rfl
  | fresh p' =>
    refine Post.ext rfl rfl rfl rfl rfl ?_
    show q.related.insert slug (score L p.title p'.title) =
      q.related.insert slug (score L q.title p'.title)
    rw [(score_strip L hstrip p'.title).1]

/-- The effect on a post does not change with the map of its row. -/
theorem effect_touch (x : Effect) (slug : String) (row : Option (Post σ)) (e : PostEvent) :
    e.effect (row.map (x.touch L slug)) = e.effect row := by
  cases row with
  | none => rfl
  | some q =>
    cases e with
    | created payload p carries => rfl
    | updated payload p carries =>
      show (if strip p.title = strip (x.touch L slug q).title then Effect.kept p else .fresh p) = _
      rw [touch_title]
      rfl
    | deleted payload id slug' hid hslug => rfl

/-- **The row of one event's post, after both.** -/
theorem own_after (hsymm : ∀ a b, L.cosine a b = L.cosine b a)
    (hevents : ∀ e ∈ events, ∀ e' ∈ events, e.id = e'.id ↔ e.slug = e'.slug)
    (hrows : KeyedBySlug events rows) (hf : f ∈ events) (hef : e.id ≠ f.id)
    {row frow : Option (Post σ)} (hfrow : Keyed.lookup Post.id f.id rows = frow) :
    ((e.effect row).own L rows row).map ((f.effect frow).touch L f.slug)
      = (e.effect row).own L (f.after L rows) (row.map ((f.effect frow).touch L f.slug)) := by
  cases e with
  | created payload p carries =>
    cases row with
    | none => exact fresh_touch hsymm hevents hrows hf hfrow hef _ _
    | some q => rfl
  | updated payload p carries =>
    cases row with
    | none => exact fresh_touch hsymm hevents hrows hf hfrow hef _ _
    | some q =>
      dsimp only [PostEvent.effect]
      by_cases hstrip : strip p.title = strip q.title
      · rw [if_pos hstrip]
        exact congrArg some (assign_touch _ _ hstrip)
      · rw [if_neg hstrip]
        exact fresh_touch hsymm hevents hrows hf hfrow hef _ _
  | deleted payload id slug hid hslug => rfl

/-- **Events of different posts commute**, row by row. -/
theorem lookup_comm (hsymm : ∀ a b, L.cosine a b = L.cosine b a)
    (hevents : ∀ e ∈ events, ∀ e' ∈ events, e.id = e'.id ↔ e.slug = e'.slug)
    (hrows : KeyedBySlug events rows) (he : e ∈ events) (hf : f ∈ events) (hef : e.id ≠ f.id) (i : Int) :
    Keyed.lookup Post.id i (f.after L (e.after L rows))
      = Keyed.lookup Post.id i (e.after L (f.after L rows)) := by
  -- the row of one event's post, when the other comes first or second
  have hself : ∀ {e f : PostEvent}, e ∈ events → f ∈ events → e.id ≠ f.id →
      Keyed.lookup Post.id e.id (f.after L (e.after L rows))
        = Keyed.lookup Post.id e.id (e.after L (f.after L rows)) := by
    intro e f he hf hef
    have hfe : (Keyed.lookup Post.id f.id (e.after L rows)) = _ :=
      (lookup_after hrows he rfl f.id).trans (if_neg hef.symm)
    have hee : (Keyed.lookup Post.id e.id (f.after L rows)) = _ :=
      (lookup_after hrows hf rfl e.id).trans (if_neg hef)
    rw [lookup_after (keyed_after hevents hrows he) hf hfe, if_neg hef, effect_touch,
      lookup_after hrows he rfl, if_pos rfl, lookup_after (keyed_after hevents hrows hf) he hee,
      if_pos rfl, effect_touch]
    exact own_after hsymm hevents hrows hf hef rfl
  by_cases hie : i = e.id
  · rw [hie]
    exact hself he hf hef
  by_cases hif : i = f.id
  · rw [hif]
    exact (hself hf he hef.symm).symm
  have hfe : (Keyed.lookup Post.id f.id (e.after L rows)) = _ :=
    (lookup_after hrows he rfl f.id).trans (if_neg hef.symm)
  have hee : (Keyed.lookup Post.id e.id (f.after L rows)) = _ :=
    (lookup_after hrows hf rfl e.id).trans (if_neg hef)
  have hslug : e.slug ≠ f.slug := fun h => hef ((hevents e he f hf).mpr h)
  rw [lookup_after (keyed_after hevents hrows he) hf hfe, if_neg hif, effect_touch,
    lookup_after hrows he rfl, if_neg hie, lookup_after (keyed_after hevents hrows hf) he hee,
    if_neg hie, effect_touch, lookup_after hrows hf rfl, if_neg hif, Option.map_map, Option.map_map]
  exact congrArg (Option.map · _) (funext fun q => touch_comm _ hslug _)

/-- The same rows before, the same rows after. -/
theorem lookup_congr {rows' : List (Post σ)} (hrows : KeyedBySlug events rows)
    (hrows' : KeyedBySlug events rows') (he : e ∈ events)
    (hsame : ∀ i, Keyed.lookup Post.id i rows = Keyed.lookup Post.id i rows') (i : Int) :
    Keyed.lookup Post.id i (e.after L rows) = Keyed.lookup Post.id i (e.after L rows') := by
  have hscores : ∀ (k : Int) title, scores L (rows.filter fun q => q.id ≠ k) title
      = scores L (rows'.filter fun q => q.id ≠ k) title := by
    intro k title
    have hmem : ∀ q, q ∈ rows ↔ q ∈ rows' := by
      intro q
      have hiff : Keyed.lookup Post.id q.id rows = some q ↔
          Keyed.lookup Post.id q.id rows' = some q := by
        rw [hsame]
      rw [Keyed.lookup_eq_some_iff hrows.ids, Keyed.lookup_eq_some_iff hrows'.ids] at hiff
      simpa using hiff
    refine Finmap.ext_lookup fun u => Option.ext fun s => ?_
    rw [lookup_scores (hrows.slugs.sublist (List.filter_sublist.map Post.slug)),
      lookup_scores (hrows'.slugs.sublist (List.filter_sublist.map Post.slug))]
    simp only [List.mem_filter, hmem]
  have hown : ∀ (x : Effect) row, x.own L rows row = x.own L rows' row := by
    intro x row
    cases x with
    | fresh p => exact congrArg some (Post.ext rfl rfl rfl rfl rfl (hscores p.id p.title))
    | _ => rfl
  rw [lookup_after hrows he (hsame e.id), lookup_after hrows' he rfl, hsame, hown]

end Pairs

/-! ## Whole runs -/

variable {L}

/-- What the rearranging of traces asks of a step: it keeps the rows keyed, does not tell apart tables
    with the same rows, and commutes with the step of another post. -/
theorem commutes (hsymm : ∀ a b, L.cosine a b = L.cosine b a) {events : List PostEvent}
    (hevents : ∀ e ∈ events, ∀ e' ∈ events, e.id = e'.id ↔ e.slug = e'.slug) :
    Commutes PostEvent.id (PostEvent.after L) (KeyedBySlug events)
      (fun rows rows' => ∀ i, Keyed.lookup Post.id i rows = Keyed.lookup Post.id i rows')
      (· ∈ events) where
  refl _ _ := rfl
  trans _ _ _ h h' i := (h i).trans (h' i)
  keeps _ _ hrows he := keyed_after hevents hrows he
  congr _ _ _ hrows hrows' he hsame i := lookup_congr hrows hrows' he hsame i
  comm _ _ _ hrows he hf hef i := lookup_comm hsymm hevents hrows he hf hef i

/-- The handlers make of keyed rows what `after` says. -/
theorem changes_spec {events : List PostEvent} {rows : List (Post σ)} (hrows : KeyedBySlug events rows)
    (e : PostEvent) : ∃ cs, e.changes L rows = .ok cs ∧ flush rows cs = some (e.after L rows) := by
  cases e with
  | created payload p carries => exact apply_created_spec carries hrows.ids
  | updated payload p carries => exact apply_updated_spec carries hrows.ids
  | deleted payload id slug hid hslug => exact apply_deleted_spec hslug hrows.ids hrows.slugs

/-- On keyed rows no handler fails. -/
theorem applyAll_eq {events : List PostEvent}
    (hevents : ∀ e ∈ events, ∀ e' ∈ events, e.id = e'.id ↔ e.slug = e'.slug) {l : List PostEvent}
    (hl : ∀ e ∈ l, e ∈ events) {rows : List (Post σ)} (hrows : KeyedBySlug events rows) :
    applyAll L rows l = some (l.foldl (PostEvent.after L) rows) := by
  induction l generalizing rows with
  | nil => rfl
  | cons e l ih =>
    obtain ⟨cs, hcs, hflush⟩ := changes_spec (L := L) hrows e
    have he := hl e List.mem_cons_self
    have hrest := ih (fun e he => hl e (List.mem_cons_of_mem _ he))
      (keyed_after (L := L) hevents hrows he)
    unfold applyAll at hrest ⊢
    rw [List.foldlM_cons, hcs]
    show (flush rows cs).bind _ = _
    rw [hflush]
    exact hrest

/-- **Ordering between different posts does not matter.** -/
theorem rearranged_same (hsymm : ∀ a b, L.cosine a b = L.cosine b a) {events events' : List PostEvent}
    (hevents : ∀ e ∈ events, ∀ e' ∈ events, e.id = e'.id ↔ e.slug = e'.slug)
    (horder : Rearranged PostEvent.id events events') {rows : List (Post σ)}
    (hrows : KeyedBySlug events rows) :
    ∃ t t', applyAll L rows events = some t ∧ applyAll L rows events' = some t' ∧ t.Perm t' := by
  have hcommutes := commutes hsymm hevents
  have hmem : ∀ e ∈ events', e ∈ events := fun e he => horder.perm.mem_iff.mpr he
  have hlast := hcommutes.foldl_keeps (fun _ he => he) hrows
  have hlast' := hcommutes.foldl_keeps hmem hrows
  refine ⟨_, _, applyAll_eq hevents (fun _ he => he) hrows, applyAll_eq hevents hmem hrows, ?_⟩
  -- unique ids, and the same row under each: the tables differ in the order of their rows at most
  refine (List.perm_ext_iff_of_nodup hlast.ids.of_map hlast'.ids.of_map).mpr fun q => ?_
  have hsame := hcommutes.foldl_rearranged (fun _ he => he) horder hrows q.id
  have hiff : Keyed.lookup Post.id q.id (events.foldl (PostEvent.after L) rows) = some q ↔
      Keyed.lookup Post.id q.id (events'.foldl (PostEvent.after L) rows) = some q := by
    rw [hsame]
  rw [Keyed.lookup_eq_some_iff hlast.ids, Keyed.lookup_eq_some_iff hlast'.ids] at hiff
  simpa using hiff

/-- The payload of a post. -/
def payloadOf (p : PostPayload) : Json :=
  .obj [("id", .int p.id), ("title", .str p.title), ("image", optStr p.image),
    ("body", optStr p.body), ("slug", .str p.slug)]

/-- It carries what it is made of. -/
theorem carries_payloadOf (p : PostPayload) : Carries (payloadOf p) p := ⟨rfl, rfl, rfl, rfl, rfl⟩

/-- A `post_created` without an image and a body. -/
def createdEvent (id : Int) (title slug : String) : PostEvent :=
  .created _ ⟨id, title, none, none, slug⟩ (carries_payloadOf _)

/-- The same as a `post_updated`. -/
def updatedEvent (id : Int) (title slug : String) : PostEvent :=
  .updated _ ⟨id, title, none, none, slug⟩ (carries_payloadOf _)

/-- A post is created before, or after, another gets a new title. -/
theorem rearranged_same_creates : ∃ t t',
    applyAll asciiLibs [] [createdEvent 1 "proofs" "a", updatedEvent 1 "tests" "a",
      createdEvent 2 "tests" "b"] = some t ∧
    applyAll asciiLibs [] [createdEvent 1 "proofs" "a", createdEvent 2 "tests" "b",
      updatedEvent 1 "tests" "a"] = some t' ∧ t.Perm t' := by
  refine rearranged_same (fun a b => ?_) (by decide +kernel) ⟨(List.Perm.swap _ _ _).cons _, fun k => ?_⟩
    ⟨List.nodup_nil, List.nodup_nil, by simp⟩
  · show (if a = b then (1 : ℚ) else 0) = if b = a then 1 else 0
    simp only [eq_comm]
  · by_cases h1 : k = 1
    · subst h1
      rfl
    · by_cases h2 : k = 2
      · subst h2
        rfl
      · have h1' : ¬ (1 : Int) = k := fun h => h1 h.symm
        have h2' : ¬ (2 : Int) = k := fun h => h2 h.symm
        simp [createdEvent, updatedEvent, PostEvent.id, h1', h2']

end DjangoFlaskKafka.Related.Commutation
