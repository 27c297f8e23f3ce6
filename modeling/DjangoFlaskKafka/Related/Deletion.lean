/-
  Deletion — what `apply_deleted` takes away, and what it leaves.

  1. **Law** (`Forgets`) — no row has the slug, no map has it as a key, and every other row is there
     with its fields and every other entry of its map.  This holds of any table with unique ids and
     slugs, whatever its maps say.

  2. **Consequence** — a deletion undoes a creation.  `apply_created` adds one row, and one entry to
     the map of every other; the loop of `apply_deleted` takes the entries away again one by one
     (`deleted_added`).  So when neither the row nor the entries were there before, the table is as
     it was (`deletion_forgets_and_undoes`).
-/
import DjangoFlaskKafka.Related.Consumer

namespace DjangoFlaskKafka.Related

open Python Kafka

variable {σ : Type} {L : Libs σ} {rows : List (Post σ)} {slug : String}

/-! ## Law -/

/-- The row as it was, but for the entry of its map at this key. -/
def Post.KeptBut (slug : String) (before after : Post σ) : Prop :=
  after = before.relate after.related ∧
    ∀ key, key ≠ slug → after.related.lookup key = before.related.lookup key

/-- Nothing of the slug is left, and everything else is. -/
structure Forgets (slug : String) (before after : List (Post σ)) : Prop where
  gone : ∀ q ∈ after, q.slug ≠ slug ∧ q.related.lookup slug = none
  kept : List.Forall₂ (Post.KeptBut slug) (before.filter fun q => q.slug ≠ slug) after

/-- The rows once the changes of a handler are flushed; `none` when it raises or a statement fails. -/
def applied (rows : List (Post σ)) (changes : Except PyErr (List (Change σ))) :
    Option (List (Post σ)) :=
  changes.toOption.bind (flush rows)

/-- Nothing in the table has this id or this slug, and no map has an entry for it. -/
structure Unknown (rows : List (Post σ)) (id : Int) (slug : String) : Prop where
  new_id : ∀ q ∈ rows, q.id ≠ id
  new_slug : ∀ q ∈ rows, q.slug ≠ slug
  new_key : ∀ q ∈ rows, q.related.lookup slug = none

/-! ## What a deletion leaves -/

theorem forgets_deleted (rows : List (Post σ)) (slug : String) :
    Forgets slug rows (deleted rows slug) where
  gone q hq := by
    obtain ⟨p, hp, rfl⟩ := List.mem_map.mp hq
    exact ⟨of_decide_eq_true (List.mem_filter.mp hp).2, Finmap.lookup_erase slug p.related⟩
  kept := by
    unfold deleted
    rw [List.forall₂_map_right_iff, List.forall₂_same]
    exact fun p _ => ⟨rfl, fun key hkey => Finmap.lookup_erase_ne hkey⟩

theorem applied_deleted (hids : (rows.map Post.id).Nodup) (hslugs : (rows.map Post.slug).Nodup)
    {payload : Json} (h : payload.item "slug" = .ok (.str slug)) :
    applied rows (applyDeleted L rows payload) = some (deleted rows slug) := by
  obtain ⟨cs, hcs, hflush⟩ := apply_deleted_spec (L := L) h hids hslugs
  unfold applied
  rw [hcs]
  exact hflush

/-! ## What a creation adds -/

/-- The table with a new row, of which the others have been told these scores. -/
def added (rows : List (Post σ)) (slug : String) (score : Post σ → σ) (row : Post σ) :
    List (Post σ) :=
  rows.map (fun q => q.relate (q.related.insert slug (score q))) ++ [row]

theorem erase_insert {related : RelatedMap σ} (h : related.lookup slug = none) (x : σ) :
    (related.insert slug x).erase slug = related := by
  refine Finmap.ext_lookup fun key => ?_
  by_cases hkey : key = slug
  · rw [hkey, Finmap.lookup_erase, h]
  · rw [Finmap.lookup_erase_ne hkey, Finmap.lookup_insert_of_ne _ hkey]

/-- **A deletion takes away what a creation has added.** -/
theorem deleted_added (hslug : ∀ q ∈ rows, q.slug ≠ slug)
    (hrelated : ∀ q ∈ rows, q.related.lookup slug = none) (score : Post σ → σ) {row : Post σ}
    (hrow : row.slug = slug) : deleted (added rows slug score row) slug = rows := by
  have hkept : (added rows slug score row).filter (fun q => q.slug ≠ slug)
      = rows.map fun q => q.relate (q.related.insert slug (score q)) := by
    unfold added
    rw [List.filter_append, List.filter_eq_self.mpr, List.filter_eq_nil_iff.mpr, List.append_nil]
    · intro q hq
      rw [List.mem_singleton.mp hq]
      simp [hrow]
    · intro q hq
      obtain ⟨p, hp, rfl⟩ := List.mem_map.mp hq
      exact decide_eq_true (hslug p hp)
  unfold deleted
  rw [hkept, List.map_map]
  refine (List.map_congr_left fun q hq => ?_).trans (List.map_id rows)
  show q.relate ((q.related.insert slug (score q)).erase slug) = q
  rw [erase_insert (hrelated q hq)]
  rfl

section Created

variable [Zero σ]

/-- **What `apply_created` has made of a table**, when it neither raised nor failed. -/
theorem applied_created_eq_some (hids : (rows.map Post.id).Nodup) {payload : Json} {id : Int}
    (hid : (payload.item "id" >>= L.sqlInt) = .ok (some id))
    (hslug : payload.item "slug" = .ok (.str slug)) (hnew : ∀ q ∈ rows, q.id ≠ id)
    {rows' : List (Post σ)} (h : applied rows (applyCreated L rows payload) = some rows') :
    ∃ score row, row.id = id ∧ row.slug = slug ∧ rows' = added rows slug score row := by
  obtain ⟨cs, hcs, hflush⟩ := Option.bind_eq_some_iff.mp h
  have hcs : applyCreated L rows payload = .ok cs := by
    cases hx : applyCreated L rows payload with
    | error e =>
      rw [hx] at hcs
      cases hcs
    | ok cs' =>
      rw [hx] at hcs
      rw [Option.some.inj hcs]
  obtain ⟨idJson, hitem, hbind⟩ := bind_eq_ok.mp hid
  unfold applyCreated at hcs
  rw [hitem] at hcs
  change (L.sqlInt idJson >>= _) = _ at hcs
  rw [hbind] at hcs
  have hnone : getPost rows (some id) = none := Keyed.lookup_eq_none_iff.mpr hnew
  change (if (getPost rows (some id)).isSome then _ else _) = _ at hcs
  rw [if_neg (by rw [hnone]; simp)] at hcs
  obtain ⟨title, -, hcs⟩ := bind_eq_ok.mp hcs
  obtain ⟨slugJson, hslugJson, hcs⟩ := bind_eq_ok.mp hcs
  obtain rfl : slugJson = .str slug := Except.ok.inj (hslugJson.symm.trans hslug)
  obtain ⟨scored, hscored, hcs⟩ := bind_eq_ok.mp hcs
  let score : Post σ → σ := fun q => (triple L title (.str slug) q).2.2
  obtain rfl : rows.map (fun q => (q, slug, score q)) = scored := (eq_triples_of_ok hscored).symm
  obtain ⟨imageJson, -, hcs⟩ := bind_eq_ok.mp hcs
  obtain ⟨bodyJson, -, hcs⟩ := bind_eq_ok.mp hcs
  obtain ⟨-, -, hcs⟩ := bind_eq_ok.mp hcs
  obtain ⟨newId, hnewId, hcs⟩ := bind_eq_ok.mp hcs
  obtain rfl := newId_eq_ok hnewId
  obtain ⟨id', hid', hcs⟩ := bind_eq_ok.mp hcs
  obtain rfl : id = id' := Except.ok.inj hid'
  obtain ⟨titleText, -, hcs⟩ := bind_eq_ok.mp hcs
  obtain ⟨title', -, hcs⟩ := bind_eq_ok.mp hcs
  obtain ⟨image, -, hcs⟩ := bind_eq_ok.mp hcs
  obtain ⟨body, -, hcs⟩ := bind_eq_ok.mp hcs
  obtain ⟨slugText, hslugText, hcs⟩ := bind_eq_ok.mp hcs
  obtain rfl : some slug = slugText := Except.ok.inj ((textOf_str L slug).symm.trans hslugText)
  obtain ⟨slug', hslug', hcs⟩ := bind_eq_ok.mp hcs
  obtain rfl : slug = slug' := Except.ok.inj hslug'
  let row : Post σ :=
    ⟨id, title', image, body, slug, forwardRefs (rows.map fun q => (q, slug, score q))⟩
  refine ⟨score, row, rfl, rfl, ?_⟩
  have hloop := flush_backRefs (L := L) hids (fun _ => true) slug score
  rw [List.filter_true] at hloop
  rw [← Except.ok.inj hcs, flush_append, hloop] at hflush
  exact (Option.some.inj hflush).symm

end Created

/-- The constraints of a table with a new row. -/
theorem nodup_added {α : Type} {key : Post σ → α} (hkey : ∀ related q, key (Post.relate related q) = key q)
    (h : (rows.map key).Nodup) (score : Post σ → σ) {row : Post σ}
    (hnew : ∀ q ∈ rows, key q ≠ key row) : ((added rows slug score row).map key).Nodup := by
  unfold added
  rw [List.map_append, List.map_map, List.nodup_append]
  rw [show key ∘ (fun q => q.relate (q.related.insert slug (score q))) = key from
    funext fun q => hkey _ q]
  refine ⟨h, List.nodup_singleton _, fun a ha b hb => ?_⟩
  obtain ⟨q, hq, rfl⟩ := List.mem_map.mp ha
  rw [List.map_singleton, List.mem_singleton] at hb
  exact hb ▸ hnew q hq

/-! ## The two laws -/

/-- **A deletion takes away every trace of a post and nothing else**; so it undoes a creation. -/
theorem deletion_forgets_and_undoes [Zero σ] (L : Libs σ) {rows : List (Post σ)}
    (hids : (rows.map Post.id).Nodup) (hslugs : (rows.map Post.slug).Nodup) :
    (∀ payload slug, payload.item "slug" = .ok (.str slug) →
      ∃ rows', applied rows (applyDeleted L rows payload) = some rows' ∧ Forgets slug rows rows') ∧
    ∀ payload payload' id slug, (payload.item "id" >>= L.sqlInt) = .ok (some id) →
      payload.item "slug" = .ok (.str slug) → payload'.item "slug" = .ok (.str slug) →
      Unknown rows id slug → ∀ rows', applied rows (applyCreated L rows payload) = some rows' →
        applied rows' (applyDeleted L rows' payload') = some rows := by
  refine ⟨fun payload slug hslug => ⟨_, applied_deleted hids hslugs hslug, forgets_deleted rows slug⟩,
    ?_⟩
  intro payload payload' id slug hid hslug hslug' hnew rows' hcreated
  obtain ⟨score, row, hrowId, hrowSlug, rfl⟩ :=
    applied_created_eq_some hids hid hslug hnew.new_id hcreated
  have hids' : ((added rows slug score row).map Post.id).Nodup :=
    nodup_added (fun _ _ => rfl) hids score fun q hq => hrowId ▸ hnew.new_id q hq
  have hslugs' : ((added rows slug score row).map Post.slug).Nodup :=
    nodup_added (fun _ _ => rfl) hslugs score fun q hq => hrowSlug ▸ hnew.new_slug q hq
  rw [applied_deleted hids' hslugs' hslug', deleted_added hnew.new_slug hnew.new_key score hrowSlug]

/-- A table with one post, whose map knows of a post that is gone. -/
def staleTable : List (Post ℚ) :=
  [⟨1, "Kafka streams", none, none, "kafka", (∅ : RelatedMap ℚ).insert "gone" 1⟩]

/-- The payload of a second post. -/
def secondPost : Json :=
  .obj [("id", .int 2), ("title", .str "Kafka basics"), ("image", .null), ("body", .null),
    ("slug", .str "basics")]

theorem deletion_undoes_secondPost :
    ∃ rows, applied staleTable (applyCreated asciiLibs staleTable secondPost) = some rows ∧
      applied rows (applyDeleted asciiLibs rows secondPost) = some staleTable := by
  have hids : (staleTable.map Post.id).Nodup := by decide
  have hcarries : Carries secondPost ⟨2, "Kafka basics", none, none, "basics"⟩ :=
    ⟨rfl, rfl, rfl, rfl, rfl⟩
  obtain ⟨cs, hcs, hflush⟩ := apply_created_spec (L := asciiLibs) hcarries hids
  have hcreated : applied staleTable (applyCreated asciiLibs staleTable secondPost)
      = some (created asciiLibs staleTable ⟨2, "Kafka basics", none, none, "basics"⟩) := by
    unfold applied
    rw [hcs]
    exact hflush
  have hnew : Unknown staleTable 2 "basics" := ⟨by decide, by decide, by decide⟩
  exact ⟨_, hcreated, (deletion_forgets_and_undoes asciiLibs hids (by decide)).2 secondPost
    secondPost 2 "basics" rfl rfl rfl hnew _ hcreated⟩

end DjangoFlaskKafka.Related
