/-
  Exact related maps — what `created`, `updated` and `deleted` do to the `related` columns.

  1. **Law** — `Exact L rows` says of a table that every `related` map is what a fresh computation
     would give: its entries are the slugs and scores of all OTHER rows, no more and no less.

  2. **What keeps it** — the three handlers patch the maps incrementally, each from both ends of
     every pair: the entry of the new row in the maps of the others, and their entries in its own.
     A create does both at once, and the two entries agree because the score is symmetric
     (`exact_created`); a delete takes the one out with the key and the other with the row
     (`exact_deleted`).

  3. **The crux** — an update is told of one row at a time (`Post.revise`), and the entries that the
     maps should have are split in the same way: that of the updated row, and those of the rest,
     which stay (`entry_revise_iff`, `entry_iff`).  It keeps a table exact if it leaves the slug
     alone — also when it only changes the whitespace around the title, and so takes the early
     return (`score_strip`).  But no branch of `apply_updated` takes the old slug out of the other
     rows' maps, so an update that changes the slug keeps the table exact only when there are no
     other rows (`exact_updated_iff`).
-/
import DjangoFlaskKafka.Related.Consumer

namespace DjangoFlaskKafka.Related

open Python Kafka Postgres

variable {σ : Type} [Zero σ] (L : Libs σ)

/-- The row's map has exactly the entries it should have next to `rows`. -/
def ExactFor (rows : List (Post σ)) (p : Post σ) : Prop :=
  ∀ slug s, p.related.lookup slug = some s ↔
    ∃ q ∈ rows, q.id ≠ p.id ∧ q.slug = slug ∧ s = score L p.title q.title

/-- All related maps are exact. -/
def Exact (rows : List (Post σ)) : Prop := ∀ p ∈ rows, ExactFor L rows p

variable {L}

/-! ## Computing a map afresh -/

/-- The entries of freshly computed scores. -/
theorem lookup_scores {others : List (Post σ)} (hslugs : (others.map Post.slug).Nodup)
    (title slug : String) (s : σ) : (scores L others title).lookup slug = some s ↔
      ∃ q ∈ others, q.slug = slug ∧ s = score L q.title title := by
  induction others using List.reverseRecOn with
  | nil => simp [scores]
  | append_singleton others x ih =>
    rw [List.map_append, List.nodup_append] at hslugs
    obtain ⟨hothers, -, hx⟩ := hslugs
    have hfold : scores L (others ++ [x]) title
        = (scores L others title).insert x.slug (score L x.title title) := by
      unfold scores
      rw [List.foldl_append]
      rfl
    rw [hfold]
    -- the last insertion decides its own slug, and no other row has that
    by_cases hslug : slug = x.slug
    · subst hslug
      rw [Finmap.lookup_insert, Option.some.injEq]
      constructor
      · rintro rfl
        exact ⟨x, by simp, rfl, rfl⟩
      · rintro ⟨q, hq, hqx, rfl⟩
        rcases List.mem_append.mp hq with hq | hq
        · exact absurd hqx (hx q.slug (List.mem_map_of_mem hq) x.slug (by simp))
        · rw [List.mem_singleton.mp hq]
    · rw [Finmap.lookup_insert_of_ne _ hslug, ih hothers]
      constructor
      · rintro ⟨q, hq, h⟩
        exact ⟨q, List.mem_append_left _ hq, h⟩
      · rintro ⟨q, hq, hqs, h⟩
        rcases List.mem_append.mp hq with hq | hq
        · exact ⟨q, hq, hqs, h⟩
        · obtain rfl := List.mem_singleton.mp hq
          exact absurd hqs.symm hslug

/-! ## Creating -/

/-- **A create keeps the maps exact.** -/
theorem exact_created (hsymm : ∀ a b, L.cosine a b = L.cosine b a) {rows : List (Post σ)}
    (h : Exact L rows) {p : PostPayload} (hnew : ∀ q ∈ rows, q.id ≠ p.id)
    (hslugs : ((created L rows p).map Post.slug).Nodup) : Exact L (created L rows p) := by
  have hcreated : created L rows p = rows.map (Post.refer L p.slug p.title) ++ [createdRow L rows p] :=
    if_neg fun hold => by
      obtain ⟨q, hq, hid⟩ := Keyed.lookup_isSome_iff.mp hold
      exact hnew q hq hid
  rw [hcreated] at hslugs ⊢
  have hfree : ∀ q ∈ rows, q.slug ≠ p.slug := by
    intro q hq
    rw [List.map_append, List.nodup_append] at hslugs
    refine hslugs.2.2 q.slug ?_ p.slug (by simp [createdRow])
    rw [List.map_map]
    exact List.mem_map_of_mem hq
  intro x hx
  rcases List.mem_append.mp hx with hx | hx
  · -- an old row: the new slug is entered, and what was there before is of the old rows
    obtain ⟨q, hq, rfl⟩ := List.mem_map.mp hx
    intro slug s
    show (q.related.insert p.slug (score L q.title p.title)).lookup slug = some s ↔ _
    by_cases hslug : slug = p.slug
    · subst hslug
      rw [Finmap.lookup_insert, Option.some.injEq]
      constructor
      · rintro rfl
        exact ⟨createdRow L rows p, by simp, (hnew q hq).symm, rfl, rfl⟩
      · rintro ⟨y, hy, -, hys, rfl⟩
        rcases List.mem_append.mp hy with hy | hy
        · obtain ⟨r, hr, rfl⟩ := List.mem_map.mp hy
          exact absurd hys (hfree r hr)
        · rw [List.mem_singleton.mp hy]
          rfl
    · rw [Finmap.lookup_insert_of_ne _ hslug, h q hq]
      constructor
      · rintro ⟨r, hr, hid, hrs, rfl⟩
        exact ⟨r.refer L p.slug p.title, List.mem_append_left _ (List.mem_map_of_mem hr), hid, hrs, rfl⟩
      · rintro ⟨y, hy, hid, hys, rfl⟩
        rcases List.mem_append.mp hy with hy | hy
        · obtain ⟨r, hr, rfl⟩ := List.mem_map.mp hy
          exact ⟨r, hr, hid, hys, rfl⟩
        · obtain rfl := List.mem_singleton.mp hy
          exact absurd hys.symm hslug
  · -- the new row: its scores were taken the other way round
    obtain rfl := List.mem_singleton.mp hx
    intro slug s
    show (scores L rows p.title).lookup slug = some s ↔ _
    have hrows : (rows.map Post.slug).Nodup := by
      rw [List.map_append, List.nodup_append, List.map_map] at hslugs
      exact hslugs.1
    rw [lookup_scores hrows]
    constructor
    · rintro ⟨q, hq, hqs, rfl⟩
      exact ⟨q.refer L p.slug p.title, List.mem_append_left _ (List.mem_map_of_mem hq), hnew q hq, hqs,
        score_comm L hsymm _ _⟩
    · rintro ⟨y, hy, hid, hys, rfl⟩
      rcases List.mem_append.mp hy with hy | hy
      · obtain ⟨q, hq, rfl⟩ := List.mem_map.mp hy
        exact ⟨q, hq, hys, score_comm L hsymm _ _⟩
      · obtain rfl := List.mem_singleton.mp hy
        exact absurd rfl hid

/-! ## Deleting -/

/-- **A delete keeps the maps exact.** -/
theorem exact_deleted {rows : List (Post σ)} (h : Exact L rows) (slug : String) :
    Exact L (deleted rows slug) := by
  intro x hx
  obtain ⟨p, hp, rfl⟩ := List.mem_map.mp hx
  obtain ⟨hp, -⟩ := List.mem_filter.mp hp
  intro slug' s
  show (p.related.erase slug).lookup slug' = some s ↔ _
  by_cases hslug : slug' = slug
  · -- the entry is gone, and so is the row
    subst hslug
    rw [Finmap.lookup_erase]
    refine iff_of_false (by simp) ?_
    rintro ⟨y, hy, -, hys, -⟩
    obtain ⟨q, hq, rfl⟩ := List.mem_map.mp hy
    exact absurd hys (by simpa using (List.mem_filter.mp hq).2)
  · rw [Finmap.lookup_erase_ne hslug, h p hp]
    constructor
    · rintro ⟨q, hq, hid, hqs, rfl⟩
      refine ⟨q.relate (q.related.erase slug), List.mem_map_of_mem (List.mem_filter.mpr ⟨hq, ?_⟩),
        hid, hqs, rfl⟩
      simpa using fun heq => hslug (hqs.symm.trans heq)
    · rintro ⟨y, hy, hid, hys, rfl⟩
      obtain ⟨q, hq, rfl⟩ := List.mem_map.mp hy
      exact ⟨q, (List.mem_filter.mp hq).1, hid, hys, rfl⟩

/-! ## Updating -/

variable (L) in
/-- What `updated` makes of one row `q`, when the row it finds has the title `old`. -/
def Post.revise (rows : List (Post σ)) (p : PostPayload) (old : String) (q : Post σ) : Post σ :=
  if strip p.title = strip old then
    if q.id = p.id then q.assign p.title p.image p.body p.slug else q
  else
    if q.id = p.id then
      (q.assign p.title p.image p.body p.slug).relate
        (scores L (rows.filter fun q => q.id ≠ p.id) p.title)
    else q.refer L p.slug p.title

/-- **An update goes row by row.** -/
theorem updated_eq_map {rows : List (Post σ)} {p : PostPayload} {post : Post σ}
    (h : Keyed.lookup Post.id p.id rows = some post) :
    updated L rows p = rows.map (Post.revise L rows p post.title) := by
  unfold updated Post.revise
  rw [h]
  by_cases hstrip : strip p.title = strip post.title
  · simp only [hstrip, if_true]
    rfl
  · simp only [hstrip, if_false]

section Revise

variable {rows : List (Post σ)} {p : PostPayload} {post q : Post σ}

variable (L rows) in
theorem revise_id (old : String) : (q.revise L rows p old).id = q.id := by
  unfold Post.revise
  split <;> split <;> rfl

variable (L rows) in
/-- The updated row has what the payload says, whichever branch was taken. -/
theorem revise_self (hq : q.id = p.id) (old : String) :
    (q.revise L rows p old).slug = p.slug ∧ (q.revise L rows p old).title = p.title := by
  unfold Post.revise
  split <;> exact ⟨rfl, rfl⟩

variable (L rows) in
/-- The other rows keep all but their maps. -/
theorem revise_other (hq : q.id ≠ p.id) (old : String) :
    (q.revise L rows p old).slug = q.slug ∧ (q.revise L rows p old).title = q.title := by
  unfold Post.revise
  split <;> exact ⟨rfl, rfl⟩

/-- The entries next to the revised rows: one for the updated row, and those of the others as
    before. -/
theorem entry_revise_iff (hpost : post ∈ rows) (hid : post.id = p.id) {i : Int} (hi : i ≠ p.id)
    (title slug : String) (s : σ) :
    (∃ y ∈ rows.map (Post.revise L rows p post.title),
      y.id ≠ i ∧ y.slug = slug ∧ s = score L title y.title) ↔
      (slug = p.slug ∧ s = score L title p.title) ∨
        ∃ r ∈ rows, r.id ≠ p.id ∧ r.id ≠ i ∧ r.slug = slug ∧ s = score L title r.title := by
  constructor
  · rintro ⟨y, hy, hyi, rfl, rfl⟩
    obtain ⟨r, hr, rfl⟩ := List.mem_map.mp hy
    rw [revise_id] at hyi
    by_cases hrp : r.id = p.id
    · obtain ⟨hslug, htitle⟩ := revise_self L rows hrp post.title
      exact .inl ⟨hslug, by rw [htitle]⟩
    · obtain ⟨hslug, htitle⟩ := revise_other L rows hrp post.title
      exact .inr ⟨r, hr, hrp, hyi, hslug.symm, by rw [htitle]⟩
  · rintro (⟨rfl, rfl⟩ | ⟨r, hr, hrp, hri, rfl, rfl⟩)
    · obtain ⟨hslug, htitle⟩ := revise_self L rows hid post.title
      exact ⟨_, List.mem_map_of_mem hpost, by rw [revise_id, hid]; exact hi.symm, hslug, by rw [htitle]⟩
    · obtain ⟨hslug, htitle⟩ := revise_other L rows hrp post.title
      exact ⟨_, List.mem_map_of_mem hr, by rwa [revise_id], hslug, by rw [htitle]⟩

/-- The entries next to the rows as they were, taken apart in the same way. -/
theorem entry_iff (hids : (rows.map Post.id).Nodup) (hpost : post ∈ rows) (hid : post.id = p.id)
    {i : Int} (hi : i ≠ p.id) (title slug : String) (s : σ) :
    (∃ r ∈ rows, r.id ≠ i ∧ r.slug = slug ∧ s = score L title r.title) ↔
      (slug = post.slug ∧ s = score L title post.title) ∨
        ∃ r ∈ rows, r.id ≠ p.id ∧ r.id ≠ i ∧ r.slug = slug ∧ s = score L title r.title := by
  constructor
  · rintro ⟨r, hr, hri, rfl, rfl⟩
    by_cases hrp : r.id = p.id
    · obtain rfl := List.inj_on_of_nodup_map hids hr hpost (hrp.trans hid.symm)
      exact .inl ⟨rfl, rfl⟩
    · exact .inr ⟨r, hr, hrp, hri, rfl, rfl⟩
  · rintro (⟨rfl, rfl⟩ | ⟨r, hr, -, hri, rfl, rfl⟩)
    · exact ⟨post, hpost, by rw [hid]; exact hi.symm, rfl, rfl⟩
    · exact ⟨r, hr, hri, rfl, rfl⟩

/-- The updated row's own map is exact, recomputed or not. -/
theorem exactFor_revise_self (hsymm : ∀ a b, L.cosine a b = L.cosine b a) (h : Exact L rows)
    (hslugs : (rows.map Post.slug).Nodup) (hpost : post ∈ rows) (hid : post.id = p.id) :
    ExactFor L (rows.map (Post.revise L rows p post.title)) (post.revise L rows p post.title) := by
  intro slug s
  obtain ⟨-, htitle⟩ := revise_self L rows hid post.title
  rw [htitle]
  -- next to the revised rows the entries are those of the other rows, for the new title
  have hothers : (∃ y ∈ rows.map (Post.revise L rows p post.title),
      y.id ≠ (post.revise L rows p post.title).id ∧
      y.slug = slug ∧ s = score L p.title y.title) ↔
      ∃ r ∈ rows, r.id ≠ p.id ∧ r.slug = slug ∧ s = score L p.title r.title := by
    rw [revise_id, hid]
    constructor
    · rintro ⟨y, hy, hyp, rfl, rfl⟩
      obtain ⟨r, hr, rfl⟩ := List.mem_map.mp hy
      rw [revise_id] at hyp
      obtain ⟨hslug', htitle'⟩ := revise_other L rows hyp post.title
      exact ⟨r, hr, hyp, hslug'.symm, by rw [htitle']⟩
    · rintro ⟨r, hr, hrp, rfl, rfl⟩
      obtain ⟨hslug', htitle'⟩ := revise_other L rows hrp post.title
      exact ⟨_, List.mem_map_of_mem hr, by rwa [revise_id], hslug', by rw [htitle']⟩
  rw [hothers]
  unfold Post.revise
  split
  · -- the early return: the old map, whose scores are those of the new title as well
    rename_i hstrip
    show post.related.lookup slug = some s ↔ _
    rw [h post hpost, hid]
    refine exists_congr fun r => ?_
    rw [(score_strip L hstrip r.title).1]
  · show (scores L _ p.title).lookup slug = some s ↔ _
    rw [lookup_scores (hslugs.sublist (List.filter_sublist.map _))]
    simp only [List.mem_filter, decide_eq_true_eq]
    refine exists_congr fun r => ?_
    rw [and_assoc, score_comm L hsymm r.title]

/-- **Another row's map is exact after an update exactly when the slug stayed.** -/
theorem exactFor_revise_other_iff (h : Exact L rows) (hids : (rows.map Post.id).Nodup)
    (hslugs : (rows.map Post.slug).Nodup)
    (hslugs' : ((rows.map (Post.revise L rows p post.title)).map Post.slug).Nodup) (hpost : post ∈ rows)
    (hid : post.id = p.id) (hq : q ∈ rows) (hqp : q.id ≠ p.id) :
    ExactFor L (rows.map (Post.revise L rows p post.title)) (q.revise L rows p post.title) ↔
      p.slug = post.slug := by
  -- no other row has the new slug
  have hfree : ∀ r ∈ rows, r.id ≠ p.id → r.slug ≠ p.slug := by
    intro r hr hrp heq
    have hslug := (revise_self L rows hid post.title).1
    have hslug' := (revise_other L rows hrp post.title).1
    have hsame := List.inj_on_of_nodup_map hslugs' (List.mem_map_of_mem hr)
      (List.mem_map_of_mem hpost) (hslug'.trans (heq.trans hslug.symm))
    have hids' := congrArg Post.id hsame
    rw [revise_id, revise_id, hid] at hids'
    exact hrp hids'
  have hentries :
      ExactFor L (rows.map (Post.revise L rows p post.title)) (q.revise L rows p post.title) ↔
      ∀ slug s, (q.revise L rows p post.title).related.lookup slug = some s ↔
        (slug = p.slug ∧ s = score L q.title p.title) ∨
          ∃ r ∈ rows, r.id ≠ p.id ∧ r.id ≠ q.id ∧ r.slug = slug ∧ s = score L q.title r.title := by
    refine forall_congr' fun slug => forall_congr' fun s => ?_
    rw [revise_id, (revise_other L rows hqp post.title).2, entry_revise_iff hpost hid hqp]
  have hold : ∀ slug s, q.related.lookup slug = some s ↔
      (slug = post.slug ∧ s = score L q.title post.title) ∨
        ∃ r ∈ rows, r.id ≠ p.id ∧ r.id ≠ q.id ∧ r.slug = slug ∧ s = score L q.title r.title :=
    fun slug s => (h q hq slug s).trans (entry_iff hids hpost hid hqp q.title slug s)
  rw [hentries]
  -- the map is left alone or patched, and either way holds whatever it held of the old slug
  by_cases hstrip : strip p.title = strip post.title
  · have hrelated : (q.revise L rows p post.title).related = q.related := by
      unfold Post.revise
      rw [if_pos hstrip, if_neg hqp]
    simp only [hrelated, hold, (score_strip L hstrip q.title).2]
    constructor
    · intro hexact
      rcases (hexact p.slug _).mpr (.inl ⟨rfl, rfl⟩) with ⟨hslug, -⟩ | ⟨r, hr, hrp, -, hslug, -⟩
      · exact hslug
      · exact absurd hslug (hfree r hr hrp)
    · rintro hslug slug s
      rw [hslug]
  · have hrelated : (q.revise L rows p post.title).related
        = q.related.insert p.slug (score L q.title p.title) := by
      unfold Post.revise
      rw [if_neg hstrip, if_neg hqp]
      rfl
    rw [hrelated]
    constructor
    · -- a new slug leaves the entry of the old one behind, which is no row's
      intro hexact
      by_contra hslug
      have hstale := hexact post.slug (score L q.title post.title)
      rw [Finmap.lookup_insert_of_ne _ (Ne.symm hslug), hold] at hstale
      rcases hstale.mp (.inl ⟨rfl, rfl⟩) with ⟨heq, -⟩ | ⟨r, hr, hrp, -, heq, -⟩
      · exact hslug heq.symm
      · exact hrp (List.inj_on_of_nodup_map hslugs hr hpost heq ▸ hid)
    · intro heq slug s
      by_cases hslug : slug = p.slug
      · subst hslug
        rw [Finmap.lookup_insert, Option.some.injEq]
        constructor
        · rintro rfl
          exact .inl ⟨rfl, rfl⟩
        · rintro (⟨-, rfl⟩ | ⟨r, hr, hrp, -, hrs, -⟩)
          · rfl
          · exact absurd hrs (hfree r hr hrp)
      · rw [Finmap.lookup_insert_of_ne _ hslug, hold, ← heq]
        exact or_congr_left (by simp [hslug])

/-- **An update keeps the maps exact exactly when it leaves the slug alone or there is no other
    row.** -/
theorem exact_updated_iff (hsymm : ∀ a b, L.cosine a b = L.cosine b a) (h : Exact L rows)
    (hids : (rows.map Post.id).Nodup) (hslugs : (rows.map Post.slug).Nodup)
    (hslugs' : ((updated L rows p).map Post.slug).Nodup) (hpost : post ∈ rows)
    (hid : post.id = p.id) :
    Exact L (updated L rows p) ↔ p.slug = post.slug ∨ ∀ q ∈ rows, q.id = p.id := by
  have hlookup : Keyed.lookup Post.id p.id rows = some post :=
    (Keyed.lookup_eq_some_iff hids).mpr ⟨hpost, hid⟩
  rw [updated_eq_map hlookup] at hslugs' ⊢
  constructor
  · intro hexact
    by_contra hno
    obtain ⟨hslug, hother⟩ := not_or.mp hno
    push Not at hother
    obtain ⟨q, hq, hqp⟩ := hother
    exact hslug ((exactFor_revise_other_iff h hids hslugs hslugs' hpost hid hq hqp).mp
      (hexact _ (List.mem_map_of_mem hq)))
  · intro hcond y hy
    obtain ⟨q, hq, rfl⟩ := List.mem_map.mp hy
    by_cases hqp : q.id = p.id
    · obtain rfl := List.inj_on_of_nodup_map hids hq hpost (hqp.trans hid.symm)
      exact exactFor_revise_self hsymm h hslugs hpost hid
    · rcases hcond with hslug | halone
      · exact (exactFor_revise_other_iff h hids hslugs hslugs' hpost hid hq hqp).mpr hslug
      · exact absurd (halone q hq) hqp

end Revise

end DjangoFlaskKafka.Related
