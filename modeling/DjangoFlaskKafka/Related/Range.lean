/-
  Range — what the scores on record are worth, whatever is sent.

  1. **Program** — the consumer of `Related.Main`, with any records in the log: any shape, any field
     types, any interruptions and restarts.

  2. **Law** — `recorded_scores_mem`: in every state of every run, every score in the `related` map
     of every row is between 0 and 1.

  3. **The crux** — a handler writes into a map what is in that map already and what `similarity`
     has returned, and nothing else (`handlers_meet`); and `similarity` returns zero or a cosine,
     for titles that are no strings as well.
-/
import DjangoFlaskKafka.Related.Main
import DjangoFlaskKafka.Related.Score
import DjangoFlaskKafka.Lib.Raising

namespace DjangoFlaskKafka.Related

open Python Kafka Machine Raising

variable {σ : Type} (P : σ → Prop)

/-! ## The law -/

/-- The scores of a map meet `P`. -/
def Scored (related : RelatedMap σ) : Prop := ∀ key x, related.lookup key = some x → P x

/-- So do those of all rows. -/
def AllScored (rows : List (Post σ)) : Prop := ∀ p ∈ rows, Scored P p.related

/-- So do those that a change writes. -/
def Change.Meets : Change σ → Prop
  | .insert row => Scored P row.related
  | .relate _ related => Scored P related
  | _ => True

variable {P}

/-- A map starts without scores. -/
theorem scored_empty : Scored P (∅ : RelatedMap σ) := by
  intro key x h
  rw [Finmap.lookup_empty] at h
  cases h

/-- An entry comes in, or takes the place of the one under its key. -/
theorem Scored.insert {related : RelatedMap σ} (h : Scored P related) (slug : String) {x : σ}
    (hx : P x) : Scored P (related.insert slug x) := by
  intro key y hy
  by_cases hkey : key = slug
  · rw [hkey, Finmap.lookup_insert] at hy
    exact Option.some.inj hy ▸ hx
  · rw [Finmap.lookup_insert_of_ne _ hkey] at hy
    exact h key y hy

theorem Scored.erase {related : RelatedMap σ} (h : Scored P related) (slug : String) :
    Scored P (related.erase slug) := by
  intro key y hy
  by_cases hkey : key = slug
  · rw [hkey, Finmap.lookup_erase] at hy
    cases hy
  · rw [Finmap.lookup_erase_ne hkey] at hy
    exact h key y hy

/-! ## What a flush keeps -/

/-- A statement writes what its change has, and leaves the maps of the other rows as they are. -/
theorem apply_keeps {rows rows' : List (Post σ)} {c : Change σ} (hrows : AllScored P rows)
    (hc : c.Meets P) (h : c.apply rows = some rows') : AllScored P rows' := by
  intro p hp
  cases c with
  | insert row =>
    obtain rfl : rows ++ [row] = rows' := Option.some.inj h
    rcases List.mem_append.mp hp with hp | hp
    · exact hrows p hp
    · obtain rfl := List.mem_singleton.mp hp
      exact hc
  | assign id columns =>
    obtain ⟨-, h⟩ := Option.ite_none_right_eq_some.mp h
    obtain rfl := Option.some.inj h
    -- an `UPDATE` of the columns sets no map
    obtain ⟨q, hq, rfl⟩ := List.mem_map.mp hp
    split
    · exact hrows q hq
    · exact hrows q hq
  | relate id related =>
    obtain ⟨-, h⟩ := Option.ite_none_right_eq_some.mp h
    obtain rfl := Option.some.inj h
    obtain ⟨q, hq, rfl⟩ := List.mem_map.mp hp
    split
    · exact hc
    · exact hrows q hq
  | delete id =>
    obtain rfl : (rows.filter fun p => p.id ≠ id) = rows' := Option.some.inj h
    exact hrows p (List.mem_filter.mp hp).1

/-- So do all of them, each on the rows that the ones before it have left. -/
theorem flush_keeps {rows rows' : List (Post σ)} {cs : List (Change σ)} (hrows : AllScored P rows)
    (hcs : ∀ c ∈ cs, c.Meets P) (h : flush rows cs = some rows') : AllScored P rows' := by
  induction cs generalizing rows with
  | nil => exact Option.some.inj h ▸ hrows
  | cons c cs ih =>
    obtain ⟨hc, hcs⟩ := List.forall_mem_cons.mp hcs
    rw [flush_cons] at h
    obtain ⟨rows₁, hrows₁, h⟩ := Option.bind_eq_some_iff.mp h
    exact ih (apply_keeps hrows hc hrows₁) hcs h

/-! ## What the handlers write -/

section Handlers

variable [Zero σ] {L : Libs σ} {rows : List (Post σ)}

/-- A score is zero, or a cosine. -/
theorem similarity_returns (hzero : P 0) (hcosine : ∀ a b, P (L.cosine a b)) (left right : Json) :
    Returns P (similarity L left right) := by
  unfold similarity
  refine returns_bind fun left => returns_bind fun right => ?_
  split
  · exact returns_ok hzero
  · exact returns_ok (hcosine left right)

/-- A row of the table, and a score. -/
def Fair (P : σ → Prop) (rows : List (Post σ)) (x : Post σ × String × σ) : Prop :=
  x.1 ∈ rows ∧ P x.2.2

/-- The loop over the other rows pairs each with a score. -/
theorem scoreOthers_returns (hscore : ∀ left right, Returns P (similarity L left right))
    {others : List (Post σ)} (hothers : ∀ p ∈ others, p ∈ rows) (title slug : Json) :
    Returns (fun scored => ∀ x ∈ scored, Fair P rows x) (scoreOthers L others title slug) := by
  unfold scoreOthers
  refine Returns.mapM fun p hp => (hscore _ _).bind fun score hscore => ?_
  exact returns_bind fun key => returns_ok ⟨hothers p hp, hscore⟩

omit [Zero σ] in
/-- The map of the post itself holds the scores of the loop. -/
theorem scored_forwardRefs {scored : List (Post σ × String × σ)} (h : ∀ x ∈ scored, P x.2.2) :
    Scored P (forwardRefs scored) := by
  -- the loop has started from the empty map; on the way it may be at any
  suffices hfold : ∀ related, Scored P related →
      Scored P (scored.foldl (fun related x => related.insert x.1.slug x.2.2) related) from
    hfold ∅ scored_empty
  induction scored with
  | nil => exact fun related hrelated => hrelated
  | cons x scored ih =>
    obtain ⟨hx, hscored⟩ := List.forall_mem_cons.mp h
    exact fun related hrelated => ih hscored _ (hrelated.insert x.1.slug hx)

omit [Zero σ] in
/-- The map of another row gets one score, and keeps what it had. -/
theorem meets_backRefs (hrows : AllScored P rows) {scored : List (Post σ × String × σ)}
    (h : ∀ x ∈ scored, Fair P rows x) : ∀ c ∈ backRefs L scored, c.Meets P := by
  intro c hc
  obtain ⟨x, hx, rfl⟩ := List.mem_map.mp hc
  obtain ⟨hrow, hscore⟩ := h x (List.mem_filter.mp hx).1
  exact (hrows x.1 hrow).insert x.2.1 hscore

omit [Zero σ] in
/-- The columns that are assigned are no scores. -/
theorem meets_assignChanges (id : Int) (columns : Columns) :
    ∀ c ∈ assignChanges (σ := σ) id columns, c.Meets P := by
  intro c hc
  unfold assignChanges at hc
  split at hc
  · cases hc
  · obtain rfl := List.mem_singleton.mp hc
    trivial

omit [Zero σ] in
theorem meets_ownRefs (post : Post σ) {related : RelatedMap σ} (h : Scored P related) :
    ∀ c ∈ ownRefs L post related, c.Meets P := by
  intro c hc
  unfold ownRefs at hc
  split at hc
  · cases hc
  · obtain rfl := List.mem_singleton.mp hc
    exact h

/-- `apply_created` writes the new row with its map, and an entry into the map of each other row. -/
theorem applyCreated_meets (hscore : ∀ left right, Returns P (similarity L left right))
    (hrows : AllScored P rows) (payload : Json) :
    Returns (fun cs => ∀ c ∈ cs, c.Meets P) (applyCreated L rows payload) := by
  unfold applyCreated
  refine returns_bind fun _ => returns_bind fun id => ?_
  split
  · exact returns_ok (by simp)
  · refine returns_bind fun title => returns_bind fun slug => ?_
    refine (scoreOthers_returns hscore (fun _ hp => hp) title slug).bind fun scored hscored => ?_
    refine returns_bind fun image => returns_bind fun body => returns_bind fun _ => ?_
    refine returns_bind fun _ => returns_bind fun id => returns_bind fun _ => ?_
    refine returns_bind fun title => returns_bind fun image => returns_bind fun body => ?_
    refine returns_bind fun _ => returns_bind fun slug => returns_ok fun c hc => ?_
    rcases List.mem_append.mp hc with hc | hc
    · exact meets_backRefs hrows hscored c hc
    · obtain rfl := List.mem_singleton.mp hc
      exact scored_forwardRefs fun x hx => (hscored x hx).2

/-- `apply_updated` is a create when there is no such post; and it writes maps only when the title is
    another. -/
theorem applyUpdated_meets (hscore : ∀ left right, Returns P (similarity L left right))
    (hrows : AllScored P rows) (payload : Json) :
    Returns (fun cs => ∀ c ∈ cs, c.Meets P) (applyUpdated L rows payload) := by
  unfold applyUpdated
  refine returns_bind fun _ => returns_bind fun id => ?_
  split
  · exact applyCreated_meets hscore hrows payload
  next post hpost =>
    refine returns_bind fun title => returns_bind fun newTitle => returns_bind fun columns => ?_
    split
    · exact returns_ok (meets_assignChanges post.id columns)
    · -- the loop is over the rows but for the post itself
      have hothers : ∀ p ∈ rows.filter fun p => p.id ≠ post.id, p ∈ rows :=
        fun p hp => (List.mem_filter.mp hp).1
      refine returns_bind fun slug => ?_
      refine (scoreOthers_returns hscore hothers title slug).bind fun scored hscored => ?_
      refine returns_ok fun c hc => ?_
      rcases List.mem_append.mp hc with hc | hc
      · rcases List.mem_append.mp hc with hc | hc
        · exact meets_assignChanges post.id columns c hc
        · exact meets_backRefs hrows hscored c hc
      · exact meets_ownRefs post (scored_forwardRefs fun x hx => (hscored x hx).2) c hc

omit [Zero σ] in
/-- `apply_deleted` takes entries away. -/
theorem applyDeleted_meets (hrows : AllScored P rows) (payload : Json) :
    Returns (fun cs => ∀ c ∈ cs, c.Meets P) (applyDeleted L rows payload) := by
  unfold applyDeleted
  refine returns_bind fun slug => returns_bind fun key => ?_
  dsimp only
  refine returns_bind fun member => returns_ok fun c hc => ?_
  rcases List.mem_append.mp hc with hc | hc
  · obtain ⟨post, -, rfl⟩ := Option.map_eq_some_iff.mp (Option.mem_toList.mp hc)
    trivial
  · obtain ⟨p, hp, rfl⟩ := List.mem_map.mp hc
    have hrow : p ∈ rows := (List.mem_filter.mp (List.mem_filter.mp hp).1).1
    cases member with
    | none => exact hrows p hrow
    | some s => exact (hrows p hrow).erase s

/-- **A handler writes into a map what is there already, and scores.** -/
theorem handlers_meet (hscore : ∀ left right, Returns P (similarity L left right)) (now : Int)
    {db : Db σ} (hrows : AllScored P db.post.1) (payload : Json) (topic : Topic) :
    Returns (fun work => ∀ c ∈ work.post, c.Meets P) (HANDLERS L now db payload topic) := by
  cases topic with
  | postCreated => exact (applyCreated_meets hscore hrows payload).map fun cs hcs => hcs
  | postUpdated => exact (applyUpdated_meets hscore hrows payload).map fun cs hcs => hcs
  | postDeleted => exact (applyDeleted_meets hrows payload).map fun cs hcs => hcs
  | tokenRevoked =>
    intro work hwork
    obtain ⟨c, -, rfl⟩ := map_eq_ok.mp hwork
    simp

/-- What a call keeps. -/
theorem handle_keeps (hscore : ∀ left right, Returns P (similarity L left right)) (now : Int)
    {db : Db σ} (hrows : AllScored P db.post.1) (m : Message) (fault : Fault) :
    AllScored P (handle L now db m fault).1.post.1 := by
  rcases handle_cases (L := L) now db m fault with ⟨h, -⟩ | ⟨reply, h, -⟩ |
    ⟨event_id, work, db', reply, h, -, -, hwork, hcommit, -⟩
  · rw [h]
    exact hrows
  · rw [h]
    exact hrows
  · rw [h]
    exact flush_keeps hrows (handlers_meet hscore now hrows m.value m.topic work hwork)
      (commit_eq_some hcommit).1

end Handlers

/-! ## What every step keeps -/

section Steps

variable [Zero σ] {L : Libs σ}

/-- A step of the consumer is a call of `handle`, or does nothing to the database. -/
theorem scored_step (hscore : ∀ left right, Returns P (similarity L left right)) (s : Main.State σ)
    (a : Main.Action) (s' : Main.State σ) (hs : AllScored P s.db.post.1)
    (h : Main.step L s a = some s') : AllScored P s'.db.post.1 := by
  rcases Main.step_handles h with hdb | ⟨tp, record, -, offset, now, fault, hdb⟩
  · exact hdb ▸ hs
  · exact hdb ▸ handle_keeps hscore now hs (record.message tp offset) fault

end Steps

/-- **The scores on record are between 0 and 1**, whatever is sent and however the consumer is
    interrupted. -/
theorem recorded_scores_mem (L : Libs σ) (acts : List Main.Action) :
    Throughout (Main.step L.exact) (fun s => ∀ p ∈ s.db.post.1, ∀ key x,
      p.related.lookup key = some x → 0 ≤ x ∧ x ≤ 1) (Main.init (Db.empty ℝ)) acts := by
  have hscore : ∀ left right, Returns (fun x : ℝ => 0 ≤ x ∧ x ≤ 1) (similarity L.exact left right) :=
    similarity_returns ⟨le_refl 0, zero_le_one⟩
      fun a b => ⟨Cosine.cosine_nonneg _ _, Cosine.cosine_le_one _ _⟩
  -- there are no rows at the start
  refine throughout_of_inv (scored_step hscore) ?_ acts
  intro p hp
  cases hp

end DjangoFlaskKafka.Related
