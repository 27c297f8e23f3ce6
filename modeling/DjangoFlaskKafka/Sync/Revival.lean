/-
  Revival — when a deleted post comes back.

  1. **Program** — the concurrent requests of `Sync.Races`.

  2. **Law** — `revivable_iff`: in every state that the requests reach, an id that has been handed
     out and is in no row can come back exactly when an update of it is between its two stages.

  3. **The crux** — `post.save()` writes a row that is gone as a new one, under its old id.  Only an
     update saves under an id that is there already or has been, and none that starts now loads
     a row that is gone (`gone_step`).  Conversely the update that is open can be let finish, if
     need be after the post that has taken its slug is deleted (`revive`).
-/
import DjangoFlaskKafka.Sync.Conflicts

namespace DjangoFlaskKafka.Sync.Revival

open Python Postgres Machine Races Conflicts

/-! ## The law -/

/-- The table has a row with the id. -/
def Present (k : Int) (s : State) : Prop := ∃ p ∈ s.db.posts.1, p.id = k

/-- An update that has loaded the row with the id is open. -/
def Updating (k : Int) (s : State) : Prop :=
  ∃ post data, .update post data ∈ s.opened ∧ post.id = k

/-- The random id is no row's of the outbox. -/
def Fresh (id : Uuid) (s : State) : Prop := ∀ e ∈ s.db.outbox.1, e.id ≠ id

/-! ## What is gone stays gone -/

/-- The id has been handed out and is gone, and no update is going to put it back. -/
structure Gone (k : Int) (s : State) : Prop where
  handedOut : HandedOut s
  old : k < s.db.nextId
  absent : ¬ Present k s
  idle : ¬ Updating k s

/-- A transaction writes an id that was not there only as a new one, or as that of its instance. -/
theorem id_of_write {nextId : Int} {rows : List Posts.Post} {call : Posts.Call} {p : Posts.Post}
    (hp : p ∈ (call.write nextId rows).rows) :
    (∃ q ∈ rows, q.id = p.id) ∨ p.id = nextId ∨ ∃ post data, call = .update post data ∧ post.id = p.id := by
  cases call with
  | create data =>
    rcases List.mem_append.mp hp with hp | hp
    · exact .inl ⟨p, hp, rfl⟩
    · exact .inr (.inl (List.mem_singleton.mp hp ▸ rfl))
  | update post data =>
    rcases Posts.mem_save hp with rfl | hp
    · exact .inr (.inr ⟨post, data, rfl, rfl⟩)
    · exact .inl ⟨p, hp, rfl⟩
  | destroy post => exact .inl ⟨p, (List.mem_filter.mp hp).1, rfl⟩

theorem gone_step {k : Int} (s : State) (a : Action) (s' : State) (hs : Gone k s)
    (h : step s a = some s') : Gone k s' := by
  have hhanded := handedOut_step s a s' hs.handedOut h
  cases a with
  | begin request =>
    unfold step at h
    dsimp only at h
    cases hbegin : Posts.begin s.db.posts.1 request with
    | error response =>
      rw [hbegin] at h
      exact Option.some.inj h ▸ hs
    | ok call =>
      rw [hbegin] at h
      obtain rfl := Option.some.inj h
      refine ⟨hhanded, hs.old, hs.absent, ?_⟩
      rintro ⟨post, data, hcall, hid⟩
      rcases List.mem_append.mp hcall with hcall | hcall
      · exact hs.idle ⟨post, data, hcall, hid⟩
      · obtain rfl := List.mem_singleton.mp hcall
        exact hs.absent ⟨post, Posts.begin_loaded hbegin post rfl, hid⟩
  | finish i now id =>
    obtain ⟨call, hcall, h⟩ := Option.bind_eq_some_iff.mp h
    obtain rfl := Option.some.inj h
    have hmem : call ∈ s.opened := List.mem_of_getElem? hcall
    obtain ⟨hnext, hcases⟩ := Posts.finish_cases now id s.db call
    refine ⟨hhanded, ?_, ?_, ?_⟩
    · rw [hnext]
      exact Int.lt_of_lt_of_le hs.old (le_nextId ..)
    · rintro ⟨p, hp, hid⟩
      rcases hcases with ⟨hposts, -⟩ | ⟨hposts, -⟩
      · exact hs.absent ⟨p, hposts ▸ hp, hid⟩
      · rcases id_of_write (hposts ▸ hp) with ⟨q, hq, hqid⟩ | hnew | ⟨post, data, rfl, hpost⟩
        · exact hs.absent ⟨q, hq, hqid.trans hid⟩
        · have := hs.old
          omega
        · exact hs.idle ⟨post, data, hmem, hpost.trans hid⟩
    · rintro ⟨post, data, hupdate, hid⟩
      exact hs.idle ⟨post, data, List.mem_of_mem_eraseIdx hupdate, hid⟩

/-! ## What can come back -/

/-- A transaction that nothing stands in the way of lands. -/
theorem finish_lands {s : State} (hs : HandedOut s) {call : Posts.Call} (now : Int) {id : Uuid}
    (hfresh : Fresh id s) (hfree : ¬ Taken s.db.posts.1 call) :
    let w := call.write s.db.nextId s.db.posts.1
    let db := (Posts.finish now id s.db call).1
    db.posts.1 = w.rows ∧
      db.outbox.1 = s.db.outbox.1 ++ [Posts.recordEvent now id w.topic w.key w.payload] := by
  intro w db
  rcases (Posts.finish_cases now id s.db call).2 with ⟨-, -, herror⟩ | ⟨hposts, houtbox, -⟩
  · rcases (finish_eq_serverError_iff now id hs.rows call).mp herror with htaken | ⟨e, he, hid⟩
    · exact absurd htaken hfree
    · exact absurd hid (hfresh e he)
  · exact ⟨hposts, houtbox⟩

theorem step_finish {s : State} {i : Nat} {call : Posts.Call} (hcall : s.opened[i]? = some call)
    (now : Int) (id : Uuid) : step s (.finish i now id)
      = some ⟨(Posts.finish now id s.db call).1, s.opened.eraseIdx i⟩ := by
  show s.opened[i]?.bind _ = _
  rw [hcall]
  rfl

/-- An open update whose slug is free puts its row in the table. -/
theorem revive {s : State} (hs : HandedOut s) {i : Nat} {post : Posts.Post} {data : Posts.Validated}
    (hcall : s.opened[i]? = some (.update post data)) {id : Uuid} (hfresh : Fresh id s)
    (hfree : ¬ Taken s.db.posts.1 (.update post data)) :
    ∃ t, step s (.finish i 0 id) = some t ∧ Present post.id t := by
  obtain ⟨hposts, -⟩ := finish_lands hs 0 hfresh hfree
  refine ⟨_, step_finish hcall 0 id, data.update post, ?_, rfl⟩
  show data.update post ∈ (Posts.finish 0 id s.db (.update post data)).1.posts.1
  rw [hposts]
  exact Posts.mem_save_self (data.update post) s.db.posts.1

/-- The post in the way can be deleted first. -/
theorem clear_way {s : State} (hs : HandedOut s) {p : Posts.Post} (hp : p ∈ s.db.posts.1) {id : Uuid}
    (hfresh : Fresh id s) :
    ∃ t, run step s [.begin (.destroy p.slug.1), .finish s.opened.length 0 id] = some t ∧
      HandedOut t ∧ t.opened = s.opened ∧ t.db.posts.1 = Posts.delete p s.db.posts.1 ∧
      ∀ id', id' ≠ id → Fresh id' s → Fresh id' t := by
  let s₁ : State := { s with opened := s.opened ++ [.destroy p] }
  have hbegin : step s (.begin (.destroy p.slug.1)) = some s₁ := by
    have hcall : Posts.begin s.db.posts.1 (.destroy p.slug.1) = .ok (.destroy p) :=
      bind_eq_ok.mpr ⟨p, Posts.getObjectOr404_of_mem s.db.posts.2.slugs hp, rfl⟩
    unfold step
    dsimp only
    rw [hcall]
  have hs₁ : HandedOut s₁ := handedOut_step s _ s₁ hs hbegin
  have hcall : s₁.opened[s.opened.length]? = some (.destroy p) := by simp [s₁]
  have hfinish := step_finish hcall 0 id
  have hfree : ¬ Taken s₁.db.posts.1 (.destroy p) := not_false
  obtain ⟨hposts, houtbox⟩ := finish_lands hs₁ 0 hfresh hfree
  refine ⟨_, ?_, handedOut_step s₁ _ _ hs₁ hfinish, ?_, hposts, fun id' hne hfresh' e he => ?_⟩
  · rw [run_cons, hbegin, Option.bind_some, run_cons, hfinish]
    rfl
  · show (s.opened ++ [_]).eraseIdx s.opened.length = s.opened
    rw [List.eraseIdx_append_of_length_le le_rfl, Nat.sub_self]
    exact List.append_nil _
  · have he : e ∈ (Posts.finish 0 id s₁.db (.destroy p)).1.outbox.1 := he
    rw [houtbox] at he
    rcases List.mem_append.mp he with he | he
    · exact hfresh' e he
    · rw [List.mem_singleton.mp he]
      exact hne.symm

/-- **Which posts can come back**: those with an open update. -/
theorem revivable_iff {acts : List Action} {s : State} (hrun : run step init acts = some s) {k : Int}
    (hold : k < s.db.nextId) (hgone : ¬ Present k s) {id id' : Uuid} (hfresh : Fresh id s)
    (hfresh' : Fresh id' s) (hne : id ≠ id') :
    (∃ later t, run step s later = some t ∧ Present k t) ↔ Updating k s := by
  have hhanded : HandedOut s := run_inv handedOut_step handedOut_init hrun
  constructor
  · rintro ⟨later, t, hlater, hpresent⟩
    by_contra hidle
    have hgone : Gone k s := ⟨hhanded, hold, hgone, hidle⟩
    exact (run_inv gone_step hgone hlater).absent hpresent
  · rintro ⟨post, data, hcall, rfl⟩
    obtain ⟨i, hi⟩ := List.mem_iff_getElem?.mp hcall
    by_cases htaken : Taken s.db.posts.1 (.update post data)
    · obtain ⟨p, hp, hslug, -⟩ := htaken
      obtain ⟨s', hcleared, hhanded', hopened, hposts, hothers⟩ := clear_way hhanded hp hfresh
      have hfree : ¬ Taken s'.db.posts.1 (.update post data) := by
        rintro ⟨q, hq, hqslug, -⟩
        rw [hposts] at hq
        obtain ⟨hq, hother⟩ := List.mem_filter.mp hq
        obtain rfl := List.inj_on_of_nodup_map s.db.posts.2.slugs hq hp (hqslug.trans hslug.symm)
        simp at hother
      obtain ⟨t, hfinish, hpresent⟩ := revive hhanded' (hopened ▸ hi) (hothers id' hne.symm hfresh') hfree
      refine ⟨[.begin (.destroy p.slug.1), .finish s.opened.length 0 id] ++ [.finish i 0 id'], t, ?_,
        hpresent⟩
      rw [run_append, hcleared, Option.bind_some, run_cons, hfinish]
      rfl
    · obtain ⟨t, hfinish, hpresent⟩ := revive hhanded hi hfresh htaken
      refine ⟨[.finish i 0 id], t, ?_, hpresent⟩
      rw [run_cons, hfinish]
      rfl

/-- A post is created, an update of it begins, and it is deleted; its slug is taken again. -/
def deletedMeanwhile : List Action :=
  [.begin (.create (Posts.fieldsAt "a")), .finish 0 0 (sampleUuid 0),
    .begin (.update "a" (Posts.fieldsAt "a")), .begin (.destroy "a"), .finish 1 1 (sampleUuid 1),
    .begin (.create (Posts.fieldsAt "a")), .finish 1 2 (sampleUuid 2)]

theorem revivable_iff_deletedMeanwhile : ∃ s, run step init deletedMeanwhile = some s ∧
    ((∃ later t, run step s later = some t ∧ Present 1 t) ↔ Updating 1 s) := by
  have hrun : ∀ s ∈ run step init deletedMeanwhile, 1 < s.db.nextId ∧
      (∀ p ∈ s.db.posts.1, p.id ≠ 1) ∧ (∀ e ∈ s.db.outbox.1, e.id ≠ sampleUuid 3) ∧
        ∀ e ∈ s.db.outbox.1, e.id ≠ sampleUuid 4 := by decide +kernel
  have hsome : (run step init deletedMeanwhile).isSome := by decide +kernel
  obtain ⟨s, hs⟩ := Option.isSome_iff_exists.mp hsome
  obtain ⟨hold, hgone, hfresh, hfresh'⟩ := hrun s hs
  have habsent : ¬ Present 1 s := by
    rintro ⟨p, hp, hid⟩
    exact hgone p hp hid
  exact ⟨s, hs, revivable_iff hs hold habsent hfresh hfresh' (by decide +kernel)⟩

end DjangoFlaskKafka.Sync.Revival
