/-
  Conflicts — when the posts service answers 500.

  1. **Program** — the concurrent requests of `Sync.Races`.

  2. **Law** — `serverError_iff`: in every interleaving, a request that has been validated is
     answered 500 exactly when its outbox id is there already, or the slug it is to write has become
     another post's since; when it was validated, it was nobody's.

  3. **The crux** — the constraints of the table are those of the validation: ids are handed out by
     a sequence, so an update of a row that is gone, which puts it back, collides with no id.
-/
import DjangoFlaskKafka.Sync.Races
import DjangoFlaskKafka.Posts.Isolation

namespace DjangoFlaskKafka.Sync.Conflicts

open Python Postgres Machine Races

/-! ## The law -/

/-- The slug that the call is to write is another row's. -/
def Taken (rows : List Posts.Post) : Posts.Call → Prop
  | .create data => ∃ p ∈ rows, p.slug = data.slug
  | .update post data => ∃ p ∈ rows, p.slug = data.slug ∧ p.id ≠ post.id
  | .destroy _ => False

/-! ## What the constraints refuse -/

section Constraints

variable {nextId : Int} {rows : List Posts.Post}

/-- A new row fits unless its slug is there. -/
theorem constraints_append_iff (hrows : Posts.PostConstraints rows) (post : Posts.Post)
    (hid : ∀ p ∈ rows, p.id ≠ post.id) :
    Posts.PostConstraints (rows ++ [post]) ↔ ∀ p ∈ rows, p.slug ≠ post.slug := by
  have hnodup : ((rows ++ [post]).map Posts.Post.slug).Nodup ↔ ∀ p ∈ rows, p.slug ≠ post.slug := by
    rw [List.map_append, List.nodup_append]
    simp [hrows.slugs]
  have hids : ((rows ++ [post]).map Posts.Post.id).Nodup := by
    rw [List.map_append, List.nodup_append]
    simpa [hrows.ids] using hid
  rw [← hnodup]
  exact ⟨fun h => h.slugs, fun h => ⟨hids, h⟩⟩

/-- A row fits in the place of the one with its id unless its slug is another's. -/
theorem constraints_modify_iff (hrows : Posts.PostConstraints rows) {post post' : Posts.Post}
    (hpost : post ∈ rows) (hid : post'.id = post.id) :
    Posts.PostConstraints (Keyed.modify Posts.Post.id post'.id (fun _ => post') rows) ↔
      ∀ p ∈ rows, p.slug = post'.slug → p.id = post'.id := by
  constructor
  · intro h p hp hslug
    by_contra hne
    have hmem : p ∈ Keyed.modify Posts.Post.id post'.id (fun _ => post') rows :=
      List.mem_map.mpr ⟨p, hp, if_neg hne⟩
    have hmem' : post' ∈ Keyed.modify Posts.Post.id post'.id (fun _ => post') rows :=
      List.mem_map.mpr ⟨post, hpost, if_pos hid.symm⟩
    exact hne (congrArg Posts.Post.id (List.inj_on_of_nodup_map h.slugs hmem hmem' hslug))
  · intro hfree
    refine ⟨?_, ?_⟩
    · rw [Keyed.map_key_modify Posts.Post.id post'.id (fun _ _ => rfl)]
      exact hrows.ids
    · unfold Keyed.modify
      rw [List.map_map]
      refine (List.Nodup.of_map _ hrows.ids).map_on fun p hp q hq heq => ?_
      have heq : (if p.id = post'.id then post' else p).slug
          = (if q.id = post'.id then post' else q).slug := heq
      split at heq
      next hpid =>
        split at heq
        next hqid => exact List.inj_on_of_nodup_map hrows.ids hp hq (hpid.trans hqid.symm)
        next hqid => exact absurd (hfree q hq heq.symm) hqid
      next hpid =>
        split at heq
        next hqid => exact absurd (hfree p hp heq) hpid
        next hqid => exact List.inj_on_of_nodup_map hrows.slugs hp hq heq

/-- **What a transaction writes fits unless its slug is another row's.** -/
theorem constraints_write_iff (hrows : Posts.PostConstraints rows) (hids : ∀ p ∈ rows, p.id < nextId)
    (call : Posts.Call) : Posts.PostConstraints (call.write nextId rows).rows ↔ ¬ Taken rows call := by
  cases call with
  | create data =>
    refine (constraints_append_iff hrows (data.create nextId) fun p hp hid => ?_).trans ?_
    · have := hids p hp
      have : p.id = nextId := hid
      omega
    · unfold Taken
      push Not
      rfl
  | update post data =>
    show Posts.PostConstraints (Posts.save (data.update post) rows) ↔ _
    unfold Posts.save Taken
    split
    next hthere =>
      obtain ⟨q, hq, hid⟩ := Keyed.lookup_isSome_iff.mp hthere
      rw [constraints_modify_iff hrows hq hid.symm]
      push Not
      rfl
    next hgone =>
      have hnone := Keyed.lookup_eq_none_iff.mp (Option.not_isSome_iff_eq_none.mp hgone)
      rw [constraints_append_iff hrows _ hnone]
      push Not
      exact forall₂_congr fun p hp => ⟨fun h hslug => absurd hslug h,
        fun h hslug => hnone p hp (h hslug)⟩
  | destroy post =>
    exact iff_of_true ⟨hrows.ids.sublist (List.filter_sublist.map _),
      hrows.slugs.sublist (List.filter_sublist.map _)⟩ id

end Constraints

/-! ## What is answered -/

theorem finish_eq_serverError_iff (now : Int) (id : Uuid) {db : Posts.Db}
    (hids : ∀ p ∈ db.posts.1, p.id < db.nextId) (call : Posts.Call) :
    (Posts.finish now id db call).2 = .serverError ↔
      Taken db.posts.1 call ∨ ∃ e ∈ db.outbox.1, e.id = id := by
  have hcommit := Posts.commit_eq_none_iff now id { db with nextId := call.nextId db.nextId }
    (call.write db.nextId db.posts.1)
  rw [constraints_write_iff db.posts.2 hids, not_not] at hcommit
  rw [← hcommit]
  unfold Posts.finish
  dsimp only
  split
  next db' hdb =>
    rw [hdb]
    cases call <;> simp [Posts.Call.write]
  next hdb =>
    rw [hdb]
    simp

/-- **A 500 is a slug that somebody else has taken since, or an outbox id that was there already.** -/
theorem serverError_iff {acts : List Action} {s : State} (hrun : run step init acts = some s) :
    (∀ request call, Posts.begin s.db.posts.1 request = .ok call → ¬ Taken s.db.posts.1 call) ∧
      ∀ call now id, (Posts.finish now id s.db call).2 = .serverError ↔
        Taken s.db.posts.1 call ∨ ∃ e ∈ s.db.outbox.1, e.id = id := by
  have hhanded := run_inv handedOut_step handedOut_init hrun
  refine ⟨fun request call hbegin => ?_, fun call now id => ?_⟩
  · cases Posts.begin_found hbegin with
    | create hasked hfree =>
      rintro ⟨p, hp, hslug⟩
      exact hfree p hp hslug
    | update hpost hasked hfree =>
      rintro ⟨p, hp, hslug, hne⟩
      exact hne (hfree p hp hslug)
    | destroy hpost => exact id
  · exact finish_eq_serverError_iff now id hhanded.rows call

/-- Two requests are to create a post under one slug, and one of them has. -/
def twoCreates : List Action :=
  [.begin (.create (Posts.fieldsAt "a")), .begin (.create (Posts.fieldsAt "a")),
    .finish 0 0 (sampleUuid 0)]

theorem serverError_iff_twoCreates : ∃ s, run step init twoCreates = some s ∧
    (∀ request call, Posts.begin s.db.posts.1 request = .ok call → ¬ Taken s.db.posts.1 call) ∧
      ∀ call now id, (Posts.finish now id s.db call).2 = .serverError ↔
        Taken s.db.posts.1 call ∨ ∃ e ∈ s.db.outbox.1, e.id = id := by
  have hsome : (run step init twoCreates).isSome := by decide +kernel
  obtain ⟨s, hs⟩ := Option.isSome_iff_exists.mp hsome
  exact ⟨s, hs, serverError_iff hs⟩

end DjangoFlaskKafka.Sync.Conflicts
