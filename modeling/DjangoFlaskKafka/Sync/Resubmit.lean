/-
  Resubmit — what the posts service shows of a post can be sent back to it.

  1. **Program** — the concurrent requests of `Sync.Races`.

  2. **Law** — `resubmitted`: whatever has been requested and however it has interleaved, a `PUT` of
     what is shown of a post, to its slug, is answered 200 with that post, leaves the table and the
     sequence as they are, and announces the post as it is.  All this is about the columns of
     `Posts.Models`; the stamps are none of them, and every save sets `updated_at`.

  3. **The crux** — all the texts of the table, and of the requests between their stages, have been
     through the serializer and are stable (`Posts.Stable`); a transaction writes no others.
-/
import DjangoFlaskKafka.Sync.Races
import DjangoFlaskKafka.Posts.Stable

namespace DjangoFlaskKafka.Sync.Resubmit

open Python Postgres Machine Races

/-! ## The law -/

/-- The request that an action brings prints its numbers. -/
def Sends : Action → Prop
  | .begin request => request.Printed
  | .finish .. => True

/-- Updating any of the posts with what is shown of it, under a new random id, is answered with the
    post, changes neither the table nor the sequence, and adds its announcement to the outbox. -/
def Resubmits (s : State) : Prop :=
  ∀ post ∈ s.db.posts.1, ∀ now id, (∀ e ∈ s.db.outbox.1, e.id ≠ id) →
    let served := Posts.serve s.db ⟨now, id, .update post.slug.1 post.data⟩
    served.2 = .ok post ∧ served.1.posts.1 = s.db.posts.1 ∧ served.1.nextId = s.db.nextId ∧
      served.1.outbox.1 = s.db.outbox.1 ++
        [Posts.recordEvent now id .postUpdated post.slug post.data]

/-! ## What every step keeps -/

/-- The texts of the table and of the open requests are stable. -/
structure Stable (s : State) : Prop where
  rows : ∀ p ∈ s.db.posts.1, p.Stable
  opened : ∀ call ∈ s.opened, call.Stable

/-- Nothing is stored at the start. -/
theorem stable_init : Stable init where
  rows := by simp [init, Posts.Db.empty]
  opened := by simp [init]

/-- **Every step keeps the posts stable.** -/
theorem stable_step (s : State) (a : Action) (s' : State) (hs : Stable s) (ha : Sends a)
    (h : step s a = some s') : Stable s' := by
  cases a with
  | begin request =>
    unfold step at h
    dsimp only at h
    cases hbegin : Posts.begin s.db.posts.1 request with
    | error response =>
      rw [hbegin] at h
      exact Option.some.inj h ▸ hs
    | ok call =>
      rw [hbegin] at h
      obtain rfl := Option.some.inj h
      refine ⟨hs.rows, fun call' hcall' => ?_⟩
      rcases List.mem_append.mp hcall' with hcall' | hcall'
      · exact hs.opened call' hcall'
      · exact List.mem_singleton.mp hcall' ▸ Posts.begin_stable hs.rows ha hbegin
  | finish i now id =>
    obtain ⟨call, hcall, h⟩ := Option.bind_eq_some_iff.mp h
    obtain rfl := Option.some.inj h
    have hstable := hs.opened call (List.mem_of_getElem? hcall)
    refine ⟨fun p hp => ?_, fun call' hcall' => hs.opened call' (List.mem_of_mem_eraseIdx hcall')⟩
    rcases (Posts.finish_cases now id s.db call).2 with ⟨hposts, -⟩ | ⟨hposts, -⟩
    · exact hs.rows p (hposts ▸ hp)
    · exact Posts.write_stable hs.rows hstable p (hposts ▸ hp)

/-- **What is shown of a post can be sent back** in every state that the requests reach. -/
theorem resubmitted {acts : List Action} (hsends : ∀ a ∈ acts, Sends a) :
    Throughout step Resubmits init acts := by
  have hstable : Throughout step Stable init acts :=
    throughout_of_along (fun _ _ _ _ _ _ => trivial) (fun s a s' _ hs ha h => stable_step s a s' hs ha h)
      trivial stable_init (along_of_forall fun a ha _ => hsends a ha)
  exact hstable.mono fun s hs post hpost now id hfresh =>
    Posts.serve_data hpost (hs.rows post hpost) now hfresh

/-- A post is created with texts to trim and a number for a title; it is renamed while it is being
    updated without an image. -/
def renamedMeanwhile : List Action :=
  let fields (slug : String) : Json :=
    .obj [("title", .int 7), ("image", .str " "), ("body", .str " b "), ("slug", .str slug)]
  [.begin (.create (fields " a ")), .finish 0 0 (sampleUuid 0),
    .begin (.update "a" (Posts.fieldsAt "a")), .begin (.update "a" (fields "c")),
    .finish 1 1 (sampleUuid 1), .finish 0 2 (sampleUuid 2)]

theorem resubmitted_renamedMeanwhile : Throughout step Resubmits init renamedMeanwhile :=
  resubmitted (by simp only [renamedMeanwhile, Sends, Posts.Request.Printed, Posts.PrintedItems,
    Posts.fieldsAt, Posts.Printed, List.forall_mem_cons, List.not_mem_nil, false_imp_iff,
    implies_true, and_self])

end DjangoFlaskKafka.Sync.Resubmit
