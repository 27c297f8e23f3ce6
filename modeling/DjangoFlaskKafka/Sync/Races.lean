/-
  Races — concurrent requests to the posts service, and whether its outbox still tells the truth.

  1. **Program** — `step`.  `begin` runs the lookup and the validation of a request on the committed
     rows and leaves it open with the instance it has loaded; `finish` runs the transaction of any
     open request on the rows committed by then.  A request that is never finished is one that died.

  2. **Law** — `Truthful`: folding the handlers of the related consumer over the outbox, from the
     empty table, gives exactly the posts.

  3. **The crux** — a transaction writes by the ID of its instance, and a deletion announces the
     SLUG of its instance, which may be another post's by now, or nobody's.  A create and an update
     tell what they do however stale their instance is; a deletion does exactly when, in the table
     it runs on, the loaded id and the loaded slug name the same rows.  Hence `truthful_iff`.
-/
import DjangoFlaskKafka.Sync.History
import DjangoFlaskKafka.Lib.Machine

namespace DjangoFlaskKafka.Sync.Races

open Python Kafka Postgres Related Books Machine

variable {σ : Type}

/-! ## The program -/

/-- The database, and the requests between their two stages. -/
structure State where
  db : Posts.Db
  opened : List Posts.Call

/-- The empty database, and no request. -/
def init : State := ⟨.empty, []⟩

/-- What can happen next. -/
inductive Action where
  | begin (request : Posts.Request)
  | finish (i : Nat) (now : Int) (id : Uuid)

/-- One step: a request that is refused at once changes nothing. -/
def step (s : State) : Action → Option State
  | .begin request =>
    match Posts.begin s.db.posts.1 request with
    | .ok call => some { s with opened := s.opened ++ [call] }
    | .error _ => some s
  | .finish i now id => do
    let call ← s.opened[i]?
    return { db := (Posts.finish now id s.db call).1, opened := s.opened.eraseIdx i }

/-! ## The law -/

/-- The handlers, folded over the outbox, make exactly the posts. -/
def Truthful [Zero σ] (L : Libs σ) (s : State) : Prop :=
  ∃ rows, applyEvents L [] s.db.outbox.1 = some rows ∧ Mirrors rows s.db.posts.1

/-- A deletion that commits runs on a table in which the id and the slug it has loaded name the same
    rows.  (It does not commit when the outbox already has a row with its random id.) -/
def DeletesWhatItNames (s : State) : Action → Prop
  | .begin _ => True
  | .finish i _ id => ∀ post, s.opened[i]? = some (.destroy post) →
      (∀ e ∈ s.db.outbox.1, e.id ≠ id) → ∀ q ∈ s.db.posts.1, q.id = post.id ↔ q.slug = post.slug

/-! ## What every step keeps -/

/-- The ids of the table and of the open requests have been handed out. -/
structure HandedOut (s : State) : Prop where
  rows : ∀ p ∈ s.db.posts.1, p.id < s.db.nextId
  opened : ∀ call ∈ s.opened, ∀ p ∈ call.loaded, p.id < s.db.nextId

theorem handedOut_init : HandedOut init where
  rows := by simp [init, Posts.Db.empty]
  opened := by simp [init]

/-- The ids a transaction leaves in the table. -/
theorem id_lt_of_write {nextId : Int} {rows : List Posts.Post} {call : Posts.Call}
    (hrows : ∀ p ∈ rows, p.id < nextId) (hloaded : ∀ p ∈ call.loaded, p.id < nextId) :
    ∀ p ∈ (call.write nextId rows).rows, p.id < call.nextId nextId := by
  intro p hp
  cases call with
  | create data =>
    show p.id < nextId + 1
    rcases List.mem_append.mp hp with hp | hp
    · have := hrows p hp
      omega
    · obtain rfl := List.mem_singleton.mp hp
      show nextId < nextId + 1
      omega
  | update post data =>
    show p.id < nextId
    have hpost : (data.update post).id < nextId := hloaded post rfl
    have hp' : p ∈ Posts.save (data.update post) rows := hp
    unfold Posts.save at hp'
    split at hp'
    · obtain ⟨q, hq, rfl⟩ := List.mem_map.mp hp'
      split
      · exact hpost
      · exact hrows q hq
    · rcases List.mem_append.mp hp' with hp' | hp'
      · exact hrows p hp'
      · exact List.mem_singleton.mp hp' ▸ hpost
  | destroy post => exact hrows p (List.mem_filter.mp hp).1

theorem le_nextId (call : Posts.Call) (nextId : Int) : nextId ≤ call.nextId nextId := by
  cases call <;> simp only [Posts.Call.nextId] <;> omega

theorem handedOut_step (s : State) (a : Action) (s' : State) (hs : HandedOut s)
    (h : step s a = some s') : HandedOut s' := by
  cases a with
  | begin request =>
    unfold step at h
    dsimp only at h
    cases hbegin : Posts.begin s.db.posts.1 request with
    | error response =>
      rw [hbegin] at h
      exact Option.some.inj h ▸ hs
    | ok call =>
      rw [hbegin] at h
      obtain rfl := Option.some.inj h
      refine ⟨hs.rows, fun call' hcall' p hp => ?_⟩
      rcases List.mem_append.mp hcall' with hcall' | hcall'
      · exact hs.opened call' hcall' p hp
      · obtain rfl := List.mem_singleton.mp hcall'
        exact hs.rows p (Posts.begin_loaded hbegin p hp)
  | finish i now id =>
    obtain ⟨call, hcall, h⟩ := Option.bind_eq_some_iff.mp h
    obtain rfl := Option.some.inj h
    have hloaded := hs.opened call (List.mem_of_getElem? hcall)
    obtain ⟨hnext, hcases⟩ := Posts.finish_cases now id s.db call
    refine ⟨fun p hp => ?_, fun call' hcall' p hp => ?_⟩
    · rw [hnext]
      rcases hcases with ⟨hposts, -⟩ | ⟨hposts, -⟩
      · exact Int.lt_of_lt_of_le (hs.rows p (hposts ▸ hp)) (le_nextId ..)
      · exact id_lt_of_write hs.rows hloaded p (hposts ▸ hp)
    · rw [hnext]
      exact Int.lt_of_lt_of_le (hs.opened call' (List.mem_of_mem_eraseIdx hcall') p hp) (le_nextId ..)

/-! ## The law, step by step -/

section Steps

variable [Zero σ] {L : Libs σ}

/-- What a transaction does is what it tells, except for a deletion that names other rows than it
    deletes. -/
theorem source_write_iff {db : Posts.Db} (hids : ∀ p ∈ db.posts.1, p.id < db.nextId)
    (call : Posts.Call) :
    source (call.write db.nextId db.posts.1).rows = play (source db.posts.1) (told db.nextId call) ↔
      ∀ post, call = .destroy post → ∀ q ∈ db.posts.1, q.id = post.id ↔ q.slug = post.slug := by
  cases call with
  | create data =>
    refine iff_of_true (source_create (fun p hp hid => ?_) data) (by simp)
    have := hids p hp
    omega
  | update post data => exact iff_of_true (source_update post data) (by simp)
  | destroy post =>
    rw [source_destroy db.posts.2]
    exact ⟨fun h post' heq => Posts.Call.destroy.inj heq ▸ h, fun h => h post rfl⟩

/-- **One transaction**: from a truthful database it leads to a truthful one exactly when it deletes
    what it names. -/
theorem truthful_finish {s : State} (hs : HandedOut s) (htrue : Truthful L s) (i : Nat) (now : Int)
    (id : Uuid) {call : Posts.Call} (hcall : s.opened[i]? = some call) :
    Truthful L ⟨(Posts.finish now id s.db call).1, s.opened.eraseIdx i⟩ ↔
      DeletesWhatItNames s (.finish i now id) := by
  obtain ⟨rows, hrows, hmirrors⟩ := htrue
  obtain ⟨hids, hslugs⟩ := constraints_of_mirrors s.db.posts.2 hmirrors
  let db' := (Posts.finish now id s.db call).1
  rcases (Posts.finish_cases now id s.db call).2 with ⟨hposts, houtbox, hresponse⟩ |
    ⟨hposts, houtbox, -⟩
  · refine iff_of_true ⟨rows, houtbox ▸ hrows, hposts ▸ hmirrors⟩ fun post hpost hfresh => ?_
    obtain rfl : call = .destroy post := Option.some.inj (hcall.symm.trans hpost)
    rw [Posts.finish_destroy now post hfresh] at hresponse
    cases hresponse
  · have htell := tells_write now id s.db.nextId s.db.posts.1 call
    have happly : applyEvents L [] db'.outbox.1
        = some (played L rows (told s.db.nextId call)) := by
      rw [houtbox]
      exact applyEvents_concat L hrows (applyEvent_spec L hids hslugs htell)
    have hfresh : ∀ e ∈ s.db.outbox.1, e.id ≠ id := by
      have hnodup := db'.outbox.2
      rw [houtbox] at hnodup
      unfold Posts.OutboxConstraints at hnodup
      rw [List.map_append, List.nodup_append] at hnodup
      exact fun e he => hnodup.2.2 e.id (List.mem_map_of_mem he) id (by simp [Posts.recordEvent])
    have hwrite := source_write_iff hs.rows call
    rw [← hposts, ← (mirrors_iff hids s.db.posts.2.ids).mp hmirrors, ← replica_played L hids htell]
      at hwrite
    have hiff : Truthful L ⟨db', s.opened.eraseIdx i⟩ ↔
        source db'.posts.1 = replica (played L rows (told s.db.nextId call)) := by
      rw [eq_comm, ← mirrors_iff (ids_played L hids htell) db'.posts.2.ids]
      refine ⟨fun ⟨rows', hrows', hmirrors'⟩ => ?_, fun h => ⟨_, happly, h⟩⟩
      exact Option.some.inj (happly.symm.trans hrows') ▸ hmirrors'
    rw [hiff, hwrite]
    refine ⟨fun h post hpost _ => h post (Option.some.inj (hcall.symm.trans hpost)), fun h post hc => ?_⟩
    exact h post (hc ▸ hcall) hfresh

theorem truthful_step (s : State) (a : Action) (s' : State) (hs : HandedOut s)
    (htrue : Truthful L s) (h : step s a = some s') : Truthful L s' ↔ DeletesWhatItNames s a := by
  cases a with
  | begin request =>
    unfold step at h
    dsimp only at h
    cases hbegin : Posts.begin s.db.posts.1 request with
    | error response =>
      rw [hbegin] at h
      exact iff_of_true (Option.some.inj h ▸ htrue) trivial
    | ok call =>
      rw [hbegin] at h
      obtain rfl := Option.some.inj h
      exact iff_of_true htrue trivial
  | finish i now id =>
    obtain ⟨call, hcall, h⟩ := Option.bind_eq_some_iff.mp h
    obtain rfl := Option.some.inj h
    exact truthful_finish hs htrue i now id hcall

/-- **Which interleavings leave a truthful outbox**: those in which every deletion that commits runs
    on a table where the id and the slug it has loaded name the same rows. -/
theorem truthful_iff (L : Libs σ) (acts : List Action) :
    Throughout step (Truthful L) init acts ↔ Along step DeletesWhatItNames init acts :=
  throughout_iff_along (fun s a s' hs _ => handedOut_step s a s' hs) truthful_step acts handedOut_init
    ⟨[], rfl, .refl _⟩

end Steps

/-! ## A deletion that races a rename -/

/-- A post is created; its deletion is looked up before, and committed after, its rename. -/
def deleteAfterRename : List Action :=
  let fields (slug : String) : Json :=
    .obj [("title", .str "A"), ("body", .str "b"), ("slug", .str slug)]
  [.begin (.create (fields "a")), .finish 0 0 (sampleUuid 0),
    .begin (.destroy "a"), .begin (.update "a" (fields "b")),
    .finish 1 1 (sampleUuid 1), .finish 0 2 (sampleUuid 2)]

/-- **Not every interleaving leaves a truthful outbox**: the post is gone, but its deletion was
    announced under the slug it had before, and the handlers keep it. -/
theorem deleted_under_old_slug : ¬ ∀ acts, Throughout step (Truthful asciiLibs) init acts := by
  intro h
  have hsome : (run step init deleteAfterRename).isSome := by decide +kernel
  obtain ⟨s, hs⟩ := Option.isSome_iff_exists.mp hsome
  obtain ⟨rows, hrows, hmirrors⟩ := (h deleteAfterRename).last hs
  have hposts : (run step init deleteAfterRename).map (fun s => s.db.posts.1) = some [] := by
    decide +kernel
  have hkept : ((run step init deleteAfterRename).bind fun s =>
      applyEvents asciiLibs [] s.db.outbox.1).map List.length = some 1 := by decide +kernel
  rw [hs] at hposts hkept
  rw [Option.bind_some, hrows] at hkept
  have hlen := hmirrors.length_eq
  rw [show s.db.posts.1 = [] from Option.some.inj hposts, List.length_map,
    Option.some.inj hkept] at hlen
  exact absurd hlen (by decide)

end DjangoFlaskKafka.Sync.Races
