/-
  The pipeline — where what the related service shows of a post comes from.

  1. **Program** — `step`: the concurrent requests of `Sync.Races`, the relay, and the consumer of
     `Related.Main`.  The relay may send the record of any row of the outbox, at any time, to any
     partition, as often as it likes; into the topic of the revocations anybody may put anything.

  2. **Law** — `traceable`: at every moment every row of the related service is a version of a post
     that the posts service has had, and every entry of its `related` map is the score of two titles:
     of a version of that post and a version of another one, under whose slug it is entered.

  3. **The crux** — a row of the outbox tells of the version that its transaction has just written
     (`finish_had`), and what is in the log is in the outbox.  A handler puts what it is told next to
     rows that are sound already (`sound_played`), however old they are.
-/
import DjangoFlaskKafka.Sync.Races
import DjangoFlaskKafka.Posts.Isolation
import DjangoFlaskKafka.Relay.Program
import DjangoFlaskKafka.Related.Main
import DjangoFlaskKafka.Related.Maps

namespace DjangoFlaskKafka.Sync.Pipeline

open Python Kafka Postgres Related Books Machine

variable {σ : Type}

/-! ## The program -/

/-- The posts service; the broker and the related service. -/
structure State (σ : Type) where
  posts : Races.State
  related : Main.State σ

/-- Empty databases, and nobody at work. -/
def init (σ : Type) : State σ := ⟨Races.init, Main.init (Related.Db.empty σ)⟩

/-- What can happen next. -/
inductive Action where
  | request (a : Races.Action)
  | publish (i partition : Nat)
  | revoke (partition : Nat) (record : Record)
  | consume (a : Main.Action)

/-- The record that the relay sends of an outbox row, as the broker stores it. -/
def stored (e : Posts.OutboxEvent) : Record := ⟨some (Relay.record e).headers, (Relay.record e).value⟩

/-- One step; the consumer does not produce. -/
def step [Zero σ] (L : Libs σ) (s : State σ) : Action → Option (State σ)
  | .request a => do return { s with posts := ← Races.step s.posts a }
  | .publish i partition => do
    let e ← s.posts.db.outbox.1[i]?
    return { s with related := ← Main.step L s.related (.produce ⟨e.topic, partition⟩ (stored e)) }
  | .revoke partition record => do
    return { s with related := ← Main.step L s.related (.produce ⟨.tokenRevoked, partition⟩ record) }
  | .consume (.produce _ _) => none
  | .consume a => do return { s with related := ← Main.step L s.related a }

/-! ## The law -/

section Law

variable [Zero σ] (L : Libs σ) (V : PostPayload → Prop)

/-- An entry of the map of the post `i`. -/
def Entry (i : Int) (slug : String) (x : σ) : Prop :=
  ∃ p q, V p ∧ V q ∧ p.id = i ∧ q.id ≠ i ∧ q.slug = slug ∧
    (x = score L p.title q.title ∨ x = score L q.title p.title)

/-- The row and its entries come from versions. -/
structure Sound (r : Related.Post σ) : Prop where
  version : V (copied r)
  entries : ∀ slug x, r.related.lookup slug = some x → Entry L V r.id slug x

end Law

/-- The posts table has the version. -/
def Has (p : PostPayload) (s : State σ) : Prop := ∃ post ∈ s.posts.db.posts.1, content post = p

/-! ## What the handlers make of sound rows -/

section Handlers

variable [Zero σ] {L : Libs σ} {V V' : PostPayload → Prop} {rows : List (Related.Post σ)}
  {r : Related.Post σ} {p : PostPayload}

theorem Sound.mono (h : Sound L V r) (hV : ∀ p, V p → V' p) : Sound L V' r where
  version := hV _ h.version
  entries slug x hx := by
    obtain ⟨p, q, hp, hq, hrest⟩ := h.entries slug x hx
    exact ⟨p, q, hV p hp, hV q hq, hrest⟩

/-- A row that is told of another post. -/
theorem Sound.refer (h : Sound L V r) (hp : V p) (hne : p.id ≠ r.id) :
    Sound L V (r.refer L p.slug p.title) where
  version := h.version
  entries slug x hx := by
    have hx : (r.related.insert p.slug (score L r.title p.title)).lookup slug = some x := hx
    by_cases hslug : slug = p.slug
    · rw [hslug, Finmap.lookup_insert] at hx
      exact ⟨copied r, p, h.version, hp, rfl, hne, hslug.symm, .inl (Option.some.inj hx).symm⟩
    · rw [Finmap.lookup_insert_of_ne _ hslug] at hx
      exact h.entries slug x hx

/-- Scores computed against other rows. -/
theorem entry_of_scores (hrows : ∀ r ∈ rows, Sound L V r) (hslugs : (rows.map Related.Post.slug).Nodup)
    (hother : ∀ r ∈ rows, r.id ≠ p.id) (hp : V p) {slug : String} {x : σ}
    (hx : (scores L rows p.title).lookup slug = some x) : Entry L V p.id slug x := by
  obtain ⟨r, hr, hslug, rfl⟩ := (lookup_scores hslugs p.title slug x).mp hx
  exact ⟨p, copied r, hp, (hrows r hr).version, rfl, hother r hr, hslug, .inr rfl⟩

theorem sound_created (hrows : ∀ r ∈ rows, Sound L V r) (hslugs : (rows.map Related.Post.slug).Nodup)
    (hp : V p) : ∀ r ∈ created L rows p, Sound L V r := by
  unfold created
  split
  · exact hrows
  next hnone =>
    have hnew : ∀ r ∈ rows, r.id ≠ p.id := fun r hr hid =>
      hnone (Keyed.lookup_isSome_iff.mpr ⟨r, hr, hid⟩)
    intro r hr
    rcases List.mem_append.mp hr with hr | hr
    · obtain ⟨q, hq, rfl⟩ := List.mem_map.mp hr
      exact (hrows q hq).refer hp (hnew q hq).symm
    · obtain rfl := List.mem_singleton.mp hr
      exact ⟨hp, fun slug x hx => entry_of_scores hrows hslugs hnew hp hx⟩

theorem sound_updated (hrows : ∀ r ∈ rows, Sound L V r) (hslugs : (rows.map Related.Post.slug).Nodup)
    (hp : V p) : ∀ r ∈ updated L rows p, Sound L V r := by
  cases hpost : Keyed.lookup Related.Post.id p.id rows with
  | none =>
    have hcreated : updated L rows p = created L rows p := by
      unfold updated
      rw [hpost]
    rw [hcreated]
    exact sound_created hrows hslugs hp
  | some post =>
    rw [updated_eq_map hpost]
    intro r hr
    obtain ⟨q, hq, rfl⟩ := List.mem_map.mp hr
    unfold Post.revise
    by_cases hid : q.id = p.id
    · have hversion : copied (q.assign p.title p.image p.body p.slug) = p := by
        show PostPayload.mk q.id p.title p.image p.body p.slug = p
        rw [hid]
      rw [if_pos hid, if_pos hid]
      split
      · -- what has been entered is of an older version of the post
        exact ⟨hversion ▸ hp, (hrows q hq).entries⟩
      · refine ⟨hversion ▸ hp, fun slug x hx => ?_⟩
        show Entry L V q.id slug x
        rw [hid]
        refine entry_of_scores (fun r hr => hrows r (List.mem_filter.mp hr).1)
          (hslugs.sublist (List.filter_sublist.map _)) (fun r hr => ?_) hp hx
        simpa using (List.mem_filter.mp hr).2
    · rw [if_neg hid, if_neg hid]
      split
      · exact hrows q hq
      · exact (hrows q hq).refer hp (Ne.symm hid)

theorem sound_deleted (hrows : ∀ r ∈ rows, Sound L V r) (slug : String) :
    ∀ r ∈ deleted rows slug, Sound L V r := by
  intro r hr
  obtain ⟨q, hq, rfl⟩ := List.mem_map.mp hr
  have hq := hrows q (List.mem_filter.mp hq).1
  refine ⟨hq.version, fun slug' x hx => hq.entries slug' x ?_⟩
  have hx : (q.related.erase slug).lookup slug' = some x := hx
  by_cases hslug : slug' = slug
  · rw [hslug, Finmap.lookup_erase] at hx
    cases hx
  · rwa [Finmap.lookup_erase_ne hslug] at hx

/-- The version that an event carries. -/
def carried : Event Int String PostPayload → Option PostPayload
  | .offer _ _ p => some p
  | .put _ _ p => some p
  | .drop _ => none

/-- **What a handler makes of sound rows is sound** if the version it is told is one. -/
theorem sound_played (hrows : ∀ r ∈ rows, Sound L V r) (hslugs : (rows.map Related.Post.slug).Nodup)
    {ev : Event Int String PostPayload} (hev : ∀ p ∈ carried ev, V p) :
    ∀ r ∈ played L rows ev, Sound L V r := by
  cases ev with
  | offer k a p => exact sound_created hrows hslugs (hev p rfl)
  | put k a p => exact sound_updated hrows hslugs (hev p rfl)
  | drop slug => exact sound_deleted hrows slug

/-- What a call makes of the rows when it is handed what the relay sends of an outbox row. -/
theorem handle_sent (now : Int) (db : Related.Db σ) {m : Message} (fault : Fault)
    {e : Posts.OutboxEvent} {ev : Event Int String PostPayload} (h : Tells e ev)
    (htopic : m.topic = e.topic) (hvalue : m.value = e.payload) :
    (handle L now db m fault).1.post.1 = db.post.1 ∨
      (handle L now db m fault).1.post.1 = played L db.post.1 ev := by
  rcases handle_cases (L := L) now db m fault with ⟨hhandle, -⟩ | ⟨reply, hhandle, -⟩ |
    ⟨event_id, work, db', reply, hhandle, -, -, hwork, hcommit, -⟩
  · exact .inl (by rw [hhandle])
  · exact .inl (by rw [hhandle])
  · obtain ⟨cs, hcs, hflush⟩ := changesFor_spec L db.post.2.ids db.post.2.slugs h
    rw [htopic, hvalue, handlers_message L h, hcs] at hwork
    obtain rfl := Except.ok.inj hwork
    rw [hhandle]
    exact .inr (Option.some.inj ((commit_eq_some hcommit).1.symm.trans hflush))

/-- And when it is handed a revocation, whatever is in it. -/
theorem handle_revocation (now : Int) (db : Related.Db σ) {m : Message} (fault : Fault)
    (htopic : m.topic = .tokenRevoked) : (handle L now db m fault).1.post.1 = db.post.1 := by
  rcases handle_cases (L := L) now db m fault with ⟨hhandle, -⟩ | ⟨reply, hhandle, -⟩ |
    ⟨event_id, work, db', reply, hhandle, -, -, hwork, hcommit, -⟩
  · rw [hhandle]
  · rw [hhandle]
  · rw [htopic] at hwork
    obtain ⟨c, -, rfl⟩ := map_eq_ok.mp hwork
    rw [hhandle]
    exact (Option.some.inj (commit_eq_some hcommit).1).symm

end Handlers

/-! ## What a step of each party does -/

section Parties

/-- **A request**: what it adds to the outbox tells of a version that it has put in the table. -/
theorem request_adds {s s' : Races.State} {a : Races.Action} (h : Races.step s a = some s') :
    (∀ e ∈ s.db.outbox.1, e ∈ s'.db.outbox.1) ∧ ∀ e ∈ s'.db.outbox.1, e ∈ s.db.outbox.1 ∨
      ∃ ev, Tells e ev ∧ ∀ p ∈ carried ev, ∃ post ∈ s'.db.posts.1, content post = p := by
  cases a with
  | begin request =>
    have houtbox : s'.db = s.db := by
      unfold Races.step at h
      dsimp only at h
      split at h <;> exact Option.some.inj h ▸ rfl
    rw [houtbox]
    exact ⟨fun e he => he, fun e he => .inl he⟩
  | finish i now id =>
    obtain ⟨call, -, h⟩ := Option.bind_eq_some_iff.mp h
    obtain rfl := Option.some.inj h
    rcases (Posts.finish_cases now id s.db call).2 with ⟨-, houtbox, -⟩ | ⟨hposts, houtbox, -⟩
    · rw [houtbox]
      exact ⟨fun e he => he, fun e he => .inl he⟩
    · rw [houtbox, hposts]
      refine ⟨fun e he => List.mem_append_left _ he, fun e he => ?_⟩
      rcases List.mem_append.mp he with he | he
      · exact .inl he
      · obtain rfl := List.mem_singleton.mp he
        refine .inr ⟨told s.db.nextId call, tells_write .., fun p hp => ?_⟩
        cases call with
        | create data =>
          obtain rfl := Option.some.inj hp
          exact ⟨_, List.mem_append_right _ (List.mem_singleton_self _), rfl⟩
        | update post data =>
          obtain rfl := Option.some.inj hp
          exact ⟨_, Posts.mem_save_self (data.update post) s.db.posts.1, rfl⟩
        | destroy post => cases hp

variable [Zero σ] {L : Libs σ}

/-- Only a producer writes to a log. -/
theorem log_of_step {s s' : Main.State σ} {a : Main.Action} (h : Main.step L s a = some s')
    {tp : TopicPartition} {record : Record} (hrecord : record ∈ s'.log tp) :
    record ∈ s.log tp ∨ a = .produce tp record := by
  cases a with
  | produce tp' record' =>
    obtain rfl := Option.some.inj h
    by_cases htp : tp = tp'
    · subst htp
      have hrecord : record ∈ Function.update s.log tp (s.log tp ++ [record']) tp := hrecord
      rw [Function.update_self] at hrecord
      rcases List.mem_append.mp hrecord with hrecord | hrecord
      · exact .inl hrecord
      · exact .inr (List.mem_singleton.mp hrecord ▸ rfl)
    · have hrecord : record ∈ Function.update s.log tp' (s.log tp' ++ [record']) tp := hrecord
      rw [Function.update_of_ne htp] at hrecord
      exact .inl hrecord
  | start assigned =>
    obtain ⟨-, h⟩ := Option.ite_none_right_eq_some.mp h
    obtain rfl := Option.some.inj h
    exact .inl hrecord
  | next tp' now fault =>
    obtain ⟨-, h⟩ := Option.ite_none_right_eq_some.mp h
    obtain ⟨-, -, hlog, -⟩ := Main.next_cases h
    exact .inl (hlog ▸ hrecord)
  | commit =>
    obtain ⟨-, h⟩ := Option.ite_none_right_eq_some.mp h
    obtain rfl := Option.some.inj h
    exact .inl hrecord
  | crash =>
    obtain rfl := Option.some.inj h
    exact .inl hrecord

/-- **All that a step can do**: it is a request, and leaves the related service alone; or it is a
    step of the related service that writes to a log only a revocation or what the relay sends. -/
theorem step_cases {s s' : State σ} {a : Action} (h : step L s a = some s') :
    (∃ b, Races.step s.posts b = some s'.posts ∧ s'.related = s.related) ∨
      ∃ b, Main.step L s.related b = some s'.related ∧ s'.posts = s.posts ∧
        ∀ tp record, b = .produce tp record → tp.topic = .tokenRevoked ∨
          ∃ e ∈ s.posts.db.outbox.1, tp.topic = e.topic ∧ record = stored e := by
  cases a with
  | request b =>
    obtain ⟨posts, hposts, h⟩ := Option.bind_eq_some_iff.mp h
    obtain rfl := Option.some.inj h
    exact .inl ⟨b, hposts, rfl⟩
  | publish i partition =>
    obtain ⟨e, he, h⟩ := Option.bind_eq_some_iff.mp h
    obtain ⟨related, hrelated, h⟩ := Option.bind_eq_some_iff.mp h
    obtain rfl := Option.some.inj h
    refine .inr ⟨_, hrelated, rfl, fun tp record heq => .inr ⟨e, List.mem_of_getElem? he, ?_⟩⟩
    obtain ⟨rfl, rfl⟩ := Main.Action.produce.inj heq
    exact ⟨rfl, rfl⟩
  | revoke partition record =>
    obtain rfl := Option.some.inj h
    refine .inr ⟨.produce ⟨.tokenRevoked, partition⟩ record, rfl, rfl, fun tp record heq => .inl ?_⟩
    obtain ⟨rfl, rfl⟩ := Main.Action.produce.inj heq
    rfl
  | consume b =>
    cases b with
    | produce tp record => cases h
    | crash =>
      obtain rfl := Option.some.inj h
      exact .inr ⟨.crash, rfl, rfl, fun tp record heq => by cases heq⟩
    | _ =>
      obtain ⟨related, hrelated, h⟩ := Option.bind_eq_some_iff.mp h
      obtain rfl := Option.some.inj h
      exact .inr ⟨_, hrelated, rfl, fun tp record heq => by cases heq⟩

end Parties

/-! ## What a run keeps -/

section Runs

variable [Zero σ] (L : Libs σ)

/-- The posts table has had the version, by the end of the run. -/
def Held (acts : List Action) (p : PostPayload) : Prop := Once (step L) (Has p) (init σ) acts

/-- The outbox tells of versions, the logs hold what is in the outbox, and the rows are sound. -/
structure Traced (acts : List Action) (s : State σ) : Prop where
  told : ∀ e ∈ s.posts.db.outbox.1, ∃ ev, Tells e ev ∧ ∀ p ∈ carried ev, Held L acts p
  logged : ∀ tp, ∀ record ∈ s.related.log tp, tp.topic = .tokenRevoked ∨
    ∃ e ∈ s.posts.db.outbox.1, tp.topic = e.topic ∧ record = stored e
  sound : ∀ r ∈ s.related.db.post.1, Sound L (Held L acts) r

variable {L}

theorem traced_step (acts : List Action) (s : State σ) (a : Action) (s' : State σ)
    (hs : Traced L acts s) (h : step L s a = some s')
    (hrun : run (step L) (init σ) (acts ++ [a]) = some s') : Traced L (acts ++ [a]) s' := by
  have hheld : ∀ p, Held L acts p → Held L (acts ++ [a]) p := fun p hp => hp.append [a]
  have htold : ∀ e ∈ s.posts.db.outbox.1, ∃ ev, Tells e ev ∧
      ∀ p ∈ carried ev, Held L (acts ++ [a]) p := by
    intro e he
    obtain ⟨ev, htells, hev⟩ := hs.told e he
    exact ⟨ev, htells, fun p hp => hheld p (hev p hp)⟩
  have hsound : ∀ r ∈ s.related.db.post.1, Sound L (Held L (acts ++ [a])) r :=
    fun r hr => (hs.sound r hr).mono hheld
  rcases step_cases h with ⟨b, hposts, hrelated⟩ | ⟨b, hrelated, hposts, hsent⟩
  · obtain ⟨hkept, hadded⟩ := request_adds hposts
    refine ⟨fun e he => ?_, fun tp record hrecord => ?_, hrelated ▸ hsound⟩
    · rcases hadded e he with he | ⟨ev, htells, hev⟩
      · exact htold e he
      · exact ⟨ev, htells, fun p hp => once_of_run hrun (hev p hp)⟩
    · rw [hrelated] at hrecord
      exact (hs.logged tp record hrecord).imp_right fun ⟨e, he, hrest⟩ => ⟨e, hkept e he, hrest⟩
  · refine ⟨hposts ▸ htold, fun tp record hrecord => ?_, ?_⟩
    · rw [hposts]
      rcases log_of_step hrelated hrecord with hrecord | hproduce
      · exact hs.logged tp record hrecord
      · exact hsent tp record hproduce
    · rcases Main.step_handles hrelated with hdb | ⟨tp, record, hrecord, offset, now, fault, hdb⟩
      · exact hdb ▸ hsound
      rw [hdb]
      rcases hs.logged tp record hrecord with htopic | ⟨e, he, htopic, rfl⟩
      · rw [handle_revocation now s.related.db fault htopic]
        exact hsound
      · obtain ⟨ev, htells, hev⟩ := htold e he
        rcases handle_sent (L := L) now s.related.db (m := (stored e).message tp offset) fault htells
          htopic rfl with hrows | hrows
        · exact hrows ▸ hsound
        · exact hrows ▸ sound_played hsound s.related.db.post.2.slugs hev

end Runs

/-- **Everything comes from the posts service**: at every moment of every run, a row of the related
    service is a version that the posts table has had, and an entry of its map the score of a version
    of that post and a version of another one, under its slug. -/
theorem traceable [Zero σ] (L : Libs σ) {acts : List Action} {s : State σ}
    (hrun : run (step L) (init σ) acts = some s) : ∀ r ∈ s.related.db.post.1, Sound L (Held L acts) r := by
  have hinit : Traced L [] (init σ) := by
    refine ⟨?_, ?_, ?_⟩ <;> simp [init, Races.init, Main.init, Posts.Db.empty, Related.Db.empty]
  exact (run_traced hinit traced_step hrun).sound

/-- Two posts are created and announced; the second is renamed and its rename announced before its
    creation; a revocation comes in between, and the consumer crashes. -/
def overtaking : List Action :=
  let created : TopicPartition := ⟨.postCreated, 0⟩
  let updated : TopicPartition := ⟨.postUpdated, 0⟩
  [.request (.begin (.create (Posts.fieldsAt "a"))), .request (.finish 0 0 (sampleUuid 0)),
    .publish 0 0, .consume (.start [created, updated]), .consume (.next created 0 .none),
    .consume .commit, .request (.begin (.create (Posts.fieldsAt "b"))),
    .request (.finish 0 1 (sampleUuid 1)), .request (.begin (.update "b" (Posts.fieldsAt "c"))),
    .request (.finish 0 2 (sampleUuid 2)), .publish 2 0, .revoke 0 ⟨none, .null⟩,
    .consume (.next updated 0 .none), .consume .crash, .consume (.start [created, updated]),
    .publish 1 0, .consume (.next created 0 .none)]

theorem traceable_overtaking : ∃ s, run (step asciiLibs) (init ℚ) overtaking = some s ∧
    ∀ r ∈ s.related.db.post.1, Sound asciiLibs (Held asciiLibs overtaking) r := by
  have hsome : (run (step asciiLibs) (init ℚ) overtaking).isSome := by decide +kernel
  obtain ⟨s, hs⟩ := Option.isSome_iff_exists.mp hsome
  exact ⟨s, hs, traceable asciiLibs hs⟩

example : ((run (step asciiLibs) (init ℚ) overtaking).map fun s =>
    s.related.db.post.1.map fun p => (p.slug, p.related.keys)) = some [("a", {"c"}), ("c", {"a"})] := by
  decide +kernel

end DjangoFlaskKafka.Sync.Pipeline
