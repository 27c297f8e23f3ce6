/-
  Per-key order — whether the log of a topic has the rows of one key in the order of the outbox.

  1. **Law** — `KeyOrder`: of two rows with the same topic and key that are both in the log, the
     older occurs first.  A row may be in the log many times, for delivery is at least once; what
     counts is where it is FIRST, since a consumer skips the rest by the event id.

  2. **The crux** — a claim takes the oldest rows it can have and a pass sends them in that order,
     so within a pass nothing overtakes.  Two things let a row pass an older one of its key all the
     same: the older one is locked by another relay when the row is claimed (`SKIP LOCKED` steps
     over it), or the older one's send has failed when the row is stored (it stays behind for a
     later pass).  `InTurn` is that neither happens.  It is said of a step before it is taken, by
     what the claim would take and what the send would pass.

  3. **The invariant** — `Turns`: an older row of the key of a row that waits in a pass is in the
     log, or has been published, or is in the same pass; an older row of the key of a row in the log
     is in the log, or published.  A published row is never claimed again, so it cannot come late.

  4. **Two counterexamples** — a failed send in the middle of a batch, for one relay alone
     (`newer_version_first`); and two relays with no failure at all.
-/
import DjangoFlaskKafka.Relay.Program

namespace DjangoFlaskKafka.Relay

open Python Kafka Postgres Posts Machine

variable {ι : Type}

/-! ## The law -/

/-- The first occurrence of a row in the log of its topic. -/
def State.first (s : State ι) (e : OutboxEvent) : Nat := (s.log e.topic).findIdx fun r => r.IsOf e

/-- Rows of one topic and key, the first of them older. -/
structure Precedes (e e' : OutboxEvent) : Prop where
  topic : e.topic = e'.topic
  key : e.key = e'.key
  older : e.created_at < e'.created_at

instance (e e' : OutboxEvent) : Decidable (Precedes e e') :=
  decidable_of_iff (e.topic = e'.topic ∧ e.key = e'.key ∧ e.created_at < e'.created_at)
    ⟨fun h => ⟨h.1, h.2.1, h.2.2⟩, fun h => ⟨h.topic, h.key, h.older⟩⟩

/-- In the log, the rows of a key occur first in the order of the outbox. -/
def KeyOrder (s : State ι) : Prop :=
  ∀ e ∈ s.outbox.1, ∀ e' ∈ s.outbox.1, Precedes e e' → s.Logged e → s.Logged e' →
    s.first e < s.first e'

instance (s : State ι) : Decidable (KeyOrder s) :=
  inferInstanceAs (Decidable (∀ e ∈ s.outbox.1, ∀ e' ∈ s.outbox.1, _))

/-- Nothing steps over an older row of its key: not one that another relay holds and the log does
    not have yet, and not one of its own pass whose send has failed.  And rows are inserted in the
    order of their `created_at`. -/
def InTurn [Fintype ι] (s : State ι) : Action ι → Prop
  | .insert now _ topic key _ =>
    ∀ e ∈ s.outbox.1, e.topic = topic → e.key = key → e.created_at ≤ now
  | .claim _ limit rank => ∀ e' ∈ claimBatch s limit rank, ∀ j, ∀ p ∈ s.pass j, ∀ e ∈ p.rows,
    Precedes e e' → s.Logged e
  | .send i outcome => outcome.stored → ∀ p ∈ s.pass i, ∀ e' ∈ p.todo.head?, ∀ x ∈ p.resolved,
    Precedes x.1 e' → s.Logged x.1
  | .finish _ _ | .abort _ => True

instance [Fintype ι] (s : State ι) : ∀ a, Decidable (InTurn s a)
  | .insert now _ topic key _ =>
    inferInstanceAs (Decidable (∀ e ∈ s.outbox.1, e.topic = topic → e.key = key → e.created_at ≤ now))
  | .claim _ limit rank => inferInstanceAs (Decidable (∀ e' ∈ claimBatch s limit rank, ∀ j,
      ∀ p ∈ s.pass j, ∀ e ∈ p.rows, Precedes e e' → s.Logged e))
  | .send i outcome => inferInstanceAs (Decidable (outcome.stored → ∀ p ∈ s.pass i,
      ∀ e' ∈ p.todo.head?, ∀ x ∈ p.resolved, Precedes x.1 e' → s.Logged x.1))
  | .finish _ _ | .abort _ => .isTrue trivial

/-! ## The invariant -/

/-- Whatever is older than a row that waits, or that is in the log, is not going to come after it. -/
structure Turns (s : State ι) : Prop where
  waiting : ∀ i, ∀ p ∈ s.pass i, ∀ e' ∈ p.todo, ∀ e ∈ s.outbox.1, Precedes e e' →
    s.Logged e ∨ e.published_at.isSome ∨ e ∈ p.rows
  passed : ∀ e' ∈ s.outbox.1, s.Logged e' → ∀ e ∈ s.outbox.1, Precedes e e' →
    s.Logged e ∨ e.published_at.isSome
  order : KeyOrder s

theorem turns_start (outbox : OutboxTable) : Turns (start outbox : State ι) where
  waiting i p hp := by cases hp
  passed e' _ h := by obtain ⟨r, hr, -⟩ := h; cases hr
  order e _ e' _ _ h := by obtain ⟨r, hr, -⟩ := h; cases hr

/-- A row of the outbox is known by its id. -/
theorem eq_of_id {s : State ι} {e e' : OutboxEvent} (he : e ∈ s.outbox.1) (he' : e' ∈ s.outbox.1)
    (hid : e.id = e'.id) : e = e' :=
  List.inj_on_of_nodup_map s.outbox.2 he he' hid

/-- Being in the log, and where, is a matter of the id and the topic. -/
theorem logged_congr {s : State ι} {e x : OutboxEvent} (hid : e.id = x.id) (htopic : e.topic = x.topic) :
    (s.Logged e ↔ s.Logged x) ∧ s.first e = s.first x := by
  have his : ∀ r : Sent, r.IsOf e ↔ r.IsOf x := by
    intro r
    unfold Sent.IsOf eventIdHeaders
    rw [hid]
  unfold State.Logged State.first
  rw [htopic]
  simp only [his, and_self]

/-! ## The steps -/

section Steps

variable {s : State ι}

/-- An insertion: the new row is not in the log, and no row of its key is younger. -/
theorem turns_insert {s' : State ι} (hs : Sound s) (ht : Turns s) {e : OutboxEvent}
    (hturn : ∀ x ∈ s.outbox.1, x.topic = e.topic → x.key = e.key → x.created_at ≤ e.created_at)
    (houtbox : s'.outbox.1 = s.outbox.1 ++ [e]) (hlog : s'.log = s.log) (hpass : s'.pass = s.pass) :
    Turns s' := by
  have hlogged : ∀ x, s'.Logged x ↔ s.Logged x := by
    intro x
    unfold State.Logged
    rw [hlog]
  have hfirst : ∀ x, s'.first x = s.first x := by
    intro x
    unfold State.first
    rw [hlog]
  have hmem : ∀ x ∈ s'.outbox.1, x ∈ s.outbox.1 ∨ x = e := by
    intro x hx
    rw [houtbox] at hx
    rcases List.mem_append.mp hx with hx | hx
    · exact .inl hx
    · exact .inr (List.mem_singleton.mp hx)
  -- the new row has a new id, so the log has nothing of it
  have hnew : ¬ s.Logged e := by
    rintro ⟨r, hr, his⟩
    obtain ⟨x, hx, -, rfl⟩ := hs.origin _ r hr
    have hnodup := s'.outbox.2
    unfold OutboxConstraints at hnodup
    rw [houtbox, List.map_append, List.nodup_append] at hnodup
    exact hnodup.2.2 x.id (List.mem_map_of_mem hx) e.id (by simp) (isOf_record_iff.mp his)
  have hyoung : ∀ x ∈ s.outbox.1, ¬ Precedes e x := by
    intro x hx hprec
    have hle := hturn x hx hprec.topic.symm hprec.key.symm
    have hlt := hprec.older
    omega
  refine ⟨fun i p hp e' he' x hx hprec => ?_, fun e' he' hl x hx hprec => ?_,
    fun x hx e' he' hprec hl hl' => ?_⟩
  · rw [hpass] at hp
    have hmem' := (hs.held i p hp e' (List.mem_append_right _ he')).1
    rw [hlogged]
    rcases hmem x hx with hx | rfl
    · exact ht.waiting i p hp e' he' x hx hprec
    · exact absurd hprec (hyoung e' hmem')
  · rw [hlogged] at hl ⊢
    rcases hmem e' he' with he' | rfl
    · rcases hmem x hx with hx | rfl
      · exact ht.passed e' he' hl x hx hprec
      · exact absurd hprec (hyoung e' he')
    · exact absurd hl hnew
  · rw [hlogged] at hl hl'
    rw [hfirst, hfirst]
    rcases hmem x hx with hx | rfl
    · rcases hmem e' he' with he' | rfl
      · exact ht.order x hx e' he' hprec hl hl'
      · exact absurd hl' hnew
    · exact absurd hl hnew

variable [Fintype ι] [DecidableEq ι]

/-- A claim takes the oldest rows it can have, so what is older than one of them is taken as well, or
    published, or held by another relay; and in turn, that has stored it already. -/
theorem turns_claim (hs : Sound s) (ht : Turns s) {i : ι} {limit : Nat} {rank : Uuid → Nat}
    (hturn : InTurn s (.claim i limit rank)) :
    Turns { s with pass := Function.update s.pass i (some ⟨[], claimBatch s limit rank⟩) } where
  waiting j p hp e' he' e he hprec := by
    rcases mem_update hp with ⟨-, hp⟩ | ⟨-, hp⟩
    · obtain rfl := Option.some.inj hp
      by_cases hel : e ∈ s.eligible
      · exact .inr (.inr (mem_claimBatch_of_older hel he' hprec.older))
      · -- an older row that cannot be had is published, or another relay's
        by_cases hpub : e.published_at.isSome
        · exact .inr (.inl hpub)
        · have hlocked : s.Locked e.id := by
            by_contra hfree
            exact hel (List.mem_filter.mpr ⟨he, by simp_all⟩)
          obtain ⟨k, q, hq, hid⟩ := hlocked
          obtain ⟨x, hx, hid⟩ := List.mem_map.mp hid
          obtain rfl := eq_of_id (hs.held k q hq x hx).1 he hid
          exact .inl (hturn e' he' k q hq x hx hprec)
    · exact ht.waiting j p hp e' he' e he hprec
  passed := ht.passed
  order := ht.order

omit [Fintype ι] [DecidableEq ι] in
theorem first_lt_length {e : OutboxEvent} (h : s.Logged e) : s.first e < (s.log e.topic).length := by
  obtain ⟨r, hr, his⟩ := h
  exact List.findIdx_lt_length_of_exists ⟨r, hr, decide_eq_true his⟩

omit [Fintype ι] [DecidableEq ι] in
/-- What a send makes of the log: every row is where it was, and the row it stores, if it is not
    there yet, comes last. -/
theorem logged_send (pass : ι → Option Pass) (outcome : Outcome) (e₀ e : OutboxEvent) :
    let s' : State ι := { s with log := sendLog s.log outcome e₀, pass := pass }
    (s.Logged e → s'.Logged e ∧ s'.first e = s.first e) ∧
      (¬ s.Logged e → s'.Logged e → outcome.stored ∧ e.id = e₀.id ∧
        s'.first e = (s.log e.topic).length) := by
  intro s'
  have hlog : s'.log e.topic
      = s.log e.topic ++ if outcome.stored ∧ e.topic = e₀.topic then [record e₀] else [] :=
    sendLog_apply ..
  constructor
  · intro hl
    have hlt := first_lt_length hl
    obtain ⟨r, hr, his⟩ := hl
    refine ⟨⟨r, hlog ▸ List.mem_append_left _ hr, his⟩, ?_⟩
    unfold State.first at hlt ⊢
    rw [hlog, List.findIdx_append, if_pos hlt]
  · rintro hnot ⟨r, hr, his⟩
    rw [hlog, List.mem_append] at hr
    rcases hr with hr | hr
    · exact absurd ⟨r, hr, his⟩ hnot
    by_cases hnew : outcome.stored ∧ e.topic = e₀.topic
    · rw [if_pos hnew] at hr
      obtain rfl := List.mem_singleton.mp hr
      refine ⟨hnew.1, (isOf_record_iff.mp his).symm, ?_⟩
      have hlen : ¬ (s.log e.topic).findIdx (fun r => r.IsOf e) < (s.log e.topic).length := by
        rw [List.findIdx_lt_length]
        rintro ⟨r, hr, his⟩
        exact hnot ⟨r, hr, of_decide_eq_true his⟩
      unfold State.first
      rw [hlog, if_pos hnew, List.findIdx_append, if_neg hlen, List.findIdx_cons,
        decide_eq_true his]
      exact Nat.zero_add _
    · rw [if_neg hnew] at hr
      cases hr

omit [DecidableEq ι] in
/-- **The row about to be stored is next of its key**: the older ones are in the log, or will never
    be sent again. -/
theorem next_of_key (hs : Sound s) (ht : Turns s) {i : ι} {outcome : Outcome}
    {resolved : List (OutboxEvent × Outcome)} {e₀ : OutboxEvent} {todo : List OutboxEvent}
    (hi : s.pass i = some ⟨resolved, e₀ :: todo⟩) (hturn : InTurn s (.send i outcome))
    (hstored : outcome.stored) :
    ∀ e ∈ s.outbox.1, Precedes e e₀ → s.Logged e ∨ e.published_at.isSome := by
  intro e he hprec
  rcases ht.waiting i _ hi e₀ List.mem_cons_self e he hprec with h | h | h
  · exact .inl h
  · exact .inr h
  · have hsorted := hs.ordered i _ hi
    have hlt := hprec.older
    rcases List.mem_append.mp h with h | h
    · obtain ⟨x, hx, rfl⟩ := List.mem_map.mp h
      exact .inl (hturn hstored _ hi e₀ rfl x hx hprec)
    · -- the rows still to come are not older
      have htodo := (List.pairwise_append.mp hsorted).2.1
      rcases List.mem_cons.mp h with rfl | h
      · omega
      · have hle := (List.pairwise_cons.mp htodo).1 e h
        omega

/-- A send stores the next row of its key, if it stores it, behind all that the log has. -/
theorem turns_send (hs : Sound s) (ht : Turns s) {i : ι} {outcome : Outcome}
    {resolved : List (OutboxEvent × Outcome)} {e₀ : OutboxEvent} {todo : List OutboxEvent}
    (hi : s.pass i = some ⟨resolved, e₀ :: todo⟩) (hturn : InTurn s (.send i outcome)) :
    Turns { s with
      log := sendLog s.log outcome e₀
      pass := Function.update s.pass i (some ⟨resolved ++ [(e₀, outcome)], todo⟩) } := by
  have hlog := logged_send (s := s)
    (Function.update s.pass i (some ⟨resolved ++ [(e₀, outcome)], todo⟩)) outcome e₀
  have hmem : e₀ ∈ s.outbox.1 := (hs.held i _ hi e₀ (by simp [Pass.rows])).1
  have hnone : e₀.published_at = none := (hs.held i _ hi e₀ (by simp [Pass.rows])).2
  refine ⟨fun j p hp e' he' e he hprec => ?_, fun e' he' hl' e he hprec => ?_,
    fun e he e' he' hprec hl hl' => ?_⟩
  · -- what waits after the send waited before it, in a pass of the same rows
    have hbefore : ∃ q ∈ s.pass j, e' ∈ q.todo ∧ q.rows = p.rows := by
      rcases mem_update hp with ⟨rfl, hp'⟩ | ⟨-, hp⟩
      · obtain rfl := Option.some.inj hp'
        exact ⟨_, hi, List.mem_cons_of_mem _ he', by simp [Pass.rows]⟩
      · exact ⟨p, hp, he', rfl⟩
    obtain ⟨q, hq, hq', hrows⟩ := hbefore
    rcases ht.waiting j q hq e' hq' e he hprec with h | h | h
    · exact .inl ((hlog e).1 h).1
    · exact .inr (.inl h)
    · exact .inr (.inr (hrows ▸ h))
  · -- a row that is in the log was there before, or is the one that has just been stored
    have hbefore : s.Logged e ∨ e.published_at.isSome := by
      by_cases h : s.Logged e'
      · exact ht.passed e' he' h e he hprec
      · obtain ⟨hstored, hid, -⟩ := (hlog e').2 h hl'
        obtain rfl := eq_of_id he' hmem hid
        exact next_of_key hs ht hi hturn hstored e he hprec
    exact hbefore.imp_left fun h => ((hlog e).1 h).1
  · by_cases h : s.Logged e
    · by_cases h' : s.Logged e'
      · rw [((hlog e).1 h).2, ((hlog e').1 h').2]
        exact ht.order e he e' he' hprec h h'
      -- the newer one comes last, and the older one was there
      · rw [((hlog e).1 h).2, ((hlog e').2 h' hl').2.2, ← hprec.topic]
        exact first_lt_length h
    · -- stored for the first time, it is unpublished, so nothing newer of its key is there
      obtain ⟨-, hid, -⟩ := (hlog e).2 h hl
      obtain rfl := eq_of_id he hmem hid
      by_cases h' : s.Logged e'
      · rcases ht.passed e' he' h' e he hprec with h'' | h''
        · exact absurd h'' h
        · rw [hnone] at h''
          cases h''
      · obtain ⟨-, hid', -⟩ := (hlog e').2 h' hl'
        obtain rfl := eq_of_id he' he hid'
        have hlt := hprec.older
        omega

omit [Fintype ι] in
/-- A pass that is over waits for nothing. -/
theorem turns_close (ht : Turns s) (i : ι) : Turns { s with pass := Function.update s.pass i none } where
  waiting j p hp := by
    rcases mem_update hp with ⟨-, hp⟩ | ⟨-, hp⟩
    · cases hp
    · exact ht.waiting j p hp
  passed := ht.passed
  order := ht.order

omit [Fintype ι] [DecidableEq ι] in
/-- Marking rows changes no order. -/
theorem turns_mark (ht : Turns s) (now : Int) (ids : List Uuid) :
    Turns { s with outbox := markPublished now ids s.outbox } := by
  have hback : ∀ e ∈ (markPublished now ids s.outbox).1, ∃ x ∈ s.outbox.1,
      (∀ e', Precedes e e' ↔ Precedes x e') ∧ (∀ e', Precedes e' e ↔ Precedes e' x) ∧
      (s.Logged e ↔ s.Logged x) ∧ s.first e = s.first x ∧ (e = x ∨ e.published_at.isSome) := by
    intro e he
    obtain ⟨x, hx, hid, htopic, hkey, hcreated, hsame⟩ := exists_of_mem_markPublished he
    obtain ⟨hlogged, hfirst⟩ := logged_congr (s := s) hid htopic
    have hprec : ∀ e', (Precedes e e' ↔ Precedes x e') ∧ (Precedes e' e ↔ Precedes e' x) := by
      intro e'
      refine ⟨⟨fun h => ?_, fun h => ?_⟩, ⟨fun h => ?_, fun h => ?_⟩⟩ <;>
        exact ⟨by simp_all [h.topic], by simp_all [h.key], by have := h.older; omega⟩
    exact ⟨x, hx, fun e' => (hprec e').1, fun e' => (hprec e').2, hlogged, hfirst,
      hsame.imp And.left And.left⟩
  refine ⟨fun i p hp e' he' e he hprec => ?_, fun e' he' hl' e he hprec => ?_,
    fun e he e' he' hprec hl hl' => ?_⟩
  · obtain ⟨x, hx, hafter, -, hlogged, -, hsame⟩ := hback e he
    rcases ht.waiting i p hp e' he' x hx ((hafter e').mp hprec) with h | h | h
    · exact .inl (hlogged.mpr h)
    · exact .inr (.inl (hsame.elim (fun heq => heq ▸ h) id))
    · refine .inr (hsame.symm.imp_right fun heq => ?_)
      rw [heq]
      exact h
  · obtain ⟨x', hx', -, hbefore, hlogged', -, -⟩ := hback e' he'
    obtain ⟨x, hx, hafter, -, hlogged, -, hsame⟩ := hback e he
    rcases ht.passed x' hx' (hlogged'.mp hl') x hx ((hafter x').mp ((hbefore e).mp hprec)) with h | h
    · exact .inl (hlogged.mpr h)
    · exact .inr (hsame.elim (fun heq => heq ▸ h) id)
  · obtain ⟨x', hx', -, hbefore, hlogged', hfirst', -⟩ := hback e' he'
    obtain ⟨x, hx, hafter, -, hlogged, hfirst, -⟩ := hback e he
    have hlt := ht.order x hx x' hx' ((hafter x').mp ((hbefore e).mp hprec)) (hlogged.mp hl)
      (hlogged'.mp hl')
    exact hfirst ▸ hfirst' ▸ hlt

/-- **A step in turn keeps the invariant.** -/
theorem turns_step (s : State ι) (a : Action ι) (s' : State ι) (hs : Sound s) (ht : Turns s)
    (hturn : InTurn s a) (h : step s a = some s') : Turns s' := by
  cases a with
  | insert now id topic key payload =>
    obtain ⟨houtbox, hlog, hpass⟩ := step_insert h
    exact turns_insert (e := recordEvent now id topic key payload) hs ht hturn houtbox hlog hpass
  | claim i limit rank =>
    obtain ⟨-, rfl | rfl⟩ := step_claim h
    · exact ht
    · exact turns_claim hs ht hturn
  | send i outcome =>
    obtain ⟨resolved, e, todo, hi, rfl⟩ := step_send h
    exact turns_send hs ht hi hturn
  | finish i now =>
    obtain ⟨p, -, -, rfl⟩ := step_finish h
    exact turns_mark (turns_close ht i) now p.delivered
  | abort i =>
    obtain rfl := step_abort h
    exact turns_close ht i

/-- **The log keeps the order of every key while nothing steps over an older row of its key**: in
    every run of any number of relays all of whose steps are in turn, at every moment. -/
theorem keyOrder_of_inTurn (outbox : OutboxTable) (acts : List (Action ι))
    (h : Along step InTurn (start outbox) acts) : Throughout step KeyOrder (start outbox) acts :=
  (throughout_of_along (fun s a s' hs _ => sound_step s a s' hs) turns_step (sound_start outbox)
    (turns_start outbox) h).mono
    fun _ ht => ht.order

end Steps

/-! ## Two ways to be overtaken -/

/-- A row of the key `"post"`. -/
def pendingRow (id : Uuid) (created_at : Int) : OutboxEvent :=
  recordEvent created_at id .postUpdated ⟨"post", by decide +kernel⟩ .null

/-- Two versions of one post wait to be published. -/
def twoVersions : OutboxTable :=
  ⟨[pendingRow (sampleUuid 1) 1,
    pendingRow (sampleUuid 2) 2], by decide +kernel⟩

/-- Two relays in turn: the one publishes both rows, a failed send comes back after it, and the
    other finds nothing. -/
theorem keyOrder_twoVersions : Throughout step KeyOrder (start twoVersions : State Bool)
    [.claim true 1 (fun _ => 0), .send true (.failed true), .finish true 3,
      .claim false 100 (fun _ => 0), .claim true 100 (fun _ => 0), .send false .acked,
      .send false .acked, .finish false 4, .claim true 100 (fun _ => 0)] :=
  keyOrder_of_inTurn twoVersions _ (by decide +kernel)

/-- The older version's send fails, the newer one's does not; the next pass sends the older one. -/
def partialFailure : List (Action Bool) :=
  [.claim true 100 (fun _ => 0), .send true (.failed false), .send true .acked, .finish true 3,
    .claim true 100 (fun _ => 0), .send true .acked]

/-- **A key's order is not kept.** -/
theorem newer_version_first : ∃ s, run step (start twoVersions) partialFailure = some s ∧
    ¬ KeyOrder s := by
  have hsome : (run step (start twoVersions) partialFailure).isSome := by decide +kernel
  have hlast : ∀ s ∈ run step (start twoVersions) partialFailure, ¬ KeyOrder s := by decide +kernel
  obtain ⟨s, hs⟩ := Option.isSome_iff_exists.mp hsome
  exact ⟨s, hs, hlast s hs⟩

/-- The other way, with no failure at all: one relay has claimed the older row and not sent it yet
    when another claims and sends the newer one. -/
example : ∀ s ∈ run step (start twoVersions : State Bool)
    [.claim true 1 (fun _ => 0), .claim false 1 (fun _ => 0), .send false .acked,
      .send true .acked], ¬ KeyOrder s := by decide +kernel

end DjangoFlaskKafka.Relay
