/-
  The revocation consumer of the posts service — the loop of
  `services/posts/posts/management/commands/consume_revocations.py`.

  1. **Program** — `handle` as a consumer of `Lib.Offsets`, of one topic: `_apply` a message, and
     commit.  `_apply` returns `True`, or lets an exception through that leaves the loop and ends
     the process; so does a database that fails.  Between messages time passes, and the loop purges.

  2. **Laws** — what is acknowledged is denied until the token expires (`acknowledged_denied`):
     unlike the consumer of the related service, this one goes on past no message that it has not
     applied.  The other side of it: a payload that the database turns down ends every process that
     comes to it, and no revocation behind it in its partition is ever applied
     (`unwritable_blocks`).
-/
import DjangoFlaskKafka.Lib.Offsets
import DjangoFlaskKafka.Posts.Payloads

namespace DjangoFlaskKafka.Posts.Consume

open Python Postgres Denylist Machine Offsets

/-! ## The program -/

/-- The denylist and the clock. -/
structure Data where
  rows : RevokedTable
  now : Int

/-- What happens between messages. -/
inductive Tend where
  | tick (elapsed : Nat)
  | purge

variable (L : Libs)

/-- `self._apply(message.value)`; `fails` is a statement that the database does not get to. -/
def handle (d : Data) (payload : Json) (fails : Bool) : Option Data :=
  if fails then none else (apply L d.rows payload).map fun rows => { d with rows := rows }

/-- Time passes; `purge_expired_revocations()`. -/
def tend (d : Data) : Tend → Data
  | .tick elapsed => { d with now := d.now + elapsed }
  | .purge => { d with rows := purgeExpiredRevocations d.now d.rows }

/-- The service before its first revocation. -/
def empty (now : Int) : Data := ⟨⟨[], revokedConstraints_nil⟩, now⟩

/-! ## The laws -/

/-- The token is on the denylist, or has expired. -/
def Data.Denies (due : String → Int) (d : Data) (token : String) : Prop :=
  (∃ row ∈ d.rows.1, row.token_id = token) ∨ due token ≤ d.now

/-- A revocation carries the expiry of its token. -/
def Timed (due : String → Int) (payload : Json) : Prop :=
  ∀ row, Says L payload row → row.expires_at = due row.token_id

variable {L} {due : String → Int}

/-- What auth writes carries it. -/
theorem timed_revocation (token user : Uuid) (hdue : Rfc3339.Writable (due token.1)) :
    Timed L due (Auth.revocationPayload token.1 user (due token.1)) := by
  intro row hstated
  have hread := readRevocation_revocation L token user hdue
  obtain ⟨⟨s, hs, hstored⟩, -, hdate⟩ := (says_iff (readRevocation_eq_ok_iff.mp hread)).mp hstated
  -- the token is the text that is stored
  rw [bindText, quote_of_varchar (varchar_uuid token)] at hs
  obtain rfl := Option.some.inj (Except.ok.inj hs)
  rw [stored_of_varchar (varchar_uuid token)] at hstored
  rw [← Option.some.inj hstored]
  have hexpires : some (due token.1 - 0) = some row.expires_at := hdate
  rw [← Option.some.inj hexpires, Int.sub_zero]

/-- The token is on the denylist until it expires. -/
def Data.Keeps (due : String → Int) (d : Data) (token : String) : Prop :=
  (∃ row ∈ d.rows.1, row.token_id = token ∧ row.expires_at = due token) ∨ due token ≤ d.now

theorem Data.Keeps.denies {d : Data} {token : String} (h : d.Keeps due token) : d.Denies due token :=
  h.imp (fun ⟨row, hrow, htoken, _⟩ => ⟨row, hrow, htoken⟩) id

/-- What a message does to the data. -/
theorem handle_cases {d d' : Data} {payload : Json} {fails : Bool}
    (h : handle L d payload fails = some d') :
    d'.now = d.now ∧ (d'.rows = d.rows ∨ (∃ row, d'.rows.1 = d.rows.1 ++ [row]) ∨
      ∃ row, Says L payload row ∧ d'.rows.1 = upsert row d.rows.1) := by
  unfold handle at h
  split at h
  · cases h
  · obtain ⟨rows, hrows, rfl⟩ := Option.map_eq_some_iff.mp h
    exact ⟨rfl, apply_cases hrows⟩

/-- A message takes no token off the denylist. -/
theorem Data.Keeps.handle {d d' : Data} {payload : Json} {fails : Bool} {token : String}
    (hd : d.Keeps due token) (hpayload : Timed L due payload)
    (h : Consume.handle L d payload fails = some d') : d'.Keeps due token := by
  obtain ⟨hnow, hcases⟩ := handle_cases h
  rcases hd with ⟨x, hx, hid, hdate⟩ | hexpired
  · refine .inl ?_
    rcases hcases with hsame | ⟨row, hrows⟩ | ⟨row, hstated, hrows⟩
    · exact ⟨x, hsame ▸ hx, hid, hdate⟩
    · exact ⟨x, hrows ▸ List.mem_append_left _ hx, hid, hdate⟩
    · rw [hrows]
      rcases mem_upsert_of_mem row hx with hkey | hx
      · -- the row in its place has the same date
        refine ⟨row, mem_upsert_self row _, hkey.symm.trans hid, ?_⟩
        rw [hpayload row hstated, ← hkey, hid]
      · exact ⟨x, hx, hid, hdate⟩
  · exact .inr (hnow ▸ hexpired)

/-- A message puts the token it revokes on it. -/
theorem keeps_handled {d d' : Data} {payload : Json} {fails : Bool} {row : RevokedToken}
    (hpayload : Timed L due payload) (hstated : Says L payload row)
    (h : handle L d payload fails = some d') : d'.Keeps due row.token_id := by
  unfold handle at h
  split at h
  · cases h
  · obtain ⟨rows, hrows, rfl⟩ := Option.map_eq_some_iff.mp h
    refine .inl ⟨row, ?_, rfl, hpayload row hstated⟩
    dsimp only
    rw [apply_upserts hstated hrows]
    exact mem_upsert_self row _

/-- What is done in between takes off it what has expired. -/
theorem Data.Keeps.tend {d : Data} {token : String} (hd : d.Keeps due token) (y : Tend) :
    (Consume.tend d y).Keeps due token := by
  cases y with
  | tick elapsed =>
    refine hd.imp id fun hexpired => ?_
    show due token ≤ d.now + elapsed
    omega
  | purge =>
    rcases hd with ⟨row, hrow, hid, hdate⟩ | hexpired
    · by_cases hexpired : row.expires_at ≤ d.now
      · exact .inr (hdate ▸ hexpired)
      · exact .inl ⟨row, List.mem_filter.mpr ⟨hrow, decide_eq_true hexpired⟩, hid, hdate⟩
    · exact .inr hexpired

variable (L)

/-- **What the posts consumer has acknowledged is denied until the token expires**, in every run with
    any number of crashes, restarts, rebalances and failing statements. -/
theorem acknowledged_denied (due : String → Int) (now : Int) (acts : List (Action Nat Json Bool Tend))
    (htimed : Along (step (handle L) tend) (fun _ a => ∀ p payload, a = .produce p payload →
      Timed L due payload) (init (empty now)) acts) :
    Throughout (step (handle L) tend) (fun s => ∀ p i payload row, i < s.committed p →
      (s.log p)[i]? = some payload → Says L payload row → s.data.Denies due row.token_id)
      (init (empty now)) acts := by
  have hholds := throughout_holds (handle L) tend
    (fun d payload => ∀ row, Says L payload row → d.Keeps due row.token_id) (Timed L due)
    (fun d payload fails d' hpayload h row hstated => keeps_handled hpayload hstated h)
    (fun d payload fails d' payload' hpayload h hkeeps row hstated =>
      (hkeeps row hstated).handle hpayload h)
    (fun d y payload hkeeps row hstated => (hkeeps row hstated).tend y) htimed
  refine ((throughout_committed (handle L) tend (empty now) acts).and hholds).mono ?_
  rintro s ⟨hcommitted, hkeeps⟩ p i payload row hi hpayload hstated
  exact (hkeeps p i payload (hcommitted p i hi) hpayload row hstated).denies

/-- **A revocation that cannot be written is the last of its partition**: it is never committed, and
    nothing behind it is ever applied. -/
theorem unwritable_blocks (now : Int) (acts : List (Action Nat Json Bool Tend)) :
    Throughout (step (handle L) tend) (fun s => ∀ p i payload, (s.log p)[i]? = some payload →
      Unwritable L payload → s.committed p ≤ i ∧ ∀ j, (p, j) ∈ s.handled → j < i)
      (init (empty now)) acts := by
  refine (throughout_blocked (handle L) tend (empty now) acts).mono ?_
  intro s hblocked p i payload hpayload hunwritable
  refine hblocked p i payload hpayload fun d fails => ?_
  unfold handle
  split
  · rfl
  · rw [hunwritable.apply_eq_none]
    rfl

/-- A revocation is applied, applied again after a crash, and purged once its token has expired. -/
def crashedRun : List (Action Nat Json Bool Tend) :=
  [.produce 0 (Auth.revocationPayload tokenID.1 tokenID (900 * Go.second)), .start [0], .next 0 false,
    .crash, .start [0], .next 0 true, .start [0], .next 0 false, .commit, .tend (.tick 1000000000),
    .tend .purge]

theorem acknowledged_denied_crashed : Throughout (step (handle plainLibs) tend)
    (fun s => ∀ p i payload row, i < s.committed p → (s.log p)[i]? = some payload →
      Says plainLibs payload row → s.data.Denies (fun _ => 900 * Go.second) row.token_id)
    (init (empty 0)) crashedRun := by
  refine acknowledged_denied plainLibs (fun _ => 900 * Go.second) 0 crashedRun
    (along_of_forall fun a ha s p payload hproduce => ?_)
  have hwritable : Rfc3339.Writable (900 * Go.second) := (plainDue "").2
  subst hproduce
  simp only [crashedRun, List.mem_cons, List.not_mem_nil, reduceCtorEq, or_false, or_self,
    Action.produce.injEq] at ha
  rw [ha.2]
  exact timed_revocation tokenID tokenID hwritable

end DjangoFlaskKafka.Posts.Consume
