/-
  Optimistic clients — transactions that read now and commit later, with no lock between.

  A client takes its calls one after another.  A call READS the database: it may end there, without
  effect, or work something out; later it COMMITS what it has worked out, on the database as it is
  by then, and in one piece.  Nothing in this makes concurrent calls serial.  What does:

    if every commit finds the database AS GOOD AS the one its call has read — so that reading again
    would have worked out the same effect — then at every moment the database is the one the
    finished calls, run one after another in the order they finished, would have made.

  `step` is the system, `serial` the calls one after another, `serial_of_current` the law, and
  `current_of_clear` the way to it by what calls have to do with each other.
-/
import DjangoFlaskKafka.Lib.Machine
import Mathlib.Data.Fintype.Defs

namespace DjangoFlaskKafka.Optimistic

open Machine

universe u v w x

/-! ## The system -/

/-- What calls of type `C` do to databases of type `D`, through work of type `W`. -/
structure Calls (D : Type u) (C : Type v) (W : Type w) where
  /-- `none`: the call ends here, without effect -/
  read : D → C → Option W
  /-- `none`: the commit fails -/
  write : D → C → W → Option D

/-- A call that has read and not committed yet. -/
structure Pending (D : Type u) (C : Type v) (W : Type w) where
  call : C
  seen : D
  work : W

/-- The database, the calls ahead of each client, the call each client is in, and the calls that
    have finished, oldest first. -/
structure State (ι : Type x) (D : Type u) (C : Type v) (W : Type w) where
  db : D
  todo : ι → List C
  pending : ι → Option (Pending D C W)
  done : List C

/-- A client reads, or commits. -/
inductive Action (ι : Type x) where
  | read (i : ι)
  | commit (i : ι)

variable {ι : Type x} {D : Type u} {C : Type v} {W : Type w} (T : Calls D C W)

/-- Every client at rest, ahead of its calls. -/
def start (db : D) (todo : ι → List C) : State ι D C W := ⟨db, todo, fun _ => none, []⟩

/-- One step.  Runs are those in which every commit lands. -/
def step [DecidableEq ι] (s : State ι D C W) : Action ι → Option (State ι D C W)
  | .read i =>
    match s.pending i, s.todo i with
    | none, call :: rest =>
      let todo := Function.update s.todo i rest
      match T.read s.db call with
      | none => some { s with todo := todo, done := s.done ++ [call] }
      | some work =>
        some { s with todo := todo,
                      pending := Function.update s.pending i (some ⟨call, s.db, work⟩) }
    | _, _ => none
  | .commit i =>
    (s.pending i).bind fun p => (T.write s.db p.call p.work).map fun db =>
      { s with db := db, pending := Function.update s.pending i none, done := s.done ++ [p.call] }

/-- A whole call at once; one whose commit fails has no effect. -/
def exec (db : D) (call : C) : D :=
  (T.read db call).elim db fun work => (T.write db call work).getD db

/-- Whole calls, one after another. -/
def serial (db : D) (calls : List C) : D := calls.foldl (exec T) db

theorem serial_concat (db : D) (calls : List C) (call : C) :
    serial T db (calls ++ [call]) = exec T (serial T db calls) call :=
  List.foldl_concat (exec T) db call calls

/-! ## When it is serial -/

/-- The database is what the finished calls make of `db₀` one after another. -/
def InOrder (db₀ : D) (s : State ι D C W) : Prop := s.db = serial T db₀ s.done

/-- The work of every pending call is what it has read. -/
def Honest (s : State ι D C W) : Prop :=
  ∀ i p, s.pending i = some p → T.read p.seen p.call = some p.work

/-- Every commit finds the database as good as the one its call has read. -/
def Current (Same : C → D → D → Prop) (s : State ι D C W) : Action ι → Prop
  | .read _ => True
  | .commit i => ∀ p ∈ s.pending i, Same p.call p.seen s.db

instance (Same : C → D → D → Prop) [∀ call d d', Decidable (Same call d d')] (s : State ι D C W) :
    ∀ a, Decidable (Current Same s a)
  | .read _ => .isTrue trivial
  | .commit i => inferInstanceAs (Decidable (∀ p ∈ s.pending i, Same p.call p.seen s.db))

variable {T}

theorem exec_of_read_none {db : D} {call : C} (h : T.read db call = none) :
    exec T db call = db := by
  unfold exec
  rw [h]
  rfl

section Steps

variable [DecidableEq ι]

/-- What a read does: it needs a client at rest, and either ends the call or leaves it pending. -/
theorem step_read {s s' : State ι D C W} {i : ι} (h : step T s (.read i) = some s') :
    ∃ call, s'.db = s.db ∧
      (T.read s.db call = none ∧ s'.pending = s.pending ∧ s'.done = s.done ++ [call] ∨
        ∃ work, T.read s.db call = some work ∧ s'.done = s.done ∧
          s'.pending = Function.update s.pending i (some ⟨call, s.db, work⟩)) := by
  dsimp only [step] at h
  split at h
  · rename_i call rest _ _
    refine ⟨call, ?_⟩
    cases hread : T.read s.db call with
    | none =>
      rw [hread] at h
      obtain rfl := Option.some.inj h
      exact ⟨rfl, .inl ⟨rfl, rfl, rfl⟩⟩
    | some work =>
      rw [hread] at h
      obtain rfl := Option.some.inj h
      exact ⟨rfl, .inr ⟨work, rfl, rfl, rfl⟩⟩
  · cases h

/-- What a commit does. -/
theorem step_commit {s s' : State ι D C W} {i : ι} (h : step T s (.commit i) = some s') :
    ∃ p, s.pending i = some p ∧ T.write s.db p.call p.work = some s'.db ∧
      s'.pending = Function.update s.pending i none ∧ s'.done = s.done ++ [p.call] := by
  obtain ⟨p, hp, h⟩ := Option.bind_eq_some_iff.mp h
  obtain ⟨db, hdb, rfl⟩ := Option.map_eq_some_iff.mp h
  exact ⟨p, hp, hdb, rfl, rfl⟩

theorem honest_step (s : State ι D C W) (a : Action ι) (s' : State ι D C W) (hs : Honest T s)
    (h : step T s a = some s') : Honest T s' := by
  intro j p hp
  cases a with
  | read i =>
    obtain ⟨call, -, ⟨-, hpending, -⟩ | ⟨work, hread, -, hpending⟩⟩ := step_read h
    · exact hs j p (hpending ▸ hp)
    · rw [hpending] at hp
      by_cases hj : j = i
      · rw [hj, Function.update_self] at hp
        obtain rfl := Option.some.inj hp
        exact hread
      · rw [Function.update_of_ne hj] at hp
        exact hs j p hp
  | commit i =>
    obtain ⟨-, -, -, hpending, -⟩ := step_commit h
    rw [hpending] at hp
    by_cases hj : j = i
    · rw [hj, Function.update_self] at hp
      cases hp
    · rw [Function.update_of_ne hj] at hp
      exact hs j p hp

/-- **Current commits are serial.**  `Same` says when two databases are as good as each other for a
    call: what it works out on the one has, committed on the other, the effect of a whole call. -/
theorem serial_of_current {Same : C → D → D → Prop}
    (hsame : ∀ call seen db work db', Same call seen db → T.read seen call = some work →
      T.write db call work = some db' → exec T db call = db')
    (db₀ : D) (todo : ι → List C) {acts : List (Action ι)}
    (h : Along (step T) (Current Same) (start db₀ todo) acts) :
    Throughout (step T) (InOrder T db₀) (start db₀ todo) acts := by
  refine throughout_of_along (fun s a s' hs _ => honest_step s a s' hs) ?_
    (fun _ _ hp => by cases hp) rfl h
  intro s a s' hs hdb hcurrent hstep
  unfold InOrder at hdb ⊢
  cases a with
  | read i =>
    obtain ⟨call, hdb', ⟨hread, -, hdone⟩ | ⟨work, -, hdone, -⟩⟩ := step_read hstep
    · rw [hdone, serial_concat, ← hdb, exec_of_read_none hread, hdb']
    · rw [hdone, ← hdb, hdb']
  | commit i =>
    obtain ⟨p, hp, hwrite, -, hdone⟩ := step_commit hstep
    rw [hdone, serial_concat, ← hdb]
    exact (hsame p.call p.seen s.db p.work s'.db (hcurrent p hp) (hs i p hp) hwrite).symm

/-- A call commits while those apart from it, and no others, are pending. -/
def Clear (Apart : C → C → Prop) (s : State ι D C W) : Action ι → Prop
  | .read _ => True
  | .commit i => ∀ p ∈ s.pending i, ∀ j, j ≠ i → ∀ q ∈ s.pending j, Apart p.call q.call

instance [Fintype ι] (Apart : C → C → Prop) [∀ call call', Decidable (Apart call call')]
    (s : State ι D C W) : ∀ a, Decidable (Clear Apart s a)
  | .read _ => .isTrue trivial
  | .commit i => inferInstanceAs
    (Decidable (∀ p ∈ s.pending i, ∀ j, j ≠ i → ∀ q ∈ s.pending j, Apart p.call q.call))

/-- **Calls that keep apart are current**: if a commit leaves the database as good as it was for the
    calls apart from it, then every commit finds it as good as its call has read it. -/
theorem current_of_clear {Same : C → D → D → Prop} {Apart : C → C → Prop}
    (hrefl : ∀ call db, Same call db db)
    (hframe : ∀ call seen db work db', Same call seen db → T.read seen call = some work →
      T.write db call work = some db' →
      ∀ q seen', Apart call q → Same q seen' db → Same q seen' db')
    (db₀ : D) (todo : ι → List C) {acts : List (Action ι)}
    (h : Along (step T) (Clear Apart) (start db₀ todo) acts) :
    Along (step T) (Current Same) (start db₀ todo) acts := by
  suffices hall : ∀ s : State ι D C W, Honest T s →
      (∀ i p, s.pending i = some p → Same p.call p.seen s.db) →
      Along (step T) (Clear Apart) s acts → Along (step T) (Current Same) s acts from
    hall _ (fun _ _ hp => by cases hp) (fun _ _ hp => by cases hp) h
  clear h
  induction acts with
  | nil => exact fun _ _ _ _ => trivial
  | cons a acts ih =>
    intro s hhonest hgood hclear s' hstep
    obtain ⟨ha, hclear'⟩ := hclear s' hstep
    have hcurrent : Current Same s a := by
      cases a with
      | read i => trivial
      | commit i => exact fun p hp => hgood i p hp
    refine ⟨hcurrent, ih s' (honest_step s a s' hhonest hstep) (fun j q hq => ?_) hclear'⟩
    cases a with
    | read i =>
      obtain ⟨call, hdb, ⟨-, hpending, -⟩ | ⟨work, -, -, hpending⟩⟩ := step_read hstep
      · rw [hdb]
        exact hgood j q (hpending ▸ hq)
      · rw [hdb]
        rcases mem_update (congrFun hpending j ▸ hq : q ∈ _) with ⟨-, hnew⟩ | ⟨-, hold⟩
        · obtain rfl := Option.some.inj hnew
          exact hrefl call s.db
        · exact hgood j q hold
    | commit i =>
      obtain ⟨p, hp, hwrite, hpending, -⟩ := step_commit hstep
      rcases mem_update (congrFun hpending j ▸ hq : q ∈ _) with ⟨-, hnew⟩ | ⟨hj, hold⟩
      · cases hnew
      · exact hframe p.call p.seen s.db p.work s'.db (hgood i p hp) (hhonest i p hp) hwrite q.call
          q.seen (ha p hp j hj q hold) (hgood j q hold)

end Steps

end DjangoFlaskKafka.Optimistic
