/-
  Migrate — whether every migration is applied once, and in order.

  1. **Program** — `Migrate` of `internal/store/store.go` by any number of instances, statement by
     statement.  Whether a file is recorded is asked outside the transaction that applies and
     records it.  The index of `schema_migrations` knows the insertions of open transactions as
     well (`uncommitted`): another insertion of the same name waits for them, and fails once they
     are committed.

  2. **Law** — `AppliedOnce`: no body has been committed twice, those that have been are the
     recorded ones, these are the first of the sorted names, and once a call has returned `nil` they
     are all of them.  A transaction commits what it has executed, whatever that is; that it is one
     body and its name is part of what is proved (`Stage.Executed`).

  3. **The crux** — two instances can both find a file missing and apply its body, but only one of
     them can have its name in the index, and it is still missing then (`Sound.inserted`).  An
     instance has come past a file only when it is recorded (`Behind`), so the one that commits
     commits the first file that is missing.
-/
import DjangoFlaskKafka.Lib.Machine
import Mathlib.Data.Finset.Sort
import Mathlib.Data.String.Basic

namespace DjangoFlaskKafka.Auth.Migrate

open Machine

/-! ## The program -/

/-- What an open transaction has executed: the bodies, and the rows it has inserted. -/
structure Transaction where
  bodies : List String
  versions : List String
  deriving DecidableEq, Repr

/-- Where a call is: the statement it comes to next, the name of the file it is at, those of the files
    after it, and the transaction. -/
inductive Stage where
  | create
  | check (name : String) (rest : List String)
  | begin (name : String) (rest : List String)
  | body (name : String) (rest : List String) (tx : Transaction)
  | record (name : String) (rest : List String) (tx : Transaction)
  | commit (name : String) (rest : List String) (tx : Transaction)
  deriving DecidableEq, Repr

/-- What is not committed yet of a call. -/
def Stage.transaction : Stage → Transaction
  | .create | .check _ _ | .begin _ _ => ⟨[], []⟩
  | .body _ _ tx | .record _ _ tx | .commit _ _ tx => tx

/-- The database and the calls. -/
structure State (ι : Type) where
  /-- the committed rows of `schema_migrations`, once it exists -/
  schema_migrations : Option (List String)
  /-- the names open transactions have inserted, with the instance -/
  uncommitted : String → Option ι
  /-- the files whose bodies have been committed -/
  bodies : List String
  calls : ι → Option Stage
  /-- the calls that have returned, and whether `nil` -/
  returned : List (ι × Bool)

/-- `proceed` is the next statement of a call, `fail` the same when it returns an error, and a
    `crash` is the end of the process. -/
inductive Action (ι : Type) where
  | call (i : ι)
  | proceed (i : ι)
  | fail (i : ι)
  | crash (i : ι)

variable {ι : Type}

/-- Nothing has happened yet. -/
def init : State ι where
  schema_migrations := none
  uncommitted _ := none
  bodies := []
  calls _ := none
  returned := []

/-- `sort.Strings(names)`. -/
def sorted (files : Finset String) : List String := files.sort

/-- The names that are recorded. -/
def State.recorded (s : State ι) : List String := s.schema_migrations.getD []

section Machine

variable [DecidableEq ι]

/-- The index once the transaction is over. -/
def State.release (s : State ι) (tx : Transaction) (name : String) : Option ι :=
  if name ∈ tx.versions then none else s.uncommitted name

/-- The call is over, and its transaction is rolled back. -/
def State.leave (s : State ι) (i : ι) (stage : Stage) : State ι :=
  { s with
    uncommitted := s.release stage.transaction
    calls := Function.update s.calls i none }

/-- The statement has returned an error. -/
def State.failed (s : State ι) (i : ι) (stage : Stage) : State ι :=
  { s.leave i stage with returned := (i, false) :: s.returned }

def State.goto (s : State ι) (i : ι) (stage : Stage) : State ι :=
  { s with calls := Function.update s.calls i (some stage) }

/-- The loop goes on with the next file, or is over. -/
def State.next (s : State ι) (i : ι) : List String → State ι
  | [] => { s with calls := Function.update s.calls i none, returned := (i, true) :: s.returned }
  | name :: rest => s.goto i (.check name rest)

/-- A statement. -/
def proceed (files : Finset String) (s : State ι) (i : ι) (stage : Stage) : Option (State ι) :=
  match stage with
  | .create =>
    some (State.next { s with schema_migrations := some s.recorded } i (sorted files))
  | .check name rest =>
    match s.schema_migrations with
    | none => some (s.failed i stage)
    | some rows => some (if name ∈ rows then s.next i rest else s.goto i (.begin name rest))
  | .begin name rest => some (s.goto i (.body name rest ⟨[], []⟩))
  | .body name rest tx => some (s.goto i (.record name rest { tx with bodies := tx.bodies ++ [name] }))
  | .record name rest tx =>
    match s.schema_migrations, s.uncommitted name with
    | none, _ => some (s.failed i stage)
    | some rows, none =>
      if name ∈ rows then some (s.failed i stage)
      else some ({ s with uncommitted := Function.update s.uncommitted name (some i) }.goto i
        (.commit name rest { tx with versions := tx.versions ++ [name] }))
    -- it waits for the other transaction
    | some _, some _ => none
  | .commit _ rest tx =>
    some (State.next { s with
      schema_migrations := some (s.recorded ++ tx.versions)
      uncommitted := s.release tx
      bodies := s.bodies ++ tx.bodies } i rest)

/-- One step. -/
def step (files : Finset String) (s : State ι) : Action ι → Option (State ι)
  | .call i =>
    match s.calls i with
    | some _ => none
    | none => some (s.goto i .create)
  | .proceed i => (s.calls i).bind (proceed files s i)
  | .fail i => (s.calls i).map (s.failed i)
  | .crash i => (s.calls i).map (s.leave i)

end Machine

/-! ## The law -/

/-- Every file is applied once, and in order. -/
structure AppliedOnce (files : Finset String) (s : State ι) : Prop where
  once : s.bodies.Nodup
  recorded : ∀ name, name ∈ s.bodies ↔ name ∈ s.recorded
  inOrder : s.recorded <+: sorted files
  complete : ∀ i, (i, true) ∈ s.returned → ∀ name ∈ files, name ∈ s.bodies

/-- The files a call has not come past. -/
def Stage.todo (files : Finset String) : Stage → List String
  | .create => sorted files
  | .check name rest | .begin name rest | .body name rest _ | .record name rest _
  | .commit name rest _ => name :: rest

/-- What the transaction has executed by now. -/
def Stage.Executed : Stage → Prop
  | .create | .check _ _ | .begin _ _ => True
  | .body _ _ tx => tx = ⟨[], []⟩
  | .record name _ tx => tx = ⟨[name], []⟩
  | .commit name _ tx => tx = ⟨[name], [name]⟩

/-- What a call has come past is recorded. -/
def Behind (files : Finset String) (s : State ι) (stage : Stage) : Prop :=
  ∃ done, sorted files = done ++ stage.todo files ∧ done <+: s.recorded

/-- What carries the law. -/
structure Sound (files : Finset String) (s : State ι) : Prop where
  bodies : s.bodies = s.recorded
  inOrder : s.recorded <+: sorted files
  behind : ∀ i, ∀ stage ∈ s.calls i, Behind files s stage
  executed : ∀ i, ∀ stage ∈ s.calls i, stage.Executed
  /-- one call at a time has a name in the index, and has it before it is recorded -/
  inserted : ∀ i, ∀ stage ∈ s.calls i, ∀ name ∈ stage.transaction.versions,
    s.uncommitted name = some i ∧ name ∉ s.recorded
  complete : ∀ i, (i, true) ∈ s.returned → s.recorded = sorted files

variable {files : Finset String}

theorem Sound.appliedOnce {s : State ι} (hs : Sound files s) : AppliedOnce files s where
  once := by
    rw [hs.bodies]
    exact (files.sort_nodup (· ≤ ·)).sublist hs.inOrder.sublist
  recorded name := by rw [hs.bodies]
  inOrder := hs.inOrder
  complete i hi name hname := by
    rw [hs.bodies, hs.complete i hi]
    exact (files.mem_sort (· ≤ ·)).mpr hname

theorem sound_init : Sound files (init (ι := ι)) where
  bodies := rfl
  inOrder := List.nil_prefix
  behind i stage h := by cases h
  executed i stage h := by cases h
  inserted i stage h := by cases h
  complete i h := by cases h

/-! ## What a step keeps -/

/-- Past the files before it, either the next one is what is missing, or it is recorded as well. -/
theorem next_or_past {recorded names done rest : List String} {name : String}
    (hnames : names = done ++ name :: rest) (hrecorded : recorded <+: names)
    (hdone : done <+: recorded) : recorded = done ∨ done ++ [name] <+: recorded := by
  obtain ⟨more, rfl⟩ := hdone
  rw [hnames, List.prefix_append_right_inj] at hrecorded
  cases more with
  | nil => exact .inl (List.append_nil done)
  | cons x more =>
    obtain ⟨rfl, -⟩ := List.cons_prefix_cons.mp hrecorded
    exact .inr ⟨more, by simp⟩

section Steps

variable [DecidableEq ι] {s : State ι} {i : ι}

/-- A step that records nothing. -/
theorem Sound.quiet (hs : Sound files s) {s' : State ι} {call : Option Stage}
    (hrecorded : s'.recorded = s.recorded) (hbodies : s'.bodies = s.bodies)
    (hcalls : s'.calls = Function.update s.calls i call)
    (hbehind : ∀ stage ∈ call, Behind files s stage) (hexecuted : ∀ stage ∈ call, stage.Executed)
    (hinserted : ∀ stage ∈ call, ∀ name ∈ stage.transaction.versions,
      s'.uncommitted name = some i ∧ name ∉ s.recorded)
    (hothers : ∀ j, j ≠ i → ∀ name, s.uncommitted name = some j → s'.uncommitted name = some j)
    (hcomplete : ∀ j, (j, true) ∈ s'.returned → s.recorded = sorted files) : Sound files s' where
  bodies := by rw [hbodies, hrecorded, hs.bodies]
  inOrder := by
    rw [hrecorded]
    exact hs.inOrder
  behind j stage hstage := by
    rw [hcalls] at hstage
    have hkept : Behind files s stage := by
      rcases mem_update hstage with ⟨-, hstage⟩ | ⟨-, hstage⟩
      · exact hbehind stage hstage
      · exact hs.behind j stage hstage
    obtain ⟨done, hdone, hpast⟩ := hkept
    exact ⟨done, hdone, hrecorded ▸ hpast⟩
  executed j stage hstage := by
    rw [hcalls] at hstage
    rcases mem_update hstage with ⟨-, hstage⟩ | ⟨-, hstage⟩
    · exact hexecuted stage hstage
    · exact hs.executed j stage hstage
  inserted j stage hstage name hname := by
    rw [hcalls] at hstage
    rw [hrecorded]
    rcases mem_update hstage with ⟨rfl, hcall⟩ | ⟨hne, hcall⟩
    · exact hinserted stage hcall name hname
    · obtain ⟨htheirs, hmissing⟩ := hs.inserted j stage hcall name hname
      exact ⟨hothers j hne name htheirs, hmissing⟩
  complete j hj := by
    rw [hrecorded]
    exact hcomplete j hj

/-- A call moves on to another stage, without a name of its own in the index. -/
theorem Sound.goto (hs : Sound files s) {stage : Stage} (hbehind : Behind files s stage)
    (hexecuted : stage.Executed) (hnone : stage.transaction.versions = []) :
    Sound files (s.goto i stage) := by
  refine hs.quiet rfl rfl rfl ?_ ?_ ?_ (fun _ _ _ h => h) hs.complete
  · intro stage' hstage'
    obtain rfl := Option.some.inj hstage'
    exact hbehind
  · intro stage' hstage'
    obtain rfl := Option.some.inj hstage'
    exact hexecuted
  · intro stage' hstage' name hname
    obtain rfl := Option.some.inj hstage'
    rw [hnone] at hname
    cases hname

/-- The loop goes on. -/
theorem Sound.next (hs : Sound files s) {done rest : List String}
    (hdone : sorted files = done ++ rest) (hpast : done <+: s.recorded) :
    Sound files (s.next i rest) := by
  cases rest with
  | nil =>
    -- it has come past every file
    rw [List.append_nil] at hdone
    have hall : s.recorded = sorted files :=
      hs.inOrder.eq_of_length_le (by rw [hdone]; exact hpast.length_le)
    exact hs.quiet rfl rfl rfl (by simp) (by simp) (by simp) (fun _ _ _ h => h) fun _ _ => hall
  | cons name rest => exact hs.goto ⟨done, hdone, hpast⟩ trivial rfl

omit [DecidableEq ι] in
/-- The names of the other calls stay in the index when a transaction is over. -/
theorem Sound.release (hs : Sound files s) {stage : Stage} (hstage : s.calls i = some stage) {j : ι}
    (hne : j ≠ i) {name : String} (hname : s.uncommitted name = some j) :
    s.release stage.transaction name = some j := by
  have hother : name ∉ stage.transaction.versions := by
    intro hmem
    obtain ⟨hmine, -⟩ := hs.inserted i stage hstage name hmem
    exact hne (Option.some.inj (hname.symm.trans hmine))
  unfold State.release
  rw [if_neg hother]
  exact hname

theorem Sound.leave (hs : Sound files s) {stage : Stage} (hstage : s.calls i = some stage) :
    Sound files (s.leave i stage) :=
  hs.quiet rfl rfl rfl (by simp) (by simp) (by simp) (fun _ hne _ hname => hs.release hstage hne hname)
    hs.complete

theorem Sound.failed (hs : Sound files s) {stage : Stage} (hstage : s.calls i = some stage) :
    Sound files (s.failed i stage) := by
  have hleft := hs.leave hstage
  refine ⟨hleft.bodies, hleft.inOrder, hleft.behind, hleft.executed, hleft.inserted, fun j hj => ?_⟩
  rcases List.mem_cons.mp hj with heq | hj
  · cases heq
  · exact hs.complete j hj

/-- A name is inserted that no row and no other transaction has. -/
theorem Sound.insert (hs : Sound files s) {name : String} {rest : List String}
    (hbehind : Behind files s (.record name rest ⟨[name], []⟩)) (hmissing : name ∉ s.recorded)
    (hfree : s.uncommitted name = none) :
    Sound files ({ s with uncommitted := Function.update s.uncommitted name (some i) }.goto i
      (.commit name rest ⟨[name], [name]⟩)) := by
  refine hs.quiet rfl rfl rfl ?_ ?_ ?_ ?_ hs.complete
  · intro stage hstage
    obtain rfl := Option.some.inj hstage
    exact hbehind
  · intro stage hstage
    obtain rfl := Option.some.inj hstage
    rfl
  · intro stage hstage name' hname'
    obtain rfl := Option.some.inj hstage
    obtain rfl := List.mem_singleton.mp hname'
    exact ⟨Function.update_self .., hmissing⟩
  · intro j hne name' hname'
    have hother : name' ≠ name := by
      rintro rfl
      rw [hfree] at hname'
      cases hname'
    show Function.update s.uncommitted name (some i) name' = some j
    rw [Function.update_of_ne hother]
    exact hname'

/-- **A commit records the first file that is missing**, and nobody else is about to. -/
theorem Sound.commit (hs : Sound files s) {name : String} {rest : List String}
    (hstage : s.calls i = some (.commit name rest ⟨[name], [name]⟩)) :
    Sound files (State.next { s with
      schema_migrations := some (s.recorded ++ [name])
      uncommitted := s.release ⟨[name], [name]⟩
      bodies := s.bodies ++ [name] } i rest) := by
  obtain ⟨hmine, hmissing⟩ := hs.inserted i _ hstage name (List.mem_singleton_self name)
  obtain ⟨done, hdone, hpast⟩ := hs.behind i _ hstage
  have hfirst : s.recorded = done := by
    refine (next_or_past hdone hs.inOrder hpast).resolve_right fun hmore => ?_
    exact hmissing (hmore.subset (by simp))
  -- the state between the commit and what the call does next
  have hcommitted : Sound files { s with
      schema_migrations := some (s.recorded ++ [name])
      uncommitted := s.release ⟨[name], [name]⟩
      bodies := s.bodies ++ [name]
      calls := Function.update s.calls i none } := by
    refine ⟨?_, ?_, ?_, ?_, ?_, ?_⟩
    · show s.bodies ++ [name] = s.recorded ++ [name]
      rw [hs.bodies]
    · refine ⟨rest, ?_⟩
      show s.recorded ++ [name] ++ rest = sorted files
      rw [hfirst, hdone]
      simp [Stage.todo]
    · intro j stage hj
      rcases mem_update hj with ⟨-, hj⟩ | ⟨-, hj⟩
      · cases hj
      · obtain ⟨done', hdone', hpast'⟩ := hs.behind j stage hj
        exact ⟨done', hdone', hpast'.trans (List.prefix_append _ _)⟩
    · intro j stage hj
      rcases mem_update hj with ⟨-, hj⟩ | ⟨-, hj⟩
      · cases hj
      · exact hs.executed j stage hj
    · intro j stage hj name' hname'
      rcases mem_update hj with ⟨-, hj⟩ | ⟨hne, hj⟩
      · cases hj
      · obtain ⟨htheirs, hmissing'⟩ := hs.inserted j stage hj name' hname'
        have hother : name' ≠ name := by
          rintro rfl
          exact hne (Option.some.inj (htheirs.symm.trans hmine))
        refine ⟨hs.release hstage hne htheirs, ?_⟩
        show name' ∉ s.recorded ++ [name]
        simp [hmissing', hother]
    · intro j hj
      -- no call has returned nil before
      have hall := hs.complete j hj
      rw [hfirst, hdone] at hall
      simp [Stage.todo] at hall
  have hsorted : sorted files = (done ++ [name]) ++ rest := by
    rw [hdone]
    simp [Stage.todo]
  have hnext := @Sound.next ι files _ _ i hcommitted _ _ hsorted (by rw [← hfirst]; exact List.prefix_rfl)
  cases rest <;> simpa [State.next, State.goto] using hnext

/-- Every statement keeps what carries the law. -/
theorem sound_proceed (hs : Sound files s) {stage : Stage} {s' : State ι}
    (hstage : s.calls i = some stage) (h : proceed files s i stage = some s') : Sound files s' := by
  have hbehind := hs.behind i stage hstage
  have hexecuted := hs.executed i stage hstage
  cases stage with
  | create =>
    obtain rfl := Option.some.inj h
    have hcreated : Sound files { s with schema_migrations := some s.recorded } :=
      ⟨hs.bodies, hs.inOrder, hs.behind, hs.executed, hs.inserted, hs.complete⟩
    exact hcreated.next (List.nil_append _).symm List.nil_prefix
  | check name rest =>
    obtain ⟨done, hdone, hpast⟩ := hbehind
    dsimp only [proceed] at h
    split at h
    · obtain rfl := Option.some.inj h
      exact hs.failed hstage
    next rows hrows =>
      obtain rfl := Option.some.inj h
      have hrecorded : s.recorded = rows := by
        unfold State.recorded
        rw [hrows, Option.getD_some]
      by_cases hmem : name ∈ rows
      · rw [if_pos hmem]
        have hsorted : sorted files = (done ++ [name]) ++ rest := by
          rw [hdone]
          simp [Stage.todo]
        refine hs.next hsorted ?_
        refine (next_or_past hdone hs.inOrder hpast).resolve_left fun hfirst => ?_
        -- names are not repeated
        have hnodup : (done ++ name :: rest).Nodup := hdone ▸ files.sort_nodup (· ≤ ·)
        rw [← hrecorded, hfirst] at hmem
        exact (List.nodup_append.mp hnodup).2.2 name hmem name (by simp) rfl
      · rw [if_neg hmem]
        exact hs.goto ⟨done, hdone, hpast⟩ trivial rfl
  | begin name rest =>
    obtain rfl := Option.some.inj h
    exact hs.goto hbehind rfl rfl
  | body name rest tx =>
    obtain rfl := Option.some.inj h
    obtain rfl : tx = ⟨[], []⟩ := hexecuted
    exact hs.goto hbehind rfl rfl
  | record name rest tx =>
    obtain rfl : tx = ⟨[name], []⟩ := hexecuted
    dsimp only [proceed] at h
    split at h
    · obtain rfl := Option.some.inj h
      exact hs.failed hstage
    next rows hrows hfree =>
      split at h
      · obtain rfl := Option.some.inj h
        exact hs.failed hstage
      next hmissing =>
        obtain rfl := Option.some.inj h
        refine hs.insert hbehind ?_ hfree
        unfold State.recorded
        rw [hrows, Option.getD_some]
        exact hmissing
    · cases h
  | commit name rest tx =>
    obtain rfl := Option.some.inj h
    obtain rfl : tx = ⟨[name], [name]⟩ := hexecuted
    exact hs.commit hstage

theorem sound_step (s : State ι) (a : Action ι) (s' : State ι) (hs : Sound files s)
    (h : step files s a = some s') : Sound files s' := by
  cases a with
  | call i =>
    dsimp only [step] at h
    split at h
    · cases h
    · obtain rfl := Option.some.inj h
      exact hs.goto ⟨[], rfl, List.nil_prefix⟩ trivial rfl
  | proceed i =>
    obtain ⟨stage, hstage, h⟩ := Option.bind_eq_some_iff.mp h
    exact sound_proceed hs hstage h
  | fail i =>
    obtain ⟨stage, hstage, rfl⟩ := Option.map_eq_some_iff.mp h
    exact hs.failed hstage
  | crash i =>
    obtain ⟨stage, hstage, rfl⟩ := Option.map_eq_some_iff.mp h
    exact hs.leave hstage

end Steps

/-- **Every migration is applied exactly once, and in order**, however the calls run into one
    another and wherever they fail. -/
theorem migrations_appliedOnce [DecidableEq ι] (files : Finset String) (acts : List (Action ι)) :
    Throughout (step files) (AppliedOnce files) init acts :=
  (throughout_of_inv sound_step sound_init acts).mono fun _ hs => hs.appliedOnce

/-- Two instances find the same file missing: the second one fails where it records it. -/
example : (run (step {"0001_init.sql"}) init
    [.call true, .call false, .proceed true, .proceed false, .proceed true, .proceed false,
      .proceed true, .proceed false, .proceed true, .proceed false, .proceed true, .proceed true,
      .proceed false]).map (fun s => (s.bodies, s.returned))
    = some (["0001_init.sql"], [(false, false), (true, true)]) := by decide +kernel

end DjangoFlaskKafka.Auth.Migrate
