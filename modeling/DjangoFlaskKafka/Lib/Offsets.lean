/-
  Offsets — a consumer that commits after every record it has handled, against a broker that keeps
  a log for each partition and the offsets the group has committed.

  A record that cannot be handled ends the process.  A new one, assigned any partitions, goes on
  from the committed offsets, so it meets that record again.  Three rules follow, for every run:

  * what is below a committed offset has been handled (`throughout_committed`);
  * what handling establishes, and nothing that is done to the data undoes, holds of every record
    that has been handled (`throughout_holds`);
  * a record that is never handled is never passed, and nothing behind it in its log is ever
    handled (`throughout_blocked`).
-/
import DjangoFlaskKafka.Lib.Machine

namespace DjangoFlaskKafka.Offsets

open Machine

universe u

variable {κ ρ D δ τ : Type u}

/-! ## The machine -/

/-- Where the process is: about to take a record, about to commit, or not there. -/
inductive Phase where
  | polling
  | committing
  | down
  deriving DecidableEq, Repr

/-- The broker, the data and the process; `handled` lists the records it has got through. -/
structure State (κ ρ D : Type u) where
  log : κ → List ρ
  committed : κ → Nat
  data : D
  phase : Phase
  assigned : List κ
  position : κ → Nat
  handled : List (κ × Nat)

/-- Nothing has been produced, and there is no process. -/
def init (data : D) : State κ ρ D where
  log _ := []
  committed _ := 0
  data := data
  phase := .down
  assigned := []
  position _ := 0
  handled := []

/-- What can happen to the log, to the consumer, and to the data besides. -/
inductive Action (κ ρ δ τ : Type u) where
  | produce (k : κ) (r : ρ)
  | start (assigned : List κ)
  | next (k : κ) (x : δ)
  | commit
  | crash
  | tend (y : τ)

variable [DecidableEq κ] (handle : D → ρ → δ → Option D) (tend : D → τ → D)

/-- The next record of a partition is handled, or ends the process. -/
def next (s : State κ ρ D) (k : κ) (x : δ) : Option (State κ ρ D) :=
  (s.log k)[s.position k]?.map fun r =>
    match handle s.data r x with
    | none => { s with phase := .down }
    | some data =>
      { s with
        data := data
        phase := .committing
        position := Function.update s.position k (s.position k + 1)
        handled := (k, s.position k) :: s.handled }

/-- One step. -/
def step (s : State κ ρ D) : Action κ ρ δ τ → Option (State κ ρ D)
  | .produce k r => some { s with log := Function.update s.log k (s.log k ++ [r]) }
  | .start assigned =>
    if s.phase = .down then
      some { s with phase := .polling, assigned := assigned, position := s.committed }
    else none
  | .next k x => if s.phase = .polling ∧ k ∈ s.assigned then next handle s k x else none
  | .commit =>
    if s.phase = .committing then
      some { s with
        phase := .polling
        committed := fun k => if k ∈ s.assigned then s.position k else s.committed k }
    else none
  | .crash => some { s with phase := .down }
  | .tend y => some { s with data := tend s.data y }

/-! ## What every step keeps -/

/-- What has been committed, or passed by the process there is, has been handled; and it is in the
    log. -/
structure Tracked (s : State κ ρ D) : Prop where
  committed : ∀ k i, i < s.committed k → (k, i) ∈ s.handled
  passed : s.phase ≠ .down → ∀ k ∈ s.assigned, ∀ i < s.position k, (k, i) ∈ s.handled
  inLog : ∀ k i, (k, i) ∈ s.handled → i < (s.log k).length

/-- The record ends every process that takes it. -/
def Refused (r : ρ) : Prop := ∀ d x, handle d r x = none

/-- What has been handled of a log is before its first refused record. -/
def Blocked (s : State κ ρ D) : Prop :=
  ∀ k i r, (s.log k)[i]? = some r → Refused handle r → ∀ j, (k, j) ∈ s.handled → j < i

/-- `Q` holds, of the data there is, of every record that has been handled. -/
def Holds (Q : D → ρ → Prop) (s : State κ ρ D) : Prop :=
  ∀ k i r, (k, i) ∈ s.handled → (s.log k)[i]? = some r → Q s.data r

section Steps

variable {handle tend} {s s' : State κ ρ D}

/-- What handling one record does. -/
theorem next_cases {k : κ} {x : δ} (h : next handle s k x = some s') :
    ∃ r, (s.log k)[s.position k]? = some r ∧
      (handle s.data r x = none ∧ s' = { s with phase := .down } ∨
        ∃ data, handle s.data r x = some data ∧ s' = { s with
          data := data
          phase := .committing
          position := Function.update s.position k (s.position k + 1)
          handled := (k, s.position k) :: s.handled }) := by
  obtain ⟨r, hr, rfl⟩ := Option.map_eq_some_iff.mp h
  refine ⟨r, hr, ?_⟩
  cases hhandle : handle s.data r x with
  | none => exact .inl ⟨rfl, rfl⟩
  | some data => exact .inr ⟨data, rfl, rfl⟩

omit [DecidableEq κ] in
/-- Nothing is read at the start. -/
theorem tracked_init (data : D) : Tracked (init data : State κ ρ D) where
  committed _ _ h := absurd h (Nat.not_lt_zero _)
  passed h := absurd rfl h
  inLog := by simp [init]

/-- **Every step keeps track.** -/
theorem tracked_step (s : State κ ρ D) (a : Action κ ρ δ τ) (s' : State κ ρ D) (hs : Tracked s)
    (h : step handle tend s a = some s') : Tracked s' := by
  cases a with
  | produce k r =>
    obtain rfl := Option.some.inj h
    refine ⟨hs.committed, hs.passed, fun k' i hi => ?_⟩
    have hlt := hs.inLog k' i hi
    show i < (Function.update s.log k (s.log k ++ [r]) k').length
    by_cases hk : k' = k
    · subst hk
      rw [Function.update_self, List.length_append]
      omega
    · rwa [Function.update_of_ne hk]
  | start assigned =>
    obtain ⟨-, h⟩ := Option.ite_none_right_eq_some.mp h
    obtain rfl := Option.some.inj h
    exact ⟨hs.committed, fun _ k _ i hi => hs.committed k i hi, hs.inLog⟩
  | next k x =>
    obtain ⟨⟨hphase, hk⟩, h⟩ := Option.ite_none_right_eq_some.mp h
    have hlive : s.phase ≠ .down := by rw [hphase]; simp
    obtain ⟨r, hr, ⟨-, rfl⟩ | ⟨data, -, rfl⟩⟩ := next_cases h
    · exact ⟨hs.committed, fun hdown => absurd rfl hdown, hs.inLog⟩
    · refine ⟨fun k' i hi => List.mem_cons_of_mem _ (hs.committed k' i hi),
        fun _ k' hk' i hi => ?_, fun k' i hi => ?_⟩
      · by_cases hnew : k' = k ∧ i = s.position k
        · rw [hnew.1, hnew.2]
          exact List.mem_cons_self
        · refine List.mem_cons_of_mem _ (hs.passed hlive k' hk' i ?_)
          by_cases hk : k' = k
          · subst hk
            have hi' : i < Function.update s.position k' (s.position k' + 1) k' := hi
            rw [Function.update_self] at hi'
            have hne : i ≠ s.position k' := fun h => hnew ⟨rfl, h⟩
            omega
          · have hi' : i < Function.update s.position k (s.position k + 1) k' := hi
            rwa [Function.update_of_ne hk] at hi'
      · rcases List.mem_cons.mp hi with heq | hi
        · obtain ⟨rfl, rfl⟩ := Prod.mk.inj heq
          exact (List.getElem?_eq_some_iff.mp hr).1
        · exact hs.inLog k' i hi
  | commit =>
    obtain ⟨hphase, h⟩ := Option.ite_none_right_eq_some.mp h
    have hlive : s.phase ≠ .down := by rw [hphase]; simp
    obtain rfl := Option.some.inj h
    refine ⟨fun k i hi => ?_, fun _ => hs.passed hlive, hs.inLog⟩
    dsimp only at hi
    split at hi
    next hk => exact hs.passed hlive k hk i hi
    · exact hs.committed k i hi
  | crash =>
    obtain rfl := Option.some.inj h
    exact ⟨hs.committed, fun hdown => absurd rfl hdown, hs.inLog⟩
  | tend y =>
    obtain rfl := Option.some.inj h
    exact ⟨hs.committed, hs.passed, hs.inLog⟩

/-- Where a log goes on, what was in it stays. -/
theorem getElem?_produce {log : κ → List ρ} {k k' : κ} {i : Nat} (r : ρ) (hi : i < (log k').length) :
    (Function.update log k (log k ++ [r]) k')[i]? = (log k')[i]? := by
  by_cases hk : k' = k
  · subst hk
    rw [Function.update_self, List.getElem?_append_left hi]
  · rw [Function.update_of_ne hk]

/-- **No step comes past a record that cannot be handled.** -/
theorem blocked_step (s : State κ ρ D) (a : Action κ ρ δ τ) (s' : State κ ρ D) (ht : Tracked s)
    (hs : Blocked handle s) (h : step handle tend s a = some s') : Blocked handle s' := by
  cases a with
  | produce k r =>
    obtain rfl := Option.some.inj h
    intro k' i r' hr' hrefused j hj
    by_cases hi : i < (s.log k').length
    · exact hs k' i r' ((getElem?_produce r hi).symm.trans hr') hrefused j hj
    · have := ht.inLog k' j hj
      omega
  | start assigned =>
    obtain ⟨-, h⟩ := Option.ite_none_right_eq_some.mp h
    exact Option.some.inj h ▸ hs
  | next k x =>
    obtain ⟨⟨hphase, hk⟩, h⟩ := Option.ite_none_right_eq_some.mp h
    obtain ⟨r, hr, ⟨-, rfl⟩ | ⟨data, hdata, rfl⟩⟩ := next_cases h
    · exact hs
    · intro k' i r' hr' hrefused j hj
      rcases List.mem_cons.mp hj with heq | hj
      · obtain ⟨rfl, rfl⟩ := Prod.mk.inj heq
        -- the process has not passed the refused record, and is not at it
        have hle : s.position k' ≤ i := by
          by_contra hgt
          have := hs k' i r' hr' hrefused i (ht.passed (by rw [hphase]; simp) k' hk i (by omega))
          omega
        have hne : s.position k' ≠ i := by
          rintro rfl
          obtain rfl := Option.some.inj (hr.symm.trans hr')
          rw [hrefused] at hdata
          cases hdata
        omega
      · exact hs k' i r' hr' hrefused j hj
  | commit =>
    obtain ⟨-, h⟩ := Option.ite_none_right_eq_some.mp h
    exact Option.some.inj h ▸ hs
  | crash => exact Option.some.inj h ▸ hs
  | tend y => exact Option.some.inj h ▸ hs

/-! ## The rules -/

section Rules

variable (handle tend)

/-- **What is committed has been handled.** -/
theorem throughout_committed (data : D) (acts : List (Action κ ρ δ τ)) : Throughout (step handle tend)
    (fun s : State κ ρ D => ∀ k i, i < s.committed k → (k, i) ∈ s.handled) (init data) acts :=
  (throughout_of_inv tracked_step (tracked_init data) acts).mono fun _ hs => hs.committed

/-- **A refused record is never passed**, nor is what is behind it ever handled. -/
theorem throughout_blocked (data : D) (acts : List (Action κ ρ δ τ)) : Throughout (step handle tend)
    (fun s : State κ ρ D => ∀ k i r, (s.log k)[i]? = some r → Refused handle r →
      s.committed k ≤ i ∧ ∀ j, (k, j) ∈ s.handled → j < i) (init data) acts := by
  have hboth : Throughout (step handle tend) (fun s : State κ ρ D => Tracked s ∧ Blocked handle s)
      (init data) acts :=
    throughout_of_inv (fun s a s' hs h =>
      ⟨tracked_step s a s' hs.1 h, blocked_step s a s' hs.1 hs.2 h⟩)
      ⟨tracked_init data, fun k i r hr => by simp [init] at hr⟩ acts
  refine hboth.mono fun s ⟨ht, hb⟩ k i r hr hrefused => ⟨?_, hb k i r hr hrefused⟩
  by_contra hgt
  have := hb k i r hr hrefused i (ht.committed k i (by omega))
  omega

/-- **What handling establishes, and nothing undoes, holds of all that has been handled**, in runs
    that produce nothing but valid records. -/
theorem throughout_holds (Q : D → ρ → Prop) (Valid : ρ → Prop)
    (hhandle : ∀ d r x d', Valid r → handle d r x = some d' → Q d' r)
    (hkeep : ∀ d r x d' r', Valid r → handle d r x = some d' → Q d r' → Q d' r')
    (htend : ∀ d y r, Q d r → Q (tend d y) r) {data : D} {acts : List (Action κ ρ δ τ)}
    (hvalid : Along (step handle tend) (fun _ a => ∀ k r, a = .produce k r → Valid r)
      (init data) acts) :
    Throughout (step handle tend) (Holds (κ := κ) Q) (init data) acts := by
  have hstep : ∀ (s : State κ ρ D) a s', Tracked s →
      ((∀ k, ∀ r ∈ s.log k, Valid r) ∧ Holds Q s) →
      (∀ k r, a = .produce k r → Valid r) → step handle tend s a = some s' →
      (∀ k, ∀ r ∈ s'.log k, Valid r) ∧ Holds Q s' := by
    rintro s a s' ht ⟨hlog, hQ⟩ hnew h
    cases a with
    | produce k r =>
      obtain rfl := Option.some.inj h
      refine ⟨fun k' r' hr' => ?_, fun k' i r' hi hr' => ?_⟩
      · have hr'' : r' ∈ Function.update s.log k (s.log k ++ [r]) k' := hr'
        by_cases hk : k' = k
        · subst hk
          rw [Function.update_self] at hr''
          rcases List.mem_append.mp hr'' with hr'' | hr''
          · exact hlog k' r' hr''
          · exact List.mem_singleton.mp hr'' ▸ hnew k' r rfl
        · rw [Function.update_of_ne hk] at hr''
          exact hlog k' r' hr''
      · exact hQ k' i r' hi ((getElem?_produce r (ht.inLog k' i hi)).symm.trans hr')
    | start assigned =>
      obtain ⟨-, h⟩ := Option.ite_none_right_eq_some.mp h
      exact Option.some.inj h ▸ ⟨hlog, hQ⟩
    | next k x =>
      obtain ⟨-, h⟩ := Option.ite_none_right_eq_some.mp h
      obtain ⟨r, hr, ⟨-, rfl⟩ | ⟨d', hd', rfl⟩⟩ := next_cases h
      · exact ⟨hlog, hQ⟩
      · have hr' : Valid r := hlog k r (List.mem_of_getElem? hr)
        refine ⟨hlog, fun k' i r' hi hr'' => ?_⟩
        rcases List.mem_cons.mp hi with heq | hi
        · obtain ⟨rfl, rfl⟩ := Prod.mk.inj heq
          obtain rfl := Option.some.inj (hr.symm.trans hr'')
          exact hhandle _ r x d' hr' hd'
        · exact hkeep _ r x d' r' hr' hd' (hQ k' i r' hi hr'')
    | commit =>
      obtain ⟨-, h⟩ := Option.ite_none_right_eq_some.mp h
      exact Option.some.inj h ▸ ⟨hlog, hQ⟩
    | crash => exact Option.some.inj h ▸ ⟨hlog, hQ⟩
    | tend y =>
      obtain rfl := Option.some.inj h
      exact ⟨hlog, fun k i r hi hr => htend _ y r (hQ k i r hi hr)⟩
  refine (throughout_of_along (fun s a s' ht _ h => tracked_step s a s' ht h) hstep
    (tracked_init data) ⟨by simp [init], ?_⟩ hvalid).mono fun s hs => hs.2
  intro k i r hi
  simp [init] at hi

end Rules

end Steps

end DjangoFlaskKafka.Offsets
