/-
  Batches — tasks that workers take in batches, write to a log one by one, and then mark as done.

  A worker takes tasks that are not done (`claim`), writes each of its batch once (`write`), and
  marks the batch when all of it is written (`finish`).  Nothing here keeps two workers from taking
  the same task; `Apart` says that they have not.

  `claims s x` counts how often a task is written, or is still to be written by whoever holds it.
  It never falls (`claims_mono`), so a task taken twice is written twice in the end, and it stays at
  one or below exactly as long as the batches are apart (`Step.single`, `Step.two_le_claims`).
-/
import DjangoFlaskKafka.Lib.Machine
import Mathlib.Algebra.BigOperators.Group.Finset.Basic
import Mathlib.Algebra.Order.BigOperators.Group.Finset
import Mathlib.Data.Set.Basic

namespace DjangoFlaskKafka.Batches

open Machine

universe u v

variable {ι : Type u} {α : Type v}

/-- What a worker has taken, and what of it is still to be written. -/
structure Batch (α : Type v) where
  held : List α
  unwritten : List α

/-- What is done, the log, and the batch of each worker. -/
structure State (ι : Type u) (α : Type v) where
  done : Set α
  log : List α
  batch : ι → Option (Batch α)

variable [DecidableEq ι]

/-- What can happen. -/
inductive Step : State ι α → State ι α → Prop where
  | claim (s : State ι α) (i : ι) (tasks : List α) (hfree : s.batch i = none) (hnodup : tasks.Nodup)
      (hnew : ∀ x ∈ tasks, x ∉ s.done) :
      Step s { s with batch := Function.update s.batch i (some ⟨tasks, tasks⟩) }
  | write (s : State ι α) (i : ι) (b : Batch α) (x : α) (rest : List α) (hb : s.batch i = some b)
      (hrest : b.unwritten.Perm (x :: rest)) :
      Step s { s with
        log := s.log ++ [x]
        batch := Function.update s.batch i (some ⟨b.held, rest⟩) }
  | finish (s : State ι α) (i : ι) (b : Batch α) (hb : s.batch i = some b)
      (hwritten : b.unwritten = []) :
      Step s { s with
        done := s.done ∪ {x | x ∈ b.held}
        batch := Function.update s.batch i none }
  | other (s : State ι α) : Step s s

omit [DecidableEq ι] in
/-- No task is held by two workers. -/
def Apart (s : State ι α) : Prop :=
  ∀ i j, i ≠ j → ∀ b ∈ s.batch i, ∀ c ∈ s.batch j, ∀ x ∈ b.held, x ∉ c.held

/-! ## What every step keeps -/

/-- A held task is still to be written or written, and so is a task that is done. -/
structure Inv (s : State ι α) : Prop where
  inside : ∀ i, ∀ b ∈ s.batch i, ∀ x ∈ b.unwritten, x ∈ b.held
  written : ∀ i, ∀ b ∈ s.batch i, ∀ x ∈ b.held, x ∈ b.unwritten ∨ x ∈ s.log
  done : ∀ x ∈ s.done, x ∈ s.log
  known : ∀ x ∈ s.log, x ∈ s.done ∨ ∃ i, ∃ b ∈ s.batch i, x ∈ b.held

variable {s s' : State ι α}

/-- **Every step keeps it.** -/
theorem Inv.step (hi : Inv s) (h : Step s s') : Inv s' := by
  cases h with
  | claim i tasks hfree hnodup hnew =>
    refine ⟨fun j b hb x hx => ?_, fun j b hb x hx => ?_, hi.done, fun x hx => ?_⟩
    · rcases mem_update hb with ⟨-, hb⟩ | ⟨-, hb⟩
      · obtain rfl := Option.some.inj hb
        exact hx
      · exact hi.inside j b hb x hx
    · rcases mem_update hb with ⟨-, hb⟩ | ⟨-, hb⟩
      · obtain rfl := Option.some.inj hb
        exact .inl hx
      · exact hi.written j b hb x hx
    · rcases hi.known x hx with hdone | ⟨j, b, hb, hheld⟩
      · exact .inl hdone
      · refine .inr ⟨j, b, ?_, hheld⟩
        -- another batch holds it, as this worker had none
        have hj : j ≠ i := by
          rintro rfl
          rw [hfree] at hb
          cases hb
        show b ∈ Function.update s.batch i _ j
        rwa [Function.update_of_ne hj]
  | write i b y rest hb hrest =>
    have hlog : ∀ x ∈ s.log, x ∈ s.log ++ [y] := fun x hx => List.mem_append_left _ hx
    refine ⟨fun j c hc x hx => ?_, fun j c hc x hx => ?_, fun x hx => hlog x (hi.done x hx),
      fun x hx => ?_⟩
    · rcases mem_update hc with ⟨rfl, hsame⟩ | ⟨-, hc⟩
      · obtain rfl := Option.some.inj hsame
        exact hi.inside _ b hb x (hrest.mem_iff.mpr (List.mem_cons_of_mem y hx))
      · exact hi.inside j c hc x hx
    · rcases mem_update hc with ⟨rfl, hsame⟩ | ⟨-, hc⟩
      · obtain rfl := Option.some.inj hsame
        rcases hi.written _ b hb x hx with hun | hlogged
        · rcases List.mem_cons.mp (hrest.mem_iff.mp hun) with rfl | hun
          · exact .inr (List.mem_append_right _ List.mem_cons_self)
          · exact .inl hun
        · exact .inr (hlog x hlogged)
      · exact (hi.written j c hc x hx).imp id (hlog x)
    · -- a batch goes on holding the task it has written
      have hholder : ∀ z, (∃ j, ∃ c ∈ s.batch j, z ∈ c.held) →
          ∃ j, ∃ c ∈ Function.update s.batch i (some ⟨b.held, rest⟩) j, z ∈ c.held := by
        rintro z ⟨j, c, hc, hz⟩
        by_cases hj : j = i
        · subst hj
          obtain rfl := Option.some.inj (hb.symm.trans hc)
          refine ⟨j, ⟨b.held, rest⟩, ?_, hz⟩
          rw [Function.update_self]
          rfl
        · refine ⟨j, c, ?_, hz⟩
          rwa [Function.update_of_ne hj]
      rcases List.mem_append.mp hx with hx | hx
      · exact (hi.known x hx).imp id (hholder x)
      · obtain rfl := List.mem_singleton.mp hx
        exact .inr (hholder x ⟨i, b, hb, hi.inside i b hb x (hrest.mem_iff.mpr List.mem_cons_self)⟩)
  | finish i b hb hwritten =>
    refine ⟨fun j c hc x hx => ?_, fun j c hc x hx => ?_, fun x hx => ?_, fun x hx => ?_⟩
    · rcases mem_update hc with ⟨-, hc⟩ | ⟨-, hc⟩
      · cases hc
      · exact hi.inside j c hc x hx
    · rcases mem_update hc with ⟨-, hc⟩ | ⟨-, hc⟩
      · cases hc
      · exact hi.written j c hc x hx
    · rcases hx with hx | hx
      · exact hi.done x hx
      · rcases hi.written i b hb x hx with hun | hlogged
        · rw [hwritten] at hun
          cases hun
        · exact hlogged
    · rcases hi.known x hx with hdone | ⟨j, c, hc, hheld⟩
      · exact .inl (.inl hdone)
      · by_cases hj : j = i
        · subst hj
          obtain rfl := Option.some.inj (hb.symm.trans hc)
          -- what the finished batch held is done
          exact .inl (.inr hheld)
        · refine .inr ⟨j, c, ?_, hheld⟩
          show c ∈ Function.update s.batch i none j
          rwa [Function.update_of_ne hj]
  | other => exact hi

/-! ## Tables of tasks -/

section Tables

variable {ρ : Type*} (key : ρ → α) (published : ρ → Prop)

/-- The tasks of a table that are done: the keys of the rows that are published. -/
def doneOf (rows : List ρ) : Set α := {k | ∃ e ∈ rows, key e = k ∧ published e}

variable {key published} {rows : List ρ}

/-- A row that is not published is no task done. -/
theorem doneOf_append {e : ρ} (hnew : ¬ published e) :
    doneOf key published (rows ++ [e]) = doneOf key published rows := by
  ext k
  constructor
  · rintro ⟨x, hx, hkey, hpublished⟩
    rcases List.mem_append.mp hx with hx | hx
    · exact ⟨x, hx, hkey, hpublished⟩
    · rw [List.mem_singleton.mp hx] at hpublished
      exact absurd hpublished hnew
  · rintro ⟨x, hx, hkey, hpublished⟩
    exact ⟨x, List.mem_append_left _ hx, hkey, hpublished⟩

/-- Publishing the rows with some keys. -/
theorem doneOf_map {f : ρ → ρ} {taken : List α} (hkey : ∀ e, key (f e) = key e)
    (hpublished : ∀ e, published (f e) ↔ published e ∨ key e ∈ taken)
    (htaken : ∀ k ∈ taken, ∃ e ∈ rows, key e = k) :
    doneOf key published (rows.map f) = doneOf key published rows ∪ {k | k ∈ taken} := by
  ext k
  constructor
  · rintro ⟨x, hx, rfl, hdone⟩
    obtain ⟨e, he, rfl⟩ := List.mem_map.mp hx
    rcases (hpublished e).mp hdone with hdone | hmem
    · exact .inl ⟨e, he, (hkey e).symm, hdone⟩
    · exact .inr ((hkey e).symm ▸ hmem)
  · rintro (⟨e, he, rfl, hdone⟩ | hmem)
    · exact ⟨f e, List.mem_map_of_mem he, hkey e, (hpublished e).mpr (.inl hdone)⟩
    · obtain ⟨e, he, rfl⟩ := htaken k hmem
      exact ⟨f e, List.mem_map_of_mem he, hkey e, (hpublished e).mpr (.inr hmem)⟩

/-- Nor has another row done it. -/
theorem key_notMem_doneOf (hkeys : (rows.map key).Nodup) {e : ρ} (he : e ∈ rows)
    (hnew : ¬ published e) : key e ∉ doneOf key published rows := by
  rintro ⟨x, hx, hkey, hpublished⟩
  rw [List.inj_on_of_nodup_map hkeys hx he hkey] at hpublished
  exact hnew hpublished

end Tables

/-! ## Counting -/

variable [DecidableEq α]

/-- How often the task is written. -/
def written (s : State ι α) (x : α) : Nat := s.log.count x

omit [DecidableEq ι] in
theorem written_eq_zero {s : State ι α} {x : α} (hx : x ∉ s.log) : written s x = 0 :=
  List.count_eq_zero.mpr hx

/-- How often a batch is still to write the task. -/
def pending (o : Option (Batch α)) (x : α) : Nat := o.elim 0 fun b => b.unwritten.count x

variable [Fintype ι]

/-- How often the task is written, or is still to be written. -/
def claims (s : State ι α) (x : α) : Nat := written s x + ∑ i, pending (s.batch i) x

/-- No task is written twice, or will be. -/
def Single (s : State ι α) : Prop := ∀ x, claims s x ≤ 1

/-- A worker that changes its batch changes its own part of the sum. -/
theorem sum_pending_update (batch : ι → Option (Batch α)) (i : ι) (o : Option (Batch α)) (x : α) :
    ∑ j, pending (Function.update batch i o j) x + pending (batch i) x
      = ∑ j, pending (batch j) x + pending o x := by
  rw [← Finset.add_sum_erase _ _ (Finset.mem_univ i), Function.update_self,
    ← Finset.add_sum_erase _ (fun j => pending (batch j) x) (Finset.mem_univ i)]
  have hrest : ∑ j ∈ Finset.univ.erase i, pending (Function.update batch i o j) x
      = ∑ j ∈ Finset.univ.erase i, pending (batch j) x :=
    Finset.sum_congr rfl fun j hj => by rw [Function.update_of_ne (Finset.ne_of_mem_erase hj)]
  rw [hrest]
  omega

omit [DecidableEq ι] in
/-- No worker holds more than all. -/
theorem pending_le_sum (batch : ι → Option (Batch α)) (i : ι) (x : α) :
    pending (batch i) x ≤ ∑ j, pending (batch j) x :=
  Finset.single_le_sum (f := fun j => pending (batch j) x) (fun _ _ => Nat.zero_le _)
    (Finset.mem_univ i)

/-- What a claim adds. -/
theorem claims_claim {i : ι} {tasks : List α} (hfree : s.batch i = none) (x : α) :
    claims { s with batch := Function.update s.batch i (some ⟨tasks, tasks⟩) } x
      = claims s x + tasks.count x := by
  have hsum := sum_pending_update s.batch i (some ⟨tasks, tasks⟩) x
  rw [hfree] at hsum
  unfold claims written
  simp only [pending, Option.elim_none, Option.elim_some] at hsum ⊢
  omega

/-- What is written is no longer to be written. -/
theorem claims_write {i : ι} {b : Batch α} {y : α} {rest : List α} (hb : s.batch i = some b)
    (hrest : b.unwritten.Perm (y :: rest)) (x : α) :
    claims { s with
      log := s.log ++ [y]
      batch := Function.update s.batch i (some ⟨b.held, rest⟩) } x = claims s x := by
  have hsum := sum_pending_update s.batch i (some ⟨b.held, rest⟩) x
  rw [hb] at hsum
  have hcount : rest.count x + [y].count x = b.unwritten.count x := by
    rw [hrest.count_eq, ← List.count_append]
    exact (List.perm_append_singleton y _).count_eq x
  unfold claims written
  simp only [pending, Option.elim_some, List.count_append] at hsum ⊢
  omega

theorem claims_finish {i : ι} {b : Batch α} (hb : s.batch i = some b) (hwritten : b.unwritten = [])
    (x : α) :
    claims { s with
      done := s.done ∪ {x | x ∈ b.held}
      batch := Function.update s.batch i none } x = claims s x := by
  have hsum := sum_pending_update s.batch i none x
  rw [hb] at hsum
  unfold claims written
  simp only [pending, Option.elim_some, Option.elim_none, hwritten, List.count_nil] at hsum ⊢
  omega

/-- No step takes a claim back. -/
theorem claims_mono (h : Step s s') (x : α) : claims s x ≤ claims s' x := by
  cases h with
  | claim i tasks hfree hnodup hnew => rw [claims_claim hfree]; omega
  | write i b y rest hb hrest => rw [claims_write hb hrest]
  | finish i b hb hwritten => rw [claims_finish hb hwritten]
  | other => exact le_rfl

/-! ## The law -/

omit [DecidableEq ι] in
/-- A task in nobody's hands that is not done is not in the log either. -/
theorem Inv.claims_eq_zero (hi : Inv s) {x : α} (hdone : x ∉ s.done)
    (hfree : ∀ i, ∀ b ∈ s.batch i, x ∉ b.held) : claims s x = 0 := by
  have hlog : x ∉ s.log := by
    intro hx
    rcases hi.known x hx with h | ⟨i, b, hb, hheld⟩
    · exact hdone h
    · exact hfree i b hb hheld
  have hpending : ∀ i, pending (s.batch i) x = 0 := by
    intro i
    cases hb : s.batch i with
    | none => rfl
    | some b => exact List.count_eq_zero.mpr fun hx => hfree i b hb (hi.inside i b hb x hx)
  unfold claims
  rw [written_eq_zero hlog, Finset.sum_eq_zero fun i _ => hpending i, Nat.add_zero]

omit [DecidableEq ι] in
/-- A held task is claimed. -/
theorem Inv.one_le_claims (hi : Inv s) {i : ι} {b : Batch α} (hb : s.batch i = some b) {x : α}
    (hx : x ∈ b.held) : 1 ≤ claims s x := by
  unfold claims Batches.written
  rcases hi.written i b hb x hx with hun | hlogged
  · have hle := pending_le_sum s.batch i x
    have hpos : 1 ≤ pending (s.batch i) x := by
      rw [hb]
      exact List.one_le_count_iff.mpr hun
    omega
  · have hpos := List.one_le_count_iff.mpr hlogged
    omega

/-- Batches that are apart keep the count. -/
theorem Single.step (hs : Single s) (hi : Inv s) (h : Step s s') (hapart : Apart s') : Single s' := by
  cases h with
  | claim i tasks hfree hnodup hnew =>
    intro x
    rw [claims_claim hfree]
    by_cases hx : x ∈ tasks
    · have hzero : claims s x = 0 := by
        refine hi.claims_eq_zero (hnew x hx) fun j b hb hheld => ?_
        have hj : j ≠ i := by
          rintro rfl
          rw [hfree] at hb
          cases hb
        refine hapart j i hj b ?_ ⟨tasks, tasks⟩ ?_ x hheld hx
        · show b ∈ Function.update s.batch i _ j
          rwa [Function.update_of_ne hj]
        · show _ ∈ Function.update s.batch i _ i
          rw [Function.update_self]
          rfl
      have hcount := List.nodup_iff_count_le_one.mp hnodup x
      omega
    · rw [List.count_eq_zero.mpr hx]
      exact hs x
  | write i b y rest hb hrest =>
    intro x
    rw [claims_write hb hrest]
    exact hs x
  | finish i b hb hwritten =>
    intro x
    rw [claims_finish hb hwritten]
    exact hs x
  | other => exact hs

/-- **A task taken twice** is written twice, or will be. -/
theorem Step.two_le_claims (h : Step s s') (hi : Inv s) (hapart : Apart s) (hnot : ¬ Apart s') :
    ∃ x, 2 ≤ claims s' x := by
  cases h with
  | claim i tasks hfree hnodup hnew =>
    -- somebody else holds one of the tasks taken
    have hshared : ∃ j, ∃ b ∈ s.batch j, ∃ x ∈ b.held, x ∈ tasks := by
      by_contra hnone
      push Not at hnone
      refine hnot fun j k hjk b hb c hc x hx hx' => ?_
      rcases mem_update hb with ⟨hj, hb⟩ | ⟨-, hb⟩ <;> rcases mem_update hc with ⟨hk, hc⟩ | ⟨-, hc⟩
      · exact hjk (hj.trans hk.symm)
      · obtain rfl := Option.some.inj hb
        exact hnone k c hc x hx' hx
      · obtain rfl := Option.some.inj hc
        exact hnone j b hb x hx hx'
      · exact hapart j k hjk b hb c hc x hx hx'
    obtain ⟨j, b, hb, x, hheld, hx⟩ := hshared
    have hone := hi.one_le_claims hb hheld
    have hcount := List.one_le_count_iff.mpr hx
    refine ⟨x, ?_⟩
    rw [claims_claim hfree]
    omega
  | write i b y rest hb hrest =>
    refine absurd (fun j k hjk c hc d hd x hx hx' => ?_) hnot
    have hheld : ∀ {l : ι} {b' : Batch α},
        b' ∈ Function.update s.batch i (some ⟨b.held, rest⟩) l →
        ∃ c' ∈ s.batch l, c'.held = b'.held := by
      intro l b' hb'
      rcases mem_update hb' with ⟨rfl, hsame⟩ | ⟨-, hsame⟩
      · obtain rfl := Option.some.inj hsame
        exact ⟨b, hb, rfl⟩
      · exact ⟨b', hsame, rfl⟩
    obtain ⟨c', hc', hceq⟩ := hheld hc
    obtain ⟨d', hd', hdeq⟩ := hheld hd
    exact hapart j k hjk c' hc' d' hd' x (hceq ▸ hx) (hdeq ▸ hx')
  | finish i b hb hwritten =>
    refine absurd (fun j k hjk c hc d hd => ?_) hnot
    rcases mem_update hc with ⟨-, hc⟩ | ⟨-, hc⟩ <;> rcases mem_update hd with ⟨-, hd⟩ | ⟨-, hd⟩
    · cases hc
    · cases hc
    · cases hd
    · exact hapart j k hjk c hc d hd
  | other => exact absurd hapart hnot

omit [DecidableEq ι] in
/-- With the count at one or below, a task is at most once in the log, and exactly once when it is
    done. -/
theorem Single.written_le_one (hs : Single s) (x : α) : written s x ≤ 1 := by
  have hle := hs x
  unfold claims at hle
  omega

omit [DecidableEq ι] in
/-- A task that is done has been written once. -/
theorem Single.written_eq_one (hs : Single s) (hi : Inv s) {x : α} (hx : x ∈ s.done) :
    written s x = 1 := by
  have hle := hs.written_le_one x
  have hpos : 1 ≤ written s x := List.one_le_count_iff.mpr (hi.done x hx)
  omega

omit [DecidableEq ι] in
/-- When nobody is at work, what is claimed is written. -/
theorem claims_eq_written (hidle : ∀ i, s.batch i = none) (x : α) : claims s x = written s x := by
  unfold claims
  rw [Finset.sum_eq_zero fun i _ => by rw [hidle i]; rfl, Nat.add_zero]

/-! ## Machines whose steps are such steps -/

omit [DecidableEq ι] [DecidableEq α] [Fintype ι] in
/-- Nothing is done, and nobody is at work. -/
def init : State ι α := ⟨∅, [], fun _ => none⟩

omit [DecidableEq ι] [DecidableEq α] [Fintype ι] in
theorem inv_init : Inv (init : State ι α) :=
  ⟨by simp [init], by simp [init], by simp [init], by simp [init]⟩

omit [DecidableEq ι] [DecidableEq α] [Fintype ι] in
theorem apart_init : Apart (init : State ι α) := by
  intro i j _ b hb
  cases hb

omit [DecidableEq ι] in
/-- Nothing is claimed at the start. -/
theorem single_init : Single (init : State ι α) := by
  intro x
  rw [claims_eq_written fun _ => rfl]
  exact Nat.zero_le 1

section Machines

variable {S : Type*} {A : Type*} {step : S → A → Option S} (view : S → State ι α) {J : S → Prop}

/-- A run that keeps the batches apart keeps the count. -/
theorem throughout_single
    (hstep : ∀ s a s', J s → step s a = some s' → J s' ∧ Step (view s) (view s')) {s : S}
    {acts : List A} (hs : J s) (hi : Inv (view s)) (hsingle : Single (view s))
    (h : Throughout step (fun s => Apart (view s)) s acts) :
    Throughout step (fun s => J s ∧ Inv (view s) ∧ Single (view s)) s acts := by
  induction acts generalizing s with
  | nil => exact ⟨hs, hi, hsingle⟩
  | cons a acts ih =>
    refine ⟨⟨hs, hi, hsingle⟩, fun s' hs' => ?_⟩
    obtain ⟨hJ, hview⟩ := hstep s a s' hs hs'
    have hrest := h.2 s' hs'
    exact ih hJ (hi.step hview) (hsingle.step hi hview hrest.head) hrest

/-- A run that ends with the count at one or below has kept the batches apart. -/
theorem throughout_apart
    (hstep : ∀ s a s', J s → step s a = some s' → J s' ∧ Step (view s) (view s')) {s t : S}
    {acts : List A} (hs : J s) (hi : Inv (view s)) (hapart : Apart (view s))
    (hrun : run step s acts = some t) (hsingle : Single (view t)) :
    Throughout step (fun s => Apart (view s)) s acts := by
  induction acts generalizing s with
  | nil => exact hapart
  | cons a acts ih =>
    refine ⟨hapart, fun s' hs' => ?_⟩
    obtain ⟨hJ, hview⟩ := hstep s a s' hs hs'
    have hrest : run step s' acts = some t := by
      rw [run_cons, hs'] at hrun
      exact hrun
    by_cases hnot : Apart (view s')
    · exact ih hJ (hi.step hview) hnot hrest
    · obtain ⟨x, hx⟩ := hview.two_le_claims hi hapart hnot
      -- a task claimed twice stays so
      have hlast : J t ∧ 2 ≤ claims (view t) x :=
        run_inv (P := fun s => J s ∧ 2 ≤ claims (view s) x) (fun s a s' h hs' =>
          ⟨(hstep s a s' h.1 hs').1, h.2.trans (claims_mono (hstep s a s' h.1 hs').2 x)⟩)
          ⟨hJ, hx⟩ hrest
      have hle := hsingle x
      omega

end Machines

end DjangoFlaskKafka.Batches
