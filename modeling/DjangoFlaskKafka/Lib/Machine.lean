/-
  Machines — a step function `S → A → Option S` and the runs it makes.

  All the freedom of a system (the schedule, what fails, what a client sends) sits in the ACTION,
  so a run is a plain list of actions and the step is a partial FUNCTION: `none` says that the
  action is not enabled.  Two readings of a run are used throughout:

  * `Throughout step P s acts` — `P` holds in every state the run visits, the first included;
  * `Along step G s acts`      — `G` holds of every step taken, in the state BEFORE the step.

  The rules: an invariant kept by every step holds throughout (`throughout_of_inv`); one kept by
  the steps that meet a guard holds throughout the runs that meet it (`throughout_of_along`); and
  when a step keeps the law EXACTLY if it meets the guard, so does the run
  (`throughout_iff_along`) — the form in which a defect is pinned down to the steps that cause it.
-/
import Mathlib.Data.List.Basic
import Mathlib.Data.List.Induction
import Mathlib.Logic.Function.Basic

namespace DjangoFlaskKafka.Machine

universe u v

variable {S : Type u} {A : Type v} (step : S → A → Option S)

/-! ## Runs -/

/-- Take the actions one after another; `none` as soon as one is not enabled. -/
def run : S → List A → Option S
  | s, [] => some s
  | s, a :: acts => (step s a).bind fun s' => run s' acts

/-- `P` holds in every state that the run `acts` visits from `s`. -/
def Throughout (P : S → Prop) : S → List A → Prop
  | s, [] => P s
  | s, a :: acts => P s ∧ ∀ s', step s a = some s' → Throughout P s' acts

/-- Every step of the run `acts` from `s` meets `G` in the state before it. -/
def Along (G : S → A → Prop) : S → List A → Prop
  | _, [] => True
  | s, a :: acts => ∀ s', step s a = some s' → G s a ∧ Along G s' acts

@[simp] theorem run_cons (s : S) (a : A) (acts : List A) :
    run step s (a :: acts) = (step s a).bind fun s' => run step s' acts := rfl

/-- Runs one after the other. -/
theorem run_append (s : S) (acts acts' : List A) :
    run step s (acts ++ acts') = (run step s acts).bind fun t => run step t acts' := by
  induction acts generalizing s with
  | nil => rfl
  | cons a acts ih =>
    rw [List.cons_append, run_cons, run_cons, Option.bind_assoc]
    exact congrArg (Option.bind _) (funext ih)

variable {step}

/-- A run whose first step is enabled, taken apart. -/
theorem run_cons_eq_some {s t : S} {a : A} {acts : List A} (h : run step s (a :: acts) = some t) :
    ∃ s', step s a = some s' ∧ run step s' acts = some t :=
  Option.bind_eq_some_iff.mp h

/-- Whether the steps of a run meet a decidable guard is a computation. -/
instance Along.decidable {G : S → A → Prop} [∀ s a, Decidable (G s a)] :
    ∀ s acts, Decidable (Along step G s acts)
  | _, [] => .isTrue trivial
  | s, a :: acts =>
    match hs : step s a with
    | none => .isTrue fun s' h => by rw [hs] at h; cases h
    | some s' =>
      have : Decidable (Along step G s' acts) := Along.decidable s' acts
      decidable_of_iff (G s a ∧ Along step G s' acts)
        ⟨fun h t ht => Option.some.inj (hs.symm.trans ht) ▸ h, fun h => h s' hs⟩

/-! ## Invariants -/

section Rules

variable {P J : S → Prop} {G : S → A → Prop}

/-- The first state is one of them. -/
theorem Throughout.head {s : S} {acts : List A} (h : Throughout step P s acts) : P s := by
  cases acts with
  | nil => exact h
  | cons a acts => exact h.1

theorem Throughout.mono {Q : S → Prop} (hPQ : ∀ s, P s → Q s) {s : S} {acts : List A}
    (h : Throughout step P s acts) : Throughout step Q s acts := by
  induction acts generalizing s with
  | nil => exact hPQ s h
  | cons a acts ih => exact ⟨hPQ s h.1, fun s' hs => ih (h.2 s' hs)⟩

/-- Two properties throughout are one. -/
theorem Throughout.and {Q : S → Prop} {s : S} {acts : List A} (hP : Throughout step P s acts)
    (hQ : Throughout step Q s acts) : Throughout step (fun t => P t ∧ Q t) s acts := by
  induction acts generalizing s with
  | nil => exact ⟨hP, hQ⟩
  | cons a acts ih => exact ⟨⟨hP.1, hQ.1⟩, fun s' hs => ih (hP.2 s' hs) (hQ.2 s' hs)⟩

theorem Along.mono {G' : S → A → Prop} (hG : ∀ s a, G s a → G' s a) {s : S} {acts : List A}
    (h : Along step G s acts) : Along step G' s acts := by
  induction acts generalizing s with
  | nil => trivial
  | cons a acts ih => exact fun s' hs => ⟨hG s a (h s' hs).1, ih (h s' hs).2⟩

/-- A guard that looks at the action alone. -/
theorem along_of_forall {s : S} {acts : List A} (h : ∀ a ∈ acts, ∀ s, G s a) :
    Along step G s acts := by
  induction acts generalizing s with
  | nil => trivial
  | cons a acts ih =>
    exact fun s' _ => ⟨h a List.mem_cons_self s, ih fun b hb => h b (List.mem_cons_of_mem _ hb)⟩

/-- The last state of a run is one of the states it visits. -/
theorem Throughout.last {s t : S} {acts : List A} (h : Throughout step P s acts)
    (hrun : run step s acts = some t) : P t := by
  induction acts generalizing s with
  | nil =>
    have hst : s = t := Option.some.inj hrun
    exact hst ▸ h
  | cons a acts ih =>
    obtain ⟨s', hs, hrun'⟩ := run_cons_eq_some hrun
    exact ih (h.2 s' hs) hrun'

/-- What every step keeps, every run keeps. -/
theorem throughout_of_inv (hstep : ∀ s a s', P s → step s a = some s' → P s') {s : S}
    (hs : P s) (acts : List A) : Throughout step P s acts := by
  induction acts generalizing s with
  | nil => exact hs
  | cons a acts ih => exact ⟨hs, fun s' h => ih (hstep s a s' hs h)⟩

/-- The same for the last state only. -/
theorem run_inv (hstep : ∀ s a s', P s → step s a = some s' → P s') {s t : S} {acts : List A}
    (hs : P s) (hrun : run step s acts = some t) : P t :=
  (throughout_of_inv hstep hs acts).last hrun

/-- What the steps that meet `G` keep, the runs that meet `G` keep.  `J` is a law that every step
    from a lawful state keeps, guarded or not, and that the argument may lean on. -/
theorem throughout_of_along (hJ : ∀ s a s', J s → P s → step s a = some s' → J s')
    (hP : ∀ s a s', J s → P s → G s a → step s a = some s' → P s') {s : S} {acts : List A}
    (hJs : J s) (hPs : P s) (h : Along step G s acts) : Throughout step P s acts := by
  induction acts generalizing s with
  | nil => exact hPs
  | cons a acts ih =>
    refine ⟨hPs, fun s' hs => ?_⟩
    obtain ⟨hG, hrest⟩ := h s' hs
    exact ih (hJ s a s' hJs hPs hs) (hP s a s' hJs hPs hG hs) hrest

/-- **Pinning a law to the steps that keep it.**  If a step from a lawful state leads to a lawful
    state exactly when it meets `G`, then a run is lawful throughout exactly when all its steps
    meet `G`. -/
theorem throughout_iff_along (hJ : ∀ s a s', J s → P s → step s a = some s' → J s')
    (hP : ∀ s a s', J s → P s → step s a = some s' → (P s' ↔ G s a)) {s : S} (acts : List A)
    (hJs : J s) (hPs : P s) : Throughout step P s acts ↔ Along step G s acts := by
  constructor
  · intro h
    induction acts generalizing s with
    | nil => trivial
    | cons a acts ih =>
      intro s' hs
      have htail := h.2 s' hs
      exact ⟨(hP s a s' hJs hPs hs).mp htail.head, ih (hJ s a s' hJs hPs hs) htail.head htail⟩
  · exact throughout_of_along hJ (fun s a s' hJs hPs hG hs => (hP s a s' hJs hPs hs).mpr hG) hJs hPs

end Rules

/-! ## Logs -/

section Logs

variable {B : Type u} {C : Type v}

/-- What the steps of a run put out, one after another. -/
def outputs (step : S → A → Option S) (out : S → A → Option B) : S → List A → List B
  | _, [] => []
  | s, a :: acts => (step s a).elim [] fun s' => (out s a).toList ++ outputs step out s' acts

/-- **A log is what has been put out**: when every step adds to a view of the state what it puts out,
    and nothing else, a run adds to it what its steps put out. -/
theorem run_logged {out : S → A → Option B} {view : S → List C} {f : B → Option C}
    (hview : ∀ s a s', step s a = some s' → view s' = view s ++ (out s a).toList.filterMap f)
    {s t : S} {acts : List A} (hrun : run step s acts = some t) :
    view t = view s ++ (outputs step out s acts).filterMap f := by
  induction acts generalizing s with
  | nil =>
    obtain rfl : s = t := Option.some.inj hrun
    exact (List.append_nil _).symm
  | cons a acts ih =>
    obtain ⟨s', hstep, hrun'⟩ := run_cons_eq_some hrun
    show view t = view s ++ ((step s a).elim [] fun s' => _).filterMap f
    rw [ih hrun', hview s a s' hstep, hstep, Option.elim_some, List.filterMap_append,
      List.append_assoc]

/-- **A machine that puts out the actions of another runs it**: when every step puts out what takes
    the other machine from its view of the state to its view of the next, or nothing and the view
    stays, a run puts out a run. -/
theorem run_outputs {T : Type u} {step' : T → B → Option T} {out : S → A → Option B} {view : S → T}
    (hview : ∀ s a s', step s a = some s' →
      (out s a).elim (some (view s)) (step' (view s)) = some (view s'))
    {s t : S} {acts : List A} (hrun : run step s acts = some t) :
    run step' (view s) (outputs step out s acts) = some (view t) := by
  induction acts generalizing s with
  | nil =>
    obtain rfl : s = t := Option.some.inj hrun
    rfl
  | cons a acts ih =>
    obtain ⟨s', hstep, hrun'⟩ := run_cons_eq_some hrun
    have hnext := hview s a s' hstep
    show run step' (view s) ((step s a).elim [] fun s' => _) = _
    rw [hstep, Option.elim_some]
    cases hout : out s a with
    | none =>
      rw [hout] at hnext
      rw [Option.some.inj hnext]
      exact ih hrun'
    | some b =>
      rw [hout] at hnext
      show run step' (view s) (b :: outputs step out s' acts) = _
      rw [run_cons, show step' (view s) b = some (view s') from hnext, Option.bind_some]
      exact ih hrun'

/-- **What has been put out**: what is true of it when it is put out and stays true in every step is
    true at the end, in the runs whose actions meet `G`. -/
theorem forall_outputs {J : S → Prop} {G : A → Prop} {Q : S → B → Prop} {out : S → A → Option B}
    (hJ : ∀ s a s', J s → G a → step s a = some s' → J s')
    (hout : ∀ s a s', J s → G a → step s a = some s' → ∀ b ∈ out s a, Q s' b)
    (hstays : ∀ b s a s', Q s b → step s a = some s' → Q s' b)
    {s t : S} {acts : List A} (hs : J s) (hacts : ∀ a ∈ acts, G a) (hrun : run step s acts = some t) :
    ∀ b ∈ outputs step out s acts, Q t b := by
  induction acts generalizing s with
  | nil => simp [outputs]
  | cons a acts ih =>
    obtain ⟨ha, hacts⟩ := List.forall_mem_cons.mp hacts
    obtain ⟨s', hstep, hrun'⟩ := run_cons_eq_some hrun
    intro b hb
    unfold outputs at hb
    rw [hstep, Option.elim_some] at hb
    rcases List.mem_append.mp hb with hb | hb
    · exact run_inv (hstays b) (hout s a s' hs ha hstep b (Option.mem_toList.mp hb)) hrun'
    · exact ih (hJ s a s' hs ha hstep) hacts hrun' b hb

end Logs

/-! ## The past -/

section Past

variable (step) in
/-- `P` has held at some moment of the run `acts` from `s`. -/
def Once (P : S → Prop) (s : S) (acts : List A) : Prop :=
  ∃ before t, before <+: acts ∧ run step s before = some t ∧ P t

variable {P : S → Prop} {s t : S} {acts : List A}

theorem once_of_run (hrun : run step s acts = some t) (h : P t) : Once step P s acts :=
  ⟨acts, t, List.prefix_rfl, hrun, h⟩

/-- What has happened once has happened in every longer run. -/
theorem Once.append (h : Once step P s acts) (acts' : List A) : Once step P s (acts ++ acts') := by
  obtain ⟨before, t, hprefix, hrun, ht⟩ := h
  exact ⟨before, t, hprefix.trans (List.prefix_append acts acts'), hrun, ht⟩

/-- **A law that speaks of the past**: what one more step keeps, every run ends in. -/
theorem run_traced {Q : List A → S → Prop} (hnil : Q [] s)
    (hstep : ∀ acts t a t', Q acts t → step t a = some t' → run step s (acts ++ [a]) = some t' →
      Q (acts ++ [a]) t')
    (hrun : run step s acts = some t) : Q acts t := by
  induction acts using List.reverseRecOn generalizing t with
  | nil =>
    obtain rfl : s = t := Option.some.inj hrun
    exact hnil
  | append_singleton acts a ih =>
    obtain ⟨t', hbefore, hlast⟩ :=
      Option.bind_eq_some_iff.mp ((run_append step s acts [a]).symm.trans hrun)
    obtain ⟨t'', ht'', hend⟩ := run_cons_eq_some hlast
    obtain rfl : t'' = t := Option.some.inj hend
    exact hstep acts t' a t'' (ih hbefore) ht'' hrun

end Past

/-! ## Parties -/

/-- What the parties of a system are doing, after one of them has changed. -/
theorem mem_update {ι : Type u} [DecidableEq ι] {π : Type v} {party : ι → Option π} {i j : ι}
    {x : Option π} {p : π} (hp : p ∈ Function.update party i x j) :
    j = i ∧ p ∈ x ∨ j ≠ i ∧ p ∈ party j := by
  by_cases hj : j = i
  · subst hj
    rw [Function.update_self] at hp
    exact .inl ⟨rfl, hp⟩
  · rw [Function.update_of_ne hj] at hp
    exact .inr ⟨hj, hp⟩

end DjangoFlaskKafka.Machine
