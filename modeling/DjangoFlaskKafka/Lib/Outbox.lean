/-
  Outbox — a table whose rows are published to a log, at least once.

  What the log holds of a row is its `record`, which does not depend on whether the row is marked
  `published`.  Four things can happen: a row comes in, unpublished; the record of some row is
  stored, however often; rows whose records are stored are marked; or nothing of this (a relay
  claims, waits, fails or dies).

  `Sound` is what such a table is for: no mark without its record, and no record without its row.
  `throughout_sound` carries it over to any machine whose steps are steps of an outbox.
-/
import DjangoFlaskKafka.Lib.Machine
import Mathlib.Data.Set.Insert

namespace DjangoFlaskKafka.Outbox

universe u v w

variable {α : Type u} {μ : Type v} (record : α → μ) (published : α → Prop)

/-- The table and the log. -/
structure State (α : Type u) (μ : Type v) where
  rows : List α
  log : Set μ

/-- What can happen. -/
inductive Step : State α μ → State α μ → Prop where
  | insert (s : State α μ) (e : α) (hnew : ¬ published e) : Step s ⟨s.rows ++ [e], s.log⟩
  | store (s : State α μ) (e : α) (he : e ∈ s.rows) : Step s ⟨s.rows, insert (record e) s.log⟩
  | mark (s : State α μ) (f : α → α) (hrecord : ∀ e, record (f e) = record e)
      (hstored : ∀ e ∈ s.rows, published (f e) → published e ∨ record e ∈ s.log) :
      Step s ⟨s.rows.map f, s.log⟩
  | other (s : State α μ) : Step s s

/-- Neither a mark without its record, nor a record without its row. -/
structure Sound (s : State α μ) : Prop where
  stored : ∀ e ∈ s.rows, published e → record e ∈ s.log
  origin : ∀ r ∈ s.log, ∃ e ∈ s.rows, record e = r

variable {record published}

theorem sound_empty : Sound record published ⟨[], ∅⟩ where
  stored := by simp
  origin := by simp

/-- Every step keeps the outbox sound. -/
theorem Sound.step {s s' : State α μ} (hs : Sound record published s)
    (h : Step record published s s') : Sound record published s' := by
  cases h with
  | insert e hnew =>
    refine ⟨fun x hx hp => ?_, fun r hr => ?_⟩
    · rcases List.mem_append.mp hx with hx | hx
      · exact hs.stored x hx hp
      · rw [List.mem_singleton.mp hx] at hp
        exact absurd hp hnew
    · obtain ⟨x, hx, rfl⟩ := hs.origin r hr
      exact ⟨x, List.mem_append_left _ hx, rfl⟩
  | store e he =>
    refine ⟨fun x hx hp => Set.mem_insert_of_mem _ (hs.stored x hx hp), fun r hr => ?_⟩
    rcases Set.mem_insert_iff.mp hr with rfl | hr
    · exact ⟨e, he, rfl⟩
    · exact hs.origin r hr
  | mark f hrecord hstored =>
    refine ⟨fun x hx hp => ?_, fun r hr => ?_⟩
    · obtain ⟨e, he, rfl⟩ := List.mem_map.mp hx
      rw [hrecord]
      rcases hstored e he hp with hp | hlogged
      · exact hs.stored e he hp
      · exact hlogged
    · obtain ⟨e, he, rfl⟩ := hs.origin r hr
      exact ⟨f e, List.mem_map_of_mem he, hrecord e⟩
  | other => exact hs

/-- **A machine that refines an outbox is sound throughout.**  `Inv` is what its steps keep beside
    that, and both may lean on each other. -/
theorem throughout_sound {S : Type w} {A : Type*} {step : S → A → Option S} (view : S → State α μ)
    {Inv : S → Prop} (hstep : ∀ s a s', Inv s → Sound record published (view s) →
      step s a = some s' → Inv s' ∧ Step record published (view s) (view s')) {s : S} (hinv : Inv s)
    (hs : Sound record published (view s)) (acts : List A) :
    Machine.Throughout step (fun s => Inv s ∧ Sound record published (view s)) s acts :=
  Machine.throughout_of_inv (fun s a s' h hs' =>
    ⟨(hstep s a s' h.1 h.2 hs').1, h.2.step (hstep s a s' h.1 h.2 hs').2⟩) ⟨hinv, hs⟩ acts

end DjangoFlaskKafka.Outbox
