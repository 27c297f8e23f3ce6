/-
  Expiry — tables whose rows lapse on their own.

  Each key has ONE due date, whoever writes its row and however often.  `Tracks due told now rows`
  says that the rows stand for the keys in `told`, on their due dates, and that a row is missing
  only once its date has come.  Every way of writing a told key keeps that (`tell`), a purge of what
  is due keeps it (`purge`), and time does (`later`); and what has not lapsed is then the same in
  all tables that track the same keys (`live_iff`).
-/
import Mathlib.Data.Int.Order.Basic

namespace DjangoFlaskKafka.Expiry

universe u v

variable {α : Type u} {κ : Type v} (key : α → κ) (expires : α → Int) (due : κ → Int)

/-- The rows stand for the keys told, up to those that are due by now. -/
structure Tracks (told : κ → Prop) (now : Int) (rows : List α) : Prop where
  known : ∀ x ∈ rows, told (key x)
  dated : ∀ x ∈ rows, expires x = due (key x)
  kept : ∀ k, told k → now < due k → ∃ x ∈ rows, key x = k

variable {key expires due} {told told' : κ → Prop} {now : Int} {rows rows' : List α}

theorem tracks_nil : Tracks key expires due (fun _ => False) now [] where
  known := by simp
  dated := by simp
  kept _ h := h.elim

theorem Tracks.later (h : Tracks key expires due told now rows) {now' : Int} (hle : now ≤ now') :
    Tracks key expires due told now' rows where
  known := h.known
  dated := h.dated
  kept k hk hdue := h.kept k hk (lt_of_le_of_lt hle hdue)

/-- A purge drops what is due. -/
theorem Tracks.purge (h : Tracks key expires due told now rows) :
    Tracks key expires due told now (rows.filter fun x => ¬ expires x ≤ now) where
  known x hx := h.known x (List.mem_filter.mp hx).1
  dated x hx := h.dated x (List.mem_filter.mp hx).1
  kept k hk hdue := by
    obtain ⟨x, hx, rfl⟩ := h.kept k hk hdue
    refine ⟨x, List.mem_filter.mpr ⟨hx, ?_⟩, rfl⟩
    rw [h.dated x hx]
    exact decide_eq_true (not_le.mpr hdue)

/-- **Telling a key**: a row of that key is written on its due date, and the others stay. -/
theorem Tracks.tell (h : Tracks key expires due told now rows) {k : κ}
    (hnew : ∀ x ∈ rows', x ∈ rows ∨ key x = k ∧ expires x = due k)
    (hold : ∀ x ∈ rows, key x = k ∨ x ∈ rows') (hrow : ∃ x ∈ rows', key x = k) :
    Tracks key expires due (fun k' => told k' ∨ k' = k) now rows' where
  known x hx := by
    rcases hnew x hx with hx | ⟨hk, -⟩
    · exact .inl (h.known x hx)
    · exact .inr hk
  dated x hx := by
    rcases hnew x hx with hx | ⟨hk, hdue⟩
    · exact h.dated x hx
    · rw [hk, hdue]
  kept k' hk' hdue := by
    by_cases heq : k' = k
    · rw [heq]
      exact hrow
    · obtain ⟨x, hx, hkx⟩ := h.kept k' (hk'.resolve_right heq) hdue
      refine ⟨x, (hold x hx).resolve_left fun hk => heq (hkx.symm.trans hk), hkx⟩

/-- Only which keys are told counts. -/
theorem Tracks.congr (h : Tracks key expires due told now rows) (htold : ∀ k, told k ↔ told' k) :
    Tracks key expires due told' now rows where
  known x hx := (htold _).mp (h.known x hx)
  dated := h.dated
  kept k hk := h.kept k ((htold k).mpr hk)

/-- **What has not lapsed** is what has been told and is not due. -/
theorem Tracks.live_iff (h : Tracks key expires due told now rows) {time : Int} (hle : now ≤ time)
    (k : κ) (date : Int) : (∃ x ∈ rows, key x = k ∧ expires x = date ∧ time < date) ↔
      told k ∧ date = due k ∧ time < date := by
  constructor
  · rintro ⟨x, hx, rfl, rfl, hlive⟩
    exact ⟨h.known x hx, h.dated x hx, hlive⟩
  · rintro ⟨hk, rfl, hlive⟩
    obtain ⟨x, hx, rfl⟩ := h.kept k hk (lt_of_le_of_lt hle hlive)
    exact ⟨x, hx, rfl, h.dated x hx, hlive⟩

/-- A key that is not due has a row if it has been told. -/
theorem Tracks.listed_iff (h : Tracks key expires due told now rows) {k : κ} (hdue : now < due k) :
    (∃ x ∈ rows, key x = k) ↔ told k := by
  constructor
  · rintro ⟨x, hx, rfl⟩
    exact h.known x hx
  · intro hk
    exact h.kept k hk hdue

/-- Whether a key has a row, after a purge. -/
theorem Tracks.mem_purge_iff (h : Tracks key expires due told now rows) (time : Int) (k : κ) :
    (∃ x ∈ rows.filter (fun x => ¬ expires x ≤ time), key x = k) ↔
      (∃ x ∈ rows, key x = k) ∧ time < due k := by
  constructor
  · rintro ⟨x, hx, rfl⟩
    obtain ⟨hx, hlive⟩ := List.mem_filter.mp hx
    refine ⟨⟨x, hx, rfl⟩, ?_⟩
    rw [← h.dated x hx]
    exact not_le.mp (of_decide_eq_true hlive)
  · rintro ⟨⟨x, hx, rfl⟩, hlive⟩
    refine ⟨x, List.mem_filter.mpr ⟨hx, ?_⟩, rfl⟩
    rw [h.dated x hx]
    exact decide_eq_true (not_le.mpr hlive)

end DjangoFlaskKafka.Expiry
