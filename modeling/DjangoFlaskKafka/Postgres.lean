/-
  Postgres as the services lean on it: what a column's type accepts, and a table that is checked
  against its constraints.

  A table is modelled as the list of its rows TOGETHER WITH its constraints (a subtype), so one
  that violates them cannot be built; `checked` is the statement that tries to.
-/
import DjangoFlaskKafka.Python

namespace DjangoFlaskKafka.Postgres

open Python

/-! ## Columns -/

/-- A `VARCHAR(n)` column takes the text: short enough, and no NUL character. -/
def Varchar (n : Nat) (s : String) : Prop := s.length ≤ n ∧ nul ∉ s.toList

instance (n : Nat) (s : String) : Decidable (Varchar n s) :=
  inferInstanceAs (Decidable (_ ∧ _))

/-- What a `VARCHAR(n)` column stores of a text: blanks too many are cut off at its end, and
    otherwise a text that is too long, or has a NUL, is refused. -/
def stored (n : Nat) (s : String) : Option String :=
  if nul ∈ s.toList then none
  else if s.length ≤ n then some s
  else if (s.toList.drop n).all (· = ' ') then some (String.ofList (s.toList.take n)) else none

/-- A text that fits is stored as it is. -/
theorem stored_of_varchar {n : Nat} {s : String} (h : Varchar n s) : stored n s = some s := by
  unfold stored
  rw [if_neg h.2, if_pos h.1]

/-- An `INTEGER` column takes the number. -/
def InInteger (n : Int) : Prop := -2147483648 ≤ n ∧ n ≤ 2147483647

instance (n : Int) : Decidable (InInteger n) := inferInstanceAs (Decidable (_ ∧ _))

/-- A `UUID`, in its text form. -/
abbrev Uuid :=
  { s : String // s.length = 36 ∧ ∀ c ∈ s.toList, c ∈ "0123456789abcdef-".toList }

/-- Whether a text is a `UUID`, character by character. -/
instance decidableUuid (s : String) :
    Decidable (s.length = 36 ∧ ∀ c ∈ s.toList, c ∈ "0123456789abcdef-".toList) :=
  haveI : Decidable (∀ c ∈ s.toList, c ∈ "0123456789abcdef-".toList) := List.decidableBAll _ _
  instDecidableAnd

instance lawfulBEqUuid : LawfulBEq Uuid := inferInstance

/-- The text of a sample id, by its last digit. -/
def sampleText (n : Nat) : String :=
  "00000000-0000-4000-8000-00000000000" ++ String.singleton (Nat.digitChar (n % 16))

/-- A sample has the form of a UUID. -/
theorem sampleText_form (n : Nat) : (sampleText n).length = 36 ∧
    ∀ c ∈ (sampleText n).toList, c ∈ "0123456789abcdef-".toList := by
  have hdigits : ∀ n : Fin 16, (sampleText n).length = 36 ∧
      ∀ c ∈ (sampleText n).toList, c ∈ "0123456789abcdef-".toList := by decide +kernel
  have h := hdigits ⟨n % 16, Nat.mod_lt n (by decide)⟩
  rwa [show sampleText (n % 16) = sampleText n by unfold sampleText; rw [Nat.mod_mod]] at h

/-- The ids of runs on fixed inputs. -/
def sampleUuid (n : Nat) : Uuid := ⟨sampleText n, sampleText_form n⟩

/-- A random id fits a column of 64 characters. -/
theorem varchar_uuid (id : Uuid) : Varchar 64 id.1 := by
  refine ⟨by rw [id.2.1]; omega, fun h => ?_⟩
  exact absurd (id.2.2 nul h) (by decide)

/-- A UUID has 36 characters. -/
theorem uuid_ne_empty (id : Uuid) : id.1 ≠ "" := by
  intro h
  have hlen := id.2.1
  rw [h] at hlen
  exact absurd hlen (by decide)

/-! ## Constraints -/

/-- Check a table's constraints. -/
def checked {α : Type} (P : α → Prop) [DecidablePred P] (x : α) : Option (Subtype P) :=
  if h : P x then some ⟨x, h⟩ else none

/-- A statement that keeps the constraint goes through. -/
theorem checked_of {α : Type} {P : α → Prop} [DecidablePred P] {x : α} (h : P x) :
    checked P x = some ⟨x, h⟩ := dif_pos h

/-- One that breaks it fails. -/
theorem checked_of_not {α : Type} {P : α → Prop} [DecidablePred P] {x : α} (h : ¬ P x) :
    checked P x = none := dif_neg h

/-- What a statement leaves is what it was to write. -/
theorem checked_eq_some {α : Type} {P : α → Prop} [DecidablePred P] {x : α} {y : Subtype P}
    (h : checked P x = some y) : y.1 = x := by
  unfold checked at h
  split at h
  · rw [← Option.some.inj h]
  · exact absurd h (by simp)

end DjangoFlaskKafka.Postgres
