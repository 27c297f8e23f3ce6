/-
  Raising — which exceptions a computation can end in, and with what it can return.

  `Raises P x` says that whatever `x` raises is one of `P`; a computation that returns raises
  nothing, so it raises one of any `P`.  The rules follow the computation: a sequence raises what its
  parts raise (`Raises.bind`), the second part only on what the first has returned, and a loop what
  its steps raise (`Raises.mapM`).  `Returns P x` says that what `x` returns, if it does, meets `P`,
  with the same rules.
-/
import Mathlib.Data.List.Basic

namespace DjangoFlaskKafka.Raising

universe u v

variable {ε : Type u} {α β : Type v} {P : ε → Prop}

/-- Whatever the computation raises is one of `P`. -/
def Raises (P : ε → Prop) (x : Except ε α) : Prop := ∀ e, x = .error e → P e

/-- What returns raises nothing. -/
theorem raises_ok (a : α) : Raises P (.ok a : Except ε α) := by
  intro e h
  cases h

/-- What raises one of `P` raises nothing else. -/
theorem raises_error {e : ε} (h : P e) : Raises P (.error e : Except ε α) := by
  intro e' h'
  cases h'
  exact h

/-- **A sequence raises what its parts raise.** -/
theorem Raises.bind {x : Except ε α} {f : α → Except ε β} (hx : Raises P x)
    (hf : ∀ a, x = .ok a → Raises P (f a)) : Raises P (x >>= f) := by
  cases x with
  | error e => exact raises_error (hx e rfl)
  | ok a => exact hf a rfl

/-- A sequence that raises only such exceptions has a first part that does. -/
theorem Raises.first {x : Except ε α} {f : α → Except ε β} (h : Raises P (x >>= f)) : Raises P x := by
  intro e he
  refine h e ?_
  rw [he]
  rfl

/-- And a second part that does, on what the first has returned. -/
theorem Raises.after {x : Except ε α} {f : α → Except ε β} {a : α} (h : Raises P (x >>= f))
    (hx : x = .ok a) : Raises P (f a) := by
  rw [hx] at h
  exact h

/-- A function of the result raises nothing of its own. -/
theorem Raises.map {x : Except ε α} (hx : Raises P x) (f : α → β) : Raises P (x.map f) := by
  cases x with
  | error e => exact raises_error (hx e rfl)
  | ok a => exact raises_ok (f a)

/-- **A loop raises what its steps raise.** -/
theorem Raises.mapM {f : α → Except ε β} {xs : List α} (h : ∀ a ∈ xs, Raises P (f a)) :
    Raises P (xs.mapM f) := by
  induction xs with
  | nil => exact raises_ok []
  | cons a xs ih =>
    rw [List.mapM_cons]
    obtain ⟨ha, hxs⟩ := List.forall_mem_cons.mp h
    exact ha.bind fun _ _ => (ih hxs).bind fun _ _ => raises_ok _

/-- A value that may be missing. -/
theorem raises_elim {x : Option β} {e : ε} {f : β → Except ε α} (he : x = none → P e)
    (hf : ∀ b ∈ x, Raises P (f b)) : Raises P (x.elim (.error e) f) := by
  cases x with
  | none => exact raises_error (he rfl)
  | some b => exact hf b rfl

/-! ## What is returned -/

/-- Whatever the computation returns meets `P`. -/
def Returns (P : α → Prop) (x : Except ε α) : Prop := ∀ a, x = .ok a → P a

section Returns

variable {Q : α → Prop} {R : β → Prop}

/-- What returns a value that meets `Q`. -/
theorem returns_ok {a : α} (h : Q a) : Returns Q (.ok a : Except ε α) := by
  intro a' h'
  cases h'
  exact h

/-- What raises returns nothing. -/
theorem returns_error (e : ε) : Returns Q (.error e : Except ε α) := by
  intro a h
  cases h

/-- **A sequence returns what its last step returns**, on what the first may have returned. -/
theorem Returns.bind {x : Except ε α} {f : α → Except ε β} (hx : Returns Q x)
    (hf : ∀ a, Q a → Returns R (f a)) : Returns R (x >>= f) := by
  cases x with
  | error e => exact returns_error e
  | ok a => exact hf a (hx a rfl)

/-- What a sequence returns is what its last part returns. -/
theorem returns_bind {x : Except ε α} {f : α → Except ε β} (hf : ∀ a, Returns R (f a)) :
    Returns R (x >>= f) := by
  cases x with
  | error e => exact returns_error e
  | ok a => exact hf a

/-- The same of a function of the result. -/
theorem Returns.map {x : Except ε α} (hx : Returns Q x) {f : α → β} (hf : ∀ a, Q a → R (f a)) :
    Returns R (x.map f) := by
  cases x with
  | error e => exact returns_error e
  | ok a => exact returns_ok (hf a (hx a rfl))

/-- **A loop returns what its steps return.** -/
theorem Returns.mapM {f : α → Except ε β} {xs : List α} (h : ∀ a ∈ xs, Returns R (f a)) :
    Returns (fun ys => ∀ y ∈ ys, R y) (xs.mapM f) := by
  induction xs with
  | nil => exact returns_ok (by simp)
  | cons a xs ih =>
    rw [List.mapM_cons]
    obtain ⟨ha, hxs⟩ := List.forall_mem_cons.mp h
    refine ha.bind fun y hy => (ih hxs).bind fun ys hys => returns_ok ?_
    exact List.forall_mem_cons.mpr ⟨hy, hys⟩

end Returns

end DjangoFlaskKafka.Raising
