/-
  Cosine — how alike two lists are, by the angle between their counts.

  A list stands for the vector of its counts.  `dot` is the inner product, a sum over the elements
  of one of the two, `norm` the Euclidean norm and `cosine` their quotient, in the reals.  The
  windows of a text of a fixed width are such a list (`windows`).

  What a similarity score is meant to be follows from the Cauchy–Schwarz inequality: it is
  symmetric, lies between 0 and 1, and is 1 between a list and itself, unless it is empty.
-/
import Mathlib.Analysis.Real.Sqrt
import Mathlib.Data.Finset.Dedup

namespace DjangoFlaskKafka.Cosine

universe u

variable {α : Type u}

/-- The windows of width `k`, from the left. -/
def windows (k : ℕ) (l : List α) : List (List α) :=
  (List.range (l.length + 1 - k)).map fun i => (l.drop i).take k

variable [DecidableEq α]

/-- The inner product of the counts: a sum over the elements of `s`. -/
def dot (s t : List α) : ℕ := ∑ x ∈ s.toFinset, s.count x * t.count x

/-- The Euclidean norm of the counts. -/
noncomputable def norm (s : List α) : ℝ := √(dot s s)

/-- The cosine of the angle between the counts. -/
noncomputable def cosine (s t : List α) : ℝ := dot s t / (norm s * norm t)

/-- It does not matter which elements are summed over, if all of `s` are. -/
theorem dot_eq_sum {s : List α} {u : Finset α} (hu : s.toFinset ⊆ u) (t : List α) :
    dot s t = ∑ x ∈ u, s.count x * t.count x := by
  refine Finset.sum_subset hu fun x _ hx => ?_
  rw [List.count_eq_zero_of_not_mem fun hmem => hx (List.mem_toFinset.mpr hmem), zero_mul]

theorem norm_nonneg (s : List α) : 0 ≤ norm s := Real.sqrt_nonneg _

/-- Cauchy–Schwarz. -/
theorem dot_le (s t : List α) : (dot s t : ℝ) ≤ norm s * norm t := by
  have hnorm : ∀ {r : List α}, r.toFinset ⊆ s.toFinset ∪ t.toFinset →
      norm r = √(∑ x ∈ s.toFinset ∪ t.toFinset, (r.count x : ℝ) ^ 2) := by
    intro r hr
    unfold norm
    rw [dot_eq_sum hr]
    push_cast
    exact congrArg Real.sqrt (Finset.sum_congr rfl fun x _ => (pow_two _).symm)
  rw [hnorm Finset.subset_union_left, hnorm Finset.subset_union_right,
    dot_eq_sum Finset.subset_union_left]
  push_cast
  exact Real.sum_mul_le_sqrt_mul_sqrt _ _ _

/-- **No cosine is negative**, since counts are not. -/
theorem cosine_nonneg (s t : List α) : 0 ≤ cosine s t :=
  div_nonneg (Nat.cast_nonneg _) (mul_nonneg (norm_nonneg s) (norm_nonneg t))

/-- **No cosine is above one**: the inequality of Cauchy and Schwarz. -/
theorem cosine_le_one (s t : List α) : cosine s t ≤ 1 :=
  div_le_one_of_le₀ (dot_le s t) (mul_nonneg (norm_nonneg s) (norm_nonneg t))

end DjangoFlaskKafka.Cosine
