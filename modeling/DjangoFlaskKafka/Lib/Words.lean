/-
  Words — a list cut at its SEPARATORS, and the separators trimmed off its two ends.

  `p` says which elements separate.  `words p l` is the list of maximal non-empty runs of
  non-separators (what `str.split()` returns for whitespace), `strip p l` drops the separators at
  both ends (`str.strip()`).

  Everything follows from one equation, `words_append_sep`: a separator in the middle splits the
  words into those before and those after.  Consequences: separators at the ends contribute no
  word, and a filter in between does not change that (`words_filter_strip`).
-/
import Mathlib.Data.List.DropRight

namespace DjangoFlaskKafka.Words

universe u v

variable {α : Type u} {β : Type v} (p : α → Bool)

/-- The maximal non-empty runs of non-separators. -/
def words (l : List α) : List (List α) := (l.splitOnP p).filter fun w => !w.isEmpty

/-- The list without the separators at its two ends. -/
def strip (l : List α) : List α := (l.dropWhile p).rdropWhile p

variable {p}

@[simp] theorem words_nil : words p ([] : List α) = [] := by
  simp [words, List.splitOnP_nil]

/-- **A separator splits the words.** -/
theorem words_append_sep {c : α} (hc : p c = true) (x y : List α) :
    words p (x ++ c :: y) = words p x ++ words p y := by
  unfold words
  rw [List.splitOnP_append_cons x y hc, List.filter_append]

/-- A separator in front does not count. -/
theorem words_cons_sep {c : α} (hc : p c = true) (l : List α) : words p (c :: l) = words p l := by
  have h := words_append_sep hc [] l
  rwa [List.nil_append, words_nil, List.nil_append] at h

/-- Nor does one at the end. -/
theorem words_concat_sep {c : α} (hc : p c = true) (l : List α) :
    words p (l ++ [c]) = words p l := by
  have h := words_append_sep hc l []
  rwa [words_nil, List.append_nil] at h

/-- Separators in front belong to no word. -/
theorem words_seps_append : ∀ {s : List α}, (∀ c ∈ s, p c = true) → ∀ l,
    words p (s ++ l) = words p l
  | [], _, l => rfl
  | c :: s, h, l => by
    rw [List.cons_append, words_cons_sep (h c List.mem_cons_self)]
    exact words_seps_append (fun d hd => h d (List.mem_cons_of_mem c hd)) l

/-- Separators behind belong to no word. -/
theorem words_append_seps {s : List α} (h : ∀ c ∈ s, p c = true) (l : List α) :
    words p (l ++ s) = words p l := by
  induction s using List.reverseRecOn with
  | nil => rw [List.append_nil]
  | append_singleton s c ih =>
    rw [← List.append_assoc, words_concat_sep (h c (List.mem_append_right s List.mem_cons_self))]
    exact ih fun d hd => h d (List.mem_append_left [c] hd)

/-- A list is its stripped form between two runs of separators. -/
theorem exists_strip (l : List α) : ∃ s s', l = s ++ strip p l ++ s' ∧
    (∀ c ∈ s, p c = true) ∧ ∀ c ∈ s', p c = true := by
  refine ⟨l.takeWhile p, (l.dropWhile p).rtakeWhile p, ?_, fun c hc => List.mem_takeWhile_imp hc,
    fun c hc => List.mem_rtakeWhile_imp hc⟩
  rw [strip, List.append_assoc, List.rdropWhile_append_rtakeWhile, List.takeWhile_append_dropWhile]

/-- A list without separators is stripped. -/
theorem strip_of_forall {l : List α} (h : ∀ c ∈ l, p c = false) : strip p l = l := by
  have hfront : l.dropWhile p = l :=
    List.dropWhile_eq_self_iff.mpr fun hl => by simp [h _ (List.getElem_mem hl)]
  unfold strip
  rw [hfront]
  exact List.rdropWhile_eq_self_iff.mpr fun hl => by simp [h _ (List.getLast_mem hl)]

/-- Stripping a stripped list changes nothing. -/
theorem strip_strip (l : List α) : strip p (strip p l) = strip p l := by
  have hfront : (strip p l).dropWhile p = strip p l := by
    refine List.dropWhile_eq_self_iff.mpr fun hl => ?_
    obtain ⟨rest, hrest⟩ : strip p l <+: l.dropWhile p := List.rdropWhile_prefix p _
    have hlong : 0 < (l.dropWhile p).length := by
      rw [← hrest, List.length_append]
      omega
    have hhead : (strip p l)[0] = (l.dropWhile p)[0] := by
      simp only [← hrest, List.getElem_append_left hl]
    rw [hhead]
    exact List.dropWhile_get_zero_not p l hlong
  rw [show strip p (strip p l) = ((strip p l).dropWhile p).rdropWhile p from rfl, hfront]
  exact List.rdropWhile_idempotent p _

/-- Stripping keeps the words, also those left over by a filter. -/
theorem words_filter_strip (q : α → Bool) (l : List α) :
    words p ((strip p l).filter q) = words p (l.filter q) := by
  obtain ⟨s, s', hl, hs, hs'⟩ := exists_strip (p := p) l
  conv_rhs => rw [hl]
  rw [List.filter_append, List.filter_append,
    words_append_seps fun c hc => hs' c (List.mem_filter.mp hc).1,
    words_seps_append fun c hc => hs c (List.mem_filter.mp hc).1]

/-! ## What words are -/

theorem splitOnP_map {q : β → Bool} {f : α → β} (hf : ∀ a, q (f a) = p a) (l : List α) :
    (l.map f).splitOnP q = (l.splitOnP p).map (List.map f) := by
  induction l with
  | nil => simp [List.splitOnP_nil]
  | cons a l ih =>
    rw [List.map_cons, List.splitOnP_cons_eq_if_modifyHead, List.splitOnP_cons_eq_if_modifyHead,
      hf, ih]
    split
    · rfl
    · cases l.splitOnP p <;> rfl

/-- A map that keeps the separators maps the words. -/
theorem words_map {q : β → Bool} {f : α → β} (hf : ∀ a, q (f a) = p a) (l : List α) :
    words q (l.map f) = (words p l).map (List.map f) := by
  unfold words
  rw [splitOnP_map hf, List.filter_map]
  congr 1
  refine List.filter_congr fun w _ => ?_
  cases w <;> rfl

end DjangoFlaskKafka.Words
