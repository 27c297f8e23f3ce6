/-
  Traces — runs that may be rearranged where their steps are of different things.

  Every action is about one thing, its `key`.  `Rearranged` lists hold the same actions, those of
  each key in the same order.  If actions of different keys commute, rearranged runs end alike
  (`foldl_rearranged`).

  Neither the states need be equal nor every state be considered: `E` says when two states are
  alike, and `I` which ones occur.
-/
import Mathlib.Data.List.Basic

namespace DjangoFlaskKafka.Traces

universe u v w

variable {S : Type u} {A : Type v} {K : Type w} [DecidableEq K]

/-- The same actions, and for each key in the same order. -/
structure Rearranged (key : A → K) (l l' : List A) : Prop where
  perm : l.Perm l'
  order : ∀ k, (l.filter fun a => key a = k) = l'.filter fun a => key a = k

/-- What makes the actions of a list commute: `act` keeps to the states that occur, takes like
    states to like ones, and actions of different keys may change places. -/
structure Commutes (key : A → K) (act : S → A → S) (I : S → Prop) (E : S → S → Prop)
    (P : A → Prop) : Prop where
  refl : ∀ s, E s s
  trans : ∀ s t u, E s t → E t u → E s u
  keeps : ∀ s a, I s → P a → I (act s a)
  congr : ∀ s t a, I s → I t → P a → E s t → E (act s a) (act t a)
  comm : ∀ s a b, I s → P a → P b → key a ≠ key b → E (act (act s a) b) (act (act s b) a)

variable {key : A → K} {act : S → A → S} {I : S → Prop} {E : S → S → Prop} {P : A → Prop}

omit [DecidableEq K] in
theorem Commutes.foldl_keeps (h : Commutes key act I E P) {l : List A} (hl : ∀ a ∈ l, P a) {s : S}
    (hs : I s) : I (l.foldl act s) := by
  induction l generalizing s with
  | nil => exact hs
  | cons a l ih =>
    exact ih (fun b hb => hl b (List.mem_cons_of_mem a hb)) (h.keeps s a hs (hl a List.mem_cons_self))

omit [DecidableEq K] in
/-- From like states, like runs. -/
theorem Commutes.foldl_congr (h : Commutes key act I E P) {l : List A} (hl : ∀ a ∈ l, P a) {s t : S}
    (hs : I s) (ht : I t) (hst : E s t) : E (l.foldl act s) (l.foldl act t) := by
  induction l generalizing s t with
  | nil => exact hst
  | cons a l ih =>
    have ha := hl a List.mem_cons_self
    exact ih (fun b hb => hl b (List.mem_cons_of_mem a hb)) (h.keeps s a hs ha) (h.keeps t a ht ha)
      (h.congr s t a hs ht ha hst)

omit [DecidableEq K] in
/-- An action may wait for those of other keys. -/
theorem Commutes.foldl_swap (h : Commutes key act I E P) {l : List A} (hl : ∀ a ∈ l, P a) {a : A}
    (ha : P a) (hkey : ∀ b ∈ l, key b ≠ key a) {s : S} (hs : I s) :
    E (l.foldl act (act s a)) (act (l.foldl act s) a) := by
  induction l generalizing s with
  | nil => exact h.refl _
  | cons b l ih =>
    have hb := hl b List.mem_cons_self
    have hl' : ∀ c ∈ l, P c := fun c hc => hl c (List.mem_cons_of_mem b hc)
    have hswap := h.comm s a b hs ha hb (hkey b List.mem_cons_self).symm
    refine h.trans _ _ _ (h.foldl_congr hl' (h.keeps _ b (h.keeps s a hs ha) hb)
      (h.keeps _ a (h.keeps s b hs hb) ha) hswap) ?_
    exact ih hl' (fun c hc => hkey c (List.mem_cons_of_mem b hc)) (h.keeps s b hs hb)

/-- **Rearranged runs end alike.**  The induction is on the first run: its first action is the first
    of its key in the other, too, and what comes before it there is of other keys. -/
theorem Commutes.foldl_rearranged (h : Commutes key act I E P) {l l' : List A} (hl : ∀ a ∈ l, P a)
    (hll : Rearranged key l l') {s : S} (hs : I s) : E (l.foldl act s) (l'.foldl act s) := by
  induction l generalizing l' s with
  | nil =>
    rw [List.nil_perm.mp hll.perm]
    exact h.refl s
  | cons a l ih =>
    have ha := hl a List.mem_cons_self
    have hfirst : (l'.filter fun b => key b = key a) = a :: l.filter fun b => key b = key a := by
      rw [← hll.order (key a), List.filter_cons_of_pos (by simp)]
    obtain ⟨pre, post, rfl, hpre, -, hpost⟩ := List.filter_eq_cons_iff.mp hfirst
    have hkey : ∀ b ∈ pre, key b ≠ key a := fun b hb => by simpa using hpre b hb
    have hl' : ∀ b ∈ pre ++ a :: post, P b := fun b hb => hl b (hll.perm.mem_iff.mpr hb)
    have hfront : ∀ b ∈ pre, P b := fun b hb => hl' b (List.mem_append_left _ hb)
    have hback : ∀ b ∈ post, P b := fun b hb =>
      hl' b (List.mem_append_right _ (List.mem_cons_of_mem a hb))
    have hrest : Rearranged key l (pre ++ post) := by
      refine ⟨List.Perm.cons_inv (hll.perm.trans List.perm_middle), fun k => ?_⟩
      rw [List.filter_append]
      by_cases hk : key a = k
      · subst hk
        have hnone : (pre.filter fun b => key b = key a) = [] := List.filter_eq_nil_iff.mpr hpre
        rw [hnone, List.nil_append]
        exact hpost.symm
      · have horder := hll.order k
        rwa [List.filter_append, List.filter_cons_of_neg (by simpa using hk),
          List.filter_cons_of_neg (by simpa using hk)] at horder
    have hswap := h.foldl_swap hfront ha hkey hs
    have hrun := h.foldl_congr hback (h.foldl_keeps hfront (h.keeps s a hs ha))
      (h.keeps _ a (h.foldl_keeps hfront hs) ha) hswap
    rw [← List.foldl_append] at hrun
    rw [List.foldl_append, List.foldl_cons]
    exact h.trans _ _ _ (ih (fun b hb => hl b (List.mem_cons_of_mem a hb)) hrest (h.keeps s a hs ha))
      hrun

end DjangoFlaskKafka.Traces
