/-
  Books — what a table of labelled rows looks like from outside: under each key at most one entry,
  a LABEL and a record, no label twice.

  Three events describe the writes of a book:

  * `offer k a r` — enter `(a, r)` under `k`, unless something is entered there already;
  * `put k a r`   — enter `(a, r)` under `k`, whatever is there;
  * `drop a`      — strike out what carries the label `a`.

  `play` is what a READER of the events does with them, whatever order they reach it in.  The
  WRITER is held to more (`Allowed`): it offers a key once and under a free label, puts only what
  is entered and under a label no other key carries, and drops only labels in use.  On the writer's
  own order, then, reading back gives the writer's book; what happens in other orders is the
  subject of `Lib.Lanes`.
-/
import Mathlib.Data.List.Induction
import Mathlib.Logic.Function.Basic

namespace DjangoFlaskKafka.Books

universe u v w

/-- The writes of a book. -/
inductive Event (κ : Type u) (ν : Type v) (ρ : Type w) where
  | offer (key : κ) (label : ν) (record : ρ)
  | put (key : κ) (label : ν) (record : ρ)
  | drop (label : ν)

/-- Under each key at most one entry. -/
abbrev Book (κ : Type u) (ν : Type v) (ρ : Type w) := κ → Option (ν × ρ)

variable {κ : Type u} {ν : Type v} {ρ : Type w}

/-- Nothing entered. -/
def empty : Book κ ν ρ := fun _ => none

/-- No label is carried twice. -/
def Unique (b : Book κ ν ρ) : Prop :=
  ∀ k k' a r r', b k = some (a, r) → b k' = some (a, r') → k = k'

/-- The event enters something under `k` with the label `a`. -/
def Event.Writes (k : κ) (a : ν) : Event κ ν ρ → Prop
  | .offer k' a' _ => k' = k ∧ a' = a
  | .put k' a' _ => k' = k ∧ a' = a
  | .drop _ => False

/-- The event is a `put` under `k`. -/
def Event.Puts (k : κ) : Event κ ν ρ → Prop
  | .put k' _ _ => k' = k
  | _ => False

/-- The label an event names. -/
def Event.label : Event κ ν ρ → ν
  | .offer _ a _ => a
  | .put _ a _ => a
  | .drop a => a

variable [DecidableEq κ] [DecidableEq ν]

/-- What a reader does with an event. -/
def play (b : Book κ ν ρ) : Event κ ν ρ → Book κ ν ρ
  | .offer k a r => if (b k).isSome then b else Function.update b k (some (a, r))
  | .put k a r => Function.update b k (some (a, r))
  | .drop a => fun k => (b k).filter fun e => e.1 ≠ a

/-- What it does with one event after another. -/
def replay (b : Book κ ν ρ) (es : List (Event κ ν ρ)) : Book κ ν ρ := es.foldl play b

/-- No event on the way makes a label appear twice. -/
def Accepts : Book κ ν ρ → List (Event κ ν ρ) → Prop
  | _, [] => True
  | b, e :: es => Unique (play b e) ∧ Accepts (play b e) es

@[simp] theorem replay_nil (b : Book κ ν ρ) : replay b [] = b := rfl

@[simp] theorem replay_cons (b : Book κ ν ρ) (e : Event κ ν ρ) (es : List (Event κ ν ρ)) :
    replay b (e :: es) = replay (play b e) es := rfl

/-- Histories are replayed one after the other. -/
theorem replay_append (b : Book κ ν ρ) (es es' : List (Event κ ν ρ)) :
    replay b (es ++ es') = replay (replay b es) es' :=
  List.foldl_append

/-- And accepted so. -/
theorem accepts_append {b : Book κ ν ρ} {es es' : List (Event κ ν ρ)} :
    Accepts b (es ++ es') ↔ Accepts b es ∧ Accepts (replay b es) es' := by
  induction es generalizing b with
  | nil => simp [Accepts]
  | cons e es ih =>
    show Unique _ ∧ Accepts _ (es ++ es') ↔ (Unique _ ∧ Accepts _ es) ∧ _
    rw [ih, and_assoc]
    rfl

/-! ## One event -/

/-- An offer for an entry that is there does nothing. -/
theorem play_offer_of_isSome {b : Book κ ν ρ} {k : κ} (h : (b k).isSome) (a : ν) (r : ρ) :
    play b (.offer k a r) = b := if_pos h

/-- An offer for one that is not makes it. -/
theorem play_offer_of_none {b : Book κ ν ρ} {k : κ} (h : b k = none) (a : ν) (r : ρ) :
    play b (.offer k a r) = Function.update b k (some (a, r)) := if_neg (by simp [h])

theorem play_put (b : Book κ ν ρ) (k : κ) (a : ν) (r : ρ) :
    play b (.put k a r) = Function.update b k (some (a, r)) := rfl

/-- An event that neither drops nor writes under `k` leaves the entry there alone. -/
theorem play_of_not_writes {b : Book κ ν ρ} {e : Event κ ν ρ} {k : κ}
    (hdrop : ∀ a, e ≠ .drop a) (hk : ∀ a, ¬ e.Writes k a) : play b e k = b k := by
  cases e with
  | offer k' a r =>
    have hne : k ≠ k' := fun h => hk a ⟨h.symm, rfl⟩
    by_cases hb : (b k').isSome
    · rw [play_offer_of_isSome hb]
    · rw [play_offer_of_none (Option.not_isSome_iff_eq_none.mp hb), Function.update_of_ne hne]
  | put k' a r => exact Function.update_of_ne (fun h => hk a ⟨h.symm, rfl⟩) _ _
  | drop a => exact absurd rfl (hdrop a)

/-- An offer is about its own key. -/
theorem play_offer_of_ne (b : Book κ ν ρ) {k k' : κ} (h : k' ≠ k) (a : ν) (r : ρ) :
    play b (.offer k' a r) k = b k :=
  play_of_not_writes (fun _ => by simp) fun _ hw => h hw.1

/-- So is a put. -/
theorem play_put_of_ne (b : Book κ ν ρ) {k k' : κ} (h : k' ≠ k) (a : ν) (r : ρ) :
    play b (.put k' a r) k = b k :=
  Function.update_of_ne h.symm _ _

/-- An entry stays until it is dropped or put over. -/
theorem play_kept {b : Book κ ν ρ} {e : Event κ ν ρ} {k : κ} {x : ν × ρ} (hk : b k = some x)
    (hdrop : ∀ a, e ≠ .drop a) (hput : ¬ e.Puts k) : play b e k = some x := by
  cases e with
  | offer k' a r =>
    by_cases hb : (b k').isSome
    · rw [play_offer_of_isSome hb, hk]
    · have hnone := Option.not_isSome_iff_eq_none.mp hb
      have hne : k ≠ k' := by
        rintro rfl
        rw [hk] at hnone
        exact absurd hnone (by simp)
      rw [play_offer_of_none hnone, Function.update_of_ne hne, hk]
  | put k' a r =>
    exact (Function.update_of_ne (fun h => hput h.symm) _ _).trans hk
  | drop a => exact absurd rfl (hdrop a)

/-- Once an event has written under `k`, something is entered there. -/
theorem play_writes {b : Book κ ν ρ} {e : Event κ ν ρ} {k : κ} {a : ν} (h : e.Writes k a) :
    (play b e k).isSome := by
  cases e with
  | offer k' a' r =>
    obtain ⟨rfl, rfl⟩ := h
    by_cases hb : (b k').isSome
    · rwa [play_offer_of_isSome hb]
    · rw [play_offer_of_none (Option.not_isSome_iff_eq_none.mp hb), Function.update_self]; rfl
  | put k' a' r =>
    obtain ⟨rfl, rfl⟩ := h
    show (Function.update b k' _ k').isSome
    rw [Function.update_self]; rfl
  | drop a' => exact h.elim

/-- Only a drop takes an entry away. -/
theorem play_isSome {b : Book κ ν ρ} {e : Event κ ν ρ} {k : κ} (hk : (b k).isSome)
    (hdrop : ∀ a, e ≠ .drop a) : (play b e k).isSome := by
  by_cases hput : e.Puts k
  · cases e with
    | put k' a r => exact play_writes ⟨hput, rfl⟩
    | offer k' a r => exact hput.elim
    | drop a => exact hput.elim
  · obtain ⟨x, hx⟩ := Option.isSome_iff_exists.mp hk
    rw [play_kept hx hdrop hput]; rfl

/-! ## Many events, none of them a drop -/

/-- An entry that nothing writes or drops stays. -/
theorem replay_kept {b : Book κ ν ρ} {es : List (Event κ ν ρ)} {k : κ} {x : ν × ρ}
    (hk : b k = some x) (hdrop : ∀ a, .drop a ∉ es) (hput : ∀ e ∈ es, ¬ e.Puts k) :
    replay b es k = some x := by
  induction es generalizing b with
  | nil => exact hk
  | cons e es ih =>
    refine ih (play_kept hk (fun a h => hdrop a (h ▸ List.mem_cons_self)) (hput e List.mem_cons_self))
      (fun a h => hdrop a (List.mem_cons_of_mem e h))
      fun e' he' => hput e' (List.mem_cons_of_mem e he')

theorem replay_isSome {b : Book κ ν ρ} {es : List (Event κ ν ρ)} {k : κ} (hk : (b k).isSome)
    (hdrop : ∀ a, .drop a ∉ es) : (replay b es k).isSome := by
  induction es generalizing b with
  | nil => exact hk
  | cons e es ih =>
    exact ih (play_isSome hk fun a h => hdrop a (h ▸ List.mem_cons_self))
      fun a h => hdrop a (List.mem_cons_of_mem e h)

theorem replay_writes {b : Book κ ν ρ} {es : List (Event κ ν ρ)} {k : κ} {a : ν}
    {e : Event κ ν ρ} (he : e ∈ es) (h : e.Writes k a) (hdrop : ∀ a, .drop a ∉ es) :
    (replay b es k).isSome := by
  obtain ⟨pre, post, rfl⟩ := List.append_of_mem he
  rw [replay_append, replay_cons]
  exact replay_isSome (play_writes h) fun a h => hdrop a (by simp [h])

/-- What nothing writes stays unentered. -/
theorem replay_none {b : Book κ ν ρ} {es : List (Event κ ν ρ)} {k : κ} (hk : b k = none)
    (h : ∀ e ∈ es, ∀ a, ¬ e.Writes k a) : replay b es k = none := by
  induction es generalizing b with
  | nil => exact hk
  | cons e es ih =>
    refine ih ?_ fun e' he' => h e' (List.mem_cons_of_mem e he')
    by_cases hdrop : ∃ a, e = .drop a
    · obtain ⟨a, rfl⟩ := hdrop
      show (b k).filter _ = none
      rw [hk]; rfl
    · rw [play_of_not_writes (fun a ha => hdrop ⟨a, ha⟩) (h e List.mem_cons_self), hk]

/-! ## The writer -/

/-- What the writer may do next, after the events `past`. -/
def Allowed (past : List (Event κ ν ρ)) : Event κ ν ρ → Prop
  | .offer k a _ => (∀ e ∈ past, ∀ a', ¬ e.Writes k a') ∧ ∀ k' r', replay empty past k' ≠ some (a, r')
  | .put k a _ => (replay empty past k).isSome ∧
      ∀ k' r', replay empty past k' = some (a, r') → k' = k
  | .drop a => ∃ k r, replay empty past k = some (a, r)

omit [DecidableEq ν] in
/-- Entering `(a, r)` under `k` meets no label twice, so no other key carries `a`. -/
theorem free_of_unique {b : Book κ ν ρ} {k k' : κ} {a : ν} {r r' : ρ}
    (h : Unique (Function.update b k (some (a, r)))) (hk' : b k' = some (a, r')) : k' = k := by
  by_contra hne
  exact hne (h k' k a r' r (by rw [Function.update_of_ne hne, hk']) (by rw [Function.update_self]))

/-- The writer may offer what it has never written if that meets no label twice. -/
theorem allowed_offer {past : List (Event κ ν ρ)} {k : κ} {a : ν} {r : ρ}
    (hnew : ∀ e ∈ past, ∀ a', ¬ e.Writes k a')
    (h : Unique (play (replay empty past) (.offer k a r))) : Allowed past (.offer k a r) := by
  have hnone : replay empty past k = none := replay_none rfl hnew
  rw [play_offer_of_none hnone] at h
  refine ⟨hnew, fun k' r' hk' => ?_⟩
  obtain rfl := free_of_unique h hk'
  rw [hnone] at hk'
  exact absurd hk' (by simp)

/-- The writer may put what is entered if that meets no label twice. -/
theorem allowed_put {past : List (Event κ ν ρ)} {k : κ} {a : ν} {r : ρ}
    (hk : (replay empty past k).isSome) (h : Unique (play (replay empty past) (.put k a r))) :
    Allowed past (.put k a r) :=
  ⟨hk, fun _ _ hk' => free_of_unique h hk'⟩

/-- The histories of the writer. -/
inductive Legal : List (Event κ ν ρ) → Prop
  | nil : Legal []
  | snoc {es : List (Event κ ν ρ)} {e : Event κ ν ρ} : Legal es → Allowed es e → Legal (es ++ [e])

/-- Every event of a legal history was allowed when it came. -/
theorem Legal.allowed {es : List (Event κ ν ρ)} (h : Legal es) {pre post : List (Event κ ν ρ)}
    {e : Event κ ν ρ} (hes : es = pre ++ e :: post) : Allowed pre e := by
  induction h generalizing post with
  | nil => exact absurd hes.symm (by simp)
  | @snoc es' e' hlegal hallowed ih =>
    induction post using List.reverseRecOn with
    | nil =>
      obtain ⟨rfl, heq⟩ := List.append_inj' hes rfl
      obtain rfl : e' = e := by simpa using heq
      exact hallowed
    | append_singleton post x _ =>
      have hsplit : es' ++ [e'] = (pre ++ e :: post) ++ [x] := by simpa using hes
      exact ih (List.append_inj' hsplit rfl).1

/-- The beginning of a legal history is legal. -/
theorem Legal.of_append {es : List (Event κ ν ρ)} (h : Legal es) {pre post : List (Event κ ν ρ)}
    (hes : es = pre ++ post) : Legal pre := by
  induction h generalizing post with
  | nil =>
    obtain ⟨rfl, -⟩ := List.append_eq_nil_iff.mp hes.symm
    exact .nil
  | @snoc es' e' hlegal hallowed ih =>
    induction post using List.reverseRecOn with
    | nil =>
      rw [List.append_nil] at hes
      exact hes ▸ .snoc hlegal hallowed
    | append_singleton post x _ =>
      have hsplit : es' ++ [e'] = (pre ++ post) ++ [x] := by rw [hes, List.append_assoc]
      exact ih (List.append_inj' hsplit rfl).1

/-- The writer's own book never has a label twice. -/
theorem Legal.unique {es : List (Event κ ν ρ)} (h : Legal es) : Unique (replay empty es) := by
  induction h with
  | nil => exact fun k k' a r r' h => absurd h (by simp [empty])
  | @snoc es e hlegal hallowed ih =>
    rw [replay_append, replay_cons, replay_nil]
    -- the label an entry under `k` may carry is carried by no other key
    have hupdate : ∀ k a r, (∀ k' r', replay empty es k' = some (a, r') → k' = k) →
        Unique (Function.update (replay empty es) k (some (a, r))) := by
      intro k a r hfree k₁ k₂ a' r₁ r₂ h₁ h₂
      by_cases e₁ : k₁ = k <;> by_cases e₂ : k₂ = k
      · rw [e₁, e₂]
      · rw [e₁, Function.update_self] at h₁
        rw [Function.update_of_ne e₂] at h₂
        obtain ⟨rfl, rfl⟩ := Prod.mk.inj (Option.some.inj h₁)
        exact e₁.trans (hfree k₂ r₂ h₂).symm
      · rw [Function.update_of_ne e₁] at h₁
        rw [e₂, Function.update_self] at h₂
        obtain ⟨rfl, rfl⟩ := Prod.mk.inj (Option.some.inj h₂)
        exact (hfree k₁ r₁ h₁).trans e₂.symm
      · rw [Function.update_of_ne e₁] at h₁
        rw [Function.update_of_ne e₂] at h₂
        exact ih k₁ k₂ a' r₁ r₂ h₁ h₂
    cases e with
    | offer k a r =>
      by_cases hk : (replay empty es k).isSome
      · rwa [play_offer_of_isSome hk]
      · rw [play_offer_of_none (Option.not_isSome_iff_eq_none.mp hk)]
        exact hupdate k a r fun k' r' h => absurd h (hallowed.2 k' r')
    | put k a r => exact hupdate k a r hallowed.2
    | drop a =>
      intro k₁ k₂ a' r₁ r₂ h₁ h₂
      exact ih k₁ k₂ a' r₁ r₂ (Option.filter_eq_some_iff.mp h₁).1 (Option.filter_eq_some_iff.mp h₂).1

/-- A key that the writer puts has been offered before. -/
theorem Legal.offered {es : List (Event κ ν ρ)} (h : Legal es) {k : κ}
    (hk : (replay empty es k).isSome) : ∃ a r, .offer k a r ∈ es := by
  induction h with
  | nil => exact absurd hk (by simp [empty])
  | @snoc es e hlegal hallowed ih =>
    rw [replay_append, replay_cons, replay_nil] at hk
    by_cases hold : (replay empty es k).isSome
    · obtain ⟨a, r, hin⟩ := ih hold
      exact ⟨a, r, List.mem_append_left _ hin⟩
    · cases e with
      | offer k' a r =>
        by_cases hkk : k' = k
        · exact ⟨a, r, hkk ▸ List.mem_append_right _ List.mem_cons_self⟩
        · rw [play_offer_of_ne _ hkk] at hk
          exact absurd hk hold
      | put k' a r =>
        by_cases hkk : k' = k
        · exact absurd (hkk ▸ hallowed.1) hold
        · rw [play_put_of_ne _ hkk] at hk
          exact absurd hk hold
      | drop a => exact absurd hk (by simp [play, Option.not_isSome_iff_eq_none.mp hold])

end DjangoFlaskKafka.Books
