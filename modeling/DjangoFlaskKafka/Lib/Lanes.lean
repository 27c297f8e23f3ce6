/-
  Lanes — a history of events that travels in several first-in-first-out lanes.

  1. **Deliveries** — an event is known by its position in the history; `lane` says which lane it
     takes.  A `Delivery` is an order in which a reader can receive all of them: any order that keeps
     each lane's own.  Nothing is said of how the lanes are read against each other, so whoever
     reads one lane to its end before the next is a reader as well.

  2. **Law** (`Agrees`) — a delivery is as good as the history itself: played in that order the
     events meet no label twice on the way, and end in the writer's book (`Lib.Books`).  Lanes are
     given by the KIND of an event (offers, puts and drops travel apart) and by the part of the
     label space its label falls into.

  3. **Crux** (`agrees_iff`) — all deliveries of a legal history agree with it exactly when the
     history meets four conditions (`Orderly`):

     * nothing is dropped                    (else the drop may arrive before what it drops);
     * the puts under one key share a lane   (else an old put may arrive last);
     * no offer takes a label used before    (else it may arrive before the old entry has moved away);
     * a put takes a label that another key has used only if it shares the lane of that key's puts
       (for the same reason).

     That they are enough is an invariant: under every key, what has been played is the LATEST put
     received, or the offer when there is none (`Latest`).  Every delivery receives all positions,
     so all of them have the same latest in the end; and on the way two keys never have one label,
     since the put by which the first of them gave it up is in the lane of the second.  That they
     are needed is four orders, all of one shape: the history up to some event, then one set of
     lanes ahead of the others (`ahead`).
-/
import DjangoFlaskKafka.Lib.Books
import Mathlib.Data.List.Range

namespace DjangoFlaskKafka.Lanes

open Books

universe u v w x

/-! ## Deliveries -/

section Delivery

variable {Λ : Type x}

/-- An order of the positions below `n` that keeps every lane's own. -/
structure Delivery (lane : Nat → Λ) (n : Nat) (d : List Nat) : Prop where
  perm : d.Perm (List.range n)
  fifo : d.Pairwise fun i j => lane i = lane j → i < j

variable {lane : Nat → Λ} {n : Nat} {d : List Nat}

theorem Delivery.mem (h : Delivery lane n d) {i : Nat} : i ∈ d ↔ i < n := by
  rw [h.perm.mem_iff, List.mem_range]

/-- Which positions share a lane is all that matters of the lanes. -/
theorem Delivery.congr {Λ' : Type w} {lane' : Nat → Λ'} (h : Delivery lane n d)
    (hlane : ∀ i j, lane' i = lane' j → lane i = lane j) : Delivery lane' n d :=
  ⟨h.perm, h.fifo.imp fun hij heq => hij (hlane _ _ heq)⟩

/-- What has been received is closed under going back in a lane. -/
theorem Delivery.closed (h : Delivery lane n d) {d₁ d₂ : List Nat} (hd : d = d₁ ++ d₂) {i j : Nat}
    (hi : i ∈ d₁) (hji : j < i) (hlane : lane j = lane i) : j ∈ d₁ := by
  have hin : i < n := h.mem.mp (hd ▸ List.mem_append_left d₂ hi)
  have hj : j ∈ d₁ ++ d₂ := hd ▸ h.mem.mpr (Nat.lt_trans hji hin)
  refine (List.mem_append.mp hj).resolve_right fun hj₂ => ?_
  have hfifo := h.fifo
  rw [hd] at hfifo
  have hij : i < j := (List.pairwise_append.mp hfifo).2.2 i hi j hj₂ hlane.symm
  omega

/-- In its lane, the next one received comes after all received before. -/
theorem Delivery.next (h : Delivery lane n d) {d₁ d₂ : List Nat} {i : Nat}
    (hd : d = (d₁ ++ [i]) ++ d₂) {j : Nat} (hj : j ∈ d₁) (hlane : lane j = lane i) : j < i := by
  have hfifo := h.fifo
  rw [hd] at hfifo
  exact (List.pairwise_append.mp (List.pairwise_append.mp hfifo).1).2.2 j hj i List.mem_cons_self
    hlane

theorem fifo_of_lt {l : List Nat} (h : l.Pairwise (· < ·)) :
    l.Pairwise fun i j => lane i = lane j → i < j := by
  refine h.imp ?_
  intro i j hij _
  exact hij

/-- The history's own order. -/
theorem delivery_range (lane : Nat → Λ) (n : Nat) : Delivery lane n (List.range n) :=
  ⟨.refl _, fifo_of_lt List.pairwise_lt_range⟩

/-- The first `m` in order, then those that satisfy `p` before the others. -/
def ahead (n m : Nat) (p : Nat → Bool) : List Nat :=
  List.range m ++ ((List.range' m (n - m)).filter p ++ (List.range' m (n - m)).filter fun i => !p i)

/-- It keeps every lane's own order, if a lane goes ahead as a whole or not at all. -/
theorem delivery_ahead {m : Nat} (hm : m ≤ n) {p : Nat → Bool}
    (hp : ∀ i j, lane i = lane j → p i = p j) : Delivery lane n (ahead n m p) := by
  have hmono : (List.range' m (n - m)).Pairwise (· < ·) := List.pairwise_lt_range'
  refine ⟨?_, ?_⟩
  · have hsplit : List.range m ++ List.range' m (n - m) = List.range n := by
      have happend : List.range' 0 m ++ List.range' (0 + m) (n - m) = List.range' 0 (m + (n - m)) :=
        List.range'_append_1
      rwa [Nat.zero_add, Nat.add_sub_cancel' hm, ← List.range_eq_range', ← List.range_eq_range']
        at happend
    exact hsplit ▸ (List.filter_append_perm p _).append_left _
  · refine List.pairwise_append.mpr ⟨fifo_of_lt List.pairwise_lt_range,
      List.pairwise_append.mpr ⟨fifo_of_lt (hmono.filter _), fifo_of_lt (hmono.filter _), ?_⟩, ?_⟩
    · -- one that goes ahead and one that does not are in different lanes
      intro i hi j hj hlane
      have h₁ := (List.mem_filter.mp hi).2
      have h₂ := (List.mem_filter.mp hj).2
      rw [hp i j hlane] at h₁
      simp [h₁] at h₂
    · -- the first `m` come before all others anyway
      intro i hi j hj _
      have hlow : ∀ q : Nat → Bool, j ∈ (List.range' m (n - m)).filter q → m ≤ j := fun q h =>
        (List.mem_range'_1.mp (List.mem_filter.mp h).1).1
      have him : i < m := List.mem_range.mp hi
      rcases List.mem_append.mp hj with hj | hj <;> exact Nat.lt_of_lt_of_le him (hlow _ hj)

end Delivery

/-! ## The events at given positions -/

section Pick

variable {α : Type u}

/-- The events at the positions `d`, in that order. -/
def pick (es : List α) (d : List Nat) : List α := d.filterMap fun i => es[i]?

theorem pick_append (es : List α) (d d' : List Nat) :
    pick es (d ++ d') = pick es d ++ pick es d' := List.filterMap_append

theorem pick_singleton {es : List α} {i : Nat} {e : α} (h : es[i]? = some e) :
    pick es [i] = [e] := by
  simp [pick, h]

theorem mem_pick {es : List α} {d : List Nat} {e : α} :
    e ∈ pick es d ↔ ∃ i ∈ d, es[i]? = some e := List.mem_filterMap

theorem pick_range (es : List α) : ∀ m, pick es (List.range m) = es.take m
  | 0 => rfl
  | m + 1 => by
    rw [List.range_succ, pick_append, pick_range es m, List.take_add_one]
    cases h : es[m]? with
    | none => simp [pick, h]
    | some e => rw [pick_singleton h]; rfl

theorem pick_all (es : List α) : pick es (List.range es.length) = es := by
  rw [pick_range, List.take_length]

end Pick

/-! ## Histories and their lanes -/

section Histories

variable {κ : Type u} {ν : Type v} {ρ : Type w} {π : Type x} [DecidableEq κ] [DecidableEq ν]

/-- What travels apart. -/
inductive Kind where
  | offers
  | puts
  | drops
  deriving DecidableEq

/-- The kind of an event. -/
def kind : Event κ ν ρ → Kind
  | .offer _ _ _ => .offers
  | .put _ _ _ => .puts
  | .drop _ => .drops

/-- The lane of the event at a position: its kind, and the part its label falls into. -/
def lane (part : ν → π) (es : List (Event κ ν ρ)) (i : Nat) : Option (Kind × π) :=
  es[i]?.map fun e => (kind e, part e.label)

/-- Receiving the events in the order `d` meets no label twice and ends in the writer's book. -/
def Agrees (es : List (Event κ ν ρ)) (d : List Nat) : Prop :=
  Accepts empty (pick es d) ∧ replay empty (pick es d) = replay empty es

/-- The event at `i` is a `put` under `k`. -/
def PutsAt (es : List (Event κ ν ρ)) (k : κ) (i : Nat) : Prop := ∃ a r, es[i]? = some (.put k a r)

/-- **The histories no delivery can spoil.** -/
structure Orderly (part : ν → π) (es : List (Event κ ν ρ)) : Prop where
  no_drop : ∀ a, .drop a ∉ es
  one_lane : ∀ k a r a' r', .put k a r ∈ es → .put k a' r' ∈ es → part a = part a'
  fresh : ∀ (i j : Nat) (e : Event κ ν ρ) k a r, i < j → es[i]? = some e →
    es[j]? = some (.offer k a r) → e.label ≠ a
  handover : ∀ (i j : Nat) (e : Event κ ν ρ) k k' a r a' r', i < j → es[i]? = some e →
    es[j]? = some (.put k a r) → e.Writes k' a → k' ≠ k → .put k' a' r' ∈ es → part a' = part a

variable {part : ν → π} {es : List (Event κ ν ρ)}

omit [DecidableEq κ] [DecidableEq ν] in
theorem eq_take_append {i : Nat} {e : Event κ ν ρ} (h : es[i]? = some e) :
    es = es.take i ++ e :: es.drop (i + 1) := by
  obtain ⟨hi, he⟩ := List.getElem?_eq_some_iff.mp h
  rw [← he, ← List.drop_eq_getElem_cons hi, List.take_append_drop]

omit [DecidableEq κ] [DecidableEq ν] in
theorem not_mem_take {i : Nat} {e : Event κ ν ρ} (h : e ∉ es) : e ∉ es.take i :=
  fun hin => h (List.mem_of_mem_take hin)

omit [DecidableEq κ] [DecidableEq ν] in
theorem not_mem_pick {d : List Nat} {e : Event κ ν ρ} (h : e ∉ es) : e ∉ pick es d := by
  intro hin
  obtain ⟨i, -, hi⟩ := mem_pick.mp hin
  exact h (List.mem_of_getElem? hi)

omit [DecidableEq κ] [DecidableEq ν] in
/-- An event writes under one key, and its label. -/
theorem label_of_writes {e : Event κ ν ρ} {k : κ} {a : ν} (h : e.Writes k a) : e.label = a := by
  cases e with
  | offer k' a' r => exact h.2
  | put k' a' r => exact h.2
  | drop a' => exact h.elim

omit [DecidableEq κ] [DecidableEq ν] in
theorem key_of_writes {e : Event κ ν ρ} {k k' : κ} {a a' : ν} (h : e.Writes k a)
    (h' : e.Writes k' a') : k = k' := by
  cases e with
  | offer k₁ a₁ r => exact h.1.symm.trans h'.1
  | put k₁ a₁ r => exact h.1.symm.trans h'.1
  | drop a₁ => exact h.elim

/-- The writer was allowed each event after those before it. -/
theorem allowed_at (hlegal : Legal es) {i : Nat} {e : Event κ ν ρ} (h : es[i]? = some e) :
    Allowed (es.take i) e := hlegal.allowed (eq_take_append h)

/-- In the history itself, writing under a key enters what is written. -/
theorem replay_at (hlegal : Legal es) {i : Nat} {e : Event κ ν ρ} {k : κ} {a : ν}
    (h : es[i]? = some e) (hw : e.Writes k a) :
    ∃ r, replay empty (es.take (i + 1)) k = some (a, r) := by
  have hallowed := allowed_at hlegal h
  rw [List.take_add_one, h, replay_append]
  show ∃ r, play _ e k = _
  cases e with
  | offer k' a' r =>
    obtain ⟨rfl, rfl⟩ := hw
    have hnone : replay empty (es.take i) k' = none := replay_none rfl hallowed.1
    exact ⟨r, by rw [play_offer_of_none hnone, Function.update_self]⟩
  | put k' a' r =>
    obtain ⟨rfl, rfl⟩ := hw
    exact ⟨r, Function.update_self ..⟩
  | drop a' => exact hw.elim

/-- A key whose label is written under another key has been put in between. -/
theorem exists_put_between (hlegal : Legal es) (hdrop : ∀ a, .drop a ∉ es) {i j : Nat}
    {e e' : Event κ ν ρ} {k k' : κ} {a : ν} (hij : i < j) (hi : es[i]? = some e)
    (hw : e.Writes k a) (hj : es[j]? = some e') (hw' : e'.Writes k' a) (hne : k ≠ k') :
    ∃ m, i < m ∧ m < j ∧ PutsAt es k m := by
  by_contra hno
  obtain ⟨r, hr⟩ := replay_at hlegal hi hw
  have hsplit : es.take j = es.take (i + 1) ++ (es.take j).drop (i + 1) := by
    conv_lhs => rw [← List.take_append_drop (i + 1) (es.take j), List.take_take,
      Nat.min_eq_left hij]
  have hkept : replay empty (es.take j) k = some (a, r) := by
    rw [hsplit, replay_append]
    -- nothing puts the key between the two, so the label is still its own
    refine replay_kept hr (fun a' ha' => not_mem_take (hdrop a') (List.mem_of_mem_drop ha')) ?_
    intro x hx hput
    obtain ⟨n, hn⟩ := List.mem_iff_getElem?.mp hx
    rw [List.getElem?_drop, List.getElem?_take] at hn
    split at hn
    · rename_i hlt
      refine hno ⟨i + 1 + n, by omega, hlt, ?_⟩
      cases x with
      | put k₁ a₁ r₁ =>
        obtain rfl : k₁ = k := hput
        exact ⟨a₁, r₁, hn⟩
      | offer k₁ a₁ r₁ => exact hput.elim
      | drop a₁ => exact hput.elim
    · exact absurd hn (by simp)
  have hallowed := allowed_at hlegal hj
  cases e' with
  | offer k₁ a₁ r₁ =>
    obtain ⟨rfl, rfl⟩ := hw'
    exact hallowed.2 k r hkept
  | put k₁ a₁ r₁ =>
    obtain ⟨rfl, rfl⟩ := hw'
    exact hne (hallowed.2 k r hkept)
  | drop a₁ => exact hw'.elim

/-! ### Orderly histories agree -/

/-- Under `k` has been played what the position of the latest put received says, or of the offer
    when no put was received. -/
def Latest (es : List (Event κ ν ρ)) (received : List Nat) (k : κ) (a : ν) (r : ρ) : Prop :=
  (∃ i ∈ received, es[i]? = some (.put k a r) ∧ ∀ j ∈ received, PutsAt es k j → j ≤ i) ∨
    (∃ i ∈ received, es[i]? = some (.offer k a r)) ∧ ∀ j ∈ received, ¬ PutsAt es k j

omit [DecidableEq κ] [DecidableEq ν] in
/-- Receiving something that is no put under `k` does not change the latest. -/
theorem Latest.snoc {received : List Nat} {k : κ} {a : ν} {r : ρ} (h : Latest es received k a r)
    {i : Nat} (hi : ¬ PutsAt es k i) : Latest es (received ++ [i]) k a r := by
  rcases h with ⟨m, hm, hput, hmax⟩ | ⟨⟨m, hm, hoffer⟩, hno⟩
  · refine .inl ⟨m, List.mem_append_left _ hm, hput, fun j hj hputs => ?_⟩
    rcases List.mem_append.mp hj with hj | hj
    · exact hmax j hj hputs
    · exact absurd (List.mem_singleton.mp hj ▸ hputs) hi
  · refine .inr ⟨⟨m, List.mem_append_left _ hm, hoffer⟩, fun j hj => ?_⟩
    rcases List.mem_append.mp hj with hj | hj
    · exact hno j hj
    · exact List.mem_singleton.mp hj ▸ hi

omit [DecidableEq κ] [DecidableEq ν] in
/-- The latest was written by an event that no put received has come after. -/
theorem Latest.writer {received : List Nat} {k : κ} {a : ν} {r : ρ} (h : Latest es received k a r) :
    ∃ i ∈ received, ∃ e, es[i]? = some e ∧ e.Writes k a ∧ ∀ j ∈ received, PutsAt es k j → j ≤ i := by
  rcases h with ⟨i, hi, hput, hmax⟩ | ⟨⟨i, hi, hoffer⟩, hno⟩
  · exact ⟨i, hi, _, hput, ⟨rfl, rfl⟩, hmax⟩
  · exact ⟨i, hi, _, hoffer, ⟨rfl, rfl⟩, fun j hj hputs => absurd hputs (hno j hj)⟩

/-- **What has been played is the latest**, by induction on what has been received: puts under one
    key come in one lane, so a further one is always later than those before. -/
theorem latest_of_replay (ho : Orderly part es) {d : List Nat}
    (hd : Delivery (lane part es) es.length d) {d₁ d₂ : List Nat} (hsplit : d = d₁ ++ d₂) {k : κ}
    {a : ν} {r : ρ} (h : replay empty (pick es d₁) k = some (a, r)) : Latest es d₁ k a r := by
  induction d₁ using List.reverseRecOn generalizing d₂ a r with
  | nil => exact absurd h (by simp [pick, empty])
  | append_singleton d₁ i ih =>
    have hsplit' : d = d₁ ++ (i :: d₂) := by rw [hsplit, List.append_assoc]; rfl
    have hi : i < es.length := hd.mem.mp (hsplit ▸ by simp)
    have he : es[i]? = some es[i] := List.getElem?_eq_getElem hi
    rw [pick_append, pick_singleton he, replay_append, replay_cons, replay_nil] at h
    have hother : ¬ PutsAt es k i → replay empty (pick es d₁) k = some (a, r) →
        Latest es (d₁ ++ [i]) k a r := fun hno hold => (ih hsplit' hold).snoc hno
    cases hcase : es[i] with
    | drop a' => exact absurd (hcase ▸ List.getElem_mem hi) (ho.no_drop a')
    | offer k' a' r' =>
      rw [hcase] at h he
      have hno : ¬ PutsAt es k i := by rintro ⟨a₁, r₁, h₁⟩; rw [he] at h₁; cases h₁
      by_cases hold : (replay empty (pick es d₁) k').isSome
      · rw [play_offer_of_isSome hold] at h
        exact hother hno h
      · have hnone := Option.not_isSome_iff_eq_none.mp hold
        rw [play_offer_of_none hnone] at h
        by_cases hk : k = k'
        · -- the offer has been played, so nothing had been entered: no put has been received
          subst hk
          rw [Function.update_self] at h
          obtain ⟨rfl, rfl⟩ := Prod.mk.inj (Option.some.inj h)
          refine .inr ⟨⟨i, by simp, he⟩, fun j hj hputs => ?_⟩
          rcases List.mem_append.mp hj with hj | hj
          · obtain ⟨a₁, r₁, h₁⟩ := hputs
            exact hold (replay_writes (mem_pick.mpr ⟨j, hj, h₁⟩) (a := a₁) ⟨rfl, rfl⟩
              fun a₂ => not_mem_pick (ho.no_drop a₂))
          · exact hno (List.mem_singleton.mp hj ▸ hputs)
        · rw [Function.update_of_ne hk] at h
          exact hother hno h
    | put k' a' r' =>
      rw [hcase] at h he
      by_cases hk : k = k'
      · subst hk
        rw [play_put, Function.update_self] at h
        obtain ⟨rfl, rfl⟩ := Prod.mk.inj (Option.some.inj h)
        refine .inl ⟨i, by simp, he, fun j hj hputs => ?_⟩
        rcases List.mem_append.mp hj with hj | hj
        · obtain ⟨a₁, r₁, h₁⟩ := hputs
          -- an earlier put of the key shares the lane, so it was received before
          have hpart := ho.one_lane k a₁ r₁ a' r' (List.mem_of_getElem? h₁)
            (List.mem_of_getElem? he)
          have hlane : lane part es j = lane part es i := by
            unfold lane
            rw [h₁, he]
            show some (Kind.puts, part a₁) = some (Kind.puts, part a')
            rw [hpart]
          exact Nat.le_of_lt (hd.next hsplit hj hlane)
        · exact Nat.le_of_eq (List.mem_singleton.mp hj)
      · have hno : ¬ PutsAt es k i := by
          rintro ⟨a₁, r₁, h₁⟩
          rw [he] at h₁
          exact hk (Event.put.inj (Option.some.inj h₁)).1.symm
        rw [play_put, Function.update_of_ne hk] at h
        exact hother hno h

/-- No label is met twice: the later writer of a label shares the lane of the put by which the
    earlier one gave it up. -/
theorem unique_received (hlegal : Legal es) (ho : Orderly part es) {d : List Nat}
    (hd : Delivery (lane part es) es.length d) {d₁ d₂ : List Nat} (hsplit : d = d₁ ++ d₂) :
    Unique (replay empty (pick es d₁)) := by
  -- of two writers of a label, the later in the history cannot have been received while the
  -- earlier is still the latest of its key
  have habsurd : ∀ i i' e e' k k' a, i < i' → es[i]? = some e → e.Writes k a →
      es[i']? = some e' → e'.Writes k' a → k ≠ k' → i' ∈ d₁ →
      (∀ j ∈ d₁, PutsAt es k j → j ≤ i) → False := by
    intro i i' e e' k k' a hlt hi hw hi' hw' hne hin hmax
    obtain ⟨m, him, hmi', a₁, r₁, hm⟩ := exists_put_between hlegal ho.no_drop hlt hi hw hi' hw' hne
    cases e' with
    | offer k₁ a₂ r₂ =>
      obtain ⟨rfl, rfl⟩ := hw'
      exact ho.fresh i i' e k₁ a₂ r₂ hlt hi hi' (label_of_writes hw)
    | put k₁ a₂ r₂ =>
      obtain ⟨rfl, rfl⟩ := hw'
      -- the put that gave the label up has been received, and it is later than the last
      have hpart := ho.handover i i' e k₁ k a₂ r₂ a₁ r₁ hlt hi hi' hw hne
        (List.mem_of_getElem? hm)
      have hlane : lane part es m = lane part es i' := by
        unfold lane
        rw [hm, hi']
        show some (Kind.puts, part a₁) = some (Kind.puts, part a₂)
        rw [hpart]
      have hmle := hmax m (hd.closed hsplit hin hmi' hlane) ⟨a₁, r₁, hm⟩
      omega
    | drop a₂ => exact hw'.elim
  intro k k' a r r' hk hk'
  by_contra hne
  obtain ⟨i, hi, e, hei, hw, hmax⟩ := (latest_of_replay ho hd hsplit hk).writer
  obtain ⟨i', hi', e', hei', hw', hmax'⟩ := (latest_of_replay ho hd hsplit hk').writer
  rcases Nat.lt_trichotomy i i' with hlt | rfl | hgt
  · exact habsurd i i' e e' k k' a hlt hei hw hei' hw' hne hi' hmax
  · obtain rfl : e = e' := Option.some.inj (hei.symm.trans hei')
    exact hne (key_of_writes hw hw')
  · exact habsurd i' i e' e k' k a hgt hei' hw' hei hw (Ne.symm hne) hi hmax'

omit [DecidableEq κ] [DecidableEq ν] in
/-- The same latest was received from the same positions. -/
theorem latest_inj (hoffers : ∀ (i j : Nat) (k : κ) (a : ν) (r : ρ) (a' : ν) (r' : ρ),
      es[i]? = some (.offer k a r) → es[j]? = some (.offer k a' r') → i = j)
    {d d' : List Nat} (hd : ∀ i, i ∈ d ↔ i ∈ d') {k : κ} {a a' : ν} {r r' : ρ}
    (h : Latest es d k a r) (h' : Latest es d' k a' r') : (a, r) = (a', r') := by
  rcases h with ⟨i, hi, hput, hmax⟩ | ⟨⟨i, hi, hoffer⟩, hno⟩ <;>
    rcases h' with ⟨i', hi', hput', hmax'⟩ | ⟨⟨i', hi', hoffer'⟩, hno'⟩
  · have hle := hmax i' ((hd i').mpr hi') ⟨a', r', hput'⟩
    have hle' := hmax' i ((hd i).mp hi) ⟨a, r, hput⟩
    obtain rfl : i = i' := by omega
    rw [hput] at hput'
    obtain ⟨-, rfl, rfl⟩ := Event.put.inj (Option.some.inj hput')
    rfl
  · exact absurd ⟨a, r, hput⟩ (hno' i ((hd i).mp hi))
  · exact absurd ⟨a', r', hput'⟩ (hno i' ((hd i').mpr hi'))
  · obtain rfl := hoffers i i' k a r a' r' hoffer hoffer'
    rw [hoffer] at hoffer'
    obtain ⟨-, rfl, rfl⟩ := Event.offer.inj (Option.some.inj hoffer')
    rfl

/-- A key is offered once. -/
theorem offer_unique (hlegal : Legal es) (i j : Nat) (k : κ) (a : ν) (r : ρ) (a' : ν) (r' : ρ)
    (hi : es[i]? = some (.offer k a r)) (hj : es[j]? = some (.offer k a' r')) : i = j := by
  have habsurd : ∀ (i j : Nat) (a : ν) (r : ρ) (a' : ν) (r' : ρ), i < j →
      es[i]? = some (.offer k a r) → es[j]? = some (.offer k a' r') → False := by
    intro i j a r a' r' hlt hi hj
    refine (allowed_at hlegal hj).1 (.offer k a r) ?_ a ⟨rfl, rfl⟩
    exact List.mem_of_getElem? (i := i) (by rw [List.getElem?_take_of_lt hlt, hi])
  rcases Nat.lt_trichotomy i j with hlt | rfl | hgt
  · exact (habsurd i j a r a' r' hlt hi hj).elim
  · rfl
  · exact (habsurd j i a' r' a r hgt hj hi).elim

/-- **The conditions are enough.** -/
theorem agrees_of_orderly (hlegal : Legal es) (ho : Orderly part es) {d : List Nat}
    (hd : Delivery (lane part es) es.length d) : Agrees es d := by
  refine ⟨?_, ?_⟩
  · have hall : ∀ d₁ d₂, d = d₁ ++ d₂ → Accepts empty (pick es d₁) := by
      intro d₁
      induction d₁ using List.reverseRecOn with
      | nil => exact fun _ _ => trivial
      | append_singleton d₁ i ih =>
        intro d₂ hsplit
        have hunique := unique_received hlegal ho hd hsplit
        have hi : i < es.length := hd.mem.mp (hsplit ▸ by simp)
        rw [pick_append, pick_singleton (List.getElem?_eq_getElem hi)] at hunique ⊢
        refine accepts_append.mpr ⟨ih (i :: d₂) (by simpa using hsplit), ?_, trivial⟩
        rwa [replay_append] at hunique
    exact hall d [] (by simp)
  · have hrange := delivery_range (lane part es) es.length
    have hmem : ∀ i, i ∈ d ↔ i ∈ List.range es.length := fun i => by rw [hd.mem, hrange.mem]
    -- both have played the same events, so they have entered the same keys
    have hkeys : ∀ k, replay empty (pick es d) k = none ↔ replay empty es k = none := by
      intro k
      have hwrites : ∀ l : List (Event κ ν ρ), (∀ a, .drop a ∉ l) →
          (replay empty l k = none ↔ ∀ e ∈ l, ∀ a, ¬ e.Writes k a) := fun l hl =>
        ⟨fun hnone e he a hw => by
          have hsome := replay_writes (b := empty) he hw hl
          rw [hnone] at hsome
          exact absurd hsome (by simp), fun h => replay_none rfl h⟩
      rw [hwrites _ fun a => not_mem_pick (ho.no_drop a), hwrites _ ho.no_drop]
      refine ⟨fun h e he => h e ?_, fun h e he => h e ?_⟩
      · obtain ⟨i, hi⟩ := List.mem_iff_getElem?.mp he
        exact mem_pick.mpr ⟨i, hd.mem.mpr (List.getElem?_eq_some_iff.mp hi).1, hi⟩
      · obtain ⟨i, -, hi⟩ := mem_pick.mp he
        exact List.mem_of_getElem? hi
    funext k
    cases h : replay empty (pick es d) k with
    | none => exact ((hkeys k).mp h).symm
    | some x =>
      cases h' : replay empty es k with
      | none => exact absurd ((hkeys k).mpr h') (by rw [h]; simp)
      | some y =>
        rw [← pick_all es] at h'
        have hx := latest_of_replay ho hd (List.append_nil d).symm (a := x.1) (r := x.2) h
        have hy := latest_of_replay ho hrange (List.append_nil _).symm (a := y.1) (r := y.2) h'
        exact congrArg some (latest_inj (offer_unique hlegal) hmem hx hy)

/-! ### Only orderly histories agree -/

/-- What has been struck out is never entered again. -/
theorem stays_dropped {pre post : List (Event κ ν ρ)} (hlegal : Legal (pre ++ post)) {k : κ} {a : ν}
    {r : ρ} (hoffer : .offer k a r ∈ pre) (hnone : replay empty pre k = none) :
    replay empty (pre ++ post) k = none := by
  induction post using List.reverseRecOn with
  | nil => rwa [List.append_nil]
  | append_singleton post e ih =>
    have hsplit : pre ++ (post ++ [e]) = (pre ++ post) ++ e :: [] := (List.append_assoc ..).symm
    have hallowed := hlegal.allowed hsplit
    have hold := ih (hlegal.of_append (List.append_assoc ..).symm)
    rw [hsplit, replay_append, replay_cons, replay_nil]
    cases e with
    | offer k' a' r' =>
      have hne : k' ≠ k := by
        rintro rfl
        exact hallowed.1 _ (List.mem_append_left post hoffer) a ⟨rfl, rfl⟩
      rw [play_offer_of_ne _ hne, hold]
    | put k' a' r' =>
      have hne : k' ≠ k := by
        rintro rfl
        exact absurd hallowed.1 (by simp [hold])
      rw [play_put_of_ne _ hne, hold]
    | drop a' => simp [play, hold]

/-- Drops strike nothing out of an empty book. -/
theorem replay_drops {l : List (Event κ ν ρ)} (h : ∀ e ∈ l, kind e = .drops) :
    replay empty l = empty := by
  induction l with
  | nil => rfl
  | cons e l ih =>
    have he := h e List.mem_cons_self
    cases e with
    | drop a => exact ih fun e' he' => h e' (List.mem_cons_of_mem _ he')
    | offer k a r => cases he
    | put k a r => cases he

/-- The last puts received decide. -/
theorem replay_puts {p : π} {b : Book κ ν ρ} {l : List (Event κ ν ρ)}
    (h : ∀ e ∈ l, kind e = .puts ∧ part e.label = p) {k : κ} {a : ν} {r : ρ}
    (hin : .put k a r ∈ l) : ∃ a' r', replay b l k = some (a', r') ∧ part a' = p := by
  induction l using List.reverseRecOn with
  | nil => exact absurd hin (by simp)
  | append_singleton l e ih =>
    obtain ⟨hkind, hpart⟩ := h e (by simp)
    cases e with
    | offer k' a' r' => cases hkind
    | drop a' => cases hkind
    | put k' a' r' =>
      rw [replay_append, replay_cons, replay_nil, play_put]
      by_cases hk : k = k'
      · exact ⟨a', r', by rw [hk, Function.update_self], hpart⟩
      · rw [Function.update_of_ne hk]
        refine ih (fun e he => h e (List.mem_append_left _ he)) ?_
        rcases List.mem_append.mp hin with hin | hin
        · exact hin
        · exact absurd (Event.put.inj (List.mem_singleton.mp hin)).1 hk

omit [DecidableEq κ] [DecidableEq ν] in
/-- Whether a lane goes ahead is asked of the lane. -/
theorem delivery_lanes (q : Option (Kind × π) → Bool) {m : Nat} (hm : m ≤ es.length) :
    Delivery (lane part es) es.length (ahead es.length m fun i => q (lane part es i)) :=
  delivery_ahead hm fun _ _ h => congrArg q h

/-- Drops that go ahead strike nothing out, and then what they should have struck out stays. -/
theorem no_drop_of_agrees (hlegal : Legal es)
    (h : ∀ d, Delivery (lane part es) es.length d → Agrees es d) (a : ν) : .drop a ∉ es := by
  intro hin
  obtain ⟨pre, post, hes⟩ := List.append_of_mem hin
  obtain ⟨k, r, hk⟩ := hlegal.allowed hes
  obtain ⟨a₀, r₀, hoffer⟩ := (hlegal.of_append hes).offered (k := k) (by rw [hk]; rfl)
  have hgone : replay empty es k = none := by
    have hes' : es = (pre ++ [.drop a]) ++ post := by rw [hes, List.append_assoc]; rfl
    rw [hes']
    refine stays_dropped (hes' ▸ hlegal) (List.mem_append_left _ hoffer) ?_
    rw [replay_append, replay_cons, replay_nil]
    show (replay empty pre k).filter _ = none
    rw [hk]
    simp
  -- the drops go ahead of everything
  let q : Option (Kind × π) → Bool := fun l => l.any fun x => x.1 = .drops
  have hagrees := (h _ (delivery_lanes q (Nat.zero_le es.length))).2
  have hq : ∀ i e, es[i]? = some e → (q (lane part es i) = true ↔ kind e = .drops) := by
    intro i e he
    simp [q, lane, he]
  have hpresent : (replay empty (pick es (ahead es.length 0 fun i => q (lane part es i))) k).isSome := by
    unfold ahead
    rw [List.range_zero, List.nil_append, pick_append, replay_append, replay_drops]
    · have hin₀ : .offer k a₀ r₀ ∈ es := hes ▸ List.mem_append_left _ hoffer
      obtain ⟨i, hi⟩ := List.mem_iff_getElem?.mp hin₀
      have hlt : i < es.length := (List.getElem?_eq_some_iff.mp hi).1
      refine replay_writes (mem_pick.mpr ⟨i, List.mem_filter.mpr ⟨?_, ?_⟩, hi⟩) (a := a₀) ⟨rfl, rfl⟩ ?_
      · exact List.mem_range'_1.mpr ⟨Nat.zero_le i, by omega⟩
      · have hnot : ¬ q (lane part es i) = true := by rw [hq i _ hi]; simp [kind]
        simpa using hnot
      · intro a' hin'
        obtain ⟨j, hj, hje⟩ := mem_pick.mp hin'
        have hnot : (!q (lane part es j)) = true := (List.mem_filter.mp hj).2
        rw [(hq j _ hje).mpr rfl] at hnot
        exact absurd hnot (by simp)
    · intro e he
      obtain ⟨j, hj, hje⟩ := mem_pick.mp he
      exact (hq j e hje).mp (List.mem_filter.mp hj).2
  rw [hagrees, hgone] at hpresent
  exact absurd hpresent (by simp)

/-- The lane of any put can come last. -/
theorem one_lane_of_agrees (h : ∀ d, Delivery (lane part es) es.length d → Agrees es d) (k : κ)
    (a : ν) (r : ρ) (a' : ν) (r' : ρ) (hput : .put k a r ∈ es) (hput' : .put k a' r' ∈ es) :
    part a = part a' := by
  classical
  -- any lane of puts may come last, and then decides where the key's label falls
  have hlast : ∀ a r, .put k a r ∈ es →
      ∃ a' r', replay empty es k = some (a', r') ∧ part a' = part a := by
    intro a r hput
    let q : Option (Kind × π) → Bool := fun l => l ≠ some (.puts, part a)
    have hagrees := (h _ (delivery_lanes q (Nat.zero_le es.length))).2
    rw [← hagrees]
    unfold ahead
    rw [List.range_zero, List.nil_append, pick_append, replay_append]
    refine replay_puts (fun e he => ?_) (r := r) (a := a) ?_
    · obtain ⟨j, hj, hje⟩ := mem_pick.mp he
      have hlane := (List.mem_filter.mp hj).2
      simp only [q, lane, hje, Option.map_some, ne_eq, decide_not, Bool.not_not, decide_eq_true_eq,
        Option.some.injEq, Prod.mk.injEq] at hlane
      exact hlane
    · obtain ⟨i, hi⟩ := List.mem_iff_getElem?.mp hput
      have hlt : i < es.length := (List.getElem?_eq_some_iff.mp hi).1
      refine mem_pick.mpr ⟨i, List.mem_filter.mpr ⟨?_, ?_⟩, hi⟩
      · exact List.mem_range'_1.mpr ⟨Nat.zero_le i, by omega⟩
      · simp [q, lane, hi, kind, Event.label]
  obtain ⟨a₁, r₁, h₁, hpart₁⟩ := hlast a r hput
  obtain ⟨a₂, r₂, h₂, hpart₂⟩ := hlast a' r' hput'
  obtain ⟨rfl, -⟩ := Prod.mk.inj (Option.some.inj (h₁.symm.trans h₂))
  exact hpart₁.symm.trans hpart₂

/-- The order that brings out a clash: up to the writer of a label, then ahead to the next one,
    while the put by which the first gives the label up waits in another lane. -/
theorem not_accepts_ahead (hlegal : Legal es) (hdrop : ∀ a, .drop a ∉ es) {i j : Nat}
    {e e' : Event κ ν ρ} {k k' : κ} {a : ν} (hij : i < j) (hi : es[i]? = some e)
    (hw : e.Writes k a) (hj : es[j]? = some e') (hw' : e'.Writes k' a) (hne : k ≠ k')
    {p : Nat → Bool} (hp : p j = true) (hwait : ∀ m, i < m → p m = true → ¬ PutsAt es k m) :
    ¬ Accepts empty (pick es (ahead es.length (i + 1) p)) := by
  have hlt : j < es.length := (List.getElem?_eq_some_iff.mp hj).1
  let mid := (List.range' (i + 1) (j - (i + 1))).filter p
  have hahead : ∃ rest, ahead es.length (i + 1) p = (List.range (i + 1) ++ mid) ++ j :: rest := by
    have hrange : List.range' (i + 1) (es.length - (i + 1))
        = List.range' (i + 1) (j - (i + 1)) ++ j :: List.range' (j + 1) (es.length - (j + 1)) := by
      have happend : List.range' (i + 1) (j - (i + 1)) ++ List.range' (i + 1 + (j - (i + 1)))
          (es.length - j) = List.range' (i + 1) (j - (i + 1) + (es.length - j)) :=
        List.range'_append_1
      have hlen : es.length - j = es.length - (j + 1) + 1 := by omega
      rw [show i + 1 + (j - (i + 1)) = j by omega, hlen, List.range'_succ, ← hlen,
        show j - (i + 1) + (es.length - j) = es.length - (i + 1) by omega] at happend
      exact happend.symm
    refine ⟨(List.range' (j + 1) (es.length - (j + 1))).filter p
      ++ (List.range' (i + 1) (es.length - (i + 1))).filter fun i => !p i, ?_⟩
    unfold ahead
    nth_rewrite 1 [hrange]
    rw [List.filter_append, List.filter_cons_of_pos hp, List.append_assoc, List.append_assoc,
      List.cons_append]
  have hmid : ∀ e₀ ∈ pick es mid, ∃ m, i < m ∧ m < j ∧ p m = true ∧ es[m]? = some e₀ := by
    intro e₀ he₀
    obtain ⟨m, hm, hme⟩ := mem_pick.mp he₀
    obtain ⟨hm, hpm⟩ := List.mem_filter.mp hm
    obtain ⟨h₁, h₂⟩ := List.mem_range'_1.mp hm
    exact ⟨m, by omega, by omega, hpm, hme⟩
  intro haccepts
  obtain ⟨rest, hrest⟩ := hahead
  rw [hrest, pick_append, pick_append, pick_range] at haccepts
  have hcons : pick es (j :: rest) = e' :: pick es rest := by simp [pick, hj]
  rw [hcons] at haccepts
  obtain ⟨hunique, -⟩ := (accepts_append.mp haccepts).2
  obtain ⟨r, hr⟩ := replay_at hlegal hi hw
  -- the first writer still has the label when the next one writes it
  have hkept : replay empty (es.take (i + 1) ++ pick es mid) k = some (a, r) := by
    rw [replay_append]
    refine replay_kept hr (fun a' => not_mem_pick (hdrop a')) fun e₀ he₀ hput => ?_
    obtain ⟨m, him, -, hpm, hme⟩ := hmid e₀ he₀
    refine hwait m him hpm ?_
    cases e₀ with
    | put k₁ a₁ r₁ =>
      obtain rfl : k₁ = k := hput
      exact ⟨a₁, r₁, hme⟩
    | offer k₁ a₁ r₁ => exact hput.elim
    | drop a₁ => exact hput.elim
  have hallowed := allowed_at hlegal hj
  cases e' with
  | drop a₁ => exact hw'.elim
  | put k₁ a₁ r₁ =>
    obtain ⟨rfl, rfl⟩ := hw'
    refine hne (hunique k k₁ a₁ r r₁ ?_ ?_)
    · rw [play_put, Function.update_of_ne hne, hkept]
    · rw [play_put, Function.update_self]
  | offer k₁ a₁ r₁ =>
    obtain ⟨rfl, rfl⟩ := hw'
    have hnone : replay empty (es.take (i + 1) ++ pick es mid) k₁ = none := by
      refine replay_none rfl fun e₀ he₀ => hallowed.1 e₀ ?_
      rcases List.mem_append.mp he₀ with he₀ | he₀
      · exact List.take_subset_take_left es hij he₀
      · obtain ⟨m, -, hmj, -, hme⟩ := hmid e₀ he₀
        exact List.mem_of_getElem? (i := m) (by rw [List.getElem?_take_of_lt hmj, hme])
    refine hne (hunique k k₁ a₁ r r₁ ?_ ?_) <;> rw [play_offer_of_none hnone]
    · rw [Function.update_of_ne hne, hkept]
    · rw [Function.update_self]

/-- **The conditions are needed.** -/
theorem orderly_of_agrees (hlegal : Legal es)
    (h : ∀ d, Delivery (lane part es) es.length d → Agrees es d) : Orderly part es := by
  classical
  have hdrop := no_drop_of_agrees hlegal h
  have hone := one_lane_of_agrees h
  refine ⟨hdrop, hone, ?_, ?_⟩
  · intro i j e k a r hij hi hj hlabel
    -- offers go ahead, so the label is offered while the earlier entry still carries it
    obtain ⟨k', hw⟩ : ∃ k', e.Writes k' a := by
      cases e with
      | offer k' a' r' => exact ⟨k', rfl, hlabel⟩
      | put k' a' r' => exact ⟨k', rfl, hlabel⟩
      | drop a' => exact absurd (List.mem_of_getElem? hi) (hdrop a')
    have hne : k' ≠ k := by
      rintro rfl
      exact (allowed_at hlegal hj).1 e
        (List.mem_of_getElem? (i := i) (by rw [List.getElem?_take_of_lt hij, hi])) a hw
    let q : Option (Kind × π) → Bool := fun l => l.any fun x => x.1 = .offers
    have hm : i + 1 ≤ es.length := by
      have := (List.getElem?_eq_some_iff.mp hj).1
      omega
    refine not_accepts_ahead hlegal hdrop hij hi hw hj ⟨rfl, rfl⟩ hne ?_ ?_
      (h _ (delivery_lanes q hm)).1
    · simp [q, lane, hj, kind]
    · rintro m - hpm ⟨a₁, r₁, hme⟩
      simp [q, lane, hme, kind] at hpm
  · intro i j e k k' a r a' r' hij hi hj hw hne hput
    by_contra hpart
    -- the lane of the later put goes ahead of that of the puts under `k'`
    let q : Option (Kind × π) → Bool := fun l => l = some (.puts, part a)
    have hm : i + 1 ≤ es.length := by
      have := (List.getElem?_eq_some_iff.mp hj).1
      omega
    refine not_accepts_ahead hlegal hdrop hij hi hw hj ⟨rfl, rfl⟩ hne ?_ ?_
      (h _ (delivery_lanes q hm)).1
    · simp [q, lane, hj, kind, Event.label]
    · rintro m - hpm ⟨a₁, r₁, hme⟩
      simp only [q, lane, hme, Option.map_some, decide_eq_true_eq, Option.some.injEq,
        Prod.mk.injEq] at hpm
      exact hpart ((hone k' a' r' a₁ r₁ hput (List.mem_of_getElem? hme)).trans hpm.2)

/-- **A history agrees with all its deliveries exactly when it is orderly.** -/
theorem agrees_iff (hlegal : Legal es) :
    (∀ d, Delivery (lane part es) es.length d → Agrees es d) ↔ Orderly part es :=
  ⟨orderly_of_agrees hlegal, fun ho _ hd => agrees_of_orderly hlegal ho hd⟩

end Histories

end DjangoFlaskKafka.Lanes
