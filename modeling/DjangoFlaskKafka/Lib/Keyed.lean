/-
  Keyed lists — a table as the list of its rows, with a key that no two rows share.

  `lookup key i l` reads the row with key `i`; `update key set l (i, b)` is `UPDATE … WHERE key = i`
  that writes `b` through `set`, and FAILS when no row matches (what an object mapper reports when
  the row it loaded is gone).

  Two laws are worth the module.  `foldlM_update`: updating, one statement after another, every
  row that satisfies `q` with a value computed from that row is the same as one pass over the
  table.  This is how a loop that assigns to each loaded row, and is flushed later, is read.
  `foldlM_update_perm`: updates of different rows may come in any order.
-/
import Mathlib.Data.List.Nodup

namespace DjangoFlaskKafka.Keyed

universe u v w

variable {α : Type u} {κ : Type v} {β : Type w} [DecidableEq κ] (key : α → κ)

/-- The row with key `i`. -/
def lookup (i : κ) (l : List α) : Option α := l.find? fun x => key x = i

/-- Apply `f` to the rows with key `i`. -/
def modify (i : κ) (f : α → α) (l : List α) : List α := l.map fun x => if key x = i then f x else x

/-- Write `b` into the row with key `i`, or fail when there is none. -/
def update (set : β → α → α) (l : List α) (u : κ × β) : Option (List α) :=
  if (lookup key u.1 l).isSome then some (modify key u.1 (set u.2) l) else none

variable {key}

/-! ## Looking up -/

/-- What is found has the key. -/
theorem lookup_key {i : κ} {l : List α} {x : α} (h : lookup key i l = some x) : key x = i := by
  simpa using List.find?_some h

/-- What is found is in the list. -/
theorem lookup_mem {i : κ} {l : List α} {x : α} (h : lookup key i l = some x) : x ∈ l :=
  List.mem_of_find?_eq_some h

/-- Nothing is found when no element has the key. -/
theorem lookup_eq_none_iff {i : κ} {l : List α} :
    lookup key i l = none ↔ ∀ x ∈ l, key x ≠ i := by
  simp [lookup, List.find?_eq_none]

/-- Something is found when an element has it. -/
theorem lookup_isSome_iff {i : κ} {l : List α} :
    (lookup key i l).isSome ↔ ∃ x ∈ l, key x = i := by
  simp [lookup, List.find?_isSome]

/-- With unique keys the lookup finds exactly the row that is there. -/
theorem lookup_eq_some_iff {l : List α} (hl : (l.map key).Nodup) {i : κ} {x : α} :
    lookup key i l = some x ↔ x ∈ l ∧ key x = i := by
  refine ⟨fun h => ⟨lookup_mem h, lookup_key h⟩, fun ⟨hx, hi⟩ => ?_⟩
  cases hy : lookup key i l with
  | none => exact absurd hi (lookup_eq_none_iff.mp hy x hx)
  | some y =>
    rw [List.inj_on_of_nodup_map hl (lookup_mem hy) hx ((lookup_key hy).trans hi.symm)]

/-- With unique keys it does not matter in which order the rows are kept. -/
theorem lookup_perm {l l' : List α} (h : l.Perm l') (hl : (l.map key).Nodup) (i : κ) :
    lookup key i l = lookup key i l' := by
  ext x
  rw [lookup_eq_some_iff hl, lookup_eq_some_iff ((h.map key).nodup_iff.mp hl), h.mem_iff]

/-- A map that keeps the keys is applied to what is found. -/
theorem lookup_map {f : α → α} (hf : ∀ x, key (f x) = key x) (i : κ) (l : List α) :
    lookup key i (l.map f) = (lookup key i l).map f := by
  simp only [lookup, List.find?_map, Function.comp_def, hf]

/-- The first list is asked first. -/
theorem lookup_append (i : κ) (l l' : List α) :
    lookup key i (l ++ l') = (lookup key i l).or (lookup key i l') :=
  List.find?_append

/-- So is the first element. -/
theorem lookup_cons (i : κ) (x : α) (l : List α) :
    lookup key i (x :: l) = if key x = i then some x else lookup key i l := by
  by_cases h : key x = i <;> simp [lookup, h]

/-- Rows that a filter drops are not found; the others are found as before. -/
theorem lookup_filter {q : α → Bool} {l : List α} (hl : (l.map key).Nodup) (i : κ) :
    lookup key i (l.filter q) = (lookup key i l).filter q := by
  have hl' : ((l.filter q).map key).Nodup := hl.sublist (List.filter_sublist.map key)
  ext x
  rw [lookup_eq_some_iff hl', Option.filter_eq_some_iff, lookup_eq_some_iff hl, List.mem_filter]
  tauto

/-! ## Updating -/

variable (key) in
/-- Modifying leaves the keys as they are. -/
theorem map_key_modify (i : κ) {f : α → α} (hf : ∀ x, key x = i → key (f x) = i) (l : List α) :
    (modify key i f l).map key = l.map key := by
  unfold modify
  rw [List.map_map]
  refine List.map_congr_left fun x _ => ?_
  by_cases h : key x = i <;> simp [h, hf]

/-- The row with key `i` is looked up changed, the others are looked up as before. -/
theorem lookup_modify {i : κ} {f : α → α} (hf : ∀ x, key x = i → key (f x) = i) (j : κ)
    (l : List α) :
    lookup key j (modify key i f l) = if j = i then (lookup key i l).map f else lookup key j l := by
  induction l with
  | nil => simp [modify, lookup]
  | cons x l ih =>
    show lookup key j ((if key x = i then f x else x) :: modify key i f l) = _
    rw [lookup_cons, ih, lookup_cons, lookup_cons]
    by_cases hx : key x = i
    · by_cases hj : j = i
      · simp [hx, hf, hj]
      · simp [hx, hf, hj, Ne.symm hj]
    · by_cases hj : j = i
      · simp [hx, hj]
      · simp [hx, hj]

/-- No row matches, nothing changes. -/
theorem modify_of_forall_ne {i : κ} (f : α → α) {l : List α} (h : ∀ x ∈ l, key x ≠ i) :
    modify key i f l = l := by
  have hid : modify key i f l = l.map id := List.map_congr_left fun x hx => if_neg (h x hx)
  rw [hid, List.map_id]

/-- Where keys are unique, it matters only what is made of the entry with the key. -/
theorem modify_congr {f g : α → α} {l : List α} (hl : (l.map key).Nodup) {x : α} (hx : x ∈ l)
    (h : f x = g x) : modify key (key x) f l = modify key (key x) g l := by
  refine List.map_congr_left fun y hy => ?_
  by_cases hkey : key y = key x
  · rw [if_pos hkey, if_pos hkey, List.inj_on_of_nodup_map hl hy hx hkey, h]
  · rw [if_neg hkey, if_neg hkey]

theorem modify_of_eq {f : α → α} {l : List α} (hl : (l.map key).Nodup) {x : α} (hx : x ∈ l)
    (h : f x = x) : modify key (key x) f l = l := by
  have hid : modify key (key x) id l = l :=
    (List.map_congr_left fun y _ => ite_self y).trans (List.map_id l)
  exact (modify_congr hl hx h).trans hid

/-- Lists are modified part by part. -/
theorem modify_append (i : κ) (f : α → α) (l l' : List α) :
    modify key i f (l ++ l') = modify key i f l ++ modify key i f l' :=
  List.map_append

variable (key) in
/-- A map that keeps the keys maps the change along. -/
theorem map_modify {β : Type w} (key' : β → κ) {g : α → β} (hg : ∀ x, key' (g x) = key x) (i : κ)
    {f : α → α} {f' : β → β} {l : List α} (hf : ∀ x ∈ l, key x = i → g (f x) = f' (g x)) :
    (modify key i f l).map g = modify key' i f' (l.map g) := by
  unfold modify
  rw [List.map_map, List.map_map]
  refine List.map_congr_left fun x hx => ?_
  by_cases h : key x = i
  · simp [hg, h, hf x hx h]
  · simp [hg, h]

variable (key) in
theorem update_of_mem {set : β → α → α} {i : κ} {l : List α} (hi : i ∈ l.map key) (b : β) :
    update key set l (i, b) = some (modify key i (set b) l) := by
  obtain ⟨x, hx, hxi⟩ := List.mem_map.mp hi
  unfold update
  rw [if_pos (lookup_isSome_iff.mpr ⟨x, hx, hxi⟩)]

variable (key) in
/-- The other rows do not notice. -/
theorem filter_ne_modify {i : κ} {f : α → α} (hf : ∀ x, key x = i → key (f x) = i) (l : List α) :
    (modify key i f l).filter (fun x => key x ≠ i) = l.filter fun x => key x ≠ i := by
  induction l with
  | nil => rfl
  | cons x l ih =>
    show ((if key x = i then f x else x) :: modify key i f l).filter _ = _
    by_cases h : key x = i
    · rw [if_pos h, List.filter_cons_of_neg (by simp [hf, h]), List.filter_cons_of_neg (by simp [h])]
      exact ih
    · rw [if_neg h, List.filter_cons_of_pos (by simp [h]), List.filter_cons_of_pos (by simp [h]), ih]

/-- **A loop over loaded rows is one pass over the table.**  The induction walks the table from the
    front: the rows already passed carry their new value, the rows ahead are untouched, and unique
    keys keep each statement off both. -/
theorem foldlM_update {set : β → α → α} (hset : ∀ b x, key (set b x) = key x) {l : List α}
    (hl : (l.map key).Nodup) (q : α → Bool) (g : α → β) :
    ((l.filter q).map fun x => (key x, g x)).foldlM (update key set) l
      = some (l.map fun x => if q x then set (g x) x else x) := by
  let h : α → α := fun x => if q x then set (g x) x else x
  have hkey : ∀ x, key (h x) = key x := by
    intro x
    by_cases hx : q x <;> simp [h, hx, hset]
  have walk : ∀ (todo done : List α), ((done ++ todo).map key).Nodup →
      ((todo.filter q).map fun x => (key x, g x)).foldlM (update key set) (done.map h ++ todo)
        = some ((done ++ todo).map h) := by
    intro todo
    induction todo with
    | nil => intro done _; simp
    | cons x todo ih =>
      intro done hnodup
      have hnext := ih (done ++ [x]) (by simpa using hnodup)
      rw [List.map_append, List.append_assoc, List.append_assoc] at hnext
      by_cases hx : q x
      · have hfront : ∀ y ∈ done.map h, key y ≠ key x := by
          intro y hy
          obtain ⟨z, hz, rfl⟩ := List.mem_map.mp hy
          rw [hkey]
          rw [List.map_append, List.nodup_append] at hnodup
          exact hnodup.2.2 (key z) (List.mem_map_of_mem hz) (key x) (by simp)
        have hback : ∀ y ∈ todo, key y ≠ key x := by
          intro y hy heq
          rw [List.map_append, List.nodup_append, List.map_cons, List.nodup_cons] at hnodup
          exact hnodup.2.1.1 (heq ▸ List.mem_map_of_mem hy)
        have hhit : modify key (key x) (set (g x)) (done.map h ++ x :: todo)
            = done.map h ++ h x :: todo := by
          rw [modify_append, modify_of_forall_ne _ hfront]
          show _ ++ (if key x = key x then set (g x) x else x) :: modify key (key x) _ todo = _
          rw [if_pos rfl, modify_of_forall_ne _ hback]
          simp [h, hx]
        rw [List.filter_cons_of_pos hx, List.map_cons, List.foldlM_cons,
          update_of_mem key (by simp)]
        show List.foldlM _ (modify key (key x) (set (g x)) (done.map h ++ x :: todo)) _ = _
        rw [hhit]
        simpa using hnext
      · have hmiss : h x = x := by simp [h, hx]
        rw [List.filter_cons_of_neg hx]
        simpa [hmiss] using hnext
  exact walk l [] hl

/-- **One row changes**, and the count of a property it loses goes down by one. -/
theorem countP_modify {l : List α} (hl : (l.map key).Nodup) {x : α} (hx : x ∈ l) (f : α → α)
    (p : α → Bool) :
    (modify key (key x) f l).countP p + (if p x then 1 else 0)
      = l.countP p + if p (f x) then 1 else 0 := by
  induction l with
  | nil => cases hx
  | cons y l ih =>
    obtain ⟨hy, hl'⟩ := List.nodup_cons.mp hl
    show ((if key y = key x then f y else y) :: modify key (key x) f l).countP p + _ = _
    rcases List.mem_cons.mp hx with rfl | hx
    · have hother : ∀ z ∈ l, key z ≠ key x := by
        intro z hz hzx
        rw [← hzx] at hy
        exact hy (List.mem_map_of_mem hz)
      rw [if_pos rfl, modify_of_forall_ne f hother, List.countP_cons, List.countP_cons]
      omega
    · have hne : key y ≠ key x := by
        intro h
        rw [h] at hy
        exact hy (List.mem_map_of_mem hx)
      have htail := ih hl' hx
      rw [if_neg hne, List.countP_cons, List.countP_cons]
      omega

/-! ## Updates in any order -/

/-- Modifications under different keys commute. -/
theorem modify_comm {i j : κ} (hij : i ≠ j) {f g : α → α} (hf : ∀ x, key (f x) = key x)
    (hg : ∀ x, key (g x) = key x) (l : List α) :
    modify key i f (modify key j g l) = modify key j g (modify key i f l) := by
  unfold modify
  rw [List.map_map, List.map_map]
  refine List.map_congr_left fun x _ => ?_
  by_cases hi : key x = i
  · have hj : key x ≠ j := fun hj => hij (hi.symm.trans hj)
    simp [hi, hf, hij]
  · by_cases hj : key x = j <;> simp [hi, hj, hg, Ne.symm hij]

/-- Updates of different rows commute. -/
theorem update_comm {set : β → α → α} (hset : ∀ b x, key (set b x) = key x) {u v : κ × β}
    (huv : u.1 ≠ v.1) (l : List α) :
    (update key set l u).bind (update key set · v) = (update key set l v).bind (update key set · u) := by
  have hkeep : ∀ (w w' : κ × β), w.1 ≠ w'.1 →
      (lookup key w'.1 (modify key w.1 (set w.2) l)).isSome = (lookup key w'.1 l).isSome := by
    intro w w' hne
    rw [lookup_modify (fun x hx => (hset w.2 x).trans hx), if_neg (Ne.symm hne)]
  unfold update
  by_cases hu : (lookup key u.1 l).isSome <;> by_cases hv : (lookup key v.1 l).isSome <;>
    simp [hu, hv, hkeep, huv, Ne.symm huv, modify_comm huv (hset u.2) (hset v.2)]

/-- **The order of the updates does not matter** when no two are of the same row. -/
theorem foldlM_update_perm {set : β → α → α} (hset : ∀ b x, key (set b x) = key x)
    {us us' : List (κ × β)} (h : us.Perm us') (hus : (us.map Prod.fst).Nodup) (l : List α) :
    us.foldlM (update key set) l = us'.foldlM (update key set) l := by
  induction h generalizing l with
  | nil => rfl
  | cons u _ ih =>
    rw [List.foldlM_cons, List.foldlM_cons]
    congr 1
    funext l'
    exact ih (List.nodup_cons.mp hus).2 l'
  | swap u v us =>
    have huv : v.1 ≠ u.1 := fun heq => (List.nodup_cons.mp hus).1 (by simp [heq])
    have hcomm := update_comm hset huv l
    show (update key set l v).bind (fun l' => (update key set l' u).bind _)
      = (update key set l u).bind (fun l' => (update key set l' v).bind _)
    rw [← Option.bind_assoc, hcomm, Option.bind_assoc]
  | trans h₁ _ ih₁ ih₂ => rw [ih₁ hus, ih₂ ((h₁.map Prod.fst).nodup_iff.mp hus)]

end DjangoFlaskKafka.Keyed
