/-
  Queues served in rounds — a round takes the oldest items up to a limit, and serves those of them
  that can be served.

  An item that cannot be served is not thrown out: it comes back in the next round, and in every
  one after it, and takes a place.  So what matters to an item is how many of those ahead of it
  there are: with fewer than the limit it is served, after at most as many rounds as there are
  items to serve up to it (`served_of_few`); with that many, it never comes to its turn
  (`waits_of_many`).  Items that arrive later make no difference to either.
-/
import Mathlib.Data.Finset.Card

namespace DjangoFlaskKafka.Queue

universe u

variable {α : Type u} [DecidableEq α] (age : α → Int) (ok : α → Prop) [DecidablePred ok] (limit : Nat)

/-- The oldest items, up to the limit. -/
structure Takes (q batch : Finset α) : Prop where
  subset : batch ⊆ q
  card_le : batch.card ≤ limit
  oldest : ∀ x ∈ batch, ∀ y ∈ q, y ∉ batch → age x ≤ age y
  full : batch.card < limit → batch = q

/-- A round: a batch is taken from what is there, some of it newer than `horizon` and just arrived,
    and what can be served of it leaves. -/
structure Round (horizon : Int) (q q' : Finset α) : Prop where
  taken : ∃ batch arrived, (∀ x ∈ arrived, horizon < age x) ∧ Takes age limit (q ∪ arrived) batch ∧
    q' = (q ∪ arrived) \ batch.filter ok

variable {age ok limit}

section Rounds

variable {e : α}

/-- What is not newer than an item was there before the round. -/
theorem Round.mem_of_le {q q' : Finset α} (h : Round age ok limit (age e) q q') {x : α}
    (hx : x ∈ q') (hle : age x ≤ age e) : x ∈ q := by
  obtain ⟨batch, arrived, hnew, -, rfl⟩ := h.taken
  rcases Finset.mem_union.mp (Finset.mem_sdiff.mp hx).1 with hx | hx
  · exact hx
  · have := hnew x hx
    omega

/-- With few refused items up to it, an item is served in a round, or another one is. -/
theorem Round.serves {q q' : Finset α} (h : Round age ok limit (age e) q q') (he : e ∈ q)
    (hok : ok e) (hfew : (q.filter fun x => age x ≤ age e ∧ ¬ ok x).card < limit) :
    ∃ x ∈ q, age x ≤ age e ∧ ok x ∧ x ∉ q' := by
  obtain ⟨batch, arrived, hnew, htakes, rfl⟩ := h.taken
  have hgone : ∀ x ∈ batch, ok x → x ∉ (q ∪ arrived) \ batch.filter ok := by
    intro x hx hokx hmem
    exact (Finset.mem_sdiff.mp hmem).2 (Finset.mem_filter.mpr ⟨hx, hokx⟩)
  by_cases hbatch : e ∈ batch
  · exact ⟨e, he, le_rfl, hok, hgone e hbatch hok⟩
  · -- the batch is full of items up to this one, and not all of them are refused
    have hahead : ∀ x ∈ batch, age x ≤ age e := fun x hx =>
      htakes.oldest x hx e (Finset.mem_union_left _ he) hbatch
    have hthere : ∀ x ∈ batch, x ∈ q := by
      intro x hx
      rcases Finset.mem_union.mp (htakes.subset hx) with hxq | hxnew
      · exact hxq
      · have := hnew x hxnew
        have := hahead x hx
        omega
    have hfull : limit ≤ batch.card := by
      by_contra hshort
      rw [htakes.full (by omega)] at hbatch
      exact hbatch (Finset.mem_union_left _ he)
    have hserved : ∃ x ∈ batch, ok x := by
      by_contra hnone
      push Not at hnone
      have hsubset : batch ⊆ q.filter fun x => age x ≤ age e ∧ ¬ ok x := fun x hx =>
        Finset.mem_filter.mpr ⟨hthere x hx, hahead x hx, hnone x hx⟩
      have := Finset.card_le_card hsubset
      omega
    obtain ⟨x, hx, hokx⟩ := hserved
    exact ⟨x, hthere x hx, hahead x hx, hokx, hgone x hx hokx⟩

variable {q : Nat → Finset α} (hq : ∀ k, Round age ok limit (age e) (q k) (q (k + 1)))

include hq

/-- What has left does not come back. -/
theorem gone (he : e ∉ q 0) (n : Nat) : e ∉ q n := by
  induction n with
  | zero => exact he
  | succ n ih => exact fun h => ih ((hq n).mem_of_le h le_rfl)

/-- **An item with few refused ones ahead of it is served.** -/
theorem served_of_few (hok : ok e)
    (hfew : ((q 0).filter fun x => age x ≤ age e ∧ ¬ ok x).card < limit) {n : Nat}
    (hn : ((q 0).filter fun x => age x ≤ age e ∧ ok x).card ≤ n) : e ∉ q n := by
  -- on the items to serve up to this one, of which every round serves one
  induction n generalizing q with
  | zero =>
    intro he
    have hmem : e ∈ (q 0).filter fun x => age x ≤ age e ∧ ok x :=
      Finset.mem_filter.mpr ⟨he, le_rfl, hok⟩
    have := Finset.card_pos.mpr ⟨e, hmem⟩
    omega
  | succ n ih =>
    by_cases he : e ∈ q 0
    · obtain ⟨x, hx, hage, hokx, hleft⟩ := (hq 0).serves he hok hfew
      have hsub : ∀ P : α → Prop, [DecidablePred P] →
          ((q 1).filter fun y => age y ≤ age e ∧ P y) ⊆ (q 0).filter fun y => age y ≤ age e ∧ P y := by
        intro P _ y hy
        obtain ⟨hy, hle, hP⟩ := Finset.mem_filter.mp hy
        exact Finset.mem_filter.mpr ⟨(hq 0).mem_of_le hy hle, hle, hP⟩
      refine ih (q := fun k => q (k + 1)) (fun k => hq (k + 1))
        (lt_of_le_of_lt (Finset.card_le_card (hsub fun y => ¬ ok y)) hfew) ?_
      have hlt : ((q 1).filter fun y => age y ≤ age e ∧ ok y).card
          < ((q 0).filter fun y => age y ≤ age e ∧ ok y).card := by
        refine Finset.card_lt_card ((Finset.ssubset_iff_of_subset (hsub ok)).mpr
          ⟨x, Finset.mem_filter.mpr ⟨hx, hage, hokx⟩, fun h => hleft (Finset.mem_filter.mp h).1⟩)
      show ((q 1).filter fun y => age y ≤ age e ∧ ok y).card ≤ n
      omega
    · exact gone hq he (n + 1)

/-- **An item with many refused ones ahead of it is never served**, and neither are they. -/
theorem waits_of_many (he : e ∈ q 0)
    (hmany : limit ≤ ((q 0).filter fun x => age x < age e ∧ ¬ ok x).card) (n : Nat) : e ∈ q n := by
  have hall : e ∈ q n ∧ ((q 0).filter fun x => age x < age e ∧ ¬ ok x) ⊆ q n := by
    induction n with
    | zero => exact ⟨he, Finset.filter_subset _ _⟩
    | succ n ih =>
      obtain ⟨hen, hrefused⟩ := ih
      obtain ⟨batch, arrived, hnew, htakes, hnext⟩ := (hq n).taken
      rw [hnext]
      refine ⟨Finset.mem_sdiff.mpr ⟨Finset.mem_union_left _ hen, fun hserved => ?_⟩,
        fun x hx => Finset.mem_sdiff.mpr ⟨Finset.mem_union_left _ (hrefused hx), fun hserved => ?_⟩⟩
      · -- if it were in the batch, so would be all that are refused and older
        have hin := (Finset.mem_filter.mp hserved).1
        have hsubset : insert e ((q 0).filter fun x => age x < age e ∧ ¬ ok x) ⊆ batch := by
          intro x hx
          rcases Finset.mem_insert.mp hx with rfl | hx
          · exact hin
          · by_contra hout
            have := htakes.oldest e hin x (Finset.mem_union_left _ (hrefused hx)) hout
            have := (Finset.mem_filter.mp hx).2.1
            omega
        have hcard := Finset.card_le_card hsubset
        rw [Finset.card_insert_of_notMem (by simp)] at hcard
        have := htakes.card_le
        omega
      · exact (Finset.mem_filter.mp hx).2.2 (Finset.mem_filter.mp hserved).2
  exact hall.1

end Rounds

end DjangoFlaskKafka.Queue
