/-
  Pages — the rows with the largest keys, largest first.

  `FirstPage key limit rows page` says what the first page of a listing is without saying how it is
  made: it is in order, it has `limit` rows unless there are fewer, and no row that is left out
  belongs before one that is on it.  Sorting and taking makes one (`firstPage_take`); which one it is
  depends on the rows and not on the order they are kept in (`FirstPage.of_perm`).
-/
import Mathlib.Data.List.Nodup
import Mathlib.Order.Defs.LinearOrder
import Mathlib.Order.Lattice

namespace DjangoFlaskKafka.Pages

universe u v w

variable {α : Type u} {β : Type v} {κ : Type w} [LinearOrder κ]

/-- `page` is the first page of `rows`, with room for `limit` of them. -/
structure FirstPage (key : α → κ) (limit : Nat) (rows page : List α) : Prop where
  descending : page.Pairwise fun p q => key q < key p
  subset : ∀ p ∈ page, p ∈ rows
  length : page.length = min limit rows.length
  rest : ∀ p ∈ rows, p ∉ page → ∀ q ∈ page, key p < key q

variable {key : α → κ} {limit : Nat} {rows page : List α}

/-- **Sorting and taking makes the first page**, if no two rows share a key. -/
theorem firstPage_take (hrows : (rows.map key).Nodup) (limit : Nat) :
    FirstPage key limit rows ((rows.mergeSort fun p q => key q ≤ key p).take limit) := by
  let sorted := rows.mergeSort fun p q => key q ≤ key p
  have hperm : sorted.Perm rows := List.mergeSort_perm ..
  have hle : sorted.Pairwise fun p q => decide (key q ≤ key p) = true := by
    refine List.pairwise_mergeSort (fun p q r hpq hqr => ?_) (fun p q => ?_) rows
    · exact decide_eq_true (le_trans (of_decide_eq_true hqr) (of_decide_eq_true hpq))
    · simpa using le_total (key q) (key p)
  have hne : sorted.Pairwise fun p q => key p ≠ key q :=
    List.pairwise_map.mp ((hperm.map key).nodup_iff.mpr hrows)
  have hlt : sorted.Pairwise fun p q => key q < key p :=
    (hle.and hne).imp fun h => lt_of_le_of_ne (of_decide_eq_true h.1) h.2.symm
  refine ⟨hlt.sublist (List.take_sublist ..), fun p hp => ?_, ?_, fun p hp hout q hq => ?_⟩
  · exact hperm.mem_iff.mp (List.mem_of_mem_take hp)
  · rw [List.length_take, hperm.length_eq]
  · have hsplit : p ∈ sorted.take limit ∨ p ∈ sorted.drop limit := by
      rw [← List.mem_append, List.take_append_drop]
      exact hperm.mem_iff.mpr hp
    rw [← List.take_append_drop limit sorted, List.pairwise_append] at hlt
    exact hlt.2.2 q hq p (hsplit.resolve_left hout)

/-- It does not matter in which order the rows are kept. -/
theorem FirstPage.of_perm (h : FirstPage key limit rows page) {rows' : List α}
    (hperm : rows.Perm rows') : FirstPage key limit rows' page where
  descending := h.descending
  subset p hp := hperm.mem_iff.mp (h.subset p hp)
  length := hperm.length_eq ▸ h.length
  rest p hp := h.rest p (hperm.mem_iff.mpr hp)

/-- What is shown of the page is the page of what is shown. -/
theorem FirstPage.map (h : FirstPage key limit rows page) {f : α → β} {key' : β → κ}
    (hf : ∀ p, key' (f p) = key p) : FirstPage key' limit (rows.map f) (page.map f) where
  descending := List.pairwise_map.mpr (h.descending.imp fun hlt => by rwa [hf, hf])
  subset p hp := by
    obtain ⟨q, hq, rfl⟩ := List.mem_map.mp hp
    exact List.mem_map_of_mem (h.subset q hq)
  length := by rw [List.length_map, List.length_map, h.length]
  rest p' hp' hout q' hq' := by
    obtain ⟨p, hp, rfl⟩ := List.mem_map.mp hp'
    obtain ⟨q, hq, rfl⟩ := List.mem_map.mp hq'
    rw [hf, hf]
    exact h.rest p hp (fun hin => hout (List.mem_map_of_mem hin)) q hq

end DjangoFlaskKafka.Pages
