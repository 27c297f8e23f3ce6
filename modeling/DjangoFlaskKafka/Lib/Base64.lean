/-
  Base64 without padding — three bytes as four symbols of an alphabet of 64.

  What is left over at the end, one byte or two, becomes two symbols or three, and the bits that the
  last of them does not need are zero.  `decode` does not insist on that, as a lenient decoder does
  not, and knows no symbol but those of the alphabet.

  `decode_encode` is the round trip, for every length, and `decode_isSome_iff` says which texts can
  be decoded at all.
-/
import Mathlib.Data.List.Nodup

namespace DjangoFlaskKafka.Base64

/-- 64 symbols, all different. -/
structure Alphabet where
  symbols : List Char
  length : symbols.length = 64
  nodup : symbols.Nodup

namespace Alphabet

variable (A : Alphabet)

/-- The symbol for a number below 64. -/
def symbol (i : Nat) : Char := A.symbols.getD i 'A'

/-- The number of a symbol. -/
def value (c : Char) : Option Nat := if A.symbols.idxOf c < 64 then some (A.symbols.idxOf c) else none

variable {A}

/-- In range, the symbol is the one at its place. -/
theorem symbol_eq {i : Nat} (hi : i < A.symbols.length) : A.symbol i = A.symbols[i] := by
  unfold symbol
  rw [List.getD_eq_getElem?_getD, List.getElem?_eq_getElem hi, Option.getD_some]

/-- Every value has a symbol of the alphabet. -/
theorem symbol_mem {i : Nat} (hi : i < 64) : A.symbol i ∈ A.symbols := by
  rw [symbol_eq (A.length.symm ▸ hi)]
  exact List.getElem_mem _

/-- A symbol is read as the value it was written for. -/
theorem value_symbol {i : Nat} (hi : i < 64) : A.value (A.symbol i) = some i := by
  have hlt : i < A.symbols.length := A.length.symm ▸ hi
  unfold value
  rw [symbol_eq hlt, A.nodup.idxOf_getElem i hlt, if_pos hi]

end Alphabet

variable (A : Alphabet)

/-- Bytes as symbols. -/
def encode : List UInt8 → List Char
  | [] => []
  | [a] => [A.symbol (a.toNat / 4), A.symbol (a.toNat % 4 * 16)]
  | [a, b] =>
    [A.symbol (a.toNat / 4), A.symbol (a.toNat % 4 * 16 + b.toNat / 16), A.symbol (b.toNat % 16 * 4)]
  | a :: b :: c :: bytes =>
    A.symbol (a.toNat / 4) :: A.symbol (a.toNat % 4 * 16 + b.toNat / 16) ::
      A.symbol (b.toNat % 16 * 4 + c.toNat / 64) :: A.symbol (c.toNat % 64) :: encode bytes

/-- Numbers below 64 as bytes; one alone is too few. -/
def join : List Nat → Option (List UInt8)
  | [] => some []
  | [_] => none
  | [w, x] => some [.ofNat (w * 4 + x / 16)]
  | [w, x, y] => some [.ofNat (w * 4 + x / 16), .ofNat (x % 16 * 16 + y / 4)]
  | w :: x :: y :: z :: values =>
    (join values).map fun bytes =>
      .ofNat (w * 4 + x / 16) :: .ofNat (x % 16 * 16 + y / 4) :: .ofNat (y % 4 * 64 + z) :: bytes

/-- Symbols as bytes. -/
def decode (text : List Char) : Option (List UInt8) := (text.mapM A.value).bind join

/-! ## The round trip -/

/-- The numbers of the symbols. -/
def split : List UInt8 → List Nat
  | [] => []
  | [a] => [a.toNat / 4, a.toNat % 4 * 16]
  | [a, b] => [a.toNat / 4, a.toNat % 4 * 16 + b.toNat / 16, b.toNat % 16 * 4]
  | a :: b :: c :: bytes =>
    (a.toNat / 4) :: (a.toNat % 4 * 16 + b.toNat / 16) :: (b.toNat % 16 * 4 + c.toNat / 64) ::
      (c.toNat % 64) :: split bytes

/-- Encoding is splitting, then writing. -/
theorem encode_eq (bytes : List UInt8) : encode A bytes = (split bytes).map A.symbol := by
  fun_induction split bytes with
  | case1 => rfl
  | case2 a => rfl
  | case3 a b => rfl
  | case4 a b c bytes ih =>
    show _ :: _ :: _ :: _ :: encode A bytes = _
    rw [ih]
    rfl

/-- The values are sextets. -/
theorem split_lt (bytes : List UInt8) : ∀ i ∈ split bytes, i < 64 := by
  fun_induction split bytes with
  | case1 => simp
  | case2 a =>
    have ha := a.toNat_lt
    simp only [List.mem_cons, List.not_mem_nil, or_false]
    omega
  | case3 a b =>
    have ha := a.toNat_lt
    have hb := b.toNat_lt
    simp only [List.mem_cons, List.not_mem_nil, or_false]
    omega
  | case4 a b c bytes ih =>
    have ha := a.toNat_lt
    have hb := b.toNat_lt
    have hc := c.toNat_lt
    intro i hi
    simp only [List.mem_cons] at hi
    rcases hi with rfl | rfl | rfl | rfl | hi
    · omega
    · omega
    · omega
    · omega
    · exact ih i hi

/-- A byte is its upper and its lower bits. -/
theorem ofNat_eq {a : UInt8} {n : Nat} (h : n = a.toNat) : UInt8.ofNat n = a := by
  rw [h, UInt8.ofNat_toNat]

/-- Joining undoes splitting. -/
theorem join_split (bytes : List UInt8) : join (split bytes) = some bytes := by
  fun_induction split bytes with
  | case1 => rfl
  | case2 a =>
    show some [_] = _
    rw [ofNat_eq (a := a) (by omega)]
  | case3 a b =>
    have hb := b.toNat_lt
    show some [_, _] = _
    rw [ofNat_eq (a := a) (by omega), ofNat_eq (a := b) (by omega)]
  | case4 a b c bytes ih =>
    have hb := b.toNat_lt
    have hc := c.toNat_lt
    show (join (split bytes)).map _ = _
    rw [ih, Option.map_some, ofNat_eq (a := a) (by omega), ofNat_eq (a := b) (by omega),
      ofNat_eq (a := c) (by omega)]

/-- **Decoding what was encoded.** -/
theorem decode_encode (bytes : List UInt8) : decode A (encode A bytes) = some bytes := by
  have hvalues : ∀ values : List Nat, (∀ i ∈ values, i < 64) →
      (values.map A.symbol).mapM A.value = some values := by
    intro values hvalues
    induction values with
    | nil => rfl
    | cons i values ih =>
      rw [List.map_cons, List.mapM_cons, A.value_symbol (hvalues i List.mem_cons_self),
        ih fun j hj => hvalues j (List.mem_cons_of_mem i hj)]
      rfl
  unfold decode
  rw [encode_eq, hvalues _ (split_lt bytes)]
  exact join_split bytes

/-- Encoded bytes are symbols of the alphabet. -/
theorem mem_symbols_of_mem_encode {bytes : List UInt8} {c : Char} (hc : c ∈ encode A bytes) :
    c ∈ A.symbols := by
  rw [encode_eq] at hc
  obtain ⟨i, hi, rfl⟩ := List.mem_map.mp hc
  exact A.symbol_mem (split_lt bytes i hi)

/-! ## What can be decoded -/

/-- The symbols are what can be read. -/
theorem value_isSome_iff {c : Char} : (A.value c).isSome ↔ c ∈ A.symbols := by
  unfold Alphabet.value
  rw [← List.idxOf_lt_length_iff, A.length]
  by_cases h : A.symbols.idxOf c < 64
  · rw [if_pos h]
    exact iff_of_true rfl h
  · rw [if_neg h]
    exact iff_of_false (by simp) h

/-- One value too many is left over, and no byte can be made of it. -/
theorem join_isSome_iff (values : List Nat) : (join values).isSome ↔ values.length % 4 ≠ 1 := by
  fun_induction join values with
  | case1 => simp
  | case2 w => simp
  | case3 w x => simp
  | case4 w x y => simp
  | case5 w x y z values ih =>
    rw [Option.isSome_map, ih]
    simp only [List.length_cons]
    omega

/-- **What can be decoded**: symbols of the alphabet, with not one left over. -/
theorem decode_isSome_iff (text : List Char) :
    (decode A text).isSome ↔ (∀ c ∈ text, c ∈ A.symbols) ∧ text.length % 4 ≠ 1 := by
  have hvalues : ∀ values, text.mapM A.value = some values → values.length = text.length ∧
      ∀ c ∈ text, c ∈ A.symbols := by
    induction text with
    | nil => simp
    | cons c text ih =>
      intro values h
      rw [List.mapM_cons] at h
      obtain ⟨i, hi, h⟩ := Option.bind_eq_some_iff.mp h
      obtain ⟨values', hvalues', h⟩ := Option.bind_eq_some_iff.mp h
      obtain rfl := Option.some.inj h
      obtain ⟨hlength, hall⟩ := ih values' hvalues'
      refine ⟨by rw [List.length_cons, List.length_cons, hlength], ?_⟩
      exact List.forall_mem_cons.mpr ⟨(value_isSome_iff A).mp (by rw [hi]; rfl), hall⟩
  have hmapM : (∀ c ∈ text, c ∈ A.symbols) → ∃ values, text.mapM A.value = some values := by
    clear hvalues
    induction text with
    | nil => exact fun _ => ⟨[], rfl⟩
    | cons c text ih =>
      intro hall
      obtain ⟨hc, htext⟩ := List.forall_mem_cons.mp hall
      obtain ⟨i, hi⟩ := Option.isSome_iff_exists.mp ((value_isSome_iff A).mpr hc)
      obtain ⟨values, hvalues⟩ := ih htext
      exact ⟨i :: values, by rw [List.mapM_cons, hi, hvalues]; rfl⟩
  unfold decode
  constructor
  · intro h
    cases hmap : text.mapM A.value with
    | none =>
      rw [hmap] at h
      cases h
    | some values =>
      rw [hmap, Option.bind_some, join_isSome_iff] at h
      obtain ⟨hlength, hall⟩ := hvalues values hmap
      exact ⟨hall, hlength ▸ h⟩
  · rintro ⟨hall, hlength⟩
    obtain ⟨values, hmap⟩ := hmapM hall
    rw [hmap, Option.bind_some, join_isSome_iff, (hvalues values hmap).1]
    exact hlength

end DjangoFlaskKafka.Base64
