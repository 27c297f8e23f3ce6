/-
  Numbers as bytes, the most significant first.

  `bytes` is the shortest such list, so it is empty for zero and has no leading zero for any other
  number (`head_bytes`); `ofBytes` reads any list (`ofBytes_bytes`).
-/
import Mathlib.Data.Nat.Digits.Lemmas

namespace DjangoFlaskKafka.BigEndian

/-- The number of a list of bytes. -/
def ofBytes (bs : List UInt8) : Nat := bs.foldl (fun n b => n * 256 + b.toNat) 0

/-- The bytes of a number. -/
def bytes (n : Nat) : List UInt8 := ((Nat.digits 256 n).map UInt8.ofNat).reverse

theorem ofBytes_zero_cons (bs : List UInt8) : ofBytes (0 :: bs) = ofBytes bs := rfl

/-- The bytes are digits to the base 256, the least significant last. -/
theorem ofBytes_reverse (bs : List UInt8) :
    ofBytes bs.reverse = Nat.ofDigits 256 (bs.map UInt8.toNat) := by
  unfold ofBytes
  rw [List.foldl_reverse]
  induction bs with
  | nil => rfl
  | cons b bs ih =>
    rw [List.foldr_cons, ih, List.map_cons, Nat.ofDigits_cons]
    omega

theorem toNat_ofNat_digit {n d : Nat} (hd : d ∈ Nat.digits 256 n) : (UInt8.ofNat d).toNat = d := by
  rw [UInt8.toNat_ofNat']
  exact Nat.mod_eq_of_lt (Nat.digits_lt_base (by omega) hd)

/-- **Reading the bytes of a number.** -/
theorem ofBytes_bytes (n : Nat) : ofBytes (bytes n) = n := by
  have hdigits : ((Nat.digits 256 n).map UInt8.ofNat).map UInt8.toNat = Nat.digits 256 n := by
    rw [List.map_map]
    exact (List.map_congr_left fun d hd => toNat_ofNat_digit hd).trans (List.map_id' _)
  unfold bytes
  rw [ofBytes_reverse, hdigits, Nat.ofDigits_digits]

/-- No leading zero. -/
theorem head_bytes {n : Nat} (hn : 0 < n) : (bytes n).head? ≠ some 0 := by
  have hne : Nat.digits 256 n ≠ [] := Nat.digits_ne_nil_iff_ne_zero.mpr (by omega)
  have hlast := Nat.getLast_digit_ne_zero 256 (by omega : n ≠ 0)
  unfold bytes
  rw [List.head?_reverse, List.getLast?_map, List.getLast?_eq_some_getLast hne, Option.map_some]
  intro h
  have hzero := congrArg UInt8.toNat (Option.some.inj h)
  rw [toNat_ofNat_digit (List.getLast_mem hne)] at hzero
  exact hlast hzero

end DjangoFlaskKafka.BigEndian
