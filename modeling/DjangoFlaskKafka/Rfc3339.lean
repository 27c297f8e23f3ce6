/-
  RFC 3339 — the instant that auth writes into an event, and the other services read.

  1. **Program** — Go's `formatRFC3339` writes a text; `readDateTime` is what any reader of RFC 3339
     reads there: fields of a fixed number of digits, a date of the calendar, an offset.

  2. **Law** — an instant with whole seconds and a year of four digits comes back as it was, in UTC
     (`readDateTime_format`), also after Python's `replace("Z", "+00:00")`
     (`readDateTime_replaceZ`).
-/
import DjangoFlaskKafka.Go
import DjangoFlaskKafka.Python
import DjangoFlaskKafka.Lib.Calendar

namespace DjangoFlaskKafka.Rfc3339

open Python Go Calendar

/-! ## Reading -/

/-- A number of so many digits. -/
def field (width : Nat) (s : List Char) : Option (Int × List Char) :=
  if (s.take width).length = width ∧ (s.take width).all Char.isDigit then
    some (Nat.ofDigitChars 10 (s.take width) 0, s.drop width)
  else none

/-- The mark between two fields. -/
def mark (c : Char) : List Char → Option (List Char)
  | [] => none
  | c' :: s => if c' = c then some s else none

/-- The offset: `Z`, or hours and minutes. -/
def offset (s : List Char) : Option Int :=
  match s with
  | ['Z'] => some 0
  | sign :: s => do
    let (hours, s) ← field 2 s
    let s ← mark ':' s
    let (minutes, s) ← field 2 s
    let seconds := (hours * 3600 + minutes * 60) * second
    if s ≠ [] ∨ 24 ≤ hours ∨ 60 ≤ minutes then none
    else if sign = '+' then some seconds
    else if sign = '-' then some (-seconds)
    else none
  | [] => none

/-- An RFC 3339 date and time without a fraction. -/
def readDateTime (s : String) : Option DateTime := do
  let (year, s) ← field 4 s.toList
  let s ← mark '-' s
  let (month, s) ← field 2 s
  let s ← mark '-' s
  let (day, s) ← field 2 s
  let s ← mark 'T' s
  let (hour, s) ← field 2 s
  let s ← mark ':' s
  let (minute, s) ← field 2 s
  let s ← mark ':' s
  let (sec, s) ← field 2 s
  let utcoffset ← offset s
  if 1 ≤ year ∧ Valid year month day ∧ hour < 24 ∧ minute < 60 ∧ sec < 60 then
    let wall := (daysFromCivil year month day * 86400 + hour * 3600 + minute * 60 + sec) * second
    some ⟨wall, some utcoffset⟩
  else none

example : readDateTime "2006-01-02T22:04:05Z" = some ⟨1136239445 * second, some 0⟩ := by
  decide +kernel

/-- An instant that RFC 3339 can write and a `datetime` can hold: whole seconds, in a year from 1 to
    9999. -/
def Writable (t : Int) : Prop :=
  t % second = 0 ∧ 1 ≤ (civil (t / second / 86400)).1 ∧ (civil (t / second / 86400)).1 ≤ 9999

instance (t : Int) : Decidable (Writable t) := inferInstanceAs (Decidable (_ ∧ _))

/-- An instant that can be written. -/
abbrev Instant := { t : Int // Writable t }

/-! ## The date -/

/-- What Go finds for a day is a date of the calendar, and that day's. -/
theorem civil_day (day : Int) :
    let date := civil day
    Valid date.1 date.2.1 date.2.2 ∧ daysFromCivil date.1 date.2.1 date.2.2 = day := by
  let doe := (day + 719468) % 146097
  let era := (day + 719468) / 146097
  obtain ⟨c, q, a, r, hparts, hdoe⟩ := split_day (show 0 ≤ doe ∧ doe < 146097 by omega)
  have hyoe := year_of_day hparts hdoe
  obtain ⟨hdoy, hyoe0, hyoe400, hleap⟩ := day_of_year hparts hdoe
  have hcivil : civil day = (100 * c + 4 * q + a + era * 400 +
      if (if (5 * r + 2) / 153 < 10 then (5 * r + 2) / 153 + 3 else (5 * r + 2) / 153 - 9) ≤ 2 then 1
        else 0,
      if (5 * r + 2) / 153 < 10 then (5 * r + 2) / 153 + 3 else (5 * r + 2) / 153 - 9,
      r - (153 * ((5 * r + 2) / 153) + 2) / 5 + 1) := by
    unfold civil
    dsimp only
    rw [show (day + 719468) % 146097 = doe from rfl, hyoe, hdoy]
  have hlast : r = 365 → IsLeap (100 * c + 4 * q + a + era * 400 + 1) := by
    intro hlast
    rw [show 100 * c + 4 * q + a + era * 400 + 1 = 100 * c + 4 * q + a + 1 + era * 400 by omega,
      isLeap_add_era]
    exact hleap hlast
  have hvalid := month_of_day hparts.day hlast
  intro date
  rw [show date = civil day from rfl, hcivil]
  refine ⟨hvalid, ?_⟩
  have hr := hparts.day
  dsimp only
  rw [daysFromCivil_march ⟨hyoe0, hyoe400⟩ (by omega)]
  omega

/-! ## The text -/

theorem toList_pushn (c : Char) (n : Nat) :
    ("".pushn c n).toList = List.replicate n c := by
  rw [String.pushn_eq_repeat_push]
  induction n with
  | zero => simp [Nat.repeat]
  | succ n ih =>
    rw [List.replicate_succ', ← ih]
    simp [Nat.repeat]

/-- The digits of a number, filled up with zeros. -/
theorem toList_digits (width n : Nat) : (digits width n).toList
    = List.replicate (width - (Nat.toDigits 10 n).length) '0' ++ Nat.toDigits 10 n := by
  unfold digits
  rw [String.toList_append, toList_pushn, Nat.toString_eq_ofList_toDigits, String.toList_ofList,
    String.length_ofList]

/-- A number that fits is written in so many digits, which read as that number. -/
theorem field_digits {width n : Nat} (h : n < 10 ^ width) (hwidth : 0 < width) (s : List Char) :
    field width ((digits width n).toList ++ s) = some ((n : Int), s) := by
  have hlen : (digits width n).toList.length = width := by
    rw [toList_digits, List.length_append, List.length_replicate]
    have := (Nat.length_toDigits_le_iff (b := 10) (by decide) hwidth).mpr h
    omega
  have hdigits : (digits width n).toList.all Char.isDigit := by
    rw [toList_digits, List.all_append, Bool.and_eq_true]
    refine ⟨by simp, ?_⟩
    exact List.all_eq_true.mpr fun c hc => Nat.isDigit_of_mem_toDigits (by decide) (by decide) hc
  have hnumber : Nat.ofDigitChars 10 (digits width n).toList 0 = n := by
    rw [toList_digits, Nat.ofDigitChars_append, Nat.ofDigitChars_replicate_zero, Nat.mul_zero,
      Nat.ofDigitChars_ten_toDigits]
  unfold field
  rw [List.take_left' hlen, List.drop_left' hlen, if_pos ⟨hlen, hdigits⟩, hnumber]

@[simp] theorem mark_cons (c : Char) (s : List Char) : mark c (c :: s) = some s := if_pos rfl

/-- The same for a number that is given as an integer. -/
theorem field_toNat {width : Nat} {n : Int} (h : 0 ≤ n ∧ n < 10 ^ width) (hwidth : 0 < width)
    (s : List Char) : field width ((digits width n.toNat).toList ++ s) = some (n, s) := by
  have hlt : n.toNat < 10 ^ width := by
    have := h.2
    have hcast : ((10 ^ width : Nat) : Int) = 10 ^ width := by push_cast; rfl
    omega
  rw [field_digits hlt hwidth, Int.toNat_of_nonneg h.1]

/-- What Go writes, up to the offset. -/
def stem (t : Int) : List Char :=
  let date := civil (t / second / 86400)
  let rest := t / second % 86400
  (digits 4 date.1.toNat).toList ++ '-' :: ((digits 2 date.2.1.toNat).toList ++ '-' ::
    ((digits 2 date.2.2.toNat).toList ++ 'T' :: ((digits 2 (rest / 3600).toNat).toList ++ ':' ::
      ((digits 2 (rest / 60 % 60).toNat).toList ++ ':' :: (digits 2 (rest % 60).toNat).toList))))

/-- What is written is the stem and a Z. -/
theorem toList_format (t : Int) : (formatRFC3339 t).toList = stem t ++ ['Z'] := by
  unfold formatRFC3339 stem
  simp [String.toList_append]

/-- Whatever stands after it, if that is an offset: the text reads as the instant. -/
theorem readDateTime_stem {t : Int} (ht : Writable t) {zone : List Char} {utcoffset : Int}
    (hzone : offset zone = some utcoffset) :
    readDateTime (String.ofList (stem t ++ zone)) = some ⟨t, some utcoffset⟩ := by
  obtain ⟨hwhole, hyear1, hyear⟩ := ht
  obtain ⟨hvalid, hdate⟩ := civil_day (t / second / 86400)
  have hmonth := hvalid.months
  have hday : 1 ≤ (civil (t / second / 86400)).2.2 ∧ (civil (t / second / 86400)).2.2 ≤ 31 := by
    have hlast := hvalid.days.2
    refine ⟨hvalid.days.1, ?_⟩
    unfold daysInMonth at hlast
    split at hlast <;> split at hlast <;> omega
  unfold readDateTime stem
  simp only [String.toList_ofList, List.append_assoc, List.cons_append]
  rw [field_toNat ⟨by omega, by omega⟩ (by decide)]
  simp only [Option.bind_eq_bind, Option.bind_some, mark_cons]
  rw [field_toNat ⟨by omega, by omega⟩ (by decide)]
  simp only [Option.bind_some, mark_cons]
  rw [field_toNat ⟨by omega, by omega⟩ (by decide)]
  simp only [Option.bind_some, mark_cons]
  rw [field_toNat ⟨by omega, by omega⟩ (by decide)]
  simp only [Option.bind_some, mark_cons]
  rw [field_toNat ⟨by omega, by omega⟩ (by decide)]
  simp only [Option.bind_some, mark_cons]
  rw [field_toNat ⟨by omega, by omega⟩ (by decide)]
  simp only [Option.bind_some, hzone]
  rw [if_pos ⟨hyear1, hvalid, by omega, by omega, by omega⟩, hdate]
  refine congrArg (fun wall => some (DateTime.mk wall (some utcoffset))) ?_
  unfold second at hwhole ⊢
  omega

/-- **What Go writes is what is read.** -/
theorem readDateTime_format {t : Int} (ht : Writable t) :
    readDateTime (formatRFC3339 t) = some ⟨t, some 0⟩ := by
  have h := readDateTime_stem ht (show offset ['Z'] = some 0 from rfl)
  rwa [← toList_format, String.ofList_toList] at h

theorem isDigit_ne {c : Char} (h : c.isDigit) : c ≠ 'Z' := by
  rintro rfl
  cases h

/-- **The same after Python's `replace`**: the only `Z` is the offset. -/
theorem readDateTime_replaceZ {t : Int} (ht : Writable t) :
    readDateTime (replaceZ (formatRFC3339 t)) = some ⟨t, some 0⟩ := by
  have hdigits : ∀ width n, ∀ c ∈ (digits width n).toList, c ≠ 'Z' := by
    intro width n c hc
    rw [toList_digits] at hc
    rcases List.mem_append.mp hc with hc | hc
    · obtain rfl := List.eq_of_mem_replicate hc
      decide
    · exact isDigit_ne (Nat.isDigit_of_mem_toDigits (by decide) (by decide) hc)
  have hstem : ∀ c ∈ stem t, c ≠ 'Z' := by
    intro c hc
    unfold stem at hc
    simp only [List.mem_append, List.mem_cons] at hc
    rcases hc with hc | rfl | hc | rfl | hc | rfl | hc | rfl | hc | rfl | hc
    all_goals first | exact hdigits _ _ c hc | decide
  have hreplace : replaceZ (formatRFC3339 t) = String.ofList (stem t ++ "+00:00".toList) := by
    have hkept : (stem t).flatMap (fun c => if c = 'Z' then "+00:00".toList else [c]) = stem t := by
      rw [List.flatMap_congr fun c hc => if_neg (hstem c hc)]
      exact List.flatMap_singleton' _
    unfold replaceZ
    rw [toList_format, List.flatMap_append, hkept, List.flatMap_singleton, if_pos rfl]
  rw [hreplace]
  exact readDateTime_stem ht (by decide)

end DjangoFlaskKafka.Rfc3339
