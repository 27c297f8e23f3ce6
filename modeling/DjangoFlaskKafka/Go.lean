/-
  The Go the auth service is written in, as far as it leans on it: white space, the bearer scheme's
  case folding, `time.RFC3339`, base64 and hex, and `fmt.Sscanf`.

  Clock readings are microseconds since the epoch, the resolution of the database.
-/
import DjangoFlaskKafka.Lib.Base64
import DjangoFlaskKafka.Lib.Words
import Mathlib.Algebra.Group.Int.Defs
import Mathlib.Algebra.Group.Nat.Defs

namespace DjangoFlaskKafka.Go

/-! ## Text -/

/-- `unicode.IsSpace`. -/
def isSpace (c : Char) : Bool :=
  let n := c.toNat
  (9 ≤ n && n ≤ 13) || n == 32 || n == 0x85 || n == 0xA0 || n == 0x1680 ||
    (0x2000 ≤ n && n ≤ 0x200A) || n == 0x2028 || n == 0x2029 || n == 0x202F || n == 0x205F ||
    n == 0x3000

/-- `strings.TrimSpace`. -/
def trimSpace (s : String) : String := String.ofList (Words.strip isSpace s.toList)

/-- `strings.EqualFold(s, t)` for a `t` in small letters other than `k` and `s`, which are the only
    ones that fold to more than one ASCII letter. -/
def equalFold (s t : List Char) : Bool := s.map Char.toLower = t

/-! ## Time -/

def second : Int := 1000000
def minute : Int := 60 * second
def hour : Int := 60 * minute

/-- `jwt.NewNumericDate`: whole seconds. -/
def numericDate (t : Int) : Int := t / second

/-- A number in at least so many digits. -/
def digits (width n : Nat) : String :=
  let text := toString n
  "".pushn '0' (width - text.length) ++ text

/-- The date of a day of the epoch: year, month, day. -/
def civil (day : Int) : Int × Int × Int :=
  let z := day + 719468
  let era := z / 146097
  let doe := z % 146097
  let yoe := (doe - doe / 1460 + doe / 36524 - doe / 146096) / 365
  let doy := doe - (365 * yoe + yoe / 4 - yoe / 100)
  let mp := (5 * doy + 2) / 153
  let month := if mp < 10 then mp + 3 else mp - 9
  (yoe + era * 400 + if month ≤ 2 then 1 else 0, month, doy - (153 * mp + 2) / 5 + 1)

/-- `t.UTC().Format(time.RFC3339)`. -/
def formatRFC3339 (t : Int) : String :=
  let seconds := t / second
  let (year, month, day) := civil (seconds / 86400)
  let rest := seconds % 86400
  digits 4 year.toNat ++ "-" ++ digits 2 month.toNat ++ "-" ++ digits 2 day.toNat ++ "T" ++
    digits 2 (rest / 3600).toNat ++ ":" ++ digits 2 (rest / 60 % 60).toNat ++ ":" ++
    digits 2 (rest % 60).toNat ++ "Z"

/-- The instant of Go's documented example. -/
example : formatRFC3339 (1136239445 * second) = "2006-01-02T22:04:05Z" := by decide +kernel

/-! ## Encodings -/

/-- `base64.RawStdEncoding`. -/
def rawStdEncoding : Base64.Alphabet where
  symbols := "ABCDEFGHIJKLMNOPQRSTUVWXYZabcdefghijklmnopqrstuvwxyz0123456789+/".toList
  length := by decide +kernel
  nodup := by decide +kernel

/-- `base64.RawURLEncoding`. -/
def rawURLEncoding : Base64.Alphabet where
  symbols := "ABCDEFGHIJKLMNOPQRSTUVWXYZabcdefghijklmnopqrstuvwxyz0123456789-_".toList
  length := by decide +kernel
  nodup := by decide +kernel

/-- `EncodeToString`. -/
def encodeToString (A : Base64.Alphabet) (src : List UInt8) : String :=
  String.ofList (Base64.encode A src)

/-- `DecodeString`, which passes over line ends. -/
def decodeString (A : Base64.Alphabet) (s : String) : Option (List UInt8) :=
  Base64.decode A (s.toList.filter fun c => c ≠ '\r' ∧ c ≠ '\n')

/-- `hex.EncodeToString`. -/
def hexString (src : List UInt8) : String :=
  String.ofList (src.flatMap fun b =>
    [Nat.digitChar (b.toNat / 16), Nat.digitChar (b.toNat % 16)])

/-- What is written has no line end to pass over. -/
theorem decodeString_encodeToString {A : Base64.Alphabet}
    (hA : '\r' ∉ A.symbols ∧ '\n' ∉ A.symbols) (src : List UInt8) :
    decodeString A (encodeToString A src) = some src := by
  unfold decodeString encodeToString
  rw [String.toList_ofList, List.filter_eq_self.mpr, Base64.decode_encode]
  intro c hc
  have hmem := Base64.mem_symbols_of_mem_encode A hc
  refine decide_eq_true ⟨?_, ?_⟩
  · rintro rfl
    exact hA.1 hmem
  · rintro rfl
    exact hA.2 hmem

@[simp] theorem decodeString_rawURLEncoding (src : List UInt8) :
    decodeString rawURLEncoding (encodeToString rawURLEncoding src) = some src :=
  decodeString_encodeToString (by decide +kernel) src

@[simp] theorem decodeString_rawStdEncoding (src : List UInt8) :
    decodeString rawStdEncoding (encodeToString rawStdEncoding src) = some src :=
  decodeString_encodeToString (by decide +kernel) src

/-! ## `fmt.Sscanf`, and `strconv.Atoi` -/

/-- The literal characters of a format. -/
def scanText (text : String) (input : List Char) : Option (List Char) :=
  if text.toList <+: input then some (input.drop text.toList.length) else none

/-- Before a verb, white space other than a line end is passed over. -/
def skipSpace (input : List Char) : List Char := input.dropWhile fun c => isSpace c && c != '\n'

/-- Decimal digits, at least one. -/
def scanNumber (input : List Char) : Option (Nat × List Char) :=
  let digits := input.takeWhile Char.isDigit
  if digits = [] then none
  else some (Nat.ofDigitChars 10 digits 0, input.dropWhile Char.isDigit)

/-- `%d` into an unsigned integer of so many bits. -/
def scanUint (bits : Nat) (input : List Char) : Option (Nat × List Char) :=
  (scanNumber (skipSpace input)).filter fun scanned => scanned.1 < 2 ^ bits

/-- `%d` into an `int`. -/
def scanInt (input : List Char) : Option (Int × List Char) := do
  let (sign, input) := match skipSpace input with
    | '-' :: input => ((-1 : Int), input)
    | '+' :: input => (1, input)
    | input => (1, input)
  let (magnitude, input) ← scanNumber input
  let value := sign * magnitude
  if -2 ^ 63 ≤ value ∧ value < 2 ^ 63 then some (value, input) else none

example : (scanInt " -19 passes".toList).map Prod.fst = some (-19) := by decide +kernel

/-- `strconv.Atoi(s)`. -/
def atoi (s : String) : Option Int :=
  let (sign, digits) := match s.toList with
    | '-' :: digits => ((-1 : Int), digits)
    | '+' :: digits => (1, digits)
    | digits => (1, digits)
  let value := sign * Nat.ofDigitChars 10 digits 0
  if digits ≠ [] ∧ digits.all Char.isDigit ∧ -2 ^ 63 ≤ value ∧ value < 2 ^ 63 then some value
  else none

/-! ## What `fmt.Sscanf` reads -/

/-- A number as `%d` reads it: what it passes over, and the digits. -/
structure Numeral where
  space : List Char
  digits : List Char

namespace Numeral

/-- The number. -/
def value (n : Numeral) : Nat := Nat.ofDigitChars 10 n.digits 0

/-- It is read, and no further than up to `rest`. -/
structure Read (n : Numeral) (rest : List Char) : Prop where
  space : ∀ c ∈ n.space, (isSpace c && c != '\n') = true
  digits : ∀ c ∈ n.digits, c.isDigit = true
  digits_ne : n.digits ≠ []
  stops : ∀ c ∈ rest.head?, c.isDigit = false

/-- What `toString` writes. -/
def ofNat (n : Nat) : Numeral := ⟨[], Nat.toDigits 10 n⟩

@[simp] theorem value_ofNat (n : Nat) : (ofNat n).value = n := Nat.ofDigitChars_ten_toDigits

/-- It is read whole. -/
theorem read_ofNat (n : Nat) {rest : List Char} (hrest : ∀ c ∈ rest.head?, c.isDigit = false) :
    (ofNat n).Read rest where
  space c hc := by cases hc
  digits c hc := Nat.isDigit_of_mem_toDigits (by decide) (by decide) hc
  digits_ne := Nat.toDigits_ne_nil
  stops := hrest

end Numeral

/-- A run of characters of a kind, up to one that is not. -/
theorem span_append {p : Char → Bool} {run rest : List Char} (hrun : ∀ c ∈ run, p c = true)
    (hrest : ∀ c ∈ rest.head?, p c = false) :
    (run ++ rest).takeWhile p = run ∧ (run ++ rest).dropWhile p = rest := by
  rw [List.takeWhile_append_of_pos hrun, List.dropWhile_append_of_pos hrun]
  cases rest with
  | nil => simp
  | cons c rest => simp [hrest c rfl]

/-- What is left begins with another kind, if it is not empty. -/
theorem head_dropWhile {p : Char → Bool} (input : List Char) :
    ∀ c ∈ (input.dropWhile p).head?, p c = false := by
  intro c hc
  have hne : input.dropWhile p ≠ [] := by
    intro h
    rw [h] at hc
    cases hc
  have hhead := List.head_dropWhile_not p hne
  rw [List.head?_eq_some_head hne] at hc
  obtain rfl := Option.some.inj hc
  exact hhead

/-- A literal is read off the front. -/
theorem scanText_eq_some_iff {text : String} {input rest : List Char} :
    scanText text input = some rest ↔ input = text.toList ++ rest := by
  unfold scanText
  constructor
  · intro h
    obtain ⟨⟨tail, rfl⟩, h⟩ := Option.ite_none_right_eq_some.mp h
    obtain rfl := Option.some.inj h
    rw [List.drop_left]
  · rintro rfl
    rw [if_pos (List.prefix_append _ _), List.drop_left]

/-- **The digits are read**, as many as there are. -/
theorem scanNumber_eq_some_iff {input rest : List Char} {v : Nat} :
    scanNumber input = some (v, rest) ↔
      ∃ n : Numeral, n.space = [] ∧ n.Read rest ∧ input = n.digits ++ rest ∧ n.value = v := by
  unfold scanNumber
  dsimp only
  constructor
  · intro h
    obtain ⟨hne, h⟩ := Option.ite_none_left_eq_some.mp h
    obtain ⟨rfl, rfl⟩ := Prod.mk.inj (Option.some.inj h)
    refine ⟨⟨[], input.takeWhile Char.isDigit⟩, rfl, ⟨by simp, ?_, hne, head_dropWhile input⟩, ?_, rfl⟩
    · exact fun c hc => List.mem_takeWhile_imp hc
    · exact List.takeWhile_append_dropWhile.symm
  · rintro ⟨n, -, hread, rfl, rfl⟩
    obtain ⟨htake, hdrop⟩ := span_append hread.digits hread.stops
    rw [htake, hdrop, if_neg hread.digits_ne]
    rfl

/-- A digit or a sign is no white space. -/
theorem skipSpace_append {space input : List Char}
    (hspace : ∀ c ∈ space, (isSpace c && c != '\n') = true)
    (hinput : ∀ c ∈ input.head?, (isSpace c && c != '\n') = false) :
    skipSpace (space ++ input) = input :=
  (span_append hspace hinput).2

/-- What is passed over is white space. -/
theorem exists_skipSpace (input : List Char) : ∃ space, input = space ++ skipSpace input ∧
    ∀ c ∈ space, (isSpace c && c != '\n') = true :=
  ⟨input.takeWhile fun c => isSpace c && c != '\n', List.takeWhile_append_dropWhile.symm,
    fun _ hc => List.mem_takeWhile_imp (p := fun c => isSpace c && c != '\n') hc⟩

/-- A digit is no white space. -/
theorem isSpace_of_isDigit {c : Char} (h : c.isDigit = true) : isSpace c = false := by
  have hdigit : 48 ≤ c.toNat ∧ c.toNat ≤ 57 := by
    simp only [Char.isDigit, Bool.and_eq_true, decide_eq_true_eq, UInt32.le_iff_toNat_le] at h
    exact h
  unfold isSpace
  simp only [Bool.or_eq_false_iff, Bool.and_eq_false_imp, decide_eq_true_eq, decide_eq_false_iff_not,
    beq_eq_false_iff_ne]
  omega

/-- A numeral begins with a digit, behind its white space. -/
theorem Numeral.Read.head {n : Numeral} {rest : List Char} (h : n.Read rest) :
    ∀ c ∈ (n.digits ++ rest).head?, c.isDigit = true := by
  obtain ⟨d, digits, hdigits⟩ := List.exists_cons_of_ne_nil h.digits_ne
  intro c hc
  rw [hdigits] at hc
  obtain rfl := Option.some.inj hc
  exact h.digits d (by rw [hdigits]; exact List.mem_cons_self)

/-- **What `%d` reads into an unsigned integer**: a numeral that is in range. -/
theorem scanUint_eq_some_iff {bits v : Nat} {input rest : List Char} :
    scanUint bits input = some (v, rest) ↔
      ∃ n : Numeral, n.Read rest ∧ input = n.space ++ n.digits ++ rest ∧ n.value = v ∧ v < 2 ^ bits := by
  unfold scanUint
  rw [Option.filter_eq_some_iff, scanNumber_eq_some_iff, decide_eq_true_eq]
  constructor
  · rintro ⟨⟨n, -, hread, hinput, hv⟩, hlt⟩
    obtain ⟨space, hskip, hspace⟩ := exists_skipSpace input
    rw [hinput] at hskip
    exact ⟨⟨space, n.digits⟩, ⟨hspace, hread.digits, hread.digits_ne, hread.stops⟩,
      by rw [hskip, List.append_assoc], hv, hlt⟩
  · rintro ⟨n, hread, rfl, hv, hlt⟩
    refine ⟨⟨⟨[], n.digits⟩, rfl, ⟨by simp, hread.digits, hread.digits_ne, hread.stops⟩, ?_, hv⟩, hlt⟩
    rw [List.append_assoc]
    refine skipSpace_append hread.space fun c hc => ?_
    rw [isSpace_of_isDigit (hread.head c hc), Bool.false_and]

/-- A text begins with one numeral only. -/
theorem Numeral.Read.unique {n n' : Numeral} {rest rest' : List Char} (h : n.Read rest)
    (h' : n'.Read rest') (heq : n.space ++ n.digits ++ rest = n'.space ++ n'.digits ++ rest') :
    n = n' ∧ rest = rest' := by
  have hblank : ∀ {m : Numeral} {rest : List Char}, m.Read rest →
      ∀ c ∈ (m.digits ++ rest).head?, (isSpace c && c != '\n') = false := by
    intro m rest hm c hc
    rw [isSpace_of_isDigit (hm.head c hc), Bool.false_and]
  rw [List.append_assoc, List.append_assoc] at heq
  obtain ⟨htake, hdrop⟩ := span_append h.space (hblank h)
  obtain ⟨htake', hdrop'⟩ := span_append h'.space (hblank h')
  rw [heq] at htake hdrop
  have hspace : n.space = n'.space := htake.symm.trans htake'
  have hnumber : n.digits ++ rest = n'.digits ++ rest' := hdrop.symm.trans hdrop'
  obtain ⟨hrun, hrest⟩ := span_append h.digits h.stops
  obtain ⟨hrun', hrest'⟩ := span_append h'.digits h'.stops
  rw [hnumber] at hrun hrest
  have hdigits : n.digits = n'.digits := hrun.symm.trans hrun'
  refine ⟨?_, hrest.symm.trans hrest'⟩
  calc n = ⟨n.space, n.digits⟩ := rfl
    _ = ⟨n'.space, n'.digits⟩ := by rw [hspace, hdigits]

/-- The sign of an `int`, if there is one. -/
def Signed (sign : List Char) (n : Numeral) (v : Int) : Prop :=
  sign = ['-'] ∧ v = -n.value ∨ (sign = [] ∨ sign = ['+']) ∧ v = n.value

/-- **What `%d` reads into an `int`**: a numeral, with a sign before its digits or none. -/
theorem scanInt_eq_some_iff {v : Int} {input rest : List Char} :
    scanInt input = some (v, rest) ↔ ∃ (n : Numeral) (sign : List Char), n.Read rest ∧
      input = n.space ++ sign ++ n.digits ++ rest ∧ Signed sign n v ∧ -2 ^ 63 ≤ v ∧ v < 2 ^ 63 := by
  -- the digits behind the sign, however it was found
  have hscan : ∀ (sign : Int) (input : List Char), (do
      let (magnitude, input) ← scanNumber input
      let value := sign * magnitude
      if -2 ^ 63 ≤ value ∧ value < 2 ^ 63 then some (value, input) else none) = some (v, rest) ↔
      ∃ n : Numeral, n.space = [] ∧ n.Read rest ∧ input = n.digits ++ rest ∧ v = sign * n.value ∧
        -2 ^ 63 ≤ v ∧ v < 2 ^ 63 := by
    intro sign input
    constructor
    · intro h
      obtain ⟨⟨magnitude, input'⟩, hnumber, h⟩ := Option.bind_eq_some_iff.mp h
      obtain ⟨hrange, h⟩ := Option.ite_none_right_eq_some.mp h
      obtain ⟨rfl, rfl⟩ := Prod.mk.inj (Option.some.inj h)
      obtain ⟨n, hspace, hread, hinput, rfl⟩ := scanNumber_eq_some_iff.mp hnumber
      exact ⟨n, hspace, hread, hinput, rfl, hrange⟩
    · rintro ⟨n, hspace, hread, hinput, rfl, hrange⟩
      refine Option.bind_eq_some_iff.mpr ⟨(n.value, rest),
        scanNumber_eq_some_iff.mpr ⟨n, hspace, hread, hinput, rfl⟩, ?_⟩
      exact if_pos hrange
  unfold scanInt
  constructor
  · intro h
    obtain ⟨space, hskip, hspace⟩ := exists_skipSpace input
    split at h
    next sign input' hsign =>
      obtain ⟨n, -, hread, rfl, rfl, hrange⟩ := (hscan sign input').mp h
      have hread' : Numeral.Read ⟨space, n.digits⟩ rest :=
        ⟨hspace, hread.digits, hread.digits_ne, hread.stops⟩
      split at hsign
      next tail heq =>
        obtain ⟨rfl, rfl⟩ := Prod.mk.inj hsign
        exact ⟨⟨space, n.digits⟩, ['-'], hread', by rw [hskip, heq]; simp,
          .inl ⟨rfl, by simp [Numeral.value]⟩, hrange⟩
      next tail heq =>
        obtain ⟨rfl, rfl⟩ := Prod.mk.inj hsign
        exact ⟨⟨space, n.digits⟩, ['+'], hread', by rw [hskip, heq]; simp,
          .inr ⟨.inr rfl, by simp [Numeral.value]⟩, hrange⟩
      next =>
        obtain ⟨rfl, heq⟩ := Prod.mk.inj hsign
        exact ⟨⟨space, n.digits⟩, [], hread', by rw [hskip, heq]; simp,
          .inr ⟨.inl rfl, by simp [Numeral.value]⟩, hrange⟩
  · rintro ⟨n, sign, hread, rfl, hsigned, hrange⟩
    have hread' : Numeral.Read ⟨[], n.digits⟩ rest :=
      ⟨by simp, hread.digits, hread.digits_ne, hread.stops⟩
    have hskip : skipSpace (n.space ++ sign ++ n.digits ++ rest) = sign ++ (n.digits ++ rest) := by
      rw [List.append_assoc, List.append_assoc]
      refine skipSpace_append hread.space fun c hc => ?_
      rcases hsigned with ⟨rfl, -⟩ | ⟨rfl | rfl, -⟩
      · obtain rfl := Option.some.inj hc
        decide
      · rw [isSpace_of_isDigit (hread.head c hc), Bool.false_and]
      · obtain rfl := Option.some.inj hc
        decide
    rw [hskip]
    rcases hsigned with ⟨rfl, rfl⟩ | ⟨rfl | rfl, rfl⟩
    · exact (hscan (-1) _).mpr ⟨⟨[], n.digits⟩, rfl, hread', rfl, by simp [Numeral.value], hrange⟩
    · obtain ⟨d, digits, hdigits⟩ := List.exists_cons_of_ne_nil hread.digits_ne
      have hd : d.isDigit = true := hread.digits d (by rw [hdigits]; exact List.mem_cons_self)
      split
      next sign input' hsign =>
        split at hsign
        next tail heq =>
          rw [hdigits] at heq
          obtain ⟨rfl, -⟩ := List.cons.inj heq
          exact absurd hd (by decide)
        next tail heq =>
          rw [hdigits] at heq
          obtain ⟨rfl, -⟩ := List.cons.inj heq
          exact absurd hd (by decide)
        next =>
          obtain ⟨rfl, rfl⟩ := Prod.mk.inj hsign
          exact (hscan 1 _).mpr ⟨⟨[], n.digits⟩, rfl, hread', rfl, by simp [Numeral.value], hrange⟩
    · exact (hscan 1 _).mpr ⟨⟨[], n.digits⟩, rfl, hread', rfl, by simp [Numeral.value], hrange⟩

end DjangoFlaskKafka.Go
