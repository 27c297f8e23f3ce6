/-
  Grammar — which texts `VerifyPassword` takes for a stored hash.

  1. **Law** — `Strict`: it returns, and a text that is not of the form `HashPassword` writes is told
     `ErrInvalidHash`.

  2. **The crux** — `fmt.Sscanf` is content once its format is matched, passes over white space in
     front of a number, and checks neither what is left over nor that a count is not zero; nor is
     the field before the first `$` looked at.  So the parser takes every text of the form
     (`WellFormed`) and besides some that depart from it (`Slack`), and the law holds of a text
     exactly when it is not one of these (`strict_iff`).
-/
import DjangoFlaskKafka.Auth.Password

namespace DjangoFlaskKafka.Auth

/-! ## The form that is written -/

/-- Digits of a number from `low` up and below `high`. -/
structure Decimal (low high : Nat) (text : List Char) : Prop where
  digits : ∀ c ∈ text, c.isDigit = true
  digits_ne : text ≠ []
  low_le : low ≤ Nat.ofDigitChars 10 text 0
  lt_high : Nat.ofDigitChars 10 text 0 < high

/-- Base64 without padding. -/
structure Base64Text (text : List Char) : Prop where
  symbols : ∀ c ∈ text, c ∈ Go.rawStdEncoding.symbols
  length : text.length % 4 ≠ 1

/-- The form `HashPassword` writes. -/
def WellFormed (encoded : String) : Prop :=
  ∃ memory time threads salt key : List Char,
    encoded.toList = "$argon2id$v=19$m=".toList ++ memory ++ ",t=".toList ++ time ++ ",p=".toList ++
      threads ++ "$".toList ++ salt ++ "$".toList ++ key ∧
    Decimal 0 (2 ^ 32) memory ∧ Decimal 1 (2 ^ 32) time ∧ Decimal 1 (2 ^ 8) threads ∧
    Base64Text salt ∧ Base64Text key ∧ key ≠ []

/-- The function returns, and refuses what is not of the form. -/
def Strict (A : Argon2) (password encoded : String) : Prop :=
  verifyPassword A password encoded ≠ .error .panics ∧
    (verifyPassword A password encoded ≠ .error .invalidHash → WellFormed encoded)

/-- How a text that is taken can depart from the form: something before the first separator; a
    version with white space, a sign or zeros before it or anything behind it; white space before a
    cost, or anything behind the last; no round, or no thread; a line end among the symbols; no
    key. -/
def Parts.Departs (p : Parts) : Prop :=
  p.first ≠ [] ∨ p.version.space ++ p.sign ++ p.version.digits ++ p.afterVersion ≠ "19".toList ∨
    p.memory.space ≠ [] ∨ p.time.space ≠ [] ∨ p.threads.space ≠ [] ∨ p.after ≠ [] ∨
    p.time.value = 0 ∨ p.threads.value = 0 ∨ (∃ c ∈ p.salt ++ p.key, c = '\r' ∨ c = '\n') ∨
    p.key = []

/-- The text is taken for one that departs from the form. -/
def Slack (encoded : String) : Prop :=
  ∃ p : Parts, encoded.toList.splitOn '$' = p.fields ∧ (∃ h, p.Read h) ∧ p.Departs

/-! ## What is taken is of the form, or departs from it -/

/-- Without line ends, what `DecodeString` decodes is base64. -/
theorem base64Text_iff {text : List Char} (hline : ∀ c ∈ text, ¬ (c = '\r' ∨ c = '\n')) :
    Base64Text text ↔ (Go.decodeString Go.rawStdEncoding (String.ofList text)).isSome := by
  have hfilter : text.filter (fun c => c ≠ '\r' ∧ c ≠ '\n') = text :=
    List.filter_eq_self.mpr fun c hc => decide_eq_true (not_or.mp (hline c hc))
  unfold Go.decodeString
  rw [String.toList_ofList, hfilter, Base64.decode_isSome_iff]
  exact ⟨fun h => ⟨h.symbols, h.length⟩, fun h => ⟨h.1, h.2⟩⟩

/-- There is no line end, and no separator, among the symbols. -/
theorem Base64Text.not_mem {text : List Char} (h : Base64Text text) :
    (∀ c ∈ text, ¬ (c = '\r' ∨ c = '\n')) ∧ '$' ∉ text := by
  have hsymbols : '\r' ∉ Go.rawStdEncoding.symbols ∧ '\n' ∉ Go.rawStdEncoding.symbols ∧
      '$' ∉ Go.rawStdEncoding.symbols := by decide +kernel
  refine ⟨?_, fun hmem => hsymbols.2.2 (h.symbols _ hmem)⟩
  rintro c hc (rfl | rfl)
  · exact hsymbols.1 (h.symbols _ hc)
  · exact hsymbols.2.1 (h.symbols _ hc)

/-- What is taken and does not depart is of the form. -/
theorem wellFormed_of_read {encoded : String} {p : Parts} {h : Encoded}
    (hfields : encoded.toList.splitOn '$' = p.fields) (hread : p.Read h) (hnot : ¬ p.Departs) :
    WellFormed encoded := by
  unfold Parts.Departs at hnot
  push Not at hnot
  obtain ⟨hfirst, hversion, hmemory, htime, hthreads, hafter, hrounds, hlanes, hline, hkey⟩ := hnot
  have hdecimal : ∀ {n : Go.Numeral} {rest : List Char} {low high v : Nat}, n.Read rest →
      n.value = v ∧ v < high → low ≤ n.value → Decimal low high n.digits := by
    rintro n rest low high v hn ⟨rfl, hlt⟩ hlow
    exact ⟨hn.digits, hn.digits_ne, hlow, hlt⟩
  have hbase64 : ∀ {text : List Char} {bytes : List UInt8},
      (∀ c ∈ text, c ∈ p.salt ++ p.key) →
      Go.decodeString Go.rawStdEncoding (String.ofList text) = some bytes → Base64Text text := by
    intro text bytes hsub hbytes
    refine (base64Text_iff fun c hc => ?_).mpr (by rw [hbytes]; rfl)
    exact not_or.mpr (hline c (hsub c hc))
  refine ⟨p.memory.digits, p.time.digits, p.threads.digits, p.salt, p.key, ?_,
    hdecimal hread.memory hread.memory_eq (Nat.zero_le _),
    hdecimal hread.time hread.time_eq (by omega),
    hdecimal hread.threads hread.threads_eq (by omega),
    hbase64 (fun c hc => List.mem_append_left _ hc) hread.salt,
    hbase64 (fun c hc => List.mem_append_right _ hc) hread.want, hkey⟩
  -- the fields, put together again
  have hjoin : ['$'].intercalate (encoded.toList.splitOn '$') = encoded.toList :=
    List.intercalate_splitOn '$'
  rw [← hjoin, hfields]
  unfold Parts.fields
  rw [hfirst, hversion, hmemory, htime, hthreads, hafter]
  simp [List.intercalate_cons_cons]

/-! ## What is of the form is taken, and does not depart from it -/

/-- The parts of a text of the form. -/
def formParts (memory time threads salt key : List Char) : Parts where
  first := []
  version := ⟨[], "19".toList⟩
  sign := []
  afterVersion := []
  memory := ⟨[], memory⟩
  time := ⟨[], time⟩
  threads := ⟨[], threads⟩
  after := []
  salt := salt
  key := key

/-- A text of the form has one reading, which is the one of its digits and symbols. -/
theorem WellFormed.read {encoded : String} (hform : WellFormed encoded) :
    ∃ memory time threads salt key h,
      encoded.toList.splitOn '$' = (formParts memory time threads salt key).fields ∧
      (formParts memory time threads salt key).Read h ∧
      Decimal 1 (2 ^ 32) time ∧ Decimal 1 (2 ^ 8) threads ∧ Base64Text salt ∧ Base64Text key ∧
      key ≠ [] := by
  obtain ⟨memory, time, threads, salt, key, htext, hmemory, htime, hthreads, hsalt, hkey, hne⟩ := hform
  obtain ⟨bytes, hbytes⟩ := Option.isSome_iff_exists.mp ((base64Text_iff hsalt.not_mem.1).mp hsalt)
  obtain ⟨want, hwant⟩ := Option.isSome_iff_exists.mp ((base64Text_iff hkey.not_mem.1).mp hkey)
  have hdigits : ∀ {text : List Char} {low high : Nat}, Decimal low high text → '$' ∉ text := by
    intro text low high hdecimal hmem
    exact absurd (hdecimal.digits _ hmem) (by decide)
  have hnumeral : ∀ {text : List Char} {low high : Nat} {rest : List Char}, Decimal low high text →
      (∀ c ∈ rest.head?, c.isDigit = false) → Go.Numeral.Read ⟨[], text⟩ rest :=
    fun hdecimal hrest => ⟨by simp, hdecimal.digits, hdecimal.digits_ne, hrest⟩
  have hversion : Go.Numeral.Read ⟨[], "19".toList⟩ [] :=
    ⟨by simp, List.all_eq_true.mp (by decide), by decide, by simp⟩
  have hvalue : Go.Numeral.value ⟨[], "19".toList⟩ = argonVersion := by decide
  refine ⟨memory, time, threads, salt, key, ⟨Nat.ofDigitChars 10 memory 0, Nat.ofDigitChars 10 time 0,
    Nat.ofDigitChars 10 threads 0, bytes, want⟩, ?_, ?_, htime, hthreads, hsalt, hkey, hne⟩
  · rw [htext]
    refine Eq.trans (congrArg (List.splitOn '$') ?_)
      (List.splitOn_intercalate '$' ?_ (by simp [Parts.fields]))
    · simp [Parts.fields, formParts, List.intercalate_cons_cons]
    · intro field hfield
      simp only [Parts.fields, formParts, List.mem_cons, List.not_mem_nil, or_false, List.nil_append,
        List.append_nil] at hfield
      rcases hfield with rfl | rfl | rfl | rfl | rfl | rfl
      · decide
      · decide +kernel
      · decide
      · simp [hdigits hmemory, hdigits htime, hdigits hthreads]
      · exact hsalt.not_mem.2
      · exact hkey.not_mem.2
  · exact {
      version := hversion
      sign := .inl rfl
      value := hvalue
      memory := hnumeral hmemory (by simp)
      time := hnumeral htime (by simp)
      threads := hnumeral hthreads (by simp [formParts])
      memory_eq := ⟨rfl, hmemory.lt_high⟩
      time_eq := ⟨rfl, htime.lt_high⟩
      threads_eq := ⟨rfl, hthreads.lt_high⟩
      salt := hbytes
      want := hwant }

/-- A text of the form does not depart from it, however it is read. -/
theorem WellFormed.not_slack {encoded : String} (hform : WellFormed encoded) : ¬ Slack encoded := by
  rintro ⟨p, hfields, ⟨h, hread⟩, hdeparts⟩
  obtain ⟨memory, time, threads, salt, key, h', hfields', hread', htime, hthreads, hsalt, hkey, hne⟩ :=
    hform.read
  have hsame := hfields.symm.trans hfields'
  unfold Parts.fields at hsame
  simp only [List.cons.injEq, List.append_cancel_left_eq, and_true, true_and] at hsame
  obtain ⟨hfirst, hversion, hparameters, hsalt', hkey'⟩ := hsame
  obtain ⟨hmemory', hrest⟩ := hread.memory.unique hread'.memory hparameters
  obtain ⟨htime', hrest'⟩ := hread.time.unique hread'.time (List.append_cancel_left hrest)
  obtain ⟨hthreads', hafter⟩ := hread.threads.unique hread'.threads (List.append_cancel_left hrest')
  unfold Parts.Departs at hdeparts
  rw [hfirst, hversion, hmemory', htime', hthreads', hafter, hsalt', hkey'] at hdeparts
  rcases hdeparts with h | h | h | h | h | h | h | h | ⟨c, hc, h⟩ | h
  · exact h rfl
  · exact h rfl
  · exact h rfl
  · exact h rfl
  · exact h rfl
  · exact h rfl
  · have hlow := htime.low_le
    change Nat.ofDigitChars 10 time 0 = 0 at h
    omega
  · have hlow := hthreads.low_le
    change Nat.ofDigitChars 10 threads 0 = 0 at h
    omega
  · rcases List.mem_append.mp hc with hc | hc
    · exact hsalt.not_mem.1 c hc h
    · exact hkey.not_mem.1 c hc h
  · exact hne h

/-! ## The law -/

/-- **What the parser takes.** -/
theorem parse_isSome_iff (encoded : String) :
    (parse encoded).isSome ↔ WellFormed encoded ∨ Slack encoded := by
  rw [Option.isSome_iff_exists]
  constructor
  · rintro ⟨h, hparse⟩
    obtain ⟨p, hfields, hread⟩ := parse_eq_some_iff.mp hparse
    by_cases hdeparts : p.Departs
    · exact .inr ⟨p, hfields, ⟨h, hread⟩, hdeparts⟩
    · exact .inl (wellFormed_of_read hfields hread hdeparts)
  · rintro (hform | ⟨p, hfields, ⟨h, hread⟩, -⟩)
    · obtain ⟨memory, time, threads, salt, key, h, hfields, hread, -⟩ := hform.read
      exact ⟨h, parse_eq_some_iff.mpr ⟨_, hfields, hread⟩⟩
    · exact ⟨h, parse_eq_some_iff.mpr ⟨p, hfields, hread⟩⟩

/-- What is written is of the form, unless it has no key. -/
theorem wellFormed_encode {h : Encoded} (hrange : h.InRange) (hwant : h.want ≠ []) :
    WellFormed (encode h) := by
  refine wellFormed_of_read (splitOn_encode h) hrange.read ?_
  have htime := hrange.time.1
  have hthreads := hrange.threads.1
  have hsymbols : '\r' ∉ Go.rawStdEncoding.symbols ∧ '\n' ∉ Go.rawStdEncoding.symbols := by
    decide +kernel
  rintro (h0 | h0 | h0 | h0 | h0 | h0 | h0 | h0 | ⟨c, hc, h0⟩ | h0)
  · exact h0 rfl
  · exact h0 (show [] ++ [] ++ Nat.toDigits 10 argonVersion ++ [] = "19".toList by decide)
  · exact h0 rfl
  · exact h0 rfl
  · exact h0 rfl
  · exact h0 rfl
  · rw [show h.parts.time.value = h.time from Go.Numeral.value_ofNat _] at h0
    omega
  · rw [show h.parts.threads.value = h.threads from Go.Numeral.value_ofNat _] at h0
    omega
  · have hmem : c ∈ Go.rawStdEncoding.symbols := by
      rcases List.mem_append.mp hc with hc | hc
      · exact Base64.mem_symbols_of_mem_encode _ hc
      · exact Base64.mem_symbols_of_mem_encode _ hc
    rcases h0 with rfl | rfl
    · exact hsymbols.1 hmem
    · exact hsymbols.2 hmem
  · have hempty := Base64.decode_encode Go.rawStdEncoding h.want
    rw [show Base64.encode Go.rawStdEncoding h.want = [] from h0] at hempty
    exact hwant (Option.some.inj hempty).symm

/-- **When the function is strict**: unless the text is taken for one that departs from the form. -/
theorem strict_iff (A : Argon2) (password encoded : String) :
    Strict A password encoded ↔ ¬ Slack encoded := by
  unfold Strict verifyPassword
  constructor
  · rintro ⟨-, hform⟩ hslack
    obtain ⟨h, hparse⟩ := Option.isSome_iff_exists.mp ((parse_isSome_iff encoded).mpr (.inr hslack))
    rw [hparse] at hform
    refine (hform ?_).not_slack hslack
    dsimp only
    split
    · simp
    split
    · simp
    · simp
  · intro hnot
    cases hparse : parse encoded with
    | none => exact ⟨by simp, fun h => absurd rfl h⟩
    | some h =>
      obtain ⟨p, hfields, hread⟩ := parse_eq_some_iff.mp hparse
      have hdeparts : ¬ p.Departs := fun hdeparts => hnot ⟨p, hfields, ⟨h, hread⟩, hdeparts⟩
      refine ⟨?_, fun _ => wellFormed_of_read hfields hread hdeparts⟩
      -- a count of zero is a departure
      have hcounts : ¬ (h.time < 1 ∨ h.threads < 1) := by
        have htime := hread.time_eq.1
        have hthreads := hread.threads_eq.1
        rintro (hlt | hlt)
        · exact hdeparts (.inr (.inr (.inr (.inr (.inr (.inr (.inl (by omega))))))))
        · exact hdeparts (.inr (.inr (.inr (.inr (.inr (.inr (.inr (.inl (by omega)))))))))
      dsimp only
      rw [if_neg hcounts]
      split
      · simp
      · simp

/-- **A hash with no round panics**, where it should be told invalid. -/
theorem no_round_panics :
    ¬ Strict plainArgon2 "anything" "$argon2id$v=19$m=65536,t=0,p=4$c2FsdA$aGFzaA" := by
  intro h
  exact absurd h.1 (by decide +kernel)

end DjangoFlaskKafka.Auth
