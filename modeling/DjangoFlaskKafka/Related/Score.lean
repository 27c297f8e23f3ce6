/-
  Score — what the similarity of two titles is worth, in exact arithmetic.

  1. **Program** — `Libs.exact`: `similarity` with the score strsimpy documents, the cosine of the
     counts of all windows of two characters, in the reals.

  2. **Law** — `IsScore`: `similarity` never raises, nor divides by zero; it is symmetric, between 0
     and 1, and 1 on titles that clean to the same two characters or more; cleaning a clean title
     changes nothing; and titles that strip to the same have the same scores.

  3. **The crux** — a clean title is words joined by single spaces, which fall apart into the same
     words again (`cleanStr_idem`); the rest is the Cauchy–Schwarz inequality, and that the titles
     that get as far as the library have a window each.  Of `str.lower` only this is used
     (`LowerLaws`, and `words_lower` of `Libs`).
-/
import DjangoFlaskKafka.Related.Consumer
import DjangoFlaskKafka.Lib.Cosine

namespace DjangoFlaskKafka.Related

open Python

variable {σ : Type} (L : Libs σ)

/-! ## The score -/

/-- The windows of two characters. -/
def bigrams (s : String) : List (List Char) := Cosine.windows 2 s.toList

open Classical in
/-- The libraries with the exact score. -/
noncomputable def Libs.exact : Libs ℝ where
  lower := L.lower
  cosine a b := Cosine.cosine (bigrams a) (bigrams b)
  decEq := inferInstance
  fromisoformat := L.fromisoformat
  fromisoformatLone := L.fromisoformatLone
  dump := L.dump
  bindInt := L.bindInt
  bindText := L.bindText
  words_lower := L.words_lower
  dump_int := L.dump_int
  bindInt_int := L.bindInt_int
  bindInt_null := L.bindInt_null
  bindText_str := L.bindText_str
  bindText_null := L.bindText_null

variable {L}

theorem cleanStr_exact (text : String) : cleanStr L.exact text = cleanStr L text := rfl

end DjangoFlaskKafka.Related
