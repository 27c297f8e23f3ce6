/-
  Similarity of titles — `clean` and `similarity` of `services/related/consumer.py`.

  What the consumer takes from its libraries is a parameter, `Libs σ`: Python's `str.lower` (its
  case tables are not in the repository), strsimpy's 2-gram cosine with scores in a type `σ`,
  `datetime.fromisoformat`, and what psycopg and Postgres make of a JSON value bound to an integer
  or a text column.  The fields that end in `_lower`, `_int`, `_str` and `_null` are the documented
  behaviour the code relies on.

  `similarity` takes the raw JSON of a payload, so it can raise; on strings it cannot, and is then
  the function `score` (`similarity_str`).  The score reads a title only through its WORDS, hence
  not the whitespace at its ends: `score_strip` is what makes the unchanged-title shortcut of
  `apply_updated` harmless.
-/
import DjangoFlaskKafka.Python
import Mathlib.Data.List.Infix
import Mathlib.Algebra.Ring.Rat

namespace DjangoFlaskKafka.Related

open Python

/-! ## What the libraries supply -/

/-- The libraries behind the consumer; `σ` is the type of similarity scores. -/
structure Libs (σ : Type) where
  /-- `str.lower`. -/
  lower : List Char → List Char
  /-- `Cosine(2).similarity_profiles` of the 2-gram profiles of both strings. -/
  cosine : String → String → σ
  /-- `==` of scores. -/
  decEq : DecidableEq σ
  /-- `datetime.fromisoformat`; `none` is a `ValueError`. -/
  fromisoformat : String → Option DateTime
  /-- The same of a string that is no Unicode text. -/
  fromisoformatLone : LoneText → Option DateTime
  /-- What psycopg raises when it dumps a value that is neither a string nor `None`. -/
  dump : Json → Except PyErr Unit
  /-- A value bound to an INTEGER column, `none` when the statement fails; `some none` is NULL. -/
  bindInt : Json → Option (Option Int)
  /-- The same for a VARCHAR column. -/
  bindText : Json → Option (Option String)
  /-- Lowering commutes with splitting at whitespace. -/
  words_lower : ∀ s, Words.words isSpace (lower s) = (Words.words isSpace s).map lower
  dump_int : ∀ n, dump (.int n) = .ok ()
  bindInt_int : ∀ n, bindInt (.int n) = some (some n)
  bindInt_null : bindInt .null = some none
  bindText_str : ∀ s, bindText (.str s) = some (some s)
  bindText_null : bindText .null = some none

/-- Other characters than those of ASCII are not lowered. -/
theorem toLower_of_le {c : Char} (hc : 128 ≤ c.toNat) : c.toLower = c := by
  have hne : ¬ (c.val ≥ 'A'.val ∧ c.val ≤ 'Z'.val) := by
    rintro ⟨-, hle⟩
    have : c.toNat ≤ 90 := hle
    omega
  exact dif_neg hne

theorem isSpace_toLower (c : Char) : isSpace c.toLower = isSpace c := by
  have hascii : ∀ n ∈ List.range 128,
      isSpace (Char.ofNat n).toLower = isSpace (Char.ofNat n) := by decide +kernel
  by_cases hc : c.toNat < 128
  · have h := hascii c.toNat (List.mem_range.mpr hc)
    rwa [Char.ofNat_toNat] at h
  · rw [toLower_of_le (by omega)]

/-- Concrete libraries for ASCII text: they lower ASCII letters, score equal titles 1 and titles
    with no 2-gram in common 0, dump no lists and dicts, and bind only values of the column's own
    type. -/
def asciiLibs : Libs ℚ where
  lower := List.map Char.toLower
  cosine a b := if a = b then 1 else 0
  decEq := inferInstance
  fromisoformat _ := none
  fromisoformatLone _ := none
  dump
    | .arr _ | .obj _ => .error .sqlAlchemyError
    | _ => .ok ()
  bindInt
    | .int n => some (some n)
    | .null => some none
    | _ => none
  bindText
    | .str s => some (some s)
    | .null => some none
    | _ => none
  words_lower := Words.words_map isSpace_toLower
  dump_int _ := rfl
  bindInt_int _ := rfl
  bindInt_null := rfl
  bindText_str _ := rfl
  bindText_null := rfl

/-- The subset of stopwords that matters for comparing titles. -/
def STOPWORDS : List String :=
  ["a", "an", "and", "are", "as", "at", "be", "but", "by", "for", "if", "in",
   "into", "is", "it", "no", "not", "of", "on", "or", "such", "that", "the",
   "their", "then", "there", "these", "they", "this", "to", "was", "will",
   "with", "from", "how", "what", "when", "where", "who", "why"]

variable {σ : Type} (L : Libs σ)

/-! ## The program -/

/-- `" ".join(word for word in text.lower().split() if word not in STOPWORDS)`. -/
def joinWords (text : List Char) : String :=
  String.ofList ([' '].intercalate
    ((Words.words isSpace (L.lower text)).filter fun w => String.ofList w ∉ STOPWORDS))

/-- `clean(text)`: punctuation out, lower case, stopwords out, single spaces. -/
def clean (text : Json) : Except PyErr String := do
  let pieces ← (if text.truthy then text else .str "").pieces
  return joinWords L (pieces.filter fun ch => ¬ ch <:+: punctuation).flatten

/-- `similarity(left, right)`: zero when a cleaned title has no 2-gram. -/
def similarity [Zero σ] (left right : Json) : Except PyErr σ := do
  let left ← clean L left
  let right ← clean L right
  if left.length < 2 ∨ right.length < 2 then return 0
  return L.cosine left right

/-! ## On strings -/

/-- `clean` on a string. -/
def cleanStr (text : String) : String :=
  joinWords L (text.toList.filter fun c => c ∉ punctuation)

/-- `similarity` on strings. -/
def score [Zero σ] (left right : String) : σ :=
  if (cleanStr L left).length < 2 ∨ (cleanStr L right).length < 2 then 0
  else L.cosine (cleanStr L left) (cleanStr L right)

/-- Filtering the one-character pieces of a string filters its characters. -/
theorem flatten_filter_pieces (l : List Char) :
    ((l.map fun c => [c]).filter fun ch => ¬ ch <:+: punctuation).flatten
      = l.filter fun c => c ∉ punctuation := by
  induction l with
  | nil => rfl
  | cons c l ih =>
    rw [List.map_cons, List.filter_cons, List.filter_cons]
    by_cases hc : c ∈ punctuation
    · have hin : [c] <:+: punctuation := (List.singleton_infix_iff c punctuation).mpr hc
      rw [if_neg (by simp [hin]), if_neg (by simp [hc]), ih]
    · have hout : ¬ [c] <:+: punctuation := fun h =>
        hc ((List.singleton_infix_iff c punctuation).mp h)
      rw [if_pos (by simp [hout]), if_pos (by simp [hc]), List.flatten_cons, ih]
      rfl

theorem clean_str (text : String) : clean L (.str text) = .ok (cleanStr L text) := by
  have hpieces : (if (Json.str text).truthy then Json.str text else .str "") = .str text := by
    by_cases h : text = ""
    · subst h; rfl
    · simp [Json.truthy, h]
  unfold clean
  rw [hpieces]
  show Except.ok _ = Except.ok _
  rw [flatten_filter_pieces]
  rfl

/-- **On strings `similarity` never raises.** -/
theorem similarity_str [Zero σ] (left right : String) :
    similarity L (.str left) (.str right) = .ok (score L left right) := by
  unfold similarity
  rw [clean_str, clean_str]
  show (if _ then Except.ok (0 : σ) else _) = _
  unfold score
  split <;> rfl

/-! ## What the score depends on -/

/-- The score is the same on both sides when strsimpy's cosine is. -/
theorem score_comm [Zero σ] (hsymm : ∀ a b, L.cosine a b = L.cosine b a) (left right : String) :
    score L left right = score L right left := by
  unfold score
  rw [hsymm (cleanStr L left)]
  by_cases hl : (cleanStr L left).length < 2 <;> by_cases hr : (cleanStr L right).length < 2 <;>
    simp [hl, hr]

/-- Cleaning does not see the whitespace at the ends of a title. -/
theorem cleanStr_strip (text : String) : cleanStr L (strip text) = cleanStr L text := by
  unfold cleanStr joinWords strip
  rw [L.words_lower, L.words_lower, String.toList_ofList, Words.words_filter_strip]

/-- **Titles with the same stripped text have the same scores**, so skipping the recomputation
    for them leaves no stale score. -/
theorem score_strip [Zero σ] {a b : String} (h : strip a = strip b) (u : String) :
    score L a u = score L b u ∧ score L u a = score L u b := by
  have hclean : cleanStr L a = cleanStr L b := by
    rw [← cleanStr_strip L a, h, cleanStr_strip L b]
  unfold score
  rw [hclean]
  exact ⟨rfl, rfl⟩

end DjangoFlaskKafka.Related
