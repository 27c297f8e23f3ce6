/-
  The models and the serializer of the posts service — `services/posts/posts/models.py` and
  `serializers.py`.

  A row of `Post` has been through `PostSerializer`, so its texts are as long as the serializer
  allows and free of NULs and surrogates: `Text n` says so in the type, and a table is its rows with
  the unique constraints.  `PostSerializer` itself is DRF's `ModelSerializer` over these fields, so
  its fields are the `CharField`s DRF derives from the model (`title`, `image`, `body`, `slug`; the
  others are read-only), and `isValid` is their validation.

  `created_at` and `updated_at` of a post are stamped by Django, shown in the answers, travel in the
  payload and are read by no handler; they are left out.
-/
import DjangoFlaskKafka.Kafka
import DjangoFlaskKafka.Postgres
import Mathlib.Data.List.Nodup

namespace DjangoFlaskKafka.Posts

open Python Kafka Postgres

/-! ## Models -/

/-- Text that a `CharField(max_length=n)` has let through. -/
abbrev Text (n : Nat) := { s : String // Varchar n s }

/-- A row of `Post`. -/
@[ext] structure Post where
  id : Int
  title : Text 200
  image : Text 250
  body : Text 1500
  slug : Text 200
  deriving DecidableEq

/-- The constraints of the table: primary key and unique slug. -/
structure PostConstraints (rows : List Post) : Prop where
  ids : (rows.map Post.id).Nodup
  slugs : (rows.map Post.slug).Nodup

instance : DecidablePred PostConstraints := fun rows =>
  decidable_of_iff ((rows.map Post.id).Nodup ∧ (rows.map Post.slug).Nodup)
    ⟨fun h => ⟨h.1, h.2⟩, fun h => ⟨h.ids, h.slugs⟩⟩

/-- The table of posts. -/
abbrev PostTable := { rows : List Post // PostConstraints rows }

/-- A row of `OutboxEvent`. -/
structure OutboxEvent where
  id : Uuid
  topic : Topic
  key : Text 200
  payload : Json
  created_at : Int
  published_at : Option Int

/-- The constraint of the outbox: its primary key. -/
def OutboxConstraints (rows : List OutboxEvent) : Prop := (rows.map OutboxEvent.id).Nodup

instance : DecidablePred OutboxConstraints := fun _ => inferInstanceAs (Decidable (List.Nodup _))

/-- The outbox. -/
abbrev OutboxTable := { rows : List OutboxEvent // OutboxConstraints rows }

/-! ## The serializer -/

/-- What a field's validation can object to. -/
inductive ErrorCode where
  | required
  | null
  | invalid
  | blank
  | maxLength
  | nullCharacters
  | surrogateCharacters
  | unique
  deriving DecidableEq, Repr

/-- The objections by field. -/
abbrev Errors := List (String × List ErrorCode)

/-- A DRF `CharField`; `slug` makes it a `SlugField`. -/
structure CharField where
  max_length : Nat
  required : Bool := true
  allow_blank : Bool := false
  slug : Bool := false

/-- `data == ""`, or nothing is left once it is trimmed. -/
def isBlank : Json → Bool
  | .str s => strip s = ""
  | _ => false

/-- `CharField.to_internal_value`: strings are trimmed, numbers take their text, and the rest is
    `invalid`. -/
def toInternalValue : Json → Option String
  | .str s => some (strip s)
  | .int n => some (toString n)
  | .float repr => some repr
  | _ => none

/-- The letters of a slug. -/
def isSlugChar (c : Char) : Bool := c.isAlphanum || c = '-' || c = '_'

/-- The validators of the field's class: the length, the characters that are prohibited, and the
    pattern of a `SlugField`. -/
def CharField.validators (f : CharField) (lone : Bool) (s : String) : List ErrorCode :=
  (if s.length ≤ f.max_length then [] else [.maxLength]) ++
    (if nul ∈ s.toList then [.nullCharacters] else []) ++
    (if lone then [.surrogateCharacters] else []) ++
    (if f.slug ∧ ¬ s.toList.all isSlugChar then [.invalid] else [])

/-- What the validators ask of a Unicode text. -/
theorem CharField.validators_eq_nil_iff {f : CharField} {s : String} :
    f.validators false s = [] ↔
      Varchar f.max_length s ∧ (f.slug = true → s.toList.all isSlugChar = true) := by
  unfold CharField.validators Varchar
  by_cases hlen : s.length ≤ f.max_length <;> by_cases hnul : nul ∈ s.toList <;>
    by_cases hslug : f.slug = true <;> by_cases hletters : s.toList.all isSlugChar = true <;>
    simp [hlen, hnul, hslug, hletters]

/-- The text of an accepted blank. -/
def blankText (n : Nat) : Text n := ⟨"", by simp [Varchar]⟩

/-- `CharField.run_validation`, after the validators of the model field; `none` is a value that was
    not sent, and an accepted one that is skipped. -/
def CharField.runValidation (f : CharField) (validators : String → List ErrorCode) :
    Option Json → Except (List ErrorCode) (Option (Text f.max_length))
  | none => if f.required then .error [.required] else .ok none
  | some .null => .error [.null]
  | some (.lone t) => .error (f.validators true (strip t.text))
  | some value =>
    if isBlank value then
      if f.allow_blank then .ok (some (blankText f.max_length)) else .error [.blank]
    else match toInternalValue value with
      | none => .error [.invalid]
      | some s =>
        if h : validators s = [] ∧ f.validators false s = [] then
          .ok (some ⟨s, (CharField.validators_eq_nil_iff.mp h.2).1⟩)
        else .error (validators s ++ f.validators false s)

/-- `UniqueValidator` of `slug`, which passes over the instance being updated; it finds no text that
    cannot be sent. -/
def uniqueValidator (existing : Option Post) (rows : List Post) (s : String) : List ErrorCode :=
  if rows.any fun p => p.slug.1 = s ∧ existing.map Post.id ≠ some p.id then [.unique] else []

/-- `serializer.validated_data`; a blank-able field that was not sent is not in it. -/
structure Validated where
  title : Text 200
  image : Option (Text 250)
  body : Text 1500
  slug : Text 200

def titleField : CharField := { max_length := 200 }
def imageField : CharField := { max_length := 250, required := false, allow_blank := true }
def bodyField : CharField := { max_length := 1500 }
def slugField : CharField := { max_length := 200, slug := true }

/-- The objections of one field. -/
def errorsOf {α : Type} (field : String) : Except (List ErrorCode) α → Errors
  | .ok _ => []
  | .error codes => [(field, codes)]

/-- `PostSerializer(instance, data).is_valid()` against the committed rows. -/
def isValid (existing : Option Post) (rows : List Post) : Json → Except Errors Validated
  | .obj items =>
    let title := titleField.runValidation (fun _ => []) (items.lookup "title")
    let image := imageField.runValidation (fun _ => []) (items.lookup "image")
    let body := bodyField.runValidation (fun _ => []) (items.lookup "body")
    let slug := slugField.runValidation (uniqueValidator existing rows) (items.lookup "slug")
    match title, image, body, slug with
    | .ok (some title), .ok image, .ok (some body), .ok (some slug) =>
      .ok { title := title, image := image, body := body, slug := slug }
    | title, image, body, slug =>
      .error (errorsOf "title" title ++ errorsOf "image" image ++ errorsOf "body" body ++
        errorsOf "slug" slug)
  | .null => .error [("non_field_errors", [.null])]
  | _ => .error [("non_field_errors", [.invalid])]

/-- The row that `serializer.save()` creates; the default of an absent image is blank. -/
def Validated.create (data : Validated) (id : Int) : Post where
  id := id
  title := data.title
  image := data.image.getD (blankText 250)
  body := data.body
  slug := data.slug

/-- The row that `serializer.save()` makes of an instance. -/
def Validated.update (data : Validated) (post : Post) : Post where
  id := post.id
  title := data.title
  image := data.image.getD post.image
  body := data.body
  slug := data.slug

/-- `PostSerializer(post).data`. -/
def Post.data (post : Post) : Json :=
  .obj [("id", .int post.id), ("title", .str post.title.1), ("image", .str post.image.1),
    ("body", .str post.body.1), ("slug", .str post.slug.1)]

end DjangoFlaskKafka.Posts
