/-
  The Python the services are written in, as far as they lean on it: the values `json.loads`
  hands to a handler, the exceptions an operation on such a value can raise, and the string
  methods `strip` and `replace`.

  A handler indexes, strips and iterates UNVALIDATED values, so each of these operations is total
  here and raises what CPython raises: indexing anything but a dict by a string is a `TypeError`
  (a missing key a `KeyError`), calling a string method on anything but a string is an
  `AttributeError`.

  A Python string need not be Unicode text: of an escape such as "\ud800" without its partner
  `json.loads` makes a code point that no encoding has.  A string with one is a value of its own
  here (`Json.lone`).
-/
import DjangoFlaskKafka.Lib.Words
import DjangoFlaskKafka.Lib.Raising

namespace DjangoFlaskKafka.Python

open Raising

/-! ## Values and exceptions -/

/-- The character no Postgres text column and no validated form field may contain. -/
def nul : Char := Char.ofNat 0

/-- A string with a surrogate in it, by its code points: characters and surrogates. -/
structure LoneText where
  points : List (Char ⊕ Fin 2048)
  lone : ∃ x ∈ points, x.isRight

namespace LoneText

/-- The characters, U+FFFD in the place of a surrogate: neither is whitespace or punctuation, has
    another case or may stand in a slug. -/
def text (t : LoneText) : String :=
  String.ofList (t.points.map (Sum.elim id fun _ => Char.ofNat 0xFFFD))

/-- `s.replace("Z", "+00:00")`. -/
def replaceZ (t : LoneText) : LoneText where
  points := t.points.flatMap fun x =>
    if x = .inl 'Z' then "+00:00".toList.map .inl else [x]
  lone := by
    obtain ⟨x, hx, hlone⟩ := t.lone
    refine ⟨x, List.mem_flatMap.mpr ⟨x, hx, ?_⟩, hlone⟩
    rw [if_neg (by rintro rfl; cases hlone)]
    exact List.mem_singleton_self x

end LoneText

/-- A parsed JSON value.  `float` keeps the number's text; a dict is its list of items. -/
inductive Json where
  | null
  | bool (b : Bool)
  | int (n : Int)
  | float (repr : String)
  | str (s : String)
  | lone (t : LoneText)
  | arr (xs : List Json)
  | obj (items : List (String × Json))

/-- The exception classes that reach a handler's caller. -/
inductive PyErr where
  | keyError
  | typeError
  | attributeError
  | valueError
  | databaseError
  | sqlAlchemyError
  deriving DecidableEq, Repr

namespace Json

/-- `payload[key]` with a string key. -/
def item (key : String) : Json → Except PyErr Json
  | obj items => (items.lookup key).elim (.error .keyError) .ok
  | _ => .error .typeError

/-- `payload.get(key)`: only dicts have the method, and a missing key reads as `None`. -/
def get (key : String) : Json → Except PyErr Json
  | obj items => .ok ((items.lookup key).getD null)
  | _ => .error .attributeError

/-- Truth value testing. -/
def truthy : Json → Bool
  | null => false
  | bool b => b
  | int n => n != 0
  | float repr => repr != "0.0" && repr != "-0.0"
  | str s => s != ""
  | lone _ => true
  | arr xs => !xs.isEmpty
  | obj items => !items.isEmpty

/-- The value as a key of a new dict, in the text `json.dumps` gives that key.  Lists and dicts
    are unhashable. -/
def dictKey : Json → Except PyErr String
  | null => .ok "null"
  | bool true => .ok "true"
  | bool false => .ok "false"
  | int n => .ok (toString n)
  | float repr => .ok repr
  | str s => .ok s
  | lone t => .ok t.text
  | arr _ => .error .typeError
  | obj _ => .error .typeError

/-- The value as a key looked up among STRING keys: hashable values that are not strings are
    equal to none of them. -/
def stringKey : Json → Except PyErr (Option String)
  | str s => .ok (some s)
  | arr _ => .error .typeError
  | obj _ => .error .typeError
  | _ => .ok none

/-- The value as it is, if a dict can have it as a key. -/
def hashable : Json → Except PyErr Json
  | arr _ => .error .typeError
  | obj _ => .error .typeError
  | key => .ok key

/-- `for piece in value`: a string yields its characters, a list its elements and a dict its
    keys.  The caller needs the pieces to be strings, as `piece in string.punctuation` does. -/
def pieces : Json → Except PyErr (List (List Char))
  | str s => .ok (s.toList.map fun c => [c])
  | lone t => .ok (t.text.toList.map fun c => [c])
  | arr xs => xs.mapM fun
    | str s => .ok s.toList
    | lone t => .ok t.text.toList
    | _ => .error .typeError
  | obj items => .ok (items.map fun kv => kv.1.toList)
  | _ => .error .typeError

@[simp] theorem item_obj (key : String) (items : List (String × Json)) :
    item key (obj items) = (items.lookup key).elim (.error .keyError) .ok := rfl

@[simp] theorem dictKey_str (s : String) : dictKey (str s) = .ok s := rfl
@[simp] theorem stringKey_str (s : String) : stringKey (str s) = .ok (some s) := rfl

end Json

/-! ## Text -/

/-- The whitespace of `str.split`, `str.strip` and friends. -/
def isSpace (c : Char) : Bool :=
  let n := c.toNat
  (9 ≤ n && n ≤ 13) || (28 ≤ n && n ≤ 32) || n == 0x85 || n == 0xA0 || n == 0x1680 ||
    (0x2000 ≤ n && n ≤ 0x200A) || n == 0x2028 || n == 0x2029 || n == 0x202F || n == 0x205F ||
    n == 0x3000

/-- `string.punctuation`. -/
def punctuation : List Char := "!\"#$%&'()*+,-./:;<=>?@[\\]^_`\x7b|\x7d~".toList

/-- `s.strip()`. -/
def strip (s : String) : String := String.ofList (Words.strip isSpace s.toList)

/-- Stripping twice is stripping once. -/
theorem strip_strip (s : String) : strip (strip s) = strip s := by
  unfold strip
  rw [String.toList_ofList, Words.strip_strip]

/-- There is nothing to strip of the text of an integer. -/
theorem strip_toString (n : Int) : strip (toString n) = toString n ∧ toString n ≠ "" := by
  have hdigits : ∀ m : Nat, ∀ c ∈ m.repr.toList, isSpace c = false := by
    intro m c hc
    rw [Nat.toList_repr] at hc
    obtain ⟨hlow, hhigh⟩ := Char.isDigit_iff_toNat.mp
      (Nat.isDigit_of_mem_toDigits (by decide) (by decide) hc)
    have hlow : 48 ≤ c.toNat := hlow
    have hhigh : c.toNat ≤ 57 := hhigh
    simp only [isSpace, Bool.or_eq_false_iff, Bool.and_eq_false_iff, decide_eq_false_iff_not,
      beq_eq_false_iff_ne]
    omega
  have hstrip : ∀ {s : String}, (∀ c ∈ s.toList, isSpace c = false) → strip s = s := by
    intro s hs
    unfold strip
    rw [Words.strip_of_forall hs, String.ofList_toList]
  cases n with
  | ofNat m => exact ⟨hstrip (hdigits m), Nat.repr_ne_empty⟩
  | negSucc m =>
    have htext : toString (Int.negSucc m) = "-" ++ (m + 1).repr := rfl
    rw [htext]
    refine ⟨hstrip fun c hc => ?_, fun h => by simp at h⟩
    rw [String.toList_append] at hc
    rcases List.mem_append.mp hc with hc | hc
    · obtain rfl : c = '-' := by simpa using hc
      rfl
    · exact hdigits (m + 1) c hc

/-- `s.replace("Z", "+00:00")`. -/
def replaceZ (s : String) : String :=
  String.ofList (s.toList.flatMap fun c => if c = 'Z' then "+00:00".toList else [c])

/-- `value.strip()`, to be compared with Unicode text: `none` is a string that is none, which it is
    not by its whitespace.  Every other JSON value has no string methods. -/
def Json.stripped : Json → Except PyErr (Option String)
  | str s => .ok (some (strip s))
  | lone _ => .ok none
  | _ => .error .attributeError

@[simp] theorem Json.stripped_str (s : String) : stripped (str s) = .ok (some (strip s)) := rfl

/-! ## Time -/

/-- A `datetime`: the wall clock reading and, when it is aware, its UTC offset, in microseconds. -/
structure DateTime where
  wall : Int
  utcoffset : Option Int
  deriving DecidableEq, Repr

/-! ## Exceptions in sequence -/

/-- A sequence returns when both its steps do. -/
theorem bind_eq_ok {ε α β : Type} {x : Except ε α} {f : α → Except ε β} {b : β} :
    (x >>= f) = .ok b ↔ ∃ a, x = .ok a ∧ f a = .ok b := by
  cases x with
  | error e => exact iff_of_false (by intro h; cases h) (by rintro ⟨a, h, -⟩; cases h)
  | ok a => exact ⟨fun h => ⟨a, rfl, h⟩, fun ⟨a', ha, h⟩ => Except.ok.inj ha ▸ h⟩

/-- The same of a function of the result. -/
theorem map_eq_ok {α β : Type} {x : Except PyErr α} {f : α → β} {b : β} :
    x.map f = .ok b ↔ ∃ a, x = .ok a ∧ f a = b := by
  cases x with
  | error e => exact iff_of_false (by intro h; cases h) (by rintro ⟨a, h, -⟩; cases h)
  | ok a =>
    exact ⟨fun h => ⟨a, rfl, Except.ok.inj h⟩, fun ⟨a', ha, h⟩ => by rw [ha, ← h]; rfl⟩

/-- A loop that does not raise raises for none of its values. -/
theorem mapM_eq_ok {α β : Type} {f : α → Except PyErr β} {xs : List α} {ys : List β}
    (h : xs.mapM f = .ok ys) : ∀ x ∈ xs, ∃ y, f x = .ok y := by
  induction xs generalizing ys with
  | nil => simp
  | cons x xs ih =>
    rw [List.mapM_cons] at h
    obtain ⟨y, hy, h⟩ := bind_eq_ok.mp h
    obtain ⟨ys', hys', -⟩ := bind_eq_ok.mp h
    exact List.forall_mem_cons.mpr ⟨⟨y, hy⟩, ih hys'⟩

/-- A loop whose every step returns. -/
theorem mapM_of_ok {α β : Type} {f : α → Except PyErr β} {g : α → β} {xs : List α}
    (h : ∀ x ∈ xs, f x = .ok (g x)) : xs.mapM f = .ok (xs.map g) := by
  induction xs with
  | nil => rfl
  | cons x xs ih =>
    obtain ⟨hx, hxs⟩ := List.forall_mem_cons.mp h
    rw [List.mapM_cons, hx, ih hxs]
    rfl

end DjangoFlaskKafka.Python
