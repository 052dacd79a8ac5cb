import Mathlib.Data.Int.ModEq
import TradingEngine.Json.ItemParse

/-!
# Json/Records — a `Json` made of values, and the values read back

`to_json` makes an object of pairs, `from_json` reads its fields through `operator[]` and the
conversions.  A pair is found under its key (`field_cons_self`); an integer is stored as an
`int64_t` and read as its own type (`toInteger_ofInteger`).
-/

namespace TradingEngine

open Ascii

/-- The bytes of a text. -/
def utf8 (s : String) : List UInt8 := s.toUTF8.data.toList

/-- The text of some bytes; other bytes are no text of the program. -/
def ofUtf8 (s : List UInt8) : String := (String.fromUTF8? ⟨s.toArray⟩).getD ""

theorem ofUtf8_utf8 (s : String) : ofUtf8 (utf8 s) = s := by
  have hbytes : (⟨(utf8 s).toArray⟩ : ByteArray) = s.toUTF8 := rfl
  have hvalid : s.toUTF8.IsValidUTF8 := s.isValidUTF8
  rw [ofUtf8, hbytes, String.fromUTF8?, dif_pos hvalid]
  rfl

namespace JsonItem

/-! ## Writing -/

/-- `JsonObject::add_pair`: the first pair with a key is kept. -/
def addPair (fields : List (List UInt8 × JsonItem)) (pair : List UInt8 × JsonItem) :
    List (List UInt8 × JsonItem) :=
  if ∃ field ∈ fields, field.1 = pair.1 then fields else fields ++ [pair]

/-- `Json(std::initializer_list<std::pair<std::string, Json>>)`. -/
def ofPairs (pairs : List (List UInt8 × JsonItem)) : JsonItem :=
  .object false (pairs.foldl addPair []) []

/-- A text is stored as a `ShareString`. -/
def ofText (s : String) : JsonItem := .value (.string (utf8 s))

def ofDouble (x : ℚ) : JsonItem := .value (.double x)

/-- What converts to `int64_t` is stored as one. -/
def ofInteger (n : ℤ) : JsonItem := .value (.int (-2 ^ 63 + (n + 2 ^ 63) % 2 ^ 64))

/-! ## Reading -/

/-- `data[key]`. -/
def field (t : JsonItem) (key : List UInt8) : JsonItem := t.slot (.key key)

/-- `operator std::string`. -/
def toStdString (doubles : DoubleText) : JsonItem → List UInt8
  | .value (.string s) => s
  | .value _ => []
  | t => t.erase.write doubles

/-- `operator ShareString`. -/
def toShareString : JsonItem → List UInt8
  | .value (.string s) => s
  | _ => []

/-- The conversion to an integer type. -/
def toInteger (low high : ℤ) (t : JsonItem) : Option ℤ :=
  match t.convert (.integer low high) with
  | some (.integer n) => some n
  | _ => none

/-- The conversion to `double`. -/
def toDouble (t : JsonItem) : Option ℚ :=
  match t.convert (.floating id) with
  | some (.floating x) => some x
  | _ => none

/-! ## What is read back -/

variable {pairs fields : List (List UInt8 × JsonItem)} {key : List UInt8} {x : JsonItem}

/-- What is added under a new key. -/
theorem lookup_addPair (fields : List (List UInt8 × JsonItem)) (pair : List UInt8 × JsonItem) :
    (addPair fields pair).lookup key = (fields.lookup key).or ([pair].lookup key) := by
  rw [addPair]
  split_ifs with h
  · obtain ⟨field, hfield, heq⟩ := h
    by_cases hkey : key = pair.1
    · cases hlookup : fields.lookup key with
      | none =>
        have hne := List.lookup_eq_none_iff.mp hlookup field hfield
        rw [heq, hkey] at hne
        exact absurd rfl (bne_iff_ne.mp hne)
      | some value => rfl
    · rw [Fields.lookup_cons_of_ne hkey, List.lookup_nil, Option.or_none]
  · exact List.lookup_append

theorem lookup_foldl_addPair (pairs fields : List (List UInt8 × JsonItem)) :
    (pairs.foldl addPair fields).lookup key = (fields.lookup key).or (pairs.lookup key) := by
  induction pairs generalizing fields with
  | nil => rw [List.foldl_nil, List.lookup_nil, Option.or_none]
  | cons pair pairs ih =>
    rw [List.foldl_cons, ih, lookup_addPair, Option.or_assoc, ← List.lookup_append]
    rfl

theorem field_ofPairs (pairs : List (List UInt8 × JsonItem)) (key : List UInt8) :
    (ofPairs pairs).field key = (pairs.lookup key).getD .nullptr := by
  change ((pairs.foldl addPair []).lookup key).getD .nullptr = _
  rw [lookup_foldl_addPair, List.lookup_nil, Option.none_or]

/-- **A pair is found** under its key. -/
theorem field_cons_self (key : List UInt8) (x : JsonItem) (pairs : List (List UInt8 × JsonItem)) :
    (ofPairs ((key, x) :: pairs)).field key = x := by
  rw [field_ofPairs, List.lookup_cons_self, Option.getD_some]

theorem field_cons_of_ne {k : List UInt8} (h : key ≠ k) (x : JsonItem)
    (pairs : List (List UInt8 × JsonItem)) :
    (ofPairs ((k, x) :: pairs)).field key = (ofPairs pairs).field key := by
  rw [field_ofPairs, field_ofPairs, Fields.lookup_cons_of_ne h]

/-- **An integer is read back** as the type it was written from. -/
theorem toInteger_ofInteger {low high n : ℤ} (hlow : low ≤ n) (hhigh : n ≤ high)
    (hwidth : high - low + 1 ∣ 2 ^ 64) : toInteger low high (ofInteger n) = some n := by
  have hwrap : -2 ^ 63 + (n + 2 ^ 63) % 2 ^ 64 ≡ n [ZMOD 2 ^ 64] := by
    have hmod := (Int.mod_modEq (n + 2 ^ 63) (2 ^ 64)).add_left (-2 ^ 63)
    rwa [add_comm n, neg_add_cancel_left, add_comm (2 ^ 63) n] at hmod
  have hmod : (-2 ^ 63 + (n + 2 ^ 63) % 2 ^ 64 - low) % (high - low + 1) =
      (n - low) % (high - low + 1) := (hwrap.of_dvd hwidth).sub_right low
  change some (low + (-2 ^ 63 + (n + 2 ^ 63) % 2 ^ 64 - low) % (high - low + 1)) = some n
  rw [hmod, Int.emod_eq_of_lt (by omega) (by omega)]
  congr 1
  omega

@[simp] theorem toDouble_ofDouble (x : ℚ) : (ofDouble x).toDouble = some x := rfl

@[simp] theorem toStdString_ofText (doubles : DoubleText) (s : String) :
    (ofText s).toStdString doubles = utf8 s := rfl

@[simp] theorem toShareString_ofText (s : String) : (ofText s).toShareString = utf8 s := rfl

end JsonItem

end TradingEngine
