import Mathlib.Data.Rat.Defs
import TradingEngine.Machinery.Ascii

/-!
# Json/Json — the tree, and its text

A `Json` is a scalar, an array or an object; the fields of an object stand in the order the hash map
is iterated in, and `Same` compares two trees whatever these orders are.  Doubles are written and
read by the standard library, which enters as `DoubleText`.
-/

namespace TradingEngine

open Ascii

/-- `Json`: null, a `JsonValue` or a `JsonObject`. -/
inductive Json
  | null
  | bool (value : Bool)
  | int (value : ℤ)
  | double (value : ℚ)
  | string (value : List UInt8)
  | array (elements : List Json)
  | object (fields : List (List UInt8 × Json))

/-- `std::to_chars` and `std::from_chars` on doubles. -/
structure DoubleText where
  toChars : ℚ → List UInt8
  fromChars : List UInt8 → Option ℚ

namespace Json

/-- `std::to_chars` on an `int64_t`. -/
def intToChars (n : ℤ) : List UInt8 :=
  if n < 0 then minus :: decimal n.natAbs else decimal n.natAbs

variable (doubles : DoubleText)

mutual

/-- `write_string_value`, of a tree whose strings are all in the string format; `JsonView` has the
format of each. -/
def write : Json → List UInt8
  | .null => text "null"
  | .bool value => if value then text "true" else text "false"
  | .int value => intToChars value
  | .double value => doubles.toChars value
  | .string value => quote :: value ++ [quote]
  | .array [] => [openBracket, closeBracket]
  | .array (e :: es) => openBracket :: write e ++ writeElements es
  | .object [] => [openBrace, closeBrace]
  | .object ((key, value) :: fs) =>
    openBrace :: quote :: key ++ quote :: colon :: write value ++ writeFields fs

/-- The elements after the first, and the closing bracket. -/
def writeElements : List Json → List UInt8
  | [] => [closeBracket]
  | e :: es => comma :: write e ++ writeElements es

/-- The fields after the first, and the closing brace. -/
def writeFields : List (List UInt8 × Json) → List UInt8
  | [] => [closeBrace]
  | (key, value) :: fs => comma :: quote :: key ++ quote :: colon :: write value ++ writeFields fs

end

/-- Structural equality: objects are compared as maps. -/
inductive Same : Json → Json → Prop
  | null : Same .null .null
  | bool (value : Bool) : Same (.bool value) (.bool value)
  | int (value : ℤ) : Same (.int value) (.int value)
  | double (value : ℚ) : Same (.double value) (.double value)
  | string (value : List UInt8) : Same (.string value) (.string value)
  | array {es es' : List Json} (hlength : es.length = es'.length)
      (h : ∀ p ∈ es.zip es', Same p.1 p.2) : Same (.array es) (.array es')
  | object {fs gs gs' : List (List UInt8 × Json)} (hperm : fs.Perm gs)
      (hkeys : gs.map (·.1) = gs'.map (·.1)) (h : ∀ p ∈ gs.zip gs', Same p.1.2 p.2.2) :
      Same (.object fs) (.object gs')

/-- A string without quotes and backslashes. -/
def PlainText (s : List UInt8) : Prop := ∀ c ∈ s, c ≠ quote ∧ c ≠ backslash

/-- A key that is no closing brace and has no NUL either. -/
def PlainKey (key : List UInt8) : Prop :=
  PlainText key ∧ (∀ c ∈ key, c ≠ 0) ∧ key ≠ [closeBrace]

/-- `int64_t`. -/
def IsInt64 (n : ℤ) : Prop := -2 ^ 63 ≤ n ∧ n < 2 ^ 63

instance (n : ℤ) : Decidable (IsInt64 n) := inferInstanceAs (Decidable (_ ∧ _))

/-- The trees that come back from their text: no double, plain strings and keys, and no container
without an element.  The keys of a map are distinct. -/
inductive Plain : Json → Prop
  | null : Plain .null
  | bool (value : Bool) : Plain (.bool value)
  | int {value : ℤ} (h : IsInt64 value) : Plain (.int value)
  | string {value : List UInt8} (h : PlainText value) : Plain (.string value)
  | array {es : List Json} (hne : es ≠ []) (h : ∀ e ∈ es, Plain e) : Plain (.array es)
  | object {fs : List (List UInt8 × Json)} (hne : fs ≠ []) (hkeys : (fs.map (·.1)).Nodup)
      (hplain : ∀ f ∈ fs, PlainKey f.1) (h : ∀ f ∈ fs, Plain f.2) : Plain (.object fs)

theorem eq_of_mem_zip_self {α : Type} {l : List α} {p : α × α} (h : p ∈ l.zip l) :
    p.1 = p.2 ∧ p.1 ∈ l := by
  obtain ⟨i, hi, rfl⟩ := List.mem_iff_getElem.mp h
  rw [List.getElem_zip]
  exact ⟨rfl, List.getElem_mem _⟩

/-- A tree is the same as itself. -/
theorem Same.refl (t : Json) : Same t t :=
  @Json.rec (fun t => Same t t) (fun es => ∀ e ∈ es, Same e e) (fun fs => ∀ f ∈ fs, Same f.2 f.2)
    (fun f => Same f.2 f.2) .null .bool .int .double .string
    (fun es h => .array rfl fun p hp => by
      obtain ⟨heq, hmem⟩ := eq_of_mem_zip_self hp
      exact heq ▸ h p.1 hmem)
    (fun fs h => .object (.refl fs) rfl fun p hp => by
      obtain ⟨heq, hmem⟩ := eq_of_mem_zip_self hp
      exact heq ▸ h p.1 hmem)
    (fun _ h => absurd h List.not_mem_nil) (fun _ _ h hs => List.forall_mem_cons.mpr ⟨h, hs⟩)
    (fun _ h => absurd h List.not_mem_nil) (fun _ _ h hs => List.forall_mem_cons.mpr ⟨h, hs⟩)
    (fun _ _ h => h) t

/-- The fields of an object in another order. -/
theorem Same.of_perm {fs gs : List (List UInt8 × Json)} (hperm : fs.Perm gs) :
    Same (.object fs) (.object gs) := by
  refine .object hperm rfl fun p hp => ?_
  rw [← (eq_of_mem_zip_self hp).1]
  exact .refl _

/-- **The iteration order of the maps does not matter** for what a tree is made of. -/
theorem Plain.of_same {t u : Json} (h : Plain t) (hsame : Same t u) : Plain u := by
  induction h generalizing u with
  | null => cases hsame; exact .null
  | bool value => cases hsame; exact .bool value
  | int h => cases hsame; exact .int h
  | string h => cases hsame; exact .string h
  | @array es hne h ih =>
    cases hsame with
    | @array _ es' hlength hzip =>
      refine .array (fun hnil => hne ?_) fun e' he' => ?_
      · rw [← List.length_eq_zero_iff, hlength, hnil, List.length_nil]
      · obtain ⟨i, hi, rfl⟩ := List.mem_iff_getElem.mp he'
        have hi' : i < es.length := hlength ▸ hi
        exact ih es[i] (List.getElem_mem hi')
          (hzip (es[i], es'[i]) (List.mem_iff_getElem.mpr ⟨i, by simp [hi, hi'], by simp⟩))
  | @object fs hne hkeys hplain h ih =>
    cases hsame with
    | @object _ gs gs' hperm hmap hzip =>
      have hlength : gs.length = gs'.length := by
        rw [← List.length_map (·.1), hmap, List.length_map]
      -- a field of the second tree has the key and the value of one of the first
      have hfield : ∀ g' ∈ gs', ∃ f ∈ fs, f.1 = g'.1 ∧ Same f.2 g'.2 := by
        intro g' hg'
        obtain ⟨i, hi, rfl⟩ := List.mem_iff_getElem.mp hg'
        have hi' : i < gs.length := hlength ▸ hi
        refine ⟨gs[i], hperm.mem_iff.mpr (List.getElem_mem hi'), ?_,
          hzip (gs[i], gs'[i]) (List.mem_iff_getElem.mpr ⟨i, by simp [hi, hi'], by simp⟩)⟩
        have hget := congrArg (·[i]?) hmap
        simpa [hi, hi'] using hget
      refine .object (fun hnil => hne ?_) ?_ (fun g' hg' => ?_) fun g' hg' => ?_
      · rw [hnil, List.length_nil, List.length_eq_zero_iff] at hlength
        rw [hlength] at hperm
        exact hperm.eq_nil
      · rw [← hmap]
        exact (hperm.map _).nodup_iff.mp hkeys
      · obtain ⟨f, hf, hkey, -⟩ := hfield g' hg'
        exact hkey ▸ hplain f hf
      · obtain ⟨f, hf, -, hvalue⟩ := hfield g' hg'
        exact ih f hf hvalue

end Json

end TradingEngine
