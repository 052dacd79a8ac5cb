import Mathlib.Data.Int.Notation
import Mathlib.Data.List.Nodup

/-!
# EnumReflect — enumerators and their names

`enum_name` reads the table of the names of the values 0 to 509, `enum_value` scans it.  The names
the compiler makes up for values without an enumerator are left out of the table: no text the
program writes or reads is one.
-/

namespace TradingEngine

/-- An enum with its enumerators. -/
class Reflected (E : Type) where
  enumerators : List E
  value : E → ℤ
  name : E → String
  zero : E
  mem_enumerators : ∀ e, e ∈ enumerators
  names_nodup : (enumerators.map name).Nodup
  value_zero : value zero = 0

namespace EnumReflect

variable {E : Type} [Reflected E]

/-- `ENUM_MAX`. -/
def enumMax : ℤ := 510

/-- The table has a name for the value. -/
def InTable (e : E) : Prop := 0 ≤ Reflected.value e ∧ Reflected.value e < enumMax

instance (e : E) : Decidable (InTable e) := inferInstanceAs (Decidable (_ ∧ _))

/-- `enum_name`; nothing is read past the table. -/
def enumName (e : E) : Option String := if InTable e then some (Reflected.name e) else none

/-- `enum_value`: an unknown name is read as the first value. -/
def enumValue (name : String) : E :=
  (Reflected.enumerators.find? fun e : E => InTable e ∧ Reflected.name e = name).getD Reflected.zero

/-- **A name is read back.** -/
theorem enumValue_name {e : E} (h : InTable e) : enumValue (Reflected.name e) = e := by
  rw [enumValue]
  rcases hfind : Reflected.enumerators.find? fun e' : E =>
      InTable e' ∧ Reflected.name e' = Reflected.name e with _ | e'
  · have hnone := List.find?_eq_none.mp hfind e (Reflected.mem_enumerators e)
    exact absurd (decide_eq_true ⟨h, rfl⟩) hnone
  · have hfound := List.find?_some hfind
    rw [decide_eq_true_iff] at hfound
    exact List.inj_on_of_nodup_map Reflected.names_nodup (List.mem_of_find?_eq_some hfind)
      (Reflected.mem_enumerators e) hfound.2

/-- A name of no other enumerator is read as the first value. -/
theorem enumValue_eq_zero {name : String}
    (h : ∀ e : E, Reflected.name e = name → e = Reflected.zero) :
    enumValue name = (Reflected.zero : E) := by
  rw [enumValue]
  cases hfind : Reflected.enumerators.find? fun e : E => InTable e ∧ Reflected.name e = name with
  | none => rfl
  | some e =>
    have hfound := List.find?_some hfind
    rw [decide_eq_true_iff] at hfound
    exact h e hfound.2

theorem enumName_eq_some {e : E} {name : String} :
    enumName e = some name ↔ InTable e ∧ Reflected.name e = name := by
  rw [enumName]
  split_ifs with h
  · rw [Option.some.injEq, and_iff_right h]
  · exact iff_of_false nofun fun hin => h hin.1

end EnumReflect

end TradingEngine
