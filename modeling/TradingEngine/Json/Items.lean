import Mathlib.Data.Rat.Defs
import TradingEngine.Json.Store
import TradingEngine.Machinery.Fields

/-!
# Json/Items — what is read of a `Json`

A `Json` may hold no item at all.  `operator[]` looks at that, makes a container and hands out a slot
that holds none; some of the readers look at it too, and some do not (`isSome_call_iff`).  A chain of
`operator[]` leaves every place as it is, but the places it goes on from are containers afterwards
(`reached_run`, `isContainer_reached_run`).
-/

namespace TradingEngine

/-- A `Json`, with what `m_value` points to. -/
inductive JsonItem
  | nullptr
  | value (x : JsonScalar)
  | object (isArray : Bool) (fields : List (List UInt8 × JsonItem)) (elements : List JsonItem)

/-- The argument of `operator[]`. -/
inductive JsonIndex
  | key (key : List UInt8)
  | index (i : ℕ)
  deriving DecidableEq

namespace JsonItem

/-! ## `operator[]` -/

/-- The containers that `check_create_json_object` leaves: of an item that is no object, new ones. -/
def fields : JsonItem → List (List UInt8 × JsonItem)
  | .object _ fields _ => fields
  | _ => []

def elements : JsonItem → List JsonItem
  | .object _ _ elements => elements
  | _ => []

/-- What the slot holds that `operator[]` hands out. -/
def slot (t : JsonItem) : JsonIndex → JsonItem
  | .key key => (t.fields.lookup key).getD .nullptr
  | .index i => (t.elements[i]?).getD .nullptr

/-- An array that is resized for an index. -/
def resized (elements : List JsonItem) (i : ℕ) : List JsonItem :=
  elements ++ List.replicate (i + 1 - elements.length) .nullptr

/-- `operator[]`, and what is made of the slot. -/
def put (t : JsonItem) (f : JsonItem → JsonItem) : JsonIndex → JsonItem
  | .key key => .object false (Fields.put t.fields key .nullptr f) t.elements
  | .index i => .object true t.fields ((resized t.elements i).modify i f)

variable {t : JsonItem} {f : JsonItem → JsonItem} {a b : JsonIndex} {path chain : List JsonIndex}
  {chains : List (List JsonIndex)}

theorem getD_resized (elements : List JsonItem) (i j : ℕ) :
    ((resized elements i)[j]?).getD .nullptr = (elements[j]?).getD .nullptr := by
  rw [resized]
  by_cases h : j < elements.length
  · rw [List.getElem?_append_left h]
  · rw [List.getElem?_append_right (Nat.le_of_not_lt h), List.getElem?_replicate,
      List.getElem?_eq_none (Nat.le_of_not_lt h)]
    split_ifs <;> rfl

theorem lt_length_resized (elements : List JsonItem) (i : ℕ) : i < (resized elements i).length := by
  rw [resized, List.length_append, List.length_replicate]
  omega

/-- **The slot that is handed out** is the one that changes. -/
theorem slot_put (t : JsonItem) (f : JsonItem → JsonItem) (a : JsonIndex) :
    (t.put f a).slot a = f (t.slot a) := by
  cases a with
  | key key =>
    change ((Fields.put t.fields key nullptr f).lookup key).getD .nullptr = _
    rw [Fields.lookup_put_self]
    rfl
  | index i =>
    have hslot := getD_resized t.elements i i
    rw [List.getElem?_eq_getElem (lt_length_resized _ _), Option.getD_some] at hslot
    change (((resized t.elements i).modify i f)[i]?).getD .nullptr = f ((t.elements[i]?).getD .nullptr)
    rw [List.getElem?_modify_eq, List.getElem?_eq_getElem (lt_length_resized _ _), ← hslot]
    rfl

/-- The other slots keep what they hold. -/
theorem slot_put_of_ne (h : b ≠ a) : (t.put f a).slot b = t.slot b := by
  cases a with
  | key key =>
    cases b with
    | key k =>
      have hne : k ≠ key := fun heq => h (congrArg _ heq)
      change ((Fields.put t.fields key nullptr f).lookup k).getD .nullptr = _
      rw [Fields.lookup_put_of_ne hne]
      rfl
    | index i => rfl
  | index i =>
    cases b with
    | key k => rfl
    | index j =>
      change (((resized t.elements i).modify i f)[j]?).getD .nullptr = _
      have hne : i ≠ j := fun heq => h (congrArg _ heq.symm)
      rw [List.getElem?_modify_ne _ _ hne, getD_resized]
      rfl

/-! ## Chains -/

/-- The `Json` a chain of `operator[]` hands out. -/
def reached (t : JsonItem) : List JsonIndex → JsonItem
  | [] => t
  | a :: path => (t.slot a).reached path

/-- What a chain of `operator[]` leaves. -/
def after : List JsonIndex → JsonItem → JsonItem
  | [], t => t
  | a :: chain, t => t.put (after chain) a

/-- Some chains, one after the other. -/
def run (t : JsonItem) (chains : List (List JsonIndex)) : JsonItem :=
  chains.foldl (fun t chain => after chain t) t

/-- The chain goes on from a place. -/
def GoesOn (path chain : List JsonIndex) : Prop := path <+: chain ∧ path ≠ chain

/-- There is an item, and it is no value. -/
def isContainer : JsonItem → Bool
  | .object _ _ _ => true
  | _ => false

theorem isContainer_put (t : JsonItem) (f : JsonItem → JsonItem) (a : JsonIndex) :
    (t.put f a).isContainer = true := by
  cases a <;> rfl

theorem put_ne_nullptr (t : JsonItem) (f : JsonItem → JsonItem) (a : JsonIndex) :
    t.put f a ≠ .nullptr := by
  cases a <;> exact nofun

theorem reached_after (h : ¬ GoesOn path chain) :
    (after chain t).reached path = t.reached path := by
  induction path generalizing chain t with
  | nil =>
    cases chain with
    | nil => rfl
    | cons a chain => exact absurd ⟨List.nil_prefix, (List.cons_ne_nil _ _).symm⟩ h
  | cons b path ih =>
    cases chain with
    | nil => rfl
    | cons a chain =>
      rw [after, reached, reached]
      by_cases hb : b = a
      · subst hb
        rw [slot_put]
        refine ih fun hon => h ⟨List.cons_prefix_cons.mpr ⟨rfl, hon.1⟩, fun heq => ?_⟩
        exact hon.2 (List.cons.inj heq).2
      · rw [slot_put_of_ne hb]

theorem isContainer_reached_after (h : GoesOn path chain) :
    ((after chain t).reached path).isContainer = true := by
  induction path generalizing chain t with
  | nil =>
    cases chain with
    | nil => exact absurd rfl h.2
    | cons a chain => exact isContainer_put t _ a
  | cons b path ih =>
    cases chain with
    | nil => exact absurd (List.prefix_nil.mp h.1) (List.cons_ne_nil _ _)
    | cons a chain =>
      obtain ⟨rfl, hpre⟩ := List.cons_prefix_cons.mp h.1
      rw [after, reached, slot_put]
      exact ih ⟨hpre, fun heq => h.2 (congrArg _ heq)⟩

/-- **What no chain has gone on from** holds what it held. -/
theorem reached_run (h : ∀ chain ∈ chains, ¬ GoesOn path chain) :
    (t.run chains).reached path = t.reached path := by
  induction chains generalizing t with
  | nil => rfl
  | cons chain chains ih =>
    obtain ⟨hchain, hchains⟩ := List.forall_mem_cons.mp h
    rw [run, List.foldl_cons]
    exact (ih hchains).trans (reached_after hchain)

/-- A container stays one. -/
theorem isContainer_run (h : (t.reached path).isContainer = true) :
    ((t.run chains).reached path).isContainer = true := by
  induction chains generalizing t with
  | nil => exact h
  | cons chain chains ih =>
    rw [run, List.foldl_cons]
    refine ih ?_
    by_cases hon : GoesOn path chain
    · exact isContainer_reached_after hon
    · rw [reached_after hon]
      exact h

/-- **What a chain has gone on from** is a container. -/
theorem isContainer_reached_run (h : ∃ chain ∈ chains, GoesOn path chain) :
    ((t.run chains).reached path).isContainer = true := by
  obtain ⟨chain, hchain, hon⟩ := h
  obtain ⟨front, back, rfl⟩ := List.append_of_mem hchain
  rw [run, List.foldl_append, List.foldl_cons]
  exact isContainer_run (isContainer_reached_after hon)

/-! ## The readers -/

/-- `has_field`. -/
def hasField (t : JsonItem) (field : List UInt8) : Option Bool :=
  match t with
  | .nullptr => none
  | .value _ => some false
  | .object isArray fields _ => some (if isArray then false else (fields.lookup field).isSome)

/-- `remove_field`: what it leaves. -/
def removeField (t : JsonItem) (field : List UInt8) : Option JsonItem :=
  match t with
  | .nullptr => none
  | .value x => some (.value x)
  | .object _ fields elements => some (.object false (fields.eraseP (·.1 = field)) elements)

/-- `size`. -/
def size : JsonItem → Option ℕ
  | .nullptr => none
  | .value _ => some 0
  | .object isArray fields elements => some (if isArray then elements.length else fields.length)

/-- `capacity`, with that of a vector. -/
def capacity (reserved : List JsonItem → ℕ) : JsonItem → Option ℕ
  | .nullptr => none
  | .value _ => some 0
  | .object isArray fields elements => some (if isArray then reserved elements else fields.length)

/-- `is_array`. -/
def isArray : JsonItem → Bool
  | .nullptr => false
  | .value _ => false
  | .object isArray _ _ => isArray

/-- `is_object`. -/
def isObject : JsonItem → Bool
  | .nullptr => false
  | .value _ => false
  | .object isArray _ _ => !isArray

/-- `for_each`: what it goes over. -/
def forEach : JsonItem → List JsonItem
  | .object isArray fields elements => if isArray then elements else fields.map (·.2)
  | _ => []

/-- `for_each_with_key`. -/
def forEachWithKey : JsonItem → List (List UInt8 × JsonItem)
  | .object isArray fields _ => if isArray then [] else fields
  | _ => []

/-- `for_each_with_index`. -/
def forEachWithIndex : JsonItem → List (ℕ × JsonItem)
  | .object isArray _ elements => if isArray then elements.zipIdx.map fun e => (e.2, e.1) else []
  | _ => []

end JsonItem

/-! ## Conversions -/

/-- A scalar type: `bool`, an integer type with its range, a floating type with its rounding, or one
that nothing converts to. -/
inductive ScalarType
  | bool
  | integer (low high : ℤ)
  | floating (round : ℚ → ℚ)
  | other

/-- A value of a scalar type. -/
inductive ScalarValue
  | bool (value : Bool)
  | integer (value : ℤ)
  | floating (value : ℚ)
  | other

namespace ScalarType

/-- `T()`. -/
def default : ScalarType → ScalarValue
  | .bool => .bool false
  | .integer _ _ => .integer 0
  | .floating _ => .floating 0
  | .other => .other

/-- A floating value without its fraction. -/
def truncate (x : ℚ) : ℤ := x.num.tdiv x.den

/-- `static_cast` of an integer, modulo the size of the type. -/
def ofInt (n : ℤ) : ScalarType → ScalarValue
  | .bool => .bool (n ≠ 0)
  | .integer low high => .integer (low + (n - low) % (high - low + 1))
  | .floating round => .floating (round n)
  | .other => .other

/-- `static_cast` of a floating value: it has no meaning if what is left without the fraction is not
in the range of the type. -/
def ofDouble (x : ℚ) : ScalarType → Option ScalarValue
  | .bool => some (.bool (x ≠ 0))
  | .integer low high =>
    if low ≤ truncate x ∧ truncate x ≤ high then some (.integer (truncate x)) else none
  | .floating round => some (.floating (round x))
  | .other => some .other

/-- `JsonValue::operator T`. -/
def ofScalar (type : ScalarType) : JsonScalar → Option ScalarValue
  | .null => some type.default
  | .bool value => some (type.ofInt (if value then 1 else 0))
  | .int value => some (type.ofInt value)
  | .double value => type.ofDouble value
  | .string _ => some type.default

end ScalarType

namespace JsonItem

/-- `operator T`. -/
def convert (type : ScalarType) : JsonItem → Option ScalarValue
  | .nullptr => some type.default
  | .value x => type.ofScalar x
  | .object _ _ _ => some type.default

end JsonItem

/-! ## What may be read -/

/-- A call that reads a `Json`. -/
inductive JsonRead
  | hasField (field : List UInt8)
  | removeField (field : List UInt8)
  | size
  | capacity (reserved : List JsonItem → ℕ)
  | isArray
  | isObject
  | forEach
  | forEachWithKey
  | forEachWithIndex
  | convert (type : ScalarType)

/-- What a call returns, or leaves, or goes over. -/
inductive JsonAnswer
  | bool (value : Bool)
  | number (n : ℕ)
  | item (t : JsonItem)
  | items (l : List JsonItem)
  | keyed (l : List (List UInt8 × JsonItem))
  | indexed (l : List (ℕ × JsonItem))
  | scalar (x : ScalarValue)

namespace JsonItem

/-- A call; nothing if it goes through null, or has no meaning. -/
def call (t : JsonItem) : JsonRead → Option JsonAnswer
  | .hasField field => (t.hasField field).map .bool
  | .removeField field => (t.removeField field).map .item
  | .size => t.size.map .number
  | .capacity reserved => (t.capacity reserved).map .number
  | .isArray => some (.bool t.isArray)
  | .isObject => some (.bool t.isObject)
  | .forEach => some (.items t.forEach)
  | .forEachWithKey => some (.keyed t.forEachWithKey)
  | .forEachWithIndex => some (.indexed t.forEachWithIndex)
  | .convert type => (t.convert type).map .scalar

/-- The `Json` a call may be made on: where it does not look, there is an item; and a double that is
converted to an integer type is in its range. -/
def Allows (t : JsonItem) : JsonRead → Prop
  | .hasField _ | .removeField _ | .size | .capacity _ => t ≠ .nullptr
  | .convert (.integer low high) => ∀ x, t = .value (.double x) →
    low ≤ ScalarType.truncate x ∧ ScalarType.truncate x ≤ high
  | _ => True

theorem isSome_convert_iff (t : JsonItem) (type : ScalarType) :
    (t.convert type).isSome ↔ t.Allows (.convert type) := by
  cases t with
  | nullptr =>
    refine iff_of_true rfl ?_
    cases type <;> first | trivial | exact nofun
  | object isArray fields elements =>
    refine iff_of_true rfl ?_
    cases type <;> first | trivial | exact nofun
  | value x =>
    cases x with
    | double x =>
      cases type with
      | integer low high =>
        simp only [convert, ScalarType.ofScalar, ScalarType.ofDouble, Allows, value.injEq,
          JsonScalar.double.injEq, forall_eq']
        split_ifs with h
        · exact iff_of_true rfl h
        · exact iff_of_false Bool.false_ne_true h
      | _ => exact iff_of_true rfl trivial
    | _ =>
      refine iff_of_true rfl ?_
      cases type <;> first | trivial | exact nofun

/-- **A call returns** on just the `Json` that allow it. -/
theorem isSome_call_iff (t : JsonItem) (read : JsonRead) : (t.call read).isSome ↔ t.Allows read := by
  cases read with
  | convert type =>
    rw [call, Option.isSome_map]
    exact isSome_convert_iff t type
  | hasField field => cases t <;> simp [call, hasField, Allows]
  | removeField field => cases t <;> simp [call, removeField, Allows]
  | size => cases t <;> simp [call, size, Allows]
  | capacity reserved => cases t <;> simp [call, capacity, Allows]
  | _ => exact iff_of_true rfl trivial

theorem allows_of_isContainer {t : JsonItem} (h : t.isContainer = true) (read : JsonRead) :
    t.Allows read := by
  cases t with
  | object isArray fields elements =>
    cases read with
    | convert type => exact (isSome_convert_iff _ _).mp rfl
    | _ => first | trivial | exact nofun
  | _ => exact absurd h Bool.false_ne_true

/-- **A call behind some chains** returns if one of them has gone on from its place, or if the place
allowed it before them. -/
theorem isSome_call_run_iff (t : JsonItem) (chains : List (List JsonIndex)) (path : List JsonIndex)
    (read : JsonRead) :
    (((t.run chains).reached path).call read).isSome ↔
      (∃ chain ∈ chains, GoesOn path chain) ∨ (t.reached path).Allows read := by
  rw [isSome_call_iff]
  by_cases h : ∃ chain ∈ chains, GoesOn path chain
  · exact iff_of_true (allows_of_isContainer (isContainer_reached_run h) read) (.inl h)
  · rw [reached_run fun chain hchain hon => h ⟨chain, hchain, hon⟩]
    exact ⟨.inr, fun hor => hor.resolve_left h⟩

end JsonItem

end TradingEngine
