import Mathlib.Data.Fintype.Basic
import Mathlib.Algebra.BigOperators.Group.Finset.Basic
import Mathlib.Data.Rat.Defs
import TradingEngine.Machinery.Outcome

/-!
# Json/Store — the `Json` handles of a program and what they hold

A `Json` is null or holds a `JsonValue`, which is its own, or a `JsonObject`, which is shared and
counted.  Both stand in pools; the free ones of a pool are given out in the order they came back.
An operation is a call on the handles of the program and on the slots inside the containers, which
are named as the call finds them.
-/

namespace TradingEngine

/-- `Json::m_value`: null, or an item of one of the two pools. -/
inductive JsonPointer (n m : ℕ)
  | null
  | value (v : Fin m)
  | object (o : Fin n)
  deriving DecidableEq

/-- `JsonValue::m_value`; what converts to `int64_t` is stored as one. -/
inductive JsonScalar
  | null
  | bool (value : Bool)
  | int (value : ℤ)
  | double (value : ℚ)
  | string (value : List UInt8)
  deriving DecidableEq

/-- `JsonValue`. -/
structure JsonValueCell where
  scalar : JsonScalar
  isStringFormat : Bool

/-- `JsonObject`. -/
structure JsonObjectCell (n m : ℕ) where
  referenceCount : UInt32
  isArray : Bool
  object : List (List UInt8 × JsonPointer n m)
  array : List (JsonPointer n m)

/-- The two pools and the handles of the program; a handle that is destroyed stays as `none`.
`unquotedReleases` is history: how many values came back to their pool with the quoting off. -/
structure JsonStore (n m : ℕ) where
  values : Fin m → JsonValueCell
  availableValues : List (Fin m)
  objects : Fin n → JsonObjectCell n m
  availableObjects : List (Fin n)
  handles : List (Option (JsonPointer n m))
  unquotedReleases : ℕ

/-- A `Json` of the program: a handle, or a slot of a container. -/
inductive JsonPlace (n : ℕ)
  | handle (i : ℕ)
  | field (o : Fin n) (key : List UInt8)
  | element (o : Fin n) (i : ℕ)
  deriving DecidableEq

/-- How a call fails: it reads a slot that it has destroyed, calls through null, finds its pool
empty, takes an object for a value, or does not return. -/
inductive JsonFailure
  | destroyedSlot
  | nullPointer
  | noAvailableItems
  | wrongType
  | endless
  deriving DecidableEq

variable {n m : ℕ}

namespace JsonObjectCell

/-- A `JsonObject` in its pool. -/
def cleared : JsonObjectCell n m := ⟨0, false, [], []⟩

/-- The slots of both containers. -/
def pointers (cell : JsonObjectCell n m) : List (JsonPointer n m) :=
  cell.object.map (·.2) ++ cell.array

/-- The field with a key is set. -/
def setField (key : List UInt8) (p : JsonPointer n m) :
    List (List UInt8 × JsonPointer n m) → List (List UInt8 × JsonPointer n m)
  | [] => []
  | f :: fs => if f.1 = key then (key, p) :: fs else f :: setField key p fs

/-- The field with a key is erased. -/
def eraseField (key : List UInt8) :
    List (List UInt8 × JsonPointer n m) → List (List UInt8 × JsonPointer n m)
  | [] => []
  | f :: fs => if f.1 = key then fs else f :: eraseField key fs

end JsonObjectCell

open JsonObjectCell

namespace JsonStore

variable (s : JsonStore n m)

/-! ## Slots -/

/-- What a place holds, if it is there. -/
def pointerAt : JsonPlace n → Option (JsonPointer n m)
  | .handle i => (s.handles[i]?).join
  | .field o key => (s.objects o).object.lookup key
  | .element o i => (s.objects o).array[i]?

def updateObject (o : Fin n) (f : JsonObjectCell n m → JsonObjectCell n m) : JsonStore n m :=
  { s with objects := Function.update s.objects o (f (s.objects o)) }

def updateValue (v : Fin m) (f : JsonValueCell → JsonValueCell) : JsonStore n m :=
  { s with values := Function.update s.values v (f (s.values v)) }

section Update

variable {s : JsonStore n m} {o o' : Fin n} {v v' : Fin m}
  {f : JsonObjectCell n m → JsonObjectCell n m} {g : JsonValueCell → JsonValueCell}

@[simp] theorem updateObject_self : (s.updateObject o f).objects o = f (s.objects o) :=
  Function.update_self o _ _

theorem updateObject_of_ne (h : o' ≠ o) : (s.updateObject o f).objects o' = s.objects o' :=
  Function.update_of_ne h _ _

@[simp] theorem updateObject_values : (s.updateObject o f).values = s.values := rfl

@[simp] theorem updateObject_handles : (s.updateObject o f).handles = s.handles := rfl

@[simp] theorem updateObject_availableObjects :
    (s.updateObject o f).availableObjects = s.availableObjects := rfl

@[simp] theorem updateObject_availableValues :
    (s.updateObject o f).availableValues = s.availableValues := rfl

@[simp] theorem updateObject_unquotedReleases :
    (s.updateObject o f).unquotedReleases = s.unquotedReleases := rfl

@[simp] theorem updateValue_self : (s.updateValue v g).values v = g (s.values v) :=
  Function.update_self v _ _

theorem updateValue_of_ne (h : v' ≠ v) : (s.updateValue v g).values v' = s.values v' :=
  Function.update_of_ne h _ _

@[simp] theorem updateValue_objects : (s.updateValue v g).objects = s.objects := rfl

@[simp] theorem updateValue_handles : (s.updateValue v g).handles = s.handles := rfl

@[simp] theorem updateValue_availableObjects :
    (s.updateValue v g).availableObjects = s.availableObjects := rfl

@[simp] theorem updateValue_availableValues :
    (s.updateValue v g).availableValues = s.availableValues := rfl

end Update

/-- A place is made to hold something else. -/
def assign (p : JsonPointer n m) : JsonPlace n → JsonStore n m
  | .handle i => { s with handles := s.handles.set i (some p) }
  | .field o key =>
    s.updateObject o fun cell => { cell with object := setField key p cell.object }
  | .element o i => s.updateObject o fun cell => { cell with array := cell.array.set i p }

/-- A place is read; the memory of a slot that is gone has been given back. -/
def read (place : JsonPlace n) : Except JsonFailure (JsonPointer n m) :=
  match s.pointerAt place with
  | none => .error .destroyedSlot
  | some p => .ok p

/-- A place is written. -/
def put (place : JsonPlace n) (p : JsonPointer n m) : Except JsonFailure (JsonStore n m) :=
  match s.pointerAt place with
  | none => .error .destroyedSlot
  | some _ => .ok (s.assign p place)

def newHandle (p : JsonPointer n m) : JsonStore n m :=
  { s with handles := s.handles ++ [some p] }

/-! ## The pools -/

/-- `JsonValuePool::acquire`: a `JsonValue` has no `init`. -/
def acquireValue : Except JsonFailure (Fin m × JsonStore n m) :=
  match s.availableValues with
  | [] => .error .noAvailableItems
  | v :: vs => .ok (v, { s with availableValues := vs })

/-- `JsonObjectPool::acquire`, with `init`. -/
def acquireObject : Except JsonFailure (Fin n × JsonStore n m) :=
  match s.availableObjects with
  | [] => .error .noAvailableItems
  | o :: os => .ok (o,
      { s with availableObjects := os }.updateObject o fun cell => { cell with referenceCount := 1 })

/-- `JsonValue::release`. -/
def releaseValue (v : Fin m) : JsonStore n m :=
  { s.updateValue v fun cell => { cell with scalar := .null } with
    availableValues := s.availableValues ++ [v]
    unquotedReleases := s.unquotedReleases + if (s.values v).isStringFormat then 0 else 1 }

/-- `JsonObject::release` for the last holder, with `refresh`; what the containers held is left to
release. -/
def clearObject (o : Fin n) : JsonStore n m :=
  { s.updateObject o fun _ => cleared with availableObjects := s.availableObjects ++ [o] }

/-- The releases that are left to do, the next one first. -/
def releaseAll : ℕ → List (JsonPointer n m) → JsonStore n m → JsonStore n m
  | 0, _, s => s
  | _ + 1, [], s => s
  | fuel + 1, .null :: ps, s => releaseAll fuel ps s
  | fuel + 1, .value v :: ps, s => releaseAll fuel ps (s.releaseValue v)
  | fuel + 1, .object o :: ps, s =>
    if (s.objects o).referenceCount = 1 then
      releaseAll fuel ((s.objects o).pointers ++ ps) (s.clearObject o)
    else
      releaseAll fuel ps
        (s.updateObject o fun cell => { cell with referenceCount := cell.referenceCount - 1 })

/-- The slots of all containers. -/
def slotCount : ℕ := ∑ o, (s.objects o).pointers.length

/-- `m_value->release()`, where there is something to release. -/
def release (p : JsonPointer n m) : JsonStore n m := releaseAll (s.slotCount + 1) [p] s

/-! ## Copies -/

/-- `get_copy`: a value is copied with its quoting, an object is counted. -/
def copy : JsonPointer n m → Except JsonFailure (JsonPointer n m × JsonStore n m)
  | .null => .ok (.null, s)
  | .value v => do
    let (w, s') ← s.acquireValue
    return (.value w, s'.updateValue w fun _ => s.values v)
  | .object o => .ok (.object o,
      s.updateObject o fun cell => { cell with referenceCount := cell.referenceCount + 1 })

/-- One after the other, each in the store the one before has left. -/
def cloneAll (clone : JsonStore n m → JsonPointer n m →
      Except JsonFailure (JsonPointer n m × JsonStore n m)) :
    JsonStore n m → List (JsonPointer n m) →
      Except JsonFailure (List (JsonPointer n m) × JsonStore n m)
  | s, [] => .ok ([], s)
  | s, p :: ps => do
    let (p, s) ← clone s p
    let (ps, s) ← cloneAll clone s ps
    return (p :: ps, s)

/-- `deep_clone`; a container that holds itself is cloned without end. -/
def deepClone : ℕ → JsonStore n m → JsonPointer n m →
    Except JsonFailure (JsonPointer n m × JsonStore n m)
  | _, s, .null => .ok (.null, s)
  | _, s, .value v => s.copy (.value v)
  | 0, _, .object _ => .error .endless
  | fuel + 1, s, .object o => do
    let (clone, s) ← s.acquireObject
    let (array, s) ← cloneAll (deepClone fuel) s (s.objects o).array
    let (fields, s) ← cloneAll (deepClone fuel) s ((s.objects o).object.map (·.2))
    return (.object clone, s.updateObject clone fun cell =>
      { cell with
        isArray := (s.objects o).isArray
        object := ((s.objects o).object.map (·.1)).zip fields
        array := array })

/-- `check_create_json_value`. -/
def checkCreateValue (place : JsonPlace n) : Except JsonFailure (Fin m × JsonStore n m) := do
  match ← s.read place with
  | .value v => return (v, s)
  | p =>
    let (v, s) ← ((s.assign .null place).release p).acquireValue
    return (v, ← s.put place (.value v))

/-- `check_create_json_object`. -/
def checkCreateObject (place : JsonPlace n) : Except JsonFailure (Fin n × JsonStore n m) := do
  match ← s.read place with
  | .object o => return (o, s)
  | p =>
    let (o, s) ← ((s.assign .null place).release p).acquireObject
    return (o, ← s.put place (.object o))

/-! ## Calls on a container -/

/-- `JsonObject::operator[](key)`. -/
def emplace (o : Fin n) (key : List UInt8) : JsonStore n m :=
  s.updateObject o fun cell =>
    { cell with
      isArray := false
      object := if (cell.object.lookup key).isSome then cell.object
        else cell.object ++ [(key, .null)] }

/-- `JsonObject::set_size`: the slots behind the size are destroyed. -/
def setSize (o : Fin n) (size : ℕ) : JsonStore n m :=
  let array := (s.objects o).array
  let resized := s.updateObject o fun cell =>
    { cell with
      isArray := true
      array := array.take size ++ List.replicate (size - array.length) .null }
  (array.drop size).foldl release resized

/-- `JsonObject::operator[](index)`. -/
def growTo (o : Fin n) (index : ℕ) : JsonStore n m :=
  s.updateObject o fun cell =>
    { cell with
      isArray := true
      array := cell.array ++ List.replicate (index + 1 - cell.array.length) .null }

/-- `JsonObject::remove_field`. -/
def removeField (o : Fin n) (key : List UInt8) : JsonStore n m :=
  let erased := s.updateObject o fun cell =>
    { cell with isArray := false, object := eraseField key cell.object }
  match (s.objects o).object.lookup key with
  | none => erased
  | some p => erased.release p

/-- `JsonObject::add_pair`; the pair is a copy, and destroyed if the key is there. -/
def addPair (o : Fin n) (pair : List UInt8 × JsonPlace n) : Except JsonFailure (JsonStore n m) := do
  let (p, s) ← s.copy (← s.read pair.2)
  if ((s.objects o).object.lookup pair.1).isSome then
    return (s.updateObject o fun cell => { cell with isArray := false }).release p
  else
    return s.updateObject o fun cell =>
      { cell with isArray := false, object := cell.object ++ [(pair.1, p)] }

/-- The array of a container is changed, and made the container's kind. -/
def updateArray (o : Fin n) (f : List (JsonPointer n m) → List (JsonPointer n m)) :
    JsonStore n m :=
  s.updateObject o fun cell => { cell with isArray := true, array := f cell.array }

/-- `is_string` of a field, and `set_is_string_format(false)`. -/
def unquote (p : JsonPointer n m) : JsonStore n m :=
  match p with
  | .value v =>
    match (s.values v).scalar with
    | .string _ => s.updateValue v fun cell => { cell with isStringFormat := false }
    | _ => s
  | _ => s

end JsonStore

/-! ## The operations -/

/-- A call on the `Json` of a program.  The comparison of a sort comes as the order it leads to. -/
inductive JsonOperation (n : ℕ)
  | construct
  | constructScalar (x : JsonScalar)
  | constructCopy (source : JsonPlace n)
  | constructMove (source : JsonPlace n)
  | constructPairs (pairs : List (List UInt8 × JsonPlace n))
  | destroy (i : ℕ)
  | assignScalar (target : JsonPlace n) (x : JsonScalar)
  | assignCopy (target source : JsonPlace n)
  | assignMove (target source : JsonPlace n)
  | indexKey (target : JsonPlace n) (key : List UInt8)
  | indexElement (target : JsonPlace n) (index : ℕ)
  | pushBack (target source : JsonPlace n)
  | removeField (target : JsonPlace n) (key : List UInt8)
  | setSize (target : JsonPlace n) (size : ℕ)
  | setArray (target : JsonPlace n)
  | reverse (target : JsonPlace n)
  | sort (target : JsonPlace n) (order : List ℕ)
  | deepClone (source : JsonPlace n)
  | setIsStringFormat (target : JsonPlace n) (val : Bool)
  | queryString (target : JsonPlace n)

/-- The `Json` an operation is called on or with. -/
def JsonOperation.operands : JsonOperation n → List (JsonPlace n)
  | .construct | .constructScalar _ => []
  | .constructCopy q | .constructMove q | .deepClone q => [q]
  | .constructPairs pairs => pairs.map (·.2)
  | .destroy i => [.handle i]
  | .assignCopy p q | .assignMove p q | .pushBack p q => [p, q]
  | .assignScalar p _ | .indexKey p _ | .indexElement p _ | .removeField p _ | .setSize p _
  | .setArray p | .reverse p | .sort p _ | .setIsStringFormat p _ | .queryString p => [p]

namespace JsonStore

variable (s : JsonStore n m)

/-- `operator=(const Json&)`: the old value is released before the other `Json` is read. -/
def assignCopy (target source : JsonPlace n) : Except JsonFailure (JsonStore n m) := do
  if target = source then return s
  let s := (s.assign .null target).release (← s.read target)
  let (p, s) ← s.copy (← s.read source)
  s.put target p

/-- `operator=(Json&&)`. -/
def assignMove (target source : JsonPlace n) : Except JsonFailure (JsonStore n m) := do
  if target = source then return s
  let s := (s.assign .null target).release (← s.read target)
  let p ← s.read source
  (s.assign .null source).put target p

/-- `std::sort` leaves a permutation of the array. -/
def sorted (order : List ℕ) (array : List (JsonPointer n m)) : List (JsonPointer n m) :=
  if order.Perm (List.range array.length) then order.filterMap fun i => array[i]? else array

/-- What an operation does. -/
def perform : JsonOperation n → Except JsonFailure (JsonStore n m)
  | .construct => return s.newHandle .null
  | .constructScalar x => do
    let (v, s) ← s.acquireValue
    return (s.updateValue v fun cell => { cell with scalar := x }).newHandle (.value v)
  | .constructCopy source => do
    let (p, s) ← s.copy (← s.read source)
    return s.newHandle p
  | .constructMove source => do
    let p ← s.read source
    return (s.assign .null source).newHandle p
  | .constructPairs pairs => do
    let (o, s) ← s.acquireObject
    pairs.foldlM (addPair · o) (s.newHandle (.object o))
  | .destroy i => do
    let p ← s.read (.handle i)
    return { s with handles := s.handles.set i none }.release p
  | .assignScalar target x => do
    let (v, s) ← s.checkCreateValue target
    return s.updateValue v fun cell => { cell with scalar := x }
  | .assignCopy target source => s.assignCopy target source
  | .assignMove target source => s.assignMove target source
  | .indexKey target key => do
    let (o, s) ← s.checkCreateObject target
    return s.emplace o key
  | .indexElement target index => do
    let (o, s) ← s.checkCreateObject target
    return s.growTo o index
  | .pushBack target source => do
    let (o, s) ← s.checkCreateObject target
    let (p, s) ← s.copy (← s.read source)
    return s.updateArray o (· ++ [p])
  | .removeField target key => do
    match ← s.read target with
    | .null => .error .nullPointer
    | .value _ => return s
    | .object o => return s.removeField o key
  | .setSize target size => do
    let (o, s) ← s.checkCreateObject target
    return s.setSize o size
  | .setArray target => do
    let (o, s) ← s.checkCreateObject target
    return s.updateArray o id
  | .reverse target => do
    let (o, s) ← s.checkCreateObject target
    return s.updateArray o List.reverse
  | .sort target order => do
    let (o, s) ← s.checkCreateObject target
    return s.updateArray o (sorted order)
  | .deepClone source => do
    let (p, s) ← s.deepClone (n + 1) (← s.read source)
    return s.newHandle p
  | .setIsStringFormat target val => do
    match ← s.read target with
    | .null => return s
    | .value v => return s.updateValue v fun cell => { cell with isStringFormat := val }
    | .object _ => .error .wrongType
  | .queryString target => do
    match ← s.read target with
    | .object o =>
      return if (s.objects o).isArray then s else ((s.objects o).object.map (·.2)).foldl unquote s
    | _ => return s

/-- The operands of an operation are `Json` of the program. -/
def Present (op : JsonOperation n) : Prop := ∀ place ∈ op.operands, (s.pointerAt place).isSome

instance (op : JsonOperation n) : Decidable (s.Present op) :=
  inferInstanceAs (Decidable (∀ place ∈ op.operands, (s.pointerAt place).isSome))

/-- The store after an operation; after one that fails there is none. -/
def step (op : JsonOperation n) : JsonStore n m :=
  match s.perform op with
  | .ok s' => s'
  | .error _ => s

/-- The pools are full, and the program has no handle. -/
def start (n m : ℕ) : JsonStore n m where
  values := fun _ => ⟨.null, true⟩
  availableValues := List.finRange m
  objects := fun _ => cleared
  availableObjects := List.finRange n
  handles := []
  unquotedReleases := 0

end JsonStore

end TradingEngine
