import TradingEngine.Machinery.Handles
import TradingEngine.Machinery.Ring
import TradingEngine.Machinery.Run

/-!
# Cache/ShareString — slices of counted strings

A `ShareString` shows a part of a string of the pool, and the string counts the `ShareString`s that
hold it.  They stand in a list, a destroyed one as `none`, so the operands of an operation are
positions, and the two of an assignment may be the same: it releases the one side before it reads
the other.
-/

namespace TradingEngine

/-- A `std::string`; its length is a `size_t`. -/
abbrev StdString := { text : List UInt8 // text.length < 2 ^ 64 }

/-- `StringReference`. -/
structure StringReference where
  data : StdString
  count : UInt32

/-- `StringReference::retain`. -/
def StringReference.retain (reference : StringReference) : StringReference :=
  { reference with count := reference.count + 1 }

/-- `StringReference::release`, which returns what the count was. -/
def StringReference.release (reference : StringReference) : UInt32 × StringReference :=
  (reference.count, { reference with count := reference.count - 1 })

/-- `MAX_STRING_NUM`. -/
def maxStringNum : ℕ := 1000000

instance : NeZero maxStringNum := ⟨by decide⟩

/-- `StringPool`: the buffer of a `CachePool`, and its strings. -/
structure StringPool (size : ℕ) where
  availableItems : ℕ → Fin size
  reference : Fin size → StringReference
  head : ℕ
  tail : ℕ
  poolSize : ℕ

/-- `ShareString`. -/
structure ShareString (size : ℕ) where
  stringReference : Option (Fin size)
  startIndex : UInt64
  length : UInt64
  deriving DecidableEq, Repr

/-- What an operation does beside changing strings. -/
inductive StringEffect (size : ℕ)
  | acquired (reference : Fin size)
  | noAvailableItems
  | released (reference : Fin size)
  | outOfRange
  | nullReference
  deriving DecidableEq, Repr

namespace StringPool

variable {size : ℕ}

/-- `PoolBuffer::PoolBuffer`. -/
def initial [NeZero size] : StringPool size where
  availableItems := fun i => Fin.ofNat size i
  reference := fun _ => ⟨⟨[], by decide⟩, 0⟩
  head := 0
  tail := 0
  poolSize := size

/-- A string of the pool is written. -/
def write (pool : StringPool size) (r : Fin size) (reference : StringReference) :
    StringPool size :=
  { pool with reference := Function.update pool.reference r reference }

/-- `CachePool::acquire`; it throws when nothing is left. -/
def acquire (pool : StringPool size) : Option (Fin size) × StringPool size :=
  if pool.poolSize = 0 then (none, pool)
  else
    (some (pool.availableItems pool.head),
      { pool with head := Ring.next size pool.head, poolSize := pool.poolSize - 1 })

/-- `CachePool::release`. -/
def release (pool : StringPool size) (r : Fin size) : StringPool size :=
  { pool with
    availableItems := Function.update pool.availableItems pool.tail r
    tail := Ring.next size pool.tail
    poolSize := pool.poolSize + 1 }

/-- `m_string_reference->retain()`. -/
def retain (pool : StringPool size) :
    Option (Fin size) → List (StringEffect size) × StringPool size
  | none => ([.nullReference], pool)
  | some r => ([], pool.write r (pool.reference r).retain)

/-- `ShareString::check_release_current_data` on a pointer, which it leaves null. -/
def checkReleaseCurrentData (pool : StringPool size) :
    Option (Fin size) → List (StringEffect size) × StringPool size
  | none => ([], pool)
  | some r =>
    let (count, reference) := (pool.reference r).release
    if count = 1 then ([.released r], (pool.write r reference).release r)
    else ([], pool.write r reference)

end StringPool

/-- A pool, and the `ShareString`s of the program. -/
structure StringStore (size : ℕ) where
  pool : StringPool size
  strings : List (Option (ShareString size))

/-- An operation; `ShareString`s are given by their places. -/
inductive StringOperation
  | default
  | ofString (data : StdString)
  | copyConstruct (other : ℕ)
  | moveConstruct (other : ℕ)
  | copyAssign (this other : ℕ)
  | moveAssign (this other : ℕ)
  | fromSubstr (this : ℕ) (startIndex length : UInt64)
  | fromSubstrWithEnd (this : ℕ) (startIndex endIndex : UInt64)
  | destroy (this : ℕ)
  deriving DecidableEq

namespace StringStore

variable {size : ℕ}

/-- A new pool, and no `ShareString`s. -/
def start [NeZero size] : StringStore size := ⟨.initial, []⟩

/-- The `ShareString` at a place, if it lives. -/
def string (store : StringStore size) (i : ℕ) : Option (ShareString size) :=
  (store.strings[i]?).join

/-- The constructors from a string. -/
def construct (store : StringStore size) (data : StdString) :
    StringStore size × List (StringEffect size) :=
  match store.pool.acquire with
  | (none, _) => (store, [.noAvailableItems])
  | (some r, pool) =>
    (⟨pool.write r ⟨data, 1⟩, store.strings ++ [some ⟨some r, 0, .ofNat data.val.length⟩]⟩,
      [.acquired r])

/-- The copy and the move constructor, and what a slice makes of the copy. -/
def concat (store : StringStore size) (new : ShareString size) :
    StringStore size × List (StringEffect size) :=
  let (effects, pool) := store.pool.retain new.stringReference
  (⟨pool, store.strings ++ [some new]⟩, effects)

/-- Both assignments. -/
def assign (store : StringStore size) (this other : ℕ) :
    StringStore size × List (StringEffect size) :=
  match store.string this with
  | none => (store, [])
  | some p =>
    let (released, pool) := store.pool.checkReleaseCurrentData p.stringReference
    let strings := store.strings.set this (some { p with stringReference := none })
    -- the other side is read behind the release
    match string ⟨pool, strings⟩ other with
    | none => (store, [])
    | some q =>
      let (retained, pool) := pool.retain q.stringReference
      (⟨pool, strings.set this (some q)⟩, released ++ retained)

/-- **A step**: the program after an operation, and its effects.  An operand that does not live is
no operand. -/
def step (store : StringStore size) :
    StringOperation → StringStore size × List (StringEffect size)
  | .default => store.construct ⟨[], by decide⟩
  | .ofString data => store.construct data
  | .copyConstruct other | .moveConstruct other =>
    match store.string other with
    | none => (store, [])
    | some q => store.concat q
  | .copyAssign this other | .moveAssign this other => store.assign this other
  | .fromSubstr this startIndex length =>
    match store.string this with
    | none => (store, [])
    | some p =>
      if startIndex + length ≤ p.length then
        store.concat { p with startIndex := p.startIndex + startIndex, length := length }
      else (store, [.outOfRange])
  | .fromSubstrWithEnd this startIndex endIndex =>
    match store.string this with
    | none => (store, [])
    | some p =>
      if startIndex < p.length ∧ endIndex ≤ p.length ∧ startIndex < endIndex then
        store.concat
          { p with
            startIndex := p.startIndex + startIndex
            length := endIndex - startIndex + 1 }
      else (store, [.outOfRange])
  | .destroy this =>
    match store.string this with
    | none => (store, [])
    | some p =>
      let (released, pool) := store.pool.checkReleaseCurrentData p.stringReference
      (⟨pool, store.strings.set this none⟩, released)

/-- `ShareString::data`; it throws when the part starts behind the string. -/
def data (pool : StringPool size) (p : ShareString size) : Option (List UInt8) :=
  match p.stringReference with
  | none => some []
  | some r =>
    let text := (pool.reference r).data.val
    if p.startIndex.toNat ≤ text.length then
      some ((text.drop p.startIndex.toNat).take p.length.toNat)
    else none

/-- The text that is visible at a place. -/
def text (store : StringStore size) (i : ℕ) : Option (List UInt8) :=
  (store.string i).bind (data store.pool)

/-- What the `ShareString`s hold. -/
def targets (store : StringStore size) : List (Option (Fin size)) :=
  store.strings.map fun string => string.bind (·.stringReference)

/-- The live `ShareString`s that hold a string. -/
def live (store : StringStore size) (r : Fin size) : ℕ := Handles.holders store.targets r

/-! ## What is asked of an operation -/

/-- A `ShareString` is a part of the string that it holds. -/
def Within (pool : StringPool size) (p : ShareString size) : Prop :=
  ∃ r, p.stringReference = some r ∧
    p.startIndex.toNat + p.length.toNat ≤ (pool.reference r).data.val.length

/-- The places that an operation may change. -/
def Changes : StringOperation → ℕ → Prop
  | .copyAssign this _, i | .moveAssign this _, i | .destroy this, i => i = this
  | _, _ => False

/-- The `count` characters of a text behind `start`. -/
def IsPart (text : List UInt8) (start count : ℕ) (part : Option (List UInt8)) : Prop :=
  start + count ≤ text.length ∧ part = some ((text.drop start).take count)

/-- The text that an operation gives, to a new `ShareString` or by an assignment. -/
def Gives (store : StringStore size) : StringOperation → Prop
  | .default =>
    store.step .default = (store, [.noAvailableItems]) ∨
      (store.step .default).1.text store.strings.length = some []
  | .ofString data =>
    store.step (.ofString data) = (store, [.noAvailableItems]) ∨
      (store.step (.ofString data)).1.text store.strings.length = some data.val
  | .copyConstruct other =>
    ∀ text, store.text other = some text →
      (store.step (.copyConstruct other)).1.text store.strings.length = some text
  | .moveConstruct other =>
    ∀ text, store.text other = some text →
      (store.step (.moveConstruct other)).1.text store.strings.length = some text
  | .copyAssign this other =>
    ∀ text, store.text other = some text → store.string this ≠ none →
      (store.step (.copyAssign this other)).1.text this = some text
  | .moveAssign this other =>
    ∀ text, store.text other = some text → store.string this ≠ none →
      (store.step (.moveAssign this other)).1.text this = some text
  | .fromSubstr this startIndex length =>
    ∀ text, store.text this = some text →
      store.step (.fromSubstr this startIndex length) = (store, [.outOfRange]) ∨
        IsPart text startIndex.toNat length.toNat
          ((store.step (.fromSubstr this startIndex length)).1.text store.strings.length)
  | .fromSubstrWithEnd this startIndex endIndex =>
    ∀ text, store.text this = some text →
      store.step (.fromSubstrWithEnd this startIndex endIndex) = (store, [.outOfRange]) ∨
        startIndex.toNat ≤ endIndex.toNat ∧
          IsPart text startIndex.toNat (endIndex.toNat + 1 - startIndex.toNat)
            ((store.step (.fromSubstrWithEnd this startIndex endIndex)).1.text
              store.strings.length)
  | .destroy this => (store.step (.destroy this)).1.string this = none

/-- **An operation goes right.** -/
structure Sound (store : StringStore size) (operation : StringOperation) : Prop where
  noNull : .nullReference ∉ (store.step operation).2
  /-- The count of a string is the number of the live `ShareString`s that hold it. -/
  counted : ∀ r, ((store.step operation).1.pool.reference r).count.toNat =
    (store.step operation).1.live r
  /-- A string is released, once, exactly when the last of them goes away. -/
  released : ∀ r,
    (.released r ∈ (store.step operation).2 ↔
      0 < store.live r ∧ (store.step operation).1.live r = 0) ∧
    (store.step operation).2.count (.released r) ≤ 1
  within : ∀ i p, (store.step operation).1.string i = some p →
    Within (store.step operation).1.pool p
  /-- What the operation does not change shows the text that it showed. -/
  kept : ∀ i, store.string i ≠ none → ¬ Changes operation i →
    (store.step operation).1.text i = store.text i
  gives : store.Gives operation

/-! ## The condition -/

/-- The count of the string can be raised. -/
def Retainable (store : StringStore size) (p : ShareString size) : Prop :=
  ∀ r, p.stringReference = some r → (store.pool.reference r).count.toNat + 1 < 2 ^ 32

/-- What is assigned is another one, and can be retained. -/
def Assignable (store : StringStore size) (i j : ℕ) (p q : ShareString size) : Prop :=
  i ≠ j ∧ (p.stringReference = q.stringReference ∨ store.Retainable q)

/-- No `ShareString` is assigned to itself, no sum of a slice that is made wraps, no slice is made
up to the length with the end included, and no count is raised beyond a `uint32_t`. -/
def Careful (store : StringStore size) : StringOperation → Prop
  | .default | .ofString _ | .destroy _ => True
  | .copyConstruct other | .moveConstruct other =>
    ∀ q, store.string other = some q → store.Retainable q
  | .copyAssign this other | .moveAssign this other =>
    ∀ p q, store.string this = some p → store.string other = some q →
      store.Assignable this other p q
  | .fromSubstr this startIndex length =>
    ∀ p, store.string this = some p → startIndex + length ≤ p.length →
      startIndex.toNat + length.toNat < 2 ^ 64 ∧ store.Retainable p
  | .fromSubstrWithEnd this startIndex endIndex =>
    ∀ p, store.string this = some p →
      startIndex < p.length ∧ endIndex ≤ p.length ∧ startIndex < endIndex →
        endIndex ≠ p.length ∧ store.Retainable p

end StringStore

/-! ## A pool with counts -/

namespace StringPool

open Handles

variable {size : ℕ} {pool : StringPool size} {count : Fin size → ℕ} {r : Fin size}

@[simp] theorem write_data (pool : StringPool size) (r other : Fin size) {new : StringReference}
    (h : new.data = (pool.reference r).data) :
    ((pool.write r new).reference other).data = (pool.reference other).data := by
  rcases eq_or_ne other r with rfl | hne
  · simp [write, h]
  · simp [write, Function.update_of_ne hne]

/-- The strings stay what they are. -/
theorem retain_data (pool : StringPool size) (holder : Option (Fin size)) (r : Fin size) :
    ((pool.retain holder).2.reference r).data = (pool.reference r).data := by
  cases holder with
  | none => rfl
  | some held => exact write_data pool held r rfl

theorem checkRelease_data (pool : StringPool size) (holder : Option (Fin size)) (r : Fin size) :
    ((pool.checkReleaseCurrentData holder).2.reference r).data = (pool.reference r).data := by
  cases holder with
  | none => rfl
  | some held =>
    rw [checkReleaseCurrentData]
    dsimp only
    split <;> exact write_data pool held r rfl

/-- The counts of a pool are `count`, and its ring holds the strings that are counted 0. -/
structure Counted (pool : StringPool size) (count : Fin size → ℕ) : Prop where
  counter : ∀ r, (pool.reference r).count.toNat = count r
  free : Ring.FreeList pool.availableItems pool.head pool.tail pool.poolSize
    fun r => count r = 0

theorem Counted.congr (h : Counted pool count) {count' : Fin size → ℕ}
    (hcount : ∀ r, count r = count' r) : Counted pool count' where
  counter := fun r => (h.counter r).trans (hcount r)
  free := h.free.congr fun r => by rw [hcount]

theorem counted_initial [NeZero size] : Counted (initial : StringPool size) fun _ => 0 where
  counter := fun _ => rfl
  free := Ring.FreeList.full.congr fun _ => iff_of_true trivial rfl

/-- **A string is acquired** that is counted 0, and counted 1. -/
theorem Counted.acquire (h : Counted pool count) (data : StdString) :
    pool.acquire = (none, pool) ∨
      ∃ r pool', pool.acquire = (some r, pool') ∧ count r = 0 ∧
        pool'.reference = pool.reference ∧
        Counted (pool'.write r ⟨data, 1⟩) fun other => count other + weight (some r) other := by
  rw [StringPool.acquire]
  split
  case isTrue => exact .inl rfl
  case isFalse hne =>
    have hzero := h.free.front_free hne
    refine .inr ⟨_, _, rfl, hzero, rfl, fun other => ?_, (h.free.pop hne).congr fun other => ?_⟩
    · rcases eq_or_ne other (pool.availableItems pool.head) with rfl | hother
      · simp [write, hzero]
      · simp [write, Function.update_of_ne hother, weight_of_ne hother.symm, h.counter]
    · rcases eq_or_ne other (pool.availableItems pool.head) with rfl | hother
      · simp
      · simp [weight_of_ne hother.symm, hother]

/-- **A held string is retained.** -/
theorem Counted.retain (h : Counted pool count) (hpos : 1 ≤ count r) (hlt : count r + 1 < 2 ^ 32) :
    Counted (pool.retain (some r)).2 fun other => count other + weight (some r) other := by
  refine ⟨fun other => ?_, h.free.congr fun other => ?_⟩
  · have hcounter := h.counter other
    rcases eq_or_ne other r with rfl | hne
    · simp only [StringPool.retain, write, Function.update_self, StringReference.retain,
        UInt32.toNat_add, weight_self, hcounter]
      exact Nat.mod_eq_of_lt hlt
    · simp [StringPool.retain, write, Function.update_of_ne hne, weight_of_ne hne.symm, hcounter]
  · rcases eq_or_ne other r with rfl | hne
    · omega
    · rw [weight_of_ne hne.symm, Nat.add_zero]

theorem retain_count (pool : StringPool size) (r : Fin size) :
    ((pool.retain (some r)).2.reference r).count.toNat =
      ((pool.reference r).count.toNat + 1) % 2 ^ 32 := by
  simp [StringPool.retain, write, StringReference.retain]

/-- What the drop of a holder releases. -/
def releases (count : Fin size → ℕ) (r : Fin size) : List (StringEffect size) :=
  if count r = 1 then [.released r] else []

/-- **A holder is dropped**: the string is released when it was the last one. -/
theorem Counted.checkRelease (h : Counted pool count) (hpos : 1 ≤ count r) :
    (pool.checkReleaseCurrentData (some r)).1 = releases count r ∧
      Counted (pool.checkReleaseCurrentData (some r)).2 fun other =>
        count other - weight (some r) other := by
  have hone : (pool.reference r).count = 1 ↔ count r = 1 := by
    rw [← h.counter r, ← UInt32.toNat_inj]
    rfl
  have hcounter : ∀ other,
      ((pool.write r (pool.reference r).release.2).reference other).count.toNat =
        count other - weight (some r) other := by
    intro other
    rcases eq_or_ne other r with rfl | hne
    · have hle : (1 : UInt32) ≤ (pool.reference other).count := by
        rw [UInt32.le_iff_toNat_le, h.counter other]
        exact hpos
      simp [write, StringReference.release, UInt32.toNat_sub_of_le _ _ hle, h.counter]
    · simp [write, Function.update_of_ne hne, weight_of_ne hne.symm, h.counter]
  rw [checkReleaseCurrentData, releases]
  dsimp only
  simp only [StringReference.release, hone]
  split
  case isTrue hlast =>
    refine ⟨rfl, hcounter, (h.free.push (by omega)).congr fun other => ?_⟩
    rcases eq_or_ne other r with rfl | hne
    · simp [hlast]
    · simp [weight_of_ne hne.symm, hne]
  case isFalse hnot =>
    refine ⟨rfl, hcounter, h.free.congr fun other => ?_⟩
    rcases eq_or_ne other r with rfl | hne
    · rw [weight_self]
      omega
    · rw [weight_of_ne hne.symm, Nat.sub_zero]

end StringPool

end TradingEngine
