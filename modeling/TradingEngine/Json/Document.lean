import TradingEngine.Json.NumberText

/-!
# Json/Document — a JSON text as it is written

`Doc` is the syntax of RFC 8259 with the white space left in: `text` writes it down, `tree` is what
it denotes.  Strings and keys denote their raw characters.
-/

namespace TradingEngine

open Ascii Json

namespace JsonText

/-! ## The characters -/

/-- Insignificant white space. -/
def isBlank (c : UInt8) : Bool := c = space ∨ c = tab ∨ c = lf ∨ c = cr

/-- A run of white space. -/
structure Blank where
  chars : List UInt8
  isBlank : ∀ c ∈ chars, isBlank c = true

def Blank.empty : Blank := ⟨[], fun _ h => absurd h List.not_mem_nil⟩

/-- A character of a string as it is written: as it is, escaped, or by its code. -/
inductive StringPiece
  | plain (c : UInt8) (h : 32 ≤ c ∧ c ≠ quote ∧ c ≠ backslash)
  | escape (c : UInt8) (h : c ∈ [quote, backslash, 47, 98, 102, 110, 114, 116])
  | unicode (code : List UInt8) (hlength : code.length = 4)
      (h : ∀ c ∈ code, isDigit c = true ∨ (97 ≤ c ∧ c ≤ 102) ∨ (65 ≤ c ∧ c ≤ 70))

def StringPiece.text : StringPiece → List UInt8
  | .plain c _ => [c]
  | .escape c _ => [backslash, c]
  | .unicode code _ _ => backslash :: 117 :: code

/-- The raw characters of a string. -/
def raw (s : List StringPiece) : List UInt8 := s.flatMap StringPiece.text

/-- A key with the white space around it, up to the colon. -/
structure KeyText where
  before : Blank
  key : List StringPiece
  after : Blank

def KeyText.text (k : KeyText) : List UInt8 :=
  k.before.chars ++ quote :: (raw k.key ++ quote :: (k.after.chars ++ [colon]))

/-! ## The documents -/

/-- A value as it is written. -/
inductive Doc
  | null
  | bool (value : Bool)
  | number (n : Number)
  | string (s : List StringPiece)
  | spaced (before : Blank) (value : Doc) (after : Blank)
  | emptyArray (blank : Blank)
  | array (first : Doc) (others : List Doc)
  | emptyObject (blank : Blank)
  | object (key : KeyText) (first : Doc) (others : List (KeyText × Doc))

namespace Doc

/-- Induction over the parts of a document. -/
@[induction_eliminator]
theorem induct {motive : Doc → Prop} (null : motive .null) (bool : ∀ value, motive (.bool value))
    (number : ∀ n, motive (.number n)) (string : ∀ s, motive (.string s))
    (spaced : ∀ before value after, motive value → motive (.spaced before value after))
    (emptyArray : ∀ blank, motive (.emptyArray blank))
    (array : ∀ first others, motive first → (∀ d ∈ others, motive d) →
      motive (.array first others))
    (emptyObject : ∀ blank, motive (.emptyObject blank))
    (object : ∀ key first others, motive first → (∀ m ∈ others, motive m.2) →
      motive (.object key first others)) (d : Doc) : motive d :=
  @Doc.rec motive (fun ds => ∀ d ∈ ds, motive d) (fun ms => ∀ m ∈ ms, motive m.2)
    (fun m => motive m.2) null bool number string spaced emptyArray array emptyObject object
    (fun _ h => absurd h List.not_mem_nil) (fun _ _ h hs => List.forall_mem_cons.mpr ⟨h, hs⟩)
    (fun _ h => absurd h List.not_mem_nil) (fun _ _ h hs => List.forall_mem_cons.mpr ⟨h, hs⟩)
    (fun _ _ h => h) d

mutual

def text : Doc → List UInt8
  | .null => Ascii.text "null"
  | .bool value => if value then Ascii.text "true" else Ascii.text "false"
  | .number n => n.text
  | .string s => quote :: (raw s ++ [quote])
  | .spaced before value after => before.chars ++ (text value ++ after.chars)
  | .emptyArray blank => openBracket :: (blank.chars ++ [closeBracket])
  | .array first others => openBracket :: (text first ++ elementsText others)
  | .emptyObject blank => openBrace :: (blank.chars ++ [closeBrace])
  | .object key first others => openBrace :: (key.text ++ (text first ++ membersText others))

/-- The elements after the first, and the closing bracket. -/
def elementsText : List Doc → List UInt8
  | [] => [closeBracket]
  | d :: ds => comma :: (text d ++ elementsText ds)

/-- The members after the first, and the closing brace. -/
def membersText : List (KeyText × Doc) → List UInt8
  | [] => [closeBrace]
  | (key, d) :: ms => comma :: (key.text ++ (text d ++ membersText ms))

end

mutual

/-- The tree a text denotes. -/
def tree : Doc → Json
  | .null => .null
  | .bool value => .bool value
  | .number n =>
    match n.fraction, n.exponent with
    | none, none => .int n.integer
    | _, _ => .double n.value
  | .string s => .string (raw s)
  | .spaced _ value _ => tree value
  | .emptyArray _ => .array []
  | .array first others => .array (tree first :: elementTrees others)
  | .emptyObject _ => .object []
  | .object key first others => .object ((raw key.key, tree first) :: memberTrees others)

def elementTrees : List Doc → List Json
  | [] => []
  | d :: ds => tree d :: elementTrees ds

def memberTrees : List (KeyText × Doc) → List (List UInt8 × Json)
  | [] => []
  | (key, d) :: ms => (raw key.key, tree d) :: memberTrees ms

end

mutual

/-- **What the scan makes of a text**, if it does not fail. -/
def read : Doc → Option Json
  | .null => some .null
  | .bool value => some (.bool value)
  | .number n => n.read
  | .string s => some (.string (raw s))
  | .spaced _ value _ => read value
  -- behind white space the loop of `parse_array` asks for a value before it sees the bracket
  | .emptyArray blank => some (if blank.chars = [] then .null else .array [.null])
  | .array first others => do
    let value ← read first
    let values ← readElements others
    return .array (value :: values)
  | .emptyObject _ => some .null
  | .object key first others => do
    let value ← read first
    let fields ← readMembers others
    return .object ((raw key.key, value) :: fields)

def readElements : List Doc → Option (List Json)
  | [] => some []
  | d :: ds => do
    let value ← read d
    let values ← readElements ds
    return value :: values

def readMembers : List (KeyText × Doc) → Option (List (List UInt8 × Json))
  | [] => some []
  | (key, d) :: ms => do
    let value ← read d
    let fields ← readMembers ms
    return (raw key.key, value) :: fields

end

/-- The parts of a document, at any depth. -/
inductive Part : Doc → Doc → Prop
  | self (d : Doc) : Part d d
  | spaced {value d : Doc} (before after : Blank) (h : Part value d) :
      Part (.spaced before value after) d
  | first {first d : Doc} (others : List Doc) (h : Part first d) : Part (.array first others) d
  | other {other d : Doc} (first : Doc) {others : List Doc} (hmem : other ∈ others)
      (h : Part other d) : Part (.array first others) d
  | firstMember {first d : Doc} (key : KeyText) (others : List (KeyText × Doc))
      (h : Part first d) : Part (.object key first others) d
  | otherMember {m : KeyText × Doc} {d : Doc} (key : KeyText) (first : Doc)
      {others : List (KeyText × Doc)} (hmem : m ∈ others) (h : Part m.2 d) :
      Part (.object key first others) d

section PartOf

variable {d : Doc} {before after blank : Blank}

@[simp] theorem part_null_iff : Part .null d ↔ d = .null :=
  ⟨by rintro ⟨⟩; rfl, by rintro rfl; exact .self _⟩

@[simp] theorem part_bool_iff {value : Bool} : Part (.bool value) d ↔ d = .bool value :=
  ⟨by rintro ⟨⟩; rfl, by rintro rfl; exact .self _⟩

@[simp] theorem part_number_iff {n : Number} : Part (.number n) d ↔ d = .number n :=
  ⟨by rintro ⟨⟩; rfl, by rintro rfl; exact .self _⟩

@[simp] theorem part_string_iff {s : List StringPiece} : Part (.string s) d ↔ d = .string s :=
  ⟨by rintro ⟨⟩; rfl, by rintro rfl; exact .self _⟩

@[simp] theorem part_emptyArray_iff : Part (.emptyArray blank) d ↔ d = .emptyArray blank :=
  ⟨by rintro ⟨⟩; rfl, by rintro rfl; exact .self _⟩

@[simp] theorem part_emptyObject_iff : Part (.emptyObject blank) d ↔ d = .emptyObject blank :=
  ⟨by rintro ⟨⟩; rfl, by rintro rfl; exact .self _⟩

@[simp] theorem part_spaced_iff {value : Doc} :
    Part (.spaced before value after) d ↔ d = .spaced before value after ∨ Part value d := by
  constructor
  · rintro (_ | ⟨-, -, h⟩)
    · exact Or.inl rfl
    · exact Or.inr h
  · rintro (rfl | h)
    · exact .self _
    · exact .spaced before after h

@[simp] theorem part_array_iff {first : Doc} {others : List Doc} :
    Part (.array first others) d ↔
      d = .array first others ∨ Part first d ∨ ∃ other ∈ others, Part other d := by
  constructor
  · rintro (_ | _ | ⟨-, h⟩ | ⟨-, hmem, h⟩)
    · exact Or.inl rfl
    · exact Or.inr (Or.inl h)
    · exact Or.inr (Or.inr ⟨_, hmem, h⟩)
  · rintro (rfl | h | ⟨other, hmem, h⟩)
    · exact .self _
    · exact .first others h
    · exact .other first hmem h

@[simp] theorem part_object_iff {key : KeyText} {first : Doc} {others : List (KeyText × Doc)} :
    Part (.object key first others) d ↔
      d = .object key first others ∨ Part first d ∨ ∃ m ∈ others, Part m.2 d := by
  constructor
  · rintro (_ | _ | _ | _ | ⟨-, -, h⟩ | ⟨-, -, hmem, h⟩)
    · exact Or.inl rfl
    · exact Or.inr (Or.inl h)
    · exact Or.inr (Or.inr ⟨_, hmem, h⟩)
  · rintro (rfl | h | ⟨m, hmem, h⟩)
    · exact .self _
    · exact .firstMember key others h
    · exact .otherMember key first hmem h

end PartOf

/-- The keys of an object. -/
def keysOf (key : KeyText) (others : List (KeyText × Doc)) : List (List UInt8) :=
  raw key.key :: others.map fun m => raw m.1.key

/-- No object has two members with one key. -/
def KeysDistinct (d : Doc) : Prop :=
  ∀ key first others, Part d (.object key first others) → (keysOf key others).Nodup

/-- A key `parse_key` reads: it holds no quote and is no closing brace. -/
def KeyRead (key : List UInt8) : Prop := quote ∉ key ∧ key ≠ [closeBrace]

/-- Every key is one that `parse_key` reads. -/
def KeysRead (d : Doc) : Prop :=
  ∀ key first others, Part d (.object key first others) → ∀ k ∈ keysOf key others, KeyRead k

/-- The root of a document is an array or an object. -/
def IsContainer : Doc → Prop
  | .spaced _ value _ => IsContainer value
  | .emptyArray _ | .array .. | .emptyObject _ | .object .. => True
  | _ => False

end Doc

end JsonText

end TradingEngine
