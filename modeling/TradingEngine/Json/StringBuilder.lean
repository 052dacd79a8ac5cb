import TradingEngine.Json.Quoting
import TradingEngine.Machinery.Sink

/-!
# Json/StringBuilder — what a text is written to

`write_string_value` hands its text to a builder piece by piece: `JsonStringBuilder` writes into the
buffer that `get_string_value` has on its stack, `JsonStringBuilderDynamic` appends to a string.
Both are given the same text (`writeStringValue_eq`), and no write of the first one looks at the end
of the buffer: `getStringValue_iff`.
-/

namespace TradingEngine

open Ascii Sinks

/-- `JsonStringBuilder`, with its `write_raw` and its `write_char`; a write outside the memory it has
been given comes to nothing. -/
structure JsonStringBuilder (σ : Type) where
  writeRaw : Sink UInt8 σ
  writeChar : UInt8 → σ → Option σ
  writeChar_eq : ∀ c s, writeChar c s = writeRaw.write [c] s

namespace JsonStringBuilder

/-- `STRING_BUFFER_SIZE`. -/
def stringBufferSize : ℕ := 1000000

/-- `m_ptr[pos++] = c`. -/
def putChar {size : ℕ} (c : UInt8) (b : Buffer UInt8 size) : Option (Buffer UInt8 size) :=
  if h : b.pos < size then
    some ⟨b.cells.set b.pos c, b.pos + 1, (List.length_set).trans b.length_cells, h⟩
  else none

theorem putChar_eq {size : ℕ} (c : UInt8) (b : Buffer UInt8 size) :
    putChar c b = Buffer.sink.write [c] b := by
  change _ = if h : b.pos + 1 ≤ size then some (b.put [c] h) else none
  rw [putChar]
  by_cases h : b.pos < size
  · have hfits : b.pos + 1 ≤ size := h
    rw [dif_pos h, dif_pos hfits]
    refine congrArg some (Buffer.ext ?_ rfl)
    change b.cells.set b.pos c = b.cells.take b.pos ++ [c] ++ b.cells.drop (b.pos + 1)
    rw [List.set_eq_take_append_cons_drop, if_pos (b.length_cells.symm ▸ h), List.append_assoc]
    rfl
  · have hfull : ¬ b.pos + 1 ≤ size := h
    rw [dif_neg h, dif_neg hfull]

/-- `JsonStringBuilder`, on a buffer. -/
def fixed (size : ℕ) : JsonStringBuilder (Buffer UInt8 size) where
  writeRaw := Buffer.sink
  writeChar := putChar
  writeChar_eq := putChar_eq

/-- `JsonStringBuilderDynamic`. -/
def dynamic : JsonStringBuilder (List UInt8) where
  writeRaw := logSink
  writeChar c s := some (s ++ [c])
  writeChar_eq _ _ := rfl

end JsonStringBuilder

/-! ## The serializer -/

/-- What `write_string_value` goes over: of an object, the container that its kind shows. -/
inductive JsonView
  | null
  | scalar (x : JsonScalar) (isStringFormat : Bool)
  | array (elements : List JsonView)
  | object (fields : List (List UInt8 × JsonView))

section Serializer

variable {σ : Type} (doubles : DoubleText) (b : JsonStringBuilder σ)

/-- `JsonValue::write_string_value`. -/
def JsonScalar.writeStringValue (isStringFormat : Bool) (x : JsonScalar) (s : σ) : Option σ :=
  match x with
  | .null => b.writeRaw.write (text "null") s
  | .bool value => b.writeRaw.write (if value then text "true" else text "false") s
  | .int value => b.writeRaw.write (Json.intToChars value) s
  | .double value => b.writeRaw.write (doubles.toChars value) s
  | .string value =>
    if isStringFormat then do
      let s ← b.writeChar quote s
      let s ← b.writeRaw.write value s
      b.writeChar quote s
    else b.writeRaw.write value s

namespace JsonView

/-- The comma in front of a part, unless it is the first. -/
def writeComma (count : ℕ) (s : σ) : Option σ := if 0 < count then b.writeChar comma s else some s

mutual

/-- `Json::write_string_value`. -/
def writeStringValue : JsonView → σ → Option σ
  | .null, s => b.writeRaw.write (text "null") s
  | .scalar x isStringFormat, s => x.writeStringValue doubles b isStringFormat s
  | .array elements, s => do
    let s ← b.writeChar openBracket s
    let s ← writeElements 0 elements s
    b.writeChar closeBracket s
  | .object fields, s => do
    let s ← b.writeChar openBrace s
    let s ← writeFields 0 fields s
    b.writeChar closeBrace s

/-- The loop over the elements, with the index of the next. -/
def writeElements : ℕ → List JsonView → σ → Option σ
  | _, [], s => some s
  | i, element :: elements, s => do
    let s ← writeComma b i s
    let s ← writeStringValue element s
    writeElements (i + 1) elements s

/-- The loop over the fields, with their count. -/
def writeFields : ℕ → List (List UInt8 × JsonView) → σ → Option σ
  | _, [], s => some s
  | count, (key, value) :: fields, s => do
    let s ← writeComma b count s
    let s ← b.writeChar quote s
    let s ← b.writeRaw.write key s
    let s ← b.writeChar quote s
    let s ← b.writeChar colon s
    let s ← writeStringValue value s
    writeFields (count + 1) fields s

end

variable (t : JsonView)

/-- `get_string_value`, with what the buffer holds; `finish` takes its characters up to the
position. -/
def getStringValue (memory : Vector UInt8 JsonStringBuilder.stringBufferSize) :
    Option (List UInt8) :=
  (t.writeStringValue doubles (.fixed JsonStringBuilder.stringBufferSize)
    ⟨memory.toList, 0, memory.length_toList, Nat.zero_le _⟩).map Buffer.written

/-- `get_string_value_dynamic`. -/
def getStringValueDynamic : Option (List UInt8) := t.writeStringValue doubles .dynamic []

/-! ## The text -/

mutual

/-- The text of a view. -/
def write : JsonView → List UInt8
  | .null => text "null"
  | .scalar x isStringFormat => x.write doubles isStringFormat
  | .array elements => bracketed openBracket closeBracket (elementTexts elements)
  | .object fields => bracketed openBrace closeBrace (fieldTexts fields)

def elementTexts : List JsonView → List (List UInt8)
  | [] => []
  | element :: elements => write element :: elementTexts elements

def fieldTexts : List (List UInt8 × JsonView) → List (List UInt8)
  | [] => []
  | (key, value) :: fields => fieldText key (write value) :: fieldTexts fields

end

variable {doubles} in
theorem elementTexts_eq (elements : List JsonView) :
    elementTexts doubles elements = elements.map (write doubles) := by
  induction elements with
  | nil => rfl
  | cons element elements ih => exact congrArg (write doubles element :: ·) ih

variable {doubles} in
theorem fieldTexts_eq (fields : List (List UInt8 × JsonView)) :
    fieldTexts doubles fields =
      fields.map fun f => fieldText f.1 (write doubles f.2) := by
  induction fields with
  | nil => rfl
  | cons f fields ih => exact congrArg (fieldText f.1 (write doubles f.2) :: ·) ih

/-- What a loop writes for the parts from one on. -/
def partsText (i : ℕ) (parts : List (List UInt8)) : List UInt8 :=
  if 0 < i then parts.flatMap (comma :: ·) else [comma].intercalate parts

theorem partsText_nil (i : ℕ) : partsText i [] = [] := by
  rw [partsText]
  split_ifs <;> rfl

theorem partsText_cons (i : ℕ) (part : List UInt8) (parts : List (List UInt8)) :
    partsText i (part :: parts) =
      (if 0 < i then [comma] else []) ++ part ++ partsText (i + 1) parts := by
  rw [partsText, partsText, if_pos (Nat.succ_pos i)]
  split_ifs
  · rw [List.flatMap_cons]
    rfl
  · rw [List.nil_append]
    induction parts generalizing part with
    | nil => rw [List.intercalate_singleton, List.flatMap_nil, List.append_nil]
    | cons next parts ih =>
      rw [List.intercalate_cons_cons, ih, List.flatMap_cons, List.append_assoc]
      rfl

/-- A text between brackets, behind its first part. -/
theorem bracketed_cons (left right : UInt8) (part : List UInt8) (parts : List (List UInt8)) :
    bracketed left right (part :: parts) = left :: part ++ (partsText 1 parts ++ [right]) := by
  change left :: partsText 0 (part :: parts) ++ [right] = _
  rw [partsText_cons, if_neg (lt_irrefl 0), List.nil_append, List.cons_append, List.append_assoc]
  rfl

variable {doubles b}

theorem scalar_writeStringValue (x : JsonScalar) (isStringFormat : Bool) (s : σ) :
    x.writeStringValue doubles b isStringFormat s =
      b.writeRaw.write (x.write doubles isStringFormat) s := by
  cases x with
  | string value =>
    cases isStringFormat with
    | true =>
      simp only [JsonScalar.writeStringValue, JsonScalar.write, if_true, Option.bind_eq_bind,
        b.writeChar_eq, ← b.writeRaw.write_append]
      rfl
    | false => rfl
  | _ => rfl

theorem writeComma_eq (i : ℕ) (s : σ) :
    writeComma b i s = b.writeRaw.write (if 0 < i then [comma] else []) s := by
  rw [writeComma]
  split_ifs
  · exact b.writeChar_eq comma s
  · exact (b.writeRaw.write_nil s).symm

mutual

/-- **Every builder is given the text.** -/
theorem writeStringValue_eq : ∀ (t : JsonView) (s : σ),
    writeStringValue doubles b t s = b.writeRaw.write (write doubles t) s
  | .null, s => rfl
  | .scalar x isStringFormat, s => scalar_writeStringValue x isStringFormat s
  | .array elements, s => by
    have hloop := writeElements_eq 0 elements
    simp only [writeStringValue, write, bracketed, Option.bind_eq_bind, b.writeChar_eq, hloop,
      ← b.writeRaw.write_append, partsText, lt_irrefl, if_false]
    rfl
  | .object fields, s => by
    have hloop := writeFields_eq 0 fields
    simp only [writeStringValue, write, bracketed, Option.bind_eq_bind, b.writeChar_eq, hloop,
      ← b.writeRaw.write_append, partsText, lt_irrefl, if_false]
    rfl

theorem writeElements_eq : ∀ (i : ℕ) (elements : List JsonView) (s : σ),
    writeElements doubles b i elements s =
      b.writeRaw.write (partsText i (elementTexts doubles elements)) s
  | i, [], s => by
    rw [writeElements, elementTexts, partsText_nil, b.writeRaw.write_nil]
  | i, element :: elements, s => by
    have helement := writeStringValue_eq element
    have hloop := writeElements_eq (i + 1) elements
    simp only [writeElements, elementTexts, Option.bind_eq_bind, writeComma_eq, helement, hloop,
      ← b.writeRaw.write_append, partsText_cons, List.append_assoc]

theorem writeFields_eq : ∀ (i : ℕ) (fields : List (List UInt8 × JsonView)) (s : σ),
    writeFields doubles b i fields s =
      b.writeRaw.write (partsText i (fieldTexts doubles fields)) s
  | i, [], s => by
    rw [writeFields, fieldTexts, partsText_nil, b.writeRaw.write_nil]
  | i, (key, value) :: fields, s => by
    have hvalue := writeStringValue_eq value
    have hloop := writeFields_eq (i + 1) fields
    simp only [writeFields, fieldTexts, Option.bind_eq_bind, writeComma_eq, b.writeChar_eq, hvalue,
      hloop, ← b.writeRaw.write_append, partsText_cons, fieldText, List.append_assoc]
    rfl

end

/-! ## The size of a text -/

/-- The characters between two brackets, with the commas. -/
def bracketedSize (sizes : List ℕ) : ℕ := 2 + (sizes.length - 1) + sizes.sum

end JsonView

/-- The characters of a scalar. -/
def JsonScalar.size (isStringFormat : Bool) : JsonScalar → ℕ
  | .null => 4
  | .bool value => if value then 4 else 5
  | .int value => (Json.intToChars value).length
  | .double value => (doubles.toChars value).length
  | .string value => if isStringFormat then value.length + 2 else value.length

theorem JsonScalar.length_write (isStringFormat : Bool) (x : JsonScalar) :
    (x.write doubles isStringFormat).length = x.size doubles isStringFormat := by
  cases x with
  | null => rfl
  | bool value => cases value <;> rfl
  | int value => rfl
  | double value => rfl
  | string value =>
    cases isStringFormat with
    | true =>
      change (quote :: value ++ [quote]).length = value.length + 2
      rw [List.length_append, List.length_cons, List.length_singleton]
    | false => rfl

namespace JsonView

mutual

/-- The characters of a view. -/
def size : JsonView → ℕ
  | .null => 4
  | .scalar x isStringFormat => x.size doubles isStringFormat
  | .array elements => bracketedSize (elementSizes elements)
  | .object fields => bracketedSize (fieldSizes fields)

def elementSizes : List JsonView → List ℕ
  | [] => []
  | element :: elements => size element :: elementSizes elements

/-- A field has two quotes and a colon. -/
def fieldSizes : List (List UInt8 × JsonView) → List ℕ
  | [] => []
  | (key, value) :: fields => (key.length + 3 + size value) :: fieldSizes fields

end

variable {doubles}

theorem length_partsText (parts : List (List UInt8)) :
    (partsText 1 parts).length = parts.length + (parts.map List.length).sum := by
  induction parts with
  | nil => rfl
  | cons part parts ih =>
    rw [partsText_cons, if_pos Nat.one_pos, partsText, if_pos (Nat.succ_pos 1)]
    rw [partsText, if_pos Nat.one_pos] at ih
    rw [List.length_append, List.length_append, ih, List.length_singleton, List.length_cons,
      List.map_cons, List.sum_cons]
    omega

theorem length_bracketed (left right : UInt8) (parts : List (List UInt8)) :
    (bracketed left right parts).length = bracketedSize (parts.map List.length) := by
  have hparts : bracketed left right parts = left :: partsText 0 parts ++ [right] := rfl
  rw [hparts, bracketedSize, List.length_append, List.length_cons, List.length_singleton,
    List.length_map]
  cases parts with
  | nil => rfl
  | cons part parts =>
    rw [partsText_cons, if_neg (lt_irrefl 0), List.nil_append, List.length_append,
      length_partsText, List.length_cons, List.map_cons, List.sum_cons]
    omega

mutual

/-- **The text has the size of its view.** -/
theorem length_write : ∀ t : JsonView, (write doubles t).length = size doubles t
  | .null => rfl
  | .scalar x isStringFormat => x.length_write doubles isStringFormat
  | .array elements => by
    rw [write, size, length_bracketed, lengths_elementTexts elements]
  | .object fields => by
    rw [write, size, length_bracketed, lengths_fieldTexts fields]

theorem lengths_elementTexts : ∀ elements : List JsonView,
    (elementTexts doubles elements).map List.length = elementSizes doubles elements
  | [] => rfl
  | element :: elements => by
    rw [elementTexts, elementSizes, List.map_cons, length_write element,
      lengths_elementTexts elements]

theorem lengths_fieldTexts : ∀ fields : List (List UInt8 × JsonView),
    (fieldTexts doubles fields).map List.length = fieldSizes doubles fields
  | [] => rfl
  | (key, value) :: fields => by
    have hfield : (fieldText key (write doubles value)).length =
        key.length + 3 + size doubles value := by
      rw [fieldText, List.length_append, List.length_cons, List.length_cons, List.length_cons,
        length_write value]
      omega
    rw [fieldTexts, fieldSizes, List.map_cons, hfield, lengths_fieldTexts fields]

end

/-! ## The two serializers -/

theorem getStringValueDynamic_eq (t : JsonView) :
    t.getStringValueDynamic doubles = some (t.write doubles) :=
  writeStringValue_eq t []

theorem getStringValue_eq (t : JsonView)
    (memory : Vector UInt8 JsonStringBuilder.stringBufferSize) :
    t.getStringValue doubles memory =
      if t.size doubles ≤ JsonStringBuilder.stringBufferSize then some (t.write doubles)
      else none := by
  rw [getStringValue, writeStringValue_eq, ← length_write]
  refine (Buffer.sink_write _ _).trans ?_
  rw [Nat.zero_add]
  rfl

/-- **When the serializers agree.**  Every write stays within the buffer, and the two texts are the
same, if and only if the text has no more characters than the buffer has. -/
theorem getStringValue_iff (doubles : DoubleText)
    (memory : Vector UInt8 JsonStringBuilder.stringBufferSize) (t : JsonView) :
    (∃ text, t.getStringValue doubles memory = some text ∧
      t.getStringValueDynamic doubles = some text) ↔
      t.size doubles ≤ JsonStringBuilder.stringBufferSize := by
  rw [getStringValue_eq, getStringValueDynamic_eq]
  split_ifs with h
  · exact iff_of_true ⟨_, rfl, rfl⟩ h
  · exact iff_of_false nofun h

/-- A string as long as the buffer: its closing quote is written behind the end. -/
theorem longString_overruns :
    ¬ ∃ text, (JsonView.scalar (.string (List.replicate 1000000 97)) true).getStringValue
        ⟨fun _ => [], fun _ => none⟩ (Vector.replicate _ 0) = some text ∧
      (JsonView.scalar (.string (List.replicate 1000000 97)) true).getStringValueDynamic
        ⟨fun _ => [], fun _ => none⟩ = some text := by
  rintro ⟨text, hfixed, -⟩
  have hsize : ¬ (List.replicate 1000000 (97 : UInt8)).length + 2 ≤
      JsonStringBuilder.stringBufferSize := by
    rw [List.length_replicate, JsonStringBuilder.stringBufferSize]
    omega
  rw [getStringValue_eq, size, JsonScalar.size, if_pos rfl, if_neg hsize] at hfixed
  cases hfixed

end JsonView

/-! ## Where a view comes from -/

variable {doubles}

namespace Json

mutual

/-- The view of a tree: every string is quoted. -/
def view : Json → JsonView
  | .null => .null
  | .bool value => .scalar (.bool value) true
  | .int value => .scalar (.int value) true
  | .double value => .scalar (.double value) true
  | .string value => .scalar (.string value) true
  | .array elements => .array (viewElements elements)
  | .object fields => .object (viewFields fields)

def viewElements : List Json → List JsonView
  | [] => []
  | element :: elements => view element :: viewElements elements

def viewFields : List (List UInt8 × Json) → List (List UInt8 × JsonView)
  | [] => []
  | (key, value) :: fields => (key, view value) :: viewFields fields

end

open JsonView in
mutual

/-- **A tree and its view have one text.** -/
theorem write_view : ∀ t : Json, t.view.write doubles = t.write doubles
  | .null => by rw [view, JsonView.write, write]
  | .bool value => by rw [view, JsonView.write, write, JsonScalar.write]
  | .int value => by rw [view, JsonView.write, write, JsonScalar.write]
  | .double value => by rw [view, JsonView.write, write, JsonScalar.write]
  | .string value => by
    rw [view, JsonView.write, write, JsonScalar.write, if_pos rfl]
  | .array [] => by
    rw [view, viewElements, JsonView.write, elementTexts, write]
    rfl
  | .array (e :: es) => by
    have hpart := write_view e
    have hparts := writeElements_view es
    rw [view, viewElements, JsonView.write, elementTexts, write, hpart, ← hparts, bracketed_cons]
  | .object [] => by
    rw [view, viewFields, JsonView.write, fieldTexts, write]
    rfl
  | .object ((key, value) :: fs) => by
    have hpart := write_view value
    have hparts := writeFields_view fs
    rw [view, viewFields, JsonView.write, fieldTexts, write, hpart, ← hparts, bracketed_cons]
    simp only [fieldText, List.append_assoc, List.cons_append]

theorem writeElements_view : ∀ es : List Json,
    partsText 1 (elementTexts doubles (viewElements es)) ++ [closeBracket] =
      writeElements doubles es
  | [] => by
    rw [viewElements, elementTexts, writeElements]
    rfl
  | e :: es => by
    rw [viewElements, elementTexts, writeElements, write_view e, ← writeElements_view es,
      partsText_cons, if_pos Nat.one_pos, List.append_assoc, List.append_assoc]
    rfl

theorem writeFields_view : ∀ fs : List (List UInt8 × Json),
    partsText 1 (fieldTexts doubles (viewFields fs)) ++ [closeBrace] = writeFields doubles fs
  | [] => by
    rw [viewFields, fieldTexts, writeFields]
    rfl
  | (key, value) :: fs => by
    rw [viewFields, fieldTexts, writeFields, write_view value, ← writeFields_view fs,
      partsText_cons, if_pos Nat.one_pos, fieldText]
    simp only [List.append_assoc, List.cons_append, List.nil_append]
    rfl

end

end Json

/-! ## The tree of a view -/

/-- The scalar as a tree. -/
def JsonScalar.toJson : JsonScalar → Json
  | .null => .null
  | .bool value => .bool value
  | .int value => .int value
  | .double value => .double value
  | .string value => .string value

namespace JsonView

mutual

/-- What a view holds, whatever the format of its strings. -/
def toJson : JsonView → Json
  | .null => .null
  | .scalar x _ => x.toJson
  | .array elements => .array (elementsToJson elements)
  | .object fields => .object (fieldsToJson fields)

def elementsToJson : List JsonView → List Json
  | [] => []
  | element :: elements => toJson element :: elementsToJson elements

def fieldsToJson : List (List UInt8 × JsonView) → List (List UInt8 × Json)
  | [] => []
  | (key, value) :: fields => (key, toJson value) :: fieldsToJson fields

end

/-- Every string of the view is in the string format, as `JsonValue` makes it. -/
inductive Quoted : JsonView → Prop
  | null : Quoted .null
  | scalar {x : JsonScalar} {isStringFormat : Bool}
      (h : ∀ value, x = .string value → isStringFormat = true) : Quoted (.scalar x isStringFormat)
  | array {elements : List JsonView} (h : ∀ t ∈ elements, Quoted t) : Quoted (.array elements)
  | object {fields : List (List UInt8 × JsonView)} (h : ∀ f ∈ fields, Quoted f.2) :
      Quoted (.object fields)

theorem scalar_write {x : JsonScalar} {isStringFormat : Bool}
    (h : ∀ value, x = .string value → isStringFormat = true) :
    x.write doubles isStringFormat = x.toJson.write doubles := by
  cases x with
  | string value =>
    rw [h value rfl, JsonScalar.write, if_pos rfl, JsonScalar.toJson, Json.write]
  | _ => rw [JsonScalar.write, JsonScalar.toJson, Json.write]

theorem elementTexts_viewElements {elements : List JsonView}
    (h : ∀ t ∈ elements, t.write doubles = t.toJson.view.write doubles) :
    elementTexts doubles elements =
      elementTexts doubles (Json.viewElements (elementsToJson elements)) := by
  induction elements with
  | nil => rfl
  | cons element elements ih =>
    rw [elementTexts, elementsToJson, Json.viewElements, elementTexts, h element List.mem_cons_self,
      ih fun t ht => h t (List.mem_cons_of_mem element ht)]

theorem fieldTexts_viewFields {fields : List (List UInt8 × JsonView)}
    (h : ∀ f ∈ fields, f.2.write doubles = f.2.toJson.view.write doubles) :
    fieldTexts doubles fields = fieldTexts doubles (Json.viewFields (fieldsToJson fields)) := by
  induction fields with
  | nil => rfl
  | cons f fields ih =>
    obtain ⟨key, value⟩ := f
    have hvalue := h (key, value) List.mem_cons_self
    rw [fieldTexts, fieldsToJson, Json.viewFields, fieldTexts, hvalue,
      ih fun g hg => h g (List.mem_cons_of_mem (key, value) hg)]

/-- **Where every string is quoted, the text is that of the tree.** -/
theorem Quoted.write_eq {t : JsonView} (h : Quoted t) : t.write doubles = t.toJson.write doubles := by
  rw [← Json.write_view]
  induction h with
  | null => rfl
  | scalar h => rw [write, toJson, Json.write_view, scalar_write h]
  | array _ ih =>
    rw [write, toJson, Json.view, write, elementTexts_viewElements ih]
  | object _ ih =>
    rw [write, toJson, Json.view, write, fieldTexts_viewFields ih]

end JsonView

namespace JsonStore

variable {n m : ℕ}

/-- What `write_string_value` goes over, unless an object is deeper down. -/
def view : ℕ → JsonStore n m → JsonPointer n m → Option JsonView
  | _, _, .null => some .null
  | _, s, .value v => some (.scalar (s.values v).scalar (s.values v).isStringFormat)
  | 0, _, .object _ => none
  | depth + 1, s, .object o =>
    if (s.objects o).isArray then
      ((s.objects o).array.mapM (view depth s)).map .array
    else
      ((s.objects o).object.mapM fun f => (view depth s f.2).map fun t => (f.1, t)).map .object

/-- The texts of the parts, from what is known of each. -/
theorem map_eq_of_mapM {α β γ : Type*} {f : α → Option β} {g : α → γ} {h : β → γ}
    (hparts : ∀ a b, f a = some b → g a = h b) {l : List α} {l' : List β}
    (hl : l.mapM f = some l') : l.map g = l'.map h := by
  induction l generalizing l' with
  | nil =>
    cases hl
    rfl
  | cons a l ih =>
    rw [List.mapM_cons] at hl
    obtain ⟨b, hb, hrest⟩ := Option.bind_eq_some_iff.mp hl
    obtain ⟨bs, hbs, hpure⟩ := Option.bind_eq_some_iff.mp hrest
    cases hpure
    rw [List.map_cons, List.map_cons, hparts a b hb, ih hbs]

/-- **A `Json` of the store and its view have one text.** -/
theorem write_view {s : JsonStore n m} {depth : ℕ} {p : JsonPointer n m} {t : JsonView}
    (h : s.view depth p = some t) : t.write doubles = s.writeStringValue doubles depth p := by
  induction depth generalizing p t with
  | zero =>
    cases p with
    | null =>
      cases h
      rfl
    | value v =>
      cases h
      rfl
    | object o => cases h
  | succ depth ih =>
    cases p with
    | null =>
      cases h
      rfl
    | value v =>
      cases h
      rfl
    | object o =>
      rw [view] at h
      rw [writeStringValue]
      split_ifs at h ⊢
      · obtain ⟨elements, helements, rfl⟩ := Option.map_eq_some_iff.mp h
        rw [JsonView.write, JsonView.elementTexts_eq, ← map_eq_of_mapM (fun q t ht => ?_) helements]
        exact (ih ht).symm
      · obtain ⟨fields, hfields, rfl⟩ := Option.map_eq_some_iff.mp h
        rw [JsonView.write, JsonView.fieldTexts_eq, ← map_eq_of_mapM (fun f g hg => ?_) hfields]
        obtain ⟨t, ht, rfl⟩ := Option.map_eq_some_iff.mp hg
        rw [ih ht]

end JsonStore

end Serializer

end TradingEngine
