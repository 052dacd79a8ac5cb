import TradingEngine.Json.Items
import TradingEngine.Json.ParseResult

/-!
# Json/ItemParse — the items that `JsonParseNew` makes

`parse_object` and `parse_array` begin with a `Json` that holds no item, and what they return without
a part holds none.  Apart from that the scan gives what it gave (`parse_eq_erase`); a text whose first
container is empty leaves no item at all (`parseItem_eq_nullptr_iff`).
-/

namespace TradingEngine

open Ascii

/-- A scan with another value. -/
def Scan.map {α β : Type} (f : α → β) : Scan α → Scan β
  | .running => .running
  | .invalid => .invalid
  | .ok value rest => .ok (f value) rest

namespace JsonParse

/-! ## The scan -/

/-- The number that has been read, in a `JsonValue`. -/
def numberItem : Json → JsonItem
  | .int value => .value (.int value)
  | .double value => .value (.double value)
  | _ => .nullptr

/-- The last loop of `parse_value`. -/
def resyncItem (t : JsonItem) (s : List UInt8) : Scan JsonItem :=
  match s.dropWhile fun c => !isDelimiter c with
  | [] => .invalid
  | c :: rest => .ok t (c :: rest)

variable (doubles : DoubleText)

mutual

/-- `parse_object`, with its `res`. -/
def itemObject : ℕ → JsonItem → List UInt8 → Scan JsonItem
  | 0, _, _ => .running
  | fuel + 1, res, s =>
    match s with
    | [] => .invalid
    | c :: rest =>
      if c = closeBrace then .ok res rest
      else
        match parseKey s with
        | none => .invalid
        | some (key, afterKey) =>
          if key = [closeBrace] then .ok res afterKey
          else
            (itemValue fuel afterKey).andThen fun value afterValue =>
              itemObject fuel (res.put (fun _ => value) (.key (keyOf key))) (skipComma afterValue)

/-- `parse_array`, with its `res` and its `index`. -/
def itemArray : ℕ → JsonItem → ℕ → List UInt8 → Scan JsonItem
  | 0, _, _, _ => .running
  | fuel + 1, res, index, s =>
    match s with
    | [] => .invalid
    | c :: rest =>
      if c = closeBracket then .ok res rest
      else
        (itemValue fuel s).andThen fun value afterValue =>
          itemArray fuel (res.put (fun _ => value) (.index index)) (index + 1)
            (skipComma afterValue)

/-- `parse_value`.  At a closing character it returns a `Json` without an item. -/
def itemValue : ℕ → List UInt8 → Scan JsonItem
  | 0, _ => .running
  | fuel + 1, s =>
    match skipToValue s with
    | [] => .invalid
    | c :: rest =>
      if isClosing c then .ok .nullptr (c :: rest)
      else if c = quote then
        match parseValueString false rest with
        | none => .invalid
        | some (value, rest') => resyncItem (.value (.string value)) rest'
      else if isNumber c then
        match parseValueNumber doubles (c :: rest) with
        | none => .invalid
        | some (value, rest') => resyncItem (numberItem value) rest'
      else if isTrue (c :: rest) then resyncItem (.value (.bool true)) (rest.drop 3)
      else if isFalse (c :: rest) then resyncItem (.value (.bool false)) (rest.drop 4)
      else if isNull (c :: rest) then resyncItem (.value .null) (rest.drop 3)
      else
        (if c = openBrace then itemObject fuel .nullptr rest
          else itemArray fuel .nullptr 0 rest).andThen resyncItem

end

/-- What `parse` returns: a failed scan leaves a `JsonValue` with null. -/
def itemOf : Scan JsonItem → Option (JsonItem × Bool)
  | .ok t _ => some (t, true)
  | .invalid => some (.value .null, false)
  | .running => none

/-- `JsonParseNew::parse`, with the items. -/
def parseItem (fuel : ℕ) (s : List UInt8) : Option (JsonItem × Bool) :=
  match s with
  | [] => some (.value .null, true)
  | _ =>
    match s.dropWhile fun c => c ≠ openBrace ∧ c ≠ openBracket with
    | [] => some (.value .null, false)
    | c :: rest =>
      itemOf (if c = openBrace then itemObject doubles fuel .nullptr rest
        else itemArray doubles fuel .nullptr 0 rest)

end JsonParse

/-! ## The trees of the items -/

/-- The tree of a scalar. -/
def JsonScalar.tree : JsonScalar → Json
  | .null => .null
  | .bool value => .bool value
  | .int value => .int value
  | .double value => .double value
  | .string value => .string value

namespace JsonItem

mutual

/-- The tree of an item: without one it is null, and a container shows its kind. -/
def erase : JsonItem → Json
  | .nullptr => .null
  | .value x => x.tree
  | .object true _ elements => .array (eraseElements elements)
  | .object false fields _ => .object (eraseFields fields)

def eraseElements : List JsonItem → List Json
  | [] => []
  | element :: elements => erase element :: eraseElements elements

def eraseFields : List (List UInt8 × JsonItem) → List (List UInt8 × Json)
  | [] => []
  | (key, t) :: fields => (key, erase t) :: eraseFields fields

end

theorem eraseElements_eq (elements : List JsonItem) :
    eraseElements elements = elements.map erase := by
  induction elements with
  | nil => rfl
  | cons element elements ih => exact congrArg (erase element :: ·) ih

theorem eraseFields_eq (fields : List (List UInt8 × JsonItem)) :
    eraseFields fields = fields.map (Prod.map id erase) := by
  induction fields with
  | nil => rfl
  | cons field fields ih => exact congrArg ((field.1, erase field.2) :: ·) ih

end JsonItem

namespace JsonParse

open JsonItem

/-- The `res` of `parse_object` with these fields. -/
def objectItem (fields : List (List UInt8 × JsonItem)) : JsonItem :=
  if fields.isEmpty then .nullptr else .object false fields []

/-- The `res` of `parse_array` with these elements. -/
def arrayItem (elements : List JsonItem) : JsonItem :=
  if elements.isEmpty then .nullptr else .object true [] elements

variable {doubles : DoubleText}

theorem erase_objectItem (fields : List (List UInt8 × JsonItem)) :
    (objectItem fields).erase = objectOf (eraseFields fields) := by
  cases fields <;> rfl

theorem erase_arrayItem (elements : List JsonItem) :
    (arrayItem elements).erase = arrayOf (eraseElements elements) := by
  cases elements <;> rfl

/-- **A field is set.** -/
theorem objectItem_put (fields : List (List UInt8 × JsonItem)) (key : List UInt8) (t : JsonItem) :
    (objectItem fields).put (fun _ => t) (.key key) =
      objectItem (Fields.put fields key .nullptr fun _ => t) := by
  have hne : Fields.put fields key JsonItem.nullptr (fun _ => t) ≠ [] := Fields.put_ne_nil
  have hshown : (objectItem fields).fields = fields ∧ (objectItem fields).elements = [] := by
    cases fields <;> exact ⟨rfl, rfl⟩
  rw [JsonItem.put, hshown.1, hshown.2, objectItem, if_neg (mt List.isEmpty_iff.mp hne)]

theorem eraseFields_put (fields : List (List UInt8 × JsonItem)) (key : List UInt8) (t : JsonItem) :
    eraseFields (Fields.put fields (keyOf key) .nullptr fun _ => t) =
      setField (eraseFields fields) key t.erase := by
  rw [setField_eq, eraseFields_eq, eraseFields_eq]
  exact Fields.map_put rfl fun _ => rfl

/-- **An element is set**, behind the others. -/
theorem arrayItem_put (elements : List JsonItem) (t : JsonItem) :
    (arrayItem elements).put (fun _ => t) (.index elements.length) = arrayItem (elements ++ [t]) := by
  have hshown : (arrayItem elements).fields = [] ∧ (arrayItem elements).elements = elements := by
    cases elements <;> exact ⟨rfl, rfl⟩
  have hnew : (resized elements elements.length).modify elements.length (fun _ => t) =
      elements ++ [t] := by
    rw [resized, Nat.add_sub_cancel_left, List.modify_eq_take_drop, List.take_left, List.drop_left]
    rfl
  have hne : elements ++ [t] ≠ [] := List.append_ne_nil_of_right_ne_nil _ (List.cons_ne_nil _ _)
  rw [JsonItem.put, hshown.1, hshown.2, hnew, arrayItem, if_neg (mt List.isEmpty_iff.mp hne)]

theorem eraseElements_append (elements : List JsonItem) (t : JsonItem) :
    eraseElements (elements ++ [t]) = eraseElements elements ++ [t.erase] := by
  rw [eraseElements_eq, eraseElements_eq, List.map_append, List.map_singleton]

/-! ## The scan of the trees -/

theorem map_andThen {scan : Scan JsonItem} {scan' : Scan Json}
    {f : JsonItem → List UInt8 → Scan JsonItem} {f' : Json → List UInt8 → Scan Json}
    (h : scan.map erase = scan') (hf : ∀ t rest, (f t rest).map erase = f' t.erase rest) :
    (scan.andThen f).map erase = scan'.andThen f' := by
  subst h
  cases scan with
  | running => rfl
  | invalid => rfl
  | ok t rest => exact hf t rest

theorem map_resyncItem (t : JsonItem) (s : List UInt8) :
    (resyncItem t s).map erase = resync t.erase s := by
  rw [resyncItem, resync]
  cases s.dropWhile fun c => !isDelimiter c <;> rfl

/-- The item of a number has its tree, and is one. -/
theorem numberItem_spec {s rest : List UInt8} {value : Json}
    (h : parseValueNumber doubles s = some (value, rest)) :
    (numberItem value).erase = value ∧ numberItem value ≠ .nullptr := by
  simp only [parseValueNumber] at h
  split_ifs at h
  · obtain ⟨x, -, hx⟩ := Option.map_eq_some_iff.mp h
    obtain ⟨rfl, -⟩ := Prod.mk.inj hx
    exact ⟨rfl, JsonItem.noConfusion⟩
  · obtain ⟨n, -, hn⟩ := Option.map_eq_some_iff.mp h
    obtain ⟨rfl, -⟩ := Prod.mk.inj hn
    exact ⟨rfl, JsonItem.noConfusion⟩

/-- **The scan is the same**, with the trees of its items. -/
theorem map_item_scan (fuel : ℕ) :
    (∀ fields s, (itemObject doubles fuel (objectItem fields) s).map erase =
      parseObject doubles fuel (eraseFields fields) s) ∧
    (∀ elements s, (itemArray doubles fuel (arrayItem elements) elements.length s).map erase =
      parseArray doubles fuel (eraseElements elements) s) ∧
    ∀ s, (itemValue doubles fuel s).map erase = parseValue doubles fuel s := by
  induction fuel with
  | zero =>
    refine ⟨fun fields s => ?_, fun elements s => ?_, fun s => ?_⟩
    · rw [itemObject, parseObject]
      rfl
    · rw [itemArray, parseArray]
      rfl
    · rw [itemValue, parseValue]
      rfl
  | succ fuel ih =>
    obtain ⟨hobject, harray, hvalue⟩ := ih
    refine ⟨fun fields s => ?_, fun elements s => ?_, fun s => ?_⟩
    · unfold itemObject parseObject
      cases s with
      | nil => rfl
      | cons c rest =>
        dsimp only
        split_ifs
        · rw [Scan.map, erase_objectItem]
        · cases parseKey (c :: rest) with
          | none => rfl
          | some read =>
            dsimp only
            split_ifs
            · rw [Scan.map, erase_objectItem]
            · refine map_andThen (hvalue _) fun t rest => ?_
              rw [objectItem_put, hobject, eraseFields_put]
    · unfold itemArray parseArray
      cases s with
      | nil => rfl
      | cons c rest =>
        dsimp only
        split_ifs
        · rw [Scan.map, erase_arrayItem]
        · refine map_andThen (hvalue _) fun t rest => ?_
          rw [arrayItem_put, ← eraseElements_append, ← harray, List.length_append,
            List.length_singleton]
    · rw [itemValue, parseValue]
      cases skipToValue s with
      | nil => rfl
      | cons c rest =>
        dsimp only
        split_ifs
        · rfl
        · cases parseValueString false rest with
          | none => rfl
          | some read => exact map_resyncItem _ _
        · cases hnumber : parseValueNumber doubles (c :: rest) with
          | none => rfl
          | some read =>
            dsimp only
            rw [map_resyncItem, (numberItem_spec hnumber).1]
        · exact map_resyncItem _ _
        · exact map_resyncItem _ _
        · exact map_resyncItem _ _
        · exact map_andThen (hobject [] _) map_resyncItem
        · exact map_andThen (harray [] _) map_resyncItem

/-- **The parser gives the tree of its item.** -/
theorem parse_eq_erase (fuel : ℕ) (s : List UInt8) :
    parse doubles fuel s = (parseItem doubles fuel s).map (Prod.map erase id) := by
  have hresult : ∀ {scan : Scan JsonItem} {scan' : Scan Json}, scan.map erase = scan' →
      resultOf scan' = (itemOf scan).map (Prod.map erase id) := by
    rintro scan _ rfl
    cases scan <;> rfl
  cases s with
  | nil => rfl
  | cons c s =>
    simp only [parse, parseItem]
    cases (c :: s).dropWhile fun c => c ≠ openBrace ∧ c ≠ openBracket with
    | nil => rfl
    | cons d rest =>
      dsimp only
      split_ifs
      · exact hresult ((map_item_scan fuel).1 [] rest)
      · exact hresult ((map_item_scan fuel).2.1 [] rest)

/-! ## Texts without an item -/

/-- A container without a part: its first key is a closing brace, or the bracket is closed at once. -/
def EmptyContainer (c : UInt8) (rest : List UInt8) : Prop :=
  if c = openBrace then (parseKey rest).map (·.1) = some [closeBrace]
  else rest.head? = some closeBracket

/-- The first bracket of a text opens a container without a part. -/
def EmptyText (s : List UInt8) : Prop :=
  match s.dropWhile fun c => c ≠ openBrace ∧ c ≠ openBracket with
  | [] => False
  | c :: rest => EmptyContainer c rest

/-- Nothing stands where a value is looked for, or an empty container does. -/
def NoItem (s : List UInt8) : Prop :=
  match skipToValue s with
  | [] => False
  | c :: rest => isClosing c = true ∨ ((c = openBrace ∨ c = openBracket) ∧ EmptyContainer c rest)

instance (c : UInt8) (rest : List UInt8) : Decidable (EmptyContainer c rest) := by
  rw [EmptyContainer]
  infer_instance

theorem emptyText_iff (s : List UInt8) :
    EmptyText s ↔ ∃ c ∈ (s.dropWhile fun c => c ≠ openBrace ∧ c ≠ openBracket).head?,
      EmptyContainer c (s.dropWhile fun c => c ≠ openBrace ∧ c ≠ openBracket).tail := by
  rw [EmptyText]
  cases s.dropWhile fun c => c ≠ openBrace ∧ c ≠ openBracket <;> simp

instance (s : List UInt8) : Decidable (EmptyText s) :=
  decidable_of_iff _ (emptyText_iff s).symm

/-- A `res` with an item keeps one. -/
theorem itemObject_ne_nullptr {fuel : ℕ} {res t : JsonItem} {s rest : List UInt8}
    (hres : res ≠ .nullptr) (h : itemObject doubles fuel res s = .ok t rest) : t ≠ .nullptr := by
  induction fuel generalizing res s with
  | zero =>
    rw [itemObject] at h
    cases h
  | succ fuel ih =>
    unfold itemObject at h
    split at h
    · cases h
    · split_ifs at h
      · exact (Scan.ok.inj h).1 ▸ hres
      · split at h
        · cases h
        · split_ifs at h
          · exact (Scan.ok.inj h).1 ▸ hres
          · obtain ⟨value, afterValue, -, hnext⟩ := andThen_eq_ok h
            exact ih (put_ne_nullptr _ _ _) hnext

theorem itemArray_ne_nullptr {fuel index : ℕ} {res t : JsonItem} {s rest : List UInt8}
    (hres : res ≠ .nullptr) (h : itemArray doubles fuel res index s = .ok t rest) :
    t ≠ .nullptr := by
  induction fuel generalizing res s index with
  | zero =>
    rw [itemArray] at h
    cases h
  | succ fuel ih =>
    unfold itemArray at h
    split at h
    · cases h
    · split_ifs at h
      · exact (Scan.ok.inj h).1 ▸ hres
      · obtain ⟨value, afterValue, -, hnext⟩ := andThen_eq_ok h
        exact ih (put_ne_nullptr _ _ _) hnext

theorem parseKey_closeBrace (s : List UInt8) :
    parseKey (closeBrace :: s) = some ([closeBrace], s) := by
  have hstop : ((closeBrace :: s).dropWhile fun c => c ≠ quote ∧ c ≠ closeBrace) =
      closeBrace :: s := List.dropWhile_cons_of_neg (by simp)
  rw [parseKey, hstop]
  exact if_pos rfl

/-- An object without an item has no field. -/
theorem itemObject_eq_nullptr_iff {fuel : ℕ} {t : JsonItem} {s rest : List UInt8}
    (h : itemObject doubles fuel .nullptr s = .ok t rest) :
    t = .nullptr ↔ (parseKey s).map (·.1) = some [closeBrace] := by
  cases fuel with
  | zero =>
    rw [itemObject] at h
    cases h
  | succ fuel =>
    unfold itemObject at h
    cases s with
    | nil => cases h
    | cons c s =>
      dsimp only at h
      split_ifs at h with hbrace
      · rw [hbrace, parseKey_closeBrace]
        exact iff_of_true (Scan.ok.inj h).1.symm rfl
      · cases hkey : parseKey (c :: s) with
        | none =>
          rw [hkey] at h
          cases h
        | some read =>
          rw [hkey] at h
          dsimp only at h
          split_ifs at h with hclose
          · exact iff_of_true (Scan.ok.inj h).1.symm (congrArg some hclose)
          · obtain ⟨value, afterValue, -, hnext⟩ := andThen_eq_ok h
            exact iff_of_false (itemObject_ne_nullptr (put_ne_nullptr _ _ _) hnext)
              fun heq => hclose (Option.some.inj heq)

/-- An array without an item has no element. -/
theorem itemArray_eq_nullptr_iff {fuel : ℕ} {t : JsonItem} {s rest : List UInt8}
    (h : itemArray doubles fuel .nullptr 0 s = .ok t rest) :
    t = .nullptr ↔ s.head? = some closeBracket := by
  cases fuel with
  | zero =>
    rw [itemArray] at h
    cases h
  | succ fuel =>
    unfold itemArray at h
    cases s with
    | nil => cases h
    | cons c s =>
      dsimp only at h
      split_ifs at h with hclose
      · exact iff_of_true (Scan.ok.inj h).1.symm (congrArg some hclose)
      · obtain ⟨value, afterValue, -, hnext⟩ := andThen_eq_ok h
        exact iff_of_false (itemArray_ne_nullptr (put_ne_nullptr _ _ _) hnext)
          fun heq => hclose (Option.some.inj heq)

/-- **A container without an item** is an empty one. -/
theorem itemContainer_eq_nullptr_iff {fuel : ℕ} {c : UInt8} {t : JsonItem} {s rest : List UInt8}
    (h : (if c = openBrace then itemObject doubles fuel .nullptr s
      else itemArray doubles fuel .nullptr 0 s) = .ok t rest) :
    t = .nullptr ↔ EmptyContainer c s := by
  rw [EmptyContainer]
  split_ifs at h ⊢
  · exact itemObject_eq_nullptr_iff h
  · exact itemArray_eq_nullptr_iff h

/-- An empty container is read. -/
theorem itemContainer_ne_invalid {fuel : ℕ} {c : UInt8} {s : List UInt8} (h : EmptyContainer c s) :
    (if c = openBrace then itemObject doubles fuel .nullptr s
      else itemArray doubles fuel .nullptr 0 s) ≠ .invalid := by
  rw [EmptyContainer] at h
  cases s with
  | nil => split_ifs at h <;> cases h
  | cons d s =>
    split_ifs at h ⊢
    · obtain ⟨⟨key, afterKey⟩, hkey, rfl⟩ := Option.map_eq_some_iff.mp h
      cases fuel with
      | zero =>
        rw [itemObject]
        exact nofun
      | succ fuel =>
        rw [itemObject, hkey]
        dsimp only
        rw [if_pos rfl]
        split_ifs <;> exact nofun
    · cases fuel with
      | zero =>
        rw [itemArray]
        exact nofun
      | succ fuel =>
        rw [itemArray, if_pos (Option.some.inj h)]
        exact nofun

/-- **The texts without an item.** -/
theorem parseItem_eq_nullptr_iff {fuel : ℕ} {t : JsonItem} {s : List UInt8} {ok : Bool}
    (h : parseItem doubles fuel s = some (t, ok)) : t = .nullptr ↔ EmptyText s := by
  cases s with
  | nil =>
    cases h
    exact iff_of_false nofun id
  | cons c s =>
    simp only [parseItem] at h
    rw [EmptyText]
    cases hopen : (c :: s).dropWhile fun c => c ≠ openBrace ∧ c ≠ openBracket with
    | nil =>
      rw [hopen] at h
      cases h
      exact iff_of_false nofun id
    | cons d rest =>
      rw [hopen] at h
      dsimp only at h ⊢
      cases hscan : if d = openBrace then itemObject doubles fuel .nullptr rest
          else itemArray doubles fuel .nullptr 0 rest with
      | running =>
        rw [hscan] at h
        cases h
      | invalid =>
        rw [hscan] at h
        cases h
        exact iff_of_false nofun fun hempty => itemContainer_ne_invalid hempty hscan
      | ok value afterValue =>
        rw [hscan] at h
        cases h
        exact itemContainer_eq_nullptr_iff hscan

theorem resyncItem_eq_ok {t t' : JsonItem} {s rest : List UInt8}
    (h : resyncItem t s = .ok t' rest) : t' = t := by
  rw [resyncItem] at h
  split at h
  · cases h
  · exact (Scan.ok.inj h).1.symm

/-- No word begins with a bracket. -/
theorem not_word_of_bracket {c : UInt8} (h : c = openBrace ∨ c = openBracket) (rest : List UInt8) :
    isTrue (c :: rest) = false ∧ isFalse (c :: rest) = false ∧ isNull (c :: rest) = false := by
  rcases h with rfl | rfl <;> exact ⟨rfl, rfl, rfl⟩

/-- **The values without an item.** -/
theorem itemValue_eq_nullptr_iff {fuel : ℕ} {t : JsonItem} {s rest : List UInt8}
    (h : itemValue doubles fuel s = .ok t rest) : t = .nullptr ↔ NoItem s := by
  cases fuel with
  | zero =>
    rw [itemValue] at h
    cases h
  | succ fuel =>
    rw [itemValue] at h
    rw [NoItem]
    cases hskip : skipToValue s with
    | nil =>
      rw [hskip] at h
      cases h
    | cons c tail =>
      rw [hskip] at h
      dsimp only at h ⊢
      by_cases hclosing : isClosing c = true
      · rw [if_pos hclosing] at h
        cases h
        exact iff_of_true rfl (.inl hclosing)
      -- a scalar is an item, and begins with no bracket
      have hscalar : ∀ {x : JsonItem} {after : List UInt8}, resyncItem x after = .ok t rest →
          x ≠ .nullptr → ¬ (c = openBrace ∨ c = openBracket) →
          (t = .nullptr ↔ isClosing c = true ∨
            ((c = openBrace ∨ c = openBracket) ∧ EmptyContainer c tail)) := by
        intro x after hresync hx hbracket
        rw [resyncItem_eq_ok hresync]
        exact iff_of_false hx fun hno => hbracket (hno.resolve_left hclosing).1
      rw [if_neg hclosing] at h
      split_ifs at h with hquote hnumber htrue hfalse hnull hbrace
      · have hbracket : ¬ (c = openBrace ∨ c = openBracket) := by
          rw [hquote]
          decide
        cases hstring : parseValueString false tail with
        | none =>
          rw [hstring] at h
          cases h
        | some read =>
          rw [hstring] at h
          exact hscalar h nofun hbracket
      · have hbracket : ¬ (c = openBrace ∨ c = openBracket) := by
          rintro (rfl | rfl) <;> exact absurd hnumber (by decide)
        cases hread : parseValueNumber doubles (c :: tail) with
        | none =>
          rw [hread] at h
          cases h
        | some read =>
          rw [hread] at h
          exact hscalar h (numberItem_spec hread).2 hbracket
      · exact hscalar h nofun fun hor => by simp [(not_word_of_bracket hor tail).1] at htrue
      · exact hscalar h nofun fun hor => by simp [(not_word_of_bracket hor tail).2.1] at hfalse
      · exact hscalar h nofun fun hor => by simp [(not_word_of_bracket hor tail).2.2] at hnull
      · obtain ⟨value, afterValue, hscan, hnext⟩ := andThen_eq_ok h
        have hempty := itemContainer_eq_nullptr_iff (c := c) ((if_pos hbrace).trans hscan)
        rw [resyncItem_eq_ok hnext, hempty, or_iff_right hclosing, and_iff_right (.inl hbrace)]
      · obtain ⟨value, afterValue, hscan, hnext⟩ := andThen_eq_ok h
        have hbracket : c = openBracket := by
          have hhead := (Scanner.skipToValue_head hskip).resolve_right hclosing
          simpa [startsValue, hquote, hnumber, htrue, hfalse, hnull, hbrace] using hhead
        have hempty := itemContainer_eq_nullptr_iff (c := c) ((if_neg hbrace).trans hscan)
        rw [resyncItem_eq_ok hnext, hempty, or_iff_right hclosing, and_iff_right (.inr hbracket)]

end JsonParse

end TradingEngine
