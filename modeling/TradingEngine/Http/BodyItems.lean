import TradingEngine.Http.FormData
import TradingEngine.Http.RequestAssembly
import TradingEngine.Json.ItemParse
import TradingEngine.Json.RoundTrip

/-!
# Http/BodyItems — the parameters of a body

`check_missing_body_params` asks the JSON of a body for its fields.  The constructor leaves a `Json`
without an item if the body's first bracket opens an empty container and nothing in the body is a
form field or a raw parameter; `readApi_iff` says what may be read of a parsed `Json` at all.
-/

namespace TradingEngine

open Ascii JsonParse

namespace HttpRequest

/-! ## The items of a body -/

/-- `m_body_json[key] = value`. -/
def setBodyItem (t : JsonItem) (field : List UInt8 × List UInt8) : JsonItem :=
  t.put (fun _ => .value (.string field.2)) (.key (keyOf field.1))

/-- The fields that the loop of `deserialize_body_form_data` sets. -/
def formFields (body frameFormat : List UInt8) :
    ℕ → Option ℕ → Call (List (List UInt8 × List UInt8))
  | 0, _ => .running
  | fuel + 1, start =>
    match start.bind fun start => findFrom keyFormat start body with
    | none => .ok []
    | some found =>
      let keyStart := found + keyFormat.length + 1
      let keyEnd := findFrom [quote] keyStart body
      let valueStart :=
        ((keyEnd.bind fun keyEnd => findFrom headEnd keyEnd body).map (· + 4)).getD 3
      (substr keyStart keyEnd body).andThen fun key =>
        (substr valueStart (findFrom crlf valueStart body) body).andThen fun value =>
          (formFields body frameFormat fuel
            (start.bind fun start => findFrom frameFormat (start + frameFormat.length) body)).andThen
              fun fields => .ok ((key, value) :: fields)

/-- The fields of `deserialize_body_form_data`. -/
def bodyFormFields (fuel : ℕ) (body : List UInt8) : Call (List (List UInt8 × List UInt8)) :=
  match find keyFormat body with
  | none => .ok []
  | some found => formFields body (body.take found) fuel (some 0)

/-- `is_null`. -/
def isNullItem : JsonItem → Bool
  | .nullptr => true
  | .value .null => true
  | _ => false

/-- A raw parameter: a piece with an equals sign. -/
def rawField (param : List UInt8) : Option (List UInt8 × List UInt8) :=
  match splitString [equalsSign] param with
  | key :: value :: _ => some (key, value)
  | _ => none

/-- `deserialize_body_raw_data`. -/
def bodyRawItem (body : List UInt8) (t : JsonItem) : JsonItem :=
  if isNullItem t then ((splitString [ampersand] body).filterMap rawField).foldl setBodyItem t
  else t

/-- The JSON of a body, with the items. -/
def bodyItem (doubles : DoubleText) (fuel : ℕ) (body : List UInt8) : Call JsonItem :=
  match parseItem doubles fuel body with
  | none => .running
  | some (t, _) =>
    (bodyFormFields fuel body).andThen fun fields =>
      .ok (bodyRawItem body (fields.foldl setBodyItem t))

/-- `PARAM_NO_MISSING`. -/
def paramNoMissing : List UInt8 := text "PARAM_NO_MISSING"

/-- `check_missing_body_params`; nothing if a call goes through null. -/
def checkMissingBodyParams (bodyJson : JsonItem) : List (List UInt8) → Option (List UInt8)
  | [] => some paramNoMissing
  | field :: fields =>
    match bodyJson.hasField field with
    | none => none
    | some false => some (text "Missing body param: [" ++ field ++ text "]")
    | some true => checkMissingBodyParams bodyJson fields

variable {doubles : DoubleText} {body frame : List UInt8} {fuel : ℕ} {t : JsonItem}
  {fields : List (List UInt8 × List UInt8)}

/-! ## The trees of a body -/

theorem andThen_assoc {α β γ : Type} (call : Call α) (f : α → Call β) (g : β → Call γ) :
    (call.andThen f).andThen g = call.andThen fun x => (f x).andThen g := by
  cases call <;> rfl

/-- **The loop sets its fields** one after the other. -/
theorem formDataLoop_eq (start : Option ℕ) (json : Json) :
    formDataLoop body frame fuel start json = (formFields body frame fuel start).andThen fun fields =>
      .ok (fields.foldl (fun json f => setBodyField json f.1 f.2) json) := by
  induction fuel generalizing start json with
  | zero => rfl
  | succ fuel ih =>
    rw [formDataLoop, formFields]
    cases start.bind fun start => findFrom keyFormat start body with
    | none => rfl
    | some found =>
      simp only [andThen_assoc, ih]
      rfl

theorem deserializeBodyFormData_eq (json : Json) :
    deserializeBodyFormData fuel body json = (bodyFormFields fuel body).andThen fun fields =>
      .ok (fields.foldl (fun json f => setBodyField json f.1 f.2) json) := by
  rw [deserializeBodyFormData, bodyFormFields]
  cases find keyFormat body with
  | none => rfl
  | some found => exact formDataLoop_eq (some 0) json

/-- An array of this kind has no field. -/
def OneKind : JsonItem → Prop
  | .object true fields _ => fields = []
  | _ => True

theorem erase_setBodyItem (h : OneKind t) (field : List UInt8 × List UInt8) :
    (setBodyItem t field).erase = setBodyField t.erase field.1 field.2 := by
  have hput : ∀ (fields : List (List UInt8 × JsonItem)) (elements : List JsonItem),
      (JsonItem.object false (Fields.put fields (keyOf field.1) .nullptr fun _ =>
        .value (.string field.2)) elements).erase =
        .object (setField (JsonItem.eraseFields fields) field.1 (.string field.2)) := by
    intro fields elements
    rw [JsonItem.erase, eraseFields_put]
    rfl
  cases t with
  | nullptr => exact hput [] []
  | value x =>
    refine (hput [] []).trans ?_
    cases x <;> rfl
  | object isArray fields elements =>
    cases isArray with
    | false =>
      refine (hput fields elements).trans ?_
      rw [JsonItem.erase]
      rfl
    | true =>
      cases h
      refine (hput [] elements).trans ?_
      rw [JsonItem.erase]
      rfl

theorem erase_foldl_setBodyItem (h : OneKind t) :
    (fields.foldl setBodyItem t).erase =
      fields.foldl (fun json f => setBodyField json f.1 f.2) t.erase ∧
    OneKind (fields.foldl setBodyItem t) := by
  induction fields generalizing t with
  | nil => exact ⟨rfl, h⟩
  | cons field fields ih =>
    rw [List.foldl_cons, List.foldl_cons, ← erase_setBodyItem h]
    exact ih trivial

/-- The items of a parsed text are of one kind. -/
theorem itemObject_shape {fields : List (List UInt8 × JsonItem)} {s rest : List UInt8}
    (h : itemObject doubles fuel (objectItem fields) s = .ok t rest) :
    ∃ fields', t = objectItem fields' := by
  induction fuel generalizing fields s with
  | zero =>
    rw [itemObject] at h
    cases h
  | succ fuel ih =>
    unfold itemObject at h
    split at h
    · cases h
    · split_ifs at h
      · exact ⟨fields, (Scan.ok.inj h).1.symm⟩
      · split at h
        · cases h
        · split_ifs at h
          · exact ⟨fields, (Scan.ok.inj h).1.symm⟩
          · obtain ⟨value, afterValue, -, hnext⟩ := andThen_eq_ok h
            rw [objectItem_put] at hnext
            exact ih hnext

theorem itemArray_shape {elements : List JsonItem} {s rest : List UInt8}
    (h : itemArray doubles fuel (arrayItem elements) elements.length s = .ok t rest) :
    ∃ elements', t = arrayItem elements' := by
  induction fuel generalizing elements s with
  | zero =>
    rw [itemArray] at h
    cases h
  | succ fuel ih =>
    unfold itemArray at h
    split at h
    · cases h
    · split_ifs at h
      · exact ⟨elements, (Scan.ok.inj h).1.symm⟩
      · obtain ⟨value, afterValue, -, hnext⟩ := andThen_eq_ok h
        have hlength : elements.length + 1 = (elements ++ [value]).length := by
          rw [List.length_append, List.length_singleton]
        rw [arrayItem_put, hlength] at hnext
        exact ih hnext

theorem oneKind_parseItem {ok : Bool} (h : parseItem doubles fuel body = some (t, ok)) :
    OneKind t := by
  have hobject : ∀ fields, OneKind (objectItem fields) := fun fields => by
    cases fields <;> exact trivial
  have harray : ∀ elements, OneKind (arrayItem elements) := fun elements => by
    cases elements
    · exact trivial
    · exact (rfl : ([] : List (List UInt8 × JsonItem)) = [])
  cases body with
  | nil =>
    cases h
    exact trivial
  | cons c s =>
    simp only [parseItem] at h
    cases hopen : (c :: s).dropWhile fun c => c ≠ openBrace ∧ c ≠ openBracket with
    | nil =>
      rw [hopen] at h
      cases h
      exact trivial
    | cons d rest =>
      rw [hopen] at h
      dsimp only at h
      cases hscan : if d = openBrace then itemObject doubles fuel .nullptr rest
          else itemArray doubles fuel .nullptr 0 rest with
      | running =>
        rw [hscan] at h
        cases h
      | invalid =>
        rw [hscan] at h
        cases h
        exact trivial
      | ok value afterValue =>
        rw [hscan] at h
        cases h
        split_ifs at hscan
        · obtain ⟨fields, rfl⟩ := @itemObject_shape _ _ _ [] _ _ hscan
          exact hobject fields
        · obtain ⟨elements, rfl⟩ := @itemArray_shape _ _ _ [] _ _ hscan
          exact harray elements

theorem isNullItem_iff : isNullItem t = true ↔ t.erase = .null := by
  cases t with
  | nullptr => exact iff_of_true rfl rfl
  | value x => cases x <;> simp [isNullItem, JsonItem.erase, JsonScalar.tree]
  | object isArray fields elements =>
    refine iff_of_false Bool.false_ne_true fun hnull => ?_
    cases isArray with
    | true =>
      rw [JsonItem.erase] at hnull
      cases hnull
    | false =>
      rw [JsonItem.erase] at hnull
      cases hnull

theorem erase_bodyRawItem (h : OneKind t) :
    (bodyRawItem body t).erase = deserializeBodyRawData body t.erase := by
  rw [bodyRawItem]
  split_ifs with hnull
  · rw [(erase_foldl_setBodyItem h).1, isNullItem_iff.mp hnull, deserializeBodyRawData,
      List.foldl_filterMap]
    refine congrArg (fun f => List.foldl f Json.null _) (funext fun json => funext fun param => ?_)
    rw [rawField]
    rcases splitString [equalsSign] param with _ | ⟨key, _ | ⟨value, rest⟩⟩ <;> rfl
  · cases herase : t.erase with
    | null => exact absurd (isNullItem_iff.mpr herase) hnull
    | _ => rfl

/-- **The JSON of a body** is the tree of its item. -/
theorem parseBody_eq_erase (doubles : DoubleText) (fuel : ℕ) (body : List UInt8) :
    parseBody doubles fuel body = (bodyItem doubles fuel body).andThen fun t => .ok t.erase := by
  rw [parseBody, bodyItem, parse_eq_erase]
  cases hitem : parseItem doubles fuel body with
  | none => rfl
  | some read =>
    have hkind := oneKind_parseItem hitem
    dsimp only [Option.map_some, Prod.map]
    rw [deserializeBodyFormData_eq, andThen_assoc, andThen_assoc]
    refine congrArg (Call.andThen _) (funext fun fields => congrArg Call.ok ?_)
    obtain ⟨htree, hkind⟩ := @erase_foldl_setBodyItem read.1 fields hkind
    rw [erase_bodyRawItem hkind, htree]

/-! ## Bodies without an item -/

/-- What is set is an item. -/
theorem foldl_setBodyItem_eq_nullptr_iff :
    fields.foldl setBodyItem t = .nullptr ↔ t = .nullptr ∧ fields = [] := by
  have hkeep : ∀ (fields : List (List UInt8 × List UInt8)) (t : JsonItem), t ≠ .nullptr →
      fields.foldl setBodyItem t ≠ .nullptr := by
    intro fields
    induction fields with
    | nil => exact fun t ht => ht
    | cons field fields ih => exact fun t _ => ih _ (JsonItem.put_ne_nullptr _ _ _)
  cases fields with
  | nil => exact (and_iff_left rfl).symm
  | cons field fields =>
    have hkept := hkeep fields (setBodyItem t field) (JsonItem.put_ne_nullptr _ _ _)
    exact iff_of_false hkept fun h => List.cons_ne_nil _ _ h.2

/-- A form field stands behind the key format, and so behind an equals sign. -/
theorem equalsSign_mem_of_bodyFormFields (h : bodyFormFields fuel body = .ok fields)
    (hne : fields ≠ []) : equalsSign ∈ body := by
  rw [bodyFormFields] at h
  cases hfind : find keyFormat body with
  | none =>
    rw [hfind] at h
    exact absurd (Call.ok.inj h).symm hne
  | some found =>
    obtain ⟨a, b, -, -, rfl⟩ := find_eq_some keyFormat_ne_nil hfind
    have hmem : equalsSign ∈ keyFormat := by decide
    exact List.mem_append_left _ (List.mem_append_right _ hmem)

/-- A character that is no delimiter is in one of the pieces. -/
theorem exists_mem_splitString {c d : UInt8} (hne : c ≠ d) {s : List UInt8} (hc : c ∈ s) :
    ∃ piece ∈ splitString [d] s, c ∈ piece := by
  induction hn : s.length using Nat.strong_induction_on generalizing s with
  | _ n ih =>
    cases hcut : cut [d] s with
    | none =>
      rw [splitString_none hcut]
      exact ⟨s, List.mem_singleton_self s, hc⟩
    | some found =>
      obtain ⟨piece, rest⟩ := found
      have hsplit := eq_of_cut hcut
      rw [splitString_some (List.cons_ne_nil _ _) hcut]
      rw [hsplit, List.mem_append, List.mem_append, List.mem_singleton] at hc
      rcases hc with (hpiece | hdelimiter) | hrest
      · exact ⟨piece, List.mem_cons_self, hpiece⟩
      · exact absurd hdelimiter hne
      · have hshort : rest.length < n := by
          rw [← hn, hsplit, List.length_append, List.length_append, List.length_singleton]
          omega
        obtain ⟨other, hother, hmem⟩ := ih rest.length hshort hrest rfl
        exact ⟨other, List.mem_cons_of_mem _ hother, hmem⟩

theorem isSome_rawField_iff (param : List UInt8) :
    (rawField param).isSome ↔ equalsSign ∈ param := by
  by_cases hmem : equalsSign ∈ param
  · obtain ⟨front, back, hcut⟩ := exists_cut_of_mem hmem
    obtain ⟨value, values, hvalues⟩ :=
      List.exists_cons_of_ne_nil (splitString_ne_nil [equalsSign] back)
    rw [rawField, splitString_some (List.cons_ne_nil _ _) hcut, hvalues]
    exact iff_of_true rfl hmem
  · rw [rawField, splitString_none (cut_eq_none_of_notMem hmem [])]
    exact iff_of_false Bool.false_ne_true hmem

/-- **Raw parameters** are in a body with an equals sign. -/
theorem filterMap_rawField_eq_nil_iff :
    (splitString [ampersand] body).filterMap rawField = [] ↔ equalsSign ∉ body := by
  have hne : equalsSign ≠ ampersand := by decide
  rw [List.filterMap_eq_nil_iff]
  constructor
  · intro hnone hmem
    obtain ⟨piece, hpiece, hthere⟩ := exists_mem_splitString hne hmem
    have hsome := (isSome_rawField_iff piece).mpr hthere
    rw [hnone piece hpiece] at hsome
    exact Bool.false_ne_true hsome
  · intro hbody piece hpiece
    refine Option.not_isSome_iff_eq_none.mp fun hsome => hbody ?_
    exact (infix_of_mem_splitString hpiece).subset ((isSome_rawField_iff piece).mp hsome)

/-- **The bodies without an item**: an empty container, and no equals sign. -/
theorem bodyItem_eq_nullptr_iff (h : bodyItem doubles fuel body = .ok t) :
    t = .nullptr ↔ EmptyText body ∧ equalsSign ∉ body := by
  rw [bodyItem] at h
  cases hparse : parseItem doubles fuel body with
  | none =>
    rw [hparse] at h
    cases h
  | some read =>
    obtain ⟨parsed, ok⟩ := read
    rw [hparse] at h
    cases hfields : bodyFormFields fuel body with
    | running =>
      rw [hfields] at h
      cases h
    | throws =>
      rw [hfields] at h
      cases h
    | ok fields =>
      rw [hfields] at h
      cases h
      rw [bodyRawItem]
      split_ifs with hnull
      · rw [foldl_setBodyItem_eq_nullptr_iff, foldl_setBodyItem_eq_nullptr_iff,
          filterMap_rawField_eq_nil_iff, parseItem_eq_nullptr_iff hparse]
        refine ⟨fun hall => ⟨hall.1.1, hall.2⟩, fun hall => ⟨⟨hall.1, ?_⟩, hall.2⟩⟩
        by_contra hne
        exact hall.2 (equalsSign_mem_of_bodyFormFields hfields hne)
      · have hitem : fields.foldl setBodyItem parsed ≠ .nullptr := by
          intro heq
          rw [heq] at hnull
          exact hnull rfl
        refine iff_of_false hitem fun hall => hitem (foldl_setBodyItem_eq_nullptr_iff.mpr ⟨?_, ?_⟩)
        · exact (parseItem_eq_nullptr_iff hparse).mpr hall.1
        · by_contra hne
          exact hall.2 (equalsSign_mem_of_bodyFormFields hfields hne)

/-! ## What may be read -/

/-- **The parameters may be asked for** if there are none to ask for, or if the body has an item. -/
theorem isSome_checkMissingBodyParams_iff (names : List (List UInt8)) :
    (checkMissingBodyParams t names).isSome ↔ names = [] ∨ t ≠ .nullptr := by
  induction names with
  | nil => exact iff_of_true rfl (.inl rfl)
  | cons name names ih =>
    rw [checkMissingBodyParams]
    cases t with
    | nullptr => exact iff_of_false Bool.false_ne_true (by simp)
    | value x => exact iff_of_true rfl (.inr JsonItem.noConfusion)
    | object isArray fields elements =>
      have hne : JsonItem.object isArray fields elements ≠ .nullptr := JsonItem.noConfusion
      rw [JsonItem.hasField]
      cases (if isArray then false else (fields.lookup name).isSome) with
      | false => exact iff_of_true rfl (.inr hne)
      | true => exact iff_of_true (ih.mpr (.inr hne)) (.inr hne)

/-- **When the readers return.**  A parsed text has no item just if its first container is empty.  A
reader called on a place behind some chains of `operator[]` returns if and only if a chain has gone
on from the place, or the parsed text allows the call there.  And a body is asked for parameters
safely if and only if there are none to ask for, its first container has a part, or an equals sign
stands in it. -/
theorem readApi_iff (doubles : DoubleText) :
    (∀ fuel s t ok, parseItem doubles fuel s = some (t, ok) →
      (t = .nullptr ↔ EmptyText s) ∧
      ∀ chains path read, (((JsonItem.run t chains).reached path).call read).isSome ↔
        (∃ chain ∈ chains, JsonItem.GoesOn path chain) ∨ (t.reached path).Allows read) ∧
    ∀ fuel body t, bodyItem doubles fuel body = .ok t → ∀ names,
      (checkMissingBodyParams t names).isSome ↔
        names = [] ∨ ¬ EmptyText body ∨ equalsSign ∈ body := by
  refine ⟨fun fuel s t ok hparse => ⟨parseItem_eq_nullptr_iff hparse, fun chains path read =>
    t.isSome_call_run_iff chains path read⟩, fun fuel body t hbody names => ?_⟩
  rw [isSome_checkMissingBodyParams_iff, Ne, bodyItem_eq_nullptr_iff hbody, not_and_or, not_not]

/-- A text that is an empty object has no item; behind `j["a"]` its `size` is known.  A raw parameter
makes an item. -/
theorem readApi_iff_emptyObject :
    (((JsonItem.nullptr.run [[.key (text "a")]]).reached []).call .size).isSome ∧
    ∃ t, bodyItem noDoubles 0 (text "a=1") = .ok t ∧
      (checkMissingBodyParams t [text "a"]).isSome := by
  have hempty : parseItem noDoubles 1 (text "\x7b\x7d") = some (.nullptr, true) := rfl
  refine ⟨(((readApi_iff _).1 _ _ _ _ hempty).2 _ _ _).mpr
    (.inl ⟨_, List.mem_singleton_self _, List.nil_prefix, nofun⟩), _, rfl, ?_⟩
  exact ((readApi_iff noDoubles).2 0 (text "a=1") _ rfl _).mpr
    (.inr (.inr (by decide)))

/-- The body that is an empty object: `size` goes through null, and so does the check of a body that
must have a parameter. -/
theorem emptyObject_throughNull :
    ∃ t, parseItem noDoubles 1 (text "\x7b\x7d") = some (t, true) ∧
      t.call .size = none ∧
      bodyItem noDoubles 1 (text "\x7b\x7d") = .ok t ∧
      checkMissingBodyParams t [text "id"] = none :=
  ⟨.nullptr, rfl, rfl, rfl, rfl⟩

end HttpRequest

end TradingEngine
