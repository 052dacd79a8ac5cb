import Mathlib.Data.List.TakeWhile
import TradingEngine.Json.Termination
import TradingEngine.Machinery.Fields

/-!
# Json/ParseResult — the one result of a text

More fuel changes no result (`parse_of_le`), so a text has one at most.  If it is an object, its
fields have been set one after the other, each under a key that is cut at its first NUL.
-/

namespace TradingEngine

open Ascii

namespace JsonParse

variable {doubles : DoubleText}

/-! ## More fuel -/

/-- The scan is the other one unless that is still running. -/
def Below {α : Type} (scan scan' : Scan α) : Prop := scan ≠ .running → scan' = scan

theorem below_andThen {α β : Type} {scan scan' : Scan α} {f f' : α → List UInt8 → Scan β}
    (h : Below scan scan') (hf : ∀ value rest, Below (f value rest) (f' value rest)) :
    Below (scan.andThen f) (scan'.andThen f') := by
  intro hrunning
  cases scan with
  | running => exact absurd rfl hrunning
  | invalid => rw [h nofun]; rfl
  | ok value rest =>
    rw [h nofun]
    exact hf value rest hrunning

/-- A scan that goes on has come to a value. -/
theorem andThen_eq_ok {α β : Type} {scan : Scan α} {f : α → List UInt8 → Scan β} {value : β}
    {rest : List UInt8} (h : scan.andThen f = .ok value rest) :
    ∃ first afterFirst, scan = .ok first afterFirst ∧ f first afterFirst = .ok value rest := by
  cases scan with
  | running => cases h
  | invalid => cases h
  | ok first afterFirst => exact ⟨first, afterFirst, rfl, h⟩

theorem Below.refl {α : Type} (scan : Scan α) : Below scan scan := fun _ => rfl

/-- **More fuel changes no result.** -/
theorem scan_below (fuel : ℕ) :
    (∀ fields s, Below (parseObject doubles fuel fields s)
      (parseObject doubles (fuel + 1) fields s)) ∧
    (∀ elements s, Below (parseArray doubles fuel elements s)
      (parseArray doubles (fuel + 1) elements s)) ∧
    ∀ s, Below (parseValue doubles fuel s) (parseValue doubles (fuel + 1) s) := by
  induction fuel with
  | zero =>
    refine ⟨fun fields s h => absurd ?_ h, fun elements s h => absurd ?_ h, fun s h => absurd ?_ h⟩
    · rw [parseObject]
    · rw [parseArray]
    · rw [parseValue]
  | succ fuel ih =>
    obtain ⟨hobject, harray, hvalue⟩ := ih
    refine ⟨fun fields s => ?_, fun elements s => ?_, fun s => ?_⟩
    · unfold parseObject
      split
      · exact .refl _
      · next c rest =>
        split_ifs
        · exact .refl _
        · split
          · exact .refl _
          · next key afterKey hkey =>
            split_ifs
            · exact .refl _
            · exact below_andThen (hvalue afterKey) fun value rest => hobject _ _
    · unfold parseArray
      split
      · exact .refl _
      · split_ifs
        · exact .refl _
        · exact below_andThen (hvalue _) fun value rest => harray _ _
    · unfold parseValue
      split
      · exact .refl _
      · next c rest hskip =>
        split_ifs
        · exact .refl _
        · exact .refl _
        · exact .refl _
        · exact .refl _
        · exact .refl _
        · exact .refl _
        · exact below_andThen (hobject [] rest) fun value rest => .refl _
        · exact below_andThen (harray [] rest) fun value rest => .refl _

/-- **A result stays what it is** with more fuel. -/
theorem parse_of_le {fuel fuel' : ℕ} {s : List UInt8} {r : Json × Bool}
    (h : parse doubles fuel s = some r) (hle : fuel ≤ fuel') : parse doubles fuel' s = some r := by
  induction fuel', hle using Nat.le_induction with
  | base => exact h
  | succ n hle ih =>
    cases s with
    | nil => exact ih
    | cons c s =>
      have hbelow : ∀ {scan scan' : Scan Json}, Below scan scan' → resultOf scan = some r →
          resultOf scan' = some r := by
        intro scan scan' hscan hresult
        rw [hscan (by rintro rfl; cases hresult)]
        exact hresult
      simp only [parse] at ih ⊢
      cases hopen : (c :: s).dropWhile fun c => c ≠ openBrace ∧ c ≠ openBracket with
      | nil =>
        rw [hopen] at ih
        exact ih
      | cons d rest =>
        rw [hopen] at ih
        dsimp only at ih ⊢
        split_ifs at ih ⊢
        · exact hbelow ((scan_below n).1 [] rest) ih
        · exact hbelow ((scan_below n).2.1 [] rest) ih

/-- **A text has one result.** -/
theorem parse_unique {fuel fuel' : ℕ} {s : List UInt8} {r r' : Json × Bool}
    (h : parse doubles fuel s = some r) (h' : parse doubles fuel' s = some r') : r = r' := by
  have hleft := parse_of_le h (Nat.le_max_left fuel fuel')
  rw [parse_of_le h' (Nat.le_max_right fuel fuel')] at hleft
  exact (Option.some.inj hleft).symm

/-! ## Fields that are set -/

/-- A key is cut at its first NUL. -/
def keyOf (key : List UInt8) : List UInt8 := key.takeWhile fun c => c ≠ 0

theorem zero_notMem_keyOf (key : List UInt8) : 0 ∉ keyOf key := by
  intro hmem
  have hzero := List.mem_takeWhile_imp hmem
  exact of_decide_eq_true hzero rfl

theorem keyOf_eq_self {key : List UInt8} (h : 0 ∉ key) : keyOf key = key :=
  List.takeWhile_eq_self_iff.mpr fun _ hc => decide_eq_true fun heq => h (heq ▸ hc)

section Fields

variable {fields : List (List UInt8 × Json)} {key k : List UInt8} {value : Json}

theorem setField_eq (fields : List (List UInt8 × Json)) (key : List UInt8) (value : Json) :
    setField fields key value = Fields.put fields (keyOf key) .null fun _ => value := rfl

theorem keys_setField :
    k ∈ (setField fields key value).map (·.1) ↔ k ∈ fields.map (·.1) ∨ k = keyOf key := by
  rw [setField_eq]
  exact Fields.keys_put

/-- **A field that is set** has the new value, and the others keep theirs. -/
theorem lookup_setField (fields : List (List UInt8 × Json)) (key k : List UInt8) (value : Json) :
    (setField fields key value).lookup k = if k = keyOf key then some value else fields.lookup k := by
  rw [setField_eq]
  split_ifs with hk
  · rw [hk]
    exact Fields.lookup_put_self
  · exact Fields.lookup_put_of_ne hk

end Fields

/-! ## The keys of a result -/

theorem eq_of_objectOf {fields fields' : List (List UInt8 × Json)}
    (h : objectOf fields = .object fields') : fields = fields' := by
  rw [objectOf] at h
  split_ifs at h
  exact Json.object.inj h

theorem arrayOf_ne_object (elements : List Json) (fields : List (List UInt8 × Json)) :
    arrayOf elements ≠ .object fields := by
  rw [arrayOf]
  split_ifs <;> exact nofun

/-- The keys of an object hold no NUL. -/
theorem parseObject_keys {fuel : ℕ} {fields fields' : List (List UInt8 × Json)}
    {s rest : List UInt8} (hkeys : ∀ k ∈ fields.map (·.1), 0 ∉ k)
    (h : parseObject doubles fuel fields s = .ok (.object fields') rest) :
    ∀ k ∈ fields'.map (·.1), 0 ∉ k := by
  induction fuel generalizing fields s with
  | zero =>
    rw [parseObject] at h
    cases h
  | succ fuel ih =>
    unfold parseObject at h
    split at h
    · cases h
    · split_ifs at h
      · exact eq_of_objectOf (Scan.ok.inj h).1 ▸ hkeys
      · split at h
        · cases h
        · next key afterKey hkey =>
          split_ifs at h
          · exact eq_of_objectOf (Scan.ok.inj h).1 ▸ hkeys
          · obtain ⟨value, afterValue, -, hnext⟩ := andThen_eq_ok h
            exact ih (fun k hk => (keys_setField.mp hk).elim (hkeys k) fun heq =>
              heq ▸ zero_notMem_keyOf key) hnext

theorem parseArray_ne_object {fuel : ℕ} {elements : List Json} {s rest : List UInt8}
    {fields : List (List UInt8 × Json)} :
    parseArray doubles fuel elements s ≠ .ok (.object fields) rest := by
  induction fuel generalizing elements s with
  | zero => simp [parseArray]
  | succ fuel ih =>
    intro h
    unfold parseArray at h
    split at h
    · cases h
    · split_ifs at h
      · exact arrayOf_ne_object _ _ (Scan.ok.inj h).1
      · obtain ⟨value, afterValue, -, hnext⟩ := andThen_eq_ok h
        exact ih hnext

/-- **The keys of a result hold no NUL.** -/
theorem parse_keys {fuel : ℕ} {s : List UInt8} {fields : List (List UInt8 × Json)} {ok : Bool}
    (h : parse doubles fuel s = some (.object fields, ok)) : ∀ k ∈ fields.map (·.1), 0 ∉ k := by
  have hscan : ∀ {scan : Scan Json}, resultOf scan = some (.object fields, ok) →
      ∃ rest, scan = .ok (.object fields) rest := by
    intro scan hresult
    cases scan with
    | running => cases hresult
    | invalid => cases hresult
    | ok value rest =>
      cases hresult
      exact ⟨rest, rfl⟩
  cases s with
  | nil => cases h
  | cons c s =>
    simp only [parse] at h
    cases hopen : (c :: s).dropWhile fun c => c ≠ openBrace ∧ c ≠ openBracket with
    | nil =>
      rw [hopen] at h
      cases h
    | cons d tail =>
      rw [hopen] at h
      dsimp only at h
      obtain ⟨rest, hrest⟩ := hscan h
      split_ifs at hrest
      · exact parseObject_keys (List.forall_mem_nil _) hrest
      · exact absurd hrest parseArray_ne_object

end JsonParse

end TradingEngine
