import TradingEngine.Json.Json
import TradingEngine.Json.Sharing

/-!
# Json/Quoting — when a string is written between quotes

`write_string_value` quotes a string if the `JsonValue` that holds it says so.  Nothing turns the
quoting on again: a value that comes back to its pool unquoted is given out unquoted.  As long as
none does, what is built on a side where the quoting is never turned off is written as its tree says
(`quoted_runs`).
-/

namespace TradingEngine

open Ascii

variable {n m : ℕ}

/-- The text of a scalar; a string is written as it is or between quotes. -/
def JsonScalar.write (doubles : DoubleText) (quoted : Bool) : JsonScalar → List UInt8
  | .null => text "null"
  | .bool value => if value then text "true" else text "false"
  | .int value => Json.intToChars value
  | .double value => doubles.toChars value
  | .string value => if quoted then quote :: value ++ [quote] else value

/-- The parts of a container, separated and between its brackets. -/
def bracketed (left right : UInt8) (parts : List (List UInt8)) : List UInt8 :=
  left :: [comma].intercalate parts ++ [right]

/-- A field, with the text of its value. -/
def fieldText (key value : List UInt8) : List UInt8 := quote :: key ++ quote :: colon :: value

namespace JsonTree

variable (doubles : DoubleText)

mutual

/-- The text of a tree: every string between quotes. -/
def write : JsonTree → List UInt8
  | .null => text "null"
  | .scalar x => x.write doubles true
  | .container true _ array => bracketed openBracket closeBracket (writeElements array)
  | .container false object _ => bracketed openBrace closeBrace (writeFields object)
  | .deeper => []

/-- The texts of the elements. -/
def writeElements : List JsonTree → List (List UInt8)
  | [] => []
  | t :: ts => write t :: writeElements ts

/-- The texts of the fields. -/
def writeFields : List (List UInt8 × JsonTree) → List (List UInt8)
  | [] => []
  | (key, t) :: fs => fieldText key (write t) :: writeFields fs

end

theorem writeElements_map {α : Type*} (f : α → JsonTree) (l : List α) :
    writeElements doubles (l.map f) = l.map fun a => write doubles (f a) := by
  induction l with
  | nil => rfl
  | cons a l ih => exact congrArg (write doubles (f a) :: ·) ih

theorem writeFields_map {α : Type*} (key : α → List UInt8) (f : α → JsonTree) (l : List α) :
    writeFields doubles (l.map fun a => (key a, f a)) =
      l.map fun a => fieldText (key a) (write doubles (f a)) := by
  induction l with
  | nil => rfl
  | cons a l ih => exact congrArg (fieldText (key a) (write doubles (f a)) :: ·) ih

end JsonTree

namespace JsonStore

/-- `write_string_value`, down to a depth. -/
def writeStringValue (doubles : DoubleText) : ℕ → JsonStore n m → JsonPointer n m → List UInt8
  | _, _, .null => text "null"
  | _, s, .value v => (s.values v).scalar.write doubles (s.values v).isStringFormat
  | 0, _, .object _ => []
  | depth + 1, s, .object o =>
    if (s.objects o).isArray then
      bracketed openBracket closeBracket
        ((s.objects o).array.map (writeStringValue doubles depth s))
    else
      bracketed openBrace closeBrace
        ((s.objects o).object.map fun f => fieldText f.1 (writeStringValue doubles depth s f.2))

variable {s s' s₁ : JsonStore n m} {side : ℕ → Bool} {x : Bool} {op : JsonOperation n}
  {p : JsonPointer n m} {doubles : DoubleText} {colour : JsonPointer n m → Bool}

/-- **Where every value is quoted, a text is that of the tree.** -/
theorem writeStringValue_eq {K : JsonPointer n m → Prop}
    (hclosed : ∀ o, K (.object o) → ∀ p ∈ (s.objects o).pointers, K p)
    (hquoted : ∀ v, K (.value v) → (s.values v).isStringFormat = true) (depth : ℕ) :
    ∀ {p}, K p → s.writeStringValue doubles depth p = (tree depth s p).write doubles := by
  induction depth with
  | zero =>
    intro p hp
    cases p with
    | null => rfl
    | value v => rw [writeStringValue, hquoted v hp, tree_value, JsonTree.write]
    | object o => rfl
  | succ depth ih =>
    intro p hp
    cases p with
    | null => rfl
    | value v => rw [writeStringValue, hquoted v hp, tree_value, JsonTree.write]
    | object o =>
      rw [writeStringValue, tree]
      cases (s.objects o).isArray with
      | true =>
        rw [JsonTree.write, JsonTree.writeElements_map, if_pos rfl]
        refine congrArg (bracketed _ _) (List.map_congr_left fun q hq => ?_)
        exact ih (hclosed o hp q (mem_pointers_of_array hq))
      | false =>
        rw [JsonTree.write, JsonTree.writeFields_map, if_neg Bool.false_ne_true]
        refine congrArg (bracketed _ _) (List.map_congr_left fun f hf => ?_)
        rw [ih (hclosed o hp f.2 (mem_pointers_of_object hf))]

/-! ## The quoted side -/

/-- An operation on one of two sides; on the side of `true` no quoting is turned off, and nothing is
copied from the other. -/
structure QuotedOn (s : JsonStore n m) (side : ℕ → Bool) (x : Bool) (op : JsonOperation n) :
    Prop where
  fits : s.Fits op
  oneSided : s.OneSided side x op
  copied : x = true → ∀ place ∈ op.copied, s.On side x place
  cloned : x = true → ∀ place ∈ op.cloned, s.On side x place
  quoting : x = true → ¬ op.Unquotes

/-- The values of the side of `true` are quoted. -/
def SideQuoted (s : JsonStore n m) (colour : JsonPointer n m → Bool) : Prop :=
  s.unquotedReleases = 0 → ∀ v, s.InUse (.value v) → colour (.value v) = true →
    (s.values v).isStringFormat = true

/-- **A step keeps the quoted side quoted**, whichever side it is on. -/
theorem Sided.quoted_step (h : Sided s side colour) (hs : Sound s) (hquoted : s.SideQuoted colour)
    (hop : s.QuotedOn side x op) (hok : s.perform op = .ok s') :
    ∃ colour', Sided s' (s.sideAfter side x) colour' ∧ s'.SideQuoted colour' := by
  cases x with
  | true =>
    have hallows : Allows (sideRegion s side colour true True) s op := {
      written := fun place hplace => h.has_of_on (hop.oneSided.written place hplace)
      copied := fun place hplace => .inl (h.has_of_on (hop.copied rfl place hplace))
      cloned := fun _ place hplace => h.has_of_on (hop.cloned rfl place hplace)
      quoting := fun _ => hop.quoting rfl }
    have hwithin := (h.within hs hop.fits fun _ hzero v => hquoted hzero v).perform hallows hok
    refine ⟨_, h.after hs hwithin, fun hzero v _ hcolour => ?_⟩
    by_cases hitems : (sideRegion s side colour true False).items (.value v)
    · exact hwithin.quoted hzero v hitems (.inl trivial)
    · rw [colourAfter_of_not hitems] at hcolour
      cases hcolour
  | false =>
    have hwithin := h.step hs hop.fits hop.oneSided hok
    refine ⟨_, h.after hs hwithin, fun hzero v _ hcolour => ?_⟩
    by_cases hitems : (sideRegion s side colour false False).items (.value v)
    · rw [colourAfter_of_items hitems] at hcolour
      cases hcolour
    · obtain ⟨-, hrest⟩ := not_or.mp hitems
      obtain ⟨huse, hside⟩ := not_or.mp hrest
      rw [hwithin.values v hitems]
      exact hquoted (Nat.le_zero.mp (hzero ▸ hwithin.history)) v (not_not.mp huse)
        (Bool.eq_true_of_not_eq_false hside)

theorem SidedRuns.quoted (hs : Sound s) (h : ∃ colour, Sided s side colour ∧ s.SideQuoted colour)
    {side' : ℕ → Bool} (hrun : SidedRuns QuotedOn s side s' side') :
    Sound s' ∧ ∃ colour, Sided s' side' colour ∧ s'.SideQuoted colour := by
  induction hrun with
  | nil => exact ⟨hs, h⟩
  | step _ hop hok ih =>
    obtain ⟨hsound, colour, hsided, hquoted⟩ := ih
    exact ⟨hsound.step hop.fits hok, hsided.quoted_step hsound hquoted hop hok⟩

/-- **As long as no value comes back to its pool unquoted**, every run on two sides leaves the side
of `true` written as its trees say: its serialisation does not depend on what the pool has recycled.
-/
theorem quoted_runs (hrun : SidedRuns QuotedOn (start n m) (fun _ => true) s side)
    (hzero : s.unquotedReleases = 0) (doubles : DoubleText) {i : ℕ} (hside : side i = true)
    (hat : s.pointerAt (.handle i) = some p) (depth : ℕ) :
    s.writeStringValue doubles depth p = (tree depth s p).write doubles := by
  have hbegin : ∃ colour, Sided (start n m) (fun _ => true) colour ∧
      (start n m).SideQuoted colour :=
    ⟨fun _ => true, ⟨fun _ _ _ _ => rfl, fun _ _ _ _ => rfl⟩, fun _ _ _ _ => rfl⟩
  obtain ⟨hs, colour, hsided, hquoted⟩ := SidedRuns.quoted (sound_start n m) hbegin hrun
  by_cases hp : p = .null
  · subst hp
    cases depth <;> rfl
  · refine writeStringValue_eq (K := fun q => q = .null ∨ s.InUse q ∧ colour q = true)
      (fun o ho q hq => ?_) (fun v hv => ?_) depth (.inr ⟨hs.owned.inUse_at hat, ?_⟩)
    · obtain ⟨-, hcolour⟩ := ho.resolve_left (by rintro ⟨⟩)
      by_cases hnull : q = .null
      · exact .inl hnull
      · exact .inr ⟨hs.owned.inUse_slot hq, (hsided.slots o q hq hnull).trans hcolour⟩
    · obtain ⟨huse, hcolour⟩ := hv.resolve_left (by rintro ⟨⟩)
      exact hquoted hzero v huse hcolour
    · exact (hsided.handles i p hat hp).trans hside

/-- An operation that copies nothing, on places of its own side. -/
theorem QuotedOn.of_written (hfits : s.Fits op) (hwritten : ∀ place ∈ op.written, s.On side x place)
    (hcopied : op.copied = []) (hcloned : op.cloned = []) (hquoting : ¬ op.Unquotes) :
    QuotedOn s side x op where
  fits := hfits
  oneSided := ⟨hwritten, fun _ h => absurd (hcopied ▸ h) List.not_mem_nil⟩
  copied := fun _ _ h => absurd (hcopied ▸ h) List.not_mem_nil
  cloned := fun _ _ h => absurd (hcloned ▸ h) List.not_mem_nil
  quoting := fun _ => hquoting

/-- `Json("a")`, which is destroyed, and `Json("b")`: the pool gives out its only value again. -/
def recycled : JsonStore 1 1 :=
  (((start 1 1).step (.constructScalar (.string [97]))).step (.destroy 0)).step
    (.constructScalar (.string [98]))

theorem recycled_written :
    recycled.writeStringValue ⟨fun _ => [], fun _ => none⟩ 0 (.value 0) = [quote, 98, quote] := by
  have hmade : SidedRuns QuotedOn (start 1 1) (fun _ => true)
      ((start 1 1).step (.constructScalar (.string [97]))) _ :=
    .step .nil (show QuotedOn _ _ true (.constructScalar (.string [97])) from
      .of_written ⟨by decide, by decide⟩ (fun _ h => absurd h List.not_mem_nil) rfl rfl id) rfl
  have hdestroyed : SidedRuns QuotedOn (start 1 1) (fun _ => true)
      (((start 1 1).step (.constructScalar (.string [97]))).step (.destroy 0)) _ :=
    .step hmade (show QuotedOn _ _ true (.destroy 0) from
      .of_written ⟨by decide, by decide⟩ (fun place h => List.mem_singleton.mp h ▸ rfl) rfl rfl
        id) rfl
  have hrecycled : SidedRuns QuotedOn (start 1 1) (fun _ => true) recycled _ :=
    .step hdestroyed (show QuotedOn _ _ true (.constructScalar (.string [98])) from
      .of_written ⟨by decide, by decide⟩ (fun _ h => absurd h List.not_mem_nil) rfl rfl id) rfl
  exact quoted_runs hrecycled rfl ⟨fun _ => [], fun _ => none⟩ (i := 1) rfl rfl 0

/-! ## A value that was unquoted -/

/-- A string is made and destroyed, again and again; the next handle is the given one. -/
def recycles (x : JsonScalar) : ℕ → ℕ → List (JsonOperation n)
  | 0, _ => []
  | k + 1, i => .constructScalar x :: .destroy i :: recycles x k (i + 1)

theorem performAll_cons {ops : List (JsonOperation n)} (h : s.perform op = .ok s₁) :
    s.performAll (op :: ops) = s₁.performAll ops := by
  rw [performAll, List.foldlM_cons, h]
  rfl

theorem constructScalar_eq {v : Fin m} {vs : List (Fin m)} (h : s.availableValues = v :: vs)
    (y : JsonScalar) : s.perform (.constructScalar y) = .ok
      (({ s with availableValues := vs }.updateValue v fun cell =>
        { cell with scalar := y }).newHandle (.value v)) := by
  rw [perform, acquireValue_eq_ok.mpr ⟨vs, h, rfl⟩]
  rfl

theorem destroy_eq {v : Fin m} {i : ℕ} (hat : s.pointerAt (.handle i) = some (.value v)) :
    s.perform (.destroy i) = .ok ({ s with handles := s.handles.set i none }.releaseValue v) := by
  have hrelease : ∀ s : JsonStore n m, s.release (.value v) = s.releaseValue v := by
    intro s
    rw [release, releaseAll, releaseAll_nil]
  rw [perform, read_eq_ok.mpr hat, ← hrelease]
  rfl

/-- **A cycle moves a value to the end of the pool** and keeps its quoting. -/
theorem recycle {v : Fin m} {vs : List (Fin m)} (h : s.availableValues = v :: vs) (y : JsonScalar)
    (ops : List (JsonOperation n)) : ∃ s' : JsonStore n m, s'.availableValues = vs ++ [v] ∧
      s'.handles.length = s.handles.length + 1 ∧
        (∀ w, (s'.values w).isStringFormat = (s.values w).isStringFormat) ∧
          s.performAll (.constructScalar y :: .destroy s.handles.length :: ops) =
            s'.performAll ops := by
  have hat := pointerAt_newHandle ({ s with availableValues := vs }.updateValue v fun cell =>
    { cell with scalar := y }) (.value v)
  refine ⟨_, ?_, ?_, fun w => ?_,
    (performAll_cons (constructScalar_eq h y)).trans (performAll_cons (destroy_eq hat))⟩
  · rfl
  · change (List.set (s.handles ++ [some (.value v)]) _ none).length = _
    rw [List.length_set, List.length_append, List.length_singleton]
  · rw [isStringFormat_releaseValue]
    change (Function.update s.values v _ w).isStringFormat = _
    rcases eq_or_ne w v with rfl | hne
    · rw [Function.update_self]
    · rw [Function.update_of_ne hne]

/-- The values in front come to the end of the pool. -/
theorem recycles_run (y : JsonScalar) (l : List (Fin m)) : ∀ {s : JsonStore n m} {r : List (Fin m)},
    s.availableValues = l ++ r → ∃ s', s.performAll (recycles y l.length s.handles.length) = .ok s' ∧
      s'.availableValues = r ++ l ∧ s'.handles.length = s.handles.length + l.length ∧
        ∀ w, (s'.values w).isStringFormat = (s.values w).isStringFormat := by
  induction l with
  | nil =>
    intro s r h
    exact ⟨s, rfl, by rw [List.append_nil]; exact h, rfl, fun _ => rfl⟩
  | cons v l ih =>
    intro s r h
    rw [List.cons_append] at h
    obtain ⟨s₁, havailable, hlength, hflags, hrun⟩ :=
      recycle h y (recycles y l.length (s.handles.length + 1))
    rw [List.append_assoc] at havailable
    obtain ⟨s', hrest, havailable', hlength', hflags'⟩ := ih havailable
    rw [hlength] at hrest hlength'
    refine ⟨s', hrun.trans hrest, ?_, ?_, fun w => (hflags' w).trans (hflags w)⟩
    · rw [havailable', List.append_assoc]
      rfl
    · rw [hlength', List.length_cons]
      omega

/-- `Json a("a"); a.set_is_string_format(false);`, then `a` is destroyed, and so are as many strings
as the pool still has before it comes to the value again. -/
def unquoting (k : ℕ) : List (JsonOperation n) :=
  .constructScalar (.string [97]) :: .setIsStringFormat (.handle 0) false :: .destroy 0 ::
    recycles (.string [97]) k 1

/-- **A new string is written without quotes** if its value came back to the pool unquoted. -/
theorem recycled_unquoted (n k : ℕ) : ∃ s : JsonStore n (k + 1),
    (start n (k + 1)).performAll (unquoting k) = .ok s ∧
      ∃ s', s.perform (.constructScalar (.string [98])) = .ok s' ∧
        s'.pointerAt (.handle s.handles.length) = some (.value 0) ∧
          tree 0 s' (.value 0) = .scalar (.string [98]) ∧
            ∀ doubles, s'.writeStringValue doubles 0 (.value 0) = [98] := by
  have hstart : (start n (k + 1)).availableValues = 0 :: (List.finRange k).map Fin.succ :=
    List.finRange_succ
  have hmade := constructScalar_eq (n := n) hstart (.string [97])
  set s₁ := ({ start n (k + 1) with
    availableValues := (List.finRange k).map Fin.succ }.updateValue 0 fun cell =>
      { cell with scalar := .string [97] }).newHandle (.value 0)
  have hunquoted : s₁.perform (.setIsStringFormat (.handle 0) false) =
      .ok (s₁.updateValue 0 fun cell => { cell with isStringFormat := false }) := rfl
  set s₂ := s₁.updateValue 0 fun cell => { cell with isStringFormat := false }
  have hdestroyed : s₂.perform (.destroy 0) = .ok _ := destroy_eq (v := 0) rfl
  have hfree : ({ s₂ with handles := s₂.handles.set 0 none }.releaseValue 0).availableValues =
      (List.finRange k).map Fin.succ ++ [0] := rfl
  obtain ⟨s, hrun, havailable, hlength, hflags⟩ := recycles_run (.string [97]) _ hfree
  rw [List.length_map, List.length_finRange] at hrun
  have hflag : (s.values 0).isStringFormat = false := by
    rw [hflags]
    rfl
  refine ⟨s, ?_, _, constructScalar_eq havailable _, ?_, ?_, fun doubles => ?_⟩
  · rw [unquoting, performAll_cons hmade, performAll_cons hunquoted, performAll_cons hdestroyed]
    exact hrun
  · exact pointerAt_newHandle _ _
  · change JsonTree.scalar (Function.update s.values 0 _ 0).scalar = _
    rw [Function.update_self]
    rfl
  · change (Function.update s.values 0 ⟨.string [98], (s.values 0).isStringFormat⟩ 0).scalar.write
      doubles (Function.update s.values 0 ⟨.string [98], (s.values 0).isStringFormat⟩
        0).isStringFormat = _
    rw [Function.update_self, hflag]
    rfl

/-- The pools of the program. -/
theorem jsonPools_unquoted : ∃ s : JsonStore 1000000 10000000,
    (start 1000000 10000000).performAll (unquoting 9999999) = .ok s ∧
      ∃ s', s.perform (.constructScalar (.string [98])) = .ok s' ∧
        s'.pointerAt (.handle s.handles.length) = some (.value 0) ∧
          tree 0 s' (.value 0) = .scalar (.string [98]) ∧
            ∀ doubles, s'.writeStringValue doubles 0 (.value 0) = [98] :=
  recycled_unquoted 1000000 9999999

end JsonStore

end TradingEngine
