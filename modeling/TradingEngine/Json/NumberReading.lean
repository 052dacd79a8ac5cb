import TradingEngine.Json.Reading

/-!
# Json/NumberReading — the numbers of a document that are read as they are written

A document is not valid where `std::from_chars` refuses a number in it; otherwise every number is
read, and it is the one that is written unless its exponent is lost.  The doubles that are written
are read back from their texts under the same condition.
-/

namespace TradingEngine

open Ascii Json JsonParse

namespace JsonText

open Doc (Part KeysRead KeysDistinct)

namespace Doc

/-! ## The places of the numbers -/

mutual

/-- **Every number of a document is read right**, at its place in the tree. -/
def NumbersRight : Doc → Json → Prop
  | .number n, v => n.Means v
  | .spaced _ d _, v => NumbersRight d v
  | .array first others, v =>
    ∃ u us, v = .array (u :: us) ∧ NumbersRight first u ∧ ElementsRight others us
  | .object key first others, v =>
    ∃ fields, v = .object fields ∧ (∃ u, (raw key.key, u) ∈ fields ∧ NumbersRight first u) ∧
      MembersRight others fields
  | _, _ => True

def ElementsRight : List Doc → List Json → Prop
  | [], _ => True
  | _ :: _, [] => False
  | d :: ds, v :: vs => NumbersRight d v ∧ ElementsRight ds vs

def MembersRight : List (KeyText × Doc) → List (List UInt8 × Json) → Prop
  | [], _ => True
  | (key, d) :: ms, fields =>
    (∃ u, (raw key.key, u) ∈ fields ∧ NumbersRight d u) ∧ MembersRight ms fields

end

/-- Some number of a document is refused. -/
def SomeRefused (d : Doc) : Prop := ∃ n, Part d (.number n) ∧ n.Refused

/-- No exponent of a document is lost. -/
def AllFaithful (d : Doc) : Prop := ∀ n, Part d (.number n) → n.Faithful

section Numbers

variable {first : Doc} {others : List Doc} {key : KeyText} {members : List (KeyText × Doc)}

theorem someRefused_array :
    SomeRefused (.array first others) ↔ SomeRefused first ∨ ∃ d ∈ others, SomeRefused d := by
  constructor
  · rintro ⟨n, hn, hrefused⟩
    simp only [part_array_iff, reduceCtorEq, false_or] at hn
    refine hn.imp (fun h => ⟨n, h, hrefused⟩) ?_
    rintro ⟨d, hd, h⟩
    exact ⟨d, hd, n, h, hrefused⟩
  · rintro (⟨n, hn, hrefused⟩ | ⟨d, hd, n, hn, hrefused⟩)
    · exact ⟨n, .first others hn, hrefused⟩
    · exact ⟨n, .other first hd hn, hrefused⟩

theorem someRefused_object : SomeRefused (.object key first members) ↔
    SomeRefused first ∨ ∃ m ∈ members, SomeRefused m.2 := by
  constructor
  · rintro ⟨n, hn, hrefused⟩
    simp only [part_object_iff, reduceCtorEq, false_or] at hn
    refine hn.imp (fun h => ⟨n, h, hrefused⟩) ?_
    rintro ⟨m, hm, h⟩
    exact ⟨m, hm, n, h, hrefused⟩
  · rintro (⟨n, hn, hrefused⟩ | ⟨m, hm, n, hn, hrefused⟩)
    · exact ⟨n, .firstMember key members hn, hrefused⟩
    · exact ⟨n, .otherMember key first hm hn, hrefused⟩

theorem allFaithful_array :
    AllFaithful (.array first others) ↔ AllFaithful first ∧ ∀ d ∈ others, AllFaithful d := by
  constructor
  · intro h
    exact ⟨fun n hn => h n (.first others hn), fun d hd n hn => h n (.other first hd hn)⟩
  · rintro ⟨hfirst, hothers⟩ n hn
    simp only [part_array_iff, reduceCtorEq, false_or] at hn
    rcases hn with hn | ⟨d, hd, hn⟩
    · exact hfirst n hn
    · exact hothers d hd n hn

theorem allFaithful_object : AllFaithful (.object key first members) ↔
    AllFaithful first ∧ ∀ m ∈ members, AllFaithful m.2 := by
  constructor
  · intro h
    exact ⟨fun n hn => h n (.firstMember key members hn),
      fun m hm n hn => h n (.otherMember key first hm hn)⟩
  · rintro ⟨hfirst, hothers⟩ n hn
    simp only [part_object_iff, reduceCtorEq, false_or] at hn
    rcases hn with hn | ⟨m, hm, hn⟩
    · exact hfirst n hn
    · exact hothers m hm n hn

end Numbers

/-! ## The scan fails where a number is refused -/

theorem readElements_cons_eq_none (d : Doc) (ds : List Doc) :
    readElements (d :: ds) = none ↔ d.read = none ∨ readElements ds = none := by
  rw [readElements]
  cases d.read <;> cases readElements ds <;> simp

theorem readMembers_cons_eq_none (m : KeyText × Doc) (ms : List (KeyText × Doc)) :
    readMembers (m :: ms) = none ↔ m.2.read = none ∨ readMembers ms = none := by
  rw [readMembers]
  cases m.2.read <;> cases readMembers ms <;> simp

theorem readElements_eq_none_iff (ds : List Doc) :
    readElements ds = none ↔ ∃ d ∈ ds, d.read = none := by
  induction ds with
  | nil => simp [readElements]
  | cons d ds ih =>
    rw [readElements_cons_eq_none, ih]
    simp

theorem readMembers_eq_none_iff (ms : List (KeyText × Doc)) :
    readMembers ms = none ↔ ∃ m ∈ ms, m.2.read = none := by
  induction ms with
  | nil => simp [readMembers]
  | cons m ms ih =>
    rw [readMembers_cons_eq_none, ih]
    simp

theorem read_array_eq_none (first : Doc) (others : List Doc) :
    read (.array first others) = none ↔ first.read = none ∨ readElements others = none := by
  rw [read]
  cases first.read <;> cases readElements others <;> simp

theorem read_object_eq_none (key : KeyText) (first : Doc) (others : List (KeyText × Doc)) :
    read (.object key first others) = none ↔ first.read = none ∨ readMembers others = none := by
  rw [read]
  cases first.read <;> cases readMembers others <;> simp

/-- **The scan fails** where a number is refused, and only there. -/
theorem read_eq_none_iff (d : Doc) : d.read = none ↔ d.SomeRefused := by
  induction d with
  | null => simp [read, SomeRefused]
  | bool value => simp [read, SomeRefused]
  | number n => simp [read, SomeRefused, n.read_eq_none_iff]
  | string s => simp [read, SomeRefused]
  | spaced before value after ih => simpa [read, SomeRefused] using ih
  | emptyArray blank => simp [read, SomeRefused]
  | array first others hfirst hothers =>
    rw [read_array_eq_none, readElements_eq_none_iff, someRefused_array, hfirst]
    exact or_congr_right (exists_congr fun d => and_congr_right fun hd => hothers d hd)
  | emptyObject blank => simp [read, SomeRefused]
  | object key first others hfirst hothers =>
    rw [read_object_eq_none, readMembers_eq_none_iff, someRefused_object, hfirst]
    exact or_congr_right (exists_congr fun m => and_congr_right fun hm => hothers m hm)

/-! ## The numbers that are read -/

theorem readElements_cons_eq_some {d : Doc} {ds : List Doc} {vs : List Json}
    (h : readElements (d :: ds) = some vs) :
    ∃ u us, vs = u :: us ∧ d.read = some u ∧ readElements ds = some us := by
  rw [readElements] at h
  cases hd : d.read with
  | none =>
    rw [hd] at h
    cases h
  | some u =>
    cases hds : readElements ds with
    | none =>
      rw [hd, hds] at h
      cases h
    | some us =>
      rw [hd, hds] at h
      cases h
      exact ⟨u, us, rfl, rfl, rfl⟩

theorem elementsRight_iff {ds : List Doc} {vs : List Json}
    (h : ∀ d ∈ ds, ∀ v, d.read = some v → (NumbersRight d v ↔ AllFaithful d))
    (hread : readElements ds = some vs) :
    ElementsRight ds vs ↔ ∀ d ∈ ds, AllFaithful d := by
  induction ds generalizing vs with
  | nil => simp [ElementsRight]
  | cons d ds ih =>
    obtain ⟨u, us, rfl, hd, hds⟩ := readElements_cons_eq_some hread
    rw [ElementsRight, h d List.mem_cons_self u hd,
      ih (fun d' hd' => h d' (List.mem_cons_of_mem d hd')) hds, List.forall_mem_cons]

theorem readMembers_cons_eq_some {m : KeyText × Doc} {ms : List (KeyText × Doc)}
    {fields : List (List UInt8 × Json)} (h : readMembers (m :: ms) = some fields) :
    ∃ u fs, fields = (raw m.1.key, u) :: fs ∧ m.2.read = some u ∧ readMembers ms = some fs := by
  rw [readMembers] at h
  cases hd : m.2.read with
  | none =>
    rw [hd] at h
    cases h
  | some u =>
    cases hms : readMembers ms with
    | none =>
      rw [hd, hms] at h
      cases h
    | some fs =>
      rw [hd, hms] at h
      cases h
      exact ⟨u, fs, rfl, rfl, rfl⟩

theorem keys_of_readMembers {ms : List (KeyText × Doc)} {fields : List (List UInt8 × Json)}
    (h : readMembers ms = some fields) : fields.map (·.1) = ms.map fun m => raw m.1.key := by
  induction ms generalizing fields with
  | nil =>
    cases h
    rfl
  | cons m ms ih =>
    obtain ⟨u, fs, rfl, -, hfs⟩ := readMembers_cons_eq_some h
    rw [List.map_cons, List.map_cons, ih hfs]

/-- With one value for every key the field of a member is its own. -/
theorem member_iff {P : Json → Prop} {fields : List (List UInt8 × Json)} {k : List UInt8}
    {v : Json} (hnodup : (fields.map (·.1)).Nodup) (hmem : (k, v) ∈ fields) :
    (∃ u, (k, u) ∈ fields ∧ P u) ↔ P v := by
  constructor
  · rintro ⟨u, hu, h⟩
    have heq := List.inj_on_of_nodup_map hnodup hu hmem rfl
    rwa [← (Prod.mk.inj heq).2]
  · exact fun h => ⟨v, hmem, h⟩

theorem membersRight_iff {ms : List (KeyText × Doc)} {fields all : List (List UInt8 × Json)}
    (h : ∀ m ∈ ms, ∀ v, m.2.read = some v → (NumbersRight m.2 v ↔ AllFaithful m.2))
    (hnodup : (all.map (·.1)).Nodup) (hsub : ∀ f ∈ fields, f ∈ all)
    (hread : readMembers ms = some fields) :
    MembersRight ms all ↔ ∀ m ∈ ms, AllFaithful m.2 := by
  induction ms generalizing fields with
  | nil => simp [MembersRight]
  | cons m ms ih =>
    obtain ⟨u, fs, rfl, hd, hms⟩ := readMembers_cons_eq_some hread
    obtain ⟨hmem, hsub⟩ := List.forall_mem_cons.mp hsub
    rw [MembersRight, member_iff hnodup hmem, h m List.mem_cons_self u hd,
      ih (fun m' hm' => h m' (List.mem_cons_of_mem m hm')) hsub hms, List.forall_mem_cons]

theorem read_array_eq_some {first : Doc} {others : List Doc} {v : Json}
    (h : read (.array first others) = some v) :
    ∃ u us, v = .array (u :: us) ∧ first.read = some u ∧ readElements others = some us := by
  rw [read] at h
  cases hfirst : first.read with
  | none =>
    rw [hfirst] at h
    cases h
  | some u =>
    cases hothers : readElements others with
    | none =>
      rw [hfirst, hothers] at h
      cases h
    | some us =>
      rw [hfirst, hothers] at h
      cases h
      exact ⟨u, us, rfl, rfl, rfl⟩

theorem read_object_eq_some {key : KeyText} {first : Doc} {others : List (KeyText × Doc)}
    {v : Json} (h : read (.object key first others) = some v) : ∃ u fields,
      v = .object ((raw key.key, u) :: fields) ∧ first.read = some u ∧
        readMembers others = some fields := by
  rw [read] at h
  cases hfirst : first.read with
  | none =>
    rw [hfirst] at h
    cases h
  | some u =>
    cases hothers : readMembers others with
    | none =>
      rw [hfirst, hothers] at h
      cases h
    | some fields =>
      rw [hfirst, hothers] at h
      cases h
      exact ⟨u, fields, rfl, rfl, rfl⟩

/-- **The numbers that are read are the ones that are written** where no exponent is lost, and only
there. -/
theorem numbersRight_iff {d : Doc} {v : Json} (hdistinct : KeysDistinct d)
    (h : d.read = some v) : NumbersRight d v ↔ d.AllFaithful := by
  induction d generalizing v with
  | null => simp [NumbersRight, AllFaithful]
  | bool value => simp [NumbersRight, AllFaithful]
  | number n =>
    rw [NumbersRight, Number.means_iff h]
    simp [AllFaithful]
  | string s => simp [NumbersRight, AllFaithful]
  | spaced before value after ih =>
    have hvalue := ih (hdistinct.part (.spaced before after (.self value))) h
    rw [NumbersRight, hvalue]
    simp [AllFaithful]
  | emptyArray blank => simp [NumbersRight, AllFaithful]
  | array first others hfirst hothers =>
    obtain ⟨u, us, rfl, hu, hus⟩ := read_array_eq_some h
    have hvalue := hfirst (hdistinct.part (.first others (.self first))) hu
    have hvalues := elementsRight_iff (fun d hd v hv =>
      hothers d hd (hdistinct.part (.other first hd (.self d))) hv) hus
    rw [NumbersRight, allFaithful_array, ← hvalue, ← hvalues]
    simp
  | emptyObject blank => simp [NumbersRight, AllFaithful]
  | object key first others hfirst hothers =>
    obtain ⟨u, fields, rfl, hu, hfields⟩ := read_object_eq_some h
    have hnodup : (((raw key.key, u) :: fields).map (·.1)).Nodup := by
      rw [List.map_cons, keys_of_readMembers hfields]
      exact hdistinct key first others (.self _)
    have hvalue := hfirst (hdistinct.part (.firstMember key others (.self first))) hu
    have hvalues := membersRight_iff (fun m hm v hv =>
      hothers m hm (hdistinct.part (.otherMember key first hm (.self m.2))) hv) hnodup
      (fun f hf => List.mem_cons_of_mem _ hf) hfields
    have hown := member_iff (P := NumbersRight first) hnodup List.mem_cons_self
    rw [NumbersRight, allFaithful_object, ← hvalue, ← hvalues, ← hown]
    simp

end Doc

/-- With enough fuel the parse is not valid, or what it returns has the property. -/
def InvalidOr (toChars : ℚ → List UInt8) (s : List UInt8) (P : Json → Prop) : Prop :=
  ∃ bound, ∀ fuel ≥ bound, ∃ v valid,
    parse (standard toChars) fuel s = some (v, valid) ∧ (valid = true → P v)

theorem invalidOr_text {d : Doc} {P : Json → Prop} (toChars : ℚ → List UInt8)
    (hroot : d.IsContainer) (hkeys : KeysRead d) (hdistinct : KeysDistinct d) :
    InvalidOr toChars d.text P ↔ ∀ v, d.read = some v → P v := by
  obtain ⟨bound, hbound⟩ := @parse_text toChars d hroot hkeys hdistinct
  constructor
  · rintro ⟨bound', h⟩ v hv
    obtain ⟨v', valid, hparse, hright⟩ := h (max bound bound') (le_max_right _ _)
    rw [hbound _ (le_max_left _ _), hv] at hparse
    cases hparse
    exact hright rfl
  · intro h
    refine ⟨bound, fun fuel hfuel => ⟨_, _, hbound fuel hfuel, fun hvalid => ?_⟩⟩
    obtain ⟨v, hv⟩ := Option.isSome_iff_exists.mp hvalid
    rw [hv]
    exact h v hv

/-- The numbers of a document are read right, or the parse is not valid. -/
theorem numbers_iff {d : Doc} (toChars : ℚ → List UInt8) (hroot : d.IsContainer)
    (hkeys : KeysRead d) (hdistinct : KeysDistinct d) :
    InvalidOr toChars d.text d.NumbersRight ↔ d.SomeRefused ∨ d.AllFaithful := by
  rw [invalidOr_text toChars hroot hkeys hdistinct, ← Doc.read_eq_none_iff]
  cases hv : d.read with
  | none => simp
  | some v =>
    have hright := Doc.numbersRight_iff hdistinct hv
    simp [hright]

/-! ## The doubles that are written -/

/-- What `std::to_chars` documents of the number it writes for a double: `std::from_chars` gives the
double back, a number without fraction and exponent is the double itself, and there is no exponent
where it makes no difference. -/
structure WrittenFor (n : Number) (x : ℚ) : Prop where
  rounds : Binary64.round n.value = some x
  exact : n.IsInteger → n.value = x
  exponent : n.exponent ≠ none → n.mantissa ≠ 0 ∧ n.power ≠ 0

/-- The number that is read for a double is the double where no exponent is lost. -/
theorem number_eq_iff {n : Number} {x : ℚ} (h : WrittenFor n x) {v : Json}
    (hread : n.read = some v) : v.number = some x ↔ n.Faithful := by
  rw [← Number.means_iff hread]
  constructor
  · intro hv
    by_cases hint : n.IsInteger
    · exact ⟨x, hv, Or.inl (h.exact hint).symm⟩
    · exact ⟨x, hv, Or.inr ⟨fun hint' => hint hint'.1, h.rounds⟩⟩
  · intro hmeans
    have hfaithful := (Number.means_iff hread).mp hmeans
    obtain ⟨q, hq, hspan⟩ := Number.number_of_read hread
    have hvalue := hfaithful.value_eq
    rw [hq]
    rcases hspan with ⟨hfraction, heq⟩ | ⟨hfraction, hround⟩
    · -- without a fraction an exponent is lost, so the number is an integer
      have hexponent : n.exponent = none := by
        by_contra hexponent
        obtain ⟨hmantissa, hpower⟩ := h.exponent hexponent
        rcases hfaithful with hnone | hlower | hzero | hzero
        · exact hexponent hnone
        · exact hlower.2 hfraction
        · exact hmantissa hzero
        · exact hpower hzero
      rw [if_neg fun hlower => hlower.2 hfraction] at hvalue
      rw [heq, ← hvalue, h.exact ⟨hfraction, hexponent⟩]
    · rw [Number.value_scanned] at hround
      simp only [hfraction, ne_eq, not_false_eq_true, and_true] at hvalue
      rw [← hvalue, h.rounds] at hround
      exact hround.symm

/-- A double in an array is read back from its text, or not. -/
def ReadsBack (toChars : ℚ → List UInt8) (x : ℚ) : Prop :=
  ∃ bound, ∀ fuel ≥ bound, ∃ v,
    parse (standard toChars) fuel (write (standard toChars) (.array [.double x])) =
      some (.array [v], true) ∧ v.number = some x

/-- An array of one number has no keys, and no other number. -/
theorem keys_numberArray (n : Number) :
    KeysRead (.array (.number n) []) ∧ KeysDistinct (.array (.number n) []) := by
  constructor <;> intro key first others h <;> simp at h

theorem part_numberArray {n m : Number} (h : Part (.array (.number n) []) (.number m)) :
    m = n := by
  simpa using h

theorem readsBack_iff {toChars : ℚ → List UInt8} {n : Number} {x : ℚ} (htext : toChars x = n.text)
    (h : WrittenFor n x) : ReadsBack toChars x ↔ ¬ n.Refused ∧ n.Faithful := by
  have hwrite : write (standard toChars) (.array [.double x]) =
      Doc.text (.array (.number n) []) := by
    rw [write, write, writeElements, Doc.text, Doc.text, Doc.elementsText, ← htext]
    rfl
  obtain ⟨hkeys, hdistinct⟩ := keys_numberArray n
  obtain ⟨bound, hbound⟩ := @parse_text toChars (.array (.number n) []) trivial
    hkeys hdistinct
  rw [ReadsBack, hwrite, ← n.read_eq_none_iff]
  cases hread : n.read with
  | none =>
    have hdoc : Doc.read (.array (.number n) []) = none := by
      rw [Doc.read, Doc.read, hread]
      rfl
    refine iff_of_false ?_ fun h => h.1 rfl
    rintro ⟨bound', hparse⟩
    obtain ⟨v, hparse, -⟩ := hparse (max bound bound') (le_max_right _ _)
    rw [hbound _ (le_max_left _ _), hdoc] at hparse
    cases hparse
  | some v =>
    have hdoc : Doc.read (.array (.number n) []) = some (.array [v]) := by
      rw [Doc.read, Doc.read, hread]
      rfl
    rw [hdoc] at hbound
    rw [← number_eq_iff h hread]
    constructor
    · rintro ⟨bound', hparse⟩
      obtain ⟨v', hparse, hv'⟩ := hparse (max bound bound') (le_max_right _ _)
      rw [hbound _ (le_max_left _ _)] at hparse
      cases hparse
      exact ⟨fun hnone => Option.some_ne_none v hnone, hv'⟩
    · rintro ⟨-, hv⟩
      exact ⟨bound, fun fuel hfuel => ⟨v, hbound fuel hfuel, hv⟩⟩

/-- **The numbers that are read as they are written.**  The parse of a document is not valid or
reads every number right, exactly if `std::from_chars` refuses a number or no exponent is lost; and
a double comes back from its text, exactly if its number is not refused and its exponent not
lost. -/
theorem parse_numbers_iff (toChars : ℚ → List UInt8) :
    (∀ d : Doc, d.IsContainer → KeysRead d → KeysDistinct d →
      (InvalidOr toChars d.text d.NumbersRight ↔ d.SomeRefused ∨ d.AllFaithful)) ∧
    ∀ (x : ℚ) (n : Number), toChars x = n.text → WrittenFor n x →
      (ReadsBack toChars x ↔ ¬ n.Refused ∧ n.Faithful) :=
  ⟨fun _ => numbers_iff toChars, fun _ _ => readsBack_iff⟩

/-- `0.5`. -/
def half : Number := ⟨false, ⟨[48], by decide, forall_of_all (by decide)⟩, by decide,
  some ⟨[53], by decide, forall_of_all (by decide)⟩, none⟩

theorem half_read : InvalidOr (fun _ => text "0.5") (text "[0.5]")
      (Doc.NumbersRight (.array (.number half) [])) ∧
    ReadsBack (fun _ => text "0.5") (1 / 2) := by
  have hread := parse_numbers_iff fun _ => text "0.5"
  have hfaithful : half.Faithful := Or.inl rfl
  have hround : Binary64.round half.value = some (1 / 2) := by decide +kernel
  have hrefused : ¬ half.Refused := by
    intro hrefused
    exact Option.some_ne_none _ (hround.symm.trans hrefused)
  constructor
  · have hobject := keys_numberArray half
    refine (hread.1 (.array (.number half) []) trivial hobject.1 hobject.2).mpr (Or.inr ?_)
    intro n h
    rw [part_numberArray h]
    exact hfaithful
  · refine (hread.2 (1 / 2) half rfl ⟨hround, ?_, ?_⟩).mpr ⟨hrefused, hfaithful⟩
    · rintro ⟨⟨⟩, -⟩
    · exact fun h => absurd rfl h

/-- `1e+05`, the text of the double 100000. -/
def oneE5 : Number := ⟨false, ⟨[49], by decide, forall_of_all (by decide)⟩, by decide, none,
  some ⟨false, .plus, ⟨[48, 53], by decide, forall_of_all (by decide)⟩⟩⟩

/-- **An exponent without `e-` is lost**: the text of the double 100000 is read as 1. -/
theorem oneE5_misread : Doc.text (.array (.number oneE5) []) = text "[1e+05]" ∧
    oneE5.value = 100000 ∧ WrittenFor oneE5 100000 ∧ ∀ toChars,
      (∃ fuel, parse (standard toChars) fuel (text "[1e+05]") = some (.array [.int 1], true)) ∧
      ¬ InvalidOr toChars (text "[1e+05]") (Doc.NumbersRight (.array (.number oneE5) [])) := by
  have htext : Doc.text (.array (.number oneE5) []) = text "[1e+05]" := by decide
  have hread : Doc.read (.array (.number oneE5) []) = some (.array [.int 1]) := rfl
  have hvalue : oneE5.value = 100000 := by decide +kernel
  have hround : Binary64.round oneE5.value = some 100000 := by decide +kernel
  have hmantissa : oneE5.mantissa ≠ 0 := by decide +kernel
  have hpower : oneE5.power ≠ 0 := by decide +kernel
  obtain ⟨hkeys, hdistinct⟩ := keys_numberArray oneE5
  refine ⟨htext, hvalue, ⟨hround, ?_, fun _ => ⟨hmantissa, hpower⟩⟩, fun toChars => ⟨?_, ?_⟩⟩
  · rintro ⟨-, ⟨⟩⟩
  · obtain ⟨bound, hbound⟩ := @parse_text toChars (.array (.number oneE5) [])
      trivial hkeys hdistinct
    rw [htext, hread] at hbound
    exact ⟨bound, hbound bound le_rfl⟩
  · rw [← htext, numbers_iff (d := .array (.number oneE5) []) toChars trivial hkeys hdistinct]
    rintro (⟨n, hn, hrefused⟩ | hfaithful)
    · rw [part_numberArray hn] at hrefused
      exact hrefused (by decide)
    · rcases hfaithful oneE5 (.first [] (.self _)) with h | h | h | h
      · cases h
      · exact Bool.false_ne_true h.1
      · exact hmantissa h
      · exact hpower h

end JsonText

end TradingEngine
