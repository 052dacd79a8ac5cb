import TradingEngine.Json.Reading
import TradingEngine.Json.Termination

/-!
# Json/Denotation — the documents that parse to the trees they denote

A scan never makes an empty container, and never sets a key with a quote in it or the key `"}"`: an
empty container is null where it should be a container, a quote ends a key even behind a backslash,
and a key that is a closing brace ends its object.  A document without these is read as its tree.
-/

namespace TradingEngine

open Ascii Json JsonParse

namespace JsonText

open Doc (Part KeysRead KeysDistinct KeyRead)

variable {c : UInt8} {s : List UInt8}

/-- **The trees the scan can make**: no container is empty, and every key is one that `parse_key`
reads. -/
inductive Kept : Json → Prop
  | null : Kept .null
  | bool (value : Bool) : Kept (.bool value)
  | int (value : ℤ) : Kept (.int value)
  | double (value : ℚ) : Kept (.double value)
  | string (value : List UInt8) : Kept (.string value)
  | array {es : List Json} (hne : es ≠ []) (h : ∀ e ∈ es, Kept e) : Kept (.array es)
  | object {fs : List (List UInt8 × Json)} (hne : fs ≠ []) (hkeys : ∀ f ∈ fs, KeyRead f.1)
      (h : ∀ f ∈ fs, Kept f.2) : Kept (.object fs)

/-- **The order of the maps does not matter** for what the scan can make. -/
theorem Kept.of_same {t u : Json} (h : Kept u) (hsame : Same t u) : Kept t := by
  induction hsame with
  | null => exact .null
  | bool value => exact .bool value
  | int value => exact .int value
  | double value => exact .double value
  | string value => exact .string value
  | @array es es' hlength _ ih =>
    cases h with
    | array hne hkept =>
      refine .array (fun hnil => hne ?_) fun e he => ?_
      · rw [← List.length_eq_zero_iff, ← hlength, hnil, List.length_nil]
      · obtain ⟨i, hi, rfl⟩ := List.mem_iff_getElem.mp he
        have hi' : i < es'.length := hlength ▸ hi
        exact ih (es[i], es'[i]) (List.mem_iff_getElem.mpr ⟨i, by simp [hi, hi'], by simp⟩)
          (hkept es'[i] (List.getElem_mem hi'))
  | @object fs gs gs' hperm hmap _ ih =>
    cases h with
    | object hne hkeys hkept =>
      have hlength : gs.length = gs'.length := by
        rw [← List.length_map (·.1), hmap, List.length_map]
      refine .object (fun hnil => hne ?_) (fun f hf => ?_) fun f hf => ?_
      · rw [← List.length_eq_zero_iff, ← hlength, ← hperm.length_eq, hnil, List.length_nil]
      · have hmem : f.1 ∈ gs'.map (·.1) :=
          hmap ▸ List.mem_map_of_mem (hperm.mem_iff.mp hf)
        obtain ⟨g, hg, heq⟩ := List.mem_map.mp hmem
        exact heq ▸ hkeys g hg
      · obtain ⟨i, hi, rfl⟩ := List.mem_iff_getElem.mp (hperm.mem_iff.mp hf)
        have hi' : i < gs'.length := hlength ▸ hi
        exact ih (gs[i], gs'[i]) (List.mem_iff_getElem.mpr ⟨i, by simp [hi, hi'], by simp⟩)
          (hkept gs'[i] (List.getElem_mem hi'))

/-! ## What a scan makes -/

/-- A scan that is done has made such a tree, and what is left is an end of the text. -/
def Makes (out : Scan Json) (s : List UInt8) : Prop :=
  ∀ value rest, out = .ok value rest → Kept value ∧ rest <:+ s

theorem makes_ok {value : Json} {rest : List UInt8} (h : Kept value) (hrest : rest <:+ s) :
    Makes (.ok value rest) s := by
  rintro _ _ ⟨⟩
  exact ⟨h, hrest⟩

theorem makes_invalid : Makes .invalid s := by
  rintro _ _ ⟨⟩

theorem makes_running : Makes .running s := by
  rintro _ _ ⟨⟩

theorem Makes.mono {out : Scan Json} {s' : List UInt8} (h : Makes out s) (hsuffix : s <:+ s') :
    Makes out s' :=
  fun value rest hout => (h value rest hout).imp_right fun hrest => hrest.trans hsuffix

theorem makes_resync {value : Json} (h : Kept value) (s : List UInt8) :
    Makes (resync value s) s := by
  have hsuffix := List.dropWhile_suffix (fun c => !isDelimiter c) (l := s)
  rw [resync]
  cases hdrop : s.dropWhile fun c => !isDelimiter c with
  | nil => exact makes_invalid
  | cons c rest =>
    rw [hdrop] at hsuffix
    exact makes_ok h hsuffix

/-- What is made first is given to the rest of the scan. -/
theorem Makes.andThen {out : Scan Json} {f : Json → List UInt8 → Scan Json} (h : Makes out s)
    (hf : ∀ value rest, Kept value → rest <:+ s → Makes (f value rest) s) :
    Makes (out.andThen f) s := by
  cases out with
  | running => exact makes_running
  | invalid => exact makes_invalid
  | ok value rest =>
    obtain ⟨hkept, hrest⟩ := h value rest rfl
    exact hf value rest hkept hrest

theorem Makes.resync {out : Scan Json} (h : Makes out s) : Makes (out.andThen resync) s :=
  h.andThen fun _ rest hkept hrest => (makes_resync hkept rest).mono hrest

theorem parseValueString_suffix (escaped : Bool) {value rest : List UInt8}
    (h : parseValueString escaped s = some (value, rest)) : rest <:+ s := by
  induction s generalizing escaped value with
  | nil => cases escaped <;> exact absurd h (by rintro ⟨⟩)
  | cons c s ih =>
    have hmap : ∀ {escaped}, (parseValueString escaped s).map (fun r => (c :: r.1, r.2)) =
        some (value, rest) → rest <:+ c :: s := by
      intro escaped hmap
      obtain ⟨⟨value', rest'⟩, hparse, heq⟩ := Option.map_eq_some_iff.mp hmap
      cases heq
      exact (ih escaped hparse).trans (List.suffix_cons c s)
    cases escaped with
    | true => exact hmap h
    | false =>
      rw [parseValueString] at h
      split_ifs at h with hback hquote
      · exact hmap h
      · cases h
        exact List.suffix_cons c _
      · exact hmap h

theorem numberSpan_suffix (s : List UInt8) : (numberSpan s).2 <:+ s := by
  induction s with
  | nil => exact List.suffix_refl _
  | cons c s ih =>
    rw [numberSpan]
    split_ifs
    · exact ih.trans (List.suffix_cons c s)
    · exact List.suffix_refl _

/-- A number that is read is an integer or a double. -/
theorem parseValueNumber_kept {doubles : DoubleText} {value : Json} {rest : List UInt8}
    (h : parseValueNumber doubles s = some (value, rest)) : Kept value ∧ rest <:+ s := by
  rw [parseValueNumber] at h
  split_ifs at h with hnil hdot
  · obtain ⟨x, -, heq⟩ := Option.map_eq_some_iff.mp h
    cases heq
    exact ⟨.double x, numberSpan_suffix s⟩
  · obtain ⟨n, -, heq⟩ := Option.map_eq_some_iff.mp h
    cases heq
    exact ⟨.int n, numberSpan_suffix s⟩

/-- A key ends at the first quote. -/
theorem parseKey_some {key rest : List UInt8} (h : parseKey s = some (key, rest)) :
    rest <:+ s ∧ (key ≠ [closeBrace] → quote ∉ key ∧ ∀ c ∈ key, c ∈ s) := by
  have hsuffix := List.dropWhile_suffix (fun c => decide (c ≠ quote ∧ c ≠ closeBrace)) (l := s)
  rw [parseKey] at h
  cases hdrop : s.dropWhile fun c => decide (c ≠ quote ∧ c ≠ closeBrace) with
  | nil =>
    rw [hdrop] at h
    cases h
  | cons c t =>
    rw [hdrop] at h hsuffix
    have ht := (List.suffix_cons c t).trans hsuffix
    dsimp only at h
    split_ifs at h with hbrace
    · cases h
      exact ⟨ht, fun hne => absurd rfl hne⟩
    · have hsuffix' := List.dropWhile_suffix (fun c => decide (c ≠ quote)) (l := t)
      cases hdrop' : t.dropWhile fun c => decide (c ≠ quote) with
      | nil =>
        rw [hdrop'] at h
        cases h
      | cons c' t' =>
        rw [hdrop'] at h hsuffix'
        cases h
        refine ⟨((List.suffix_cons c' _).trans hsuffix').trans ht, fun _ => ⟨fun hmem => ?_, ?_⟩⟩
        · simpa using List.mem_takeWhile_imp hmem
        · exact fun c hc => ht.subset ((List.takeWhile_prefix _).subset hc)

/-! ### The loops -/

/-- There is no NUL in a text. -/
def NoNul (s : List UInt8) : Prop := ∀ c ∈ s, c ≠ 0

theorem NoNul.suffix {s' : List UInt8} (h : NoNul s) (hsuffix : s' <:+ s) : NoNul s' :=
  fun c hc => h c (hsuffix.subset hc)

/-- The fields set so far are ones an object can have. -/
def FieldsKept (fields : List (List UInt8 × Json)) : Prop :=
  ∀ f ∈ fields, KeyRead f.1 ∧ Kept f.2

theorem fieldsKept_nil : FieldsKept [] := fun _ h => absurd h List.not_mem_nil

theorem FieldsKept.setField {fields : List (List UInt8 × Json)} {key : List UInt8} {value : Json}
    (h : FieldsKept fields) (hnul : NoNul key) (hkey : KeyRead key) (hvalue : Kept value) :
    FieldsKept (setField fields key value) := by
  have htake : key.takeWhile (fun c => decide (c ≠ 0)) = key := by
    rw [List.takeWhile_eq_self_iff]
    exact fun c hc => decide_eq_true (hnul c hc)
  simp only [JsonParse.setField, htake]
  intro f hf
  split_ifs at hf with hmem
  · obtain ⟨g, hg, rfl⟩ := List.mem_map.mp hf
    split_ifs
    · exact ⟨hkey, hvalue⟩
    · exact h g hg
  · rcases List.mem_append.mp hf with hf | hf
    · exact h f hf
    · rw [List.mem_singleton.mp hf]
      exact ⟨hkey, hvalue⟩

theorem FieldsKept.objectOf {fields : List (List UInt8 × Json)} (h : FieldsKept fields) :
    Kept (objectOf fields) := by
  rw [JsonParse.objectOf]
  split_ifs with hempty
  · exact .null
  · exact .object (by simpa using hempty) (fun f hf => (h f hf).1) fun f hf => (h f hf).2

theorem kept_arrayOf {elements : List Json} (h : ∀ e ∈ elements, Kept e) :
    Kept (arrayOf elements) := by
  rw [arrayOf]
  split_ifs with hempty
  · exact .null
  · exact .array (by simpa using hempty) h

theorem skipComma_suffix (s : List UInt8) : skipComma s <:+ s := by
  rw [skipComma]
  split_ifs
  · exact List.tail_suffix s
  · exact List.suffix_refl _

variable {doubles : DoubleText}

/-- `parse_object`, `parse_array` and `parse_value` make such trees of a text without NUL. -/
def ObjectMakes (doubles : DoubleText) (fuel : ℕ) : Prop :=
  ∀ fields s, NoNul s → FieldsKept fields → Makes (parseObject doubles fuel fields s) s

def ArrayMakes (doubles : DoubleText) (fuel : ℕ) : Prop :=
  ∀ elements s, NoNul s → (∀ e ∈ elements, Kept e) → Makes (parseArray doubles fuel elements s) s

def ValueMakes (doubles : DoubleText) (fuel : ℕ) : Prop :=
  ∀ s, NoNul s → Makes (parseValue doubles fuel s) s

theorem objectMakes_succ {fuel : ℕ} (hobject : ObjectMakes doubles fuel)
    (hvalue : ValueMakes doubles fuel) : ObjectMakes doubles (fuel + 1) := by
  intro fields s hnul hfields
  cases s with
  | nil => exact makes_invalid
  | cons c rest =>
    rw [parseObject]
    split_ifs with hclose
    · exact makes_ok hfields.objectOf (List.suffix_cons c rest)
    · cases hkey : parseKey (c :: rest) with
      | none => exact makes_invalid
      | some r =>
        obtain ⟨key, afterKey⟩ := r
        obtain ⟨hsuffix, hread⟩ := parseKey_some hkey
        dsimp only
        split_ifs with hbrace
        · exact makes_ok hfields.objectOf hsuffix
        · obtain ⟨hquote, hmem⟩ := hread hbrace
          have hmakes := (hvalue afterKey (hnul.suffix hsuffix)).mono hsuffix
          refine hmakes.andThen fun value afterValue hkept hrest => ?_
          have hskip := (skipComma_suffix afterValue).trans hrest
          refine (hobject _ _ (hnul.suffix hskip) ?_).mono hskip
          exact hfields.setField (fun c hc => hnul c (hmem c hc)) ⟨hquote, hbrace⟩ hkept

theorem arrayMakes_succ {fuel : ℕ} (harray : ArrayMakes doubles fuel)
    (hvalue : ValueMakes doubles fuel) : ArrayMakes doubles (fuel + 1) := by
  intro elements s hnul helements
  cases s with
  | nil => exact makes_invalid
  | cons c rest =>
    rw [parseArray]
    split_ifs with hclose
    · exact makes_ok (kept_arrayOf helements) (List.suffix_cons c rest)
    · refine (hvalue _ hnul).andThen fun value afterValue hkept hrest => ?_
      have hskip := (skipComma_suffix afterValue).trans hrest
      refine (harray _ _ (hnul.suffix hskip) fun e he => ?_).mono hskip
      rcases List.mem_append.mp he with he | he
      · exact helements e he
      · exact List.mem_singleton.mp he ▸ hkept

theorem valueMakes_succ {fuel : ℕ} (hobject : ObjectMakes doubles fuel)
    (harray : ArrayMakes doubles fuel) : ValueMakes doubles (fuel + 1) := by
  intro s hnul
  have hsuffix := Scanner.skipToValue_suffix s
  rw [parseValue]
  cases hskip : skipToValue s with
  | nil => exact makes_invalid
  | cons c rest =>
    rw [hskip] at hsuffix
    have hrest := (List.suffix_cons c rest).trans hsuffix
    have hword : ∀ {value : Json}, Kept value → ∀ n, Makes (resync value (rest.drop n)) s :=
      fun hkept n => (makes_resync hkept _).mono ((List.drop_suffix n rest).trans hrest)
    dsimp only
    split_ifs
    · exact makes_ok .null hsuffix
    · cases hparse : parseValueString false rest with
      | none => exact makes_invalid
      | some r =>
        have hmakes := makes_resync (.string r.1) r.2
        exact hmakes.mono ((parseValueString_suffix false hparse).trans hrest)
    · cases hparse : parseValueNumber doubles (c :: rest) with
      | none => exact makes_invalid
      | some r =>
        obtain ⟨hkept, hnumber⟩ := parseValueNumber_kept hparse
        exact (makes_resync hkept r.2).mono (hnumber.trans hsuffix)
    · exact hword (.bool true) 3
    · exact hword (.bool false) 4
    · exact hword .null 3
    · exact ((hobject [] rest (hnul.suffix hrest) fieldsKept_nil).mono hrest).resync
    · refine ((harray [] rest (hnul.suffix hrest) ?_).mono hrest).resync
      exact fun e he => absurd he List.not_mem_nil

/-- **However much fuel there is**, the scan makes such trees. -/
theorem makes (fuel : ℕ) :
    ObjectMakes doubles fuel ∧ ArrayMakes doubles fuel ∧ ValueMakes doubles fuel := by
  induction fuel with
  | zero => exact ⟨fun _ _ _ _ => makes_running, fun _ _ _ _ => makes_running,
      fun _ _ => makes_running⟩
  | succ fuel ih =>
    obtain ⟨hobject, harray, hvalue⟩ := ih
    exact ⟨objectMakes_succ hobject hvalue, arrayMakes_succ harray hvalue,
      valueMakes_succ hobject harray⟩

/-- A valid parse of a text without NUL. -/
theorem kept_of_parse {fuel : ℕ} {u : Json} (hnul : NoNul s)
    (h : parse doubles fuel s = some (u, true)) : Kept u := by
  have hresult : ∀ {out : Scan Json} {t : List UInt8}, Makes out t →
      resultOf out = some (u, true) → Kept u := by
    intro out t hmakes hout
    cases out with
    | running => cases hout
    | invalid => cases hout
    | ok value rest =>
      cases hout
      exact (hmakes _ rest rfl).1
  cases s with
  | nil =>
    cases h
    exact .null
  | cons c s =>
    have hsuffix := List.dropWhile_suffix (fun c => decide (c ≠ openBrace ∧ c ≠ openBracket))
      (l := c :: s)
    simp only [parse] at h
    cases hdrop : (c :: s).dropWhile fun c => decide (c ≠ openBrace ∧ c ≠ openBracket) with
    | nil =>
      rw [hdrop] at h
      cases h
    | cons d rest =>
      rw [hdrop] at h hsuffix
      have hrest := hnul.suffix ((List.suffix_cons d rest).trans hsuffix)
      dsimp only at h
      split_ifs at h
      · exact hresult ((makes fuel).1 [] rest hrest fieldsKept_nil) h
      · exact hresult ((makes fuel).2.1 [] rest hrest fun e he => absurd he List.not_mem_nil) h

/-! ## The documents -/

namespace Doc

@[simp] theorem elementTrees_eq_map (ds : List Doc) : elementTrees ds = ds.map tree := by
  induction ds with
  | nil => rfl
  | cons d ds ih => rw [elementTrees, ih, List.map_cons]

@[simp] theorem memberTrees_eq_map (ms : List (KeyText × Doc)) :
    memberTrees ms = ms.map fun m => (raw m.1.key, m.2.tree) := by
  induction ms with
  | nil => rfl
  | cons m ms ih => rw [memberTrees, ih, List.map_cons]

theorem keysOf_eq_map (key : KeyText) (first : Doc) (others : List (KeyText × Doc)) :
    keysOf key others = ((raw key.key, first.tree) :: memberTrees others).map (·.1) := by
  rw [memberTrees_eq_map, List.map_cons, List.map_map]
  rfl

/-- The parts of a document the scan can make are ones it can make. -/
theorem Part.kept {d d' : Doc} (hpart : Part d d') (h : Kept d.tree) : Kept d'.tree := by
  induction hpart with
  | self => exact h
  | spaced before after _ ih => exact ih h
  | first others _ ih =>
    cases h with
    | array hne hkept => exact ih (hkept _ List.mem_cons_self)
  | @other other d first others hmem _ ih =>
    cases h with
    | array hne hkept =>
      refine ih (hkept _ (List.mem_cons_of_mem _ ?_))
      rw [elementTrees_eq_map]
      exact List.mem_map_of_mem hmem
  | firstMember key others _ ih =>
    cases h with
    | object hne hkeys hkept => exact ih (hkept _ List.mem_cons_self)
  | @otherMember m d key first others hmem _ ih =>
    cases h with
    | object hne hkeys hkept =>
      refine ih (hkept (raw m.1.key, m.2.tree) (List.mem_cons_of_mem _ ?_))
      rw [memberTrees_eq_map]
      exact List.mem_map.mpr ⟨m, hmem, rfl⟩

theorem keysRead_of_kept {d : Doc} (h : Kept d.tree) : KeysRead d := by
  intro key first others hpart k hk
  rw [keysOf_eq_map key first] at hk
  obtain ⟨f, hf, rfl⟩ := List.mem_map.mp hk
  have hkept : Kept (.object ((raw key.key, first.tree) :: memberTrees others)) := hpart.kept h
  cases hkept with
  | object hne hkeys _ => exact hkeys f hf

/-- The only numbers are integers an `int64_t` holds. -/
def OnlyInt64 (d : Doc) : Prop :=
  ∀ n, Part d (.number n) → n.IsInteger ∧ IsInt64 n.integer

theorem OnlyInt64.part {d d' : Doc} (h : OnlyInt64 d) (hpart : Part d d') : OnlyInt64 d' :=
  fun n hn => h n (hpart.trans hn)

theorem readElements_of_forall {ds : List Doc} (h : ∀ d ∈ ds, d.read = some d.tree) :
    readElements ds = some (elementTrees ds) := by
  induction ds with
  | nil => rfl
  | cons d ds ih =>
    rw [readElements, h d List.mem_cons_self, ih fun d' hd' => h d' (List.mem_cons_of_mem d hd')]
    rfl

theorem readMembers_of_forall {ms : List (KeyText × Doc)}
    (h : ∀ m ∈ ms, m.2.read = some m.2.tree) : readMembers ms = some (memberTrees ms) := by
  induction ms with
  | nil => rfl
  | cons m ms ih =>
    rw [readMembers, h m List.mem_cons_self, ih fun m' hm' => h m' (List.mem_cons_of_mem m hm')]
    rfl

theorem read_number {n : Number} (h : n.IsInteger) (hint : IsInt64 n.integer) :
    n.read = some (tree (.number n)) := by
  rw [Number.read, tree, h.1, h.2]
  exact if_pos hint

/-- **A document without empty containers and odd keys** is read as the tree it denotes. -/
theorem read_eq_tree {d : Doc} (h : Kept d.tree) (hint : OnlyInt64 d) : d.read = some d.tree := by
  have hpart : ∀ {d'}, Part d d' → Kept d'.tree ∧ OnlyInt64 d' :=
    fun hd' => ⟨hd'.kept h, hint.part hd'⟩
  induction d with
  | null => rfl
  | bool value => rfl
  | number n => exact read_number (hint n (.self _)).1 (hint n (.self _)).2
  | string s => rfl
  | spaced before value after ih =>
    obtain ⟨hkept, hint'⟩ := hpart (.spaced before after (.self value))
    exact ih hkept hint' fun hd' => hpart (.spaced before after hd')
  | emptyArray blank =>
    cases h with
    | array hne _ => exact absurd rfl hne
  | array first others hfirst hothers =>
    obtain ⟨hkept, hint'⟩ := hpart (.first others (.self first))
    have hvalue := hfirst hkept hint' fun hd' => hpart (.first others hd')
    have hvalues := readElements_of_forall fun d hd => hothers d hd
      (hpart (.other first hd (.self d))).1 (hpart (.other first hd (.self d))).2
      fun hd' => hpart (.other first hd hd')
    rw [read, hvalue, hvalues]
    rfl
  | emptyObject blank =>
    cases h with
    | object hne _ _ => exact absurd rfl hne
  | object key first others hfirst hothers =>
    obtain ⟨hkept, hint'⟩ := hpart (.firstMember key others (.self first))
    have hvalue := hfirst hkept hint' fun hd' => hpart (.firstMember key others hd')
    have hfields := readMembers_of_forall fun m hm => hothers m hm
      (hpart (.otherMember key first hm (.self m.2))).1
      (hpart (.otherMember key first hm (.self m.2))).2
      fun hd' => hpart (.otherMember key first hm hd')
    rw [read, hvalue, hfields]
    rfl

/-! ### The text has no NUL -/

theorem noNul_append {s t : List UInt8} (hs : NoNul s) (ht : NoNul t) : NoNul (s ++ t) :=
  fun c hc => (List.mem_append.mp hc).elim (hs c) (ht c)

theorem noNul_cons {c : UInt8} {s : List UInt8} (hc : c ≠ 0) (hs : NoNul s) : NoNul (c :: s) :=
  List.forall_mem_cons.mpr ⟨hc, hs⟩

theorem noNul_nil : NoNul [] := fun _ h => absurd h List.not_mem_nil

theorem noNul_blank (w : Blank) : NoNul w.chars := by
  intro c hc
  rcases blank_cases (w.isBlank c hc) with rfl | rfl | rfl | rfl <;> decide

theorem noNul_raw (s : List StringPiece) : NoNul (raw s) := fun _ hc => ne_zero_of_mem_raw hc

theorem noNul_key (key : KeyText) : NoNul key.text :=
  noNul_append (noNul_blank _) (noNul_cons (by decide) (noNul_append (noNul_raw _)
    (noNul_cons (by decide) (noNul_append (noNul_blank _) (noNul_cons (by decide) noNul_nil)))))

theorem noNul_number (n : Number) : NoNul n.text := by
  rw [Number.text_eq_front]
  refine noNul_append (fun c hc => ?_) fun c hc => ?_
  · rintro rfl
    rcases Number.mem_front hc with h | h <;> exact absurd h (by decide)
  · rintro rfl
    rcases Number.mem_exponentText hc with h | h <;> exact absurd h (by decide)

theorem noNul_elementsText {ds : List Doc} (h : ∀ d ∈ ds, NoNul d.text) :
    NoNul (elementsText ds) := by
  induction ds with
  | nil => exact noNul_cons (by decide) noNul_nil
  | cons d ds ih =>
    refine noNul_cons (by decide) (noNul_append (h d List.mem_cons_self) (ih fun d' hd' => ?_))
    exact h d' (List.mem_cons_of_mem d hd')

theorem noNul_membersText {ms : List (KeyText × Doc)} (h : ∀ m ∈ ms, NoNul m.2.text) :
    NoNul (membersText ms) := by
  induction ms with
  | nil => exact noNul_cons (by decide) noNul_nil
  | cons m ms ih =>
    refine noNul_cons (by decide) (noNul_append (noNul_key m.1)
      (noNul_append (h m List.mem_cons_self) (ih fun m' hm' => ?_)))
    exact h m' (List.mem_cons_of_mem m hm')

theorem noNul_text (d : Doc) : NoNul d.text := by
  induction d with
  | null => exact forall_of_all (by decide)
  | bool value => cases value <;> exact forall_of_all (by decide)
  | number n => exact noNul_number n
  | string s =>
    exact noNul_cons (by decide) (noNul_append (noNul_raw s) (noNul_cons (by decide) noNul_nil))
  | spaced before value after ih =>
    exact noNul_append (noNul_blank before) (noNul_append ih (noNul_blank after))
  | emptyArray blank =>
    exact noNul_cons (by decide) (noNul_append (noNul_blank _) (noNul_cons (by decide) noNul_nil))
  | array first others hfirst hothers =>
    exact noNul_cons (by decide) (noNul_append hfirst (noNul_elementsText hothers))
  | emptyObject blank =>
    exact noNul_cons (by decide) (noNul_append (noNul_blank _) (noNul_cons (by decide) noNul_nil))
  | object key first others hfirst hothers =>
    exact noNul_cons (by decide) (noNul_append (noNul_key key)
      (noNul_append hfirst (noNul_membersText hothers)))

end Doc

/-- **The documents that parse to their trees**: for a text of an array or an object, without
duplicate keys and with integers in range as its only numbers, those in whose tree no container is
empty and no key holds a quote or is a closing brace. -/
theorem parse_same_iff {d : Doc} (hroot : d.IsContainer) (hdistinct : KeysDistinct d)
    (hint : d.OnlyInt64) (toChars : ℚ → List UInt8) :
    (∃ fuel u, parse (standard toChars) fuel d.text = some (u, true) ∧ Same d.tree u) ↔
      Kept d.tree := by
  constructor
  · rintro ⟨fuel, u, hparse, hsame⟩
    exact (kept_of_parse (Doc.noNul_text d) hparse).of_same hsame
  · intro hkept
    obtain ⟨bound, hbound⟩ := @parse_text toChars d hroot (Doc.keysRead_of_kept hkept)
      hdistinct
    rw [Doc.read_eq_tree hkept hint] at hbound
    exact ⟨bound, d.tree, hbound bound le_rfl, .refl _⟩

/-- `{ "id" : [ -7,"s\"i\""] }`: white space, an integer, and a string with its quotes escaped. -/
def quotedDocument : Doc :=
  .object ⟨⟨[space], forall_of_all (by decide)⟩,
      [.plain 105 (by decide), .plain 100 (by decide)],
      ⟨[space], forall_of_all (by decide)⟩⟩
    (.spaced ⟨[space], forall_of_all (by decide)⟩
      (.array (.spaced ⟨[space], forall_of_all (by decide)⟩
          (.number ⟨true, ⟨[55], by decide, forall_of_all (by decide)⟩, by decide, none, none⟩)
          .empty)
        [.string [.plain 115 (by decide), .escape quote (by decide), .plain 105 (by decide),
          .escape quote (by decide)]])
      ⟨[space], forall_of_all (by decide)⟩) []

theorem quotedDocument_text : quotedDocument.text =
    text "\x7b \"id\" : [ -7,\"s\\\"i\\\"\"] \x7d" := by
  decide

theorem kept_quotedDocument : Kept quotedDocument.tree := by
  refine .object (List.cons_ne_nil _ _) (fun f hf => ?_) fun f hf => ?_
  · rw [List.mem_singleton.mp hf]
    exact ⟨by decide, by decide⟩
  · rw [List.mem_singleton.mp hf]
    refine .array (List.cons_ne_nil _ _) fun e he => ?_
    rcases List.mem_pair.mp he with rfl | rfl
    · exact .int _
    · exact .string _

theorem quotedDocument_read :
    ∃ fuel u, parse (standard fun _ => []) fuel quotedDocument.text = some (u, true) ∧
      Same quotedDocument.tree u := by
  have hdistinct : KeysDistinct quotedDocument := by
    intro key first others h
    simp only [quotedDocument, Doc.part_object_iff, Doc.part_spaced_iff, Doc.part_array_iff,
      Doc.part_number_iff, Doc.part_string_iff, List.mem_singleton, List.not_mem_nil,
      exists_eq_left, false_and, exists_false, or_false, reduceCtorEq, Doc.object.injEq] at h
    obtain ⟨rfl, -, rfl⟩ := h
    decide
  have hint : quotedDocument.OnlyInt64 := by
    intro n h
    simp only [quotedDocument, Doc.part_object_iff, Doc.part_spaced_iff, Doc.part_array_iff,
      Doc.part_number_iff, Doc.part_string_iff, List.mem_singleton, List.not_mem_nil,
      exists_eq_left, false_and, exists_false, or_false, false_or, reduceCtorEq,
      Doc.number.injEq] at h
    rw [h]
    exact ⟨⟨rfl, rfl⟩, by decide⟩
  exact (parse_same_iff (d := quotedDocument) trivial hdistinct hint _).mpr kept_quotedDocument

/-- **An empty array with a space in it** is read as an array with one null. -/
theorem blankArray_not_same : ∃ d : Doc, d.text = text "[ ]" ∧ d.IsContainer ∧ KeysDistinct d ∧
    d.OnlyInt64 ∧ ∀ toChars, ¬ ∃ fuel u,
      parse (standard toChars) fuel d.text = some (u, true) ∧ Same d.tree u := by
  refine ⟨.emptyArray ⟨[space], forall_of_all (by decide)⟩, by decide, trivial,
    fun key first others h => ?_, fun n h => ?_, ?_⟩
  · rw [Doc.part_emptyArray_iff] at h
    cases h
  · rw [Doc.part_emptyArray_iff] at h
    cases h
  · rintro toChars ⟨fuel, u, hparse, hsame⟩
    cases (kept_of_parse (Doc.noNul_text _) hparse).of_same hsame with
    | array hne _ => exact hne rfl

example : parse (standard fun _ => []) 3 (text "[ ]") = some (.array [.null], true) := rfl

end JsonText

end TradingEngine
