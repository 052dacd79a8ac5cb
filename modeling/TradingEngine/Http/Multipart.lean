import TradingEngine.Http.FormData
import TradingEngine.Json.ParseResult
import TradingEngine.Json.RoundTrip

/-!
# Http/Multipart — the bodies of forms

A multipart body is made of parts with a name and a value.  The loop of `deserialize_body_form_data`
reads all of them (`deserializeBodyFormData_bytes`), but it never ends on a body that begins with the
key format, and what the JSON parser has made of the body stays beside the parts.  `formData_iff`
says when the parts are all there is.
-/

namespace TradingEngine

open Ascii

/-! ## Marks without a line end -/

section Marks

variable {mark line t : List UInt8} {c : UInt8}

/-- A mark that begins in front of a character it does not hold ends in front of it. -/
theorem prefix_of_notMem (h : c ∉ mark) (hpre : mark <+: line ++ c :: t) : mark <+: line := by
  rcases Nat.le_total mark.length line.length with hle | hle
  · exact List.prefix_of_prefix_length_le hpre (List.prefix_append _ _) hle
  · have hline : line <+: mark :=
      List.prefix_of_prefix_length_le (List.prefix_append _ _) hpre hle
    obtain ⟨tail, rfl⟩ := hline
    have htail := (List.prefix_append_right_inj line).mp hpre
    cases tail with
    | nil => exact ⟨[], by rw [List.append_nil, List.append_nil]⟩
    | cons d tail =>
      obtain ⟨rfl, -⟩ := List.cons_prefix_cons.mp htail
      exact absurd (List.mem_append_right line List.mem_cons_self) h

/-- A search goes over a line that does not hold the mark. -/
theorem cut_line_of_unmarked (hcr : cr ∉ mark) (hlf : lf ∉ mark) (h : ¬ mark <:+: line) :
    cut mark (line ++ (crlf ++ t)) = (cut mark t).map (behind line) := by
  refine cut_line (fun tail htail hpre => ?_) fun hpre => ?_
  · exact h ((prefix_of_notMem hcr hpre).isInfix.trans htail.isInfix)
  · cases mark with
    | nil => exact h List.nil_infix
    | cons d mark =>
      obtain ⟨rfl, -⟩ := List.cons_prefix_cons.mp hpre
      exact hlf List.mem_cons_self

theorem OneLine.cons (hc : c ≠ cr) (h : OneLine line) : OneLine (c :: line) := by
  intro hin
  rcases List.infix_cons_iff.mp hin with hpre | hrest
  · exact hc (List.cons_prefix_cons.mp hpre).1.symm
  · exact h hrest

theorem OneLine.append_left {front : List UInt8} (hfront : cr ∉ front) (h : OneLine line) :
    OneLine (front ++ line) := by
  induction front with
  | nil => exact h
  | cons d front ih =>
    obtain ⟨hne, hmem⟩ := List.ne_and_not_mem_of_not_mem_cons hfront
    exact (ih hmem).cons hne.symm

theorem OneLine.concat (hc : c ≠ lf) (h : OneLine line) : OneLine (line ++ [c]) := by
  intro hin
  rcases List.infix_concat_iff.mp hin with ⟨front, hfront⟩ | hrest
  · have hends : (front ++ [cr]) ++ [lf] = line ++ [c] := by
      rw [← hfront, List.append_assoc]
      rfl
    exact hc (List.cons.inj (List.append_inj' hends rfl).2).1.symm
  · exact h hrest

end Marks

/-! ## Multipart bodies -/

/-- A character of a boundary. -/
def isBoundaryChar (c : UInt8) : Bool := isDigit c ∨ isLetter c ∨ c ∈ text "'()+_,-./:=? "

/-- A body of parts with distinct names. -/
structure Multipart where
  boundary : List UInt8
  parts : List (List UInt8 × List UInt8)
  boundary_char : ∀ c ∈ boundary, isBoundaryChar c = true
  names : (parts.map (·.1)).Nodup
  name_quoted : ∀ part ∈ parts, quote ∉ part.1 ∧ OneLine part.1
  value_line : ∀ part ∈ parts, OneLine part.2 ∧ ¬ minus :: minus :: boundary <:+: part.2

namespace Multipart

variable (form : Multipart)

/-- The text of a boundary line. -/
def delimiter : List UInt8 := minus :: minus :: form.boundary

/-- A part, up to its end. -/
def part (p : List UInt8 × List UInt8) : List UInt8 :=
  form.delimiter ++ (crlf ++ (HttpRequest.keyFormat ++ quote :: (p.1 ++ quote :: (headEnd ++
    (p.2 ++ crlf)))))

def closing : List UInt8 := form.delimiter ++ (minus :: minus :: crlf)

/-- Some parts, and the end of the body. -/
def partsText (parts : List (List UInt8 × List UInt8)) : List UInt8 :=
  parts.flatMap form.part ++ form.closing

def bytes : List UInt8 := form.partsText form.parts

/-- The fields that the parts set. -/
def fill (json : Json) (parts : List (List UInt8 × List UInt8)) : Json :=
  parts.foldl (fun json p => HttpRequest.setBodyField json p.1 p.2) json

variable {form} {p : List UInt8 × List UInt8} {parts : List (List UInt8 × List UInt8)}

theorem not_mem_delimiter {c : UInt8} (hc : isBoundaryChar c = false) (hminus : c ≠ minus) :
    c ∉ form.delimiter := by
  intro hmem
  rcases List.mem_cons.mp hmem with rfl | hmem
  · exact hminus rfl
  rcases List.mem_cons.mp hmem with rfl | hmem
  · exact hminus rfl
  · exact Bool.false_ne_true (hc.symm.trans (form.boundary_char c hmem))

theorem delimiter_oneLine : OneLine form.delimiter :=
  .of_notMem (not_mem_delimiter (by decide) (by decide))

/-- The line of a name. -/
theorem nameLine_oneLine (h : OneLine p.1) :
    OneLine (HttpRequest.keyFormat ++ quote :: (p.1 ++ [quote])) := by
  have hkey : cr ∉ HttpRequest.keyFormat := by decide
  exact .append_left hkey (.cons (by decide) (.concat (by decide) h))

/-- The mark of a part is not in a line that ends with another character. -/
theorem not_suffix_concat {line : List UInt8} {c : UInt8} (h : c ∉ form.delimiter) :
    ¬ form.delimiter <:+ line ++ [c] := by
  rintro ⟨front, hfront⟩
  have hlast := congrArg List.getLast? hfront
  have hne : form.delimiter ≠ [] := List.cons_ne_nil _ _
  rw [List.getLast?_concat, List.getLast?_append_of_ne_nil _ hne] at hlast
  exact h (List.mem_of_getLast? hlast)

/-- **The next part is found behind a part.** -/
theorem cut_frame_part (hp : p ∈ form.parts) (rest : List UInt8) :
    cut (form.delimiter ++ crlf) (HttpRequest.keyFormat ++ quote :: (p.1 ++ quote :: (headEnd ++
      (p.2 ++ (crlf ++ rest))))) =
      (cut (form.delimiter ++ crlf) rest).map fun found =>
        (HttpRequest.keyFormat ++ quote :: (p.1 ++ quote :: (headEnd ++ (p.2 ++ (crlf ++ found.1)))),
          found.2) := by
  have hcr : cr ∉ form.delimiter := not_mem_delimiter (by decide) (by decide)
  have hlf : lf ∉ form.delimiter := not_mem_delimiter (by decide) (by decide)
  have hquote : quote ∉ form.delimiter := not_mem_delimiter (by decide) (by decide)
  have hname : ¬ form.delimiter <:+ HttpRequest.keyFormat ++ quote :: (p.1 ++ [quote]) := by
    have hassoc : HttpRequest.keyFormat ++ quote :: (p.1 ++ [quote]) =
        (HttpRequest.keyFormat ++ quote :: p.1) ++ [quote] := by
      simp only [List.append_assoc, List.cons_append]
    rw [hassoc]
    exact not_suffix_concat hquote
  have hempty : ¬ form.delimiter <:+ [] := fun hsuf => List.cons_ne_nil _ _ (List.suffix_nil.mp hsuf)
  have hvalue : ¬ form.delimiter <:+ p.2 := fun hsuf => (form.value_line p hp).2 hsuf.isInfix
  have hlines : HttpRequest.keyFormat ++ quote :: (p.1 ++ quote :: (headEnd ++
      (p.2 ++ (crlf ++ rest)))) = (HttpRequest.keyFormat ++ quote :: (p.1 ++ [quote])) ++ (crlf ++
        ([] ++ (crlf ++ (p.2 ++ (crlf ++ rest))))) := by
    simp only [headEnd, List.append_assoc, List.cons_append, List.nil_append]
  rw [hlines, cut_lineEnd (nameLine_oneLine (form.name_quoted p hp).2) hcr hlf hname,
    cut_lineEnd (.of_notMem List.not_mem_nil) hcr hlf hempty,
    cut_lineEnd (form.value_line p hp).1 hcr hlf hvalue, Option.map_map, Option.map_map]
  refine congrArg (fun f => Option.map f _) (funext fun found => ?_)
  simp only [Function.comp_apply, behind, headEnd, List.append_assoc, List.cons_append,
    List.nil_append]

/-- The key format of a part stands behind its boundary line. -/
theorem cut_keyFormat (t : List UInt8) :
    cut HttpRequest.keyFormat (form.delimiter ++ (crlf ++ (HttpRequest.keyFormat ++ t))) =
      some (form.delimiter ++ crlf, t) := by
  have hsemicolon : semicolon ∉ form.delimiter := not_mem_delimiter (by decide) (by decide)
  have hmem : semicolon ∈ HttpRequest.keyFormat := by decide
  have hhere : cut HttpRequest.keyFormat (HttpRequest.keyFormat ++ t) = some ([], t) :=
    cut_of_notMem_mark (s := []) List.not_mem_nil _ t
  rw [cut_line_of_unmarked (by decide) (by decide) fun hin => hsemicolon (hin.subset hmem), hhere]
  rw [Option.map_some, behind, List.append_nil]

theorem not_mem_closing {c : UInt8} (h : c ∉ form.delimiter) (hend : c ∉ minus :: minus :: crlf) :
    c ∉ form.closing := fun hmem => (List.mem_append.mp hmem).elim h hend

/-- No key format stands in the end of the body. -/
theorem cut_keyFormat_closing : cut HttpRequest.keyFormat form.closing = none := by
  have hsemicolon : semicolon ∉ form.closing :=
    not_mem_closing (not_mem_delimiter (by decide) (by decide)) (by decide)
  cases hcut : cut HttpRequest.keyFormat form.closing with
  | none => rfl
  | some found =>
    have hmem : semicolon ∈ HttpRequest.keyFormat := by decide
    rw [eq_of_cut hcut] at hsemicolon
    exact absurd (List.mem_append_left _ (List.mem_append_right _ hmem)) hsemicolon

theorem part_append (p : List UInt8 × List UInt8) (rest : List UInt8) :
    form.part p ++ rest = form.delimiter ++ (crlf ++ (HttpRequest.keyFormat ++ quote :: (p.1 ++
      quote :: (headEnd ++ (p.2 ++ (crlf ++ rest)))))) := by
  simp only [part, List.append_assoc, List.cons_append]

theorem partsText_cons (p : List UInt8 × List UInt8) (parts : List (List UInt8 × List UInt8)) :
    form.partsText (p :: parts) = form.part p ++ form.partsText parts := by
  rw [partsText, partsText, List.flatMap_cons, List.append_assoc]

/-- The place of the next part. -/
theorem findFrom_frame (hp : p ∈ form.parts) (front rest : List UInt8) :
    findFrom (form.delimiter ++ crlf) (front.length + (form.delimiter ++ crlf).length)
        (front ++ (form.part p ++ rest)) =
      (cut (form.delimiter ++ crlf) rest).map fun found =>
        (front ++ form.part p).length + found.1.length := by
  have hne : form.delimiter ++ crlf ≠ [] := List.cons_ne_nil _ _
  have hbody : front ++ (form.part p ++ rest) = (front ++ (form.delimiter ++ crlf)) ++
      (HttpRequest.keyFormat ++ quote :: (p.1 ++ quote :: (headEnd ++ (p.2 ++ (crlf ++ rest))))) := by
    rw [part_append]
    simp only [List.append_assoc]
  rw [hbody, ← List.length_append, findFrom_append, find, if_neg hne, cut_frame_part hp,
    Option.map_map, Option.map_map]
  refine congrArg (fun f => Option.map f _) (funext fun found => ?_)
  simp only [Function.comp_apply, part, List.length_append, List.length_cons]
  omega

open HttpRequest in
/-- **One part is read.** -/
theorem formDataLoop_one (hp : p ∈ form.parts) (front rest : List UInt8) (fuel : ℕ) (json : Json) :
    formDataLoop (front ++ (form.part p ++ rest)) (form.delimiter ++ crlf) (fuel + 1)
        (some front.length) json =
      formDataLoop (front ++ (form.part p ++ rest)) (form.delimiter ++ crlf) fuel
        ((cut (form.delimiter ++ crlf) rest).map fun found =>
          (front ++ form.part p).length + found.1.length)
        (setBodyField json p.1 p.2) := by
  have hkey : findFrom keyFormat front.length (front ++ (form.part p ++ rest)) =
      some (front ++ (form.delimiter ++ crlf)).length := by
    rw [part_append, List.length_append]
    exact findFrom_append_of_cut keyFormat_ne_nil (cut_keyFormat _)
  have hbody : front ++ (form.part p ++ rest) = (front ++ (form.delimiter ++ crlf)) ++
      (keyFormat ++ quote :: (p.1 ++ quote :: (headEnd ++ (p.2 ++ (crlf ++ rest))))) := by
    rw [part_append]
    simp only [List.append_assoc]
  rw [formDataLoop_part (form.name_quoted p hp).1 (form.value_line p hp).1 hkey hbody,
    findFrom_frame hp]

open HttpRequest in
/-- **The loop reads the parts** from the place of the first on. -/
theorem formLoop_parts (hparts : ∀ q ∈ p :: parts, q ∈ form.parts) {fuel : ℕ}
    (hfuel : parts.length + 1 < fuel) (front : List UInt8) (json : Json) :
    formDataLoop (front ++ form.partsText (p :: parts)) (form.delimiter ++ crlf) fuel
      (some front.length) json = .ok (fill json (p :: parts)) := by
  induction parts generalizing p front fuel json with
  | nil =>
    obtain ⟨n, rfl⟩ := Nat.exists_eq_succ_of_ne_zero (Nat.ne_zero_of_lt hfuel)
    obtain ⟨m, rfl⟩ := Nat.exists_eq_succ_of_ne_zero (show n ≠ 0 by rw [List.length_nil] at hfuel; omega)
    have hclosing : form.partsText [] = form.closing := rfl
    rw [partsText_cons, hclosing, formDataLoop_one (hparts p List.mem_cons_self)]
    cases cut (form.delimiter ++ crlf) form.closing with
    | none => rfl
    | some found =>
      have hnone : findFrom keyFormat (front ++ form.part p).length
          (front ++ (form.part p ++ form.closing)) = none := by
        rw [← List.append_assoc, findFrom_append, find, if_neg keyFormat_ne_nil,
          cut_keyFormat_closing]
        rfl
      exact formDataLoop_none (findFrom_eq_none_of_le keyFormat_ne_nil hnone (Nat.le_add_right _ _))
  | cons next parts ih =>
    obtain ⟨n, rfl⟩ := Nat.exists_eq_succ_of_ne_zero (Nat.ne_zero_of_lt hfuel)
    have hnext : cut (form.delimiter ++ crlf) (form.partsText (next :: parts)) =
        some ([], keyFormat ++ quote :: (next.1 ++ quote :: (headEnd ++ (next.2 ++ (crlf ++
          form.partsText parts))))) := by
      rw [partsText_cons, part_append, ← List.append_assoc]
      exact cut_of_notMem_mark (s := []) List.not_mem_nil _ _
    rw [partsText_cons, formDataLoop_one (hparts p List.mem_cons_self), hnext, Option.map_some,
      List.length_nil, Nat.add_zero, ← List.append_assoc]
    exact ih (fun q hq => hparts q (List.mem_cons_of_mem p hq))
      (by rw [List.length_cons] at hfuel; omega) _ _

open HttpRequest in
/-- **The form of a multipart body** sets its fields one after the other. -/
theorem deserializeBodyFormData_bytes (hne : form.parts ≠ []) {fuel : ℕ}
    (hfuel : form.parts.length < fuel) (json : Json) :
    deserializeBodyFormData fuel form.bytes json = .ok (fill json form.parts) := by
  obtain ⟨p, parts, hparts⟩ := List.exists_cons_of_ne_nil hne
  have hcut : cut keyFormat form.bytes = some (form.delimiter ++ crlf, quote :: (p.1 ++ quote ::
      (headEnd ++ (p.2 ++ (crlf ++ form.partsText parts))))) := by
    rw [bytes, hparts, partsText_cons, part_append]
    exact cut_keyFormat _
  have hfind : find keyFormat form.bytes = some (form.delimiter ++ crlf).length := by
    rw [find, if_neg keyFormat_ne_nil, hcut]
    rfl
  rw [deserializeBodyFormData_some hfind, frameOf_eq hcut, bytes, hparts]
  refine formLoop_parts (fun q hq => hparts ▸ hq) ?_ [] json
  rw [hparts, List.length_cons] at hfuel
  exact hfuel

end Multipart

/-! ## The fields of the form -/

/-- The fields of a JSON value. -/
def Json.fieldsOf : Json → List (List UInt8 × Json)
  | .object fields => fields
  | _ => []

open JsonParse in
theorem fieldsOf_setBodyField (json : Json) (key value : List UInt8) :
    (HttpRequest.setBodyField json key value).fieldsOf =
      setField json.fieldsOf key (.string value) := by
  cases json <;> rfl

namespace Multipart

open JsonParse

/-- **Just the parts**: each name has its value, and there is no other key. -/
structure Holds (form : Multipart) (json : Json) : Prop where
  values : ∀ p ∈ form.parts, json.fieldsOf.lookup p.1 = some (.string p.2)
  keys : ∀ k ∈ json.fieldsOf.map (·.1), k ∈ form.parts.map (·.1)

/-- **The condition.**  The parser comes to an end, and gives no object with another key; no name has
a NUL in it; and a boundary without parts has no equals sign. -/
structure Plain (doubles : DoubleText) (form : Multipart) : Prop where
  ends : ¬ Scanner.Jams doubles form.bytes
  keys : ∀ fuel fields ok, parse doubles fuel form.bytes = some (.object fields, ok) →
    ∀ k ∈ fields.map (·.1), k ∈ form.parts.map (·.1)
  names : ∀ p ∈ form.parts, 0 ∉ p.1
  empty : form.parts = [] → HttpRequest.equalsSign ∉ form.boundary

variable {form : Multipart} {parts : List (List UInt8 × List UInt8)} {json : Json} {k : List UInt8}

theorem keys_fill : k ∈ (fill json parts).fieldsOf.map (·.1) ↔
    k ∈ json.fieldsOf.map (·.1) ∨ ∃ p ∈ parts, k = keyOf p.1 := by
  induction parts generalizing json with
  | nil => simp [fill]
  | cons p parts ih =>
    rw [fill, List.foldl_cons]
    change k ∈ (fill _ parts).fieldsOf.map (·.1) ↔ _
    rw [ih, fieldsOf_setBodyField, keys_setField, List.exists_mem_cons_iff, or_assoc]

theorem lookup_fill_of_notMem (h : ∀ p ∈ parts, k ≠ keyOf p.1) :
    (fill json parts).fieldsOf.lookup k = json.fieldsOf.lookup k := by
  induction parts generalizing json with
  | nil => rfl
  | cons p parts ih =>
    obtain ⟨hp, hparts⟩ := List.forall_mem_cons.mp h
    rw [fill, List.foldl_cons]
    change (fill _ parts).fieldsOf.lookup k = _
    rw [ih hparts, fieldsOf_setBodyField, lookup_setField, if_neg hp]

/-- **Each name has its value**, if no name is cut. -/
theorem lookup_fill (hzero : ∀ p ∈ parts, 0 ∉ p.1) (hnodup : (parts.map (·.1)).Nodup) :
    ∀ p ∈ parts, (fill json parts).fieldsOf.lookup p.1 = some (.string p.2) := by
  induction parts generalizing json with
  | nil => exact List.forall_mem_nil _
  | cons q parts ih =>
    obtain ⟨hq, hparts⟩ := List.forall_mem_cons.mp hzero
    obtain ⟨hnew, hnodup⟩ := List.nodup_cons.mp hnodup
    rw [fill, List.foldl_cons, List.forall_mem_cons]
    refine ⟨?_, ih hparts hnodup⟩
    change (fill _ parts).fieldsOf.lookup q.1 = _
    rw [lookup_fill_of_notMem, fieldsOf_setBodyField, lookup_setField, keyOf_eq_self hq, if_pos rfl]
    intro p hp heq
    rw [keyOf_eq_self (hparts p hp)] at heq
    exact hnew (List.mem_map.mpr ⟨p, hp, heq.symm⟩)

/-- **The form holds just its parts** if and only if the parser has set no other key and no name is
cut. -/
theorem holds_fill_iff (hkeys : ∀ k ∈ json.fieldsOf.map (·.1), 0 ∉ k) :
    form.Holds (fill json form.parts) ↔
      (∀ k ∈ json.fieldsOf.map (·.1), k ∈ form.parts.map (·.1)) ∧ ∀ p ∈ form.parts, 0 ∉ p.1 := by
  constructor
  · intro h
    refine ⟨fun k hk => h.keys k (keys_fill.mpr (.inl hk)), fun p hp => ?_⟩
    have hthere : p.1 ∈ (fill json form.parts).fieldsOf.map (·.1) := by
      by_contra hnot
      have hnone : (fill json form.parts).fieldsOf.lookup p.1 = none :=
        List.lookup_eq_none_iff.mpr fun f hf =>
          bne_iff_ne.mpr fun heq => hnot (List.mem_map.mpr ⟨f, hf, heq.symm⟩)
      rw [h.values p hp] at hnone
      cases hnone
    rcases keys_fill.mp hthere with hold | ⟨q, -, hcut⟩
    · exact hkeys _ hold
    · exact hcut ▸ zero_notMem_keyOf q.1
  · rintro ⟨hknown, hzero⟩
    refine ⟨lookup_fill hzero form.names, fun k hk => ?_⟩
    rcases keys_fill.mp hk with hold | ⟨p, hp, rfl⟩
    · exact hknown k hold
    · rw [keyOf_eq_self (hzero p hp)]
      exact List.mem_map_of_mem hp

/-! ## The JSON of the body -/

theorem isObject_setBodyField (json : Json) (key value : List UInt8) :
    ∃ fields, HttpRequest.setBodyField json key value = .object fields := by
  cases json <;> exact ⟨_, rfl⟩

/-- Parts make an object. -/
theorem isObject_fill (hne : parts ≠ []) (json : Json) : ∃ fields, fill json parts = .object fields := by
  induction parts generalizing json with
  | nil => exact absurd rfl hne
  | cons p parts ih =>
    cases parts with
    | nil => exact isObject_setBodyField json p.1 p.2
    | cons q parts => exact ih (List.cons_ne_nil _ _) _

open HttpRequest in
/-- **The JSON of a body with parts.** -/
theorem parseBody_bytes_iff {doubles : DoubleText} (hne : form.parts ≠ []) {result : Json} :
    (∃ fuel, HttpRequest.parseBody doubles fuel form.bytes = .ok result) ↔
      ∃ fuel json ok, parse doubles fuel form.bytes = some (json, ok) ∧
        fill json form.parts = result := by
  have hraw : ∀ json, deserializeBodyRawData form.bytes (fill json form.parts) =
      fill json form.parts := by
    intro json
    obtain ⟨fields, hfields⟩ := isObject_fill hne json
    rw [hfields]
    rfl
  constructor
  · rintro ⟨fuel, hbody⟩
    obtain ⟨json, ok, hparse, filled, hform, rfl⟩ := parseBody_eq_ok_iff.mp hbody
    have hmore := deserializeBodyFormData_of_le
      (show deserializeBodyFormData fuel form.bytes json ≠ .running by rw [hform]; exact nofun)
      (Nat.le_add_right fuel (form.parts.length + 1))
    rw [hform, deserializeBodyFormData_bytes hne (by omega)] at hmore
    rw [← Call.ok.inj hmore]
    exact ⟨fuel, json, ok, hparse, (hraw json).symm⟩
  · rintro ⟨fuel, json, ok, hparse, rfl⟩
    refine ⟨fuel + (form.parts.length + 1), parseBody_eq_ok_iff.mpr ⟨json, ok,
      parse_of_le hparse (Nat.le_add_right _ _), _,
      deserializeBodyFormData_bytes hne (by omega) json, hraw json⟩⟩

open HttpRequest in
/-- A body with parts. -/
theorem holds_iff_of_parts {doubles : DoubleText} (hne : form.parts ≠ []) :
    (∃ fuel json, HttpRequest.parseBody doubles fuel form.bytes = .ok json ∧ form.Holds json) ↔
      form.Plain doubles := by
  constructor
  · rintro ⟨fuel, result, hbody, hholds⟩
    obtain ⟨fuel, json, ok, hparse, rfl⟩ := (parseBody_bytes_iff hne).mp ⟨fuel, hbody⟩
    have hkeys : ∀ k ∈ json.fieldsOf.map (·.1), 0 ∉ k := by
      cases json with
      | object fields => exact parse_keys hparse
      | _ => exact nofun
    obtain ⟨hknown, hzero⟩ := (holds_fill_iff hkeys).mp hholds
    refine ⟨(exists_isSome_parse_iff _).mp ⟨fuel, by rw [hparse]; rfl⟩,
      fun fuel' fields ok' hparse' => ?_, hzero, fun hnil => absurd hnil hne⟩
    obtain ⟨rfl, -⟩ := Prod.mk.inj (parse_unique hparse hparse')
    exact hknown
  · intro hplain
    obtain ⟨fuel, hsome⟩ := (exists_isSome_parse_iff _).mpr hplain.ends
    obtain ⟨⟨json, ok⟩, hparse⟩ := Option.isSome_iff_exists.mp hsome
    obtain ⟨fuel', hbody⟩ := (parseBody_bytes_iff hne).mpr ⟨fuel, json, ok, hparse, rfl⟩
    refine ⟨fuel', _, hbody, (holds_fill_iff ?_).mpr ⟨?_, hplain.names⟩⟩
    · cases json with
      | object fields => exact parse_keys hparse
      | _ => exact nofun
    · cases json with
      | object fields => exact hplain.keys fuel fields ok hparse
      | _ => exact nofun

/-! ## A body without parts -/

/-- Without a bracket there is no JSON. -/
theorem parse_of_no_bracket {doubles : DoubleText} {s : List UInt8} (hne : s ≠ [])
    (h : ∀ c ∈ s, c ≠ openBrace ∧ c ≠ openBracket) (fuel : ℕ) :
    parse doubles fuel s = some (.null, false) := by
  obtain ⟨c, tail, rfl⟩ := List.exists_cons_of_ne_nil hne
  have hdrop : ((c :: tail).dropWhile fun c => c ≠ openBrace ∧ c ≠ openBracket) = [] :=
    List.dropWhile_eq_nil_iff.mpr fun d hd => decide_eq_true (h d hd)
  simp only [parse, hdrop]

theorem parse_closing (doubles : DoubleText) (fuel : ℕ) :
    parse doubles fuel form.closing = some (.null, false) := by
  have hbrace : openBrace ∉ form.closing :=
    not_mem_closing (not_mem_delimiter (by decide) (by decide)) (by decide)
  have hbracket : openBracket ∉ form.closing :=
    not_mem_closing (not_mem_delimiter (by decide) (by decide)) (by decide)
  exact parse_of_no_bracket (List.cons_ne_nil _ _)
    (fun c hc => ⟨fun heq => hbrace (heq ▸ hc), fun heq => hbracket (heq ▸ hc)⟩) fuel

open HttpRequest in
/-- **The raw parameters** of the end of a body: an equals sign makes a field. -/
theorem rawData_closing :
    if equalsSign ∈ form.boundary then
      ∃ key value, deserializeBodyRawData form.closing .null = setBodyField .null key value
    else deserializeBodyRawData form.closing .null = .null := by
  have hampersand : ampersand ∉ form.closing :=
    not_mem_closing (not_mem_delimiter (by decide) (by decide)) (by decide)
  rw [deserializeBodyRawData, splitString_none (cut_eq_none_of_notMem hampersand []),
    List.foldl_cons, List.foldl_nil]
  split_ifs with hequals
  · have hmem : equalsSign ∈ form.closing :=
      List.mem_append_left _ (List.mem_cons_of_mem _ (List.mem_cons_of_mem _ hequals))
    obtain ⟨front, back, hcut⟩ := exists_cut_of_mem hmem
    obtain ⟨value, values, hvalues⟩ :=
      List.exists_cons_of_ne_nil (splitString_ne_nil [equalsSign] back)
    rw [splitString_some (List.cons_ne_nil _ _) hcut, hvalues]
    exact ⟨front, value, rfl⟩
  · have hnone : equalsSign ∉ form.closing := by
      refine not_mem_closing (fun hmem => ?_) (by decide)
      rcases List.mem_cons.mp hmem with heq | hmem
      · exact absurd heq (by decide)
      rcases List.mem_cons.mp hmem with heq | hmem
      · exact absurd heq (by decide)
      · exact hequals hmem
    rw [splitString_none (cut_eq_none_of_notMem hnone [])]

open HttpRequest in
/-- A body without parts. -/
theorem holds_iff_of_no_parts {doubles : DoubleText} (hnil : form.parts = []) :
    (∃ fuel json, HttpRequest.parseBody doubles fuel form.bytes = .ok json ∧ form.Holds json) ↔
      form.Plain doubles := by
  have hbytes : form.bytes = form.closing := by
    rw [bytes, hnil]
    rfl
  have hfind : find keyFormat form.closing = none := by
    rw [find, if_neg keyFormat_ne_nil, cut_keyFormat_closing]
    rfl
  have hbody : ∀ fuel, HttpRequest.parseBody doubles fuel form.bytes =
      .ok (deserializeBodyRawData form.closing .null) := by
    intro fuel
    rw [hbytes, parseBody_of_parse (parse_closing doubles fuel),
      deserializeBodyFormData_none hfind]
    rfl
  have hraw := @rawData_closing form
  constructor
  · rintro ⟨fuel, json, hjson, hholds⟩
    refine ⟨(exists_isSome_parse_iff _).mp ⟨0, by rw [hbytes, parse_closing]; rfl⟩,
      fun fuel fields ok hparse => ?_, ?_, fun _ hequals => ?_⟩
    · rw [hbytes, parse_closing] at hparse
      cases hparse
    · rw [hnil]
      exact List.forall_mem_nil _
    · rw [if_pos hequals] at hraw
      obtain ⟨key, value, hset⟩ := hraw
      rw [hbody, hset] at hjson
      have hkey := hholds.keys (keyOf key) (by
        rw [← Call.ok.inj hjson, fieldsOf_setBodyField]
        exact keys_setField.mpr (.inr rfl))
      rw [hnil] at hkey
      cases hkey
  · intro hplain
    rw [if_neg (hplain.empty hnil)] at hraw
    refine ⟨0, .null, by rw [hbody, hraw], ?_, by simp [Json.fieldsOf]⟩
    rw [hnil]
    exact List.forall_mem_nil _

open HttpRequest in
/-- **When forms are read.**  The loop on a body that gives no out-of-range position ends if and only
if the body does not begin with the key format.  The JSON of a multipart body holds just its parts if
and only if the body is plain. -/
theorem formData_iff (doubles : DoubleText) :
    (∀ body json, (∀ fuel, deserializeBodyFormData fuel body json ≠ .throws) →
      ((∃ fuel, deserializeBodyFormData fuel body json ≠ .running) ↔ ¬ keyFormat <+: body)) ∧
    ∀ form : Multipart,
      (∃ fuel json, HttpRequest.parseBody doubles fuel form.bytes = .ok json ∧ form.Holds json) ↔
        form.Plain doubles := by
  refine ⟨fun body json hinside => ?_, fun form => ?_⟩
  · have hform : ¬ FormThrows body := fun hthrows =>
      hinside (body.length + 1) (form_throws hthrows (Nat.lt_succ_self _) json)
    constructor
    · rintro ⟨fuel, hends⟩ hbegin
      exact hends (form_runs hform hbegin fuel json)
    · intro hbegin
      obtain ⟨json', hok⟩ := form_reads hform hbegin (Nat.lt_succ_self _) json
      exact ⟨body.length + 1, by rw [hok]; exact nofun⟩
  · by_cases hparts : form.parts = []
    · exact holds_iff_of_no_parts hparts
    · exact holds_iff_of_parts hparts

/-- A form with the name `a` and the value `1`. -/
def oneForm : Multipart where
  boundary := text "x"
  parts := [(text "a", text "1")]
  boundary_char := forall_of_all (by decide)
  names := by decide
  name_quoted := List.forall_mem_singleton.mpr ⟨by decide, .of_notMem (by decide)⟩
  value_line := List.forall_mem_singleton.mpr ⟨.of_notMem (by decide), by decide⟩

open HttpRequest in
theorem formData_iff_one :
    (∃ fuel, deserializeBodyFormData fuel oneForm.bytes .null ≠ .running) ∧
    ∃ fuel json, HttpRequest.parseBody noDoubles fuel oneForm.bytes = .ok json ∧
      oneForm.Holds json := by
  have hparse : ∀ fuel, parse noDoubles fuel oneForm.bytes = some (.null, false) := fun _ => rfl
  have hform : ∀ fuel, deserializeBodyFormData fuel oneForm.bytes .null ≠ .throws := by
    intro fuel
    cases fuel with
    | zero => exact nofun
    | succ fuel =>
      cases fuel with
      | zero => exact nofun
      | succ fuel =>
        rw [deserializeBodyFormData_bytes (List.cons_ne_nil _ _) (Nat.le_add_left 2 fuel)]
        exact nofun
  refine ⟨((formData_iff noDoubles).1 oneForm.bytes .null hform).mpr (by decide),
    ((formData_iff noDoubles).2 oneForm).mpr ⟨by decide, fun fuel fields ok hfields => ?_,
      by decide, by decide⟩⟩
  rw [hparse] at hfields
  cases hfields

/-- A form with the name `a`, whose value is an object with the key `b`. -/
def objectForm : Multipart where
  boundary := text "x"
  parts := [(text "a", [openBrace, quote, 98, quote, colon, quote, quote, closeBrace])]
  boundary_char := forall_of_all (by decide)
  names := by decide
  name_quoted := List.forall_mem_singleton.mpr ⟨by decide, .of_notMem (by decide)⟩
  value_line := List.forall_mem_singleton.mpr ⟨.of_notMem (by decide), by decide⟩

open HttpRequest in
/-- A body that is the key format and one character more: the loop never ends.  A value that is an
object: its key is one of the form. -/
theorem forms_misread :
    (∀ fuel, deserializeBodyFormData fuel (keyFormat ++ [quote]) .null = .running) ∧
    ¬ ∃ fuel json, HttpRequest.parseBody noDoubles fuel objectForm.bytes = .ok json ∧
      objectForm.Holds json := by
  refine ⟨fun fuel => ?_, fun hholds => ?_⟩
  · have hbegin : keyFormat <+: keyFormat ++ [quote] := List.prefix_append _ _
    refine form_runs (fun hthrows => ?_) hbegin fuel .null
    have hlength := congrArg List.length ((formThrows_of_begin hbegin).mp hthrows)
    rw [List.length_append, List.length_singleton] at hlength
    omega
  · have hparse : parse noDoubles 4 objectForm.bytes =
        some (.object [([98], .string [])], true) := rfl
    have hkey := ((holds_iff_of_parts (List.cons_ne_nil _ _)).mp hholds).keys _ _ _ hparse [98]
      List.mem_cons_self
    exact absurd hkey (by decide)

end Multipart

end TradingEngine
