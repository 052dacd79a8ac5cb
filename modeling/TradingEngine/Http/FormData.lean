import TradingEngine.Http.Lines

/-!
# Http/FormData — the form of a body

The loop of `deserialize_body_form_data` looks for the text in front of the first part again and
again.  It ends unless that text is empty (`formLoop_spec`), and it throws if the key format stands
at the end of the body behind a place it comes to.
-/

namespace TradingEngine

open Ascii

/-! ## Searching from a position -/

section Search

variable {needle s : List UInt8} {pos p : ℕ}

theorem find_eq_some (hne : needle ≠ []) (h : find needle s = some p) :
    ∃ a b, cut needle s = some (a, b) ∧ a.length = p ∧ s = a ++ needle ++ b := by
  rw [find, if_neg hne] at h
  obtain ⟨⟨a, b⟩, hcut, rfl⟩ := Option.map_eq_some_iff.mp h
  exact ⟨a, b, hcut, rfl, eq_of_cut hcut⟩

theorem findFrom_le (h : findFrom needle pos s = some p) :
    pos ≤ p ∧ p + needle.length ≤ s.length := by
  rw [findFrom] at h
  split_ifs at h with hpos
  obtain ⟨q, hfind, rfl⟩ := Option.map_eq_some_iff.mp h
  refine ⟨Nat.le_add_right _ _, ?_⟩
  by_cases hne : needle = []
  · subst hne
    rw [find, if_pos rfl] at hfind
    cases hfind
    exact hpos
  · obtain ⟨a, b, -, rfl, hsplit⟩ := find_eq_some hne hfind
    have hlength := congrArg List.length hsplit
    rw [List.length_drop, List.length_append, List.length_append] at hlength
    omega

/-- A text behind the first characters. -/
theorem findFrom_append (front rest : List UInt8) :
    findFrom needle front.length (front ++ rest) = (find needle rest).map (front.length + ·) := by
  rw [findFrom, if_pos (by rw [List.length_append]; exact Nat.le_add_right _ _), List.drop_left]

/-- What is not found is not found farther behind. -/
theorem cut_drop_eq_none (h : cut needle s = none) (k : ℕ) : cut needle (s.drop k) = none := by
  induction k generalizing s with
  | zero => exact h
  | succ k ih =>
    cases s with
    | nil => exact h
    | cons c s =>
      rw [cut] at h
      split at h
      · cases h
      · exact ih (Option.map_eq_none_iff.mp h)

theorem findFrom_eq_none_of_le (hne : needle ≠ []) {later : ℕ} (h : findFrom needle pos s = none)
    (hle : pos ≤ later) : findFrom needle later s = none := by
  rw [findFrom] at h ⊢
  split_ifs with hlater
  · rw [if_pos (hle.trans hlater), find, if_neg hne, Option.map_eq_none_iff,
      Option.map_eq_none_iff] at h
    have hdrop := cut_drop_eq_none h (later - pos)
    rw [List.drop_drop, Nat.add_sub_cancel' hle] at hdrop
    rw [find, if_neg hne, hdrop]
    rfl
  · rfl

end Search

namespace HttpRequest

/-! ## The places of the loop -/

variable {body frame : List UInt8} {s pos : ℕ} {json : Json}

/-- The places from one on that the frame is found at, each behind the one before. -/
inductive FrameAt (body frame : List UInt8) : ℕ → ℕ → Prop
  | refl (s : ℕ) : FrameAt body frame s s
  | next {s s' later : ℕ} (hfind : findFrom frame (s + frame.length) body = some s')
      (h : FrameAt body frame s' later) : FrameAt body frame s later

/-- The next key format from a place on is the end of the body. -/
def KeyAtEnd (body : List UInt8) (s : ℕ) : Prop :=
  ∃ found, findFrom keyFormat s body = some found ∧ found + keyFormat.length = body.length

/-- The text in front of the first key format. -/
def frameOf (body : List UInt8) : List UInt8 :=
  match find keyFormat body with
  | some found => body.take found
  | none => body

theorem keyFormat_ne_nil : keyFormat ≠ [] := by decide

theorem substr_of_le {start : ℕ} {stop : Option ℕ} (h : start ≤ body.length) :
    ∃ part, substr start stop body = .ok part := by
  unfold substr
  rw [if_neg (Nat.not_lt.mpr h)]
  cases stop <;> exact ⟨_, rfl⟩

/-- The value begins within the body. -/
theorem valueStart_le {keyEnd : Option ℕ} (h : keyFormat.length ≤ body.length) :
    ((keyEnd.bind fun keyEnd => findFrom headEnd keyEnd body).map (· + 4)).getD 3 ≤ body.length := by
  cases hfind : keyEnd.bind fun keyEnd => findFrom headEnd keyEnd body with
  | none =>
    have hthree : 3 ≤ keyFormat.length := by decide
    exact hthree.trans h
  | some found =>
    obtain ⟨stop, -, hstop⟩ := Option.bind_eq_some_iff.mp hfind
    exact (findFrom_le hstop).2

theorem formDataLoop_none {fuel : ℕ} (h : findFrom keyFormat s body = none) :
    formDataLoop body frame (fuel + 1) (some s) json = .ok json := by
  rw [formDataLoop, Option.bind_some, h]

/-- **A round** throws if the key format is at the end of the body, and otherwise goes on. -/
theorem formDataLoop_throws {fuel : ℕ} (h : KeyAtEnd body s) :
    formDataLoop body frame (fuel + 1) (some s) json = .throws := by
  obtain ⟨found, hfound, hend⟩ := h
  have hlong : body.length < found + keyFormat.length + 1 := by omega
  rw [formDataLoop, Option.bind_some, hfound]
  dsimp only
  unfold substr
  rw [if_pos hlong]
  rfl

theorem formDataLoop_next {fuel found : ℕ} (hfound : findFrom keyFormat s body = some found)
    (h : ¬ KeyAtEnd body s) : ∃ json',
      formDataLoop body frame (fuel + 1) (some s) json =
        formDataLoop body frame fuel (findFrom frame (s + frame.length) body) json' := by
  obtain ⟨-, hle⟩ := findFrom_le hfound
  have hstart : found + keyFormat.length + 1 ≤ body.length :=
    Nat.lt_of_le_of_ne hle fun hend => h ⟨found, hfound, hend⟩
  obtain ⟨key, hkey⟩ := @substr_of_le body _ (findFrom [quote] (found + keyFormat.length + 1) body)
    hstart
  obtain ⟨value, hvalue⟩ := @substr_of_le body _ (findFrom crlf _ body)
    (@valueStart_le body (findFrom [quote] (found + keyFormat.length + 1) body) (by omega))
  refine ⟨setBodyField json key value, ?_⟩
  rw [formDataLoop, Option.bind_some, hfound]
  dsimp only
  rw [hkey, Call.andThen, hvalue, Call.andThen, Option.bind_some]

/-! ## The whole loop -/

theorem FrameAt.le {later : ℕ} (h : FrameAt body frame s later) : s ≤ later := by
  induction h with
  | refl s => exact le_rfl
  | next hfind h ih => exact (Nat.le_add_right _ _).trans ((findFrom_le hfind).1.trans ih)

/-- Behind a place where no key format follows there is no other. -/
theorem not_keyAtEnd_of_none (h : findFrom keyFormat s body = none) {later : ℕ} (hle : s ≤ later) :
    ¬ KeyAtEnd body later := by
  rintro ⟨found, hfound, -⟩
  rw [findFrom_eq_none_of_le keyFormat_ne_nil h hle] at hfound
  cases hfound

/-- **The loop from a place on**, if the frame is not empty: it throws if one of the places behind
finds the key format at the end, and otherwise returns. -/
theorem formLoop_spec (hframe : frame ≠ []) {fuel : ℕ} (hs : s ≤ body.length)
    (hfuel : body.length < fuel + s) (json : Json) :
    ((∃ later, FrameAt body frame s later ∧ KeyAtEnd body later) ∧
      formDataLoop body frame fuel (some s) json = .throws) ∨
    ((∀ later, FrameAt body frame s later → ¬ KeyAtEnd body later) ∧
      ∃ json', formDataLoop body frame fuel (some s) json = .ok json') := by
  induction fuel generalizing s json with
  | zero => omega
  | succ fuel ih =>
    cases hfound : findFrom keyFormat s body with
    | none =>
      exact .inr ⟨fun later hlater => not_keyAtEnd_of_none hfound hlater.le,
        json, formDataLoop_none hfound⟩
    | some found =>
      obtain ⟨hle, hinside⟩ := findFrom_le hfound
      have hkey : 0 < keyFormat.length := List.length_pos_iff.mpr keyFormat_ne_nil
      have hlong := List.length_pos_iff.mpr hframe
      by_cases hend : KeyAtEnd body s
      · exact .inl ⟨⟨s, .refl s, hend⟩, formDataLoop_throws hend⟩
      obtain ⟨json', hnext⟩ := @formDataLoop_next body frame s json fuel found hfound hend
      rw [hnext]
      cases hframeAt : findFrom frame (s + frame.length) body with
      | none =>
        obtain ⟨n, rfl⟩ := Nat.exists_eq_succ_of_ne_zero (show fuel ≠ 0 by omega)
        refine .inr ⟨fun later hlater => ?_, json', rfl⟩
        cases hlater with
        | refl => exact hend
        | next hfind hlater =>
          rw [hframeAt] at hfind
          cases hfind
      | some s' =>
        have hbehind := findFrom_le hframeAt
        refine (ih (s := s') (by omega) (by omega) json').imp ?_ ?_
        · rintro ⟨⟨later, hlater, hkeyEnd⟩, hthrows⟩
          exact ⟨⟨later, .next hframeAt hlater, hkeyEnd⟩, hthrows⟩
        · rintro ⟨hnever, hok⟩
          refine ⟨fun later hlater => ?_, hok⟩
          cases hlater with
          | refl => exact hend
          | next hfind hlater =>
            rw [hframeAt] at hfind
            cases hfind
            exact hnever later hlater

theorem find_keyFormat_begin (hbegin : keyFormat <+: body) : find keyFormat body = some 0 := by
  obtain ⟨rest, rfl⟩ := hbegin
  have hcut : cut keyFormat ([] ++ (keyFormat ++ rest)) = some ([], rest) :=
    cut_of_notMem_mark List.not_mem_nil _ rest
  rw [find, if_neg keyFormat_ne_nil]
  exact congrArg (Option.map _) hcut

theorem findFrom_nil_zero (body : List UInt8) : findFrom [] 0 body = some 0 := by
  rw [findFrom, if_pos (Nat.zero_le _)]
  rfl

/-- Without a frame the loop stays where it is. -/
theorem formLoop_nil (hbegin : keyFormat <+: body) (hne : body ≠ keyFormat) (fuel : ℕ)
    (json : Json) : formDataLoop body [] fuel (some 0) json = .running := by
  have hfound : findFrom keyFormat 0 body = some 0 := by
    rw [findFrom, if_pos (Nat.zero_le _), List.drop_zero, find_keyFormat_begin hbegin]
    rfl
  have hinside : ¬ KeyAtEnd body 0 := by
    rintro ⟨found, hfound', hend⟩
    rw [hfound] at hfound'
    cases hfound'
    exact hne (hbegin.eq_of_length (by omega)).symm
  have hstay : findFrom [] (0 + ([] : List UInt8).length) body = some 0 := findFrom_nil_zero body
  induction fuel generalizing json with
  | zero => rfl
  | succ fuel ih =>
    obtain ⟨json', hnext⟩ := @formDataLoop_next body [] 0 json fuel 0 hfound hinside
    rw [hnext, hstay]
    exact ih json'

/-! ## The form -/

theorem frameOf_eq {a b : List UInt8} (h : cut keyFormat body = some (a, b)) : frameOf body = a := by
  have hfind : find keyFormat body = some a.length := by
    rw [find, if_neg keyFormat_ne_nil, h]
    rfl
  rw [frameOf, hfind]
  dsimp only
  rw [eq_of_cut h, List.append_assoc, List.take_left]

theorem deserializeBodyFormData_none {fuel : ℕ} (h : find keyFormat body = none) :
    deserializeBodyFormData fuel body json = .ok json := by
  rw [deserializeBodyFormData, h]

theorem deserializeBodyFormData_some {fuel found : ℕ} (h : find keyFormat body = some found) :
    deserializeBodyFormData fuel body json = formDataLoop body (frameOf body) fuel (some 0) json := by
  rw [deserializeBodyFormData, frameOf, h]

/-- The frame is empty if and only if the body begins with the key format. -/
theorem frameOf_eq_nil_iff {found : ℕ} (h : find keyFormat body = some found) :
    frameOf body = [] ↔ keyFormat <+: body := by
  obtain ⟨a, b, hcut, hlength, hsplit⟩ := find_eq_some keyFormat_ne_nil h
  rw [frameOf_eq hcut]
  constructor
  · rintro rfl
    exact ⟨b, hsplit.symm⟩
  · intro hbegin
    rw [find_keyFormat_begin hbegin] at h
    cases h
    exact List.length_eq_zero_iff.mp hlength

/-- An out-of-range position arises. -/
def FormThrows (body : List UInt8) : Prop :=
  ∃ s, FrameAt body (frameOf body) 0 s ∧ KeyAtEnd body s

theorem find_eq_none_of_not_formThrows (h : find keyFormat body = none) :
    ¬ FormThrows body ∧ ¬ keyFormat <+: body := by
  have hnone : findFrom keyFormat 0 body = none := by
    rw [findFrom, if_pos (Nat.zero_le _), List.drop_zero, h]
    rfl
  refine ⟨fun ⟨s, hs, hend⟩ => not_keyAtEnd_of_none hnone hs.le hend, fun hbegin => ?_⟩
  rw [find_keyFormat_begin hbegin] at h
  cases h

/-- Without a frame there is one place. -/
theorem frameAt_nil {later : ℕ} (h : FrameAt body [] s later) (hs : s = 0) : later = 0 := by
  induction h with
  | refl s => exact hs
  | next hfind h ih =>
    subst hs
    rw [show 0 + ([] : List UInt8).length = 0 from rfl, findFrom_nil_zero] at hfind
    exact ih (Option.some.inj hfind).symm

/-- A body that begins with the key format. -/
theorem formThrows_of_begin (hbegin : keyFormat <+: body) : FormThrows body ↔ body = keyFormat := by
  have hfind := find_keyFormat_begin hbegin
  have hfound : findFrom keyFormat 0 body = some 0 := by
    rw [findFrom, if_pos (Nat.zero_le _), List.drop_zero, hfind]
    rfl
  rw [FormThrows, (frameOf_eq_nil_iff hfind).mpr hbegin]
  constructor
  · rintro ⟨s, hs, found, hat, hend⟩
    rw [frameAt_nil hs rfl, hfound] at hat
    cases hat
    exact (hbegin.eq_of_length (by omega)).symm
  · rintro rfl
    exact ⟨0, .refl 0, 0, hfound, Nat.zero_add _⟩

/-- **What the form of a body comes to**: it throws, it is read, or the loop never ends. -/
theorem form_throws (h : FormThrows body) {fuel : ℕ} (hfuel : body.length < fuel) (json : Json) :
    deserializeBodyFormData fuel body json = .throws := by
  cases hfind : find keyFormat body with
  | none => exact absurd h (find_eq_none_of_not_formThrows hfind).1
  | some found =>
    rw [deserializeBodyFormData_some hfind]
    by_cases hframe : frameOf body = []
    · obtain ⟨s, hs, hend⟩ := h
      obtain ⟨n, rfl⟩ := Nat.exists_eq_succ_of_ne_zero (Nat.ne_zero_of_lt hfuel)
      rw [hframe] at hs ⊢
      rw [frameAt_nil hs rfl] at hend
      exact formDataLoop_throws hend
    · refine ((formLoop_spec hframe (Nat.zero_le _) hfuel json).resolve_right ?_).2
      exact fun hnever => h.elim fun s hs => hnever.1 s hs.1 hs.2

theorem form_reads (h : ¬ FormThrows body) (hbegin : ¬ keyFormat <+: body) {fuel : ℕ}
    (hfuel : body.length < fuel) (json : Json) :
    ∃ json', deserializeBodyFormData fuel body json = .ok json' := by
  cases hfind : find keyFormat body with
  | none => exact ⟨json, deserializeBodyFormData_none hfind⟩
  | some found =>
    rw [deserializeBodyFormData_some hfind]
    have hframe := mt (frameOf_eq_nil_iff hfind).mp hbegin
    exact ((formLoop_spec hframe (Nat.zero_le _) hfuel json).resolve_left fun hthrows =>
      h hthrows.1).2

theorem form_runs (h : ¬ FormThrows body) (hbegin : keyFormat <+: body) (fuel : ℕ) (json : Json) :
    deserializeBodyFormData fuel body json = .running := by
  have hfind := find_keyFormat_begin hbegin
  rw [deserializeBodyFormData_some hfind, (frameOf_eq_nil_iff hfind).mpr hbegin]
  exact formLoop_nil hbegin (mt (formThrows_of_begin hbegin).mpr h) fuel json

/-! ## More fuel -/

/-- What the loop comes to does not change with more fuel. -/
theorem formDataLoop_of_le {fuel fuel' : ℕ} {start : Option ℕ}
    (h : formDataLoop body frame fuel start json ≠ .running) (hle : fuel ≤ fuel') :
    formDataLoop body frame fuel' start json = formDataLoop body frame fuel start json := by
  induction fuel generalizing start json fuel' with
  | zero => exact absurd rfl h
  | succ fuel ih =>
    obtain ⟨n, rfl⟩ := Nat.exists_eq_add_of_le' (Nat.le_trans (Nat.le_add_left 1 fuel) hle)
    rw [formDataLoop] at h ⊢
    rw [formDataLoop]
    cases hfound : start.bind fun start => findFrom keyFormat start body with
    | none => rfl
    | some found =>
      rw [hfound] at h
      dsimp only at h ⊢
      cases hkey : substr (found + keyFormat.length + 1)
          (findFrom [quote] (found + keyFormat.length + 1) body) body with
      | running => rfl
      | throws => rfl
      | ok key =>
        rw [hkey] at h
        simp only [Call.andThen] at h ⊢
        split at h
        · exact absurd rfl h
        · rfl
        · exact ih h (Nat.le_of_succ_le_succ hle)

theorem deserializeBodyFormData_of_le {fuel fuel' : ℕ}
    (h : deserializeBodyFormData fuel body json ≠ .running) (hle : fuel ≤ fuel') :
    deserializeBodyFormData fuel' body json = deserializeBodyFormData fuel body json := by
  rw [deserializeBodyFormData] at h ⊢
  rw [deserializeBodyFormData]
  cases hfind : find keyFormat body with
  | none => rfl
  | some found =>
    rw [hfind] at h
    exact formDataLoop_of_le h hle

/-! ## The JSON of a body -/

/-- The form and the raw parameters, behind the parser. -/
theorem parseBody_of_parse {doubles : DoubleText} {fuel : ℕ} {ok : Bool}
    (h : JsonParse.parse doubles fuel body = some (json, ok)) :
    parseBody doubles fuel body = (deserializeBodyFormData fuel body json).andThen fun json =>
      .ok (deserializeBodyRawData body json) := by
  rw [parseBody, h]

/-- **What a body comes to**: its parser and its form have come to an end. -/
theorem parseBody_eq_ok_iff {doubles : DoubleText} {fuel : ℕ} {result : Json} :
    parseBody doubles fuel body = .ok result ↔
      ∃ json ok, JsonParse.parse doubles fuel body = some (json, ok) ∧
        ∃ filled, deserializeBodyFormData fuel body json = .ok filled ∧
          deserializeBodyRawData body filled = result := by
  cases hparse : JsonParse.parse doubles fuel body with
  | none =>
    rw [parseBody, hparse]
    exact iff_of_false nofun nofun
  | some parsed =>
    obtain ⟨json, ok⟩ := parsed
    rw [parseBody_of_parse hparse]
    constructor
    · intro h
      cases hform : deserializeBodyFormData fuel body json with
      | running =>
        rw [hform] at h
        cases h
      | throws =>
        rw [hform] at h
        cases h
      | ok filled =>
        rw [hform] at h
        exact ⟨json, ok, rfl, filled, hform, Call.ok.inj h⟩
    · rintro ⟨_, _, ⟨⟩, filled, hform, rfl⟩
      rw [hform]
      rfl

/-! ## A round of the loop -/

/-- A part of a text by its place. -/
theorem substr_append (a b c : List UInt8) :
    substr a.length (some (a.length + b.length)) (a ++ (b ++ c)) = .ok b := by
  have hle : ¬ (a ++ (b ++ c)).length < a.length := by
    rw [List.length_append]
    omega
  rw [substr, if_neg hle, if_pos (Nat.le_add_right _ _), ← List.length_append, ← List.append_assoc,
    List.take_left, List.drop_left]

theorem findFrom_append_of_cut {needle a b front rest : List UInt8} (hne : needle ≠ [])
    (h : cut needle rest = some (a, b)) :
    findFrom needle front.length (front ++ rest) = some (front.length + a.length) := by
  rw [findFrom_append, find, if_neg hne, h]
  rfl

/-- **A round reads a name and a value.** -/
theorem formDataLoop_part {front name value rest : List UInt8} {fuel : ℕ} (hname : quote ∉ name)
    (hvalue : OneLine value)
    (hkey : findFrom keyFormat s body = some front.length)
    (hbody : body = front ++ (keyFormat ++ quote :: (name ++ quote :: (headEnd ++ (value ++
      (crlf ++ rest)))))) :
    formDataLoop body frame (fuel + 1) (some s) json =
      formDataLoop body frame fuel (findFrom frame (s + frame.length) body)
        (setBodyField json name value) := by
  -- the text in front of the name, and the text in front of the value
  obtain ⟨left, hleft⟩ : ∃ left, left = front ++ (keyFormat ++ [quote]) := ⟨_, rfl⟩
  have hstart : front.length + keyFormat.length + 1 = left.length := by
    rw [hleft, List.length_append, List.length_append, List.length_singleton, Nat.add_assoc]
  have hnameAt : body = left ++ (name ++ (quote :: (headEnd ++ (value ++ (crlf ++ rest))))) := by
    rw [hbody, hleft]
    simp only [List.append_assoc, List.cons_append, List.nil_append]
  have hquoteAt : body = (left ++ name) ++ (quote :: (headEnd ++ (value ++ (crlf ++ rest)))) := by
    rw [hnameAt, List.append_assoc]
  have hvalueAt : body = (left ++ name ++ quote :: headEnd) ++ (value ++ (crlf ++ rest)) := by
    rw [hquoteAt]
    simp only [List.append_assoc, List.cons_append]
  have hkeyEnd : findFrom [quote] left.length body = some (left.length + name.length) := by
    rw [hnameAt]
    exact findFrom_append_of_cut (List.cons_ne_nil _ _) (cut_of_notMem_mark hname [] _)
  have hkeyText : substr left.length (some (left.length + name.length)) body = .ok name := by
    rw [hnameAt]
    exact substr_append left name _
  have hheadEnd : findFrom headEnd (left.length + name.length) body =
      some (left.length + name.length + 1) := by
    have hquote : cut headEnd (quote :: (headEnd ++ (value ++ (crlf ++ rest)))) =
        some ([quote], value ++ (crlf ++ rest)) :=
      cut_of_notMem_mark (s := [quote]) (by decide) [lf, cr, lf] _
    rw [hquoteAt, ← List.length_append]
    exact findFrom_append_of_cut (List.cons_ne_nil _ _) hquote
  have hvalueStart : left.length + name.length + 1 + 4 = (left ++ name ++ quote :: headEnd).length := by
    rw [List.length_append, List.length_append]
    rfl
  have hvalueEnd : findFrom crlf (left ++ name ++ quote :: headEnd).length body =
      some ((left ++ name ++ quote :: headEnd).length + value.length) := by
    rw [hvalueAt]
    exact findFrom_append_of_cut (List.cons_ne_nil _ _) (cut_crlf hvalue rest)
  have hvalueText : substr (left ++ name ++ quote :: headEnd).length
      (some ((left ++ name ++ quote :: headEnd).length + value.length)) body = .ok value := by
    rw [hvalueAt]
    exact substr_append _ value _
  rw [formDataLoop, Option.bind_some, hkey]
  dsimp only
  rw [hstart, hkeyEnd, hkeyText, Call.andThen, Option.bind_some, hheadEnd, Option.map_some,
    Option.getD_some, hvalueStart, hvalueEnd, hvalueText, Call.andThen, Option.bind_some]

end HttpRequest

end TradingEngine
