import TradingEngine.Http.RequestAssembly

/-!
# Http/Lines — texts that are made of lines

A line holds no line end, though it may hold either of its two bytes.  A text that is cut at a line
end is cut behind a line (`cut_crlf`), at an empty line behind the lines that are not empty
(`cut_headEnd_line`), and at the end of a given line behind the first line that ends like it
(`cut_lineEnd`).
-/

namespace TradingEngine

open Ascii

/-- A text without a line end. -/
def OneLine (line : List UInt8) : Prop := ¬ crlf <:+: line

variable {line mark rest t : List UInt8} {c : UInt8}

theorem OneLine.of_notMem (h : cr ∉ line) : OneLine line := fun hin =>
  h (hin.subset List.mem_cons_self)

theorem OneLine.tail (h : OneLine (c :: line)) : OneLine line := fun hin =>
  h (hin.trans (List.suffix_cons c line).isInfix)

/-- **A text is cut at its first line end**, behind its first line. -/
theorem cut_crlf (h : OneLine line) (t : List UInt8) : cut crlf (line ++ (crlf ++ t)) = some (line, t) := by
  induction line with
  | nil =>
    have hpre : crlf <+: cr :: lf :: t := List.prefix_append crlf t
    rw [List.nil_append]
    change cut crlf (cr :: lf :: t) = _
    rw [cut, if_pos hpre]
    rfl
  | cons c line ih =>
    have hpre : ¬ crlf <+: c :: (line ++ (crlf ++ t)) := by
      intro hpre
      obtain ⟨rfl, hlf⟩ := List.cons_prefix_cons.mp hpre
      cases line with
      | nil => exact absurd (List.cons_prefix_cons.mp hlf).1 (by decide)
      | cons d line =>
        obtain ⟨rfl, -⟩ := List.cons_prefix_cons.mp hlf
        exact h (List.prefix_append crlf line).isInfix
    rw [List.cons_append, cut, if_neg hpre, ih h.tail]
    rfl

/-- The last line. -/
theorem cut_crlf_eq_none (h : OneLine line) : cut crlf line = none := by
  cases hcut : cut crlf line with
  | none => rfl
  | some parts =>
    have hsplit := eq_of_cut hcut
    exact absurd ⟨parts.1, parts.2, hsplit.symm⟩ h

/-- Two texts that are cut at the same place have the same first line. -/
theorem eq_of_line_append {line' t' : List UInt8} (h : OneLine line) (h' : OneLine line')
    (heq : line ++ (crlf ++ t) = line' ++ (crlf ++ t')) : line = line' ∧ t = t' := by
  have hcut := cut_crlf h t
  rw [heq, cut_crlf h'] at hcut
  exact ⟨(congrArg Prod.fst (Option.some.inj hcut)).symm,
    (congrArg Prod.snd (Option.some.inj hcut)).symm⟩

/-- **Lines are split at their ends.** -/
theorem splitString_lines {first : List UInt8} {lines : List (List UInt8)} (hfirst : OneLine first)
    (h : ∀ line ∈ lines, OneLine line) :
    splitString crlf (joinLines first lines) = first :: lines :=
  splitString_of_cut ⟨cut_crlf_eq_none hfirst, cut_crlf hfirst⟩ fun line hline =>
    ⟨cut_crlf_eq_none (h line hline), cut_crlf (h line hline)⟩

/-- What a search finds behind a line. -/
def behind (line : List UInt8) (found : List UInt8 × List UInt8) : List UInt8 × List UInt8 :=
  (line ++ (crlf ++ found.1), found.2)

/-- **A search goes over a line** if the mark stands nowhere in it and over none of its end. -/
theorem cut_line (hline : ∀ tail, tail <:+ line → ¬ mark <+: tail ++ (crlf ++ t))
    (hlf : ¬ mark <+: lf :: t) :
    cut mark (line ++ (crlf ++ t)) = (cut mark t).map (behind line) := by
  induction line with
  | nil =>
    have hcr : ¬ mark <+: cr :: lf :: t := hline [] (List.suffix_refl [])
    change cut mark (cr :: lf :: t) = _
    rw [cut, if_neg hcr, cut, if_neg hlf, Option.map_map]
    rfl
  | cons c line ih =>
    have hhere : ¬ mark <+: c :: (line ++ (crlf ++ t)) := hline (c :: line) (List.suffix_refl _)
    rw [List.cons_append, cut, if_neg hhere,
      ih fun tail htail => hline tail (htail.trans (List.suffix_cons c line)), Option.map_map]
    rfl

theorem OneLine.of_suffix {tail : List UInt8} (h : OneLine line) (htail : tail <:+ line) :
    OneLine tail := fun hin => h (hin.trans htail.isInfix)

/-- **The empty line is not in a line**, and not behind it where another one begins. -/
theorem cut_headEnd_line (h : OneLine line) (ht : ¬ crlf <+: t) :
    cut headEnd (line ++ (crlf ++ t)) = (cut headEnd t).map (behind line) := by
  refine cut_line (fun tail htail hpre => ?_) fun hpre => ?_
  · obtain ⟨u, hu⟩ := hpre
    have hempty : [] ++ (crlf ++ (crlf ++ u)) = tail ++ (crlf ++ t) := by
      rw [← hu, headEnd]
      simp only [List.nil_append, List.append_assoc]
    have heq := eq_of_line_append (OneLine.of_notMem List.not_mem_nil) (h.of_suffix htail) hempty
    exact ht (heq.2 ▸ List.prefix_append crlf u)
  · exact absurd (List.cons_prefix_cons.mp hpre).1 (by decide)

/-- **The end of a given line is not in a line** that does not end like it. -/
theorem cut_lineEnd (h : OneLine line) (hcr : cr ∉ mark) (hlf : lf ∉ mark)
    (hmark : ¬ mark <:+ line) :
    cut (mark ++ crlf) (line ++ (crlf ++ t)) = (cut (mark ++ crlf) t).map (behind line) := by
  refine cut_line (fun tail htail hpre => ?_) fun hpre => ?_
  · obtain ⟨u, hu⟩ := hpre
    rw [List.append_assoc] at hu
    have heq := eq_of_line_append (OneLine.of_notMem hcr) (h.of_suffix htail) hu
    exact hmark (heq.1 ▸ htail)
  · cases mark with
    | nil => exact hmark (List.nil_suffix)
    | cons d mark =>
      obtain ⟨rfl, -⟩ := List.cons_prefix_cons.mp hpre
      exact hlf List.mem_cons_self

/-- A longer mark is found where it goes on behind the shorter one. -/
theorem cut_append_mark {more a b s : List UInt8} (h : cut mark s = some (a, more ++ b)) :
    cut (mark ++ more) s = some (a, b) := by
  induction s generalizing a with
  | nil => cases h
  | cons c s ih =>
    rw [cut] at h
    split at h
    · next hpre =>
      obtain ⟨rfl, hdrop⟩ := Prod.mk.inj (Option.some.inj h)
      have heq : c :: s = (mark ++ more) ++ b := by
        rw [List.append_assoc, ← hdrop]
        exact (List.prefix_iff_eq_append.mp hpre).symm
      rw [cut, if_pos ⟨b, heq.symm⟩, heq, List.drop_left]
    · next hpre =>
      obtain ⟨parts, hcut, hparts⟩ := Option.map_eq_some_iff.mp h
      obtain ⟨ha, hb⟩ := Prod.mk.inj hparts
      rw [cut, if_neg fun hlong => hpre ((List.prefix_append mark more).trans hlong),
        ih (a := parts.1) (hb ▸ hcut), Option.map_some, ha]

/-- Where a line begins there is no line end. -/
theorem OneLine.not_prefix (h : OneLine line) (hne : line ≠ []) : ¬ crlf <+: line ++ (crlf ++ t) := by
  rintro ⟨u, hu⟩
  exact hne (eq_of_line_append h (OneLine.of_notMem List.not_mem_nil) hu.symm).1

/-- The first line ends. -/
theorem joinLines_headEnd (line : List UInt8) (lines : List (List UInt8)) (t : List UInt8) :
    ∃ u, joinLines line lines ++ (headEnd ++ t) = line ++ (crlf ++ u) := by
  cases lines with
  | nil =>
    rw [joinLines, List.flatMap_nil, List.append_nil]
    exact ⟨crlf ++ t, rfl⟩
  | cons next lines =>
    rw [joinLines_cons, List.append_assoc, List.append_assoc]
    exact ⟨_, rfl⟩

/-- **The empty line is found behind the lines.** -/
theorem cut_headEnd_lines {first : List UInt8} {lines : List (List UInt8)} (hfirst : OneLine first)
    (h : ∀ line ∈ lines, line ≠ [] ∧ OneLine line) :
    cut headEnd (joinLines first lines ++ (headEnd ++ t)) = some (joinLines first lines, t) := by
  induction lines generalizing first with
  | nil =>
    rw [joinLines, List.flatMap_nil, List.append_nil]
    exact @cut_append_mark crlf _ _ _ _ (cut_crlf hfirst (crlf ++ t))
  | cons line lines ih =>
    obtain ⟨hne, hline⟩ := h line List.mem_cons_self
    have hbegin : ¬ crlf <+: joinLines line lines ++ (headEnd ++ t) := by
      obtain ⟨u, hu⟩ := joinLines_headEnd line lines t
      rw [hu]
      exact hline.not_prefix hne
    rw [joinLines_cons, List.append_assoc, List.append_assoc, cut_headEnd_line hfirst hbegin,
      ih hline fun l hl => h l (List.mem_cons_of_mem line hl)]
    rfl
end TradingEngine
