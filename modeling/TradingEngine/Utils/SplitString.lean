import TradingEngine.Http.RequestAssembly

/-!
# Utils/SplitString — the loop of `split_string`

The loop keeps its positions in an `int`, computes with them in `size_t`, and begins at minus the
length of the delimiter.  For a text below `2 ^ 31` every position fits (`splitString_eq`), and the
pieces are those between the occurrences from the left: `splitString_spec`.
-/

namespace TradingEngine

open Ascii

namespace Utils

/-! ## The words -/

/-- A value of `size_t`. -/
def toSize (n : ℤ) : ℕ := (n % 2 ^ 64).toNat

/-- A value of `int`. -/
def toInt (n : ℤ) : ℤ := n.bmod (2 ^ 32)

/-- `std::string::npos`. -/
def npos : ℕ := 2 ^ 64 - 1

/-- `find(del, pos)`. -/
def find (del str : List UInt8) (pos : ℕ) : ℕ := (findFrom del pos str).getD npos

/-- `substr(pos, count)`. -/
def substr (str : List UInt8) (pos count : ℕ) : Call (List UInt8) :=
  if str.length < pos then .throws else .ok ((str.drop pos).take count)

/-! ## The loop -/

/-- One turn of the loop, which begins with the `end` of the last one: the piece, and its `end`. -/
def splitTurn (str del : List UInt8) (stop : ℤ) : Call (List UInt8 × ℤ) :=
  let start := toInt (toSize (toSize stop + del.length))
  let stop := toInt (find del str (toSize start))
  if stop ≠ -1 then
    (substr str (toSize start) (toSize (stop - start))).andThen fun piece => .ok (piece, stop)
  else
    -- `str.size() - start >= 0` compares words
    let left := toSize (str.length - toSize start)
    if 0 ≤ left then
      (substr str (toSize start) left).andThen fun piece => .ok (piece, stop)
    else .ok ([], stop)

/-- The loop, with the pieces it has pushed. -/
def splitLoop (str del : List UInt8) : ℕ → ℤ → List (List UInt8) → Call (List (List UInt8))
  | 0, _, _ => .running
  | fuel + 1, stop, res =>
    (splitTurn str del stop).andThen fun turn =>
      if turn.2 ≠ -1 then splitLoop str del fuel turn.2 (res ++ [turn.1])
      else .ok (res ++ [turn.1])

/-- `Utils::split_string`. -/
def splitString (fuel : ℕ) (str del : List UInt8) : Call (List (List UInt8)) :=
  splitLoop str del fuel (toInt (toSize (-1 * del.length))) []

/-! ## The positions -/

section Positions

variable {str del : List UInt8} {start : ℕ}

theorem toSize_natCast {n : ℕ} (h : n < 2 ^ 64) : toSize n = n := by
  rw [toSize]
  omega

theorem toInt_natCast {n : ℕ} (h : n < 2 ^ 31) : toInt n = n := by
  rw [toInt, Int.bmod_def]
  split <;> omega

theorem toInt_npos : toInt npos = -1 := by decide

/-- The first turn begins at the front. -/
theorem toInt_first (n : ℕ) : toInt (toSize (toSize (toInt (toSize (-1 * n))) + n)) = 0 := by
  simp only [toInt, toSize, Int.bmod_def]
  split_ifs <;> omega

/-- The other ones behind the last delimiter. -/
theorem toInt_next {p n : ℕ} (h : p + n < 2 ^ 31) :
    toInt (toSize (toSize p + n)) = (p + n : ℕ) := by
  rw [toSize_natCast (by omega), ← Nat.cast_add, toSize_natCast (by omega), toInt_natCast h]

theorem find_eq (hdel : del ≠ []) (hstart : start ≤ str.length) :
    find del str start =
      ((cut del (str.drop start)).map fun r => start + r.1.length).getD npos := by
  rw [find, findFrom, if_pos hstart, TradingEngine.find, if_neg hdel, Option.map_map]
  rfl

/-- **A turn that finds no delimiter** pushes what is left. -/
theorem splitTurn_none (hdel : del ≠ []) (hstr : str.length < 2 ^ 31) (hstart : start ≤ str.length)
    {stop : ℤ} (hstop : toInt (toSize (toSize stop + del.length)) = start)
    (hcut : cut del (str.drop start) = none) :
    splitTurn str del stop = .ok (str.drop start, -1) := by
  have hsize : toSize start = start := toSize_natCast (by omega)
  have hleft : toSize (str.length - (start : ℤ)) = str.length - start := by
    rw [toSize]
    omega
  have htake : (str.drop start).take (str.length - start) = str.drop start :=
    List.take_of_length_le (by rw [List.length_drop])
  rw [splitTurn, hstop]
  dsimp only
  rw [hsize, find_eq hdel hstart, hcut, Option.map_none, Option.getD_none, toInt_npos,
    if_neg (by simp), hleft, if_pos (Nat.zero_le _), substr, if_neg (Nat.not_lt_of_le hstart),
    htake]
  rfl

/-- **A turn that finds one** pushes what stands in front of it. -/
theorem splitTurn_some (hdel : del ≠ []) (hstr : str.length < 2 ^ 31) (hstart : start ≤ str.length)
    {stop : ℤ} (hstop : toInt (toSize (toSize stop + del.length)) = start)
    {piece rest : List UInt8} (hcut : cut del (str.drop start) = some (piece, rest)) :
    splitTurn str del stop = .ok (piece, (start + piece.length : ℕ)) := by
  have hlength := congrArg List.length (eq_of_cut hcut)
  simp only [List.length_drop, List.length_append] at hlength
  have hsize : toSize start = start := toSize_natCast (by omega)
  have hcount : toSize ((start + piece.length : ℕ) - (start : ℤ)) = piece.length := by
    rw [toSize]
    omega
  have htake : (str.drop start).take piece.length = piece := by
    rw [eq_of_cut hcut, List.append_assoc, List.take_left]
  rw [splitTurn, hstop]
  dsimp only
  rw [hsize, find_eq hdel hstart, hcut, Option.map_some, Option.getD_some]
  dsimp only
  rw [toInt_natCast (by omega), if_pos (by omega), hcount, substr,
    if_neg (Nat.not_lt_of_le hstart), htake]
  rfl

/-- What is behind a delimiter. -/
theorem drop_of_cut {piece rest : List UInt8}
    (hcut : cut del (str.drop start) = some (piece, rest)) :
    str.drop (start + piece.length + del.length) = rest := by
  rw [Nat.add_assoc, ← List.drop_drop, eq_of_cut hcut, ← List.length_append, List.drop_left]

/-- **The loop** pushes the pieces of what is left. -/
theorem splitLoop_eq (hdel : del ≠ []) (hstr : str.length < 2 ^ 31) (hstart : start ≤ str.length)
    {stop : ℤ} (hstop : toInt (toSize (toSize stop + del.length)) = start) {fuel : ℕ}
    (hfuel : str.length - start < fuel) (res : List (List UInt8)) :
    splitLoop str del fuel stop res =
      .ok (res ++ TradingEngine.splitString del (str.drop start)) := by
  induction fuel generalizing start stop res with
  | zero => omega
  | succ fuel ih =>
    rw [splitLoop]
    cases hcut : cut del (str.drop start) with
    | none =>
      rw [splitTurn_none hdel hstr hstart hstop hcut, splitString_none hcut]
      rfl
    | some r =>
      obtain ⟨piece, rest⟩ := r
      have hlength := congrArg List.length (eq_of_cut hcut)
      have hpos := List.length_pos_iff.mpr hdel
      simp only [List.length_drop, List.length_append] at hlength
      rw [splitTurn_some hdel hstr hstart hstop hcut, splitString_some hdel hcut]
      dsimp only [Call.andThen]
      have hbound : start + piece.length + del.length < 2 ^ 31 := by omega
      rw [if_pos (by omega), ih (by omega) (toInt_next hbound) (by omega), drop_of_cut hcut,
        List.append_assoc]
      rfl

/-- **The loop ends**, with the pieces of the text. -/
theorem splitString_eq (hdel : del ≠ []) (hstr : str.length < 2 ^ 31) {fuel : ℕ}
    (hfuel : str.length < fuel) :
    splitString fuel str del = .ok (TradingEngine.splitString del str) := by
  have hfirst := toInt_first del.length
  exact splitLoop_eq hdel hstr (Nat.zero_le _) hfirst (by omega) []

end Positions

end Utils

/-! ## The pieces -/

section Pieces

variable {str del s : List UInt8}

/-- The occurrences of a delimiter, counted from the left: behind one of them the next `skip`
characters are passed over. -/
def countFrom (del : List UInt8) : ℕ → List UInt8 → ℕ
  | _, [] => 0
  | skip + 1, _ :: s => countFrom del skip s
  | 0, c :: s =>
    if del <+: c :: s then 1 + countFrom del (del.length - 1) s else countFrom del 0 s

/-- The non-overlapping occurrences. -/
def occurrences (del s : List UInt8) : ℕ := countFrom del 0 s

theorem countFrom_eq (del : List UInt8) (skip : ℕ) (s : List UInt8) :
    countFrom del skip s = occurrences del (s.drop skip) := by
  induction s generalizing skip with
  | nil => cases skip <;> simp [countFrom, occurrences]
  | cons c s ih =>
    cases skip with
    | zero => rfl
    | succ skip => exact ih skip

theorem occurrences_none (h : cut del s = none) : occurrences del s = 0 := by
  induction s with
  | nil => rfl
  | cons c s ih =>
    rw [cut] at h
    split_ifs at h with hpre
    rw [occurrences, countFrom, if_neg hpre]
    exact ih (Option.map_eq_none_iff.mp h)

theorem occurrences_some (hdel : del ≠ []) {a b : List UInt8} (h : cut del s = some (a, b)) :
    occurrences del s = occurrences del b + 1 := by
  induction s generalizing a with
  | nil => cases h
  | cons c s ih =>
    rw [cut] at h
    split_ifs at h with hpre
    · cases h
      have hpos := List.length_pos_iff.mpr hdel
      have hdrop : (c :: s).drop del.length = s.drop (del.length - 1) := by
        obtain ⟨n, hn⟩ := Nat.exists_eq_succ_of_ne_zero (Nat.ne_of_gt hpos)
        rw [hn]
        rfl
      rw [occurrences, countFrom, if_pos hpre, countFrom_eq, hdrop, Nat.add_comm]
    · obtain ⟨⟨a', b'⟩, hcut, heq⟩ := Option.map_eq_some_iff.mp h
      cases heq
      rw [occurrences, countFrom, if_neg hpre]
      exact ih hcut

/-- What is asked of the pieces of a text. -/
structure SplitAt (del s : List UInt8) (pieces : List (List UInt8)) : Prop where
  joined : del.intercalate pieces = s
  free : ∀ piece ∈ pieces, ¬ del <:+: piece
  length : pieces.length = occurrences del s + 1

/-- **The pieces between the delimiters.** -/
theorem splitAt_splitString (hdel : del ≠ []) (s : List UInt8) :
    SplitAt del s (splitString del s) := by
  induction hn : s.length using Nat.strong_induction_on generalizing s with
  | _ n ih =>
    subst hn
    cases hcut : cut del s with
    | none =>
      rw [splitString_none hcut]
      refine ⟨by simp, fun piece hpiece => ?_, by rw [occurrences_none hcut]; rfl⟩
      rw [List.mem_singleton.mp hpiece]
      exact not_infix_of_cut_eq_none hdel hcut
    | some r =>
      obtain ⟨piece, rest⟩ := r
      obtain ⟨hjoined, hfree, hlength⟩ := ih rest.length (cut_length hdel hcut) rest rfl
      obtain ⟨first, pieces, hpieces⟩ :=
        List.exists_cons_of_ne_nil (splitString_ne_nil del rest)
      rw [splitString_some hdel hcut]
      refine ⟨?_, fun p hp => ?_, ?_⟩
      · rw [hpieces] at hjoined ⊢
        rw [List.intercalate_cons_cons, hjoined, eq_of_cut hcut]
      · rcases List.mem_cons.mp hp with rfl | hrest
        · exact not_infix_of_cut hdel hcut
        · exact hfree p hrest
      · rw [List.length_cons, hlength, occurrences_some hdel hcut]

/-- **`split_string` of a text**: it ends, and its pieces are the text between the delimiters. -/
theorem splitString_spec (hstr : str.length < 2 ^ 31) (hdel : del ≠ []) :
    ∃ pieces, (∀ fuel, str.length < fuel → Utils.splitString fuel str del = .ok pieces) ∧
      SplitAt del str pieces :=
  ⟨splitString del str, fun _ hfuel => Utils.splitString_eq hdel hstr hfuel,
    splitAt_splitString hdel str⟩

/-- A delimiter that overlaps itself. -/
theorem splitString_overlapping :
    ∃ pieces, (∀ fuel, (text "aaabaa").length < fuel →
      Utils.splitString fuel (text "aaabaa") (text "aa") = .ok pieces) ∧
        SplitAt (text "aa") (text "aaabaa") pieces :=
  splitString_spec (by decide) (by decide)

end Pieces

end TradingEngine
