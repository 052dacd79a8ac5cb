import Mathlib.Data.List.Basic

/-!
# Machinery/Paths — the place a path leads to

A place in a tree of names is the list of the names from the root on, and a path is a list of moves.
A file system follows a path through directories only; if it gets to the end, it stands where the
path leads as a text (`follow_eq_some`).  This place is seen from the normal form of the path: how
many places it leads up, and the names behind (`location_eq`).
-/

namespace Paths

variable {α : Type*}

/-- One part of a path. -/
inductive Move (α : Type*)
  | stay
  | up
  | into (name : α)
  deriving DecidableEq

/-- The place after a move; the root is its own parent. -/
def Move.apply (place : List α) : Move α → List α
  | .stay => place
  | .up => place.dropLast
  | .into name => place ++ [name]

/-- The place a path leads to. -/
def location (start : List α) (moves : List (Move α)) : List α := moves.foldl Move.apply start

/-- A path is followed: every move is made from a directory. -/
def follow (isDirectory : List α → Bool) : List α → List (Move α) → Option (List α)
  | place, [] => some place
  | place, move :: moves =>
    if isDirectory place then follow isDirectory (move.apply place) moves else none

/-- A move behind a path in normal form. -/
def Move.normalise (path : ℕ × List α) : Move α → ℕ × List α
  | .stay => path
  | .up =>
    match path.2 with
    | [] => (path.1 + 1, [])
    | _ :: _ => (path.1, path.2.dropLast)
  | .into name => (path.1, path.2 ++ [name])

/-- The normal form of a path: first up, then into these names. -/
def normal (moves : List (Move α)) : ℕ × List α := moves.foldl Move.normalise (0, [])

variable {start place rest : List α} {moves : List (Move α)} {isDirectory : List α → Bool}

theorem follow_eq_some (h : follow isDirectory start moves = some place) :
    place = location start moves := by
  induction moves generalizing start with
  | nil => exact (Option.some.inj h).symm
  | cons move moves ih =>
    rw [follow] at h
    split_ifs at h
    exact ih h

/-- The place of a path in normal form. -/
def normalPlace (start : List α) (path : ℕ × List α) : List α :=
  start.take (start.length - path.1) ++ path.2

theorem normalPlace_normalise (start : List α) (path : ℕ × List α) (move : Move α) :
    normalPlace start (move.normalise path) = move.apply (normalPlace start path) := by
  obtain ⟨n, names⟩ := path
  cases move with
  | stay => rfl
  | into name => exact (List.append_assoc _ _ _).symm
  | up =>
    cases names with
    | nil =>
      simp only [normalPlace, Move.normalise, Move.apply, List.append_nil]
      rw [List.dropLast_eq_take, List.length_take, List.take_take]
      congr 1
      omega
    | cons name names =>
      exact (List.dropLast_append_of_ne_nil (List.cons_ne_nil name names)).symm

/-- **Where a path leads** is seen from its normal form. -/
theorem location_eq (start : List α) (moves : List (Move α)) :
    location start moves = normalPlace start (normal moves) := by
  have hfold : ∀ path, moves.foldl Move.apply (normalPlace start path) =
      normalPlace start (moves.foldl Move.normalise path) := by
    induction moves with
    | nil => exact fun _ => rfl
    | cons move moves ih =>
      intro path
      rw [List.foldl_cons, List.foldl_cons, ← normalPlace_normalise]
      exact ih _
  have hstart : normalPlace start (0, []) = start := by
    rw [normalPlace, Nat.sub_zero, List.take_length, List.append_nil]
  rw [location, normal, ← hfold, hstart]

/-- **A path leads below a place** if it goes back down the way it has come up. -/
theorem prefix_location_iff (start rest : List α) (moves : List (Move α)) :
    start ++ rest <+: location start moves ↔
      start.drop (start.length - (normal moves).1) ++ rest <+: (normal moves).2 := by
  have hsplit : start ++ rest = start.take (start.length - (normal moves).1) ++
      (start.drop (start.length - (normal moves).1) ++ rest) := by
    rw [← List.append_assoc, List.take_append_drop]
  rw [location_eq, normalPlace, hsplit]
  exact List.prefix_append_right_inj _

end Paths
