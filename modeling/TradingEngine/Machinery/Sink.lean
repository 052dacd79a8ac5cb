import Mathlib.Data.List.Basic

/-!
# Machinery/Sink — what is written to piece by piece

A sink takes lists one behind the other, or refuses one it has no room for.  A log takes everything;
a buffer takes what fits behind what it has been given (`Buffer.sink_write`).
-/

namespace Sinks

universe u v

variable {α : Type u} {σ : Type v}

/-- Something to write to: two pieces are as good as one. -/
structure Sink (α : Type u) (σ : Type v) where
  write : List α → σ → Option σ
  write_nil : ∀ s, write [] s = some s
  write_append : ∀ x y s, write (x ++ y) s = (write x s).bind (write y)

/-- The sink that keeps everything. -/
def logSink : Sink α (List α) where
  write x s := some (s ++ x)
  write_nil s := congrArg some (List.append_nil s)
  write_append x y s := congrArg some (List.append_assoc s x y).symm

/-- Cells, and the place of the next. -/
@[ext] structure Buffer (α : Type u) (size : ℕ) where
  cells : List α
  pos : ℕ
  length_cells : cells.length = size
  pos_le : pos ≤ size

namespace Buffer

variable {size : ℕ} {b : Buffer α size} {x y : List α}

/-- The cells in front of the place. -/
def written (b : Buffer α size) : List α := b.cells.take b.pos

theorem length_written (b : Buffer α size) : b.written.length = b.pos := by
  rw [written, List.length_take, b.length_cells, Nat.min_eq_left b.pos_le]

/-- The next cells are overwritten. -/
def put (b : Buffer α size) (x : List α) (h : b.pos + x.length ≤ size) : Buffer α size where
  cells := b.written ++ x ++ b.cells.drop (b.pos + x.length)
  pos := b.pos + x.length
  length_cells := by
    rw [List.length_append, List.length_append, length_written, List.length_drop, b.length_cells]
    omega
  pos_le := h

theorem written_put (h : b.pos + x.length ≤ size) : (b.put x h).written = b.written ++ x := by
  have hlength : b.pos + x.length = (b.written ++ x).length := by
    rw [List.length_append, length_written]
  rw [written, put]
  dsimp only
  rw [hlength, List.take_left]

theorem put_put (h : b.pos + x.length ≤ size) (h' : b.pos + x.length + y.length ≤ size)
    (h'' : b.pos + (x ++ y).length ≤ size) :
    (b.put x h).put y h' = b.put (x ++ y) h'' := by
  have hlength : b.pos + x.length = (b.written ++ x).length := by
    rw [List.length_append, length_written]
  have hrest : (b.put x h).cells.drop (b.pos + x.length + y.length) =
      b.cells.drop (b.pos + (x ++ y).length) := by
    rw [put]
    dsimp only
    rw [← List.drop_drop, hlength, List.drop_left, ← hlength, List.drop_drop, List.length_append,
      Nat.add_assoc]
  refine Buffer.ext ?_ ?_
  · change (b.put x h).written ++ y ++ (b.put x h).cells.drop (b.pos + x.length + y.length) = _
    rw [written_put, hrest, List.append_assoc b.written]
    rfl
  · change b.pos + x.length + y.length = b.pos + (x ++ y).length
    rw [List.length_append, Nat.add_assoc]

/-- The sink that refuses what does not fit. -/
def sink : Sink α (Buffer α size) where
  write x b := if h : b.pos + x.length ≤ size then some (b.put x h) else none
  write_nil b := by
    have hfits : b.pos + ([] : List α).length ≤ size := b.pos_le
    rw [dif_pos hfits]
    refine congrArg some (Buffer.ext ?_ rfl)
    change b.cells.take b.pos ++ [] ++ b.cells.drop b.pos = b.cells
    rw [List.append_nil, List.take_append_drop]
  write_append x y b := by
    have hlength := @List.length_append _ x y
    by_cases hx : b.pos + x.length ≤ size
    · rw [dif_pos hx, Option.bind_some]
      change _ = if h : b.pos + x.length + y.length ≤ size then some ((b.put x hx).put y h) else none
      by_cases hy : b.pos + x.length + y.length ≤ size
      · have hxy : b.pos + (x ++ y).length ≤ size := by omega
        rw [dif_pos hxy, dif_pos hy, put_put hx hy hxy]
      · rw [dif_neg (by omega), dif_neg hy]
    · rw [dif_neg hx, dif_neg (by omega)]
      rfl

/-- **What a buffer has been given**, as long as it fits. -/
theorem sink_write (b : Buffer α size) (x : List α) :
    (sink.write x b).map written =
      if b.pos + x.length ≤ size then logSink.write x b.written else none := by
  rw [sink]
  dsimp only
  split_ifs with h
  · exact congrArg some (written_put h)
  · rfl

end Buffer

end Sinks
