import Mathlib

/-!
# `Lib.Grid` — the integers cut into numbered intervals

A grid numbers consecutive intervals of the integers: interval `k` reaches from `start k` to the start of the next, and `index` is the
number of the interval of a point. Truncation to the start of the interval is idempotent, never above its argument and monotone, whatever
the lengths of the intervals. A coarser grid is a grid over the numbers of a finer one (`Grid.coarsen`).
-/

/-- Consecutive intervals, and the one that each point is in. -/
structure Grid where
  start : Int → Int
  index : Int → Int
  start_lt_succ : ∀ k, start k < start (k + 1)
  start_index_le : ∀ t, start (index t) ≤ t
  lt_start_succ : ∀ t, t < start (index t + 1)

namespace Grid

variable {grid : Grid} {t t' k : Int}

theorem strictMono_start (grid : Grid) : StrictMono grid.start := strictMono_int_of_lt_succ grid.start_lt_succ

/-- A point is in interval `k` exactly when it lies between the starts of `k` and of the next. -/
theorem index_eq (hle : grid.start k ≤ t) (hlt : t < grid.start (k + 1)) : grid.index t = k := by
  have hupper : grid.index t < k + 1 := grid.strictMono_start.lt_iff_lt.mp ((grid.start_index_le t).trans_lt hlt)
  have hlower : k < grid.index t + 1 := grid.strictMono_start.lt_iff_lt.mp (hle.trans_lt (grid.lt_start_succ t))
  omega

theorem index_start (grid : Grid) (k : Int) : grid.index (grid.start k) = k := index_eq le_rfl (grid.start_lt_succ k)

theorem index_mono (h : t ≤ t') : grid.index t ≤ grid.index t' := by
  have hlt : grid.start (grid.index t) < grid.start (grid.index t' + 1) :=
    ((grid.start_index_le t).trans h).trans_lt (grid.lt_start_succ t')
  have := grid.strictMono_start.lt_iff_lt.mp hlt
  omega

/-! ## Truncation -/

def truncate (grid : Grid) (t : Int) : Int := grid.start (grid.index t)

theorem truncate_le (grid : Grid) (t : Int) : grid.truncate t ≤ t := grid.start_index_le t

theorem truncate_truncate (grid : Grid) (t : Int) : grid.truncate (grid.truncate t) = grid.truncate t :=
  congrArg grid.start (grid.index_start _)

theorem truncate_mono (grid : Grid) (h : t ≤ t') : grid.truncate t ≤ grid.truncate t' :=
  grid.strictMono_start.monotone (index_mono h)

/-! ## Making grids -/

/-- The multiples of a length. -/
def multiples (length : Int) (h : 0 < length) : Grid where
  start k := k * length
  index t := t / length
  start_lt_succ k := by
    rw [Int.add_mul]
    omega
  start_index_le t := Int.ediv_mul_le t h.ne'
  lt_start_succ t := Int.lt_ediv_add_one_mul_self t h

/-- The intervals of `coarse`, which is a grid over the interval numbers of `fine`. -/
def coarsen (fine coarse : Grid) : Grid where
  start k := fine.start (coarse.start k)
  index t := coarse.index (fine.index t)
  start_lt_succ k := fine.strictMono_start (coarse.start_lt_succ k)
  start_index_le t := (fine.strictMono_start.monotone (coarse.start_index_le _)).trans (fine.start_index_le t)
  lt_start_succ t := (fine.lt_start_succ t).trans_le (fine.strictMono_start.monotone (coarse.lt_start_succ (fine.index t)))

end Grid
