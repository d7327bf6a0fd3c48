import Mathlib.Data.List.Basic
import Mathlib.Data.List.TakeDrop

/-!
# `Lib.SlidingWindow` — windows of a list

`windows size step xs` are the runs of at most `size` items that begin at the multiples of `step` below the length. When the
step is not larger than the size, two windows that follow each other share what lies between the start of the second and the
end of the first, and the windows without these shared items make up the list.
-/

namespace SlidingWindow

variable {α : Type*}

/-- The number of multiples of `step` below `length`. -/
def count (length step : Nat) : Nat := (length + step - 1) / step

/-- The window with a number. -/
def window (size step : Nat) (xs : List α) (i : Nat) : List α := (xs.drop (i * step)).take size

def windows (size step : Nat) (xs : List α) : List (List α) := (List.range (count xs.length step)).map (window size step xs)

variable {step i : Nat}

theorem lt_count_iff {length : Nat} (hstep : 0 < step) : i < count length step ↔ i * step < length := by
  unfold count
  rw [Nat.lt_iff_add_one_le, Nat.le_div_iff_mul_le hstep, Nat.add_mul, Nat.one_mul]
  omega

theorem length_window_le (size step : Nat) (xs : List α) (i : Nat) : (window size step xs i).length ≤ size :=
  List.length_take_le _ _

variable {size : Nat} {xs : List α}

theorem mem_windows (hstep : 0 < step) {w : List α} :
    w ∈ windows size step xs ↔ ∃ i, i * step < xs.length ∧ window size step xs i = w := by
  unfold windows
  rw [List.mem_map]
  simp only [List.mem_range, lt_count_iff hstep]

theorem window_of_getElem? {w : List α} (h : (windows size step xs)[i]? = some w) :
    window size step xs i = w := by
  unfold windows at h
  obtain ⟨hlt, h⟩ := List.getElem?_eq_some_iff.mp h
  rwa [List.getElem_map, List.getElem_range] at h

/-- What a window shares with the next one. -/
theorem drop_window_eq (size step : Nat) (xs : List α) (i : Nat) :
    (window size step xs i).drop step = (window size step xs (i + 1)).take (size - step) := by
  unfold window
  rw [List.drop_take, List.drop_drop, List.take_take, Nat.add_mul, Nat.one_mul, Nat.min_eq_left (Nat.sub_le _ _)]

/-- It has `size - step` items, unless the first of the two windows is at the end. -/
theorem length_drop_window (hle : step ≤ size) (hin : i * step + size ≤ xs.length) :
    ((window size step xs i).drop step).length = size - step := by
  unfold window
  rw [List.length_drop, List.length_take, List.length_drop]
  omega

/-- The windows up to a number, without what each shares with the one before it. -/
theorem joined_take (hle : step ≤ size) (xs : List α) (k : Nat) :
    window size step xs 0 ++ (List.range k).flatMap (fun i => (window size step xs (i + 1)).drop (size - step)) =
      xs.take (k * step + size) := by
  induction k with
  | zero => simp [window]
  | succ k ih =>
    have hnew : (window size step xs (k + 1)).drop (size - step) = (xs.drop (k * step + size)).take step := by
      unfold window
      have hstart : (k + 1) * step + (size - step) = k * step + size := by
        rw [Nat.add_mul, Nat.one_mul]
        omega
      have hrest : size - (size - step) = step := by omega
      rw [List.drop_take, List.drop_drop, hstart, hrest]
    have hend : (k + 1) * step + size = (k * step + size) + step := by
      rw [Nat.add_mul, Nat.one_mul]
      omega
    rw [List.range_succ, List.flatMap_append, ← List.append_assoc, ih, List.flatMap_singleton, hnew, hend, ← List.take_add]

/-- The windows without what each shares with the one before it make up the list. -/
theorem joined_windows (hstep : 0 < step) (hle : step ≤ size) (xs : List α) :
    (windows size step xs).head?.getD [] ++ ((windows size step xs).tail.flatMap fun w => w.drop (size - step)) = xs := by
  unfold windows
  cases hcount : count xs.length step with
  | zero =>
    have hnone : ¬ 0 < count xs.length step := by omega
    rw [lt_count_iff hstep] at hnone
    have hnil : xs = [] := List.length_eq_zero_iff.mp (by omega)
    rw [hnil]
    rfl
  | succ k =>
    have hend : xs.length ≤ k * step + size := by
      have hlast : ¬ k + 1 < count xs.length step := by omega
      rw [lt_count_iff hstep, Nat.add_mul, Nat.one_mul] at hlast
      omega
    have htail : ((List.range (k + 1)).map (window size step xs)).tail =
        (List.range k).map fun i => window size step xs (i + 1) := by
      rw [List.range_succ_eq_map, List.map_cons, List.tail_cons, List.map_map]
      rfl
    have hhead : ((List.range (k + 1)).map (window size step xs)).head?.getD [] = window size step xs 0 := by
      rw [List.range_succ_eq_map]
      rfl
    rw [htail, hhead, List.flatMap_map, joined_take hle, List.take_of_length_le hend]

end SlidingWindow
