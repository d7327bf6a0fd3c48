import Mathlib

/-!
# `Lib.NextFit` — greedy packing from left to right

Items with sizes are packed into batches of a fixed capacity. Only the last batch is open: an item that does
not fit closes it and opens the next. The order of the items is kept.

Three facts decide how many batches there are: one, exactly when all items fit together; at most half of the
items, rounded up, when any two fit together; as many as items, when no two neighbours do.
-/

namespace NextFit

variable {α : Type*} (size : α → Nat) (capacity : Nat)

/-- The batches, given the open batch and its load. -/
def pack : List α → Nat → List α → List (List α)
  | [], _, [] => []
  | b :: batch, _, [] => [b :: batch]
  | batch, load, x :: xs =>
    if batch ≠ [] ∧ capacity < load + size x then batch :: pack [x] (size x) xs
    else pack (batch ++ [x]) (load + size x) xs

/-- The batches of a list. -/
def nextFit (xs : List α) : List (List α) :=
  pack size capacity [] 0 xs

variable {size capacity}

variable {batch : List α} {load : Nat}

theorem pack_nil (hbatch : batch ≠ []) : pack size capacity batch load [] = [batch] := by
  cases batch with
  | nil => exact absurd rfl hbatch
  | cons b batch => rfl

variable {x : α} {xs : List α}

theorem pack_cons (batch : List α) (load : Nat) (x : α) (xs : List α) :
    pack size capacity batch load (x :: xs) =
      if batch ≠ [] ∧ capacity < load + size x then batch :: pack size capacity [x] (size x) xs
      else pack size capacity (batch ++ [x]) (load + size x) xs := by
  cases batch <;> rfl

/-- An item that does not fit closes the batch. -/
theorem pack_close (hbatch : batch ≠ [])
    (h : capacity < load + size x) :
    pack size capacity batch load (x :: xs) = batch :: pack size capacity [x] (size x) xs := by
  rw [pack_cons, if_pos ⟨hbatch, h⟩]

theorem pack_add (h : batch = [] ∨ load + size x ≤ capacity) :
    pack size capacity batch load (x :: xs) = pack size capacity (batch ++ [x]) (load + size x) xs := by
  have hopen : ¬ (batch ≠ [] ∧ capacity < load + size x) := by
    rintro ⟨hbatch, hload⟩
    rcases h with h | h
    · exact hbatch h
    · omega
  rw [pack_cons, if_neg hopen]

theorem pack_ne_nil (hbatch : batch ≠ []) (load : Nat) (xs : List α) :
    pack size capacity batch load xs ≠ [] := by
  induction xs generalizing batch load with
  | nil =>
    rw [pack_nil hbatch]
    exact List.cons_ne_nil _ _
  | cons x xs ih =>
    by_cases hfits : load + size x ≤ capacity
    · rw [pack_add (Or.inr hfits)]
      exact ih (List.append_ne_nil_of_left_ne_nil hbatch _) _
    · rw [pack_close hbatch (by omega)]
      exact List.cons_ne_nil _ _

theorem nextFit_ne_nil (h : xs ≠ []) : nextFit size capacity xs ≠ [] := by
  cases xs with
  | nil => exact absurd rfl h
  | cons x xs =>
    exact pack_ne_nil (List.append_ne_nil_of_right_ne_nil _ (List.cons_ne_nil x [])) _ xs

/-! ## The items -/

theorem flatten_pack (batch : List α) (load : Nat) (xs : List α) :
    (pack size capacity batch load xs).flatten = batch ++ xs := by
  induction xs generalizing batch load with
  | nil =>
    cases batch with
    | nil => rfl
    | cons b batch => exact List.flatten_singleton.trans (List.append_nil _).symm
  | cons x xs ih =>
    rw [pack_cons]
    split
    · rw [List.flatten_cons, ih]
      rfl
    · rw [ih, List.append_assoc]
      rfl

/-- The batches hold the items in their order. -/
theorem flatten_nextFit (xs : List α) : (nextFit size capacity xs).flatten = xs := flatten_pack [] 0 xs

theorem ne_nil_of_mem_pack {b : List α} (h : b ∈ pack size capacity batch load xs) :
    b ≠ [] := by
  induction xs generalizing batch load with
  | nil =>
    cases batch with
    | nil => cases h
    | cons x batch =>
      cases List.mem_singleton.mp h
      exact List.cons_ne_nil _ _
  | cons x xs ih =>
    rw [pack_cons] at h
    split at h
    next hclose =>
        rcases List.mem_cons.mp h with rfl | h
        · exact hclose.1
        · exact ih h
    next => exact ih h

theorem ne_nil_of_mem_nextFit {b : List α} (h : b ∈ nextFit size capacity xs) : b ≠ [] := ne_nil_of_mem_pack h

/-! ## One batch -/

theorem pack_length_le_one_iff (hbatch : batch ≠ []) (hload : load ≤ capacity)
    (xs : List α) : (pack size capacity batch load xs).length ≤ 1 ↔ load + (xs.map size).sum ≤ capacity := by
  induction xs generalizing batch load with
  | nil =>
    rw [pack_nil hbatch]
    simpa using hload
  | cons x xs ih =>
    rw [List.map_cons, List.sum_cons]
    by_cases hfits : load + size x ≤ capacity
    · rw [pack_add (Or.inr hfits), ih (List.append_ne_nil_of_left_ne_nil hbatch _) hfits, Nat.add_assoc]
    · have hpos := List.length_pos_iff.mpr (pack_ne_nil (List.cons_ne_nil x []) (size x) xs : pack size capacity _ _ _ ≠ [])
      rw [pack_close hbatch (by omega), List.length_cons]
      omega

/-- All items go into one batch exactly when they fit together. -/
theorem nextFit_length_le_one_iff (hfit : ∀ x ∈ xs, size x ≤ capacity) :
    (nextFit size capacity xs).length ≤ 1 ↔ (xs.map size).sum ≤ capacity := by
  cases xs with
  | nil => simp [nextFit, pack]
  | cons x xs =>
    have hx : size x ≤ capacity := hfit x List.mem_cons_self
    rw [nextFit, pack_add (Or.inl rfl), Nat.zero_add, List.nil_append,
      pack_length_le_one_iff (List.cons_ne_nil x []) hx, List.map_cons, List.sum_cons]

/-! ## Items that fit in pairs -/

/-- With an open batch of one item, the next item joins it; from then on batches close with two items or more. -/
theorem pack_length_pairs (hbatch : batch ≠ []) (load : Nat)
    (hopen : batch.length = 1 → ∀ x ∈ xs, load + size x ≤ capacity)
    (hpairs : ∀ x ∈ xs, ∀ y ∈ xs, size x + size y ≤ capacity) :
    2 * (pack size capacity batch load xs).length ≤ min batch.length 2 + xs.length + 1 := by
  induction xs generalizing batch load with
  | nil =>
    rw [pack_nil hbatch]
    have hpos := List.length_pos_iff.mpr hbatch
    simp only [List.length_cons, List.length_nil]
    omega
  | cons x xs ih =>
    have hpairsRest : ∀ y ∈ xs, ∀ z ∈ xs, size y + size z ≤ capacity :=
      fun y hy z hz => hpairs y (List.mem_cons_of_mem _ hy) z (List.mem_cons_of_mem _ hz)
    have hpos := List.length_pos_iff.mpr hbatch
    by_cases hfits : load + size x ≤ capacity
    · rw [pack_add (Or.inr hfits)]
      have hlong : (batch ++ [x]).length ≠ 1 := by
        rw [List.length_append, List.length_singleton]
        omega
      have hih := ih (List.append_ne_nil_of_left_ne_nil hbatch _) (load + size x) (fun h => absurd h hlong) hpairsRest
      rw [List.length_cons]
      omega
    · -- only a batch of two or more is closed
      have hlong : batch.length ≠ 1 := fun h => hfits (hopen h x List.mem_cons_self)
      rw [pack_close hbatch (by omega), List.length_cons, List.length_cons]
      have hih := ih (List.cons_ne_nil x []) (size x)
        (fun _ y hy => hpairs x List.mem_cons_self y (List.mem_cons_of_mem _ hy)) hpairsRest
      rw [List.length_singleton] at hih
      omega

/-- When any two items fit together, there are at most half as many batches as items. -/
theorem nextFit_length_pairs (hpairs : ∀ x ∈ xs, ∀ y ∈ xs, size x + size y ≤ capacity) :
    2 * (nextFit size capacity xs).length ≤ xs.length + 1 := by
  cases xs with
  | nil => simp [nextFit, pack]
  | cons x xs =>
    rw [nextFit, pack_add (Or.inl rfl), Nat.zero_add, List.nil_append, List.length_cons]
    have hbound := pack_length_pairs (List.cons_ne_nil x []) (size x)
      (fun _ y hy => hpairs x List.mem_cons_self y (List.mem_cons_of_mem _ hy))
      (fun y hy z hz => hpairs y (List.mem_cons_of_mem _ hy) z (List.mem_cons_of_mem _ hz))
    rw [List.length_singleton] at hbound
    omega

/-! ## Items that do not fit in pairs -/

theorem pack_singletons (h : (x :: xs).IsChain (fun y z => capacity < size y + size z)) :
    pack size capacity [x] (size x) xs = (x :: xs).map (fun y => [y]) := by
  induction xs generalizing x with
  | nil => rw [pack_nil (List.cons_ne_nil x [])]; rfl
  | cons y xs ih =>
    obtain ⟨hxy, hrest⟩ := List.isChain_cons_cons.mp h
    rw [pack_close (List.cons_ne_nil x []) hxy, ih hrest]
    rfl

/-- When no two neighbours fit together, every item has a batch of its own. -/
theorem nextFit_singletons (h : xs.IsChain (fun y z => capacity < size y + size z)) :
    nextFit size capacity xs = xs.map (fun y => [y]) := by
  cases xs with
  | nil => rfl
  | cons x xs =>
    rw [nextFit, pack_add (Or.inl rfl), Nat.zero_add, List.nil_append]
    exact pack_singletons h

end NextFit
