import Mathlib.Data.List.Basic

/-!
# `Lib.Mask` — items taken out by a mask and put back

A mask says which positions of a list take part. `nonzero` lists these positions, `setAll` writes items to given positions one
after the other, and `spread` lays the items out over the positions of the mask, with nothing on the others. Writing the items
to the positions of the mask is laying them out (`setAll_nonzero`).
-/

namespace Mask

variable {α β : Type*}

/-- The positions that take part, when the first position is `start`. -/
def nonzeroFrom : Nat → List Bool → List Nat
  | _, [] => []
  | start, true :: mask => start :: nonzeroFrom (start + 1) mask
  | start, false :: mask => nonzeroFrom (start + 1) mask

def nonzero (mask : List Bool) : List Nat := nonzeroFrom 0 mask

/-- Items written to positions, a later one over an earlier one. -/
def setAll (xs : List (Option α)) (entries : List (Nat × α)) : List (Option α) :=
  entries.foldl (fun xs entry => xs.set entry.1 (some entry.2)) xs

def spread : List Bool → List α → List (Option α)
  | [], _ => []
  | false :: mask, xs => none :: spread mask xs
  | true :: mask, [] => none :: spread mask []
  | true :: mask, x :: xs => some x :: spread mask xs

theorem length_nonzeroFrom (start : Nat) (mask : List Bool) : (nonzeroFrom start mask).length = mask.count true := by
  induction mask generalizing start with
  | nil => rfl
  | cons b mask ih =>
    cases b with
    | true => rw [nonzeroFrom, List.length_cons, ih, List.count_cons_self]
    | false => rw [nonzeroFrom, ih, List.count_cons_of_ne (by decide)]

theorem length_nonzero (mask : List Bool) : (nonzero mask).length = mask.count true := length_nonzeroFrom 0 mask

@[simp] theorem length_spread (mask : List Bool) (xs : List α) : (spread mask xs).length = mask.length := by
  induction mask generalizing xs with
  | nil => rfl
  | cons b mask ih =>
    cases b with
    | false => exact congrArg (· + 1) (ih xs)
    | true =>
      cases xs with
      | nil => exact congrArg (· + 1) (ih [])
      | cons x xs => exact congrArg (· + 1) (ih xs)

variable {xs : List α}

/-- Behind what is done, the items are laid out over the rest of the mask. -/
theorem setAll_nonzeroFrom (mask : List Bool) (done : List (Option α)) (h : xs.length = mask.count true) :
    setAll (done ++ List.replicate mask.length none) ((nonzeroFrom done.length mask).zip xs) = done ++ spread mask xs := by
  induction mask generalizing done xs with
  | nil => rfl
  | cons b mask ih =>
    have happend : ∀ x : Option α, done ++ x :: List.replicate mask.length none =
        (done ++ [x]) ++ List.replicate mask.length none := fun x => by simp
    have hlength : ∀ x : Option α, done.length + 1 = (done ++ [x]).length := fun x => by simp
    cases b with
    | false =>
      rw [nonzeroFrom, spread, List.length_cons, List.replicate_succ, happend, hlength none, ih _ h]
      simp
    | true =>
      rw [List.count_cons_self] at h
      cases xs with
      | nil => cases h
      | cons x xs =>
        have hset : (done ++ none :: List.replicate mask.length none).set done.length (some x) =
            done ++ some x :: List.replicate mask.length none := by
          rw [List.set_append_right _ _ (Nat.le_refl _), Nat.sub_self, List.set_cons_zero]
        rw [nonzeroFrom, spread, List.zip_cons_cons, List.length_cons, List.replicate_succ, setAll, List.foldl_cons, hset,
          happend, hlength (some x)]
        show setAll _ _ = _
        rw [ih _ (Nat.succ.inj h)]
        simp

variable {mask : List Bool}

theorem setAll_nonzero (h : xs.length = mask.count true) :
    setAll (List.replicate mask.length none) ((nonzero mask).zip xs) = spread mask xs :=
  setAll_nonzeroFrom mask [] h

/-- A position has an item exactly when it takes part. -/
theorem spread_none_iff (h : xs.length = mask.count true) :
    List.Forall₂ (fun b item => item = none ↔ b = false) mask (spread mask xs) := by
  induction mask generalizing xs with
  | nil => exact List.Forall₂.nil
  | cons b mask ih =>
    cases b with
    | false =>
      exact List.Forall₂.cons (by simp) (ih h)
    | true =>
      rw [List.count_cons_self] at h
      cases xs with
      | nil => cases h
      | cons x xs => exact List.Forall₂.cons (by simp) (ih (Nat.succ.inj h))

theorem mem_of_mem_spread {x : α} (h : some x ∈ spread mask xs) : x ∈ xs := by
  induction mask generalizing xs with
  | nil => cases h
  | cons b mask ih =>
    cases b with
    | false => exact ih ((List.mem_cons.mp h).resolve_left (by simp))
    | true =>
      cases xs with
      | nil => exact ih ((List.mem_cons.mp h).resolve_left (by simp))
      | cons y xs =>
        rcases List.mem_cons.mp h with heq | h
        · exact List.mem_cons.mpr (Or.inl (Option.some.inj heq))
        · exact List.mem_cons_of_mem y (ih h)

theorem spread_map (f : α → β) (mask : List Bool) (xs : List α) : spread mask (xs.map f) = (spread mask xs).map (Option.map f) := by
  induction mask generalizing xs with
  | nil => rfl
  | cons b mask ih =>
    cases b with
    | false => exact congrArg (none :: ·) (ih xs)
    | true =>
      cases xs with
      | nil => exact congrArg (none :: ·) (ih [])
      | cons x xs => exact congrArg (some (f x) :: ·) (ih xs)

end Mask
