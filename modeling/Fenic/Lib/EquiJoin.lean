import Mathlib.Data.Multiset.Bind
import Mathlib.Data.Multiset.Filter

/-!
# `Lib.EquiJoin` — relational joins

Joins of two bags of rows, for any relation between their rows: the pairs that match (`inner`), the rows without a match
(`unmatched`), and the joins that keep these (`outer`). `inner_coe` and `unmatched_coe` say how the bags are listed by a
nested loop.
-/

namespace EquiJoin

variable {α β : Type*}

/-- The pairs of matching rows. -/
def inner (p : α → β → Bool) (s : Multiset α) (t : Multiset β) : Multiset (α × β) :=
  (s ×ˢ t).filter fun q => p q.1 q.2 = true

/-- The rows that match no row of the other side. -/
def unmatched (p : α → β → Bool) (s : Multiset α) (t : Multiset β) : Multiset α :=
  s.filter fun x => ∀ y ∈ t, p x y = false

/-- The matching pairs, with the rows of either side that match nothing. -/
def outer (keepLeft keepRight : Bool) (p : α → β → Bool) (s : Multiset α) (t : Multiset β) :
    Multiset (Option α × Option β) :=
  (inner p s t).map (fun q => (some q.1, some q.2)) +
    (if keepLeft then (unmatched p s t).map (fun x => (some x, none)) else 0) +
    (if keepRight then (unmatched (fun y x => p x y) t s).map (fun y => (none, some y)) else 0)

/-- The nested loop over lists. -/
theorem inner_coe (p : α → β → Bool) (xs : List α) (ys : List β) :
    inner p xs ys = (xs.flatMap fun x => (ys.filter (p x)).map (Prod.mk x) : List (α × β)) := by
  rw [inner, Multiset.coe_product, Multiset.filter_coe]
  congr 1
  show (xs.flatMap fun x => ys.map (Prod.mk x)).filter (fun q => decide (p q.1 q.2 = true)) = _
  rw [List.filter_flatMap]
  apply List.flatMap_congr
  intro x _
  rw [List.filter_map]
  congr 1
  apply List.filter_congr
  intro y _
  simp

/-! ## Products of lists -/

theorem product_map {γ δ : Type*} (f : γ → α) (g : δ → β) (xs : List γ) (ys : List δ) :
    xs.map f ×ˢ ys.map g = (xs ×ˢ ys).map (Prod.map f g) := by
  induction xs with
  | nil => rfl
  | cons x xs ih =>
    rw [List.map_cons, List.product_cons, List.product_cons, List.map_append, ih, List.map_map, List.map_map]
    rfl

theorem product_filter (p : α → Bool) (q : β → Bool) (xs : List α) (ys : List β) :
    xs.filter p ×ˢ ys.filter q = (xs ×ˢ ys).filter fun pair => p pair.1 && q pair.2 := by
  induction xs with
  | nil => rfl
  | cons x xs ih =>
    rw [List.product_cons, List.filter_append, ← ih, List.filter_map]
    cases hp : p x with
    | false =>
      have hnone : (ys.filter ((fun pair => p pair.1 && q pair.2) ∘ fun y => (x, y))) = [] :=
        List.filter_eq_nil_iff.mpr fun y _ => by simp [hp]
      rw [List.filter_cons_of_neg (by simp [hp]), hnone]
      rfl
    | true =>
      rw [List.filter_cons_of_pos hp, List.product_cons]
      congr 2
      apply List.filter_congr
      intro y _
      simp [hp]

/-- The pairs that match, in a list of all pairs. -/
theorem inner_product (p : α → β → Bool) (xs : List α) (ys : List β) :
    inner p xs ys = ((xs ×ˢ ys).filter fun pair => p pair.1 pair.2 : List (α × β)) := by
  rw [inner, Multiset.coe_product, Multiset.filter_coe]
  congr 1
  apply List.filter_congr
  intro pair _
  simp

theorem unmatched_coe (p : α → β → Bool) (xs : List α) (ys : List β) :
    unmatched p xs ys = (xs.filter fun x => !ys.any (p x) : List α) := by
  rw [unmatched, Multiset.filter_coe]
  congr 1
  apply List.filter_congr
  intro x _
  rw [Bool.eq_iff_iff]
  simp

end EquiJoin
