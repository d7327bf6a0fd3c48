import Mathlib.Data.List.Basic
import Mathlib.Data.List.Perm.Basic

/-!
# `Lib.PartialJoin` — joins that need not exist

A partial operation that is idempotent, commutative and associative, all of it up to where it is defined, has one value on a
finite set: folding it over a list depends on the elements of the list only (`foldlM_congr`). If it is a least upper bound
for a relation wherever there is an upper bound, then so is the fold (`foldlM_upper`, `foldlM_least`).
-/

namespace PartialJoin

variable {α : Type*}

/-- The laws of a join, where both sides are undefined together. -/
structure Laws (op : α → α → Option α) : Prop where
  idem (a : α) : op a a = some a
  comm (a b : α) : op a b = op b a
  assoc (a b c : α) : (op a b).bind (op · c) = (op b c).bind (op a)

variable {op : α → α → Option α}

namespace Laws

theorem foldlM_cons_swap (h : Laws op) (a b : α) (l : List α) : (b :: l).foldlM op a = (a :: l).foldlM op b := by
  rw [List.foldlM_cons, List.foldlM_cons, h.comm]

/-- Two neighbours can be swapped. -/
theorem bind_right_comm (h : Laws op) (a b c : α) : (op a b).bind (op · c) = (op a c).bind (op · b) := by
  rw [h.assoc, h.assoc, h.comm b c]

variable {l m : List α}

theorem foldlM_perm (h : Laws op) (hperm : l.Perm m) (a : α) : l.foldlM op a = m.foldlM op a := by
  induction hperm generalizing a with
  | nil => rfl
  | cons x _ ih =>
    rw [List.foldlM_cons, List.foldlM_cons]
    exact congrArg _ (funext ih)
  | swap x y l =>
    have hswap : ∀ x y, (x :: y :: l).foldlM op a = ((op a x).bind (op · y)).bind fun b => l.foldlM op b := by
      intro x y
      rw [List.foldlM_cons, Option.bind_assoc]
      rfl
    rw [hswap, hswap, h.bind_right_comm]
  | trans _ _ ih ih' => exact (ih a).trans (ih' a)

variable {a : α}

/-- An element that is there already changes nothing. -/
theorem foldlM_cons_mem (h : Laws op) {x : α} (hx : x ∈ a :: l) : (x :: l).foldlM op a = l.foldlM op a := by
  rcases List.mem_cons.mp hx with rfl | hx
  · rw [List.foldlM_cons, h.idem]
    rfl
  · -- next to its other occurrence, it is joined with itself
    obtain ⟨front, back, rfl⟩ := List.append_of_mem hx
    have hfront : ∀ b, (x :: x :: (front ++ back)).foldlM op b = (x :: (front ++ back)).foldlM op b := by
      intro b
      show (op b x).bind (fun c => (op c x).bind _) = (op b x).bind _
      rw [← Option.bind_assoc, h.assoc, h.idem]
      rfl
    have hperm : (front ++ x :: back).Perm (x :: (front ++ back)) := List.perm_middle
    rw [h.foldlM_perm (hperm.cons x) a, hfront, h.foldlM_perm hperm a]

theorem foldlM_append_of_subset (h : Laws op) (hsub : ∀ x ∈ m, x ∈ a :: l) :
    (m ++ l).foldlM op a = l.foldlM op a := by
  induction m with
  | nil => rfl
  | cons x m ih =>
    rw [← ih fun y hy => hsub y (List.mem_cons_of_mem _ hy)]
    refine h.foldlM_cons_mem ?_
    rcases List.mem_cons.mp (hsub x List.mem_cons_self) with rfl | hx
    · exact List.mem_cons_self
    · exact List.mem_cons_of_mem _ (List.mem_append_right _ hx)

/-- **The fold depends on the elements only**, not on their order or number. -/
theorem foldlM_congr (h : Laws op) {b : α} (hmem : ∀ x, x ∈ a :: l ↔ x ∈ b :: m) :
    l.foldlM op a = m.foldlM op b := by
  have hleft : (b :: m ++ l).foldlM op a = l.foldlM op a := h.foldlM_append_of_subset fun x hx => (hmem x).mpr hx
  have hright : (a :: l ++ m).foldlM op b = m.foldlM op b := h.foldlM_append_of_subset fun x hx => (hmem x).mp hx
  rw [← hleft, ← hright]
  show (b :: (m ++ l)).foldlM op a = (a :: (l ++ m)).foldlM op b
  rw [h.foldlM_cons_swap, h.foldlM_perm (List.perm_append_comm.cons a)]

end Laws

/-! ## Bounds -/

section

variable {le : α → α → Prop}

/-- The fold is above all elements. -/
theorem foldlM_upper (hrefl : ∀ a, le a a) (htrans : ∀ {a b c}, le a b → le b c → le a c)
    (hupper : ∀ {a b c}, op a b = some c → le a c ∧ le b c) {a c : α} {l : List α} (h : l.foldlM op a = some c) :
    ∀ x ∈ a :: l, le x c := by
  induction l generalizing a with
  | nil =>
    cases h
    intro x hx
    rw [List.mem_singleton.mp hx]
    exact hrefl c
  | cons b l ih =>
    obtain ⟨d, hd, h⟩ := Option.bind_eq_some_iff.mp h
    have hall := ih h
    have hdc := hall d List.mem_cons_self
    intro x hx
    rcases List.mem_cons.mp hx with rfl | hx
    · exact htrans (hupper hd).1 hdc
    · rcases List.mem_cons.mp hx with rfl | hx
      · exact htrans (hupper hd).2 hdc
      · exact hall x (List.mem_cons_of_mem _ hx)

/-- Where there is an upper bound of all elements, the fold exists and is below it. -/
theorem foldlM_least (hleast : ∀ {a b u}, le a u → le b u → ∃ c, op a b = some c ∧ le c u) {a u : α} {l : List α}
    (h : ∀ x ∈ a :: l, le x u) : ∃ c, l.foldlM op a = some c ∧ le c u := by
  induction l generalizing a with
  | nil => exact ⟨a, rfl, h a List.mem_cons_self⟩
  | cons b l ih =>
    obtain ⟨d, hd, hdu⟩ := hleast (h a List.mem_cons_self) (h b (List.mem_cons_of_mem _ List.mem_cons_self))
    have hall : ∀ x ∈ d :: l, le x u := by
      intro x hx
      rcases List.mem_cons.mp hx with rfl | hx
      · exact hdu
      · exact h x (List.mem_cons_of_mem _ (List.mem_cons_of_mem _ hx))
    obtain ⟨c, hc, hcu⟩ := ih hall
    refine ⟨c, ?_, hcu⟩
    rw [List.foldlM_cons, hd]
    exact hc

end

end PartialJoin
