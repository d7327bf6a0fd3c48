import Mathlib.Algebra.BigOperators.Group.List.Basic

/-!
# `Lib.Windows` — packing with an overlap

Items with sizes are packed from left to right into windows of a fixed capacity, with separators of a fixed size between them. A
window that cannot take the next item is given out; then items leave it at the front until what is left is at most the overlap and
the next item fits.

Two facts: no window is larger than the capacity (`load_windows_le`), and without an overlap each item of positive size is in exactly
one window, in the order of the items (`flatMap_windows`).
-/

namespace Windows

variable {α : Type*} (size : α → Nat) (separator capacity overlap : Nat)

/-- The separator before an item, if there is something before it. -/
def separatorAfter (contents : List α) : Nat :=
  if contents = [] then 0 else separator

/-- The size of what is in a window, with the separators. -/
def load : List α → Nat
  | [] => 0
  | item :: contents => size item + separatorAfter separator contents + load contents

/-- What is left of a window of the given load, for the next item. -/
def shrink (next : Nat) : List α → Nat → List α × Nat
  | [], current => ([], current)
  | item :: contents, current =>
    if overlap < current ∨ (capacity < current + next ∧ 0 < current) then
      shrink next contents (current - (size item + separatorAfter separator contents))
    else (item :: contents, current)

/-- The windows, from the one that is open and its load. -/
def pack : List α → List α → Nat → List (List α)
  | contents, [], _ => if contents = [] then [] else [contents]
  | contents, item :: items, current =>
    let needed := separatorAfter separator contents
    if capacity < current + size item + needed ∧ contents ≠ [] then
      let rest := shrink size separator capacity overlap (size item + needed) contents current
      contents :: pack (rest.1 ++ [item]) items (rest.2 + (size item + separatorAfter separator rest.1))
    else pack (contents ++ [item]) items (current + (size item + needed))

def windows (items : List α) : List (List α) :=
  pack size separator capacity overlap [] items 0

variable {size separator capacity overlap}

variable {contents : List α}

theorem separatorAfter_of_ne_nil (h : contents ≠ []) : separatorAfter separator contents = separator :=
  if_neg h

theorem load_append_singleton (contents : List α) (item : α) :
    load size separator (contents ++ [item]) =
      load size separator contents + (size item + separatorAfter separator contents) := by
  induction contents with
  | nil => simp [load, separatorAfter]
  | cons head contents ih =>
    rw [List.cons_append, load, load, ih, separatorAfter_of_ne_nil (List.cons_ne_nil head contents),
      separatorAfter_of_ne_nil (List.append_ne_nil_of_right_ne_nil contents (List.cons_ne_nil item []))]
    cases contents with
    | nil =>
      omega
    | cons head' contents =>
      omega

/-- A window without a load holds only items without a size. -/
theorem size_eq_zero_of_load (h : load size separator contents = 0) : ∀ item ∈ contents, size item = 0 := by
  induction contents with
  | nil => exact fun item hmem => absurd hmem List.not_mem_nil
  | cons head contents ih =>
    rw [load] at h
    intro item hmem
    rcases List.mem_cons.mp hmem with rfl | hmem
    · omega
    · exact ih (by omega) item hmem

/-- What is left: the end of the window, with its load, and either nothing or so little that the next item fits. -/
theorem shrink_spec (next : Nat) (contents : List α) :
    let rest := shrink size separator capacity overlap next contents (load size separator contents)
    rest.2 = load size separator rest.1 ∧
      (rest.1 = [] ∨ (rest.2 ≤ overlap ∧ (rest.2 + next ≤ capacity ∨ rest.2 = 0))) := by
  induction contents with
  | nil => exact ⟨rfl, .inl rfl⟩
  | cons item contents ih =>
    rw [shrink]
    split
    next =>
        have hload : load size separator (item :: contents) - (size item + separatorAfter separator contents) =
            load size separator contents := by
          rw [load]
          omega
        rw [hload]
        exact ih
    next hstop =>
        refine ⟨rfl, .inr ?_⟩
        show load size separator (item :: contents) ≤ overlap ∧ _
        omega

/-- What is left is the end of the window. -/
theorem shrink_suffix (next : Nat) (contents : List α) (current : Nat) :
    (shrink size separator capacity overlap next contents current).1 <:+ contents := by
  induction contents generalizing current with
  | nil => exact List.suffix_rfl
  | cons item contents ih =>
    rw [shrink]
    split
    next => exact (ih _).trans (List.suffix_cons item contents)
    next => exact List.suffix_rfl

/-! ## The size of the windows -/

/-- After a window is given out, the next item fits behind what is left of it. -/
theorem load_shrink_le {item : α} (hitem : size item < capacity)
    (hseparator : separator ≤ 1 ∨ ∀ item ∈ contents, 0 < size item) :
    let rest := shrink size separator capacity overlap (size item + separator) contents (load size separator contents)
    load size separator rest.1 + (size item + separatorAfter separator rest.1) ≤ capacity := by
  intro rest
  obtain ⟨hload, hrest⟩ : rest.2 = load size separator rest.1 ∧
      (rest.1 = [] ∨ (rest.2 ≤ overlap ∧ (rest.2 + (size item + separator) ≤ capacity ∨ rest.2 = 0))) :=
    shrink_spec (size item + separator) contents
  have hsuffix : rest.1 <:+ contents := shrink_suffix (size item + separator) contents (load size separator contents)
  by_cases hnil : rest.1 = []
  · rw [hnil]
    simp only [load, separatorAfter, if_true]
    omega
  · have hfits : rest.2 + (size item + separator) ≤ capacity ∨ rest.2 = 0 := (hrest.resolve_left hnil).2
    rw [← hload, separatorAfter_of_ne_nil hnil]
    rcases hfits with hfits | hzero
    · exact hfits
    · rcases hseparator with hsmall | hpositive
      · omega
      · -- items with a size leave no window without a load
        obtain ⟨kept, hmem⟩ := List.exists_mem_of_ne_nil rest.1 hnil
        have hkept : size kept = 0 := size_eq_zero_of_load (hload.symm.trans hzero) kept hmem
        exact absurd (hpositive kept (hsuffix.subset hmem)) (by omega)

/-- Items smaller than the capacity fill no window over it, where a separator is small or every item has a size. -/
theorem load_pack_le {items : List α} (hitems : ∀ item ∈ items, size item < capacity)
    (hcontents : load size separator contents ≤ capacity)
    (hseparator : separator ≤ 1 ∨ ∀ item ∈ contents ++ items, 0 < size item) :
    ∀ window ∈ pack size separator capacity overlap contents items (load size separator contents),
      load size separator window ≤ capacity := by
  induction items generalizing contents with
  | nil =>
    intro window hmem
    rw [pack] at hmem
    split at hmem
    next => exact absurd hmem List.not_mem_nil
    next =>
        rw [List.mem_singleton.mp hmem]
        exact hcontents
  | cons item items ih =>
    have hitem : size item < capacity := hitems item List.mem_cons_self
    have hitems' : ∀ item ∈ items, size item < capacity := fun item hmem => hitems item (List.mem_cons_of_mem _ hmem)
    intro window hmem
    rw [pack] at hmem
    split at hmem
    next hfull =>
        rcases List.mem_cons.mp hmem with rfl | hmem
        · exact hcontents
        · rw [separatorAfter_of_ne_nil hfull.2] at hmem
          set rest := shrink size separator capacity overlap (size item + separator) contents (load size separator contents)
            with hrest
          have hload : rest.2 = load size separator rest.1 := (shrink_spec (size item + separator) contents).1
          have hsuffix : rest.1 <:+ contents := shrink_suffix (size item + separator) contents (load size separator contents)
          have hnext : load size separator (rest.1 ++ [item]) ≤ capacity := by
            rw [load_append_singleton]
            exact load_shrink_le hitem
              (hseparator.imp_right fun hpositive item hmem => hpositive item (List.mem_append_left _ hmem))
          rw [hload, ← load_append_singleton] at hmem
          refine ih hitems' hnext (hseparator.imp_right fun hpositive => ?_) window hmem
          intro item' hmem'
          apply hpositive item'
          rcases List.mem_append.mp hmem' with hkept | hlater
          · rcases List.mem_append.mp hkept with hkept | hlast
            · exact List.mem_append_left _ (hsuffix.subset hkept)
            · rw [List.mem_singleton.mp hlast]
              exact List.mem_append_right _ List.mem_cons_self
          · exact List.mem_append_right _ (List.mem_cons_of_mem _ hlater)
    next hfits =>
        rw [← load_append_singleton] at hmem
        refine ih hitems' ?_ (by simpa only [List.append_assoc, List.singleton_append] using hseparator) window hmem
        rw [load_append_singleton]
        by_cases hnil : contents = []
        · subst hnil
          simp only [load, separatorAfter, if_true]
          omega
        · have hsum : ¬ capacity < load size separator contents + size item + separatorAfter separator contents :=
            fun hfull => hfits ⟨hfull, hnil⟩
          omega

theorem load_windows_le {items : List α} (hitems : ∀ item ∈ items, size item < capacity)
    (hseparator : separator ≤ 1 ∨ ∀ item ∈ items, 0 < size item) :
    ∀ window ∈ windows size separator capacity overlap items, load size separator window ≤ capacity :=
  load_pack_le hitems (Nat.zero_le capacity) hseparator

/-! ## What the windows hold -/

/-- Without an overlap, each item is in one window, up to items without a size: what a function gives for the items of the windows
is what it gives for the items, if it gives nothing for an item without a size. -/
theorem flatMap_pack {β : Type*} {f : α → List β} (hf : ∀ item, size item = 0 → f item = []) (items contents : List α) :
    (pack size separator capacity 0 contents items (load size separator contents)).flatten.flatMap f =
      contents.flatMap f ++ items.flatMap f := by
  induction items generalizing contents with
  | nil =>
    rw [pack]
    split
    next hnil =>
        subst hnil
        rfl
    next => simp
  | cons item items ih =>
    rw [pack]
    dsimp only
    split
    next =>
        set rest := shrink size separator capacity 0 (size item + separatorAfter separator contents) contents
          (load size separator contents)
        obtain ⟨hload, hrest⟩ : rest.2 = load size separator rest.1 ∧ _ :=
          shrink_spec (size item + separatorAfter separator contents) contents
        -- what is left has no load, so nothing of it is given twice
        have hzero : load size separator rest.1 = 0 := by
          rcases hrest with hnil | ⟨hle, -⟩
          · rw [show rest.1 = [] from hnil, load]
          · exact hload.symm.trans (Nat.le_zero.mp hle)
        have hlost : rest.1.flatMap f = [] :=
          List.flatMap_eq_nil_iff.mpr fun kept hmem => hf kept (size_eq_zero_of_load hzero kept hmem)
        rw [hload, ← load_append_singleton, List.flatten_cons, List.flatMap_append, ih, List.flatMap_append, hlost,
          List.nil_append, List.flatMap_cons, List.flatMap_cons, List.flatMap_nil, List.append_nil]
    next =>
        rw [← load_append_singleton, ih, List.flatMap_append, List.append_assoc, List.flatMap_cons, List.flatMap_cons,
          List.flatMap_nil, List.append_nil]

theorem flatMap_windows {β : Type*} {f : α → List β} (hf : ∀ item, size item = 0 → f item = []) (items : List α) :
    (windows size separator capacity 0 items).flatten.flatMap f = items.flatMap f :=
  flatMap_pack hf items []

end Windows
