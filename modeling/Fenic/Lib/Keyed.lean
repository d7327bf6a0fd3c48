import Mathlib.Data.List.Basic

/-!
# `Lib.Keyed` — tables with a primary key

A table is a list of rows under their keys. `get` reads the row of a key, `delete` removes the rows of some keys, `upsert` puts a
row in place of one with its key, and `modify` changes the row of a key; `set` is `upsert` where the order of the keys counts.
For each of the four there is one lemma that says what `get` finds afterwards.
-/

namespace Keyed

variable {κ ρ : Type*} [DecidableEq κ]

def get (rows : List (κ × ρ)) (key : κ) : Option ρ := rows.lookup key

/-- `DELETE ... WHERE`. -/
def delete (p : κ → Prop) [DecidablePred p] (rows : List (κ × ρ)) : List (κ × ρ) :=
  rows.filter (fun entry => ¬ p entry.1)

/-- `INSERT OR REPLACE`. -/
def upsert (key : κ) (row : ρ) (rows : List (κ × ρ)) : List (κ × ρ) := (key, row) :: delete (· = key) rows

/-- `UPDATE ... WHERE` on one key. -/
def modify (key : κ) (f : ρ → ρ) (rows : List (κ × ρ)) : List (κ × ρ) :=
  rows.map fun entry => if entry.1 = key then (entry.1, f entry.2) else entry

/-- The row of a key in its place, or behind the others. -/
def set (key : κ) (row : ρ) : List (κ × ρ) → List (κ × ρ)
  | [] => [(key, row)]
  | (key', row') :: rows => if key' = key then (key', row) :: rows else (key', row') :: set key row rows

theorem get_cons (key key' : κ) (row : ρ) (rows : List (κ × ρ)) :
    get ((key', row) :: rows) key = if key = key' then some row else get rows key := by
  unfold get
  rw [List.lookup_cons]
  by_cases h : key = key'
  · rw [if_pos h, beq_iff_eq.mpr h]
  · rw [if_neg h, beq_eq_false_iff_ne.mpr h]

theorem get_delete (p : κ → Prop) [DecidablePred p] (rows : List (κ × ρ)) (key : κ) :
    get (delete p rows) key = if p key then none else get rows key := by
  induction rows with
  | nil => exact (ite_self _).symm
  | cons entry rows ih =>
    obtain ⟨key', row⟩ := entry
    unfold delete at ih ⊢
    by_cases hp : p key'
    · rw [List.filter_cons_of_neg (by simpa using hp), ih, get_cons]
      by_cases heq : key = key'
      · rw [if_pos (heq ▸ hp), if_pos (heq ▸ hp)]
      · rw [if_neg heq]
    · rw [List.filter_cons_of_pos (by simpa using hp), get_cons, get_cons, ih]
      by_cases heq : key = key'
      · rw [if_pos heq, if_pos heq, if_neg (heq ▸ hp)]
      · rw [if_neg heq, if_neg heq]

theorem get_upsert (key key' : κ) (row : ρ) (rows : List (κ × ρ)) :
    get (upsert key' row rows) key = if key = key' then some row else get rows key := by
  unfold upsert
  rw [get_cons, get_delete]
  by_cases h : key = key'
  · rw [if_pos h, if_pos h]
  · rw [if_neg h, if_neg h, if_neg h]

theorem get_modify (key key' : κ) (f : ρ → ρ) (rows : List (κ × ρ)) :
    get (modify key' f rows) key = if key = key' then (get rows key).map f else get rows key := by
  induction rows with
  | nil => exact (ite_self _).symm
  | cons entry rows ih =>
    obtain ⟨key'', row⟩ := entry
    unfold modify at ih ⊢
    rw [List.map_cons]
    by_cases hmodified : key'' = key'
    · rw [if_pos hmodified, get_cons, get_cons, ih]
      by_cases heq : key = key''
      · rw [if_pos heq, if_pos heq, if_pos (heq.trans hmodified), Option.map_some]
      · rw [if_neg heq, if_neg heq]
    · rw [if_neg hmodified, get_cons, get_cons, ih]
      by_cases heq : key = key''
      · rw [if_pos heq, if_pos heq, if_neg (heq ▸ hmodified)]
      · rw [if_neg heq, if_neg heq]

variable {rows : List (κ × ρ)} {key : κ} {row : ρ}

theorem exists_mem_of_get (h : get rows key = some row) :
    ∃ entry ∈ rows, entry.1 = key := by
  induction rows with
  | nil => cases h
  | cons entry rows ih =>
    obtain ⟨key', row'⟩ := entry
    rw [get_cons] at h
    by_cases heq : key = key'
    · exact ⟨_, List.mem_cons_self, heq.symm⟩
    · rw [if_neg heq] at h
      obtain ⟨entry, hmem, hkey⟩ := ih h
      exact ⟨entry, List.mem_cons_of_mem _ hmem, hkey⟩

/-! ## Tables whose order counts -/

theorem set_cons (key key' : κ) (row row' : ρ) (rows : List (κ × ρ)) :
    set key row ((key', row') :: rows) = if key' = key then (key', row) :: rows else (key', row') :: set key row rows := rfl

theorem get_set (key key' : κ) (row : ρ) (rows : List (κ × ρ)) :
    get (set key' row rows) key = if key = key' then some row else get rows key := by
  induction rows with
  | nil => exact get_cons key key' row []
  | cons entry rows ih =>
    obtain ⟨key₁, row₁⟩ := entry
    rw [set_cons]
    by_cases heq : key₁ = key'
    · subst heq
      rw [if_pos rfl, get_cons, get_cons]
      split <;> rfl
    · rw [if_neg heq, get_cons, get_cons, ih]
      by_cases hkey : key = key₁
      · rw [if_pos hkey, if_pos hkey, if_neg (hkey ▸ heq)]
      · rw [if_neg hkey, if_neg hkey]

theorem set_of_not_mem (h : key ∉ rows.map Prod.fst) :
    set key row rows = rows ++ [(key, row)] := by
  induction rows with
  | nil => rfl
  | cons entry rows ih =>
    rw [List.map_cons, List.mem_cons, not_or] at h
    rw [set_cons, if_neg (Ne.symm h.1), ih h.2]
    rfl

/-- A key that is there keeps its place. -/
theorem keys_set (key : κ) (row : ρ) (rows : List (κ × ρ)) :
    (set key row rows).map Prod.fst = if key ∈ rows.map Prod.fst then rows.map Prod.fst else rows.map Prod.fst ++ [key] := by
  induction rows with
  | nil => rfl
  | cons entry rows ih =>
    obtain ⟨key', row'⟩ := entry
    rw [set_cons]
    by_cases heq : key' = key
    · simp [heq]
    · rw [if_neg heq, List.map_cons, ih, List.map_cons]
      simp only [List.mem_cons, Ne.symm heq, false_or]
      split <;> rfl

theorem nodup_keys_set (h : (rows.map Prod.fst).Nodup) :
    ((set key row rows).map Prod.fst).Nodup := by
  rw [keys_set]
  split
  · exact h
  next hfresh =>
    refine List.nodup_append.mpr ⟨h, by simp, fun key' hkey' key'' hkey'' => ?_⟩
    rintro rfl
    exact hfresh (List.mem_singleton.mp hkey'' ▸ hkey')

theorem mem_of_mem_set {entry : κ × ρ} (h : entry ∈ set key row rows) :
    entry = (key, row) ∨ entry ∈ rows := by
  induction rows with
  | nil => exact Or.inl (List.mem_singleton.mp h)
  | cons entry' rows ih =>
    rw [set_cons] at h
    split at h
    next heq =>
      rcases List.mem_cons.mp h with h | h
      · exact Or.inl (h.trans (congrArg (·, row) heq))
      · exact Or.inr (List.mem_cons_of_mem _ h)
    · rcases List.mem_cons.mp h with rfl | h
      · exact Or.inr List.mem_cons_self
      · rcases ih h with h | h
        · exact Or.inl h
        · exact Or.inr (List.mem_cons_of_mem _ h)

end Keyed
