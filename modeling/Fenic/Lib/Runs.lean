import Mathlib.Data.List.SplitBy

/-!
# `Lib.Runs` — lists as runs of equal elements

`encode` writes a list as its maximal runs, each an element with its number. What a scanner does that coalesces equal
elements is then an induction over runs.
-/

namespace Runs

variable {α : Type*} [DecidableEq α]

def encode : List α → List (α × Nat)
  | [] => []
  | a :: l =>
    match encode l with
    | [] => [(a, 1)]
    | (b, n) :: runs => if a = b then (b, n + 1) :: runs else (a, 1) :: (b, n) :: runs

omit [DecidableEq α] in
def decode (runs : List (α × Nat)) : List α := runs.flatMap fun run => List.replicate run.2 run.1

omit [DecidableEq α] in
/-- No run is empty, and neighbouring runs have different elements. -/
structure Canonical (runs : List (α × Nat)) : Prop where
  positive : ∀ run ∈ runs, 0 < run.2
  apart : runs.IsChain fun a b => a.1 ≠ b.1

omit [DecidableEq α] in
@[simp]
theorem decode_nil : decode ([] : List (α × Nat)) = [] := rfl

omit [DecidableEq α] in
theorem decode_cons (a : α) (n : Nat) (runs : List (α × Nat)) :
    decode ((a, n) :: runs) = List.replicate n a ++ decode runs := rfl

omit [DecidableEq α] in
theorem decode_append (l m : List (α × Nat)) : decode (l ++ m) = decode l ++ decode m :=
  List.flatMap_append

theorem decode_encode (l : List α) : decode (encode l) = l := by
  induction l with
  | nil => rfl
  | cons a l ih =>
    rw [encode]
    split
    next h =>
        rw [h] at ih
        rw [← ih]
        rfl
    next b n runs h =>
        rw [h] at ih
        split
        next heq =>
            rw [heq, ← ih, decode_cons, decode_cons, List.replicate_succ, List.cons_append]
        next =>
            rw [← ih, decode_cons]
            rfl

omit [DecidableEq α] in
theorem Canonical.tail {run : α × Nat} {runs : List (α × Nat)} (h : Canonical (run :: runs)) : Canonical runs :=
  ⟨fun r hr => h.positive r (List.mem_cons_of_mem _ hr), h.apart.tail⟩

theorem canonical_encode (l : List α) : Canonical (encode l) := by
  induction l with
  | nil => exact ⟨nofun, List.IsChain.nil⟩
  | cons a l ih =>
    rw [encode]
    split
    next => exact ⟨by simp, List.IsChain.singleton _⟩
    next b n runs h =>
        rw [h] at ih
        split
        next =>
            -- the first run grows, and its element is the same
            refine ⟨fun run hrun => ?_, ?_⟩
            · rcases List.mem_cons.mp hrun with rfl | hrun
              · exact Nat.succ_pos n
              · exact ih.positive run (List.mem_cons_of_mem _ hrun)
            · have hchain := ih.apart
              rw [List.isChain_cons] at hchain ⊢
              exact hchain
        next hne =>
            refine ⟨fun run hrun => ?_, ?_⟩
            · rcases List.mem_cons.mp hrun with rfl | hrun
              · exact Nat.one_pos
              · exact ih.positive run hrun
            · exact List.IsChain.cons_cons hne ih.apart

/-- What `splitBy` makes of a list that is given by its runs. -/
theorem splitBy_decode {runs : List (α × Nat)} (h : Canonical runs) :
    (decode runs).splitBy (fun a b => a == b) = runs.map fun run => List.replicate run.2 run.1 := by
  have hpos : ∀ run ∈ runs, List.replicate run.2 run.1 ≠ [] := by
    intro run hrun heq
    rw [List.replicate_eq_nil_iff] at heq
    exact Nat.ne_of_gt (h.positive run hrun) heq
  refine List.splitBy_flatten ?_ ?_ ?_
  · intro hmem
    obtain ⟨run, hrun, heq⟩ := List.mem_map.mp hmem
    exact hpos run hrun heq
  · intro l hl
    obtain ⟨run, -, rfl⟩ := List.mem_map.mp hl
    exact List.isChain_replicate_of_rel run.2 (beq_self_eq_true run.1)
  · rw [List.isChain_map]
    refine h.apart.imp_of_mem_imp fun a b ha hb hne => ⟨hpos a ha, hpos b hb, ?_⟩
    rw [List.getLast_replicate, List.head_replicate]
    exact beq_eq_false_iff_ne.mpr hne

end Runs
