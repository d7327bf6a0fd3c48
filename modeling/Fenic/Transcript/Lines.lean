import Fenic.Transcript.Types
import Mathlib.Data.List.TakeWhile

/-!
# `Transcript.Lines` — reading bytes line by line

The offsets at which the parsers read are starts of lines. There the byte operations read the next line, and the
offset after it is the start of the line after that; one past the end they panic.
-/

namespace Fenic

namespace Transcript

open Utf8

variable {input : Str} {pos : Nat} {line : Str} {lines : List Str}

/-- No line has a newline in it. -/
def NoNewline (lines : List Str) : Prop :=
  ∀ line ∈ lines, '\n' ∉ line

theorem NoNewline.tail (h : NoNewline (line :: lines)) : NoNewline lines :=
  fun line' hline => h line' (List.mem_cons_of_mem _ hline)

theorem noNewline_splitOn (text : Str) : NoNewline (text.splitOn '\n') := by
  induction text with
  | nil =>
    intro line hline
    rw [List.splitOn_nil, List.mem_singleton] at hline
    rw [hline]
    exact List.not_mem_nil
  | cons c text ih =>
    rw [List.splitOn_cons_eq_if_modifyHead]
    by_cases hc : c = '\n'
    · rw [if_pos (beq_iff_eq.mpr hc)]
      intro line hline
      rcases List.mem_cons.mp hline with rfl | hline
      · exact List.not_mem_nil
      · exact ih line hline
    · rw [if_neg (fun h => hc (beq_iff_eq.mp h))]
      cases hsplit : text.splitOn '\n' with
      | nil => exact absurd hsplit (List.splitOn_ne_nil _ _)
      | cons first rest =>
        rw [hsplit] at ih
        intro line hline
        rcases List.mem_cons.mp hline with rfl | hline
        · intro hmem
          rcases List.mem_cons.mp hmem with h | h
          · exact hc h.symm
          · exact ih first List.mem_cons_self h
        · exact ih line (List.mem_cons_of_mem _ hline)

theorem takeWhile_append_of_all {p : Char → Bool} {text : Str} (h : ∀ c ∈ text, p c = true) (text' : Str) :
    (text ++ text').takeWhile p = text ++ text'.takeWhile p :=
  List.takeWhile_append_of_pos h

/-! ## One line -/

theorem bytesFrom_lines (h : Lines input pos (line :: lines)) : bytesFrom input pos = .ok (unlines (line :: lines)) := by
  have hend := h.end_le
  unfold bytesFrom
  rw [if_neg (by omega), h]

theorem takeWhile_unlines (hline : '\n' ∉ line) : (unlines (line :: lines)).takeWhile (· ≠ '\n') = line := by
  have hall : ∀ c ∈ line, decide (c ≠ '\n') = true := fun c hc => decide_eq_true fun h => hline (h ▸ hc)
  cases lines with
  | nil =>
    rw [unlines_singleton, ← List.append_nil line, takeWhile_append_of_all hall]
    rfl
  | cons line' lines =>
    rw [unlines_cons line (List.cons_ne_nil _ _), takeWhile_append_of_all hall,
      List.takeWhile_cons_of_neg (by decide), List.append_nil]

theorem lineEnd_lines (h : Lines input pos (line :: lines)) (hline : '\n' ∉ line) :
    lineEnd input pos = .ok (pos + byteLen line) := by
  unfold lineEnd
  rw [bytesFrom_lines h]
  simp only [bind, Except.bind, takeWhile_unlines hline]
  rfl

/-- One past the end there is no line to read. -/
theorem lineEnd_past (h : Lines input pos []) : lineEnd input pos = .error .panic := by
  rw [Lines.nil_iff] at h
  unfold lineEnd bytesFrom
  rw [if_pos (by omega)]
  rfl

theorem fromUtf8_line (h : Lines input pos (line :: lines)) : fromUtf8 input pos (pos + byteLen line) = .ok line := by
  have hend := h.end_le
  unfold fromUtf8
  rw [if_neg (by omega), h.slice_line]

theorem fromUtf8_empty (h : Lines input pos (line :: lines)) : fromUtf8 input pos pos = .ok [] := by
  have hend := h.end_le
  have hslice : slice pos (pos + byteLen []) input = some [] := slice_eq h
  unfold fromUtf8
  rw [if_neg (by omega)]
  rw [byteLen_nil, Nat.add_zero] at hslice
  rw [hslice]

theorem fromUtf8_past (h : Lines input pos []) (stop : Nat) : fromUtf8 input pos stop = .error .panic := by
  rw [Lines.nil_iff] at h
  unfold fromUtf8
  rw [if_pos (by omega)]

theorem strSlice_append (before middle after : Str) :
    strSlice (before ++ (middle ++ after)) (byteLen before) (byteLen before + byteLen middle) = .ok middle := by
  have hslice := slice_eq (dropBytes_append before (middle ++ after))
  unfold strSlice
  rw [byteLen_append, byteLen_append, if_neg (by omega), hslice]

/-! ## Several lines -/

theorem unlines_append {before after : List Str} (hbefore : before ≠ []) (hafter : after ≠ []) :
    unlines (before ++ after) = unlines before ++ '\n' :: unlines after := by
  induction before with
  | nil => exact absurd rfl hbefore
  | cons line before ih =>
    by_cases hnil : before = []
    · subst hnil
      rw [List.singleton_append, unlines_cons line hafter, unlines_singleton]
    · rw [List.cons_append, unlines_cons line (List.append_ne_nil_of_left_ne_nil hnil _), ih hnil,
        unlines_cons line hnil, List.append_assoc, List.cons_append]

/-- The text of the lines that were read. -/
theorem fromUtf8_unlines {before after : List Str} (h : Lines input pos (before ++ after)) (hbefore : before ≠ []) :
    fromUtf8 input pos (pos + byteLen (unlines before)) = .ok (unlines before) := by
  have hdrop : ∃ after', dropBytes pos input = some (unlines before ++ after') := by
    cases before with
    | nil => exact absurd rfl hbefore
    | cons line before =>
      rw [List.cons_append, Lines.cons_iff, ← List.cons_append] at h
      by_cases hafter : after = []
      · subst hafter
        rw [List.append_nil] at h
        exact ⟨[], by rw [List.append_nil]; exact h⟩
      · rw [unlines_append (List.cons_ne_nil _ _) hafter] at h
        exact ⟨_, h⟩
  obtain ⟨after', hdrop⟩ := hdrop
  have hlength := dropBytes_length hdrop
  rw [byteLen_append] at hlength
  unfold fromUtf8
  rw [if_neg (by omega), slice_eq hdrop]

/-! ## Skipping -/

/-- What is left of the lines when leading newlines, carriage returns and blanks are skipped. -/
def skipLines : List Str → List Str
  | [] => []
  | line :: rest =>
    match line.dropWhile isSkipped with
    | [] => if rest = [] then [[]] else skipLines rest
    | c :: line' => (c :: line') :: rest

theorem skipLines_length_le (lines : List Str) : (skipLines lines).length ≤ lines.length := by
  induction lines with
  | nil => exact Nat.le_refl 0
  | cons line rest ih =>
    rw [skipLines]
    split
    · split
      · simp
      · rw [List.length_cons]
        omega
    · exact Nat.le_refl _

theorem NoNewline.skipLines (h : NoNewline lines) : NoNewline (skipLines lines) := by
  induction lines with
  | nil => exact h
  | cons line rest ih =>
    rw [Transcript.skipLines]
    split
    · split
      · intro line' hline'
        rw [List.mem_singleton.mp hline']
        exact List.not_mem_nil
      · exact ih h.tail
    · rename_i c line' hdrop
      intro line'' hline''
      rcases List.mem_cons.mp hline'' with rfl | hline''
      · intro hmem
        rw [← hdrop] at hmem
        exact h line List.mem_cons_self ((List.dropWhile_suffix _).subset hmem)
      · exact h line'' (List.mem_cons_of_mem _ hline'')

theorem byteLen_skipped {text : Str} (h : ∀ c ∈ text, isSkipped c = true) : byteLen text = text.length := by
  induction text with
  | nil => rfl
  | cons c text ih =>
    have hc : c.utf8Size = 1 := by
      have hskipped := h c List.mem_cons_self
      unfold isSkipped at hskipped
      simp only [Bool.or_eq_true, decide_eq_true_eq] at hskipped
      rcases hskipped with (rfl | rfl) | rfl <;> rfl
    rw [byteLen_cons, hc, ih fun c' hc' => h c' (List.mem_cons_of_mem _ hc'), List.length_cons, Nat.add_comm]

theorem skipBytes_of_drop {rest : Str} (h : dropBytes pos input = some rest) :
    skipBytes input pos = pos + byteLen (rest.takeWhile isSkipped) := by
  have hall : ∀ c ∈ rest.takeWhile isSkipped, isSkipped c = true := fun c hc => List.mem_takeWhile_imp hc
  unfold skipBytes
  rw [h, byteLen_skipped hall]

theorem le_skipBytes (input : Str) (pos : Nat) : pos ≤ skipBytes input pos := by
  unfold skipBytes
  split
  · exact Nat.le_add_right _ _
  · exact Nat.le_refl _

theorem dropBytes_skipBytes {rest : Str} (h : dropBytes pos input = some rest) :
    dropBytes (skipBytes input pos) input = some (rest.dropWhile isSkipped) := by
  have hsplit : rest.takeWhile isSkipped ++ rest.dropWhile isSkipped = rest := List.takeWhile_append_dropWhile
  rw [skipBytes_of_drop h, dropBytes_add h]
  have happend := dropBytes_append (rest.takeWhile isSkipped) (rest.dropWhile isSkipped)
  rw [hsplit] at happend
  exact happend

theorem unlines_skipLines {lines : List Str} (h : lines ≠ []) :
    skipLines lines ≠ [] ∧ unlines (skipLines lines) = (unlines lines).dropWhile isSkipped := by
  induction lines with
  | nil => exact absurd rfl h
  | cons line rest ih =>
    rw [skipLines]
    cases hline : line.dropWhile isSkipped with
    | nil =>
      by_cases hrest : rest = []
      · subst hrest
        simp only [if_pos]
        rw [unlines_singleton, unlines_singleton, hline]
        exact ⟨List.cons_ne_nil _ _, rfl⟩
      · -- the newline is skipped too
        simp only [if_neg hrest]
        rw [unlines_cons line hrest, List.dropWhile_append, hline, List.isEmpty_nil, if_pos rfl,
          List.dropWhile_cons_of_pos (by decide)]
        exact ih hrest
    | cons c line' =>
      refine ⟨List.cons_ne_nil _ _, ?_⟩
      by_cases hrest : rest = []
      · subst hrest
        rw [unlines_singleton, unlines_singleton, hline]
      · rw [unlines_cons _ hrest, unlines_cons line hrest, List.dropWhile_append, hline]
        rfl

/-- A blank line behind the lines is still there when the blanks before them are skipped, unless nothing else is. -/
theorem skipLines_snoc {lines : List Str} (hne : lines ≠ []) :
    (skipLines lines = [[]] ∧ skipLines (lines ++ [[]]) = [[]]) ∨
      (skipLines lines ≠ [] ∧ skipLines lines ≠ [[]] ∧ skipLines (lines ++ [[]]) = skipLines lines ++ [[]]) := by
  induction lines with
  | nil => exact absurd rfl hne
  | cons line rest ih =>
    rw [List.cons_append, skipLines, skipLines]
    cases hline : line.dropWhile isSkipped with
    | cons c line' =>
      right
      exact ⟨List.cons_ne_nil _ _, nofun, rfl⟩
    | nil =>
      by_cases hrest : rest = []
      · subst hrest
        exact .inl ⟨rfl, rfl⟩
      · dsimp only
        rw [if_neg hrest, if_neg (List.append_ne_nil_of_left_ne_nil hrest _)]
        exact ih hrest

theorem skipBytes_lines (h : Lines input pos lines) : Lines input (skipBytes input pos) (skipLines lines) := by
  cases lines with
  | nil =>
    have hdrop : dropBytes pos input = none := by
      rw [Lines.nil_iff] at h
      cases hsome : dropBytes pos input with
      | none => rfl
      | some rest =>
        have hlength := dropBytes_length hsome
        omega
    unfold skipBytes skipLines
    rw [hdrop]
    exact h
  | cons line rest =>
    obtain ⟨hne, hskip⟩ := unlines_skipLines (List.cons_ne_nil line rest)
    unfold Lines
    rw [if_neg hne, hskip]
    exact dropBytes_skipBytes (Lines.cons_iff.mp h)

end Transcript

end Fenic
