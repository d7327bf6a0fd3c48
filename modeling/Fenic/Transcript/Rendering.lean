import Fenic.Transcript.Lines
import Mathlib.Data.List.DropRight

/-!
# `Transcript.Rendering` — how written texts are taken apart again

Lines are written with newlines between them, and times with an arrow between them. The operations of the parsers
take them apart where they were put together: `splitOn` at the newlines, `splitArrow` at the arrow, `trim` at the
blanks around it.
-/

namespace Fenic

namespace Transcript

open Utf8

/-! ## Lines -/

variable {lines : List Str}

theorem splitOn_unlines (hne : lines ≠ []) (h : NoNewline lines) :
    (unlines lines).splitOn '\n' = lines := by
  induction lines with
  | nil => exact absurd rfl hne
  | cons line rest ih =>
    have hline : '\n' ∉ line := h line List.mem_cons_self
    by_cases hrest : rest = []
    · subst hrest
      rw [unlines_singleton, splitOn_of_not_mem hline]
    · rw [unlines_cons line hrest, List.splitOn_append_cons_self_of_not_mem hline, ih hrest h.tail]

theorem NoNewline.append {lines' : List Str} (h : NoNewline lines) (h' : NoNewline lines') :
    NoNewline (lines ++ lines') := by
  intro line hline
  rcases List.mem_append.mp hline with hmem | hmem
  · exact h line hmem
  · exact h' line hmem

theorem noNewline_blank (n : Nat) : NoNewline (List.replicate n []) := by
  intro line hline
  rw [List.eq_of_mem_replicate hline]
  exact List.not_mem_nil

theorem noNewline_cons {line : Str} (hline : '\n' ∉ line) (h : NoNewline lines) :
    NoNewline (line :: lines) := by
  intro line' hmem
  rcases List.mem_cons.mp hmem with rfl | hmem
  · exact hline
  · exact h line' hmem

/-! ## Blanks -/

/-- There is no whitespace in the text. -/
def NoBlank (text : Str) : Prop :=
  ∀ c ∈ text, isWhitespace c = false

variable {text : Str}

theorem noBlank_digits (h : AllDigits text) : NoBlank text :=
  fun c hc => (isDigit_props (h c hc)).2.1

variable {c : Char}

theorem trimStart_of_head (h : isWhitespace c = false) (text : Str) : trimStart (c :: text) = c :: text := by
  unfold trimStart
  rw [List.dropWhile_cons_of_neg (by rw [h]; exact Bool.false_ne_true)]

theorem trimEnd_of_last (h : isWhitespace c = false) (text : Str) : trimEnd (text ++ [c]) = text ++ [c] := by
  unfold trimEnd
  rw [List.reverse_append, List.reverse_singleton, List.singleton_append,
    List.dropWhile_cons_of_neg (by rw [h]; exact Bool.false_ne_true), List.reverse_cons, List.reverse_reverse]

theorem NoBlank.trimStart (h : NoBlank text) : trimStart text = text := by
  cases text with
  | nil => rfl
  | cons c text => exact trimStart_of_head (h c List.mem_cons_self) text

theorem NoBlank.trimEnd (h : NoBlank text) : trimEnd text = text := by
  rcases List.eq_nil_or_concat text with rfl | ⟨text', c, rfl⟩
  · rfl
  · rw [List.concat_eq_append] at h ⊢
    exact trimEnd_of_last (h c (List.mem_append_right _ List.mem_cons_self)) text'

theorem NoBlank.trim (h : NoBlank text) : trim text = text := by
  unfold Transcript.trim
  rw [h.trimStart, h.trimEnd]

/-- A blank around a text without whitespace is trimmed. -/
theorem NoBlank.trim_before (h : NoBlank text) : Transcript.trim (' ' :: text) = text := by
  exact h.trim

theorem NoBlank.trim_after (h : NoBlank text) : Transcript.trim (text ++ [' ']) = text := by
  have hstart : Transcript.trimStart (text ++ [' ']) = if text = [] then [] else text ++ [' '] := by
    cases text with
    | nil => rfl
    | cons c text => exact trimStart_of_head (h c List.mem_cons_self) (text ++ [' '])
  unfold Transcript.trim
  rw [hstart]
  by_cases hnil : text = []
  · rw [if_pos hnil, hnil]
    rfl
  · have hend : Transcript.trimEnd (text ++ [' ']) = Transcript.trimEnd text := by
      unfold Transcript.trimEnd
      rw [List.reverse_append, List.reverse_singleton, List.singleton_append, List.dropWhile_cons_of_pos rfl]
    rw [if_neg hnil, hend, h.trimEnd]

/-- A text that starts and ends without whitespace is not trimmed. -/
theorem trim_between {first last : Str} (hfirst : NoBlank first) (hne : first ≠ []) (hlast : NoBlank last)
    (hne' : last ≠ []) (middle : Str) : Transcript.trim (first ++ middle ++ last) = first ++ middle ++ last := by
  cases first with
  | nil => exact absurd rfl hne
  | cons c first =>
    rcases List.eq_nil_or_concat last with rfl | ⟨last', d, rfl⟩
    · exact absurd rfl hne'
    · rw [List.concat_eq_append] at hlast ⊢
      have hd := hlast d (List.mem_append_right _ List.mem_cons_self)
      unfold Transcript.trim
      rw [List.cons_append, List.cons_append, trimStart_of_head (hfirst c List.mem_cons_self), ← List.append_assoc,
        ← List.cons_append, trimEnd_of_last hd]

/-! ## Arrows -/

def arrow : Str :=
  ['-', '-', '>']

theorem splitArrow_cons (hc : c ≠ '-') (text : Str) :
    splitArrow (c :: text) = (splitArrow text).modifyHead (c :: ·) := by
  rw [splitArrow.eq_def]
  split
  · rename_i heq
    cases heq
  · rename_i heq
    exact absurd (List.cons.inj heq).1 hc
  · rename_i heq
    obtain ⟨rfl, rfl⟩ := List.cons.inj heq
    rfl

theorem splitArrow_of_not_mem (h : '-' ∉ text) : splitArrow text = [text] := by
  induction text with
  | nil => rfl
  | cons c text ih =>
    have hc : c ≠ '-' := fun heq => h (heq ▸ List.mem_cons_self)
    rw [splitArrow_cons hc, ih fun hmem => h (List.mem_cons_of_mem _ hmem)]
    rfl

theorem splitArrow_append (h : '-' ∉ text) (text' : Str) :
    splitArrow (text ++ arrow ++ text') = text :: splitArrow text' := by
  induction text with
  | nil => rfl
  | cons c text ih =>
    have hc : c ≠ '-' := fun heq => h (heq ▸ List.mem_cons_self)
    rw [List.cons_append, List.cons_append, splitArrow_cons hc, ih fun hmem => h (List.mem_cons_of_mem _ hmem)]
    rfl

theorem containsArrow_append (text text' : Str) : containsArrow (text ++ arrow ++ text') = true := by
  induction text with
  | nil => rfl
  | cons c text ih =>
    rw [List.cons_append, List.cons_append, containsArrow.eq_def]
    split
    · rename_i heq
      cases heq
    · rfl
    · rename_i heq
      cases heq
      exact ih

theorem containsArrow_iff : containsArrow text = true ↔ arrow <:+: text := by
  constructor
  · intro h
    induction text with
    | nil => cases h
    | cons c text ih =>
      rw [containsArrow.eq_def] at h
      split at h
      · cases h
      · rename_i heq
        rw [heq]
        exact List.IsPrefix.isInfix ⟨_, rfl⟩
      · rename_i heq
        obtain ⟨rfl, rfl⟩ := List.cons.inj heq
        exact (ih h).trans (List.suffix_cons _ _).isInfix
  · rintro ⟨before, after, rfl⟩
    exact containsArrow_append before after

/-! ## Trimming -/

theorem trimStart_suffix (text : Str) : trimStart text <:+ text :=
  List.dropWhile_suffix _

theorem trimEnd_isPrefix (text : Str) : trimEnd text <+: text :=
  List.rdropWhile_prefix isWhitespace text

theorem trim_isInfix (text : Str) : trim text <:+: text :=
  (trimEnd_isPrefix _).isInfix.trans (trimStart_suffix text).isInfix

/-- What is left when blanks are dropped does not start with one. -/
theorem head_trimStart {text' : Str} (h : trimStart text = c :: text') : isWhitespace c = false := by
  have hhead := List.head_dropWhile_not isWhitespace (l := text) (by unfold trimStart at h; rw [h]; exact List.cons_ne_nil _ _)
  unfold trimStart at h
  simp only [h, List.head_cons] at hhead
  exact hhead

theorem trim_trim (text : Str) : trim (trim text) = trim text := by
  have hstart : trimStart (trim text) = trim text := by
    unfold trim
    cases hend : trimEnd (trimStart text) with
    | nil => rfl
    | cons c text' =>
      obtain ⟨after, hafter⟩ := trimEnd_isPrefix (trimStart text)
      rw [hend, List.cons_append] at hafter
      exact trimStart_of_head (head_trimStart hafter.symm) text'
  have hend : trimEnd (trim text) = trim text := List.rdropWhile_idempotent isWhitespace _
  have htrim : trim (trim text) = trimEnd (trimStart (trim text)) := rfl
  rw [htrim, hstart, hend]

theorem trim_eq_nil_iff : trim text = [] ↔ ∀ c ∈ text, isWhitespace c = true := by
  constructor
  · intro h
    have hall : ∀ c ∈ trimStart text, isWhitespace c = true := List.rdropWhile_eq_nil_iff.mp h
    cases hstart : trimStart text with
    | nil => exact List.dropWhile_eq_nil_iff.mp hstart
    | cons c text' =>
      have hblank := hall c (by rw [hstart]; exact List.mem_cons_self)
      rw [head_trimStart hstart] at hblank
      cases hblank
  · intro h
    have hstart : trimStart text = [] := List.dropWhile_eq_nil_iff.mpr h
    unfold trim
    rw [hstart]
    rfl

end Transcript

end Fenic
