import Mathlib.Data.List.Infix

/-!
# `Lib.Occurrence` — a word inside a text

The first place at which a word occurs, and splitting a text at every occurrence, from left to right and without overlaps. Putting the word
between some parts and splitting there again gives the parts back exactly if the word does not occur earlier than it was put
(`split_intercalate_iff`).
-/

namespace Occurrence

variable {α : Type*} [DecidableEq α]

/-- What is before the first occurrence of a word, and what is after it. -/
def splitFirst (word : List α) : List α → Option (List α × List α)
  | [] => if word = [] then some ([], []) else none
  | c :: text =>
    if word <+: c :: text then some ([], (c :: text).drop word.length)
    else (splitFirst word text).map fun parts => (c :: parts.1, parts.2)

variable {word text before after : List α}

theorem splitFirst_nil (word : List α) : splitFirst word [] = if word = [] then some ([], []) else none := rfl

theorem splitFirst_cons (word : List α) (c : α) (text : List α) :
    splitFirst word (c :: text) = if word <+: c :: text then some ([], (c :: text).drop word.length)
      else (splitFirst word text).map fun parts => (c :: parts.1, parts.2) := rfl

theorem splitFirst_of_isPrefix (h : word <+: text) : splitFirst word text = some ([], text.drop word.length) := by
  cases text with
  | nil =>
    rw [List.prefix_nil] at h
    rw [splitFirst_nil, if_pos h, List.drop_nil]
  | cons c text => rw [splitFirst_cons, if_pos h]

theorem splitFirst_cons_of_not {c : α} (h : ¬ word <+: c :: text) :
    splitFirst word (c :: text) = (splitFirst word text).map fun parts => (c :: parts.1, parts.2) := by
  rw [splitFirst_cons, if_neg h]

/-- The first occurrence is the one that is found. -/
theorem splitFirst_first (h : splitFirst word text = some (before, after)) :
    text = before ++ (word ++ after) ∧ ∀ before' after', text = before' ++ (word ++ after') → before.length ≤ before'.length := by
  induction text generalizing before with
  | nil =>
    rw [splitFirst_nil] at h
    split at h
    next hword =>
        cases h
        exact ⟨by rw [hword]; rfl, fun _ _ _ => Nat.zero_le _⟩
    next => cases h
  | cons c text ih =>
    by_cases hprefix : word <+: c :: text
    · rw [splitFirst_of_isPrefix hprefix] at h
      cases h
      have htext : c :: text = [] ++ (word ++ (c :: text).drop word.length) :=
        (List.prefix_iff_eq_append.mp hprefix).symm
      exact ⟨htext, fun _ _ _ => Nat.zero_le _⟩
    · rw [splitFirst_cons_of_not hprefix] at h
      obtain ⟨parts, hparts, heq⟩ := Option.map_eq_some_iff.mp h
      cases heq
      obtain ⟨htext, hfirst⟩ := ih hparts
      have hcons : c :: text = (c :: parts.1) ++ (word ++ parts.2) := by rw [List.cons_append, ← htext]
      refine ⟨hcons, ?_⟩
      intro before' after' heq
      cases before' with
      | nil => exact absurd ⟨after', heq.symm⟩ hprefix
      | cons c' before' =>
        exact Nat.succ_le_succ (hfirst before' after' (List.cons.inj heq).2)

/-- A word that is not found does not occur. -/
theorem splitFirst_eq_none : splitFirst word text = none ↔ ¬ word <:+: text := by
  induction text with
  | nil =>
    rw [splitFirst_nil, List.infix_nil]
    by_cases hword : word = []
    · simp [hword]
    · simp [hword]
  | cons c text ih =>
    rw [List.infix_cons_iff, not_or]
    by_cases hprefix : word <+: c :: text
    · rw [splitFirst_of_isPrefix hprefix]
      exact iff_of_false nofun fun h => h.1 hprefix
    · rw [splitFirst_cons_of_not hprefix, Option.map_eq_none_iff, ih]
      exact (and_iff_right hprefix).symm

theorem splitFirst_eq_some : splitFirst word text = some (before, after) ↔
    text = before ++ (word ++ after) ∧ ∀ before' after', text = before' ++ (word ++ after') → before.length ≤ before'.length := by
  constructor
  · exact splitFirst_first
  · rintro ⟨htext, hfirst⟩
    cases hfound : splitFirst word text with
    | none =>
      refine absurd ⟨before, after, ?_⟩ (splitFirst_eq_none.mp hfound)
      rw [htext, List.append_assoc]
    | some parts =>
      obtain ⟨htext', hfirst'⟩ := splitFirst_first hfound
      -- both are first, so they are as long
      have hlength := Nat.le_antisymm (hfirst _ _ htext') (hfirst' _ _ htext)
      obtain ⟨hbefore, hrest⟩ := List.append_inj (htext.symm.trans htext') hlength
      rw [hbefore, List.append_cancel_left hrest]

/-- Whether a word occurs first at some place depends on the text up to its end only. -/
theorem splitFirst_append (h : splitFirst word (before ++ word) = some (before, [])) (after : List α) :
    splitFirst word (before ++ (word ++ after)) = some (before, after) := by
  obtain ⟨-, hfirst⟩ := splitFirst_eq_some.mp h
  refine splitFirst_eq_some.mpr ⟨rfl, ?_⟩
  intro before' after' heq
  by_contra hlt
  have hprefix : before' ++ word <+: before ++ word := by
    have hwhole : before' ++ word <+: before ++ (word ++ after) := ⟨after', by rw [heq, List.append_assoc]⟩
    rw [← List.append_assoc] at hwhole
    refine List.prefix_of_prefix_length_le hwhole (List.prefix_append _ _) ?_
    rw [List.length_append, List.length_append]
    omega
  obtain ⟨rest, hrest⟩ := hprefix
  have hle := hfirst before' rest (by rw [← hrest, List.append_assoc])
  omega

theorem splitFirst_append_iff : splitFirst word (before ++ (word ++ after)) = some (before, after) ↔
    splitFirst word (before ++ word) = some (before, []) := by
  refine ⟨fun h => ?_, fun h => splitFirst_append h after⟩
  obtain ⟨-, hfirst⟩ := splitFirst_eq_some.mp h
  refine splitFirst_eq_some.mpr ⟨by rw [List.append_nil], ?_⟩
  intro before' after' heq
  refine hfirst before' (after' ++ after) ?_
  rw [← List.append_assoc, heq, List.append_assoc, List.append_assoc]

/-- A word occurs too early behind a part exactly if it occurs in the part, or a piece of it at the end of the part is completed by a
beginning of the word. -/
theorem splitFirst_overlap : splitFirst word (before ++ word) = some (before, []) ↔
    ∀ piece, piece ≠ [] → piece <:+ before → ¬ word <+: piece ++ word := by
  rw [splitFirst_eq_some, and_iff_right (by rw [List.append_nil])]
  constructor
  · rintro h piece hne ⟨front, rfl⟩ ⟨after', hafter⟩
    have hle := h front after' (by rw [List.append_assoc, hafter])
    rw [List.length_append] at hle
    have hpositive := List.length_pos_of_ne_nil hne
    omega
  · intro h before' after' heq
    by_contra hlt
    have hlt := Nat.lt_of_not_le hlt
    have hprefix : before' <+: before :=
      List.prefix_of_prefix_length_le ⟨word ++ after', heq.symm⟩ (List.prefix_append _ _) (Nat.le_of_lt hlt)
    obtain ⟨piece, rfl⟩ := hprefix
    rw [List.append_assoc] at heq
    refine h piece ?_ ⟨before', rfl⟩ ⟨after', (List.append_cancel_left heq).symm⟩
    rintro rfl
    rw [List.append_nil] at hlt
    exact Nat.lt_irrefl _ hlt

/-! ## Splitting -/

/-- The pieces between the occurrences of a word; some letters of the occurrence before are still to be skipped. -/
def splitSkip (word : List α) : Nat → List α → List (List α)
  | _, [] => [[]]
  | skip + 1, _ :: text => splitSkip word skip text
  | 0, c :: text =>
    if word <+: c :: text then [] :: splitSkip word (word.length - 1) text
    else (splitSkip word 0 text).modifyHead (c :: ·)

/-- The pieces of a text between the occurrences of a word, from left to right and without overlaps. -/
def split (word text : List α) : List (List α) :=
  splitSkip word 0 text

theorem splitSkip_eq (skip : Nat) (text : List α) : splitSkip word skip text = split word (text.drop skip) := by
  induction text generalizing skip with
  | nil =>
    cases skip with
    | zero => rfl
    | succ skip => rfl
  | cons c text ih =>
    cases skip with
    | zero => rfl
    | succ skip => exact ih skip

/-- The first piece ends at the first occurrence, the others are those of the text after it. -/
theorem split_of_splitFirst (hword : word ≠ []) (h : splitFirst word text = some (before, after)) :
    split word text = before :: split word after := by
  induction text generalizing before with
  | nil =>
    rw [splitFirst_nil, if_neg hword] at h
    cases h
  | cons c text ih =>
    by_cases hprefix : word <+: c :: text
    · rw [splitFirst_of_isPrefix hprefix] at h
      cases h
      obtain ⟨d, rest, rfl⟩ := List.exists_cons_of_ne_nil hword
      unfold split
      rw [splitSkip, if_pos hprefix, splitSkip_eq]
      rfl
    · rw [splitFirst_cons_of_not hprefix] at h
      obtain ⟨parts, hparts, heq⟩ := Option.map_eq_some_iff.mp h
      cases heq
      have hrest := ih hparts
      unfold split at hrest ⊢
      rw [splitSkip, if_neg hprefix, hrest]
      rfl

theorem split_of_absent (h : ¬ word <:+: text) : split word text = [text] := by
  induction text with
  | nil => rfl
  | cons c text ih =>
    rw [List.infix_cons_iff, not_or] at h
    have hrest := ih h.2
    unfold split at hrest ⊢
    rw [splitSkip, if_neg h.1, hrest]
    rfl

theorem split_ne_nil (hword : word ≠ []) (text : List α) : split word text ≠ [] := by
  cases hfound : splitFirst word text with
  | none =>
    rw [split_of_absent (splitFirst_eq_none.mp hfound)]
    exact List.cons_ne_nil _ _
  | some parts =>
    rw [split_of_splitFirst hword hfound]
    exact List.cons_ne_nil _ _

/-- The word does not occur before the places at which it is put between the parts. -/
def Separates (word : List α) : List (List α) → Prop
  | [] => False
  | [last] => ¬ word <:+: last
  | part :: rest => splitFirst word (part ++ word) = some (part, []) ∧ Separates word rest

theorem separates_cons {part : List α} {rest : List (List α)} (h : rest ≠ []) :
    Separates word (part :: rest) ↔ splitFirst word (part ++ word) = some (part, []) ∧ Separates word rest := by
  cases rest with
  | nil => exact absurd rfl h
  | cons next rest => exact Iff.rfl

/-- **Splitting undoes putting the word between the parts exactly if the word does not occur earlier.** -/
theorem split_intercalate_iff (hword : word ≠ []) {parts : List (List α)} (hne : parts ≠ []) :
    split word (word.intercalate parts) = parts ↔ Separates word parts := by
  induction parts with
  | nil => exact absurd rfl hne
  | cons part rest ih =>
    cases rest with
    | nil =>
      rw [Separates, List.intercalate_singleton]
      constructor
      · intro h hinside
        cases hfound : splitFirst word part with
        | none => exact splitFirst_eq_none.mp hfound hinside
        | some parts =>
          rw [split_of_splitFirst hword hfound] at h
          exact split_ne_nil hword _ (List.cons.inj h).2
      · exact split_of_absent
    | cons next rest =>
      rw [separates_cons (List.cons_ne_nil next rest), List.intercalate_cons_of_ne_nil (List.cons_ne_nil next rest),
        List.append_assoc, ← ih (List.cons_ne_nil next rest)]
      constructor
      · intro h
        cases hfound : splitFirst word (part ++ (word ++ word.intercalate (next :: rest))) with
        | none =>
          exact absurd ⟨part, _, List.append_assoc _ _ _⟩ (splitFirst_eq_none.mp hfound)
        | some parts =>
          obtain ⟨first, later⟩ := parts
          rw [split_of_splitFirst hword hfound] at h
          obtain ⟨rfl, hrest⟩ := List.cons.inj h
          obtain ⟨htext, -⟩ := splitFirst_first hfound
          have hlater := List.append_cancel_left (List.append_cancel_left htext)
          rw [← hlater] at hrest hfound
          exact ⟨splitFirst_append_iff.mp hfound, hrest⟩
      · rintro ⟨hfirst, hrest⟩
        rw [split_of_splitFirst hword (splitFirst_append hfirst _), hrest]

end Occurrence
