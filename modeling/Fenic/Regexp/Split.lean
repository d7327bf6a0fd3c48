import Fenic.Regexp.Instr

/-!
# `Regexp.Split` — splitting at the matches of a pattern

`regexp_split` replaces the matches by a marker and splits at the marker. This gives the text between the matches as long as the marker
does not come out anywhere else: in a segment, or from the end of a segment and the beginning of the marker behind it (`split_iff`).
-/

namespace Fenic

namespace Regexp

open Occurrence

/-- A text cut at the successive matches of a pattern: what is before each match with the match, and what is after the last one. -/
structure Cuts (text : Str) where
  cuts : List (Str × Str)
  rest : Str
  text_eq : text = (cuts.flatMap fun cut => cut.1 ++ cut.2) ++ rest

/-- The regex engine: what a pattern compiles to, and its successive leftmost matches that do not overlap. -/
structure Finder where
  Regex : Type
  new : Str → Except String Regex
  findIter : Regex → (text : Str) → Cuts text

namespace Cuts

variable {text : Str} (cuts : Cuts text)

/-- What is left of the text behind the first matches. -/
def remainder (n : Nat) : Str :=
  ((cuts.cuts.drop n).flatMap fun cut => cut.1 ++ cut.2) ++ cuts.rest

/-- `str.replace`, of the first matches. The value has no reference to a group. -/
def replace (n : Nat) (value : Str) : Str :=
  ((cuts.cuts.take n).flatMap fun cut => cut.1 ++ value) ++ cuts.remainder n

/-- `str.replace_all`. -/
def replaceAll (value : Str) : Str :=
  (cuts.cuts.flatMap fun cut => cut.1 ++ value) ++ cuts.rest

/-- The segments between the matches: at most so many when the limit is positive, the last one with all that is left. -/
def segments (limit : Int) : List Str :=
  if 0 < limit then (cuts.cuts.take (limit - 1).toNat).map Prod.fst ++ [cuts.remainder (limit - 1).toNat]
  else cuts.cuts.map Prod.fst ++ [cuts.rest]

end Cuts

/-- The marker. -/
def delimiter : Str :=
  "|||SPLIT|||".toList

/-- `_convert_regexp_split_expr`, for a text. -/
def splitText {text : Str} (cuts : Cuts text) (limit : Int) : List Str :=
  if 0 < limit then split delimiter (cuts.replace (limit - 1).toNat delimiter)
  else split delimiter (cuts.replaceAll delimiter)

/-- `_convert_regexp_split_expr`. -/
def convertRegexpSplitExpr (finder : Finder) (pattern : Str) (limit : Int) (expr : Series Str) : Except Failure (Series (List Str)) :=
  match finder.new pattern with
  | .ok regex => .ok (expr.map fun row => row.map fun text => splitText (finder.findIter regex text) limit)
  | .error e => .error (.computeError ("regex error: " ++ e))

/-! ## The marker between the segments -/

/-- The ends of a segment that are completed to a marker by the marker behind it. -/
def hiddenEnds : List Str :=
  ["|||SPLIT".toList, "|||SPLIT|".toList, "|||SPLIT||".toList]

/-- No segment has the marker in it, and none but the last one has a hidden end. -/
def Unmarked (segments : List Str) : Prop :=
  (∀ segment ∈ segments, ¬ delimiter <:+: segment) ∧ ∀ segment ∈ segments.dropLast, ∀ tail ∈ hiddenEnds, ¬ tail <:+ segment

theorem delimiter_ne_nil : delimiter ≠ [] := by
  decide

/-- The beginnings of the marker that a marker behind them completes. -/
theorem hidden_of_take : ∀ n < delimiter.length, delimiter <+: delimiter.take n ++ delimiter → n = 0 ∨ delimiter.take n ∈ hiddenEnds := by
  decide

theorem splitFirst_delimiter_iff {segment : Str} : splitFirst delimiter (segment ++ delimiter) = some (segment, []) ↔
    ¬ delimiter <:+: segment ∧ ∀ tail ∈ hiddenEnds, ¬ tail <:+ segment := by
  rw [splitFirst_overlap]
  constructor
  · intro h
    constructor
    · rintro ⟨front, back, rfl⟩
      refine h (delimiter ++ back) (List.append_ne_nil_of_left_ne_nil delimiter_ne_nil back) ?_ ?_
      · exact ⟨front, by rw [List.append_assoc]⟩
      · exact ⟨back ++ delimiter, by rw [List.append_assoc]⟩
    · intro tail htail hsuffix
      have hcompleted : ∀ tail ∈ hiddenEnds, tail ≠ [] ∧ delimiter <+: tail ++ delimiter := by decide
      exact h tail (hcompleted tail htail).1 hsuffix (hcompleted tail htail).2
  · rintro ⟨hinside, htails⟩ piece hne hsuffix hprefix
    by_cases hlength : delimiter.length ≤ piece.length
    · -- the marker is within the piece
      have hpiece : delimiter <+: piece := List.prefix_of_prefix_length_le hprefix (List.prefix_append _ _) hlength
      exact hinside (hpiece.isInfix.trans hsuffix.isInfix)
    · have hlength := Nat.lt_of_not_le hlength
      have hpiece : piece <+: delimiter :=
        List.prefix_of_prefix_length_le (List.prefix_append _ _) hprefix (Nat.le_of_lt hlength)
      rw [List.prefix_iff_eq_take] at hpiece
      rw [hpiece] at hprefix
      rcases hidden_of_take _ hlength hprefix with hzero | hmem
      · exact hne (List.length_eq_zero_iff.mp hzero)
      · rw [← hpiece] at hmem
        exact htails piece hmem hsuffix

theorem separates_iff {segments : List Str} (hne : segments ≠ []) : Separates delimiter segments ↔ Unmarked segments := by
  unfold Unmarked
  induction segments with
  | nil => exact absurd rfl hne
  | cons segment rest ih =>
    by_cases hrest : rest = []
    · subst hrest
      rw [List.forall_mem_singleton]
      exact (and_iff_left nofun).symm
    · rw [separates_cons hrest, ih hrest, splitFirst_delimiter_iff, List.dropLast_cons_of_ne_nil hrest, List.forall_mem_cons,
        List.forall_mem_cons]
      exact and_and_and_comm

/-- The text with the marker in the place of the matches is the segments with the marker between them. -/
theorem flatMap_eq_intercalate (cuts : List (Str × Str)) (rest : Str) :
    (cuts.flatMap fun cut => cut.1 ++ delimiter) ++ rest = delimiter.intercalate (cuts.map Prod.fst ++ [rest]) := by
  induction cuts with
  | nil => exact List.intercalate_singleton.symm
  | cons cut cuts ih =>
    have hne : cuts.map Prod.fst ++ [rest] ≠ [] := List.append_ne_nil_of_right_ne_nil _ (List.cons_ne_nil rest [])
    rw [List.flatMap_cons, List.map_cons, List.cons_append, List.intercalate_cons_of_ne_nil hne, ← ih, List.append_assoc]

/-! ## The segments -/

variable {text : Str}

theorem segments_ne_nil (cuts : Cuts text) (limit : Int) : cuts.segments limit ≠ [] := by
  unfold Cuts.segments
  split
  · exact List.append_ne_nil_of_right_ne_nil _ (List.cons_ne_nil _ [])
  · exact List.append_ne_nil_of_right_ne_nil _ (List.cons_ne_nil _ [])

theorem splitText_eq (cuts : Cuts text) (limit : Int) :
    splitText cuts limit = split delimiter (delimiter.intercalate (cuts.segments limit)) := by
  unfold splitText Cuts.segments
  split
  · rw [← flatMap_eq_intercalate]
    rfl
  · rw [← flatMap_eq_intercalate]
    rfl

theorem splitText_iff (cuts : Cuts text) (limit : Int) :
    splitText cuts limit = cuts.segments limit ↔ Unmarked (cuts.segments limit) := by
  rw [splitText_eq, split_intercalate_iff delimiter_ne_nil (segments_ne_nil cuts limit), separates_iff (segments_ne_nil cuts limit)]

/-- The text cut at each occurrence of a character. -/
def cutsAt (c : Char) : (text : Str) → Cuts text
  | [] => ⟨[], [], rfl⟩
  | d :: text =>
    let later := cutsAt c text
    if h : d = c then ⟨([], [d]) :: later.cuts, later.rest, by
      rw [List.flatMap_cons]
      exact congrArg (d :: ·) later.text_eq⟩
    else match hcuts : later.cuts with
      | [] => ⟨[], d :: later.rest, by
          have htext := later.text_eq
          rw [hcuts] at htext
          exact congrArg (d :: ·) htext⟩
      | cut :: cuts => ⟨(d :: cut.1, cut.2) :: cuts, later.rest, by
          have htext := later.text_eq
          rw [hcuts] at htext
          exact congrArg (d :: ·) htext⟩

/-- The engine on patterns of one character that is no operator. -/
def letterFinder : Finder where
  Regex := Char
  new
    | [c] => if c.isAlphanum ∨ c = ',' then .ok c else .error "unsupported"
    | _ => .error "unsupported"
  findIter := cutsAt

end Regexp

end Fenic
