import Fenic.Transcript.GenericNewline

/-!
# `Transcript.GenericTiling` — the entries of a generic transcript tile it

From its first line that is not blank on, a generic transcript is headers, each with the lines up to the next one. An entry is one header
and its lines, and ends where the next one starts. The last line is content even if it looks like a header: then, and only then, the
entries do not tile the text (`parse_tiles_iff`).
-/

namespace Fenic

namespace Transcript

open Utf8

namespace GenericTranscriptParser

variable {F : Type} (f64 : F64 F)

/-- The entry comes from these lines: its speaker and its start from the header, its content from the rest. Only blanks at the end of the
content are lost. -/
structure EntryOf (part : Section) (entry : UnifiedTranscriptEntry F) : Prop where
  header : ∃ speaker timestamp, parseHeader (part.1.dropWhile isSkipped) = .ok (speaker, timestamp) ∧
    entry.speaker = (if speaker = [] then none else some speaker) ∧
    parseGenericTimestamp f64 timestamp = .ok entry.startTime
  content : entry.content = trimEnd (unlines part.2)

/-- The lines of some sections, as they are in the text. -/
def sectionLines (parts : List Section) : List Str :=
  parts.flatMap fun part => part.1 :: part.2

/-- The lines are blank ones and then headers with their content: a header line is not content, and only the first header need not look
like one. -/
structure Covers (lines : List Str) (parts : List Section) : Prop where
  lines_eq : ∃ blank, (∀ line ∈ blank, line.dropWhile isSkipped = []) ∧ lines = blank ++ sectionLines parts
  headers : ∀ part ∈ parts.tail, isHeaderLine part.1 = true
  contents : ∀ part ∈ parts, ∀ line ∈ part.2, isHeaderLine line = false

/-- The entries tile the lines. -/
structure Tiles (lines : List Str) (entries : List (UnifiedTranscriptEntry F)) : Prop where
  indices : entries.map (·.index) = (List.range' 1 entries.length).map fun index : Nat => some (index : Int)
  times : entries.IsChain fun entry next => entry.endTime = some next.startTime
  covered : ∃ parts, Covers lines parts ∧ List.Forall₂ (EntryOf f64) parts entries

/-- The last line looks like a header, and is not the first that is not blank. -/
def SwallowsHeader (lines : List Str) : Prop :=
  ∃ first middle last, skipLines lines = first :: (middle ++ [last]) ∧ isHeaderLine last = true

/-! ## The second pass -/

/-- The entry of a header and its content, as the first pass has them. -/
def EntryOfRaw (rawEntry : Str × Str × Str) (entry : UnifiedTranscriptEntry F) : Prop :=
  entry.speaker = (if rawEntry.1 = [] then none else some rawEntry.1) ∧
    parseGenericTimestamp f64 rawEntry.2.1 = .ok entry.startTime ∧ entry.content = rawEntry.2.2

variable {i : Nat} {rawEntries : List (Str × Str × Str)} {entries : List (UnifiedTranscriptEntry F)}

theorem unifiedEntries_raw
    (h : unifiedEntries f64 i rawEntries = .ok entries) : List.Forall₂ (EntryOfRaw f64) rawEntries entries := by
  induction rawEntries generalizing i entries with
  | nil =>
    cases h
    exact .nil
  | cons rawEntry rest ih =>
    obtain ⟨startTime, hstart, h⟩ := Except.bind_eq_ok.mp h
    obtain ⟨endTime, -, h⟩ := Except.bind_eq_ok.mp h
    obtain ⟨later, hlater, h⟩ := Except.bind_eq_ok.mp h
    cases h
    exact .cons ⟨rfl, hstart, rfl⟩ (ih hlater)

/-- The counter does not wrap on a text that fits into memory. -/
theorem unifiedEntries_indices
    (h : unifiedEntries f64 i rawEntries = .ok entries) (hsize : i + rawEntries.length < 2 ^ 63) :
    entries.map (·.index) = (List.range' (i + 1) entries.length).map fun index : Nat => some (index : Int) := by
  induction rawEntries generalizing i entries with
  | nil =>
    cases h
    rfl
  | cons rawEntry rest ih =>
    rw [List.length_cons] at hsize
    obtain ⟨startTime, -, h⟩ := Except.bind_eq_ok.mp h
    obtain ⟨endTime, -, h⟩ := Except.bind_eq_ok.mp h
    obtain ⟨later, hlater, h⟩ := Except.bind_eq_ok.mp h
    cases h
    have hindex : usizeAsI64 (i + 1) = ((i + 1 : Nat) : Int) := if_pos (by omega)
    rw [List.map_cons, List.length_cons, List.range'_succ, List.map_cons, ih hlater (by omega)]
    show some (usizeAsI64 (i + 1)) :: _ = _
    rw [hindex]

/-- An entry ends where the next one starts: both read the same time. -/
theorem unifiedEntries_times
    (h : unifiedEntries f64 i rawEntries = .ok entries) :
    entries.IsChain fun entry next => entry.endTime = some next.startTime := by
  induction rawEntries generalizing i entries with
  | nil =>
    cases h
    exact .nil
  | cons rawEntry rest ih =>
    obtain ⟨startTime, -, h⟩ := Except.bind_eq_ok.mp h
    obtain ⟨endTime, hend, h⟩ := Except.bind_eq_ok.mp h
    obtain ⟨later, hlater, h⟩ := Except.bind_eq_ok.mp h
    cases h
    have hchain := ih hlater
    have hraw := unifiedEntries_raw f64 hlater
    cases hraw with
    | nil => exact .singleton _
    | @cons next entry rest later hnext hrest =>
      refine .cons_cons ?_ hchain
      have hlook : lookAhead f64 (next :: rest) = some <$> parseGenericTimestamp f64 next.2.1 := rfl
      rw [hlook, hnext.2.1] at hend
      cases hend
      rfl

/-! ## The sections -/

/-- What the parser makes of a section: blanks before the header are skipped. -/
def skipHeader (part : Section) : Section :=
  (part.1.dropWhile isSkipped, part.2)

theorem entryOf_of_raw {part : Section} {raw : Str × Str × Str} {entry : UnifiedTranscriptEntry F}
    (hpart : rawEntry (skipHeader part) = .ok raw) (hraw : EntryOfRaw f64 raw entry) : EntryOf f64 part entry := by
  obtain ⟨header, hheader, heq⟩ := Except.map_eq_ok.mp hpart
  subst heq
  exact ⟨⟨header.1, header.2, hheader, hraw.1, hraw.2.1⟩, hraw.2.2⟩

variable {parts : List Section}

/-- Both passes over some sections give the entry of each. -/
theorem readSections_entryOf
    (h : readSections f64 (parts.map skipHeader) = .ok entries) : List.Forall₂ (EntryOf f64) parts entries := by
  obtain ⟨rawEntries, hraw, hunified⟩ := Except.bind_eq_ok.mp h
  have hparts := Except.mapM_eq_ok.mp hraw
  rw [List.forall₂_map_left_iff] at hparts
  have hentries := unifiedEntries_raw f64 hunified
  clear h hraw hunified
  induction hparts generalizing entries with
  | nil =>
    cases hentries
    exact .nil
  | cons hpart _ ih =>
    cases hentries with
    | cons hentry hrest => exact .cons (entryOf_of_raw f64 hpart hentry) (ih hrest)

variable {lines : List Str}

/-- Lines whose last one is no header are the content that is open, and sections. -/
theorem divide_covers (hlast : ∀ last ∈ lines.getLast?, isHeaderLine last = false) :
    ∃ parts, (divide lines).2 = parts.map skipHeader ∧ lines = (divide lines).1 ++ sectionLines parts ∧
      (∀ line ∈ (divide lines).1, isHeaderLine line = false) ∧
      (∀ part ∈ parts, isHeaderLine part.1 = true) ∧ ∀ part ∈ parts, ∀ line ∈ part.2, isHeaderLine line = false := by
  induction lines with
  | nil => exact ⟨[], rfl, rfl, nofun, nofun, nofun⟩
  | cons line rest ih =>
    by_cases hrest : rest = []
    · subst hrest
      have hline := hlast line rfl
      refine ⟨[], rfl, rfl, ?_, nofun, nofun⟩
      intro line' hmem
      rw [List.mem_singleton.mp hmem]
      exact hline
    · rw [List.getLast?_cons_of_ne_nil hrest] at hlast
      obtain ⟨parts, hparts, heq, hcontent, hheaders, hcontents⟩ := ih hlast
      rw [divide_cons hrest]
      by_cases hheader : isHeaderLine line = true
      · -- the content so far belongs to this header
        rw [if_pos hheader]
        refine ⟨(line, (divide rest).1) :: parts, ?_, ?_, nofun, ?_, ?_⟩
        · rw [List.map_cons, hparts]
          rfl
        · show line :: rest = [] ++ ((line :: (divide rest).1) ++ sectionLines parts)
          rw [List.nil_append, List.cons_append, ← heq]
        · exact List.forall_mem_cons.mpr ⟨hheader, hheaders⟩
        · exact List.forall_mem_cons.mpr ⟨hcontent, hcontents⟩
      · rw [if_neg hheader]
        refine ⟨parts, hparts, ?_, ?_, hheaders, hcontents⟩
        · rw [List.cons_append, ← heq]
        · exact List.forall_mem_cons.mpr ⟨Bool.not_eq_true _ ▸ hheader, hcontent⟩

/-! ## Blank lines before the first header -/

/-- What is skipped is blank lines, and the blanks before the first line that is not. -/
theorem skipLines_blank (lines : List Str) :
    (∃ blank line rest, (∀ line ∈ blank, line.dropWhile isSkipped = []) ∧ line.dropWhile isSkipped ≠ [] ∧
      lines = blank ++ line :: rest ∧ skipLines lines = line.dropWhile isSkipped :: rest) ∨
    ((∀ line ∈ lines, line.dropWhile isSkipped = []) ∧ (skipLines lines = [] ∨ skipLines lines = [[]])) := by
  induction lines with
  | nil => exact .inr ⟨nofun, .inl rfl⟩
  | cons line rest ih =>
    rw [skipLines]
    cases hline : line.dropWhile isSkipped with
    | cons c line' =>
      left
      exact ⟨[], line, rest, nofun, hline ▸ List.cons_ne_nil c line', rfl, by rw [hline]⟩
    | nil =>
      by_cases hrest : rest = []
      · subst hrest
        right
        refine ⟨?_, .inr rfl⟩
        intro line' hmem
        rw [List.mem_singleton.mp hmem]
        exact hline
      · dsimp only
        rw [if_neg hrest]
        rcases ih with ⟨blank, first, after, hblank, hfirst, heq, hskip⟩ | ⟨hblank, hskip⟩
        · left
          exact ⟨line :: blank, first, after, List.forall_mem_cons.mpr ⟨hline, hblank⟩, hfirst,
            by rw [heq, List.cons_append], hskip⟩
        · right
          exact ⟨List.forall_mem_cons.mpr ⟨hline, hblank⟩, hskip⟩

/-- The lines that are blank, and the first that is not, are the same in every such division of the lines. -/
theorem skipLines_append {blank rest : List Str} {line : Str} (hblank : ∀ line ∈ blank, line.dropWhile isSkipped = [])
    (hline : line.dropWhile isSkipped ≠ []) : skipLines (blank ++ line :: rest) = line.dropWhile isSkipped :: rest := by
  induction blank with
  | nil =>
    obtain ⟨c, line', hskip⟩ := List.exists_cons_of_ne_nil hline
    rw [List.nil_append, skipLines, hskip]
  | cons first blank ih =>
    rw [List.cons_append, skipLines, hblank first List.mem_cons_self]
    rw [if_neg (List.append_ne_nil_of_right_ne_nil blank (List.cons_ne_nil line rest))]
    exact ih fun line' hmem => hblank line' (List.mem_cons_of_mem first hmem)

/-- The lines that look like headers, in sections that cover them. -/
theorem filter_sectionLines (hheaders : ∀ part ∈ parts, isHeaderLine part.1 = true)
    (hcontents : ∀ part ∈ parts, ∀ line ∈ part.2, isHeaderLine line = false) :
    (sectionLines parts).filter isHeaderLine = parts.map Prod.fst := by
  induction parts with
  | nil => rfl
  | cons part parts ih =>
    obtain ⟨hheader, hheaders⟩ := List.forall_mem_cons.mp hheaders
    obtain ⟨hcontent, hcontents⟩ := List.forall_mem_cons.mp hcontents
    have hbody : part.2.filter isHeaderLine = [] :=
      List.filter_eq_nil_iff.mpr fun line hmem => Bool.eq_false_iff.mp (hcontent line hmem)
    show ((part.1 :: part.2) ++ sectionLines parts).filter isHeaderLine = _
    rw [List.filter_append, List.filter_cons_of_pos hheader, hbody, ih hheaders hcontents]
    rfl

/-- The header of a section that has an entry is not blank. -/
theorem EntryOf.header_ne_nil {part : Section} {entry : UnifiedTranscriptEntry F} (h : EntryOf f64 part entry) :
    part.1.dropWhile isSkipped ≠ [] := by
  obtain ⟨speaker, timestamp, hheader, -⟩ := h.header
  intro hnil
  rw [hnil] at hheader
  cases hheader

/-! ## The entries -/

theorem parse_readSections (input : Str) : parse f64 input = readSections f64 (sections (input.splitOn '\n')) :=
  parse_eq_sections f64 input

/-- Unless the last line looks like a header, the sections of the lines cover them. -/
theorem sections_covers (h : ¬ SwallowsHeader lines) :
    ∃ parts, sections lines = parts.map skipHeader ∧ Covers lines parts := by
  rcases skipLines_blank lines with ⟨blank, first, rest, hblank, hfirst, heq, hskip⟩ | ⟨hblank, hover⟩
  · have hlast : ∀ last ∈ rest.getLast?, isHeaderLine last = false := by
      intro last hmem
      obtain ⟨middle, rfl⟩ := List.getLast?_eq_some_iff.mp hmem
      rw [← Bool.not_eq_true]
      exact fun hheader => h ⟨_, middle, last, hskip, hheader⟩
    obtain ⟨parts, hparts, hrest, hcontent, hheaders, hcontents⟩ := divide_covers hlast
    have hmore : ¬ (skipLines lines = [] ∨ skipLines lines = [[]]) := by
      rw [hskip, not_or]
      exact ⟨List.cons_ne_nil _ _, fun h => hfirst (List.cons.inj h).1⟩
    refine ⟨(first, (divide rest).1) :: parts, ?_, ⟨blank, hblank, ?_⟩, hheaders, ?_⟩
    · rw [sections_cons hskip hmore, hparts]
      rfl
    · show lines = blank ++ ((first :: (divide rest).1) ++ sectionLines parts)
      rw [List.cons_append, ← hrest, heq]
    · exact List.forall_mem_cons.mpr ⟨hcontent, hcontents⟩
  · refine ⟨[], sections_over hover, ⟨lines, hblank, ?_⟩, nofun, nofun⟩
    exact (List.append_nil lines).symm

theorem length_le_of_mem {line : Str} (hmem : line ∈ lines) :
    lines.length + byteLen line ≤ byteLen (unlines lines) + 1 := by
  induction lines with
  | nil => cases hmem
  | cons first rest ih =>
    by_cases hrest : rest = []
    · subst hrest
      rw [List.mem_singleton.mp hmem, unlines_singleton, List.length_singleton]
      omega
    · have hsize : Char.utf8Size '\n' = 1 := rfl
      rw [unlines_cons first hrest, byteLen_append, byteLen_cons, hsize, List.length_cons]
      rcases List.mem_cons.mp hmem with rfl | hmem
      · have hlength := length_le_byteLen_unlines rest
        omega
      · have hlength := ih hmem
        omega

/-- A text has at least as many bytes as it has sections with a header. -/
theorem Covers.length_le {input : Str} (h : Covers (input.splitOn '\n') parts)
    (hheaders : ∀ part ∈ parts, part.1.dropWhile isSkipped ≠ []) : parts.length ≤ byteLen input := by
  obtain ⟨blank, -, heq⟩ := h.lines_eq
  have hparts : parts.length ≤ (sectionLines parts).length := by
    unfold sectionLines
    have hsum := List.length_le_sum_of_one_le (parts.map fun part => (part.1 :: part.2).length) (by
      intro n hmem
      obtain ⟨part, -, rfl⟩ := List.mem_map.mp hmem
      exact Nat.succ_pos part.2.length)
    rw [List.length_map] at hsum
    rw [List.length_flatMap]
    exact hsum
  cases parts with
  | nil => exact Nat.zero_le _
  | cons part parts =>
    have hne : part.1 ≠ [] := by
      intro hnil
      apply hheaders part List.mem_cons_self
      rw [hnil]
      rfl
    have hmem : part.1 ∈ input.splitOn '\n' := by
      rw [heq]
      apply List.mem_append_right
      show part.1 ∈ (part.1 :: part.2) ++ sectionLines parts
      exact List.mem_append_left _ List.mem_cons_self
    have hlength := length_le_of_mem hmem
    have hpositive : byteLen part.1 ≠ 0 := fun hzero => hne (byteLen_eq_zero.mp hzero)
    rw [unlines_splitOn] at hlength
    have hlines : (input.splitOn '\n').length = blank.length + (sectionLines (part :: parts)).length := by
      rw [heq, List.length_append]
    omega

/-- Entries that tile the lines are one more than the header lines after the first line that is not blank. -/
theorem Tiles.length_eq {rest : List Str} {first : Str}
    (h : Tiles f64 lines entries) (hskip : skipLines lines = first :: rest) (hfirst : first ≠ []) :
    entries.length = (rest.filter isHeaderLine).length + 1 := by
  obtain ⟨parts, hcovers, hentries⟩ := h.covered
  obtain ⟨blank, hblank, heq⟩ := hcovers.lines_eq
  cases hentries with
  | nil =>
    -- all lines are blank
    exfalso
    have hall : ∀ line ∈ lines, line.dropWhile isSkipped = [] := by
      rw [heq]
      intro line hmem
      rw [show sectionLines [] = [] from rfl, List.append_nil] at hmem
      exact hblank line hmem
    rcases skipLines_blank lines with ⟨blank', line, after, -, hline, heq', -⟩ | ⟨-, hover | hover⟩
    · exact hline (hall line (heq' ▸ List.mem_append_right blank' List.mem_cons_self))
    · rw [hskip] at hover
      cases hover
    · rw [hskip] at hover
      exact hfirst (List.cons.inj hover).1
  | @cons part entry parts later hentry hlater =>
    have hlines : lines = blank ++ part.1 :: (part.2 ++ sectionLines parts) := heq
    rw [hlines, skipLines_append hblank (hentry.header_ne_nil f64)] at hskip
    obtain ⟨-, rfl⟩ := List.cons.inj hskip
    obtain ⟨hcontent, hcontents⟩ := List.forall_mem_cons.mp hcovers.contents
    have hheaders : ∀ next ∈ parts, isHeaderLine next.1 = true := hcovers.headers
    have hbody : part.2.filter isHeaderLine = [] :=
      List.filter_eq_nil_iff.mpr fun line hmem => Bool.eq_false_iff.mp (hcontent line hmem)
    rw [List.filter_append, hbody, List.nil_append, filter_sectionLines hheaders hcontents, List.length_map,
      List.length_cons, hlater.length_eq]

/-- **The entries of an accepted text tile it if and only if its last line, when it is not the first that is not blank, does not look like
a header.** -/
theorem parse_tiles_iff {input : Str} (hsize : byteLen input < 2 ^ 63) {entries : List (UnifiedTranscriptEntry F)}
    (h : parse f64 input = .ok entries) : Tiles f64 (input.splitOn '\n') entries ↔ ¬ SwallowsHeader (input.splitOn '\n') := by
  rw [parse_readSections] at h
  constructor
  · rintro htiles ⟨first, middle, last, hskip, hlast⟩
    have hfirst : first ≠ [] := by
      rcases skipLines_blank (input.splitOn '\n') with ⟨blank, line, rest, -, hline, -, hskip'⟩ | ⟨-, hover | hover⟩
      · rw [hskip] at hskip'
        rw [(List.cons.inj hskip').1]
        exact hline
      · rw [hskip] at hover
        cases hover
      · rw [hskip] at hover
        injection hover with _ hrest
        exact absurd hrest (List.append_ne_nil_of_right_ne_nil middle (List.cons_ne_nil last []))
    have hmore : ¬ (skipLines (input.splitOn '\n') = [] ∨ skipLines (input.splitOn '\n') = [[]]) := by
      rw [hskip, not_or]
      exact ⟨List.cons_ne_nil _ _, fun h => hfirst (List.cons.inj h).1⟩
    -- the parser counts one header less
    have hcount := htiles.length_eq f64 hskip hfirst
    have hparsed := readSections_length f64 h
    rw [sections_cons hskip hmore, List.length_cons, ← List.length_map (f := Prod.fst), divide_headers, List.length_map] at hparsed
    rw [List.filter_append, List.filter_cons_of_pos hlast, List.length_append] at hcount
    simp only [List.filter_nil, List.length_singleton] at hcount
    omega
  · intro hswallows
    obtain ⟨parts, hsections, hcovers⟩ := sections_covers hswallows
    rw [hsections] at h
    have hentries := readSections_entryOf f64 h
    obtain ⟨rawEntries, hraw, hunified⟩ := Except.bind_eq_ok.mp h
    have hlength : parts.length ≤ byteLen input := by
      refine hcovers.length_le fun part hmem => ?_
      obtain ⟨entry, -, hentry⟩ := Rows.exists_right_of_forall₂ hentries hmem
      exact hentry.header_ne_nil f64
    have hrawLength : rawEntries.length = parts.length := by
      rw [← (Except.mapM_eq_ok.mp hraw).length_eq, List.length_map]
    exact ⟨unifiedEntries_indices f64 hunified (by omega), unifiedEntries_times f64 hunified, parts, hcovers, hentries⟩

theorem exists_of_length {α : Type} {result : Except Failure (List α)} {n : Nat}
    (h : result.toOption.map List.length = some n) : ∃ entries, result = .ok entries ∧ entries.length = n := by
  cases result with
  | error failure => cases h
  | ok entries => exact ⟨entries, rfl, Option.some.inj h⟩

/-- Two speakers, with a blank line before the first and a newline at the end. -/
theorem parse_tiles_dialogue :
    ∃ entries, parse exactF64 "\nAnn (0:01)\nhi\nthere\nBo (0:02)\nyes\n".toList = .ok entries ∧ entries.length = 2 ∧
      Tiles exactF64 ("\nAnn (0:01)\nhi\nthere\nBo (0:02)\nyes\n".toList.splitOn '\n') entries := by
  have hparsed : (parse exactF64 "\nAnn (0:01)\nhi\nthere\nBo (0:02)\nyes\n".toList).toOption.map List.length = some 2 := by
    decide +kernel
  obtain ⟨entries, hentries, hlength⟩ := exists_of_length hparsed
  refine ⟨entries, hentries, hlength, (parse_tiles_iff exactF64 (by decide) hentries).mpr ?_⟩
  rintro ⟨first, middle, last, hskip, hlast⟩
  have hgetLast := congrArg List.getLast? hskip
  rw [List.getLast?_cons_of_ne_nil (List.append_ne_nil_of_right_ne_nil middle (List.cons_ne_nil last [])),
    List.getLast?_append_of_ne_nil _ (List.cons_ne_nil last [])] at hgetLast
  have hblank : some ([] : Str) = some last := hgetLast
  cases hblank
  cases hlast

/-- **A header at the end of the text, without a newline, becomes content of the entry before it.** -/
theorem last_header_swallowed :
    ∃ entries, parse exactF64 "A (0:01)\nhi\nB (0:02)".toList = .ok entries ∧ entries.length = 1 ∧
      ¬ Tiles exactF64 ("A (0:01)\nhi\nB (0:02)".toList.splitOn '\n') entries := by
  have hparsed : (parse exactF64 "A (0:01)\nhi\nB (0:02)".toList).toOption.map List.length = some 1 := by
    decide +kernel
  obtain ⟨entries, hentries, hlength⟩ := exists_of_length hparsed
  refine ⟨entries, hentries, hlength, ?_⟩
  intro htiles
  have hskip : skipLines ("A (0:01)\nhi\nB (0:02)".toList.splitOn '\n') =
      "A (0:01)".toList :: ["hi".toList, "B (0:02)".toList] := by
    decide +kernel
  have hcount := htiles.length_eq exactF64 hskip (by decide)
  rw [hlength] at hcount
  revert hcount
  decide +kernel

end GenericTranscriptParser

end Transcript

end Fenic
