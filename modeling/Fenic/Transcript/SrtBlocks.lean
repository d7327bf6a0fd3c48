import Fenic.Lib.Except
import Fenic.Transcript.Lines

/-!
# `Transcript.SrtBlocks` — the SRT parser, line by line

`SrtParser::parse` walks through the bytes with an offset. An index line or a timing line at the very end of the
text, without a newline after it, moves the offset one past the end, and the next slice panics.

The same parser over the list of lines that are still to be read, without offsets: `blocks` reads a header, text
lines up to a blank line or the next header, and goes on. The parser over bytes agrees with it on every text
(`parse_eq_blocks`), so it ends on every text.
-/

namespace Fenic

namespace Transcript

open Utf8

variable {F : Type} (f64 : F64 F)

/-- `looks_like_subtitle_index`. -/
def looksLikeSubtitleIndex (line : Str) : Bool :=
  (parseUsize (trim line)).isSome

/-- `looks_like_timestamp`. -/
def looksLikeTimestamp (line : Str) : Bool :=
  containsArrow line

namespace SrtParser

/-- `parse_srt_timestamp`. -/
def parseSrtTimestamp (timestamp : Str) : Except Failure F :=
  let timestamp := trim timestamp
  let normalized := timestamp.map (fun c => if c = ',' then '.' else c)
  match normalized.splitOn ':' with
  | [hours, minutes, seconds] =>
    match f64.parse hours with
    | none => invalidFormat "Invalid hours in SRT timestamp: " timestamp
    | some hours =>
      match f64.parse minutes with
      | none => invalidFormat "Invalid minutes in SRT timestamp: " timestamp
      | some minutes =>
        match f64.parse seconds with
        | none => invalidFormat "Invalid seconds in SRT timestamp: " timestamp
        | some seconds =>
          .ok (f64.add (f64.add (f64.mul hours (f64.ofNat 3600)) (f64.mul minutes (f64.ofNat 60))) seconds)
  | _ => invalidFormat "SRT timestamp must be in HH:MM:SS,mmm format: " timestamp

/-- The header of a block at an offset: the index, the timing line and the offset after it. -/
def parseHeader (input : Str) (pos : Nat) : Except Failure (Option Nat × Str × Nat) := do
  let headerEnd ← lineEnd input pos
  let headerLine ← fromUtf8 input pos headerEnd
  if looksLikeSubtitleIndex headerLine then
    let entryIndex := parseUsize (trim headerLine)
    let pos := headerEnd + 1
    let tsLineEnd ← lineEnd input pos
    let timestampLine ← fromUtf8 input pos tsLineEnd
    if ¬ looksLikeTimestamp timestampLine then
      invalidFormat "Invalid timestamp line: " timestampLine
    else
      return (entryIndex, timestampLine, tsLineEnd + 1)
  else if looksLikeTimestamp headerLine then
    return (none, headerLine, headerEnd + 1)
  else
    invalidFormat "Invalid header line: " headerLine

/-- The loop over the lines of the text, with the end of the text so far. -/
def textLoop (input : Str) : Nat → Nat → Nat → Except Failure (Nat × Nat)
  | 0, _, _ => .error .diverge
  | fuel + 1, pos, textEnd =>
    if pos < byteLen input then do
      let lineEnd ← lineEnd input pos
      let line ← fromUtf8 input pos lineEnd
      let trimmed := trim line
      if trimmed = [] ∨ looksLikeSubtitleIndex trimmed ∨ looksLikeTimestamp trimmed then
        return (if trimmed = [] then lineEnd + 1 else pos, textEnd)
      else textLoop input fuel (lineEnd + 1) lineEnd
    else return (pos, textEnd)

/-- A block at an offset, with the offset after it. -/
def parseBlock (input : Str) (pos : Nat) : Except Failure (UnifiedTranscriptEntry F × Nat) := do
  let (entryIndex, timestampLine, pos) ← parseHeader input pos
  match splitArrow timestampLine with
  | [start, stop] =>
    let textStart := pos
    let (pos, textEnd) ← textLoop input (byteLen input + 1) pos pos
    let text ← fromUtf8 input textStart textEnd
    let startTime ← parseSrtTimestamp f64 (trim start)
    let endTime ← parseSrtTimestamp f64 (trim stop)
    return ({ index := entryIndex.map usizeAsI64
              speaker := none
              startTime := startTime
              endTime := some endTime
              duration := some (f64.sub endTime startTime)
              content := trimEnd text
              format := "srt" }, pos)
  | _ => invalidFormat "Invalid timestamp line: " timestampLine

def parseLoop (input : Str) : Nat → Nat → Except Failure (List (UnifiedTranscriptEntry F))
  | 0, _ => .error .diverge
  | fuel + 1, pos =>
    if pos < byteLen input then
      let pos := skipBytes input pos
      if byteLen input ≤ pos then .ok []
      else do
        let (entry, pos) ← parseBlock f64 input pos
        let entries ← parseLoop input fuel pos
        return entry :: entries
    else .ok []

/-- `SrtParser::parse`. -/
def parse (input : Str) : Except Failure (List (UnifiedTranscriptEntry F)) :=
  parseLoop f64 input (byteLen input + 1) 0

/-! ## The SRT parser, line by line -/

variable {F : Type} (f64 : F64 F)

/-- The line ends the text of a block. -/
def endsText (line : Str) : Bool :=
  trim line = [] || looksLikeSubtitleIndex (trim line) || looksLikeTimestamp (trim line)

/-- The text lines of a block, and the lines after it. A blank line belongs to the block. -/
def textLines : List Str → List Str × List Str
  | [] => ([], [])
  | line :: rest =>
    if line = [] ∧ rest = [] then ([], [[]])
    else if endsText line then ([], if trim line = [] then rest else line :: rest)
    else (line :: (textLines rest).1, (textLines rest).2)

/-- The header of a block: the index, the timing line and the lines after it. -/
def headerLines : List Str → Except Failure (Option Nat × Str × List Str)
  | [] => .error .panic
  | headerLine :: rest =>
    if looksLikeSubtitleIndex headerLine then
      match rest with
      | [] => .error .panic
      | timestampLine :: rest =>
        if looksLikeTimestamp timestampLine then .ok (parseUsize (trim headerLine), timestampLine, rest)
        else invalidFormat "Invalid timestamp line: " timestampLine
    else if looksLikeTimestamp headerLine then .ok (none, headerLine, rest)
    else invalidFormat "Invalid header line: " headerLine

/-- The entry of a block. -/
def blockEntry (entryIndex : Option Nat) (start stop text : Str) : Except Failure (UnifiedTranscriptEntry F) := do
  let startTime ← parseSrtTimestamp f64 (trim start)
  let endTime ← parseSrtTimestamp f64 (trim stop)
  return { index := entryIndex.map usizeAsI64
           speaker := none
           startTime := startTime
           endTime := some endTime
           duration := some (f64.sub endTime startTime)
           content := trimEnd text
           format := "srt" }

/-- A block, and the lines after it. -/
def block (lines : List Str) : Except Failure (UnifiedTranscriptEntry F × List Str) := do
  let (entryIndex, timestampLine, rest) ← headerLines lines
  match splitArrow timestampLine with
  | [start, stop] =>
    if rest = [] then .error .panic
    else do
      let entry ← blockEntry f64 entryIndex start stop (unlines (textLines rest).1)
      return (entry, (textLines rest).2)
  | _ => invalidFormat "Invalid timestamp line: " timestampLine

theorem textLines_length_le (lines : List Str) : (textLines lines).2.length ≤ lines.length := by
  induction lines with
  | nil => exact Nat.le_refl 0
  | cons line rest ih =>
    rw [textLines]
    split
    · simp
    · split
      · split
        · simp
        · exact Nat.le_refl _
      · exact Nat.le_succ_of_le ih

variable {rest : List Str}

theorem headerLines_ok {lines : List Str} {entryIndex : Option Nat} {timestampLine : Str}
    (h : headerLines lines = .ok (entryIndex, timestampLine, rest)) :
    (∃ headerLine, lines = headerLine :: timestampLine :: rest ∧ looksLikeSubtitleIndex headerLine = true ∧
        looksLikeTimestamp timestampLine = true ∧ entryIndex = parseUsize (trim headerLine)) ∨
      (lines = timestampLine :: rest ∧ looksLikeSubtitleIndex timestampLine = false ∧
        looksLikeTimestamp timestampLine = true ∧ entryIndex = none) := by
  cases lines with
  | nil => cases h
  | cons headerLine lines =>
    rw [headerLines.eq_def] at h
    by_cases hindex : looksLikeSubtitleIndex headerLine = true
    · simp only [if_pos hindex] at h
      cases lines with
      | nil => cases h
      | cons line lines =>
        by_cases harrow : looksLikeTimestamp line = true
        · simp only [if_pos harrow] at h
          cases h
          exact Or.inl ⟨headerLine, rfl, hindex, harrow, rfl⟩
        · simp only [if_neg harrow] at h
          cases h
    · simp only [if_neg hindex] at h
      by_cases harrow : looksLikeTimestamp headerLine = true
      · simp only [if_pos harrow] at h
        cases h
        exact Or.inr ⟨rfl, Bool.not_eq_true _ ▸ hindex, harrow, rfl⟩
      · simp only [if_neg harrow] at h
        cases h

theorem headerLines_length_lt {lines : List Str} {entryIndex : Option Nat} {timestampLine : Str}
    (h : headerLines lines = .ok (entryIndex, timestampLine, rest)) : rest.length < lines.length := by
  rcases headerLines_ok h with ⟨headerLine, rfl, -⟩ | ⟨rfl, -⟩
  · rw [List.length_cons, List.length_cons]
    omega
  · exact Nat.lt_succ_self _

variable {entry : UnifiedTranscriptEntry F}

theorem block_ok {lines : List Str} (h : block f64 lines = .ok (entry, rest)) :
    ∃ entryIndex timestampLine textRest start stop, headerLines lines = .ok (entryIndex, timestampLine, textRest) ∧
      splitArrow timestampLine = [start, stop] ∧ textRest ≠ [] ∧
      blockEntry f64 entryIndex start stop (unlines (textLines textRest).1) = .ok entry ∧
      rest = (textLines textRest).2 := by
  obtain ⟨⟨entryIndex, timestampLine, textRest⟩, hheader, h⟩ := Except.bind_eq_ok.mp h
  dsimp only at h
  split at h
  next start stop hsplit =>
      split at h
      next => cases h
      next hrest =>
          obtain ⟨entry', hentry, h⟩ := Except.bind_eq_ok.mp h
          cases h
          exact ⟨entryIndex, timestampLine, textRest, start, stop, hheader, hsplit, hrest, hentry, rfl⟩
  next => cases h

theorem block_length_lt {lines : List Str}
    (h : block f64 lines = .ok (entry, rest)) : rest.length < lines.length := by
  obtain ⟨_, _, textRest, _, _, hheader, -, -, -, rfl⟩ := block_ok f64 h
  exact Nat.lt_of_le_of_lt (textLines_length_le textRest) (headerLines_length_lt hheader)

/-- The blocks of some lines. -/
def blocks (lines : List Str) : Except Failure (List (UnifiedTranscriptEntry F)) :=
  if skipLines lines = [] ∨ skipLines lines = [[]] then .ok []
  else match _hblock : block f64 (skipLines lines) with
    | .error failure => .error failure
    | .ok (entry, rest) =>
      match blocks rest with
      | .error failure => .error failure
      | .ok entries => .ok (entry :: entries)
termination_by lines.length
decreasing_by exact Nat.lt_of_lt_of_le (block_length_lt f64 _hblock) (skipLines_length_le lines)

theorem blocks_end {lines : List Str} (h : skipLines lines = [] ∨ skipLines lines = [[]]) : blocks f64 lines = .ok [] := by
  rw [blocks.eq_def, if_pos h]

theorem blocks_error {lines : List Str} {failure : Failure} (h : ¬ (skipLines lines = [] ∨ skipLines lines = [[]]))
    (hblock : block f64 (skipLines lines) = .error failure) : blocks f64 lines = .error failure := by
  rw [blocks.eq_def, if_neg h]
  split
  · rename_i failure' hfailure
    rw [hblock] at hfailure
    rw [Except.error.inj hfailure]
  · rename_i entry rest hok
    rw [hblock] at hok
    cases hok

theorem blocks_cons {lines : List Str}
    (h : ¬ (skipLines lines = [] ∨ skipLines lines = [[]])) (hblock : block f64 (skipLines lines) = .ok (entry, rest)) :
    blocks f64 lines = (blocks f64 rest).map (entry :: ·) := by
  rw [blocks.eq_def, if_neg h]
  split
  · rename_i failure hfailure
    rw [hblock] at hfailure
    cases hfailure
  · rename_i entry' rest' hok
    rw [hblock] at hok
    cases hok
    cases blocks f64 rest <;> rfl

/-! ## The bytes of the lines -/

variable {input : Str} {pos : Nat} {lines : List Str}

theorem parseHeader_lines (h : Lines input pos lines) (hnewline : NoNewline lines) :
    (∃ failure, headerLines lines = .error failure ∧ parseHeader input pos = .error failure) ∨
    (∃ entryIndex timestampLine rest pos', headerLines lines = .ok (entryIndex, timestampLine, rest) ∧
      parseHeader input pos = .ok (entryIndex, timestampLine, pos') ∧ Lines input pos' rest ∧ NoNewline rest ∧
      pos < pos') := by
  unfold parseHeader
  cases lines with
  | nil =>
    left
    rw [lineEnd_past h]
    exact ⟨.panic, rfl, rfl⟩
  | cons headerLine rest =>
    rw [lineEnd_lines h (hnewline headerLine List.mem_cons_self), headerLines.eq_def]
    simp only [bind, Except.bind, fromUtf8_line h]
    have hnext := Utf8.Lines.next h
    by_cases hindex : looksLikeSubtitleIndex headerLine = true
    · simp only [if_pos hindex]
      cases rest with
      | nil =>
        left
        rw [lineEnd_past hnext]
        exact ⟨.panic, rfl, rfl⟩
      | cons timestampLine rest =>
        rw [lineEnd_lines hnext (hnewline.tail timestampLine List.mem_cons_self)]
        simp only [fromUtf8_line hnext]
        by_cases harrow : looksLikeTimestamp timestampLine = true
        · right
          simp only [if_pos harrow, if_neg (not_not_intro harrow)]
          exact ⟨_, _, _, _, rfl, rfl, Utf8.Lines.next hnext, hnewline.tail.tail, by omega⟩
        · left
          simp only [if_neg harrow, if_pos harrow]
          exact ⟨_, rfl, rfl⟩
    · simp only [if_neg hindex]
      by_cases harrow : looksLikeTimestamp headerLine = true
      · right
        simp only [if_pos harrow]
        exact ⟨_, _, _, _, rfl, rfl, hnext, hnewline.tail, by omega⟩
      · left
        simp only [if_neg harrow]
        exact ⟨_, rfl, rfl⟩

/-- The loop reads the text lines, and its fuel lasts. -/
theorem textLoop_lines (h : Lines input pos lines) (hnewline : NoNewline lines) {fuel : Nat} (hpositive : 0 < fuel)
    (hfuel : byteLen input < pos + fuel) (textEnd : Nat) :
    ∃ pos', textLoop input fuel pos textEnd = .ok (pos', if (textLines lines).1 = [] then textEnd
        else pos + byteLen (unlines (textLines lines).1)) ∧
      Lines input pos' (textLines lines).2 ∧ NoNewline (textLines lines).2 ∧ pos ≤ pos' := by
  induction fuel generalizing pos lines textEnd with
  | zero => omega
  | succ fuel ih =>
    rw [textLoop]
    by_cases hlt : pos < byteLen input
    · rw [if_pos hlt]
      obtain ⟨hne, hne'⟩ := h.lt_iff.mp hlt
      cases lines with
      | nil => exact absurd rfl hne
      | cons line rest =>
        have hnext := Utf8.Lines.next h
        have hlast : ¬ (line = [] ∧ rest = []) := by
          rintro ⟨rfl, rfl⟩
          exact hne' rfl
        rw [lineEnd_lines h (hnewline line List.mem_cons_self), textLines, if_neg hlast]
        simp only [bind, Except.bind, fromUtf8_line h]
        have hends : (trim line = [] ∨ looksLikeSubtitleIndex (trim line) = true ∨ looksLikeTimestamp (trim line) = true) ↔
            endsText line = true := by
          unfold endsText
          simp only [Bool.or_eq_true, decide_eq_true_eq, or_assoc]
        by_cases hend : endsText line = true
        · rw [if_pos (hends.mpr hend), if_pos hend]
          by_cases hblank : trim line = []
          · simp only [if_pos hblank]
            exact ⟨_, rfl, hnext, hnewline.tail, by omega⟩
          · simp only [if_neg hblank]
            exact ⟨_, rfl, h, hnewline, Nat.le_refl _⟩
        · rw [if_neg (fun h => hend (hends.mp h)), if_neg hend]
          obtain ⟨pos', hloop, hlines', hnewline', hle⟩ :=
            ih hnext hnewline.tail (by omega) (by omega) (pos + byteLen line)
          refine ⟨pos', ?_, hlines', hnewline', by omega⟩
          rw [hloop, if_neg (List.cons_ne_nil _ _)]
          -- the end of the text is the end of its last line
          by_cases htext : (textLines rest).1 = []
          · rw [if_pos htext, htext, unlines_singleton]
          · have hsize : (Char.utf8Size '\n') = 1 := rfl
            rw [if_neg htext, unlines_cons line htext, byteLen_append, byteLen_cons, hsize]
            have hsum : pos + byteLen line + 1 + byteLen (unlines (textLines rest).1) =
                pos + (byteLen line + (1 + byteLen (unlines (textLines rest).1))) := by omega
            rw [hsum]
    · rw [if_neg hlt]
      have hover : lines = [] ∨ lines = [[]] := by
        have hnot := h.lt_iff.not.mp hlt
        rw [not_and_or, not_not, not_not] at hnot
        exact hnot
      rcases hover with rfl | rfl
      · exact ⟨pos, rfl, h, hnewline, Nat.le_refl _⟩
      · exact ⟨pos, rfl, h, hnewline, Nat.le_refl _⟩

/-- What the text lines leave are the last of the lines. -/
theorem textLines_append {lines : List Str} (h : (textLines lines).1 ≠ []) :
    ∃ after, lines = (textLines lines).1 ++ after := by
  induction lines with
  | nil => exact absurd rfl h
  | cons line rest ih =>
    rw [textLines] at h ⊢
    split at h
    · exact absurd rfl h
    · rename_i hlast
      rw [if_neg hlast]
      split at h
      · exact absurd rfl h
      · rename_i hend
        rw [if_neg hend]
        by_cases hrest : (textLines rest).1 = []
        · exact ⟨rest, by rw [hrest]; rfl⟩
        · obtain ⟨after, hafter⟩ := ih hrest
          exact ⟨after, congrArg (line :: ·) hafter⟩

theorem parseBlock_lines (h : Lines input pos lines) (hnewline : NoNewline lines) :
    (∃ failure, block f64 lines = .error failure ∧ parseBlock f64 input pos = .error failure) ∨
    (∃ entry rest pos', block f64 lines = .ok (entry, rest) ∧ parseBlock f64 input pos = .ok (entry, pos') ∧
      Lines input pos' rest ∧ NoNewline rest ∧ pos < pos') := by
  unfold parseBlock block
  rcases parseHeader_lines h hnewline with ⟨failure, hheader, hparse⟩ |
    ⟨entryIndex, timestampLine, rest, pos', hheader, hparse, hlines, hnewline', hlt⟩
  · left
    rw [hheader, hparse]
    exact ⟨failure, rfl, rfl⟩
  · rw [hheader, hparse]
    simp only [bind, Except.bind]
    rcases splitArrow timestampLine with _ | ⟨start, _ | ⟨stop, _ | ⟨part, parts⟩⟩⟩
    · exact Or.inl ⟨_, rfl, rfl⟩
    · exact Or.inl ⟨_, rfl, rfl⟩
    · obtain ⟨pos'', hloop, hlines', hnewline'', hle⟩ := textLoop_lines hlines hnewline' (Nat.succ_pos (byteLen input))
        (by omega) pos'
      simp only [hloop]
      by_cases hrest : rest = []
      · left
        subst hrest
        simp only [if_pos, fromUtf8_past hlines]
        exact ⟨.panic, rfl, rfl⟩
      · have htext : fromUtf8 input pos' (if (textLines rest).1 = [] then pos'
            else pos' + byteLen (unlines (textLines rest).1)) = .ok (unlines (textLines rest).1) := by
          by_cases hnil : (textLines rest).1 = []
          · rw [if_pos hnil, hnil, unlines_nil]
            cases rest with
            | nil => exact absurd rfl hrest
            | cons line rest => exact fromUtf8_empty hlines
          · rw [if_neg hnil]
            obtain ⟨after, hafter⟩ := textLines_append hnil
            rw [hafter] at hlines
            exact fromUtf8_unlines hlines hnil
        simp only [if_neg hrest, htext]
        unfold blockEntry
        cases hstart : parseSrtTimestamp f64 (trim start) with
        | error failure => exact Or.inl ⟨failure, rfl, rfl⟩
        | ok startTime =>
          cases hstop : parseSrtTimestamp f64 (trim stop) with
          | error failure => exact Or.inl ⟨failure, rfl, rfl⟩
          | ok endTime => exact Or.inr ⟨_, _, _, rfl, rfl, hlines', hnewline'', by omega⟩
    · exact Or.inl ⟨_, rfl, rfl⟩

theorem parseLoop_lines (h : Lines input pos lines) (hnewline : NoNewline lines) {fuel : Nat} (hpositive : 0 < fuel)
    (hfuel : byteLen input < pos + fuel) : parseLoop f64 input fuel pos = blocks f64 lines := by
  induction fuel generalizing pos lines with
  | zero => omega
  | succ fuel ih =>
    rw [parseLoop]
    have hskip := skipBytes_lines h
    have hnewlineSkip := hnewline.skipLines
    have hle := le_skipBytes input pos
    have hover : ¬ skipBytes input pos < byteLen input ↔ skipLines lines = [] ∨ skipLines lines = [[]] := by
      rw [hskip.lt_iff, not_and_or, not_not, not_not]
    by_cases hend : skipLines lines = [] ∨ skipLines lines = [[]]
    · have hlast := hover.mpr hend
      rw [blocks_end f64 hend]
      by_cases hlt : pos < byteLen input
      · rw [if_pos hlt]
        simp only [if_pos (Nat.not_lt.mp hlast)]
      · rw [if_neg hlt]
    · have hmore : skipBytes input pos < byteLen input := not_not.mp fun hnot => hend (hover.mp hnot)
      have hlt : pos < byteLen input := by omega
      rw [if_pos hlt]
      simp only [if_neg (Nat.not_le.mpr hmore)]
      rcases parseBlock_lines f64 hskip hnewlineSkip with ⟨failure, hblock, hparse⟩ |
        ⟨entry, rest, pos', hblock, hparse, hlines', hnewline', hpos⟩
      · rw [blocks_error f64 hend hblock, hparse]
        rfl
      · rw [blocks_cons f64 hend hblock, hparse]
        simp only [bind, Except.bind]
        rw [ih hlines' hnewline' (by omega) (by omega)]
        cases blocks f64 rest <;> rfl

/-- **The parser over bytes reads the blocks of the lines of the text.** -/
theorem parse_eq_blocks (input : Str) : parse f64 input = blocks f64 (input.splitOn '\n') :=
  parseLoop_lines f64 (Lines.start input) (noNewline_splitOn input) (Nat.succ_pos _) (by omega)

end SrtParser

end Transcript

end Fenic
