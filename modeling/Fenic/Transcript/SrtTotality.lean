import Fenic.Transcript.SrtBlocks

/-!
# `Transcript.SrtTotality` — on which texts the SRT parser returns

The parser slices the text one past its end when the last line, with no newline after it, is an index line or a
timing line of a block, and the blocks before it can be read (`CutHeader`). On every other text it returns
(`parse_returns_iff`).

A text that is cut off in a header breaks the parser, and with a newline behind it the parser returns. On every other text the
newline changes nothing (`parse_newline_iff`).
-/

namespace Fenic

namespace Transcript

namespace SrtParser

variable {F : Type} (f64 : F64 F)

/-- The lines open a block: its timing line, after an index line or not, and the lines that follow. -/
inductive Opens : List Str → Str → List Str → Prop
  | indexed {indexLine line : Str} {rest : List Str} (hindex : looksLikeSubtitleIndex indexLine = true)
      (harrow : looksLikeTimestamp line = true) : Opens (indexLine :: line :: rest) line rest
  | timed {line : Str} {rest : List Str} (hindex : looksLikeSubtitleIndex line = false)
      (harrow : looksLikeTimestamp line = true) : Opens (line :: rest) line rest

/-- The lines are over within the header of a block. -/
def EndsInHeader (lines : List Str) : Prop :=
  (∃ line, lines = [line] ∧ looksLikeSubtitleIndex line = true) ∨
    ∃ line start stop, Opens lines line [] ∧ splitArrow line = [start, stop]

def ReadsTime (part : Str) : Prop :=
  ∃ time, parseSrtTimestamp f64 (trim part) = .ok time

/-- The lines open a block that can be read, and these lines are left after it. -/
def Complete (lines rest : List Str) : Prop :=
  ∃ line text start stop, Opens lines line text ∧ text ≠ [] ∧ splitArrow line = [start, stop] ∧ ReadsTime f64 start ∧
    ReadsTime f64 stop ∧ rest = (textLines text).2

/-- After blocks that can be read the lines are over within the header of a block. -/
inductive CutHeader : List Str → Prop
  | here {lines : List Str} (h : EndsInHeader (skipLines lines)) : CutHeader lines
  | later {lines rest : List Str} (h : Complete f64 (skipLines lines) rest) (hrest : CutHeader rest) : CutHeader lines

/-! ## One block -/

variable {lines rest : List Str} {line : Str}

theorem opens_iff :
    Opens lines line rest ↔ ∃ entryIndex, headerLines lines = .ok (entryIndex, line, rest) := by
  constructor
  · intro h
    cases h with
    | indexed hindex harrow =>
      rw [headerLines.eq_def]
      simp only [if_pos hindex, if_pos harrow]
      exact ⟨_, rfl⟩
    | timed hindex harrow =>
      rw [headerLines.eq_def]
      simp only [hindex, if_pos harrow]
      exact ⟨none, if_neg Bool.false_ne_true⟩
  · rintro ⟨entryIndex, h⟩
    rcases headerLines_ok h with ⟨headerLine, rfl, hindex, harrow, -⟩ | ⟨rfl, hindex, harrow, -⟩
    · exact .indexed hindex harrow
    · exact .timed hindex harrow

/-- The lines after the timing line of a block that is opened are the only ones. -/
theorem Opens.unique {rest' : List Str} {line' : Str} (h : Opens lines line rest)
    (h' : Opens lines line' rest') : line = line' ∧ rest = rest' := by
  obtain ⟨entryIndex, hheader⟩ := opens_iff.mp h
  obtain ⟨entryIndex', hheader'⟩ := opens_iff.mp h'
  rw [hheader] at hheader'
  cases hheader'
  exact ⟨rfl, rfl⟩

theorem not_opens_index {indexLine : Str} (hindex : looksLikeSubtitleIndex indexLine = true) :
    ¬ Opens [indexLine] line rest := by
  intro h
  cases h with
  | timed hindex' _ =>
    rw [hindex] at hindex'
    cases hindex'

/-- Lines that open a block end in its header only with its timing line. -/
theorem EndsInHeader.of_opens (h : EndsInHeader lines)
    (hopens : Opens lines line rest) : rest = [] ∧ ∃ start stop, splitArrow line = [start, stop] := by
  rcases h with ⟨line', rfl, hindex⟩ | ⟨line', start, stop, hopens', hsplit⟩
  · exact absurd hopens (not_opens_index hindex)
  · obtain ⟨rfl, rfl⟩ := hopens.unique hopens'
    exact ⟨rfl, start, stop, hsplit⟩

/-- A header cannot be read because it is not one, or because the lines are over after the index line. -/
theorem headerLines_error {failure : Failure} (hne : lines ≠ [])
    (h : headerLines lines = .error failure) :
    (∃ error, failure = .error error) ∨
      (failure = .panic ∧ ∃ line, lines = [line] ∧ looksLikeSubtitleIndex line = true) := by
  cases lines with
  | nil => exact absurd rfl hne
  | cons headerLine rest =>
    rw [headerLines.eq_def] at h
    by_cases hindex : looksLikeSubtitleIndex headerLine = true
    · simp only [if_pos hindex] at h
      cases rest with
      | nil =>
        cases h
        exact Or.inr ⟨rfl, headerLine, rfl, hindex⟩
      | cons line rest =>
        by_cases harrow : looksLikeTimestamp line = true
        · simp only [if_pos harrow] at h
          cases h
        · simp only [if_neg harrow] at h
          cases h
          exact Or.inl ⟨_, rfl⟩
    · simp only [if_neg hindex] at h
      by_cases harrow : looksLikeTimestamp headerLine = true
      · simp only [if_pos harrow] at h
        cases h
      · simp only [if_neg harrow] at h
        cases h
        exact Or.inl ⟨_, rfl⟩

theorem parseSrtTimestamp_returns (timestamp : Str) : Returns (parseSrtTimestamp f64 timestamp) := by
  unfold parseSrtTimestamp
  dsimp only
  split
  · split
    · exact returns_error _
    · split
      · exact returns_error _
      · split
        · exact returns_error _
        · exact returns_ok _
  · exact returns_error _

/-- The entry of a block is made when both of its times can be read. -/
theorem blockEntry_cases (entryIndex : Option Nat) (start stop text : Str) :
    (∃ entry, blockEntry f64 entryIndex start stop text = .ok entry ∧ ReadsTime f64 start ∧ ReadsTime f64 stop) ∨
      (∃ error, blockEntry f64 entryIndex start stop text = .error (.error error) ∧
        ¬ (ReadsTime f64 start ∧ ReadsTime f64 stop)) := by
  have hfailed : ∀ {part : Str} {failure : Failure}, parseSrtTimestamp f64 (trim part) = .error failure →
      (∃ error, failure = .error error) ∧ ¬ ReadsTime f64 part := by
    intro part failure h
    have hreturns := parseSrtTimestamp_returns f64 (trim part)
    rw [h] at hreturns
    constructor
    · cases failure with
      | error error => exact ⟨error, rfl⟩
      | panic => exact absurd rfl hreturns.1
      | diverge => exact absurd rfl hreturns.2
    · rintro ⟨time, htime⟩
      rw [h] at htime
      cases htime
  unfold blockEntry
  cases hstart : parseSrtTimestamp f64 (trim start) with
  | error failure =>
    right
    obtain ⟨⟨error, rfl⟩, hreads⟩ := hfailed hstart
    exact ⟨error, rfl, fun h => hreads h.1⟩
  | ok startTime =>
    cases hstop : parseSrtTimestamp f64 (trim stop) with
    | error failure =>
      right
      obtain ⟨⟨error, rfl⟩, hreads⟩ := hfailed hstop
      exact ⟨error, rfl, fun h => hreads h.2⟩
    | ok endTime => exact Or.inl ⟨_, rfl, ⟨startTime, hstart⟩, ⟨endTime, hstop⟩⟩

theorem block_ok_iff :
    (∃ entry, block f64 lines = .ok (entry, rest)) ↔ Complete f64 lines rest := by
  constructor
  · rintro ⟨entry, h⟩
    obtain ⟨entryIndex, line, text, start, stop, hheader, hsplit, hne, hentry, rfl⟩ := block_ok f64 h
    rcases blockEntry_cases f64 entryIndex start stop (Utf8.unlines (textLines text).1) with
      ⟨_, -, hstart, hstop⟩ | ⟨error, herror, -⟩
    · exact ⟨line, text, start, stop, opens_iff.mpr ⟨entryIndex, hheader⟩, hne, hsplit, hstart, hstop, rfl⟩
    · rw [hentry] at herror
      cases herror
  · rintro ⟨line, text, start, stop, hopens, hne, hsplit, hstart, hstop, rfl⟩
    obtain ⟨entryIndex, hheader⟩ := opens_iff.mp hopens
    unfold block
    rw [hheader]
    simp only [bind, Except.bind, hsplit, if_neg hne]
    rcases blockEntry_cases f64 entryIndex start stop (Utf8.unlines (textLines text).1) with
      ⟨entry, hentry, -⟩ | ⟨error, -, hreads⟩
    · rw [hentry]
      exact ⟨entry, rfl⟩
    · exact absurd ⟨hstart, hstop⟩ hreads

theorem not_endsInHeader_of_complete (h : Complete f64 lines rest) : ¬ EndsInHeader lines := by
  obtain ⟨line, text, start, stop, hopens, htext, -⟩ := h
  exact fun hend => htext (hend.of_opens hopens).1

/-- Reading a block fails in one of two ways. -/
theorem block_error {failure : Failure} (hne : lines ≠ []) (h : block f64 lines = .error failure) :
    ((∃ error, failure = .error error) ∧ ¬ EndsInHeader lines) ∨ (failure = .panic ∧ EndsInHeader lines) := by
  unfold block at h
  cases hheader : headerLines lines with
  | error failure' =>
    rw [hheader] at h
    cases h
    rcases headerLines_error hne hheader with ⟨error, rfl⟩ | ⟨rfl, hline⟩
    · left
      refine ⟨⟨error, rfl⟩, ?_⟩
      rintro (⟨line, rfl, hindex⟩ | ⟨line, start, stop, hopens, -⟩)
      · rw [headerLines.eq_def] at hheader
        simp only [if_pos hindex] at hheader
        cases hheader
      · obtain ⟨entryIndex, hok⟩ := opens_iff.mp hopens
        rw [hok] at hheader
        cases hheader
    · exact Or.inr ⟨rfl, Or.inl hline⟩
  | ok header =>
    obtain ⟨entryIndex, line, text⟩ := header
    rw [hheader] at h
    simp only [bind, Except.bind] at h
    have hopens : Opens lines line text := opens_iff.mpr ⟨entryIndex, hheader⟩
    split at h
    · rename_i start stop hsplit
      by_cases htext : text = []
      · rw [if_pos htext] at h
        cases h
        subst htext
        exact Or.inr ⟨rfl, Or.inr ⟨line, start, stop, hopens, hsplit⟩⟩
      · rw [if_neg htext] at h
        left
        refine ⟨?_, fun hend => htext (hend.of_opens hopens).1⟩
        rcases blockEntry_cases f64 entryIndex start stop (Utf8.unlines (textLines text).1) with
          ⟨entry, hentry, -⟩ | ⟨error, herror, -⟩
        · rw [hentry] at h
          cases h
        · rw [herror] at h
          cases h
          exact ⟨error, rfl⟩
    · rename_i hsplit
      left
      cases h
      refine ⟨⟨_, rfl⟩, ?_⟩
      intro hend
      obtain ⟨-, start, stop, hparts⟩ := hend.of_opens hopens
      exact hsplit start stop hparts

/-! ## All blocks -/

theorem not_opens_over (h : lines = [] ∨ lines = [[]]) :
    ¬ Opens lines line rest := by
  intro hopens
  rcases h with rfl | rfl
  · cases hopens
  · cases hopens with
    | timed _ harrow => cases harrow

theorem not_endsInHeader_over (h : lines = [] ∨ lines = [[]]) : ¬ EndsInHeader lines := by
  rintro (⟨line, rfl, hindex⟩ | ⟨line, _, _, hopens, -⟩)
  · rcases h with h | h
    · cases h
    · cases h
      cases hindex
  · exact not_opens_over h hopens

theorem cutHeader_iff (lines : List Str) : CutHeader f64 lines ↔
    EndsInHeader (skipLines lines) ∨ ∃ rest, Complete f64 (skipLines lines) rest ∧ CutHeader f64 rest := by
  constructor
  · intro h
    cases h with
    | here h => exact Or.inl h
    | later h hrest => exact Or.inr ⟨_, h, hrest⟩
  · rintro (h | ⟨rest, h, hrest⟩)
    · exact .here h
    · exact .later h hrest

/-- Reading blocks returns unless they are cut off in a header. By induction on the number of lines. -/
theorem blocks_returns_iff (lines : List Str) : Returns (blocks f64 lines) ↔ ¬ CutHeader f64 lines := by
  induction hn : lines.length using Nat.strong_induction_on generalizing lines with
  | _ n ih =>
    by_cases hover : skipLines lines = [] ∨ skipLines lines = [[]]
    · rw [blocks_end f64 hover, cutHeader_iff f64 lines]
      refine iff_of_true (returns_ok _) ?_
      rintro (h | ⟨rest, ⟨line, text, start, stop, hopens, -⟩, -⟩)
      · exact not_endsInHeader_over hover h
      · exact not_opens_over hover hopens
    · have hne : skipLines lines ≠ [] := fun h => hover (Or.inl h)
      cases hblock : block f64 (skipLines lines) with
      | error failure =>
        have hincomplete : ∀ rest, ¬ Complete f64 (skipLines lines) rest := by
          intro rest hcomplete
          obtain ⟨entry, hok⟩ := (block_ok_iff f64).mpr hcomplete
          rw [hblock] at hok
          cases hok
        rw [blocks_error f64 hover hblock, cutHeader_iff f64 lines]
        rcases block_error f64 hne hblock with ⟨⟨error, rfl⟩, hend⟩ | ⟨rfl, hend⟩
        · refine iff_of_true (returns_error error) ?_
          rintro (h | ⟨rest, h, -⟩)
          · exact hend h
          · exact hincomplete rest h
        · exact iff_of_false (fun h => h.1 rfl) (fun h => h (Or.inl hend))
      | ok result =>
        obtain ⟨entry, rest⟩ := result
        have hcomplete := (block_ok_iff f64).mp ⟨entry, hblock⟩
        have hlength : rest.length < n := by
          have hlt := block_length_lt f64 hblock
          have hle := skipLines_length_le lines
          omega
        rw [blocks_cons f64 hover hblock, returns_map, ih rest.length hlength rest rfl,
          cutHeader_iff f64 lines, not_iff_not]
        constructor
        · exact fun h => Or.inr ⟨rest, hcomplete, h⟩
        · rintro (h | ⟨rest', hcomplete', hrest'⟩)
          · exact absurd h (not_endsInHeader_of_complete f64 hcomplete)
          · obtain ⟨entry', hblock'⟩ := (block_ok_iff f64).mpr hcomplete'
            rw [hblock] at hblock'
            cases hblock'
            exact hrest'

/-- **The parser returns on a text unless the text is cut off in a header.** -/
theorem parse_returns_iff (input : Str) :
    Returns (parse f64 input) ↔ ¬ CutHeader f64 (input.splitOn '\n') := by
  rw [parse_eq_blocks]
  exact blocks_returns_iff f64 _

/-! ## A newline after an SRT text -/

/-! ## One block -/

variable {lines : List Str}

/-- The empty line changes nothing about the text of a block, and is left after it. -/
theorem textLines_snoc (hne : lines ≠ []) :
    (textLines (lines ++ [[]])).1 = (textLines lines).1 ∧
      ((textLines (lines ++ [[]])).2 = (textLines lines).2 ++ [[]] ∨
        ((textLines (lines ++ [[]])).2 = [[]] ∧ (textLines lines).2 = [[]])) := by
  induction lines with
  | nil => exact absurd rfl hne
  | cons line rest ih =>
    by_cases hlast : line = [] ∧ rest = []
    · obtain ⟨rfl, rfl⟩ := hlast
      exact ⟨rfl, .inr ⟨rfl, rfl⟩⟩
    · have hlast' : ¬ (line = [] ∧ rest ++ [[]] = []) :=
        fun h => List.append_ne_nil_of_right_ne_nil rest (List.cons_ne_nil [] []) h.2
      rw [List.cons_append, textLines, textLines, if_neg hlast, if_neg hlast']
      by_cases hend : endsText line = true
      · rw [if_pos hend, if_pos hend]
        refine ⟨rfl, .inl ?_⟩
        by_cases hblank : trim line = []
        · rw [if_pos hblank, if_pos hblank]
        · rw [if_neg hblank, if_neg hblank]
          rfl
      · rw [if_neg hend, if_neg hend]
        by_cases hrest : rest = []
        · subst hrest
          exact ⟨rfl, .inl rfl⟩
        · obtain ⟨htext, hafter⟩ := ih hrest
          exact ⟨congrArg (line :: ·) htext, hafter⟩

theorem headerLines_snoc (hne : lines ≠ []) (hend : ¬ EndsInHeader lines) :
    headerLines (lines ++ [[]]) = (headerLines lines).map fun header => (header.1, header.2.1, header.2.2 ++ [[]]) := by
  obtain ⟨headerLine, rest, rfl⟩ := List.exists_cons_of_ne_nil hne
  rw [List.cons_append, headerLines.eq_def, headerLines.eq_def]
  dsimp only
  by_cases hindex : looksLikeSubtitleIndex headerLine = true
  · rw [if_pos hindex, if_pos hindex]
    cases rest with
    | nil => exact absurd (.inl ⟨headerLine, rfl, hindex⟩) hend
    | cons line rest =>
      dsimp only [List.cons_append]
      by_cases harrow : looksLikeTimestamp line = true
      · rw [if_pos harrow, if_pos harrow]
        rfl
      · rw [if_neg harrow, if_neg harrow]
        rfl
  · rw [if_neg hindex, if_neg hindex]
    by_cases harrow : looksLikeTimestamp headerLine = true
    · rw [if_pos harrow, if_pos harrow]
      rfl
    · rw [if_neg harrow, if_neg harrow]
      rfl

/-- A block that is not cut off is the same with an empty line at the end, but for the lines that are left. -/
theorem block_snoc (hne : lines ≠ []) (hend : ¬ EndsInHeader lines) :
    (∃ failure, block f64 lines = .error failure ∧ block f64 (lines ++ [[]]) = .error failure) ∨
      ∃ entry rest rest', block f64 lines = .ok (entry, rest) ∧ block f64 (lines ++ [[]]) = .ok (entry, rest') ∧
        (rest' = rest ++ [[]] ∨ (rest' = [[]] ∧ rest = [[]])) := by
  unfold block
  rw [headerLines_snoc hne hend]
  cases hheader : headerLines lines with
  | error failure => exact .inl ⟨failure, rfl, rfl⟩
  | ok header =>
    obtain ⟨entryIndex, line, text⟩ := header
    simp only [Except.map, bind, Except.bind]
    have hopens : Opens lines line text := opens_iff.mpr ⟨entryIndex, hheader⟩
    split
    next start stop hsplit =>
        have htext : text ≠ [] := by
          rintro rfl
          exact hend (.inr ⟨line, start, stop, hopens, hsplit⟩)
        obtain ⟨hlines, hafter⟩ := textLines_snoc htext
        rw [if_neg htext, if_neg (List.append_ne_nil_of_left_ne_nil htext _), hlines]
        cases blockEntry f64 entryIndex start stop (Utf8.unlines (textLines text).1) with
        | error failure => exact .inl ⟨failure, rfl, rfl⟩
        | ok entry => exact .inr ⟨entry, _, _, rfl, rfl, hafter⟩
    next => exact .inl ⟨_, rfl, rfl⟩

/-! ## All blocks -/

/-- By induction on the number of lines. -/
theorem blocks_snoc (hne : lines ≠ []) (hcut : ¬ CutHeader f64 lines) :
    blocks f64 (lines ++ [[]]) = blocks f64 lines := by
  induction hn : lines.length using Nat.strong_induction_on generalizing lines with
  | _ n ih =>
    rcases skipLines_snoc hne with ⟨hover, hover'⟩ | ⟨hmore, hmore', hsnoc⟩
    · rw [blocks_end f64 (.inr hover), blocks_end f64 (.inr hover')]
    · have hnot : ¬ (skipLines lines = [] ∨ skipLines lines = [[]]) := not_or.mpr ⟨hmore, hmore'⟩
      have hnot' : ¬ (skipLines (lines ++ [[]]) = [] ∨ skipLines (lines ++ [[]]) = [[]]) := by
        rw [hsnoc]
        rintro (hnil | hsingle)
        · exact List.append_ne_nil_of_right_ne_nil _ (List.cons_ne_nil [] []) hnil
        · have hlength := congrArg List.length hsingle
          rw [List.length_append, List.length_singleton] at hlength
          exact hmore (List.length_eq_zero_iff.mp (by omega))
      have hend : ¬ EndsInHeader (skipLines lines) := fun h => hcut (.here h)
      rcases block_snoc f64 hmore hend with ⟨failure, hblock, hblock'⟩ | ⟨entry, rest, rest', hblock, hblock', hrest⟩
      · rw [blocks_error f64 hnot hblock, blocks_error f64 hnot' (hsnoc ▸ hblock')]
      · rw [blocks_cons f64 hnot hblock, blocks_cons f64 hnot' (hsnoc ▸ hblock')]
        congr 1
        rcases hrest with rfl | ⟨rfl, rfl⟩
        · by_cases hrest : rest = []
          · subst hrest
            have hnone : blocks f64 [] = .ok [] := blocks_end f64 (.inl rfl)
            have hsingle : blocks f64 ([] ++ [[]]) = .ok [] := blocks_end f64 (.inr rfl)
            rw [hnone, hsingle]
          · have hlt := block_length_lt f64 hblock
            have hle := skipLines_length_le lines
            have hcomplete : Complete f64 (skipLines lines) rest := (block_ok_iff f64).mp ⟨entry, hblock⟩
            exact ih rest.length (by omega) hrest (fun h => hcut (.later hcomplete h)) rfl
        · rfl

/-! ## Texts that end in an empty line -/

/-- The last line is empty. -/
def EndsEmpty (lines : List Str) : Prop :=
  lines.getLast? = some []

theorem EndsEmpty.textLines (h : EndsEmpty lines) : EndsEmpty (textLines lines).2 ∨ (textLines lines).2 = [] := by
  induction lines with
  | nil => cases h
  | cons line rest ih =>
    by_cases hrest : rest = []
    · subst hrest
      obtain rfl : line = [] := Option.some.inj h
      exact .inl rfl
    · have hend : EndsEmpty rest := by
        unfold EndsEmpty at h ⊢
        rwa [List.getLast?_cons_of_ne_nil hrest] at h
      rw [SrtParser.textLines, if_neg (fun hlast => hrest hlast.2)]
      split
      · by_cases hblank : trim line = []
        · rw [if_pos hblank]
          exact .inl hend
        · rw [if_neg hblank]
          exact .inl h
      · exact ih hend

theorem EndsEmpty.skipLines (h : EndsEmpty lines) : EndsEmpty (skipLines lines) := by
  induction lines with
  | nil => cases h
  | cons line rest ih =>
    rw [Transcript.skipLines]
    cases hline : line.dropWhile isSkipped with
    | nil =>
      by_cases hrest : rest = []
      · rw [if_pos hrest]
        rfl
      · dsimp only
        rw [if_neg hrest]
        apply ih
        unfold EndsEmpty at h ⊢
        rwa [List.getLast?_cons_of_ne_nil hrest] at h
    | cons c line' =>
      have hrest : rest ≠ [] := by
        rintro rfl
        obtain rfl : line = [] := Option.some.inj h
        cases hline
      unfold EndsEmpty at h ⊢
      rwa [List.getLast?_cons_of_ne_nil hrest] at h ⊢

/-- An empty line is no part of a header. -/
theorem EndsEmpty.not_endsInHeader (h : EndsEmpty lines) : ¬ EndsInHeader lines := by
  rintro (⟨line, rfl, hindex⟩ | ⟨line, _, _, hopens, -⟩)
  · obtain rfl : line = [] := Option.some.inj h
    cases hindex
  · cases hopens with
    | indexed _ harrow =>
      obtain rfl : line = [] := Option.some.inj h
      cases harrow
    | timed _ harrow =>
      obtain rfl : line = [] := Option.some.inj h
      cases harrow

theorem EndsEmpty.opens {text : List Str} {line : Str} (h : EndsEmpty lines) (hopens : Opens lines line text)
    (htext : text ≠ []) : EndsEmpty text := by
  unfold EndsEmpty at h ⊢
  cases hopens with
  | indexed _ _ => rwa [List.getLast?_cons_of_ne_nil (List.cons_ne_nil _ _), List.getLast?_cons_of_ne_nil htext] at h
  | timed _ _ => rwa [List.getLast?_cons_of_ne_nil htext] at h

theorem not_cutHeader_nil : ¬ CutHeader f64 [] := by
  rw [cutHeader_iff]
  rintro (hend | ⟨rest, ⟨line, text, start, stop, hopens, -⟩, -⟩)
  · exact not_endsInHeader_over (.inl rfl) hend
  · exact not_opens_over (.inl rfl) hopens

theorem EndsEmpty.not_cutHeader (h : EndsEmpty lines) : ¬ CutHeader f64 lines := by
  intro hcut
  induction hcut with
  | here hend => exact h.skipLines.not_endsInHeader hend
  | later hcomplete hrest ih =>
    obtain ⟨line, text, start, stop, hopens, htext, -, -, -, rfl⟩ := hcomplete
    rcases (h.skipLines.opens hopens htext).textLines with hafter | hafter
    · exact ih hafter
    · rw [hafter] at hrest
      exact not_cutHeader_nil f64 hrest

/-- **A newline changes the outcome of the SRT parser exactly when the text is cut off in a header.** -/
theorem blocks_newline_iff (hne : lines ≠ []) :
    blocks f64 (lines ++ [[]]) = blocks f64 lines ↔ ¬ CutHeader f64 lines := by
  constructor
  · intro hsame hcut
    have hreturns : Returns (blocks f64 (lines ++ [[]])) :=
      (blocks_returns_iff f64 _).mpr (EndsEmpty.not_cutHeader f64 List.getLast?_concat)
    rw [hsame, blocks_returns_iff] at hreturns
    exact hreturns hcut
  · exact blocks_snoc f64 hne

end SrtParser

end Transcript

end Fenic
