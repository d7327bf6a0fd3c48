import Fenic.Transcript.GenericNewline
import Fenic.Transcript.SrtTotality
import Fenic.Transcript.WebVttNewline
import Fenic.Transcript.WebVttTotality

/-!
# `Transcript.Registry` — the parsers by format

`ParserRegistry::parse` runs the parser of a format. It returns entries or an error on every text but those on which
the parser of its format panics (`registry_returns_iff`). A panic ends the query over the whole column, where an error
of one text is a null (`tsParseExpr_returns_iff`).

What a newline behind the last line changes, for each of the formats: it saves a text that is cut off in an SRT header, gives an empty
WebVTT text a first line, and turns the last line of a generic transcript into a header.
-/

namespace Fenic

namespace Transcript

variable {F : Type} (f64 : F64 F)

namespace ParserRegistry

/-- `list_parsers` of the default registry. -/
def listParsers : List String :=
  ["srt", "generic", "webvtt"]

/-- `ParserRegistry::parse`. -/
def parse (key : String) (input : Str) : Except Failure (List (UnifiedTranscriptEntry F)) :=
  if key = "srt" then SrtParser.parse f64 input
  else if key = "generic" then GenericTranscriptParser.parse f64 input
  else if key = "webvtt" then WebVTTParser.parse f64 input
  else .error (.error (.unknownTranscriptFormat ("Unknown Format: " ++ key)))

/-- The parser of the format panics on the text. -/
def Breaks (key : String) (input : Str) : Prop :=
  (key = "srt" ∧ SrtParser.CutHeader f64 (input.splitOn '\n')) ∨ (key = "webvtt" ∧ WebVTTParser.CutText f64 input)

/-- **Parsing returns entries or an error unless the text is cut off in an SRT header, or is an empty WebVTT text or
one whose end time is cut inside a character.** -/
theorem registry_returns_iff (key : String) (input : Str) : Returns (parse f64 key input) ↔ ¬ Breaks f64 key input := by
  unfold parse Breaks
  by_cases hsrt : key = "srt"
  · rw [if_pos hsrt, SrtParser.parse_returns_iff, not_iff_not]
    constructor
    · exact fun h => Or.inl ⟨hsrt, h⟩
    · rintro (⟨-, h⟩ | ⟨hkey, -⟩)
      · exact h
      · rw [hsrt] at hkey
        exact absurd hkey (by decide)
  · rw [if_neg hsrt]
    by_cases hgeneric : key = "generic"
    · rw [if_pos hgeneric]
      refine iff_of_true (GenericTranscriptParser.parse_returns f64 input) ?_
      rintro (⟨hkey, -⟩ | ⟨hkey, -⟩)
      · exact hsrt hkey
      · rw [hgeneric] at hkey
        exact absurd hkey (by decide)
    · rw [if_neg hgeneric]
      by_cases hwebvtt : key = "webvtt"
      · rw [if_pos hwebvtt, WebVTTParser.parse_returns_iff, not_iff_not]
        constructor
        · exact fun h => Or.inr ⟨hwebvtt, h⟩
        · rintro (⟨hkey, -⟩ | ⟨-, h⟩)
          · exact absurd hkey hsrt
          · exact h
      · rw [if_neg hwebvtt]
        refine iff_of_true (returns_error _) ?_
        rintro (⟨hkey, -⟩ | ⟨hkey, -⟩)
        · exact hsrt hkey
        · exact hwebvtt hkey

/-- An index line alone, with no newline after it, is sliced one past its end. -/
theorem index_line_panics : ¬ Returns (parse exactF64 "srt" ['1']) := by
  intro h
  exact h.1 (by decide +kernel)

end ParserRegistry

/-! ## Columns of texts -/

/-- How a query over a column ends without a column. -/
inductive QueryFailure where
  | computeError (message : String)
  | panic
  | diverge
  deriving DecidableEq

/-- A row of `ts_parse_expr`: the entries, or a null for a null and where the parser gives an error. -/
def parseRow (format : String) : Option Str → Except QueryFailure (Option (List (UnifiedTranscriptEntry F)))
  | none => .ok none
  | some val =>
    match ParserRegistry.parse f64 format val with
    | .ok entries => .ok (some entries)
    | .error (.error _) => .ok none
    | .error .panic => .error .panic
    | .error .diverge => .error .diverge

/-- `ts_parse_expr`. -/
def tsParseExpr (format : String) (column : List (Option Str)) :
    Except QueryFailure (List (Option (List (UnifiedTranscriptEntry F)))) :=
  if format ∈ ParserRegistry.listParsers then column.mapM (parseRow f64 format)
  else .error (.computeError ("Format " ++ format ++ " not found"))

theorem parseRow_ok_iff (format : String) (row : Option Str) : (∃ value, parseRow f64 format row = .ok value) ↔
    ∀ text, row = some text → Returns (ParserRegistry.parse f64 format text) := by
  cases row with
  | none => exact iff_of_true ⟨none, rfl⟩ nofun
  | some val =>
    have hreturns : (∀ text, some val = some text → Returns (ParserRegistry.parse f64 format text)) ↔
        Returns (ParserRegistry.parse f64 format val) :=
      ⟨fun h => h val rfl, fun h text htext => Option.some.inj htext ▸ h⟩
    rw [hreturns, parseRow]
    cases ParserRegistry.parse f64 format val with
    | ok entries => exact iff_of_true ⟨_, rfl⟩ (returns_ok entries)
    | error failure =>
      cases failure with
      | error error => exact iff_of_true ⟨_, rfl⟩ (returns_error error)
      | panic => exact iff_of_false nofun fun h => h.1 rfl
      | diverge => exact iff_of_false nofun fun h => h.2 rfl

theorem parse_listed_returns_iff {format : String} (hformat : format ∈ ParserRegistry.listParsers) (text : Str) :
    Returns (ParserRegistry.parse f64 format text) ↔ ¬ ParserRegistry.Breaks f64 format text := by
  simp only [ParserRegistry.listParsers, List.mem_cons, List.not_mem_nil, or_false] at hformat
  rcases hformat with rfl | rfl | rfl
  · simp [ParserRegistry.parse, ParserRegistry.Breaks, SrtParser.parse_returns_iff]
  · simpa [ParserRegistry.parse, ParserRegistry.Breaks] using GenericTranscriptParser.parse_returns f64 text
  · simp [ParserRegistry.parse, ParserRegistry.Breaks, WebVTTParser.parse_returns_iff]

namespace ParserRegistry

/-- The text is read in another way with a newline behind it. -/
def NoticesNewline (key : String) (input : Str) : Prop :=
  (key = "srt" ∧ SrtParser.CutHeader f64 (input.splitOn '\n')) ∨
    (key = "generic" ∧ GenericTranscriptParser.HidesHeader f64 (input.splitOn '\n')) ∨ (key = "webvtt" ∧ input = [])

theorem srt_newline_iff (input : Str) : SrtParser.parse f64 (input ++ ['\n']) = SrtParser.parse f64 input ↔
    ¬ SrtParser.CutHeader f64 (input.splitOn '\n') := by
  rw [SrtParser.parse_eq_blocks, SrtParser.parse_eq_blocks, splitOn_newline]
  exact SrtParser.blocks_newline_iff f64 (List.splitOn_ne_nil _ _)

theorem generic_newline_iff (input : Str) :
    GenericTranscriptParser.parse f64 (input ++ ['\n']) = GenericTranscriptParser.parse f64 input ↔
      ¬ GenericTranscriptParser.HidesHeader f64 (input.splitOn '\n') := by
  rw [GenericTranscriptParser.parse_eq_sections, GenericTranscriptParser.parse_eq_sections, splitOn_newline]
  exact GenericTranscriptParser.sections_newline_iff f64 _ (List.splitOn_ne_nil _ _)

/-- **A newline behind a text that does not end in one changes nothing, except for an SRT text that is cut off in a header, a generic
transcript whose last line looks like a header, and the empty WebVTT text.** -/
theorem newline_invariant_iff (key : String) {input : Str} (h : input.getLast? ≠ some '\n') :
    parse f64 key (input ++ ['\n']) = parse f64 key input ↔ ¬ NoticesNewline f64 key input := by
  unfold parse NoticesNewline
  by_cases hsrt : key = "srt"
  · subst hsrt
    rw [if_pos rfl, if_pos rfl, srt_newline_iff, not_iff_not]
    simp
  · rw [if_neg hsrt, if_neg hsrt]
    by_cases hgeneric : key = "generic"
    · subst hgeneric
      rw [if_pos rfl, if_pos rfl, generic_newline_iff, not_iff_not]
      simp
    · rw [if_neg hgeneric, if_neg hgeneric]
      by_cases hwebvtt : key = "webvtt"
      · subst hwebvtt
        rw [if_pos rfl, if_pos rfl, WebVTTParser.parse_newline_iff f64 h]
        simp
      · rw [if_neg hwebvtt, if_neg hwebvtt]
        simp [hsrt, hgeneric, hwebvtt]

/-- A WebVTT text that ends in a carriage return is read as with a newline behind it. -/
theorem newline_invariant_webvtt :
    parse exactF64 "webvtt" ("WEBVTT\n\n00:01.000 --> 00:02.000\nyes\r".toList ++ ['\n']) =
      parse exactF64 "webvtt" "WEBVTT\n\n00:01.000 --> 00:02.000\nyes\r".toList := by
  apply (newline_invariant_iff exactF64 "webvtt" (by decide)).mpr
  rintro (⟨hkey, -⟩ | ⟨hkey, -⟩ | ⟨-, hempty⟩)
  · exact absurd hkey (by decide)
  · exact absurd hkey (by decide)
  · exact absurd hempty (by decide)

/-- **A second header at the end of the text is content, until a newline is put behind it; an index line breaks the parser until
then, and so does the empty text.** -/
theorem newline_noticed :
    parse exactF64 "generic" ("A (0:01)\nB (0:02)".toList ++ ['\n']) ≠ parse exactF64 "generic" "A (0:01)\nB (0:02)".toList ∧
    parse exactF64 "srt" (['1'] ++ ['\n']) ≠ parse exactF64 "srt" ['1'] ∧
    parse exactF64 "webvtt" ([] ++ ['\n']) ≠ parse exactF64 "webvtt" [] := by
  decide +kernel

end ParserRegistry

end Transcript

end Fenic
