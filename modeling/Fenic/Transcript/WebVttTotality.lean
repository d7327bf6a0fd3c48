import Fenic.Transcript.WebVttCues

/-!
# `Transcript.WebVttTotality` — on which texts the WebVTT parser returns

The parser has no first line to look at when the text is empty, and it cuts the end time of a timing line inside a
character when one lies across the third byte after the `.` (`CutTime`). On every other text it returns
(`parse_returns_iff`).
-/

namespace Fenic

namespace Transcript

open Utf8

namespace WebVTTParser

variable {F : Type} (f64 : F64 F)

/-- Three bytes after the first `.` of its end time the timing line is inside a character. -/
def CutsCharacter (line : Str) : Prop :=
  ∃ start stop parts whole fraction fields, splitArrow line = start :: stop :: parts ∧
    stop.splitOn '.' = whole :: fraction :: fields ∧ 3 ≤ byteLen fraction ∧ dropBytes 3 fraction = none

/-- The lines open a cue with this timing line, and these lines follow it. -/
def OpensCue (lines : List Str) (timing : Str) (after : List Str) : Prop :=
  ∃ line rest, lines = line :: rest ∧ trim line ≠ [] ∧ opensSkippedBlock (trim line) = false ∧
    cueTiming lines = .ok (timing, after)

def ReadsTimes (timing : Str) : Prop :=
  ∃ times, parseTimingLine f64 timing = .ok times

/-- After blank lines, skipped blocks and cues whose times can be read there is a timing line that is cut inside a
character. -/
inductive CutTime : List Str → Prop
  | blank {line : Str} {rest : List Str} (h : trim line = []) (hrest : CutTime rest) : CutTime (line :: rest)
  | skipped {line : Str} {rest : List Str} (hne : trim line ≠ []) (h : opensSkippedBlock (trim line) = true)
      (hrest : CutTime (rest.dropWhile inBlock)) : CutTime (line :: rest)
  | here {lines after : List Str} {timing : Str} (hopens : OpensCue lines timing after)
      (h : CutsCharacter timing) : CutTime lines
  | later {lines after : List Str} {timing : Str} (hopens : OpensCue lines timing after)
      (h : ReadsTimes f64 timing) (hrest : CutTime (after.dropWhile inBlock)) : CutTime lines

/-! ## Times -/

theorem parseField_returns (message : String) (field : Str) :
    ReturnsWith (fun _ => True) (parseField f64 message field) := by
  unfold parseField
  cases f64.parse field with
  | none => exact returnsWith_error _
  | some value => exact returnsWith_ok trivial

theorem parseTimestamp_returns (timestamp : Str) : ReturnsWith (fun _ => True) (parseTimestamp f64 timestamp) := by
  unfold parseTimestamp
  rcases timestamp.splitOn ':' with _ | ⟨first, _ | ⟨second, _ | ⟨third, _ | ⟨fourth, parts⟩⟩⟩⟩
  · exact returnsWith_error _
  · exact returnsWith_error _
  · refine returnsWith_bind (parseField_returns f64 _ first) fun minutes _ => ?_
    rw [pure_bind]
    dsimp only
    split
    · refine returnsWith_bind (parseField_returns f64 _ _) fun _ _ => ?_
      exact returnsWith_bind (parseField_returns f64 _ _) fun _ _ => returnsWith_ok trivial
    · exact returnsWith_error _
  · refine returnsWith_bind (parseField_returns f64 _ first) fun hours _ => ?_
    refine returnsWith_bind (parseField_returns f64 _ second) fun minutes _ => ?_
    rw [pure_bind]
    dsimp only
    split
    · refine returnsWith_bind (parseField_returns f64 _ _) fun _ _ => ?_
      exact returnsWith_bind (parseField_returns f64 _ _) fun _ _ => returnsWith_ok trivial
    · exact returnsWith_error _
  · exact returnsWith_error _

/-- The end time can be cut out unless it is cut inside a character. -/
theorem strSlice_endTime {stop whole fraction : Str} {fields : List Str}
    (hsplit : stop.splitOn '.' = whole :: fraction :: fields) (hlength : 3 ≤ byteLen fraction) :
    (dropBytes 3 fraction = none ∧ strSlice stop 0 (byteLen whole + 4) = .error .panic) ∨
      (dropBytes 3 fraction ≠ none ∧ ∃ part, strSlice stop 0 (byteLen whole + 4) = .ok part) := by
  have hjoin : stop = (whole ++ ['.']) ++ (['.'].intercalate (fraction :: fields)) := by
    have hintercalate : ['.'].intercalate (stop.splitOn '.') = stop := List.intercalate_splitOn '.'
    rw [hsplit] at hintercalate
    rw [← hintercalate]
    simp [List.intercalate]
  have hfraction : ∃ others, ['.'].intercalate (fraction :: fields) = fraction ++ others := by
    cases fields with
    | nil => exact ⟨[], by simp [List.intercalate]⟩
    | cons field fields => exact ⟨'.' :: ['.'].intercalate (field :: fields), by simp [List.intercalate]⟩
  obtain ⟨others, hothers⟩ := hfraction
  have hwhole : byteLen (whole ++ ['.']) = byteLen whole + 1 := by
    rw [byteLen_append]
    rfl
  have hdrop : dropBytes (byteLen whole + 4) stop = (dropBytes 3 fraction).map (· ++ others) := by
    have hsum : byteLen whole + 4 = byteLen (whole ++ ['.']) + 3 := by omega
    rw [hjoin, hothers, hsum, dropBytes_add (dropBytes_append _ _), dropBytes_append_of_le hlength]
  have hle : byteLen whole + 4 ≤ byteLen stop := by
    rw [hjoin, hothers, byteLen_append, hwhole, byteLen_append]
    omega
  have htake := takeBytes_isSome (byteLen whole + 4) stop
  rw [hdrop, Option.isSome_map] at htake
  have hstart : dropBytes 0 stop = some stop := by
    cases stop <;> rfl
  unfold strSlice slice
  rw [if_neg (by omega), hstart, Option.bind_some, Nat.sub_zero]
  cases hpart : takeBytes (byteLen whole + 4) stop with
  | none =>
    rw [hpart] at htake
    exact Or.inl ⟨Option.not_isSome_iff_eq_none.mp (by rw [← htake]; exact Bool.false_ne_true), rfl⟩
  | some part =>
    rw [hpart] at htake
    refine Or.inr ⟨?_, part, rfl⟩
    intro hnone
    rw [hnone] at htake
    cases htake

theorem parseTimingLine_returns_iff (line : Str) : Returns (parseTimingLine f64 line) ↔ ¬ CutsCharacter line := by
  unfold parseTimingLine
  rcases hparts : splitArrow line with _ | ⟨start, _ | ⟨stop, parts⟩⟩
  · refine iff_of_true (returns_error _) ?_
    rintro ⟨_, _, _, _, _, _, h, -⟩
    rw [hparts] at h
    cases h
  · refine iff_of_true (returns_error _) ?_
    rintro ⟨_, _, _, _, _, _, h, -⟩
    rw [hparts] at h
    cases h
  · have hinv : CutsCharacter line → ∃ whole fraction fields, stop.splitOn '.' = whole :: fraction :: fields ∧
        3 ≤ byteLen fraction ∧ dropBytes 3 fraction = none := by
      rintro ⟨_, _, _, whole, fraction, fields, h, hrest⟩
      rw [hparts] at h
      cases h
      exact ⟨whole, fraction, fields, hrest⟩
    dsimp only
    rcases hfields : stop.splitOn '.' with _ | ⟨whole, _ | ⟨fraction, fields⟩⟩
    · refine iff_of_true (returns_error _) ?_
      intro h
      obtain ⟨_, _, _, h, -⟩ := hinv h
      rw [hfields] at h
      cases h
    · refine iff_of_true (returns_error _) ?_
      intro h
      obtain ⟨_, _, _, h, -⟩ := hinv h
      rw [hfields] at h
      cases h
    · dsimp only
      by_cases hshort : byteLen fraction < 3
      · rw [if_pos hshort]
        refine iff_of_true (returns_error _) ?_
        intro h
        obtain ⟨_, _, _, h, hlength, -⟩ := hinv h
        rw [hfields] at h
        cases h
        omega
      · rw [if_neg hshort]
        have hlength := Nat.not_lt.mp hshort
        rcases strSlice_endTime hfields hlength with ⟨hcut, hslice⟩ | ⟨hcut, part, hslice⟩
        · rw [hslice]
          refine iff_of_false (fun h => h.1 rfl) ?_
          exact fun h => h ⟨start, stop, parts, whole, fraction, fields, hparts, hfields, hlength, hcut⟩
        · rw [hslice]
          refine iff_of_true ?_ ?_
          · refine (returnsWith_bind (Q := fun _ => True) (returnsWith_ok (P := fun _ => True) trivial) fun part _ => ?_).1
            refine returnsWith_bind (parseTimestamp_returns f64 (trim start)) fun startTime _ => ?_
            exact returnsWith_bind (parseTimestamp_returns f64 (trim part)) fun _ _ => returnsWith_ok trivial
          · intro h
            obtain ⟨_, _, _, h, -, hcut'⟩ := hinv h
            rw [hfields] at h
            cases h
            exact hcut hcut'

/-! ## Cues -/

theorem cueTiming_returns {line : Str} {rest : List Str} : Returns (cueTiming (line :: rest)) := by
  unfold cueTiming
  by_cases harrow : looksLikeTimestampLine (trim line) = true
  · simp only [if_pos harrow]
    exact returns_ok _
  · simp only [if_neg harrow]
    cases rest with
    | nil => exact returns_error _
    | cons timing rest => exact returns_ok _

/-- How a cut time is found at a line that opens a cue. -/
theorem cutTime_cue_iff {line : Str} {rest : List Str} (hne : trim line ≠ [])
    (h : opensSkippedBlock (trim line) = false) :
    CutTime f64 (line :: rest) ↔ ∃ timing after, cueTiming (line :: rest) = .ok (timing, after) ∧
      (CutsCharacter timing ∨ ReadsTimes f64 timing ∧ CutTime f64 (after.dropWhile inBlock)) := by
  constructor
  · intro hcut
    cases hcut with
    | blank hblank _ => exact absurd hblank hne
    | skipped _ hskip _ =>
      rw [h] at hskip
      cases hskip
    | here hopens hcut =>
      obtain ⟨_, _, -, -, -, htiming⟩ := hopens
      exact ⟨_, _, htiming, Or.inl hcut⟩
    | later hopens hreads hrest =>
      obtain ⟨_, _, -, -, -, htiming⟩ := hopens
      exact ⟨_, _, htiming, Or.inr ⟨hreads, hrest⟩⟩
  · rintro ⟨timing, after, htiming, hcut | ⟨hreads, hrest⟩⟩
    · exact .here ⟨line, rest, rfl, hne, h, htiming⟩ hcut
    · exact .later ⟨line, rest, rfl, hne, h, htiming⟩ hreads hrest

/-- Reading cues returns unless a time is cut inside a character. By induction on the number of lines. -/
theorem cues_returns_iff (lines : List Str) (cueIndex : Nat) :
    Returns (cues f64 lines cueIndex) ↔ ¬ CutTime f64 lines := by
  induction hn : lines.length using Nat.strong_induction_on generalizing lines cueIndex with
  | _ n ih =>
    cases lines with
    | nil =>
      rw [cues_nil]
      refine iff_of_true (returns_ok _) ?_
      intro hcut
      cases hcut with
      | here hopens _ =>
        obtain ⟨_, _, h, -⟩ := hopens
        cases h
      | later hopens _ _ =>
        obtain ⟨_, _, h, -⟩ := hopens
        cases h
    | cons line rest =>
      rw [List.length_cons] at hn
      have hblock := dropBlock_length_le rest
      by_cases hblank : trim line = []
      · rw [cues_blank f64 hblank, ih rest.length (by omega) rest cueIndex rfl, not_iff_not]
        refine ⟨.blank hblank, ?_⟩
        intro hcut
        cases hcut with
        | blank _ hrest => exact hrest
        | skipped hne _ _ => exact absurd hblank hne
        | here hopens _ =>
          obtain ⟨_, _, h, hne, -⟩ := hopens
          cases h
          exact absurd hblank hne
        | later hopens _ _ =>
          obtain ⟨_, _, h, hne, -⟩ := hopens
          cases h
          exact absurd hblank hne
      · by_cases hskip : opensSkippedBlock (trim line) = true
        · rw [cues_skipped f64 hblank hskip, ih _ (by omega) (rest.dropWhile inBlock) cueIndex rfl, not_iff_not]
          refine ⟨.skipped hblank hskip, ?_⟩
          intro hcut
          cases hcut with
          | blank h _ => exact absurd h hblank
          | skipped _ _ hrest => exact hrest
          | here hopens _ =>
            obtain ⟨_, _, h, -, hcue, -⟩ := hopens
            cases h
            rw [hskip] at hcue
            cases hcue
          | later hopens _ _ =>
            obtain ⟨_, _, h, -, hcue, -⟩ := hopens
            cases h
            rw [hskip] at hcue
            cases hcue
        · have hcue : opensSkippedBlock (trim line) = false := Bool.not_eq_true _ ▸ hskip
          rw [cues_cue f64 hblank hcue, cutTime_cue_iff f64 hblank hcue]
          have hreturns : Returns (cueTiming (line :: rest)) := cueTiming_returns
          cases htiming : cueTiming (line :: rest) with
          | error failure =>
            rw [htiming] at hreturns
            refine iff_of_true (returns_failed hreturns) ?_
            rintro ⟨_, _, h, -⟩
            cases h
          | ok result =>
            obtain ⟨timing, after⟩ := result
            have hlt := cueTiming_length_lt htiming
            have hle := dropBlock_length_le after
            rw [List.length_cons] at hlt
            have htimes := parseTimingLine_returns_iff f64 timing
            simp only [Except.bind]
            cases hread : parseTimingLine f64 timing with
            | error failure =>
              rw [hread] at htimes
              have hfailed : ¬ ReadsTimes f64 timing := by
                rintro ⟨times, h⟩
                rw [hread] at h
                cases h
              have herror : Returns (.error failure : Except Failure (List (UnifiedTranscriptEntry F))) ↔
                  Returns (.error failure : Except Failure (F × F)) := ⟨returns_failed, returns_failed⟩
              rw [herror, htimes, not_iff_not]
              constructor
              · exact fun h => ⟨timing, after, rfl, Or.inl h⟩
              · rintro ⟨_, _, h, hcut | ⟨hreads, -⟩⟩
                · cases h
                  exact hcut
                · cases h
                  exact absurd hreads hfailed
            | ok times =>
              rw [hread] at htimes
              have hcuts : ¬ CutsCharacter timing := htimes.mp (returns_ok times)
              rw [returns_map, ih _ (by omega) (after.dropWhile inBlock) (cueIndex + 1) rfl, not_iff_not]
              constructor
              · exact fun h => ⟨timing, after, rfl, Or.inr ⟨⟨times, hread⟩, h⟩⟩
              · rintro ⟨_, _, h, hcut | ⟨-, hrest⟩⟩
                · cases h
                  exact absurd hcut hcuts
                · cases h
                  exact hrest

/-- The text has no first line, or after its header a time is cut inside a character. -/
def CutText (input : Str) : Prop :=
  strLines input = [] ∨
    ∃ firstLine rest, strLines input = firstLine :: rest ∧ isWebVttHeader firstLine = true ∧ CutTime f64 rest

/-- **The parser returns on a text unless it is empty or a time is cut inside a character.** -/
theorem parse_returns_iff (input : Str) : Returns (parse f64 input) ↔ ¬ CutText f64 input := by
  rw [parse_eq_cues]
  unfold CutText
  cases hlines : strLines input with
  | nil => exact iff_of_false (fun h => h.1 rfl) (fun h => h (Or.inl rfl))
  | cons firstLine rest =>
    dsimp only
    by_cases hheader : isWebVttHeader firstLine = true
    · rw [if_pos hheader, cues_returns_iff, not_iff_not]
      constructor
      · exact fun h => Or.inr ⟨firstLine, rest, rfl, hheader, h⟩
      · rintro (h | ⟨_, _, h, -, hcut⟩)
        · cases h
        · cases h
          exact hcut
    · rw [if_neg hheader]
      refine iff_of_true (returns_error _) ?_
      rintro (h | ⟨_, _, h, hheader', -⟩)
      · cases h
      · cases h
        exact hheader hheader'

end WebVTTParser

end Transcript

end Fenic
