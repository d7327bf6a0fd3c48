import Fenic.Transcript.Types
import Mathlib.Data.List.TakeWhile

/-!
# `Transcript.WebVttCues` — the WebVTT parser, line by line

`WebVTTParser::parse` walks through the lines with an index. An empty text has no first line. The end time is cut
out of the timing line by counting bytes after the `.`, which need not end at a character.

The two regular expressions are matched as they are written: a repetition takes as much as it can and gives back.

The same parser over the lines that are still to be read, without an index. The parser over the indices agrees with
it on every text (`parse_eq_cues`): apart from the first line of an empty text, every index is within the lines.
-/

namespace Fenic

namespace Transcript

open Utf8

variable {F : Type} (f64 : F64 F)

namespace WebVTTParser

/-- `looks_like_timestamp_line`. -/
def looksLikeTimestampLine (line : Str) : Bool :=
  containsArrow line

/-! ## The payload -/

/-- `p*`, greedy, and what follows it. -/
def many {α : Type} (p : Char → Bool) : Str → (Str → Str → Option α) → Option α
  | [], next => next [] []
  | c :: text, next =>
    if p c then (many p text fun run rest => next (c :: run) rest).or (next [] (c :: text)) else next [] (c :: text)

/-- `p+`, greedy, and what follows it. -/
def manyOne {α : Type} (p : Char → Bool) (text : Str) (next : Str → Str → Option α) : Option α :=
  match text with
  | [] => none
  | c :: text => if p c then many p text fun run rest => next (c :: run) rest else none

/-- `\s+([^>]+)>`, and its group. -/
def speakerName (text : Str) : Option Str :=
  manyOne isWhitespace text fun _ text =>
    manyOne (· ≠ '>') text fun name rest => if rest.head? = some '>' then some name else none

/-- `<v(?:\.[^>]*)?\s+([^>]+)>` at the start of a text, and its group. -/
def speakerAt : Str → Option Str
  | '<' :: 'v' :: text =>
    let withClass := match text with
      | '.' :: text => many (· ≠ '>') text fun _ text => speakerName text
      | _ => none
    withClass.or (speakerName text)
  | _ => none

/-- `speaker_regex().captures`: the first match. -/
def speakerCapture : Str → Option Str
  | [] => none
  | c :: text => (speakerAt (c :: text)).or (speakerCapture text)

/-- `html_tag_regex().replace_all` with nothing, outside or inside a tag. -/
def removeTags : Bool → Str → Str
  | _, [] => []
  | true, c :: text => removeTags (c ≠ '>') text
  | false, c :: text => if c = '<' ∧ '>' ∈ text then removeTags true text else c :: removeTags false text

/-- The payload as it is returned: without tags, and its lines trimmed and joined by a blank. -/
def cleanPayload (content : Str) : Str :=
  [' '].intercalate (((strLines (removeTags false content)).map trim).filter (· ≠ []))

/-- `parse_payload_and_speaker`. -/
def parsePayloadAndSpeaker (content : Str) : Option Str × Str :=
  ((speakerCapture content).map trim, cleanPayload content)

/-! ## Times -/

def parseField (message : String) (field : Str) : Except Failure F :=
  match f64.parse field with
  | some value => .ok value
  | none => invalidFormat message field

def invalidTimestamp {α : Type} (timestamp : Str) : Except Failure α :=
  invalidFormat "Invalid timestamp format: " (timestamp ++ ".  Expected MM:SS.mmm or HH:MM:SS.mmm".toList)

/-- `parse_timestamp`. -/
def parseTimestamp (timestamp : Str) : Except Failure F := do
  let (hours, minutes, secondsPart) ← match timestamp.splitOn ':' with
    | [hours, minutes, secondsPart] => do
      let hours ← parseField f64 "Invalid hours in timestamp: " hours
      let minutes ← parseField f64 "Invalid minutes in timestamp: " minutes
      pure (hours, minutes, secondsPart)
    | [minutes, secondsPart] => do
      let minutes ← parseField f64 "Invalid minutes in timestamp: " minutes
      pure (f64.ofNat 0, minutes, secondsPart)
    | _ => invalidTimestamp timestamp
  match secondsPart.splitOn '.' with
  | [seconds, milliseconds] => do
    let seconds ← parseField f64 "Invalid seconds: " seconds
    let milliseconds ← parseField f64 "Invalid milliseconds: " milliseconds
    return f64.add (f64.add (f64.add (f64.mul hours (f64.ofNat 3600)) (f64.mul minutes (f64.ofNat 60))) seconds)
      (f64.div milliseconds (f64.ofNat 1000))
  | _ => invalidTimestamp timestamp

def invalidTimingLine {α : Type} (line : Str) : Except Failure α :=
  invalidFormat "Invalid timestamp line: " (line ++
    ".  Expected format: HH:MM:SS.mmm --> HH:MM:SS.mmm or MM:SS.mmm --> MM:SS.mmm".toList)

/-- The times of a timing line. The end time ends three bytes after its `.`. -/
def parseTimingLine (line : Str) : Except Failure (F × F) :=
  match splitArrow line with
  | start :: stop :: _ =>
    match stop.splitOn '.' with
    | whole :: fraction :: _ =>
      if byteLen fraction < 3 then invalidTimingLine line
      else do
        let stop ← strSlice stop 0 (byteLen whole + 4)
        let startTime ← parseTimestamp f64 (trim start)
        let endTime ← parseTimestamp f64 (trim stop)
        return (startTime, endTime)
    | _ => invalidTimingLine line
  | _ => invalidTimingLine line

/-! ## Blocks -/

/-- `lines[i]`. -/
def getLine (lines : List Str) (i : Nat) : Except Failure Str :=
  match lines[i]? with
  | some line => .ok line
  | none => .error .panic

/-- The loop over the lines up to a blank one: these lines, and the index after them. -/
def blockLoop (lines : List Str) : Nat → Nat → Except Failure (List Str × Nat)
  | 0, _ => .error .diverge
  | fuel + 1, i =>
    if i < lines.length then do
      let line ← getLine lines i
      if trim line ≠ [] then do
        let (block, i) ← blockLoop lines fuel (i + 1)
        return (line :: block, i)
      else return ([], i)
    else return ([], i)

/-- `skip_block`. -/
def skipBlock (lines : List Str) (startIndex : Nat) : Except Failure Nat := do
  let (_, i) ← blockLoop lines (lines.length + 1) (startIndex + 1)
  return i

/-- The timing line of a cue, and its index. -/
def timingLine (lines : List Str) (index : Nat) : Except Failure (Str × Nat) := do
  let line ← getLine lines index
  if looksLikeTimestampLine (trim line) then return (trim line, index)
  else if lines.length ≤ index + 1 then invalidFormat "Non-cue line found at end of file" []
  else do
    let line ← getLine lines (index + 1)
    return (trim line, index + 1)

/-- The entry of a cue. -/
def cueEntry (cueIndex : Nat) (times : F × F) (contentLines : List Str) : UnifiedTranscriptEntry F :=
  let (speaker, content) := parsePayloadAndSpeaker (unlines contentLines)
  { index := some (usizeAsI64 cueIndex)
    speaker := speaker
    startTime := times.1
    endTime := some times.2
    duration := some (f64.sub times.2 times.1)
    content := content
    format := "webvtt" }

/-- `parse_cue`: the entry, and the index after the cue. -/
def parseCue (lines : List Str) (index cueIndex : Nat) : Except Failure (UnifiedTranscriptEntry F × Nat) := do
  let (line, index) ← timingLine lines index
  let times ← parseTimingLine f64 line
  let (contentLines, index) ← blockLoop lines (lines.length + 1) (index + 1)
  return (cueEntry f64 cueIndex times contentLines, index)

/-- The line opens a block that is not a cue. -/
def opensSkippedBlock (line : Str) : Bool :=
  "NOTE".toList.isPrefixOf line || "STYLE".toList.isPrefixOf line || "REGION".toList.isPrefixOf line

def parseLoop (lines : List Str) : Nat → Nat → Nat → Except Failure (List (UnifiedTranscriptEntry F))
  | 0, _, _ => .error .diverge
  | fuel + 1, i, cueIndex =>
    if i < lines.length then do
      let line ← getLine lines i
      if trim line = [] then parseLoop lines fuel (i + 1) cueIndex
      else if opensSkippedBlock (trim line) then do
        let i ← skipBlock lines i
        parseLoop lines fuel i cueIndex
      else do
        let (entry, i) ← parseCue f64 lines i (cueIndex + 1)
        let entries ← parseLoop lines fuel i (cueIndex + 1)
        return entry :: entries
    else return []

/-- The first line is a header. -/
def isWebVttHeader (line : Str) : Bool :=
  "WEBVTT".toList.isPrefixOf ((trim line).dropWhile (· = Char.ofNat 0xFEFF))

/-- `WebVTTParser::parse`. -/
def parse (input : Str) : Except Failure (List (UnifiedTranscriptEntry F)) := do
  let lines := strLines input
  let firstLine ← getLine lines 0
  if isWebVttHeader firstLine then parseLoop f64 lines (lines.length + 1) 1 0
  else invalidFormat "No WEBVTT header found" []

/-! ## The WebVTT parser, line by line -/

variable {F : Type} (f64 : F64 F)

/-- The line belongs to the block before it. -/
def inBlock (line : Str) : Bool :=
  trim line ≠ []

/-- The timing line of the cue at the first of the lines, and the lines after it. -/
def cueTiming : List Str → Except Failure (Str × List Str)
  | [] => .error .panic
  | line :: rest =>
    if looksLikeTimestampLine (trim line) then .ok (trim line, rest)
    else match rest with
      | [] => invalidFormat "Non-cue line found at end of file" []
      | timingLine :: rest => .ok (trim timingLine, rest)

variable {line : Str}

theorem cueTiming_length_lt {lines rest : List Str} (h : cueTiming lines = .ok (line, rest)) :
    rest.length < lines.length := by
  unfold cueTiming at h
  cases lines with
  | nil => cases h
  | cons first others =>
    simp only at h
    by_cases harrow : looksLikeTimestampLine (trim first) = true
    · rw [if_pos harrow] at h
      cases h
      exact Nat.lt_succ_self _
    · rw [if_neg harrow] at h
      cases others with
      | nil => cases h
      | cons second others =>
        cases h
        rw [List.length_cons, List.length_cons]
        omega

theorem dropBlock_length_le (lines : List Str) : (lines.dropWhile inBlock).length ≤ lines.length :=
  (List.dropWhile_suffix _).length_le

/-- The cues of some lines. -/
def cues (lines : List Str) (cueIndex : Nat) : Except Failure (List (UnifiedTranscriptEntry F)) :=
  match lines with
  | [] => .ok []
  | line :: rest =>
    if trim line = [] then cues rest cueIndex
    else if opensSkippedBlock (trim line) then cues (rest.dropWhile inBlock) cueIndex
    else match _htiming : cueTiming (line :: rest) with
      | .error failure => .error failure
      | .ok (timing, after) =>
        match parseTimingLine f64 timing with
        | .error failure => .error failure
        | .ok times =>
          (cues (after.dropWhile inBlock) (cueIndex + 1)).map
            (cueEntry f64 (cueIndex + 1) times (after.takeWhile inBlock) :: ·)
termination_by lines.length
decreasing_by
  · exact Nat.lt_succ_self _
  · exact Nat.lt_succ_of_le (dropBlock_length_le rest)
  · exact Nat.lt_of_le_of_lt (dropBlock_length_le after) (cueTiming_length_lt _htiming)

theorem cues_nil (cueIndex : Nat) : cues f64 [] cueIndex = .ok [] := by
  rw [cues.eq_def]

theorem cues_blank {rest : List Str} (h : trim line = []) (cueIndex : Nat) :
    cues f64 (line :: rest) cueIndex = cues f64 rest cueIndex := by
  rw [cues.eq_def]
  simp only [if_pos h]

theorem cues_skipped {rest : List Str} (hne : trim line ≠ []) (h : opensSkippedBlock (trim line) = true)
    (cueIndex : Nat) : cues f64 (line :: rest) cueIndex = cues f64 (rest.dropWhile inBlock) cueIndex := by
  rw [cues.eq_def]
  simp only [if_neg hne, if_pos h]

/-- What `cues` does at a line that opens a cue. -/
theorem cues_cue {rest : List Str} (hne : trim line ≠ []) (h : opensSkippedBlock (trim line) = false)
    (cueIndex : Nat) :
    cues f64 (line :: rest) cueIndex =
      (cueTiming (line :: rest)).bind fun timing =>
        (parseTimingLine f64 timing.1).bind fun times =>
          (cues f64 (timing.2.dropWhile inBlock) (cueIndex + 1)).map
            (cueEntry f64 (cueIndex + 1) times (timing.2.takeWhile inBlock) :: ·) := by
  rw [cues.eq_def]
  simp only [if_neg hne, h]
  rw [if_neg Bool.false_ne_true]
  split
  · rename_i failure htiming
    rw [htiming]
    rfl
  · rename_i timing after htiming
    rw [htiming]
    simp only [Except.bind]
    cases parseTimingLine f64 timing <;> rfl

/-! ## The indices of the lines -/

variable {lines : List Str} {i : Nat} {rest : List Str}

theorem lt_of_drop_cons (h : lines.drop i = line :: rest) : i < lines.length := by
  by_contra hge
  rw [List.drop_eq_nil_of_le (Nat.not_lt.mp hge)] at h
  cases h

theorem getLine_drop (h : lines.drop i = line :: rest) : getLine lines i = .ok line := by
  have hget : lines[i]? = some line := by
    rw [← List.head?_drop, h]
    rfl
  unfold getLine
  rw [hget]

theorem drop_next (h : lines.drop i = line :: rest) : lines.drop (i + 1) = rest := by
  rw [← List.tail_drop, h]
  rfl

/-- The loop reads the lines up to a blank one, and its fuel lasts. -/
theorem blockLoop_drop {fuel : Nat} (h : lines.drop i = rest) (hfuel : rest.length < fuel) :
    ∃ i', blockLoop lines fuel i = .ok (rest.takeWhile inBlock, i') ∧ lines.drop i' = rest.dropWhile inBlock := by
  induction rest generalizing i fuel with
  | nil =>
    have hge : ¬ i < lines.length := Nat.not_lt.mpr (List.drop_eq_nil_iff.mp h)
    cases fuel with
    | zero => omega
    | succ fuel =>
      rw [blockLoop, if_neg hge]
      exact ⟨i, rfl, h⟩
  | cons line rest ih =>
    cases fuel with
    | zero => omega
    | succ fuel =>
      rw [blockLoop, if_pos (lt_of_drop_cons h), getLine_drop h]
      simp only [bind, Except.bind]
      by_cases hblank : trim line = []
      · have hout : inBlock line = false := by
          unfold inBlock
          simp [hblank]
        rw [if_neg (not_not_intro hblank), List.takeWhile_cons_of_neg (by rw [hout]; exact Bool.false_ne_true),
          List.dropWhile_cons_of_neg (by rw [hout]; exact Bool.false_ne_true)]
        exact ⟨i, rfl, h⟩
      · have hin : inBlock line = true := by
          unfold inBlock
          simp [hblank]
        rw [if_pos hblank, List.takeWhile_cons_of_pos hin, List.dropWhile_cons_of_pos hin]
        obtain ⟨i', hloop, hdrop⟩ := ih (drop_next h) (Nat.lt_of_succ_lt_succ hfuel)
        rw [hloop]
        exact ⟨i', rfl, hdrop⟩

theorem length_le_of_drop (h : lines.drop i = rest) : rest.length ≤ lines.length := by
  rw [← h, List.length_drop]
  exact Nat.sub_le _ _

theorem skipBlock_drop (h : lines.drop i = line :: rest) :
    ∃ i', skipBlock lines i = .ok i' ∧ lines.drop i' = rest.dropWhile inBlock := by
  have hnext := drop_next h
  obtain ⟨i', hloop, hdrop⟩ := blockLoop_drop hnext (Nat.lt_succ_of_le (length_le_of_drop hnext))
  unfold skipBlock
  rw [hloop]
  exact ⟨i', rfl, hdrop⟩

theorem timingLine_drop (h : lines.drop i = line :: rest) :
    (∃ failure, cueTiming (line :: rest) = .error failure ∧ timingLine lines i = .error failure) ∨
    (∃ timing after i', cueTiming (line :: rest) = .ok (timing, after) ∧ timingLine lines i = .ok (timing, i') ∧
      lines.drop (i' + 1) = after) := by
  unfold timingLine cueTiming
  rw [getLine_drop h]
  simp only [bind, Except.bind]
  have hnext := drop_next h
  by_cases harrow : looksLikeTimestampLine (trim line) = true
  · rw [if_pos harrow, if_pos harrow]
    exact Or.inr ⟨_, _, i, rfl, rfl, hnext⟩
  · rw [if_neg harrow, if_neg harrow]
    cases rest with
    | nil =>
      rw [if_pos (List.drop_eq_nil_iff.mp hnext)]
      exact Or.inl ⟨_, rfl, rfl⟩
    | cons timing rest =>
      rw [if_neg (Nat.not_le.mpr (lt_of_drop_cons hnext)), getLine_drop hnext]
      exact Or.inr ⟨_, _, i + 1, rfl, rfl, drop_next hnext⟩

theorem parseCue_drop (h : lines.drop i = line :: rest) (cueIndex : Nat) :
    (∃ failure, parseCue f64 lines i cueIndex = .error failure ∧
      ((cueTiming (line :: rest)).bind fun timing => parseTimingLine f64 timing.1) = .error failure) ∨
    (∃ timing after times i', cueTiming (line :: rest) = .ok (timing, after) ∧
      parseTimingLine f64 timing = .ok times ∧
      parseCue f64 lines i cueIndex = .ok (cueEntry f64 cueIndex times (after.takeWhile inBlock), i') ∧
      lines.drop i' = after.dropWhile inBlock) := by
  unfold parseCue
  rcases timingLine_drop h with ⟨failure, hcue, hline⟩ | ⟨timing, after, i', hcue, hline, hdrop⟩
  · left
    rw [hcue, hline]
    exact ⟨failure, rfl, rfl⟩
  · rw [hcue, hline]
    simp only [bind, Except.bind]
    cases htimes : parseTimingLine f64 timing with
    | error failure => exact Or.inl ⟨failure, rfl, rfl⟩
    | ok times =>
      right
      obtain ⟨i'', hloop, hdrop'⟩ := blockLoop_drop hdrop (Nat.lt_succ_of_le (length_le_of_drop hdrop))
      rw [hloop]
      exact ⟨timing, after, times, i'', rfl, htimes, rfl, hdrop'⟩

theorem parseLoop_drop {fuel : Nat} (h : lines.drop i = rest) (hfuel : rest.length < fuel) (cueIndex : Nat) :
    parseLoop f64 lines fuel i cueIndex = cues f64 rest cueIndex := by
  induction fuel generalizing i rest cueIndex with
  | zero => omega
  | succ fuel ih =>
    rw [parseLoop]
    cases rest with
    | nil =>
      rw [if_neg (Nat.not_lt.mpr (List.drop_eq_nil_iff.mp h)), cues_nil]
      rfl
    | cons line rest =>
      rw [if_pos (lt_of_drop_cons h), getLine_drop h]
      rw [List.length_cons] at hfuel
      simp only [bind, Except.bind]
      by_cases hblank : trim line = []
      · rw [if_pos hblank, cues_blank f64 hblank]
        exact ih (drop_next h) (by omega) cueIndex
      · rw [if_neg hblank]
        by_cases hskip : opensSkippedBlock (trim line) = true
        · obtain ⟨i', hblock, hdrop⟩ := skipBlock_drop h
          have hle := dropBlock_length_le rest
          rw [if_pos hskip, cues_skipped f64 hblank hskip, hblock]
          exact ih hdrop (by omega) cueIndex
        · rw [if_neg hskip, cues_cue f64 hblank (Bool.not_eq_true _ ▸ hskip)]
          rcases parseCue_drop f64 h (cueIndex + 1) with ⟨failure, hparse, hcue⟩ |
            ⟨timing, after, times, i', hcue, htimes, hparse, hdrop⟩
          · rw [hparse]
            cases htiming : cueTiming (line :: rest) with
            | error failure' =>
              rw [htiming] at hcue
              cases hcue
              rfl
            | ok timing =>
              rw [htiming] at hcue
              simp only [Except.bind] at hcue ⊢
              rw [hcue]
          · have hlt := cueTiming_length_lt hcue
            have hle := dropBlock_length_le after
            rw [List.length_cons] at hlt
            rw [hparse, hcue]
            simp only [Except.bind, htimes]
            rw [ih hdrop (by omega) (cueIndex + 1)]
            cases cues f64 (after.dropWhile inBlock) (cueIndex + 1) <;> rfl

/-- **The parser over the indices reads the cues of the lines of the text.** -/
theorem parse_eq_cues (input : Str) :
    parse f64 input =
      match strLines input with
      | [] => .error .panic
      | firstLine :: rest =>
        if isWebVttHeader firstLine then cues f64 rest 0 else invalidFormat "No WEBVTT header found" [] := by
  unfold parse
  cases hlines : strLines input with
  | nil => rfl
  | cons firstLine rest =>
    have hfirst : getLine (firstLine :: rest) 0 = .ok firstLine := rfl
    simp only [hfirst, bind, Except.bind]
    by_cases hheader : isWebVttHeader firstLine = true
    · rw [if_pos hheader, if_pos hheader]
      have hfuel : rest.length < (firstLine :: rest).length + 1 := by
        rw [List.length_cons]
        omega
      have hdrop : (firstLine :: rest).drop 1 = rest := rfl
      exact parseLoop_drop f64 hdrop hfuel 0
    · rw [if_neg hheader, if_neg hheader]

end WebVTTParser

end Transcript

end Fenic
