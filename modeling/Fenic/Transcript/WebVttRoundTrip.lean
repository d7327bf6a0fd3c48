import Fenic.Transcript.Rendering
import Fenic.Transcript.WebVttCues

/-!
# `Transcript.WebVttRoundTrip` — cues that are written and parsed again

A file of cues is a header and the cues with blank lines between them. The parser skips a cue whose identifier
starts like a block that is not a cue, and cleans the payload. Cues without such an identifier come back, with their
payload cleaned (`parse_renderFile`).
-/

namespace Fenic

namespace Transcript

open Utf8

namespace WebVTTParser

/-- A time, in the parts of which it is written. The hours may be left out. -/
structure CueTime where
  hours : Option Nat
  minutes : Fin 60
  seconds : Fin 60
  milliseconds : Fin 1000

/-- `00:00:01.000` or `00:01.000`, up to the `.`. -/
def CueTime.renderWhole (time : CueTime) : Str :=
  match time.hours with
  | some hours => padded 2 hours ++ ':' :: (padded 2 time.minutes ++ ':' :: padded 2 time.seconds)
  | none => padded 2 time.minutes ++ ':' :: padded 2 time.seconds

def CueTime.render (time : CueTime) : Str :=
  time.renderWhole ++ '.' :: padded 3 time.milliseconds

/-- A line ends in a newline, with a carriage return before it or not. Neither is part of it. -/
def IsLine (line : Str) : Prop :=
  '\n' ∉ line ∧ line.getLast? ≠ some '\r'

instance (line : Str) : Decidable (IsLine line) :=
  inferInstanceAs (Decidable (_ ∧ _))

/-- A cue, with an identifier or not. No line of it is blank or contains an arrow, but the timing line. -/
structure Cue where
  identifier : Option Str
  start : CueTime
  stop : CueTime
  payload : List Str
  identifier_line : ∀ line ∈ identifier, IsLine line ∧ trim line ≠ [] ∧ containsArrow line = false
  payload_ne_nil : payload ≠ []
  payload_lines : ∀ line ∈ payload, IsLine line ∧ trim line ≠ [] ∧ containsArrow line = false

def Cue.timingLine (cue : Cue) : Str :=
  cue.start.render ++ [' '] ++ arrow ++ (' ' :: cue.stop.render)

/-- The lines of a cue. -/
def Cue.lines (cue : Cue) : List Str :=
  cue.identifier.toList ++ cue.timingLine :: cue.payload

/-- The lines of some cues, with a blank line between them. -/
def renderCues : List Cue → List Str
  | [] => []
  | [cue] => cue.lines
  | cue :: next :: rest => cue.lines ++ [] :: renderCues (next :: rest)

/-- The text of a file of cues. Each blank line of its ending is a newline at its end. -/
def renderFile (cues : List Cue) (ending : Nat) : Str :=
  unlines ("WEBVTT".toList :: [] :: (renderCues cues ++ List.replicate ending []))

variable {F : Type} (f64 : F64 F) (round : Rat → F)

/-- The time in seconds. -/
def CueTime.inSeconds (time : CueTime) : F :=
  let hours := match time.hours with
    | some hours => round hours
    | none => f64.ofNat 0
  f64.add (f64.add (f64.add (f64.mul hours (f64.ofNat 3600)) (f64.mul (round time.minutes) (f64.ofNat 60)))
    (round time.seconds)) (f64.div (round time.milliseconds) (f64.ofNat 1000))

def Cue.entry (cue : Cue) (index : Nat) : UnifiedTranscriptEntry F where
  index := some index
  speaker := (speakerCapture (unlines cue.payload)).map trim
  startTime := cue.start.inSeconds f64 round
  endTime := some (cue.stop.inSeconds f64 round)
  duration := some (f64.sub (cue.stop.inSeconds f64 round) (cue.start.inSeconds f64 round))
  content := cleanPayload (unlines cue.payload)
  format := "webvtt"

def entries : Nat → List Cue → List (UnifiedTranscriptEntry F)
  | _, [] => []
  | index, cue :: rest => cue.entry f64 round index :: entries (index + 1) rest

/-! ## Times -/

variable {time : CueTime} {c : Char}

theorem mem_renderWhole (hc : c ∈ time.renderWhole) : c.isDigit = true ∨ c = ':' := by
  unfold CueTime.renderWhole at hc
  have hminutes : c ∈ padded 2 time.minutes ++ ':' :: padded 2 time.seconds → c.isDigit = true ∨ c = ':' := by
    rw [List.mem_append, List.mem_cons]
    rintro (h | h | h)
    · exact Or.inl (allDigits_padded _ _ c h)
    · exact Or.inr h
    · exact Or.inl (allDigits_padded _ _ c h)
  cases hhours : time.hours with
  | none =>
    rw [hhours] at hc
    exact hminutes hc
  | some hours =>
    rw [hhours] at hc
    rcases List.mem_append.mp hc with h | h
    · exact Or.inl (allDigits_padded _ _ c h)
    · rcases List.mem_cons.mp h with h | h
      · exact Or.inr h
      · exact hminutes h

theorem mem_render (hc : c ∈ time.render) : c.isDigit = true ∨ c = ':' ∨ c = '.' := by
  unfold CueTime.render at hc
  rcases List.mem_append.mp hc with h | h
  · exact (mem_renderWhole h).imp id Or.inl
  · rcases List.mem_cons.mp h with h | h
    · exact Or.inr (Or.inr h)
    · exact Or.inl (allDigits_padded _ _ c h)

theorem noBlank_render (time : CueTime) : NoBlank time.render := by
  intro c hc
  rcases mem_render hc with h | rfl | rfl
  · exact (isDigit_props h).2.1
  · rfl
  · rfl

theorem not_mem_render (hdigit : c.isDigit = false) (hcolon : c ≠ ':') (hdot : c ≠ '.') :
    c ∉ time.render := by
  intro hc
  rcases mem_render hc with h | h | h
  · rw [hdigit] at h
    cases h
  · exact hcolon h
  · exact hdot h

variable {f64 round}

theorem parseField_padded (hround : ReadsDecimals f64 round) (message : String) (width n : Nat) :
    parseField f64 message (padded width n) = .ok (round n) := by
  unfold parseField
  rw [hround.digits (padded_ne_nil width n) (allDigits_padded width n), digitsValue_padded]

theorem parseTimestamp_render (hround : ReadsDecimals f64 round) (time : CueTime) :
    parseTimestamp f64 time.render = .ok (time.inSeconds f64 round) := by
  have hminutes := allDigits_padded 2 time.minutes
  have hseconds := allDigits_padded 2 time.seconds
  have hmilliseconds := allDigits_padded 3 time.milliseconds
  have hlast : ':' ∉ padded 2 time.seconds ++ '.' :: padded 3 time.milliseconds := by
    rw [List.mem_append, List.mem_cons]
    rintro (h | h | h)
    · exact hseconds.not_mem rfl h
    · cases h
    · exact hmilliseconds.not_mem rfl h
  have hfields : (padded 2 time.seconds ++ '.' :: padded 3 time.milliseconds).splitOn '.' =
      [padded 2 time.seconds, padded 3 time.milliseconds] := by
    rw [List.splitOn_append_cons_self_of_not_mem (hseconds.not_mem rfl), splitOn_of_not_mem (hmilliseconds.not_mem rfl)]
  have hparts : (padded 2 time.minutes ++ ':' :: (padded 2 time.seconds ++ '.' :: padded 3 time.milliseconds)).splitOn ':' =
      [padded 2 time.minutes, padded 2 time.seconds ++ '.' :: padded 3 time.milliseconds] := by
    rw [List.splitOn_append_cons_self_of_not_mem (hminutes.not_mem rfl), splitOn_of_not_mem hlast]
  unfold parseTimestamp CueTime.render CueTime.renderWhole CueTime.inSeconds
  cases time.hours with
  | none =>
    simp only [List.append_assoc, List.cons_append, hparts, parseField_padded hround, bind, Except.bind, pure,
      Except.pure, hfields]
  | some hours =>
    have hhours := allDigits_padded 2 hours
    simp only [List.append_assoc, List.cons_append]
    rw [List.splitOn_append_cons_self_of_not_mem (hhours.not_mem rfl), hparts]
    simp only [parseField_padded hround, bind, Except.bind, pure, Except.pure, hfields]

theorem splitArrow_timingLine (cue : Cue) :
    splitArrow cue.timingLine = [cue.start.render ++ [' '], ' ' :: cue.stop.render] := by
  have hminus : ∀ time : CueTime, '-' ∉ time.render := fun _ => not_mem_render rfl (by decide) (by decide)
  have hstart : '-' ∉ cue.start.render ++ [' '] := by
    rw [List.mem_append, List.mem_singleton]
    rintro (h | h)
    · exact hminus _ h
    · cases h
  have hstop : '-' ∉ ' ' :: cue.stop.render := by
    rw [List.mem_cons]
    rintro (h | h)
    · cases h
    · exact hminus _ h
  unfold Cue.timingLine
  rw [splitArrow_append hstart, splitArrow_of_not_mem hstop]

/-- The end time is cut out up to its last digit. -/
theorem parseTimingLine_timingLine (hround : ReadsDecimals f64 round) (cue : Cue) :
    parseTimingLine f64 cue.timingLine = .ok (cue.start.inSeconds f64 round, cue.stop.inSeconds f64 round) := by
  have hmilliseconds := allDigits_padded 3 cue.stop.milliseconds
  have hwhole : '.' ∉ ' ' :: cue.stop.renderWhole := by
    rw [List.mem_cons]
    rintro (h | h)
    · cases h
    · rcases mem_renderWhole h with h | h
      · cases h
      · cases h
  have hstop : ' ' :: cue.stop.render = (' ' :: cue.stop.renderWhole) ++ '.' :: padded 3 cue.stop.milliseconds := rfl
  have hfields : (' ' :: cue.stop.render).splitOn '.' = [' ' :: cue.stop.renderWhole, padded 3 cue.stop.milliseconds] := by
    rw [hstop, List.splitOn_append_cons_self_of_not_mem hwhole, splitOn_of_not_mem (hmilliseconds.not_mem rfl)]
  have hbytes : byteLen (padded 3 cue.stop.milliseconds) = 3 := by
    rw [byteLen_digits hmilliseconds]
    exact length_padded (by decide) cue.stop.milliseconds.isLt
  have hlength : byteLen (' ' :: cue.stop.renderWhole) + 4 = byteLen (' ' :: cue.stop.render) := by
    have hdot : Char.utf8Size '.' = 1 := rfl
    rw [hstop, byteLen_append, byteLen_cons '.', hbytes, hdot]
  have hslice : strSlice (' ' :: cue.stop.render) 0 (byteLen (' ' :: cue.stop.renderWhole) + 4) =
      .ok (' ' :: cue.stop.render) := by
    have hall := strSlice_append [] (' ' :: cue.stop.render) []
    rw [List.append_nil, List.nil_append, byteLen_nil, Nat.zero_add] at hall
    rw [hlength]
    exact hall
  unfold parseTimingLine
  rw [splitArrow_timingLine]
  dsimp only
  rw [hfields]
  dsimp only
  rw [hbytes, if_neg (Nat.lt_irrefl 3), hslice, (noBlank_render cue.start).trim_after,
    parseTimestamp_render hround]
  simp only [bind, Except.bind]
  rw [(noBlank_render cue.stop).trim_before, parseTimestamp_render hround]
  rfl

/-! ## One cue -/

theorem render_ne_nil (time : CueTime) : time.render ≠ [] :=
  List.append_ne_nil_of_right_ne_nil _ (List.cons_ne_nil _ _)

theorem trim_timingLine (cue : Cue) : trim cue.timingLine = cue.timingLine := by
  have hbetween := trim_between (noBlank_render cue.start) (render_ne_nil cue.start) (noBlank_render cue.stop)
    (render_ne_nil cue.stop) ([' '] ++ arrow ++ [' '])
  have hline : cue.timingLine = cue.start.render ++ ([' '] ++ arrow ++ [' ']) ++ cue.stop.render := by
    unfold Cue.timingLine
    simp only [List.append_assoc, List.singleton_append]
  rw [hline]
  exact hbetween

/-- A timing line starts with a digit. -/
theorem timingLine_head (cue : Cue) : ∃ c text, cue.timingLine = c :: text ∧ c.isDigit = true := by
  have hdigits : ∀ (n : Nat) (text : Str), ∃ c text', padded 2 n ++ text = c :: text' ∧ c.isDigit = true := by
    intro n text
    cases hpadded : padded 2 n with
    | nil => exact absurd hpadded (padded_ne_nil 2 n)
    | cons c digits => exact ⟨c, digits ++ text, rfl, allDigits_padded 2 n c (by rw [hpadded]; exact List.mem_cons_self)⟩
  unfold Cue.timingLine CueTime.render CueTime.renderWhole
  cases cue.start.hours with
  | none | some _ =>
    simp only [List.append_assoc]
    exact hdigits _ _

theorem opensSkippedBlock_digit (h : c.isDigit = true) (text : Str) :
    opensSkippedBlock (c :: text) = false := by
  have hne : ∀ d : Char, d.isDigit = false → (d == c) = false := by
    intro d hd
    refine beq_eq_false_iff_ne.mpr ?_
    rintro rfl
    rw [h] at hd
    cases hd
  have hprefix : ∀ (d : Char) (start : Str), d.isDigit = false → (d :: start).isPrefixOf (c :: text) = false := by
    intro d start hd
    rw [List.isPrefixOf, hne d hd, Bool.false_and]
  have hnote : "NOTE".toList.isPrefixOf (c :: text) = false := hprefix 'N' _ rfl
  have hstyle : "STYLE".toList.isPrefixOf (c :: text) = false := hprefix 'S' _ rfl
  have hregion : "REGION".toList.isPrefixOf (c :: text) = false := hprefix 'R' _ rfl
  unfold opensSkippedBlock
  rw [hnote, hstyle, hregion]
  rfl

variable {line : Str}

theorem inBlock_eq (h : trim line ≠ []) : inBlock line = true :=
  decide_eq_true h

/-- The lines after a cue start with a blank one, if there are any. -/
def StartsBlank (after : List Str) : Prop :=
  after = [] ∨ ∃ rest, after = [] :: rest

variable {after : List Str}

theorem block_payload {payload : List Str} (h : ∀ line ∈ payload, trim line ≠ []) (hafter : StartsBlank after) :
    (payload ++ after).takeWhile inBlock = payload ∧ (payload ++ after).dropWhile inBlock = after := by
  have hall : ∀ line ∈ payload, inBlock line = true := fun line hline => inBlock_eq (h line hline)
  rw [List.takeWhile_append_of_pos hall, List.dropWhile_append_of_pos hall]
  rcases hafter with rfl | ⟨rest, rfl⟩
  · exact ⟨List.append_nil payload, rfl⟩
  · have hblank : ¬ inBlock [] = true := by decide
    rw [List.takeWhile_cons_of_neg hblank, List.dropWhile_cons_of_neg hblank]
    exact ⟨List.append_nil payload, rfl⟩

/-- The first line of a cue opens it, and its timing line is found. -/
theorem cueTiming_lines (cue : Cue) (hidentifier : ∀ line ∈ cue.identifier, opensSkippedBlock (trim line) = false)
    (after : List Str) :
    ∃ line rest, cue.lines ++ after = line :: rest ∧ trim line ≠ [] ∧ opensSkippedBlock (trim line) = false ∧
      cueTiming (line :: rest) = .ok (cue.timingLine, cue.payload ++ after) := by
  have harrow : looksLikeTimestampLine cue.timingLine = true := containsArrow_append _ _
  unfold Cue.lines
  cases hline : cue.identifier with
  | none =>
    obtain ⟨c, text, htiming, hdigit⟩ := timingLine_head cue
    refine ⟨cue.timingLine, cue.payload ++ after, rfl, ?_, ?_, ?_⟩
    · rw [trim_timingLine, htiming]
      exact List.cons_ne_nil _ _
    · rw [trim_timingLine, htiming]
      exact opensSkippedBlock_digit hdigit text
    · unfold cueTiming
      dsimp only
      rw [trim_timingLine]
      exact if_pos harrow
  | some line =>
    obtain ⟨-, hblank, hnoArrow⟩ := cue.identifier_line line hline
    have hnoArrow' : looksLikeTimestampLine (trim line) = false := by
      rw [← Bool.not_eq_true]
      intro h
      have hcontains := containsArrow_iff.mpr ((containsArrow_iff.mp h).trans (trim_isInfix line))
      rw [hnoArrow] at hcontains
      cases hcontains
    refine ⟨line, cue.timingLine :: (cue.payload ++ after), rfl, hblank, hidentifier line hline, ?_⟩
    unfold cueTiming
    simp only [hnoArrow', if_neg Bool.false_ne_true]
    rw [trim_timingLine]

theorem cues_lines (hround : ReadsDecimals f64 round) (cue : Cue)
    (hidentifier : ∀ line ∈ cue.identifier, opensSkippedBlock (trim line) = false)
    (hafter : StartsBlank after) {cueIndex : Nat} (hsize : cueIndex + 1 < 2 ^ 63) :
    cues f64 (cue.lines ++ after) cueIndex =
      (cues f64 after (cueIndex + 1)).map (cue.entry f64 round (cueIndex + 1) :: ·) := by
  obtain ⟨line, rest, hlines, hblank, hskip, htiming⟩ := cueTiming_lines cue hidentifier after
  obtain ⟨htake, hdrop⟩ := block_payload (fun line hline => (cue.payload_lines line hline).2.1) hafter
  have hnumber : usizeAsI64 (cueIndex + 1) = ((cueIndex + 1 : Nat) : Int) := if_pos hsize
  rw [hlines, cues_cue f64 hblank hskip, htiming]
  simp only [Except.bind, parseTimingLine_timingLine hround, htake, hdrop]
  unfold cueEntry parsePayloadAndSpeaker
  rw [hnumber]
  rfl

/-! ## All cues -/

theorem cues_blankLines (n cueIndex : Nat) : cues f64 (List.replicate n []) cueIndex = .ok [] := by
  induction n with
  | zero => exact cues_nil f64 cueIndex
  | succ n ih =>
    rw [List.replicate_succ, cues_blank f64 rfl]
    exact ih

/-- The parser reads one cue after the other. By induction on the cues. -/
theorem cues_renderCues (hround : ReadsDecimals f64 round) (cueList : List Cue) (cueIndex blank : Nat)
    (hsize : cueIndex + cueList.length < 2 ^ 63)
    (hidentifier : ∀ cue ∈ cueList, ∀ line ∈ cue.identifier, opensSkippedBlock (trim line) = false) :
    cues f64 (renderCues cueList ++ List.replicate blank []) cueIndex =
      .ok (entries f64 round (cueIndex + 1) cueList) := by
  induction cueList generalizing cueIndex with
  | nil => exact cues_blankLines blank cueIndex
  | cons cue rest ih =>
    rw [List.length_cons] at hsize
    have hcue := hidentifier cue List.mem_cons_self
    have hnext := ih (cueIndex + 1) (by omega) fun c hc => hidentifier c (List.mem_cons_of_mem _ hc)
    cases rest with
    | nil =>
      have hafter : StartsBlank (List.replicate blank []) := by
        cases blank with
        | zero => exact Or.inl rfl
        | succ n => exact Or.inr ⟨_, rfl⟩
      rw [renderCues, cues_lines hround cue hcue hafter (by omega), cues_blankLines]
      rfl
    | cons next rest =>
      have hlines : renderCues (cue :: next :: rest) ++ List.replicate blank [] =
          cue.lines ++ ([] :: (renderCues (next :: rest) ++ List.replicate blank [])) := by
        rw [renderCues, List.append_assoc]
        rfl
      rw [hlines, cues_lines hround cue hcue (Or.inr ⟨_, rfl⟩) (by omega), cues_blank f64 rfl, hnext]
      rfl

/-! ## The lines of the file -/

theorem stripCarriageReturn_of (h : IsLine line) : stripCarriageReturn line = line :=
  if_neg h.2

theorem linesOfParts_append {lines : List Str} (h : ∀ line ∈ lines, IsLine line) (hafter : after ≠ []) :
    linesOfParts (lines ++ after) = lines ++ linesOfParts after := by
  induction lines with
  | nil => rfl
  | cons line lines ih =>
    have hrest := ih fun line' hline' => h line' (List.mem_cons_of_mem _ hline')
    have hline := stripCarriageReturn_of (h line List.mem_cons_self)
    cases hmore : lines ++ after with
    | nil => exact absurd hmore (List.append_ne_nil_of_right_ne_nil _ hafter)
    | cons next more =>
      rw [List.cons_append, hmore, linesOfParts, hline, ← hmore, hrest]
      · rfl
      · exact List.cons_ne_nil _ _

theorem linesOfParts_blank (n : Nat) : linesOfParts (List.replicate (n + 1) []) = List.replicate n [] := by
  induction n with
  | zero => rfl
  | succ n ih =>
    rw [List.replicate_succ, List.replicate_succ, linesOfParts, ← List.replicate_succ, ih]
    · rfl
    · exact List.cons_ne_nil _ _

theorem isLine_of_not_mem (hnewline : '\n' ∉ line) (hreturn : '\r' ∉ line) : IsLine line :=
  ⟨hnewline, fun h => hreturn (List.mem_of_getLast? h)⟩

theorem isLine_lines (cue : Cue) : ∀ line ∈ cue.lines, IsLine line ∧ line ≠ [] := by
  have hne : ∀ {line : Str}, trim line ≠ [] → line ≠ [] := by
    rintro _ h rfl
    exact h rfl
  have htiming : ∀ c : Char, c.isDigit = false → c ≠ ':' → c ≠ '.' → c ≠ ' ' → c ∉ arrow → c ∉ cue.timingLine := by
    intro c hdigit hcolon hdot hblank harrow
    have hrender : ∀ time : CueTime, c ∉ time.render := fun _ => not_mem_render hdigit hcolon hdot
    unfold Cue.timingLine
    simp only [List.mem_append, List.mem_cons, List.not_mem_nil, or_false]
    rintro (((h | h) | h) | h | h)
    · exact hrender _ h
    · exact hblank h
    · exact harrow h
    · exact hblank h
    · exact hrender _ h
  intro line hline
  unfold Cue.lines at hline
  rcases List.mem_append.mp hline with h | h
  · obtain ⟨hline, hblank, -⟩ := cue.identifier_line line (Option.mem_toList.mp h)
    exact ⟨hline, hne hblank⟩
  · rcases List.mem_cons.mp h with rfl | h
    · obtain ⟨c, text, hhead, -⟩ := timingLine_head cue
      refine ⟨isLine_of_not_mem ?_ ?_, by rw [hhead]; exact List.cons_ne_nil _ _⟩
      · exact htiming '\n' rfl (by decide) (by decide) (by decide) (by decide)
      · exact htiming '\r' rfl (by decide) (by decide) (by decide) (by decide)
    · obtain ⟨hline, hblank, -⟩ := cue.payload_lines line h
      exact ⟨hline, hne hblank⟩

theorem isLine_renderCues (cueList : List Cue) : ∀ line ∈ renderCues cueList, IsLine line := by
  induction cueList with
  | nil => exact nofun
  | cons cue rest ih =>
    cases rest with
    | nil => exact fun line hline => (isLine_lines cue line hline).1
    | cons next rest =>
      intro line hline
      rcases List.mem_append.mp hline with h | h
      · exact (isLine_lines cue line h).1
      · rcases List.mem_cons.mp h with rfl | h
        · exact isLine_of_not_mem List.not_mem_nil List.not_mem_nil
        · exact ih line h

/-- The last line of the cues is not empty, so it is not dropped at the end of the text. -/
theorem renderCues_last {cueList : List Cue} (hne : cueList ≠ []) :
    ∃ lines line, renderCues cueList = lines ++ [line] ∧ line ≠ [] := by
  induction cueList with
  | nil => exact absurd rfl hne
  | cons cue rest ih =>
    cases rest with
    | nil =>
      have hlines : cue.lines ≠ [] := List.append_ne_nil_of_right_ne_nil _ (List.cons_ne_nil _ _)
      refine ⟨cue.lines.dropLast, cue.lines.getLast hlines, (List.dropLast_append_getLast hlines).symm, ?_⟩
      exact (isLine_lines cue _ (List.getLast_mem hlines)).2
    | cons next rest =>
      obtain ⟨lines, line, hrest, hline⟩ := ih (List.cons_ne_nil _ _)
      refine ⟨cue.lines ++ [] :: lines, line, ?_, hline⟩
      rw [renderCues, hrest, List.append_assoc]
      rfl

theorem strLines_renderFile (cueList : List Cue) (ending : Nat) : strLines (renderFile cueList ending) =
    linesOfParts ("WEBVTT".toList :: [] :: (renderCues cueList ++ List.replicate ending [])) := by
  have hcues : NoNewline (renderCues cueList) := fun line hline => (isLine_renderCues cueList line hline).1
  have hlines : NoNewline ("WEBVTT".toList :: [] :: (renderCues cueList ++ List.replicate ending [])) :=
    noNewline_cons (by decide) (noNewline_cons List.not_mem_nil (hcues.append (noNewline_blank ending)))
  unfold strLines renderFile
  rw [splitOn_unlines (List.cons_ne_nil _ _) hlines]

theorem isLine_header (cueList : List Cue) : ∀ line ∈ "WEBVTT".toList :: [] :: renderCues cueList, IsLine line := by
  intro line hline
  rcases List.mem_cons.mp hline with rfl | hline
  · exact isLine_of_not_mem (by decide) (by decide)
  · rcases List.mem_cons.mp hline with rfl | hline
    · exact isLine_of_not_mem List.not_mem_nil List.not_mem_nil
    · exact isLine_renderCues cueList line hline

/-- The lines of the file after its header. One newline at the end ends the last line. -/
theorem strLines_header (cueList : List Cue) (ending : Nat) :
    ∃ rest, strLines (renderFile cueList ending) = "WEBVTT".toList :: rest ∧
      (cueList = [] ∧ rest = [] ∨ ∃ blank, rest = [] :: (renderCues cueList ++ List.replicate blank [])) := by
  rw [strLines_renderFile]
  cases ending with
  | succ n =>
    have happend := linesOfParts_append (isLine_header cueList) (List.cons_ne_nil ([] : Str) (List.replicate n []))
    rw [← List.replicate_succ, linesOfParts_blank] at happend
    exact ⟨_, happend, Or.inr ⟨n, rfl⟩⟩
  | zero =>
    by_cases hnil : cueList = []
    · subst hnil
      exact ⟨[], rfl, Or.inl ⟨rfl, rfl⟩⟩
    · obtain ⟨lines, line, hcues, hline⟩ := renderCues_last hnil
      have hall := isLine_header cueList
      rw [hcues] at hall ⊢
      have hlines : ∀ line ∈ "WEBVTT".toList :: [] :: lines, IsLine line := fun line' hline' =>
        hall line' (List.mem_append_left [line] hline')
      have happend := linesOfParts_append hlines (List.cons_ne_nil line [])
      have hlast : linesOfParts [line] = [line] := if_neg hline
      rw [hlast] at happend
      refine ⟨[] :: (lines ++ [line]), ?_, Or.inr ⟨0, by rw [List.replicate_zero, List.append_nil]⟩⟩
      rw [List.replicate_zero, List.append_nil]
      exact happend

theorem length_le_renderCues (cueList : List Cue) : cueList.length ≤ (renderCues cueList).length := by
  induction cueList with
  | nil => exact Nat.le_refl 0
  | cons cue rest ih =>
    have hlines : 1 ≤ cue.lines.length := by
      unfold Cue.lines
      rw [List.length_append, List.length_cons]
      omega
    cases rest with
    | nil => exact hlines
    | cons next rest =>
      simp only [renderCues, List.length_append, List.length_cons] at ih ⊢
      omega

/-- **Cues come back, with their payload cleaned, when no identifier starts like a block that is not a cue.** -/
theorem parse_renderFile {F : Type} {f64 : F64 F} {round : Rat → F} (hround : ReadsDecimals f64 round)
    (cueList : List Cue) (ending : Nat) (hsize : byteLen (renderFile cueList ending) < 2 ^ 63)
    (hidentifier : ∀ cue ∈ cueList, ∀ line ∈ cue.identifier, opensSkippedBlock (trim line) = false) :
    parse f64 (renderFile cueList ending) = .ok (entries f64 round 1 cueList) := by
  have hbytes := length_le_byteLen_unlines ("WEBVTT".toList :: [] :: (renderCues cueList ++ List.replicate ending []))
  have hlength := length_le_renderCues cueList
  have hcues : cueList.length < 2 ^ 63 := by
    rw [List.length_cons, List.length_cons, List.length_append] at hbytes
    unfold renderFile at hsize
    omega
  have hheader : isWebVttHeader "WEBVTT".toList = true := by decide
  obtain ⟨rest, hlines, hrest⟩ := strLines_header cueList ending
  rw [parse_eq_cues, hlines]
  dsimp only
  rw [if_pos hheader]
  rcases hrest with ⟨rfl, rfl⟩ | ⟨blank, rfl⟩
  · exact cues_nil f64 0
  · rw [cues_blank f64 rfl]
    exact cues_renderCues hround cueList 0 blank (by omega) hidentifier

/-! ## Payloads without tags -/

instance neZeroSixty : NeZero 60 := ⟨by decide⟩

instance neZeroThousand : NeZero 1000 := ⟨by decide⟩

theorem singleton_ne_nil (line : Str) : [line] ≠ [] := List.cons_ne_nil line []

/-- A cue of one second with one line of payload. -/
def shortCue (identifier line : Str) (hidentifier : IsLine identifier ∧ trim identifier ≠ [] ∧ containsArrow identifier = false)
    (h : IsLine line ∧ trim line ≠ [] ∧ containsArrow line = false) : Cue where
  identifier := some identifier
  start := ⟨none, 0, 1, 0⟩
  stop := ⟨some 0, 0, 2, 500⟩
  payload := [line]
  identifier_line _ hline := Option.some.inj hline ▸ hidentifier
  payload_ne_nil := singleton_ne_nil line
  payload_lines _ hline := List.mem_singleton.mp hline ▸ h

theorem parse_renderFile_one : parse exactF64 (renderFile [shortCue ['1'] ['é', '.'] (by decide) (by decide)] 0) =
    .ok (entries exactF64 id 1 [shortCue ['1'] ['é', '.'] (by decide) (by decide)]) :=
  parse_renderFile exactF64_readsDecimals _ _ (by decide +kernel) (by decide +kernel)

/-- A cue whose identifier starts with `NOTE` is skipped, and a tag in a payload is removed. -/
theorem parse_renderFile_changed :
    parse exactF64 (renderFile [shortCue "NOTES".toList ['a'] (by decide) (by decide)] 1) = .ok [] ∧
      ∃ parsed, parse exactF64 (renderFile [shortCue ['1'] "a<b>c".toList (by decide) (by decide)] 1) = .ok [parsed] ∧
        parsed.content ≠ "a<b>c".toList := by
  refine ⟨by decide +kernel, (shortCue ['1'] "a<b>c".toList (by decide) (by decide)).entry exactF64 id 1, ?_, ?_⟩
  · decide +kernel
  · decide +kernel

end WebVTTParser

end Transcript

end Fenic
