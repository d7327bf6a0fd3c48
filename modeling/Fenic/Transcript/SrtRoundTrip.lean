import Fenic.Transcript.Rendering
import Fenic.Transcript.SrtBlocks

/-!
# `Transcript.SrtRoundTrip` — subtitles that are written and parsed again

Subtitles are written with their numbers, their times and their text, and with a blank line between them. The parser
takes a line of text that looks like an index for the next block, and trims the end of the text. Subtitles without
such a line come back, with their text trimmed at its end (`parse_render`).
-/

namespace Fenic

namespace Transcript

open Utf8

namespace SrtParser

/-- A time, in the parts of which it is written. -/
structure SrtTime where
  hours : Nat
  minutes : Fin 60
  seconds : Fin 60
  milliseconds : Fin 1000

/-- `00:00:20,000`. -/
def SrtTime.render (time : SrtTime) : Str :=
  padded 2 time.hours ++ ':' :: (padded 2 time.minutes ++ ':' :: (padded 2 time.seconds ++ ',' :: padded 3 time.milliseconds))

/-- A subtitle, whose text is some lines that are not blank and do not contain an arrow. -/
structure Subtitle where
  start : SrtTime
  stop : SrtTime
  text : List Str
  text_ne_nil : text ≠ []
  text_lines : ∀ line ∈ text, '\n' ∉ line ∧ trim line ≠ [] ∧ containsArrow line = false

def Subtitle.timingLine (subtitle : Subtitle) : Str :=
  subtitle.start.render ++ [' '] ++ arrow ++ (' ' :: subtitle.stop.render)

/-- The lines of a subtitle. -/
def Subtitle.lines (subtitle : Subtitle) (index : Nat) : List Str :=
  decimal index :: subtitle.timingLine :: subtitle.text

/-- The lines of subtitles that are numbered from an index on, with a blank line between them. -/
def renderLines : Nat → List Subtitle → List Str
  | _, [] => []
  | index, [subtitle] => subtitle.lines index
  | index, subtitle :: next :: rest => subtitle.lines index ++ [] :: renderLines (index + 1) (next :: rest)

/-- The text of subtitles that are numbered from 1 on. Each blank line of its ending is a newline at its end. -/
def render (subtitles : List Subtitle) (ending : Nat) : Str :=
  unlines (renderLines 1 subtitles ++ List.replicate ending [])

variable {F : Type} (f64 : F64 F) (round : Rat → F)

/-- The time in seconds. -/
def SrtTime.inSeconds (time : SrtTime) : F :=
  f64.add (f64.add (f64.mul (round time.hours) (f64.ofNat 3600)) (f64.mul (round time.minutes) (f64.ofNat 60)))
    (round (time.seconds + time.milliseconds / 1000))

def Subtitle.entry (subtitle : Subtitle) (index : Nat) : UnifiedTranscriptEntry F where
  index := some index
  speaker := none
  startTime := subtitle.start.inSeconds f64 round
  endTime := some (subtitle.stop.inSeconds f64 round)
  duration := some (f64.sub (subtitle.stop.inSeconds f64 round) (subtitle.start.inSeconds f64 round))
  content := trimEnd (unlines subtitle.text)
  format := "srt"

def entries : Nat → List Subtitle → List (UnifiedTranscriptEntry F)
  | _, [] => []
  | index, subtitle :: rest => subtitle.entry f64 round index :: entries (index + 1) rest

/-! ## Times -/

theorem mem_render {time : SrtTime} {c : Char} (hc : c ∈ time.render) : c.isDigit = true ∨ c = ':' ∨ c = ',' := by
  unfold SrtTime.render at hc
  simp only [List.mem_append, List.mem_cons] at hc
  rcases hc with h | h | h | h | h | h | h
  · exact Or.inl (allDigits_padded _ _ c h)
  · exact Or.inr (Or.inl h)
  · exact Or.inl (allDigits_padded _ _ c h)
  · exact Or.inr (Or.inl h)
  · exact Or.inl (allDigits_padded _ _ c h)
  · exact Or.inr (Or.inr h)
  · exact Or.inl (allDigits_padded _ _ c h)

theorem noBlank_render (time : SrtTime) : NoBlank time.render := by
  intro c hc
  rcases mem_render hc with h | rfl | rfl
  · exact (isDigit_props h).2.1
  · rfl
  · rfl

theorem not_mem_render {time : SrtTime} {c : Char} (hdigit : c.isDigit = false) (hcolon : c ≠ ':') (hcomma : c ≠ ',') :
    c ∉ time.render := by
  intro hc
  rcases mem_render hc with h | h | h
  · rw [hdigit] at h
    cases h
  · exact hcolon h
  · exact hcomma h

/-- Digits have no decimal comma to replace. -/
theorem normalized_digits {digits : Str} (h : AllDigits digits) :
    digits.map (fun c => if c = ',' then '.' else c) = digits := by
  rw [List.map_congr_left (g := id)]
  · exact List.map_id digits
  · intro c hc
    exact if_neg (isDigit_props (h c hc)).2.2.2.2.1

variable {f64 round}

theorem parseSrtTimestamp_render (hround : ReadsDecimals f64 round) (time : SrtTime) :
    parseSrtTimestamp f64 time.render = .ok (time.inSeconds f64 round) := by
  have hhours := allDigits_padded 2 time.hours
  have hminutes := allDigits_padded 2 time.minutes
  have hseconds := allDigits_padded 2 time.seconds
  have hmilliseconds := allDigits_padded 3 time.milliseconds
  have hnormalized : time.render.map (fun c => if c = ',' then '.' else c) =
      padded 2 time.hours ++ ':' :: (padded 2 time.minutes ++ ':' ::
        (padded 2 time.seconds ++ '.' :: padded 3 time.milliseconds)) := by
    unfold SrtTime.render
    simp only [List.map_append, List.map_cons, normalized_digits hhours, normalized_digits hminutes,
      normalized_digits hseconds, normalized_digits hmilliseconds]
    rfl
  have hlast : ':' ∉ padded 2 time.seconds ++ '.' :: padded 3 time.milliseconds := by
    rw [List.mem_append, List.mem_cons]
    rintro (h | h | h)
    · exact hseconds.not_mem rfl h
    · cases h
    · exact hmilliseconds.not_mem rfl h
  have hsplit : (time.render.map (fun c => if c = ',' then '.' else c)).splitOn ':' =
      [padded 2 time.hours, padded 2 time.minutes, padded 2 time.seconds ++ '.' :: padded 3 time.milliseconds] := by
    rw [hnormalized, List.splitOn_append_cons_self_of_not_mem (hhours.not_mem rfl),
      List.splitOn_append_cons_self_of_not_mem (hminutes.not_mem rfl), splitOn_of_not_mem hlast]
  have hlength : (padded 3 time.milliseconds).length = 3 := length_padded (by decide) time.milliseconds.isLt
  have hthousand : (10 : Rat) ^ 3 = 1000 := by decide +kernel
  unfold parseSrtTimestamp
  rw [(noBlank_render time).trim]
  dsimp only
  rw [hsplit]
  dsimp only
  rw [hround.digits (padded_ne_nil _ _) hhours, hround.digits (padded_ne_nil _ _) hminutes,
    hround.fraction (padded_ne_nil _ _) hseconds (padded_ne_nil _ _) hmilliseconds, hlength, hthousand]
  simp only [digitsValue_padded]
  rfl

/-! ## One subtitle -/

theorem parseUsize_decimal {n : Nat} (h : n < 2 ^ 64) : parseUsize (trim (decimal n)) = some n := by
  have hdigits := allDigits_decimal n
  have hplus : (decimal n).head? ≠ some '+' := by
    intro hhead
    exact hdigits.not_mem rfl (List.mem_of_mem_head? hhead)
  unfold parseUsize
  rw [(noBlank_digits hdigits).trim, if_neg hplus]
  dsimp only
  rw [digitsValue_decimal]
  exact if_pos ⟨decimal_ne_nil n, hdigits.all, h⟩

theorem splitArrow_timingLine (subtitle : Subtitle) :
    splitArrow subtitle.timingLine = [subtitle.start.render ++ [' '], ' ' :: subtitle.stop.render] := by
  have hminus : ∀ time : SrtTime, '-' ∉ time.render := fun _ => not_mem_render rfl (by decide) (by decide)
  have hstart : '-' ∉ subtitle.start.render ++ [' '] := by
    rw [List.mem_append, List.mem_singleton]
    rintro (h | h)
    · exact hminus _ h
    · cases h
  have hstop : '-' ∉ ' ' :: subtitle.stop.render := by
    rw [List.mem_cons]
    rintro (h | h)
    · cases h
    · exact hminus _ h
  unfold Subtitle.timingLine
  rw [splitArrow_append hstart, splitArrow_of_not_mem hstop]

theorem headerLines_lines (subtitle : Subtitle) {index : Nat} (hindex : index < 2 ^ 64) (after : List Str) :
    headerLines (subtitle.lines index ++ after) = .ok (some index, subtitle.timingLine, subtitle.text ++ after) := by
  have hnumber : looksLikeSubtitleIndex (decimal index) = true := by
    unfold looksLikeSubtitleIndex
    rw [parseUsize_decimal hindex]
    rfl
  have harrow : looksLikeTimestamp subtitle.timingLine = true := containsArrow_append _ _
  unfold Subtitle.lines
  rw [List.cons_append, List.cons_append, headerLines.eq_def]
  simp only [if_pos hnumber, if_pos harrow]
  rw [parseUsize_decimal hindex]

/-- A line of text does not end the text unless it looks like an index. -/
theorem endsText_eq_false {line : Str} (hblank : trim line ≠ []) (harrow : containsArrow line = false)
    (hindex : looksLikeSubtitleIndex line = false) : endsText line = false := by
  have hindex' : looksLikeSubtitleIndex (trim line) = false := by
    unfold looksLikeSubtitleIndex at hindex ⊢
    rw [trim_trim]
    exact hindex
  have harrow' : looksLikeTimestamp (trim line) = false := by
    rw [← Bool.not_eq_true]
    intro h
    have hline := containsArrow_iff.mpr ((containsArrow_iff.mp h).trans (trim_isInfix line))
    rw [harrow] at hline
    cases hline
  unfold endsText
  rw [hindex', harrow', decide_eq_false hblank]
  rfl

theorem textLines_append_of {text : List Str} (h : ∀ line ∈ text, endsText line = false) (after : List Str) :
    textLines (text ++ after) = (text ++ (textLines after).1, (textLines after).2) := by
  induction text with
  | nil => rfl
  | cons line text ih =>
    have hline := h line List.mem_cons_self
    have hne : ¬ (line = [] ∧ text ++ after = []) := by
      rintro ⟨rfl, -⟩
      cases hline
    rw [List.cons_append, textLines, if_neg hne, hline, if_neg Bool.false_ne_true,
      ih fun line' hline' => h line' (List.mem_cons_of_mem _ hline')]
    rfl

/-- A subtitle is read up to the blank line after it, or the end. -/
theorem block_lines (hround : ReadsDecimals f64 round) (subtitle : Subtitle) {index : Nat} (hsize : index < 2 ^ 63)
    (hindex : ∀ line ∈ subtitle.text, looksLikeSubtitleIndex line = false) {after : List Str}
    (hafter : (textLines after).1 = []) :
    block f64 (subtitle.lines index ++ after) = .ok (subtitle.entry f64 round index, (textLines after).2) := by
  have htext : ∀ line ∈ subtitle.text, endsText line = false := fun line hline =>
    endsText_eq_false (subtitle.text_lines line hline).2.1 (subtitle.text_lines line hline).2.2 (hindex line hline)
  have hne : subtitle.text ++ after ≠ [] := List.append_ne_nil_of_left_ne_nil subtitle.text_ne_nil _
  have hnumber : usizeAsI64 index = index := if_pos hsize
  have hheader := headerLines_lines subtitle (show index < 2 ^ 64 by omega) after
  unfold block
  rw [hheader]
  simp only [bind, Except.bind, splitArrow_timingLine, if_neg hne, textLines_append_of htext, hafter, List.append_nil]
  unfold blockEntry
  rw [(noBlank_render subtitle.start).trim_after, (noBlank_render subtitle.stop).trim_before,
    parseSrtTimestamp_render hround, parseSrtTimestamp_render hround]
  simp only [bind, Except.bind, Option.map_some, hnumber]
  rfl

/-! ## All subtitles -/

theorem skipLines_lines (subtitle : Subtitle) (index : Nat) (after : List Str) :
    skipLines (subtitle.lines index ++ after) = subtitle.lines index ++ after := by
  unfold Subtitle.lines
  rw [List.cons_append, skipLines]
  cases hdigits : decimal index with
  | nil => exact absurd hdigits (decimal_ne_nil index)
  | cons c digits =>
    have hc : c.isDigit = true := allDigits_decimal index c (by rw [hdigits]; exact List.mem_cons_self)
    have hskip : ¬ isSkipped c = true := by
      unfold isSkipped
      simp only [Bool.or_eq_true, decide_eq_true_eq]
      rintro ((rfl | rfl) | rfl)
      · cases hc
      · cases hc
      · cases hc
    rw [List.dropWhile_cons_of_neg hskip]

theorem lines_not_over (subtitle : Subtitle) (index : Nat) (after : List Str) :
    ¬ (skipLines (subtitle.lines index ++ after) = [] ∨ skipLines (subtitle.lines index ++ after) = [[]]) := by
  rw [skipLines_lines]
  rintro (h | h)
  · exact List.cons_ne_nil _ _ h
  · exact List.cons_ne_nil _ _ (List.cons.inj h).2

theorem skipLines_blank (n : Nat) :
    skipLines (List.replicate n []) = [] ∨ skipLines (List.replicate n []) = [[]] := by
  induction n with
  | zero => exact Or.inl rfl
  | succ n ih =>
    rw [List.replicate_succ, skipLines, List.dropWhile_nil]
    by_cases hn : List.replicate n ([] : Str) = []
    · exact Or.inr (if_pos hn)
    · dsimp only
      rw [if_neg hn]
      exact ih

/-- Nothing is read of blank lines at the end. -/
theorem textLines_blank (n : Nat) :
    (textLines (List.replicate n [])).1 = [] ∧ ∃ m, (textLines (List.replicate n [])).2 = List.replicate m [] := by
  match n with
  | 0 => exact ⟨rfl, 0, rfl⟩
  | 1 => exact ⟨rfl, 1, rfl⟩
  | n + 2 => exact ⟨rfl, n + 1, rfl⟩

theorem renderLines_ne_nil (index : Nat) (subtitle : Subtitle) (rest : List Subtitle) :
    renderLines index (subtitle :: rest) ≠ [] := by
  cases rest with
  | nil => exact List.cons_ne_nil _ _
  | cons next rest => exact List.cons_ne_nil _ _

/-- The parser reads one subtitle after the other. By induction on the subtitles. -/
theorem blocks_renderLines (hround : ReadsDecimals f64 round) (subtitles : List Subtitle) (index ending : Nat)
    (hsize : index + subtitles.length ≤ 2 ^ 63)
    (hindex : ∀ subtitle ∈ subtitles, ∀ line ∈ subtitle.text, looksLikeSubtitleIndex line = false) :
    blocks f64 (renderLines index subtitles ++ List.replicate ending []) = .ok (entries f64 round index subtitles) := by
  induction subtitles generalizing index with
  | nil => exact blocks_end f64 (skipLines_blank ending)
  | cons subtitle rest ih =>
    rw [List.length_cons] at hsize
    have htext := hindex subtitle List.mem_cons_self
    have hnext := ih (index + 1) (by omega) fun s hs => hindex s (List.mem_cons_of_mem _ hs)
    cases rest with
    | nil =>
      obtain ⟨hnone, blank, hblank⟩ := textLines_blank ending
      have hblock := block_lines hround subtitle (show index < 2 ^ 63 by omega) htext hnone
      rw [hblank, ← skipLines_lines] at hblock
      rw [renderLines, blocks_cons f64 (lines_not_over subtitle index _) hblock,
        blocks_end f64 (skipLines_blank blank)]
      rfl
    | cons next rest =>
      -- the blank line between two subtitles ends the text of the first
      have hne := renderLines_ne_nil (index + 1) next rest
      have hlines : renderLines index (subtitle :: next :: rest) ++ List.replicate ending [] =
          subtitle.lines index ++ ([] :: (renderLines (index + 1) (next :: rest) ++ List.replicate ending [])) := by
        rw [renderLines, List.append_assoc]
        rfl
      have hafter : textLines ([] :: (renderLines (index + 1) (next :: rest) ++ List.replicate ending [])) =
          ([], renderLines (index + 1) (next :: rest) ++ List.replicate ending []) := by
        have hmore : ¬ (([] : Str) = [] ∧ renderLines (index + 1) (next :: rest) ++ List.replicate ending [] = []) :=
          fun h => List.append_ne_nil_of_left_ne_nil hne _ h.2
        rw [textLines, if_neg hmore]
        rfl
      have hblock := block_lines hround subtitle (show index < 2 ^ 63 by omega) htext
        (congrArg Prod.fst hafter)
      rw [hafter, ← skipLines_lines] at hblock
      rw [hlines, blocks_cons f64 (lines_not_over subtitle index _) hblock, hnext]
      rfl

theorem noNewline_lines (subtitle : Subtitle) (index : Nat) : NoNewline (subtitle.lines index) := by
  have hrender : ∀ time : SrtTime, '\n' ∉ time.render := fun _ => not_mem_render rfl (by decide) (by decide)
  have htiming : '\n' ∉ subtitle.timingLine := by
    unfold Subtitle.timingLine arrow
    simp only [List.mem_append, List.mem_cons, List.not_mem_nil, or_false]
    rintro (((h | h) | h | h | h) | h | h)
    · exact hrender _ h
    · cases h
    · cases h
    · cases h
    · cases h
    · cases h
    · exact hrender _ h
  exact noNewline_cons ((allDigits_decimal index).not_mem rfl)
    (noNewline_cons htiming fun line hline => (subtitle.text_lines line hline).1)

theorem noNewline_renderLines (subtitles : List Subtitle) (index : Nat) : NoNewline (renderLines index subtitles) := by
  induction subtitles generalizing index with
  | nil => exact nofun
  | cons subtitle rest ih =>
    cases rest with
    | nil => exact noNewline_lines subtitle index
    | cons next rest =>
      exact (noNewline_lines subtitle index).append (noNewline_cons List.not_mem_nil (ih (index + 1)))

theorem length_le_renderLines (subtitles : List Subtitle) (index : Nat) :
    2 * subtitles.length ≤ (renderLines index subtitles).length := by
  induction subtitles generalizing index with
  | nil => exact Nat.le_refl 0
  | cons subtitle rest ih =>
    have hlines : 2 ≤ (subtitle.lines index).length := by
      unfold Subtitle.lines
      rw [List.length_cons, List.length_cons]
      omega
    cases rest with
    | nil => exact hlines
    | cons next rest =>
      have hrest := ih (index + 1)
      simp only [renderLines, List.length_append, List.length_cons] at hrest hlines ⊢
      omega

/-- A text of subtitles has at least as many bytes as there are subtitles. -/
theorem length_le_byteLen (subtitles : List Subtitle) (ending : Nat) :
    subtitles.length ≤ byteLen (render subtitles ending) := by
  have hbytes := length_le_byteLen_unlines (renderLines 1 subtitles ++ List.replicate ending [])
  have hlines := length_le_renderLines subtitles 1
  rw [List.length_append] at hbytes
  unfold render
  omega

/-- **Subtitles come back, with their text trimmed at its end, when no line of text looks like an index.** -/
theorem parse_render {F : Type} {f64 : F64 F} {round : Rat → F} (hround : ReadsDecimals f64 round)
    (subtitles : List Subtitle) (ending : Nat) (hsize : byteLen (render subtitles ending) < 2 ^ 63)
    (hindex : ∀ subtitle ∈ subtitles, ∀ line ∈ subtitle.text, looksLikeSubtitleIndex line = false) :
    parse f64 (render subtitles ending) = .ok (entries f64 round 1 subtitles) := by
  have hlength := length_le_byteLen subtitles ending
  have hblocks := blocks_renderLines hround subtitles 1 ending (by omega) hindex
  rw [parse_eq_blocks]
  by_cases hnil : renderLines 1 subtitles ++ List.replicate ending [] = []
  · have hempty : render subtitles ending = [] := by
      unfold render
      rw [hnil]
      rfl
    rw [hnil] at hblocks
    rw [hempty, List.splitOn_nil, blocks_end f64 (Or.inr rfl), ← hblocks, blocks_end f64 (Or.inl rfl)]
  · have hsplit : (render subtitles ending).splitOn '\n' = renderLines 1 subtitles ++ List.replicate ending [] :=
      splitOn_unlines hnil ((noNewline_renderLines subtitles 1).append (noNewline_blank ending))
    rw [hsplit]
    exact hblocks

/-- A subtitle of one second with one line of text. -/
def shortSubtitle (line : Str) (h : '\n' ∉ line ∧ trim line ≠ [] ∧ containsArrow line = false) : Subtitle where
  start := ⟨0, 0, 1, 0⟩
  stop := ⟨0, 0, 2, 500⟩
  text := [line]
  text_ne_nil := List.cons_ne_nil _ _
  text_lines _ hline := List.mem_singleton.mp hline ▸ h

theorem parse_render_two : parse exactF64 (render [shortSubtitle ['é'] (by decide), shortSubtitle ['4', '.'] (by decide)] 1) =
    .ok (entries exactF64 id 1 [shortSubtitle ['é'] (by decide), shortSubtitle ['4', '.'] (by decide)]) :=
  parse_render exactF64_readsDecimals _ _ (by decide +kernel) (by decide +kernel)

/-- A line of text that is a number is taken for the next index, and a blank at the end of a text is lost. -/
theorem parse_render_changed :
    (∀ parsed, parse exactF64 (render [shortSubtitle ['4', '2'] (by decide)] 1) ≠ .ok parsed) ∧
      ∃ parsed, parse exactF64 (render [shortSubtitle ['a', ' '] (by decide)] 1) = .ok [parsed] ∧
        parsed.content ≠ ['a', ' '] := by
  constructor
  · have hparse : parse exactF64 (render [shortSubtitle ['4', '2'] (by decide)] 1) =
        invalidFormat "Invalid timestamp line: " [] := by decide +kernel
    intro parsed h
    cases h
  · exact ⟨(shortSubtitle ['a', ' '] (by decide)).entry exactF64 id 1, by decide +kernel, by decide +kernel⟩

end SrtParser

end Transcript

end Fenic
