import Fenic.Transcript.Rendering

/-!
# `Transcript.Generic` — the parser of generic transcripts

`GenericTranscriptParser::parse` reads a header line with a time in parentheses and then text up to the next header.
A header line at the very end moves the offset one past the end, but the text after it is then not read
(`parse_returns`).

The same parser over the list of lines: a header line and the lines up to the next one are a section. The last line of a text is
never looked at as a header, unless nothing is before it. The parser over bytes agrees with it on every text (`parse_eq_sections`).
-/

namespace Fenic

namespace Transcript

open Utf8

variable {F : Type} (f64 : F64 F)

/-- `is_header_line`. -/
def isHeaderLine (line : Str) : Bool :=
  match rfind '(' line with
  | some openIdx =>
    match dropBytes (openIdx + 1) line with
    | some (c :: _) => c.isDigit
    | _ => false
  | none => false

namespace GenericTranscriptParser

def parseField (message : String) (timestamp field : Str) : Except Failure F :=
  match f64.parse field with
  | some value => .ok value
  | none => invalidFormat message timestamp

/-- `parse_generic_timestamp`. -/
def parseGenericTimestamp (timestamp : Str) : Except Failure F :=
  let timestamp := trim timestamp
  match timestamp.splitOn ':' with
  | [_] => parseField f64 "Invalid generic timestamp: " timestamp timestamp
  | [minutes, seconds] => do
    let minutes ← parseField f64 "Invalid minutes in generic timestamp: " timestamp minutes
    let seconds ← parseField f64 "Invalid seconds in generic timestamp: " timestamp seconds
    return f64.add (f64.mul minutes (f64.ofNat 60)) seconds
  | [hours, minutes, seconds] => do
    let hours ← parseField f64 "Invalid hours in generic timestamp: " timestamp hours
    let minutes ← parseField f64 "Invalid minutes in generic timestamp: " timestamp minutes
    let seconds ← parseField f64 "Invalid seconds in generic timestamp: " timestamp seconds
    return f64.add (f64.add (f64.mul hours (f64.ofNat 3600)) (f64.mul minutes (f64.ofNat 60))) seconds
  | _ => invalidFormat "Invalid generic timestamp format: " timestamp

/-- The speaker and the time of a header line. -/
def parseHeader (headerLine : Str) : Except Failure (Str × Str) :=
  match rfind '(' headerLine, rfind ')' headerLine with
  | some openIdx, some closeIdx =>
    if openIdx < closeIdx then do
      let speaker ← strSlice headerLine 0 openIdx
      let timestamp ← strSlice headerLine (openIdx + 1) closeIdx
      return (trim speaker, trim timestamp)
    else invalidFormat "Invalid header format: " headerLine
  | _, _ => invalidFormat "No timestamp found in header: " headerLine

/-- The loop over the content, with its end so far. -/
def contentLoop (input : Str) : Nat → Nat → Nat → Except Failure (Nat × Nat)
  | 0, _, _ => .error .diverge
  | fuel + 1, pos, contentEnd =>
    if pos < byteLen input then do
      let rest ← bytesFrom input pos
      if '\n' ∉ rest then return (byteLen input, byteLen input)
      else do
        let lineEnd ← lineEnd input pos
        let line ← fromUtf8 input pos lineEnd
        if isHeaderLine line then return (pos, contentEnd)
        else contentLoop input fuel (lineEnd + 1) (lineEnd + 1)
    else return (pos, contentEnd)

/-- A speaker, a time and a content, and the offset after it. -/
def parseRawEntry (input : Str) (pos : Nat) : Except Failure ((Str × Str × Str) × Nat) := do
  let headerEnd ← lineEnd input pos
  let headerLine ← fromUtf8 input pos headerEnd
  let (speaker, timestamp) ← parseHeader headerLine
  let contentStart := headerEnd + 1
  let (pos, contentEnd) ← contentLoop input (byteLen input + 1) contentStart contentStart
  let contentEnd := min contentEnd (byteLen input)
  let content ← if contentStart ≤ contentEnd then trimEnd <$> fromUtf8 input contentStart contentEnd else pure []
  return ((speaker, timestamp, content), pos)

/-- The first pass. -/
def rawLoop (input : Str) : Nat → Nat → Except Failure (List (Str × Str × Str))
  | 0, _ => .error .diverge
  | fuel + 1, pos =>
    if pos < byteLen input then
      let pos := skipBytes input pos
      if byteLen input ≤ pos then .ok []
      else do
        let (rawEntry, pos) ← parseRawEntry input pos
        let rawEntries ← rawLoop input fuel pos
        return rawEntry :: rawEntries
    else .ok []

/-- The time of the next entry. -/
def lookAhead (rest : List (Str × Str × Str)) : Except Failure (Option F) :=
  match rest.head? with
  | some (_, nextTimestamp, _) => some <$> parseGenericTimestamp f64 nextTimestamp
  | none => return none

/-- The second pass. An entry ends where the next one starts. -/
def unifiedEntries (i : Nat) : List (Str × Str × Str) → Except Failure (List (UnifiedTranscriptEntry F))
  | [] => .ok []
  | (speaker, timestampStr, content) :: rest => do
    let startTime ← parseGenericTimestamp f64 timestampStr
    let endTime ← lookAhead f64 rest
    let entries ← unifiedEntries (i + 1) rest
    return { index := some (usizeAsI64 (i + 1))
             speaker := if speaker = [] then none else some speaker
             startTime := startTime
             endTime := endTime
             duration := endTime.map (f64.sub · startTime)
             content := content
             format := "generic" } :: entries

/-- `GenericTranscriptParser::parse`. -/
def parse (input : Str) : Except Failure (List (UnifiedTranscriptEntry F)) := do
  let rawEntries ← rawLoop input (byteLen input + 1) 0
  unifiedEntries f64 0 rawEntries

/-! ## Accesses within the text -/

variable {input : Str} {pos stop : Nat}

/-- What follows an offset within the text is part of it. -/
theorem bytesFrom_returns (h : pos ≤ byteLen input) :
    ReturnsWith (fun rest => byteLen input = pos + byteLen rest) (bytesFrom input pos) := by
  unfold bytesFrom
  rw [if_neg (Nat.not_lt.mpr h)]
  cases hdrop : dropBytes pos input with
  | none => exact returnsWith_error _
  | some rest => exact returnsWith_ok (dropBytes_length hdrop)

/-- A line ends within the text. -/
theorem lineEnd_returns (h : pos ≤ byteLen input) :
    ReturnsWith (fun lineEnd => pos ≤ lineEnd ∧ lineEnd ≤ byteLen input) (lineEnd input pos) := by
  refine returnsWith_bind (bytesFrom_returns h) ?_
  intro rest hrest
  have hsplit : byteLen rest = byteLen (rest.takeWhile (· ≠ '\n')) + byteLen (rest.dropWhile (· ≠ '\n')) := by
    rw [← byteLen_append, List.takeWhile_append_dropWhile]
  exact returnsWith_ok ⟨Nat.le_add_right _ _, by omega⟩

theorem fromUtf8_returns (hle : pos ≤ stop) (h : stop ≤ byteLen input) :
    ReturnsWith (fun _ => True) (fromUtf8 input pos stop) := by
  unfold fromUtf8
  rw [if_neg (by omega)]
  cases slice pos stop input with
  | none => exact returnsWith_error _
  | some text => exact returnsWith_ok trivial

/-! ## The header line -/

/-- The offset of the last such character is a boundary. -/
theorem rfind_eq_some {c : Char} {text : Str} {idx : Nat} (h : rfind c text = some idx) :
    ∃ before after, text = before ++ c :: after ∧ idx = byteLen before := by
  induction text generalizing idx with
  | nil => cases h
  | cons first text ih =>
    rw [rfind] at h
    cases hrest : rfind c text with
    | some idx' =>
      rw [hrest] at h
      obtain ⟨before, after, rfl, rfl⟩ := ih hrest
      cases h
      exact ⟨first :: before, after, rfl, (byteLen_cons first before).symm⟩
    | none =>
      rw [hrest] at h
      by_cases hfirst : first = c
      · simp only [if_pos hfirst] at h
        cases h
        exact ⟨[], text, by rw [hfirst]; rfl, rfl⟩
      · simp only [if_neg hfirst] at h
        cases h

theorem parseHeader_returns (headerLine : Str) : ReturnsWith (fun _ => True) (parseHeader headerLine) := by
  unfold parseHeader
  cases hopen : rfind '(' headerLine with
  | none => exact returnsWith_error _
  | some openIdx =>
    cases hclose : rfind ')' headerLine with
    | none => exact returnsWith_error _
    | some closeIdx =>
      simp only
      by_cases hlt : openIdx < closeIdx
      · rw [if_pos hlt]
        obtain ⟨before, after, heq, rfl⟩ := rfind_eq_some hopen
        obtain ⟨before', after', heq', rfl⟩ := rfind_eq_some hclose
        -- the parenthesis that closes is behind the one that opens
        have hprefix : before <+: before' := by
          rcases List.prefix_or_prefix_of_prefix ⟨'(' :: after, heq.symm⟩ ⟨')' :: after', heq'.symm⟩ with h | h
          · exact h
          · obtain ⟨more, rfl⟩ := h
            rw [byteLen_append] at hlt
            omega
        obtain ⟨more, rfl⟩ := hprefix
        have hmore : '(' :: after = more ++ ')' :: after' := by
          rw [heq, List.append_assoc] at heq'
          exact List.append_cancel_left heq'
        cases more with
        | nil => cases hmore
        | cons c middle =>
          rw [List.cons_append] at hmore
          obtain ⟨rfl, rfl⟩ := List.cons.inj hmore
          have hspeaker := strSlice_append [] before ('(' :: (middle ++ ')' :: after'))
          have htimestamp := strSlice_append (before ++ ['(']) middle (')' :: after')
          have hstart : byteLen (before ++ ['(']) = byteLen before + 1 := by
            rw [byteLen_append]
            rfl
          have hstop : byteLen before + 1 + byteLen middle = byteLen (before ++ '(' :: middle) := by
            have hsize : Char.utf8Size '(' = 1 := rfl
            rw [byteLen_append, byteLen_cons]
            omega
          rw [hstart, hstop, List.append_assoc, List.singleton_append] at htimestamp
          rw [byteLen_nil, Nat.zero_add, List.nil_append] at hspeaker
          rw [heq, hspeaker, htimestamp]
          exact returnsWith_ok trivial
      · rw [if_neg hlt]
        exact returnsWith_error _

/-! ## The passes -/

/-- The loop moves forward, and its fuel lasts. -/
theorem contentLoop_returns {fuel : Nat} (hfuel : byteLen input < pos + fuel) (hpositive : 0 < fuel)
    (contentEnd : Nat) : ReturnsWith (fun result => pos ≤ result.1) (contentLoop input fuel pos contentEnd) := by
  induction fuel generalizing pos contentEnd with
  | zero => omega
  | succ fuel ih =>
    rw [contentLoop]
    by_cases hlt : pos < byteLen input
    · rw [if_pos hlt]
      refine returnsWith_bind (bytesFrom_returns (Nat.le_of_lt hlt)) ?_
      intro rest _
      by_cases hlast : '\n' ∉ rest
      · rw [if_pos hlast]
        exact returnsWith_ok (Nat.le_of_lt hlt)
      · rw [if_neg hlast]
        refine returnsWith_bind (lineEnd_returns (Nat.le_of_lt hlt)) ?_
        rintro lineEnd ⟨hle, hle'⟩
        refine returnsWith_bind (fromUtf8_returns hle hle') ?_
        intro line _
        by_cases hheader : isHeaderLine line = true
        · rw [if_pos hheader]
          exact returnsWith_ok (Nat.le_refl pos)
        · rw [if_neg hheader]
          have hfuel' : byteLen input < lineEnd + 1 + fuel := by omega
          refine returnsWith_mono (ih hfuel' (by omega) (lineEnd + 1)) ?_
          intro result hresult
          omega
    · rw [if_neg hlt]
      exact returnsWith_ok (Nat.le_refl pos)

theorem parseRawEntry_returns (h : pos ≤ byteLen input) :
    ReturnsWith (fun result => pos < result.2) (parseRawEntry input pos) := by
  refine returnsWith_bind (lineEnd_returns h) ?_
  rintro headerEnd ⟨hle, hle'⟩
  refine returnsWith_bind (fromUtf8_returns hle hle') ?_
  intro headerLine _
  refine returnsWith_bind (parseHeader_returns headerLine) ?_
  intro header _
  have hfuel : byteLen input < headerEnd + 1 + (byteLen input + 1) := by omega
  refine returnsWith_bind (contentLoop_returns hfuel (Nat.succ_pos _) (headerEnd + 1)) ?_
  intro result hforward
  by_cases hcontent : headerEnd + 1 ≤ min result.2 (byteLen input)
  · simp only [if_pos hcontent]
    refine returnsWith_bind (P := fun _ => True) ?_ ?_
    · refine returnsWith_bind (fromUtf8_returns hcontent (Nat.min_le_right _ _)) ?_
      exact fun _ _ => returnsWith_ok trivial
    · exact fun _ _ => returnsWith_ok (by omega)
  · simp only [if_neg hcontent]
    exact returnsWith_ok (by omega)

theorem rawLoop_returns {fuel : Nat} (hfuel : byteLen input < pos + fuel) (hpositive : 0 < fuel) :
    ReturnsWith (fun _ => True) (rawLoop input fuel pos) := by
  induction fuel generalizing pos with
  | zero => omega
  | succ fuel ih =>
    rw [rawLoop]
    by_cases hlt : pos < byteLen input
    · rw [if_pos hlt]
      have hskip := le_skipBytes input pos
      by_cases hend : byteLen input ≤ skipBytes input pos
      · simp only [if_pos hend]
        exact returnsWith_ok trivial
      · simp only [if_neg hend]
        refine returnsWith_bind (parseRawEntry_returns (Nat.le_of_not_le hend)) ?_
        intro result hforward
        refine returnsWith_bind (ih (by omega) (by omega)) ?_
        exact fun _ _ => returnsWith_ok trivial
    · rw [if_neg hlt]
      exact returnsWith_ok trivial

theorem parseField_returns (message : String) (timestamp field : Str) :
    ReturnsWith (fun _ => True) (parseField f64 message timestamp field) := by
  unfold parseField
  cases f64.parse field with
  | none => exact returnsWith_error _
  | some value => exact returnsWith_ok trivial

theorem parseGenericTimestamp_returns (timestamp : Str) :
    ReturnsWith (fun _ => True) (parseGenericTimestamp f64 timestamp) := by
  unfold parseGenericTimestamp
  dsimp only
  rcases (trim timestamp).splitOn ':' with _ | ⟨first, _ | ⟨second, _ | ⟨third, _ | ⟨fourth, parts⟩⟩⟩⟩
  · exact returnsWith_error _
  · exact parseField_returns f64 _ _ _
  · refine returnsWith_bind (parseField_returns f64 _ _ first) fun _ _ => ?_
    exact returnsWith_bind (parseField_returns f64 _ _ second) fun _ _ => returnsWith_ok trivial
  · refine returnsWith_bind (parseField_returns f64 _ _ first) fun _ _ => ?_
    refine returnsWith_bind (parseField_returns f64 _ _ second) fun _ _ => ?_
    exact returnsWith_bind (parseField_returns f64 _ _ third) fun _ _ => returnsWith_ok trivial
  · exact returnsWith_error _

theorem lookAhead_returns (rest : List (Str × Str × Str)) : ReturnsWith (fun _ => True) (lookAhead f64 rest) := by
  unfold lookAhead
  cases rest.head? with
  | none => exact returnsWith_ok trivial
  | some next => exact returnsWith_bind (parseGenericTimestamp_returns f64 next.2.1) fun _ _ => returnsWith_ok trivial

theorem unifiedEntries_returns (i : Nat) (rawEntries : List (Str × Str × Str)) :
    ReturnsWith (fun _ => True) (unifiedEntries f64 i rawEntries) := by
  induction rawEntries generalizing i with
  | nil => exact returnsWith_ok trivial
  | cons rawEntry rest ih =>
    obtain ⟨speaker, timestampStr, content⟩ := rawEntry
    refine returnsWith_bind (parseGenericTimestamp_returns f64 timestampStr) fun startTime _ => ?_
    refine returnsWith_bind (lookAhead_returns f64 rest) fun endTime _ => ?_
    exact returnsWith_bind (ih (i + 1)) fun _ _ => returnsWith_ok trivial

/-- **The parser of generic transcripts returns on every text.** -/
theorem parse_returns (input : Str) : Returns (parse f64 input) := by
  have hraw : ReturnsWith (fun _ => True) (rawLoop input (byteLen input + 1) 0) :=
    rawLoop_returns (by omega) (Nat.succ_pos _)
  exact (returnsWith_bind hraw fun rawEntries _ => unifiedEntries_returns f64 0 rawEntries).1

/-! ## The parser of generic transcripts, line by line -/

variable {F : Type} (f64 : F64 F)

/-- A header line, and the lines of its content. -/
abbrev Section := Str × List Str

/-- The content of the section that is open, and the sections that follow it. -/
def divide : List Str → List Str × List Section
  | [] => ([], [])
  | [last] => ([last], [])
  | line :: rest =>
    let later := divide rest
    if isHeaderLine line then ([], (line.dropWhile isSkipped, later.1) :: later.2) else (line :: later.1, later.2)

/-- The sections of some lines. -/
def sections (lines : List Str) : List Section :=
  match skipLines lines with
  | [] => []
  | [[]] => []
  | header :: rest => (header, (divide rest).1) :: (divide rest).2

theorem sections_over {lines : List Str} (h : skipLines lines = [] ∨ skipLines lines = [[]]) : sections lines = [] := by
  unfold sections
  rcases h with h | h
  · rw [h]
  · rw [h]

theorem sections_cons {lines rest : List Str} {header : Str} (h : skipLines lines = header :: rest)
    (hmore : ¬ (skipLines lines = [] ∨ skipLines lines = [[]])) :
    sections lines = (header, (divide rest).1) :: (divide rest).2 := by
  unfold sections
  split
  next hnil => exact absurd (.inl hnil) hmore
  next hnil => exact absurd (.inr hnil) hmore
  next heq =>
      rw [h] at heq
      obtain ⟨rfl, rfl⟩ := List.cons.inj heq
      rfl

/-- The speaker, the time and the content of a section. -/
def rawEntry (part : Section) : Except Failure (Str × Str × Str) :=
  (parseHeader part.1).map fun header => (header.1, header.2, trimEnd (unlines part.2))

/-! ## Trimming at the end -/

theorem trimEnd_append (before text : Str) :
    trimEnd (before ++ text) = if trimEnd text = [] then trimEnd before else before ++ trimEnd text := by
  unfold trimEnd
  rw [List.reverse_append, List.dropWhile_append]
  cases hrest : text.reverse.dropWhile isWhitespace with
  | nil => rfl
  | cons c rest => simp

theorem trimEnd_append_congr {text text' : Str} (h : trimEnd text = trimEnd text') (before : Str) :
    trimEnd (before ++ text) = trimEnd (before ++ text') := by
  rw [trimEnd_append, trimEnd_append, h]

theorem trimEnd_blank {c : Char} (h : isWhitespace c = true) (text : Str) : trimEnd (text ++ [c]) = trimEnd text := by
  unfold trimEnd
  rw [List.reverse_append, List.reverse_singleton, List.singleton_append, List.dropWhile_cons_of_pos h]

/-! ## The content -/

/-- The lines up to the next header, and the lines from it on. -/
def contentLines : List Str → List Str × List Str
  | [] => ([], [])
  | [last] => ([last], [[]])
  | line :: rest => if isHeaderLine line then ([], line :: rest) else (line :: (contentLines rest).1, (contentLines rest).2)

theorem skipped_of_header {line : Str} (h : isHeaderLine line = true) : line.dropWhile isSkipped ≠ [] := by
  intro hnil
  rw [List.dropWhile_eq_nil_iff] at hnil
  unfold isHeaderLine at h
  cases hopen : rfind '(' line with
  | none =>
    rw [hopen] at h
    cases h
  | some openIdx =>
    obtain ⟨before, after, rfl, -⟩ := rfind_eq_some hopen
    exact absurd (hnil '(' (by simp)) (by decide)

/-- The sections after the content are those of the lines after it. -/
theorem divide_eq (lines : List Str) :
    divide lines = ((contentLines lines).1, sections (contentLines lines).2) := by
  induction lines with
  | nil => rfl
  | cons line rest ih =>
    cases rest with
    | nil => rfl
    | cons next rest =>
      rw [divide, contentLines]
      · by_cases hheader : isHeaderLine line = true
        · rw [if_pos hheader, if_pos hheader]
          obtain ⟨c, line', hskip⟩ := List.exists_cons_of_ne_nil (skipped_of_header hheader)
          have hlines : skipLines (line :: next :: rest) = (c :: line') :: next :: rest := by
            rw [skipLines, hskip]
          unfold sections
          rw [hlines, hskip]
        · rw [if_neg hheader, if_neg hheader, ih]
      · exact fun h => List.cons_ne_nil _ _ h
      · exact fun h => List.cons_ne_nil _ _ h

variable {input : Str} {pos : Nat} {lines : List Str}

/-- The loop reads the content, and its fuel lasts. What it reads is the text of the lines, with or without a newline at its end. -/
theorem contentLoop_lines (h : Lines input pos lines) (hnewline : NoNewline lines) (hne : lines ≠ []) {fuel : Nat}
    (hpositive : 0 < fuel) (hfuel : byteLen input < pos + fuel) :
    ∃ text after, dropBytes pos input = some (text ++ after) ∧
      contentLoop input fuel pos pos = .ok (pos + byteLen text, pos + byteLen text) ∧
      Lines input (pos + byteLen text) (contentLines lines).2 ∧ NoNewline (contentLines lines).2 ∧
      trimEnd text = trimEnd (unlines (contentLines lines).1) := by
  induction fuel generalizing pos lines with
  | zero => omega
  | succ fuel ih =>
    rw [contentLoop]
    obtain ⟨line, rest, rfl⟩ := List.exists_cons_of_ne_nil hne
    have hdrop := Lines.cons_iff.mp h
    have hline := hnewline line List.mem_cons_self
    by_cases hlt : pos < byteLen input
    · rw [if_pos hlt, bytesFrom_lines h]
      simp only [bind, Except.bind]
      cases rest with
      | nil =>
        -- the last line is read without a look at it
        rw [unlines_singleton] at hdrop
        rw [unlines_singleton, if_pos hline]
        have hlength := dropBytes_length hdrop
        refine ⟨line, [], by rw [List.append_nil]; exact hdrop, by rw [hlength]; rfl, ?_, ?_, ?_⟩
        · rw [contentLines, Lines.cons_iff, unlines_singleton, dropBytes_add hdrop]
          have hall := dropBytes_append line []
          rwa [List.append_nil] at hall
        · intro line' hmem
          rw [List.mem_singleton.mp hmem]
          exact List.not_mem_nil
        · rw [contentLines, unlines_singleton]
      | cons next rest =>
        have hnext := Utf8.Lines.next h
        rw [unlines_cons line (List.cons_ne_nil next rest)] at hdrop
        have hmem : ¬ '\n' ∉ unlines (line :: next :: rest) := by
          rw [unlines_cons line (List.cons_ne_nil next rest), not_not]
          exact List.mem_append_right _ List.mem_cons_self
        rw [if_neg hmem, lineEnd_lines h hline]
        simp only [fromUtf8_line h]
        rw [contentLines]
        · by_cases hheader : isHeaderLine line = true
          · rw [if_pos hheader, if_pos hheader]
            exact ⟨[], _, hdrop, rfl, h, hnewline, rfl⟩
          · rw [if_neg hheader, if_neg hheader]
            obtain ⟨text, after, hdrop', hloop, hlines', hnewline', htrim⟩ :=
              ih hnext hnewline.tail (List.cons_ne_nil next rest) (by omega) (by omega)
            have hsize : Char.utf8Size '\n' = 1 := rfl
            have hsum : pos + byteLen line + 1 + byteLen text = pos + byteLen (line ++ '\n' :: text) := by
              rw [byteLen_append, byteLen_cons, hsize]
              omega
            rw [hsum] at hloop hlines'
            refine ⟨line ++ '\n' :: text, after, ?_, hloop, hlines', hnewline', ?_⟩
            · have happend : byteLen (line ++ ['\n']) = byteLen line + 1 := by
                rw [byteLen_append, byteLen_cons, hsize]
                rfl
              have hsplit : line ++ '\n' :: unlines (next :: rest) = (line ++ ['\n']) ++ unlines (next :: rest) := by
                rw [List.append_assoc, List.singleton_append]
              rw [Nat.add_assoc, ← happend, dropBytes_add (hdrop.trans (congrArg some hsplit)), dropBytes_append] at hdrop'
              rw [hdrop, Option.some.inj hdrop', List.append_assoc, List.cons_append]
            · by_cases hcontent : (contentLines (next :: rest)).1 = []
              · rw [hcontent, unlines_nil] at htrim
                rw [hcontent, unlines_singleton]
                have hblank := trimEnd_append_congr htrim (line ++ ['\n'])
                rw [List.append_nil, List.append_assoc, List.singleton_append, trimEnd_blank (by decide)] at hblank
                exact hblank
              · rw [unlines_cons line hcontent]
                have hcongr := trimEnd_append_congr htrim (line ++ ['\n'])
                rwa [List.append_assoc, List.append_assoc, List.singleton_append, List.singleton_append] at hcongr
        · exact fun h => List.cons_ne_nil _ _ h
    · rw [if_neg hlt]
      have hover : line :: rest = [[]] := by
        by_contra hmore
        exact hlt (h.lt_iff.mpr ⟨hne, hmore⟩)
      rw [hover] at h hdrop ⊢
      refine ⟨[], [], hdrop, rfl, h, ?_, rfl⟩
      intro line' hmem
      rw [List.mem_singleton.mp hmem]
      exact List.not_mem_nil

/-! ## The passes -/

theorem parseRawEntry_lines {header : Str} (h : Lines input pos (header :: lines)) (hnewline : NoNewline (header :: lines)) :
    (∃ failure, rawEntry (header, (contentLines lines).1) = .error failure ∧ parseRawEntry input pos = .error failure) ∨
    (∃ entry pos', rawEntry (header, (contentLines lines).1) = .ok entry ∧ parseRawEntry input pos = .ok (entry, pos') ∧
      Lines input pos' (contentLines lines).2 ∧ NoNewline (contentLines lines).2 ∧ pos < pos') := by
  unfold parseRawEntry rawEntry
  rw [lineEnd_lines h (hnewline header List.mem_cons_self)]
  simp only [bind, Except.bind, fromUtf8_line h]
  cases parseHeader header with
  | error failure => exact .inl ⟨failure, rfl, rfl⟩
  | ok parts =>
    right
    have hnext := Utf8.Lines.next h
    by_cases hne : lines = []
    · subst hne
      have hend := Lines.nil_iff.mp hnext
      have hloop : contentLoop input (byteLen input + 1) (pos + byteLen header + 1) (pos + byteLen header + 1) =
          .ok (pos + byteLen header + 1, pos + byteLen header + 1) := by
        rw [contentLoop, if_neg (by omega)]
        rfl
      simp only [hloop]
      rw [if_neg (by omega)]
      exact ⟨_, _, rfl, rfl, hnext, nofun, by omega⟩
    · obtain ⟨text, after, hdrop, hloop, hlines, hnewline', htrim⟩ :=
        contentLoop_lines hnext hnewline.tail hne (Nat.succ_pos (byteLen input)) (by omega)
      have hlength := dropBytes_length hdrop
      rw [byteLen_append] at hlength
      have htext : fromUtf8 input (pos + byteLen header + 1) (pos + byteLen header + 1 + byteLen text) = .ok text := by
        unfold fromUtf8
        rw [if_neg (by omega), slice_eq hdrop]
      have hmin : min (pos + byteLen header + 1 + byteLen text) (byteLen input) = pos + byteLen header + 1 + byteLen text := by
        omega
      simp only [hloop, hmin]
      rw [if_pos (by omega), htext]
      refine ⟨_, _, rfl, ?_, hlines, hnewline', by omega⟩
      rw [← htrim]
      rfl

theorem rawLoop_lines (h : Lines input pos lines) (hnewline : NoNewline lines) {fuel : Nat} (hpositive : 0 < fuel)
    (hfuel : byteLen input < pos + fuel) : rawLoop input fuel pos = (sections lines).mapM rawEntry := by
  induction fuel generalizing pos lines with
  | zero => omega
  | succ fuel ih =>
    rw [rawLoop]
    have hskip := skipBytes_lines h
    have hnewlineSkip := hnewline.skipLines
    have hle := le_skipBytes input pos
    have hover : ¬ skipBytes input pos < byteLen input ↔ skipLines lines = [] ∨ skipLines lines = [[]] := by
      rw [hskip.lt_iff, not_and_or, not_not, not_not]
    by_cases hend : skipLines lines = [] ∨ skipLines lines = [[]]
    · have hlast := hover.mpr hend
      rw [sections_over hend]
      by_cases hlt : pos < byteLen input
      · rw [if_pos hlt]
        exact if_pos (Nat.not_lt.mp hlast)
      · exact if_neg hlt
    · have hlast : skipBytes input pos < byteLen input := not_not.mp fun hnot => hend (hover.mp hnot)
      rw [if_pos (by omega)]
      simp only [if_neg (Nat.not_le.mpr hlast)]
      obtain ⟨header, rest, heq⟩ := List.exists_cons_of_ne_nil (fun hnil => hend (.inl hnil))
      rw [sections_cons heq hend, List.mapM_cons, divide_eq]
      rw [heq] at hskip hnewlineSkip
      rcases parseRawEntry_lines hskip hnewlineSkip with ⟨failure, hentry, hparse⟩ |
        ⟨entry, pos', hentry, hparse, hlines, hnewline', hlt⟩
      · rw [hparse, hentry]
        rfl
      · rw [hparse, hentry]
        simp only [bind, Except.bind]
        rw [ih hlines hnewline' (by omega) (by omega)]

/-- **The parser over bytes reads the sections of the lines of the text.** -/
theorem parse_eq_sections (input : Str) :
    parse f64 input = ((sections (input.splitOn '\n')).mapM rawEntry).bind (unifiedEntries f64 0) := by
  unfold parse
  rw [rawLoop_lines (Lines.start input) (noNewline_splitOn input) (Nat.succ_pos _) (by omega)]
  rfl

end GenericTranscriptParser

end Transcript

end Fenic
