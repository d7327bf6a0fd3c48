import Fenic.Lib.Except
import Fenic.Lib.Rows
import Fenic.Transcript.Generic

/-!
# `Transcript.GenericNewline` — a newline after a generic transcript

The last line of a text is content even if it looks like a header; with a newline behind it, it is a header. Otherwise the newline
changes nothing (`parse_newline_iff`).
-/

namespace Fenic

namespace Transcript

open Utf8

namespace GenericTranscriptParser

variable {F : Type} (f64 : F64 F)

/-- The line has a time in parentheses. -/
def Dated (line : Str) : Prop :=
  ∃ header, parseHeader line = .ok header

/-- The line has a time in parentheses, and it can be read. -/
def ReadsTime (line : Str) : Prop :=
  ∃ header time, parseHeader line = .ok header ∧ parseGenericTimestamp f64 header.2 = .ok time

/-- The headers of a transcript, from its first line that is not blank on, but for the last line. -/
def earlierHeaders (first : Str) (middle : List Str) : List Str :=
  first :: (middle.filter isHeaderLine).map (List.dropWhile isSkipped)

/-- The last line looks like a header, and is not the first that is not blank. All the headers before it have a time, and if the last
line has one too, these times can be read. -/
def HidesHeader (lines : List Str) : Prop :=
  ∃ first middle last, skipLines lines = first :: (middle ++ [last]) ∧ isHeaderLine last = true ∧
    (∀ header ∈ earlierHeaders first middle, Dated header) ∧
    (Dated (last.dropWhile isSkipped) → ∀ header ∈ earlierHeaders first middle, ReadsTime f64 header)

/-! ## The sections -/

theorem divide_cons {line : Str} {rest : List Str} (hrest : rest ≠ []) :
    divide (line :: rest) =
      if isHeaderLine line then ([], (line.dropWhile isSkipped, (divide rest).1) :: (divide rest).2)
      else (line :: (divide rest).1, (divide rest).2) := by
  rw [divide]
  exact hrest

/-- The last line opens no section. -/
theorem divide_headers (front : List Str) (last : Str) :
    (divide (front ++ [last])).2.map Prod.fst = (front.filter isHeaderLine).map (List.dropWhile isSkipped) := by
  induction front with
  | nil => rfl
  | cons line front ih =>
    rw [List.cons_append, divide_cons (List.append_ne_nil_of_right_ne_nil front (List.cons_ne_nil last []))]
    by_cases hheader : isHeaderLine line = true
    · rw [if_pos hheader, List.filter_cons_of_pos hheader, List.map_cons, List.map_cons, ih]
    · rw [if_neg hheader, List.filter_cons_of_neg hheader]
      exact ih

/-- A last line that is no header is content, with a newline behind it or without one. -/
theorem divide_snoc {last : Str} (hlast : isHeaderLine last = false) (front : List Str) :
    (∀ before, trimEnd (unlines (before ++ (divide (front ++ [last] ++ [[]])).1)) =
        trimEnd (unlines (before ++ (divide (front ++ [last])).1))) ∧
      (divide (front ++ [last] ++ [[]])).2.map rawEntry = (divide (front ++ [last])).2.map rawEntry := by
  induction front with
  | nil =>
    rw [List.nil_append, List.singleton_append, divide_cons (List.cons_ne_nil [] []), hlast, if_neg Bool.false_ne_true]
    refine ⟨fun before => ?_, rfl⟩
    have hunlines := unlines_append (List.append_ne_nil_of_right_ne_nil before (List.cons_ne_nil last []))
      (List.cons_ne_nil ([] : Str) [])
    rw [unlines_singleton, List.append_assoc] at hunlines
    show trimEnd (unlines (before ++ [last, []])) = trimEnd (unlines (before ++ [last]))
    rw [← trimEnd_blank (c := '\n') (by decide) (unlines (before ++ [last])), ← hunlines]
    rfl
  | cons line front ih =>
    obtain ⟨hcontent, hsections⟩ := ih
    rw [List.cons_append, List.cons_append,
      divide_cons (List.append_ne_nil_of_right_ne_nil front (List.cons_ne_nil last [])),
      divide_cons (List.append_ne_nil_of_right_ne_nil _ (List.cons_ne_nil [] []))]
    by_cases hheader : isHeaderLine line = true
    · rw [if_pos hheader, if_pos hheader]
      refine ⟨fun before => rfl, ?_⟩
      rw [List.map_cons, List.map_cons, hsections]
      unfold rawEntry
      rw [show trimEnd (unlines (divide (front ++ [last] ++ [[]])).1) = trimEnd (unlines (divide (front ++ [last])).1) from
        hcontent []]
    · rw [if_neg hheader, if_neg hheader]
      refine ⟨fun before => ?_, hsections⟩
      have hmore := hcontent (before ++ [line])
      rwa [List.append_assoc before, List.append_assoc before] at hmore

variable {parts : List Section}

/-- The parser sees of a section what it makes of it. -/
theorem mapM_rawEntry_congr {parts' : List Section} (h : parts.map rawEntry = parts'.map rawEntry) :
    parts.mapM rawEntry = parts'.mapM rawEntry := by
  have hid (parts : List Section) : (parts.map rawEntry).mapM id = parts.mapM rawEntry := by
    rw [List.mapM_map]
    rfl
  rw [← hid, h, hid]

/-! ## Failures -/

/-- What is left of an outcome when its value is forgotten. -/
def outcome {α : Type} (result : Except Failure α) : Except Failure Unit :=
  result.map fun _ => ()

variable {failure : Failure}

theorem outcome_eq_error {α : Type} {result : Except Failure α} :
    outcome result = .error failure ↔ result = .error failure := by
  cases result with
  | error failure' =>
    constructor
    · intro h
      cases h
      rfl
    · intro h
      cases h
      rfl
  | ok value => exact iff_of_false nofun nofun

theorem outcome_eq_ok {α : Type} {result : Except Failure α} : outcome result = .ok () ↔ ∃ value, result = .ok value := by
  cases result with
  | error failure => exact iff_of_false nofun nofun
  | ok value => exact iff_of_true rfl ⟨value, rfl⟩

/-- The second pass fails as the times do, in their order. -/
theorem unifiedEntries_outcome (i : Nat) (rawEntries : List (Str × Str × Str)) :
    outcome (unifiedEntries f64 i rawEntries) =
      outcome (rawEntries.mapM fun rawEntry => parseGenericTimestamp f64 rawEntry.2.1) := by
  induction rawEntries generalizing i with
  | nil => rfl
  | cons rawEntry rest ih =>
    obtain ⟨speaker, timestamp, content⟩ := rawEntry
    have hrest := ih (i + 1)
    rw [unifiedEntries, List.mapM_cons]
    cases parseGenericTimestamp f64 timestamp with
    | error failure => rfl
    | ok startTime =>
      cases rest with
      | nil => rfl
      | cons next rest =>
        have hlook : lookAhead f64 (next :: rest) = some <$> parseGenericTimestamp f64 next.2.1 := rfl
        rw [hlook]
        rw [List.mapM_cons] at hrest ⊢
        cases hnext : parseGenericTimestamp f64 next.2.1 with
        | error failure => rfl
        | ok time =>
          rw [hnext] at hrest
          cases hentries : unifiedEntries f64 (i + 1) (next :: rest) with
          | error failure =>
            rw [hentries] at hrest
            cases htimes : rest.mapM fun rawEntry => parseGenericTimestamp f64 rawEntry.2.1 with
            | error failure' =>
              rw [htimes] at hrest
              exact hrest
            | ok times =>
              rw [htimes] at hrest
              cases hrest
          | ok entries =>
            rw [hentries] at hrest
            cases htimes : rest.mapM fun rawEntry => parseGenericTimestamp f64 rawEntry.2.1 with
            | error failure' =>
              rw [htimes] at hrest
              cases hrest
            | ok times => rfl

theorem unifiedEntries_length {i : Nat} {rawEntries : List (Str × Str × Str)} {entries : List (UnifiedTranscriptEntry F)}
    (h : unifiedEntries f64 i rawEntries = .ok entries) : entries.length = rawEntries.length := by
  induction rawEntries generalizing i entries with
  | nil =>
    cases h
    rfl
  | cons rawEntry rest ih =>
    obtain ⟨startTime, -, h⟩ := Except.bind_eq_ok.mp h
    obtain ⟨endTime, -, h⟩ := Except.bind_eq_ok.mp h
    obtain ⟨later, hlater, h⟩ := Except.bind_eq_ok.mp h
    cases h
    rw [List.length_cons, List.length_cons, ih hlater]

/-- The first pass fails as the headers do, in their order. -/
theorem mapM_rawEntry (parts : List Section) :
    (parts.mapM rawEntry).map (List.map fun rawEntry => (rawEntry.1, rawEntry.2.1)) =
      (parts.map Prod.fst).mapM parseHeader := by
  induction parts with
  | nil => rfl
  | cons part parts ih =>
    rw [List.map_cons, List.mapM_cons, List.mapM_cons, ← ih]
    cases hheader : parseHeader part.1 with
    | error failure =>
      have hentry : rawEntry part = .error failure := by
        unfold rawEntry
        rw [hheader]
        rfl
      rw [hentry]
      rfl
    | ok header =>
      have hentry : rawEntry part = .ok (header.1, header.2, trimEnd (unlines part.2)) := by
        unfold rawEntry
        rw [hheader]
        rfl
      rw [hentry]
      cases parts.mapM rawEntry with
      | error failure => rfl
      | ok rawEntries => rfl

/-- Both passes over some sections. -/
def readSections (parts : List Section) : Except Failure (List (UnifiedTranscriptEntry F)) :=
  (parts.mapM rawEntry).bind (unifiedEntries f64 0)

/-- What of the headers both passes read. -/
def readHeaders (headers : List Str) : Except Failure (List F) :=
  (headers.mapM parseHeader).bind fun parsed => parsed.mapM fun header => parseGenericTimestamp f64 header.2

/-- The passes fail as their headers do. -/
theorem readSections_outcome (parts : List Section) :
    outcome (readSections f64 parts) = outcome (readHeaders f64 (parts.map Prod.fst)) := by
  unfold readSections readHeaders
  rw [← mapM_rawEntry]
  cases parts.mapM rawEntry with
  | error failure => rfl
  | ok rawEntries =>
    show outcome (unifiedEntries f64 0 rawEntries) = outcome (List.mapM _ (rawEntries.map _))
    rw [unifiedEntries_outcome, List.mapM_map]
    rfl

theorem readSections_length {entries : List (UnifiedTranscriptEntry F)}
    (h : readSections f64 parts = .ok entries) : entries.length = parts.length := by
  obtain ⟨rawEntries, hraw, h⟩ := Except.bind_eq_ok.mp h
  rw [unifiedEntries_length f64 h, (Except.mapM_eq_ok.mp hraw).length_eq]

theorem readsTime_iff {headers : List Str} {parsed : List (Str × Str)} (hparsed : headers.mapM parseHeader = .ok parsed) :
    (∃ times, (parsed.mapM fun header => parseGenericTimestamp f64 header.2) = .ok times) ↔
      ∀ header ∈ headers, ReadsTime f64 header := by
  have hpairs := Except.mapM_eq_ok.mp hparsed
  rw [Except.exists_mapM_eq_ok]
  constructor
  · intro h header hmem
    obtain ⟨value, hvalue, hheader⟩ := Rows.exists_right_of_forall₂ hpairs hmem
    obtain ⟨time, htime⟩ := h value hvalue
    exact ⟨value, time, hheader, htime⟩
  · intro h value hmem
    obtain ⟨header, hheader, hvalue⟩ := Rows.exists_left_of_forall₂ hpairs hmem
    obtain ⟨value', time, hvalue', htime⟩ := h header hheader
    rw [hvalue] at hvalue'
    cases hvalue'
    exact ⟨time, htime⟩

/-! ## Messages -/

/-- The failure has one of these messages, and a text. -/
def Says (messages : List String) (failure : Failure) : Prop :=
  ∃ message ∈ messages, ∃ text : Str,
    failure = .error (.invalidTranscriptFormat (message ++ String.ofList text))

def headerMessages : List String :=
  ["Invalid header format: ", "No timestamp found in header: "]

def timeMessages : List String :=
  ["Invalid generic timestamp: ", "Invalid minutes in generic timestamp: ", "Invalid seconds in generic timestamp: ",
    "Invalid hours in generic timestamp: ", "Invalid generic timestamp format: "]

theorem parseHeader_message {line : Str} (h : parseHeader line = .error failure) :
    Says headerMessages failure := by
  have hreturns := (parseHeader_returns line).1
  rw [h] at hreturns
  unfold parseHeader at h
  split at h
  next openIdx closeIdx _ _ =>
      split at h
      next =>
          -- a slice fails with a panic only, and the parser of the header does not panic
          have hslice : ∀ {start stop : Nat} {failure : Failure}, strSlice line start stop = .error failure → failure = .panic := by
            intro start stop failure hfailed
            unfold strSlice at hfailed
            split at hfailed
            · cases hfailed
              rfl
            · split at hfailed
              · cases hfailed
              · cases hfailed
                rfl
          have hpanic : failure = .panic := by
            rcases Except.bind_eq_error.mp h with h | ⟨speaker, -, h⟩
            · exact hslice h
            · rcases Except.bind_eq_error.mp h with h | ⟨timestamp, -, h⟩
              · exact hslice h
              · cases h
          rw [hpanic] at hreturns
          exact absurd rfl hreturns.1
      next =>
          cases h
          exact ⟨_, List.mem_cons_self, line, rfl⟩
  next =>
      cases h
      exact ⟨_, List.mem_cons_of_mem _ List.mem_cons_self, line, rfl⟩

theorem parseField_message {message : String} {timestamp field : Str}
    (h : parseField f64 message timestamp field = .error failure) (hmem : message ∈ timeMessages) :
    Says timeMessages failure := by
  unfold parseField at h
  split at h
  · cases h
  · cases h
    exact ⟨message, hmem, timestamp, rfl⟩

theorem parseGenericTimestamp_message {timestamp : Str}
    (h : parseGenericTimestamp f64 timestamp = .error failure) : Says timeMessages failure := by
  unfold parseGenericTimestamp at h
  dsimp only at h
  split at h
  next => exact parseField_message f64 h (by decide)
  next =>
      rcases Except.bind_eq_error.mp h with h | ⟨minutes, -, h⟩
      · exact parseField_message f64 h (by decide)
      · rcases Except.bind_eq_error.mp h with h | ⟨seconds, -, h⟩
        · exact parseField_message f64 h (by decide)
        · cases h
  next =>
      rcases Except.bind_eq_error.mp h with h | ⟨hours, -, h⟩
      · exact parseField_message f64 h (by decide)
      · rcases Except.bind_eq_error.mp h with h | ⟨minutes, -, h⟩
        · exact parseField_message f64 h (by decide)
        · rcases Except.bind_eq_error.mp h with h | ⟨seconds, -, h⟩
          · exact parseField_message f64 h (by decide)
          · cases h
  next =>
      cases h
      exact ⟨_, by decide, trim timestamp, rfl⟩

/-- A header is not reported as a time. -/
theorem not_both_messages (hheader : Says headerMessages failure) : ¬ Says timeMessages failure := by
  rintro ⟨message', hmem', text', rfl⟩
  obtain ⟨message, hmem, text, hsame⟩ := hheader
  injection hsame with hsame
  injection hsame with hsame
  -- the first ten characters tell them apart
  have hlist : message'.toList ++ text' = message.toList ++ text := by
    have hboth := congrArg String.toList hsame
    rwa [String.toList_append, String.toList_append, String.toList_ofList, String.toList_ofList] at hboth
  have hfront : message'.toList.take 10 = message.toList.take 10 := by
    have hlong : ∀ message ∈ headerMessages ++ timeMessages, 10 ≤ message.toList.length := by decide
    have htake := congrArg (List.take 10) hlist
    rwa [List.take_append_of_le_length (hlong message' (List.mem_append_right _ hmem')),
      List.take_append_of_le_length (hlong message (List.mem_append_left _ hmem))] at htake
  have hdiffer : ∀ message ∈ headerMessages, ∀ message' ∈ timeMessages, message'.toList.take 10 ≠ message.toList.take 10 := by
    decide
  exact hdiffer message hmem message' hmem' hfront

/-- A time that cannot be read is the first failure of its list. -/
theorem mapM_time_message {parsed : List (Str × Str)}
    (h : (parsed.mapM fun header => parseGenericTimestamp f64 header.2) = .error failure) : Says timeMessages failure := by
  induction parsed with
  | nil => cases h
  | cons header parsed ih =>
    rw [List.mapM_cons] at h
    rcases Except.bind_eq_error.mp h with h | ⟨time, -, h⟩
    · exact parseGenericTimestamp_message f64 h
    · rcases Except.bind_eq_error.mp h with h | ⟨times, -, h⟩
      · exact ih h
      · cases h

/-! ## One header more -/

/-- **A header more is noticed unless a header before it fails, or its time can be found and another one cannot be read.** -/
theorem readSections_more_iff {parts' : List Section} {headers : List Str} {last : Str}
    (hparts : parts.map Prod.fst = headers) (hparts' : parts'.map Prod.fst = headers ++ [last]) :
    readSections f64 parts' = readSections f64 parts ↔
      ¬ ((∀ header ∈ headers, Dated header) ∧ (Dated last → ∀ header ∈ headers, ReadsTime f64 header)) := by
  have hold := readSections_outcome f64 parts
  have hnew := readSections_outcome f64 parts'
  have hdated : (∀ header ∈ headers, Dated header) ↔ ∃ parsed, headers.mapM parseHeader = .ok parsed := Except.exists_mapM_eq_ok.symm
  rw [hparts] at hold
  rw [hparts'] at hnew
  unfold readHeaders at hold hnew
  rw [List.mapM_append] at hnew
  cases hheaders : headers.mapM parseHeader with
  | error failure =>
    rw [hheaders] at hold hnew
    refine iff_of_true ?_ ?_
    · exact (outcome_eq_error.mp hnew).trans (outcome_eq_error.mp hold).symm
    · rintro ⟨hall, -⟩
      obtain ⟨parsed, hparsed⟩ := hdated.mp hall
      rw [hheaders] at hparsed
      cases hparsed
  | ok parsed =>
    rw [hheaders] at hold hnew
    have hall := hdated.mpr ⟨parsed, hheaders⟩
    rw [List.mapM_cons, List.mapM_nil] at hnew
    cases hlast : parseHeader last with
    | error failure =>
      rw [hlast] at hnew
      refine iff_of_false ?_ (not_not_intro ⟨hall, ?_⟩)
      · intro hsame
        rw [hsame] at hnew
        have htimes := outcome_eq_error.mp (hold.symm.trans hnew)
        exact not_both_messages (parseHeader_message hlast) (mapM_time_message f64 htimes)
      · rintro ⟨header, hheader⟩
        rw [hlast] at hheader
        cases hheader
    | ok header =>
      rw [hlast] at hnew
      have hdatedLast : Dated last := ⟨header, hlast⟩
      replace hnew : outcome (readSections f64 parts') =
          outcome ((parsed ++ [header]).mapM fun header => parseGenericTimestamp f64 header.2) := hnew
      replace hold : outcome (readSections f64 parts) =
          outcome (parsed.mapM fun header => parseGenericTimestamp f64 header.2) := hold
      rw [List.mapM_append] at hnew
      cases htimes : parsed.mapM fun header => parseGenericTimestamp f64 header.2 with
      | error failure =>
        rw [htimes] at hold hnew
        refine iff_of_true ((outcome_eq_error.mp hnew).trans (outcome_eq_error.mp hold).symm) ?_
        rintro ⟨-, hreads⟩
        obtain ⟨times, hok⟩ := (readsTime_iff f64 hheaders).mpr (hreads hdatedLast)
        rw [htimes] at hok
        cases hok
      | ok times =>
        refine iff_of_false ?_ (not_not_intro ⟨hall, fun _ => (readsTime_iff f64 hheaders).mp ⟨times, htimes⟩⟩)
        intro hsame
        rw [htimes] at hold
        obtain ⟨entries, hentries⟩ := outcome_eq_ok.mp hold
        have hlength := readSections_length f64 hentries
        have hlength' := readSections_length f64 (hsame.trans hentries)
        have hcount := congrArg List.length hparts
        have hcount' := congrArg List.length hparts'
        rw [List.length_map] at hcount hcount'
        rw [List.length_append, List.length_singleton] at hcount'
        omega

/-- **A newline changes the outcome of the generic parser exactly when it uncovers a header.** -/
theorem sections_newline_iff (lines : List Str) (hne : lines ≠ []) :
    readSections f64 (sections (lines ++ [[]])) = readSections f64 (sections lines) ↔ ¬ HidesHeader f64 lines := by
  rcases skipLines_snoc hne with ⟨hover, hover'⟩ | ⟨hmore, hmore', hsnoc⟩
  · rw [sections_over (.inr hover), sections_over (.inr hover')]
    refine iff_of_true rfl ?_
    rintro ⟨first, middle, last, hlines, -⟩
    rw [hover] at hlines
    injection hlines with _ hlines
    exact List.append_ne_nil_of_right_ne_nil middle (List.cons_ne_nil last []) hlines.symm
  · obtain ⟨first, rest, hlines⟩ := List.exists_cons_of_ne_nil hmore
    have hend : ¬ (skipLines lines = [] ∨ skipLines lines = [[]]) := not_or.mpr ⟨hmore, hmore'⟩
    rw [hlines, List.cons_append] at hsnoc
    have hend' : ¬ (skipLines (lines ++ [[]]) = [] ∨ skipLines (lines ++ [[]]) = [[]]) := by
      rw [hsnoc]
      simp
    rw [sections_cons hlines hend, sections_cons hsnoc hend']
    rcases List.eq_nil_or_concat rest with rfl | ⟨middle, last, rfl⟩
    · -- the header is the last line
      refine iff_of_true ?_ ?_
      · rfl
      · rintro ⟨first', middle, last, hlines', -⟩
        rw [hlines] at hlines'
        injection hlines' with _ hlines'
        exact List.append_ne_nil_of_right_ne_nil middle (List.cons_ne_nil last []) hlines'.symm
    · rw [List.concat_eq_append] at hlines hsnoc ⊢
      cases hlast : isHeaderLine last with
      | false =>
        obtain ⟨hcontent, hsections⟩ := divide_snoc hlast middle
        refine iff_of_true ?_ ?_
        · unfold readSections
          apply congrArg (Except.bind · (unifiedEntries f64 0))
          apply mapM_rawEntry_congr
          rw [List.map_cons, List.map_cons, hsections]
          unfold rawEntry
          rw [show trimEnd (unlines (divide (middle ++ [last] ++ [[]])).1) = trimEnd (unlines (divide (middle ++ [last])).1) from
            hcontent []]
        · rintro ⟨first', middle', last', hlines', hheader, -⟩
          rw [hlines] at hlines'
          injection hlines' with _ hlines'
          obtain ⟨-, hsame⟩ := List.append_inj' hlines' rfl
          rw [← List.singleton_inj.mp hsame, hlast] at hheader
          cases hheader
      | true =>
        have hheaders : ((first, (divide (middle ++ [last])).1) :: (divide (middle ++ [last])).2).map Prod.fst =
            earlierHeaders first middle := by
          rw [List.map_cons, divide_headers]
          rfl
        have hheaders' : ((first, (divide (middle ++ [last] ++ [[]])).1) :: (divide (middle ++ [last] ++ [[]])).2).map Prod.fst =
            earlierHeaders first middle ++ [last.dropWhile isSkipped] := by
          rw [List.map_cons, divide_headers, List.filter_append, List.map_append,
            List.filter_cons_of_pos hlast]
          rfl
        rw [readSections_more_iff f64 hheaders hheaders', not_iff_not]
        constructor
        · rintro ⟨hdated, hreads⟩
          exact ⟨first, middle, last, hlines, hlast, hdated, hreads⟩
        · rintro ⟨first', middle', last', hlines', -, hdated, hreads⟩
          rw [hlines] at hlines'
          injection hlines' with hfirst hlines'
          obtain ⟨hmiddle, hsame⟩ := List.append_inj' hlines' rfl
          have hlast' := List.singleton_inj.mp hsame
          subst hfirst hmiddle hlast'
          exact ⟨hdated, hreads⟩

end GenericTranscriptParser

end Transcript

end Fenic
