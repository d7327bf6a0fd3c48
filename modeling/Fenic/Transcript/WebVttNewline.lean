import Fenic.Transcript.Rendering
import Fenic.Transcript.WebVttCues

/-!
# `Transcript.WebVttNewline` — a newline after a WebVTT text

The lines of a text that does not end in a newline are those of the text with one, but for a carriage return at the end of the last
line. Trimming takes it away, and the payload of a cue does not depend on one at its end (`parsePayloadAndSpeaker_return`).
-/

namespace Fenic

namespace Transcript

open Utf8

/-! ## The lines of the two texts -/

/-- What is put behind the last line is behind the text of the lines. -/
theorem unlines_concat (front : List Str) (last text : Str) :
    unlines (front ++ [last ++ text]) = unlines (front ++ [last]) ++ text := by
  by_cases hfront : front = []
  · rw [hfront, List.nil_append, List.nil_append, unlines_singleton, unlines_singleton]
  · rw [unlines_append hfront (List.cons_ne_nil _ []), unlines_append hfront (List.cons_ne_nil _ []), unlines_singleton,
      unlines_singleton, List.append_assoc, List.cons_append]

theorem trim_return (text : Str) : trim (text ++ ['\r']) = trim text := by
  unfold trim trimStart
  rw [List.dropWhile_append]
  split
  next hblank =>
      rw [List.isEmpty_iff.mp hblank]
      rfl
  next => exact List.rdropWhile_concat_pos isWhitespace _ '\r' (by decide)

theorem linesOfParts_concat (front : List Str) (last : Str) :
    linesOfParts (front ++ [last]) = front.map stripCarriageReturn ++ (if last = [] then [] else [last]) := by
  induction front with
  | nil => rfl
  | cons part front ih =>
    rw [List.cons_append, List.map_cons, List.cons_append, ← ih]
    cases hrest : front ++ [last] with
    | nil => exact absurd hrest (List.append_ne_nil_of_right_ne_nil front (List.cons_ne_nil last []))
    | cons next rest => rfl

/-- The newline splits the text at its end. -/
theorem splitOn_newline (text : Str) : (text ++ ['\n']).splitOn '\n' = text.splitOn '\n' ++ [[]] := by
  have hlines : NoNewline (text.splitOn '\n' ++ [[]]) := by
    apply (noNewline_splitOn text).append
    intro line hmem
    rw [List.mem_singleton.mp hmem]
    exact List.not_mem_nil
  have hne : text.splitOn '\n' ++ [[]] ≠ [] := List.append_ne_nil_of_right_ne_nil _ (List.cons_ne_nil [] [])
  rw [← splitOn_unlines hne hlines, unlines_append (List.splitOn_ne_nil _ _) (List.cons_ne_nil [] []), unlines_splitOn,
    unlines_singleton]

/-- The last line of a text that does not end in a newline is not empty. -/
theorem splitOn_last {text : Str} (hne : text ≠ []) (h : text.getLast? ≠ some '\n') :
    ∃ front last, text.splitOn '\n' = front ++ [last] ∧ last ≠ [] := by
  rcases List.eq_nil_or_concat (text.splitOn '\n') with hnil | ⟨front, last, hlast⟩
  · exact absurd hnil (List.splitOn_ne_nil _ _)
  · rw [List.concat_eq_append] at hlast
    refine ⟨front, last, hlast, ?_⟩
    rintro rfl
    have htext := unlines_splitOn text
    rw [hlast] at htext
    by_cases hfront : front = []
    · rw [hfront] at htext
      exact hne htext.symm
    · rw [unlines_append hfront (List.cons_ne_nil [] []), unlines_singleton] at htext
      rw [← htext, List.getLast?_concat] at h
      exact h rfl

/-- The lines with and without the newline. -/
theorem strLines_newline {text : Str} (hne : text ≠ []) (h : text.getLast? ≠ some '\n') :
    ∃ front last, strLines text = front ++ [last] ∧ strLines (text ++ ['\n']) = front ++ [stripCarriageReturn last] := by
  obtain ⟨front, last, hlast, hlastne⟩ := splitOn_last hne h
  refine ⟨front.map stripCarriageReturn, last, ?_, ?_⟩
  · unfold strLines
    rw [hlast, linesOfParts_concat, if_neg hlastne]
  · unfold strLines
    rw [splitOn_newline, hlast, linesOfParts_concat, if_pos rfl, List.append_nil, List.map_append]
    rfl

theorem stripCarriageReturn_cases (line : Str) :
    stripCarriageReturn line = line ∨ line = stripCarriageReturn line ++ ['\r'] := by
  unfold stripCarriageReturn
  split
  next hlast =>
      right
      exact (List.dropLast_append_getLast? '\r' hlast).symm
  next => exact .inl rfl

namespace WebVTTParser

/-! ## A carriage return behind the payload -/

/-- A repetition that may run over the carriage return finds nothing there that it does not find before it. -/
theorem many_return {α : Type} {p : Char → Bool} {next next' : Str → Str → Option α} (text : Str)
    (hnext : ∀ run rest, next' run (rest ++ ['\r']) = next run rest) (hend : ∀ run, next' run [] = none) :
    many p (text ++ ['\r']) next' = many p text next := by
  induction text generalizing next next' with
  | nil =>
    have hempty : next' [] ['\r'] = next [] [] := hnext [] []
    show (if p '\r' then (next' ['\r'] []).or (next' [] ['\r']) else next' [] ['\r']) = next [] []
    rw [hempty, hend, Option.none_or, ite_self]
  | cons c text ih =>
    rw [List.cons_append, many, many, ih (fun run rest => hnext (c :: run) rest) (fun run => hend (c :: run))]
    rw [show next' [] (c :: (text ++ ['\r'])) = next [] (c :: text) from hnext [] (c :: text)]

theorem manyOne_return {α : Type} {p : Char → Bool} {next next' : Str → Str → Option α} (text : Str)
    (hnext : ∀ run rest, next' run (rest ++ ['\r']) = next run rest) (hend : ∀ run, next' run [] = none) :
    manyOne p (text ++ ['\r']) next' = manyOne p text next := by
  cases text with
  | nil =>
    show (if p '\r' then next' ['\r'] [] else none) = none
    rw [hend, ite_self]
  | cons c text =>
    rw [List.cons_append, manyOne, manyOne,
      many_return text (fun run rest => hnext (c :: run) rest) (fun run => hend (c :: run))]

theorem speakerName_return (text : Str) : speakerName (text ++ ['\r']) = speakerName text := by
  apply manyOne_return
  · intro _ rest
    apply manyOne_return
    · intro name rest
      cases rest with
      | nil => rfl
      | cons c rest => rfl
    · exact fun name => rfl
  · exact fun _ => rfl

/-- The name behind a class. -/
def classedName (text : Str) : Option Str :=
  match text with
  | '.' :: text => many (· ≠ '>') text fun _ text => speakerName text
  | _ => none

theorem classedName_return (text : Str) : classedName (text ++ ['\r']) = classedName text := by
  cases text with
  | nil => rfl
  | cons c text =>
    by_cases hclass : c = '.'
    · subst hclass
      exact many_return text (fun _ rest => speakerName_return rest) fun _ => rfl
    · have hnone : ∀ text : Str, classedName (c :: text) = none := by
        intro text
        unfold classedName
        split
        next heq => exact absurd (List.cons.inj heq).1 hclass
        next => rfl
      rw [List.cons_append, hnone, hnone]

theorem speakerAt_eq_none {text : Str} (h : ¬ ∃ rest, text = '<' :: 'v' :: rest) : speakerAt text = none := by
  unfold speakerAt
  split
  next rest => exact absurd ⟨rest, rfl⟩ h
  next => rfl

theorem speakerAt_return (text : Str) : speakerAt (text ++ ['\r']) = speakerAt text := by
  have htagged : ∀ rest : Str, speakerAt ('<' :: 'v' :: rest) = (classedName rest).or (speakerName rest) := fun _ => rfl
  by_cases htag : ∃ rest, text = '<' :: 'v' :: rest
  · obtain ⟨rest, rfl⟩ := htag
    rw [List.cons_append, List.cons_append, htagged, htagged, classedName_return, speakerName_return]
  · rw [speakerAt_eq_none htag, speakerAt_eq_none]
    rintro ⟨rest, heq⟩
    -- the tag is not cut by the carriage return
    match text, htag, heq with
    | [], _, heq => cases heq
    | [c], _, heq => cases heq
    | c :: c' :: text, htag, heq =>
      cases heq
      exact htag ⟨text, rfl⟩

theorem speakerCapture_return (text : Str) : speakerCapture (text ++ ['\r']) = speakerCapture text := by
  induction text with
  | nil => rfl
  | cons c text ih =>
    rw [List.cons_append, speakerCapture, speakerCapture, ih]
    rw [show speakerAt (c :: (text ++ ['\r'])) = speakerAt (c :: text) from speakerAt_return (c :: text)]

theorem removeTags_return (text : Str) :
    removeTags false (text ++ ['\r']) = removeTags false text ++ ['\r'] ∧
      ('>' ∈ text → removeTags true (text ++ ['\r']) = removeTags true text ++ ['\r']) := by
  induction text with
  | nil => exact ⟨rfl, nofun⟩
  | cons c text ih =>
    obtain ⟨hout, hin⟩ := ih
    have hclose : '>' ∈ text ++ ['\r'] ↔ '>' ∈ text := by simp
    constructor
    · rw [List.cons_append, removeTags, removeTags]
      by_cases hopen : c = '<' ∧ '>' ∈ text
      · rw [if_pos hopen, if_pos ⟨hopen.1, hclose.mpr hopen.2⟩]
        exact hin hopen.2
      · rw [if_neg hopen, if_neg (fun h => hopen ⟨h.1, hclose.mp h.2⟩), hout, List.cons_append]
    · intro hmem
      rw [List.cons_append, removeTags, removeTags]
      by_cases hc : c = '>'
      · rw [decide_eq_false (not_not_intro hc)]
        exact hout
      · rw [decide_eq_true hc]
        exact hin ((List.mem_cons.mp hmem).resolve_left (Ne.symm hc))

theorem cleanPayload_return (content : Str) : cleanPayload (content ++ ['\r']) = cleanPayload content := by
  have hlines : ∀ text : Str, ((strLines (text ++ ['\r'])).map trim).filter (· ≠ []) = ((strLines text).map trim).filter (· ≠ []) := by
    intro text
    rcases List.eq_nil_or_concat (text.splitOn '\n') with hnil | ⟨front, last, hlast⟩
    · exact absurd hnil (List.splitOn_ne_nil _ _)
    · rw [List.concat_eq_append] at hlast
      have hsplit : (text ++ ['\r']).splitOn '\n' = front ++ [last ++ ['\r']] := by
        have hnewline : NoNewline (front ++ [last ++ ['\r']]) := by
          have hparts := noNewline_splitOn text
          rw [hlast] at hparts
          intro line hmem
          rcases List.mem_append.mp hmem with hmem | hmem
          · exact hparts line (List.mem_append_left _ hmem)
          · rw [List.mem_singleton.mp hmem]
            have hnone := hparts last (List.mem_append_right _ List.mem_cons_self)
            simpa using hnone
        rw [← splitOn_unlines (List.append_ne_nil_of_right_ne_nil front (List.cons_ne_nil _ [])) hnewline, unlines_concat,
          ← hlast, unlines_splitOn]
      unfold strLines
      rw [hsplit, hlast, linesOfParts_concat, linesOfParts_concat, if_neg (by simp)]
      rw [List.map_append, List.map_append, List.filter_append, List.filter_append]
      congr 1
      by_cases hempty : last = []
      · rw [hempty]
        decide
      · rw [if_neg hempty, List.map_singleton, List.map_singleton, trim_return]
  unfold cleanPayload
  rw [(removeTags_return content).1, hlines]

theorem parsePayloadAndSpeaker_return (content : Str) :
    parsePayloadAndSpeaker (content ++ ['\r']) = parsePayloadAndSpeaker content := by
  unfold parsePayloadAndSpeaker
  rw [speakerCapture_return, cleanPayload_return]

/-! ## The cues -/

variable {F : Type} (f64 : F64 F)

theorem inBlock_return (line : Str) : inBlock (line ++ ['\r']) = inBlock line := by
  unfold inBlock
  rw [trim_return]

/-- The lines of a block are those of the other text, but for the carriage return, and so are the lines after it. -/
theorem block_return (front : List Str) (last : Str) :
    parsePayloadAndSpeaker (unlines ((front ++ [last ++ ['\r']]).takeWhile inBlock)) =
        parsePayloadAndSpeaker (unlines ((front ++ [last]).takeWhile inBlock)) ∧
      (((front ++ [last ++ ['\r']]).dropWhile inBlock = [] ∧ (front ++ [last]).dropWhile inBlock = []) ∨
        ∃ front', (front ++ [last ++ ['\r']]).dropWhile inBlock = front' ++ [last ++ ['\r']] ∧
          (front ++ [last]).dropWhile inBlock = front' ++ [last] ∧ front'.length ≤ front.length) := by
  by_cases hall : ∀ line ∈ front, inBlock line = true
  · rw [List.takeWhile_append_of_pos hall, List.takeWhile_append_of_pos hall, List.dropWhile_append_of_pos hall,
      List.dropWhile_append_of_pos hall]
    cases hlast : inBlock last with
    | true =>
      have hlast' : inBlock (last ++ ['\r']) = true := (inBlock_return last).trans hlast
      rw [List.takeWhile_cons_of_pos hlast, List.takeWhile_cons_of_pos hlast', List.dropWhile_cons_of_pos hlast,
        List.dropWhile_cons_of_pos hlast']
      refine ⟨?_, .inl ⟨rfl, rfl⟩⟩
      show parsePayloadAndSpeaker (unlines (front ++ [last ++ ['\r']])) = parsePayloadAndSpeaker (unlines (front ++ [last]))
      rw [unlines_concat, parsePayloadAndSpeaker_return]
    | false =>
      have hlast' : inBlock (last ++ ['\r']) = false := (inBlock_return last).trans hlast
      have hout : ¬ inBlock last = true := by rw [hlast]; exact Bool.false_ne_true
      have hout' : ¬ inBlock (last ++ ['\r']) = true := by rw [hlast']; exact Bool.false_ne_true
      rw [List.takeWhile_cons_of_neg hout, List.takeWhile_cons_of_neg hout', List.dropWhile_cons_of_neg hout,
        List.dropWhile_cons_of_neg hout']
      exact ⟨rfl, .inr ⟨[], rfl, rfl, Nat.zero_le _⟩⟩
  · have hblank : (front.dropWhile inBlock) ≠ [] := fun hnil => hall (List.dropWhile_eq_nil_iff.mp hnil)
    have hend : ¬ (front.takeWhile inBlock).length = front.length := by
      intro hlength
      have hsplit := congrArg List.length (List.takeWhile_append_dropWhile (p := inBlock) (l := front))
      rw [List.length_append] at hsplit
      exact hblank (List.length_eq_zero_iff.mp (by omega))
    have hempty : (front.dropWhile inBlock).isEmpty = false := by
      cases hdrop : front.dropWhile inBlock with
      | nil => exact absurd hdrop hblank
      | cons line rest => rfl
    rw [List.takeWhile_append, List.takeWhile_append, if_neg hend, if_neg hend, List.dropWhile_append, List.dropWhile_append,
      hempty]
    exact ⟨rfl, .inr ⟨front.dropWhile inBlock, rfl, rfl, (List.dropWhile_suffix _).length_le⟩⟩

theorem cueTiming_return (front : List Str) (last : Str) :
    (∃ failure, cueTiming (front ++ [last ++ ['\r']]) = .error failure ∧ cueTiming (front ++ [last]) = .error failure) ∨
    (∃ timing, cueTiming (front ++ [last ++ ['\r']]) = .ok (timing, []) ∧ cueTiming (front ++ [last]) = .ok (timing, [])) ∨
    (∃ timing front', cueTiming (front ++ [last ++ ['\r']]) = .ok (timing, front' ++ [last ++ ['\r']]) ∧
      cueTiming (front ++ [last]) = .ok (timing, front' ++ [last]) ∧ front'.length < front.length) := by
  cases front with
  | nil =>
    unfold cueTiming
    simp only [List.nil_append, trim_return]
    split
    · exact .inr (.inl ⟨_, rfl, rfl⟩)
    · exact .inl ⟨_, rfl, rfl⟩
  | cons line front =>
    unfold cueTiming
    simp only [List.cons_append]
    split
    · exact .inr (.inr ⟨_, front, rfl, rfl, Nat.lt_succ_self _⟩)
    · cases front with
      | nil => exact .inr (.inl ⟨trim last, by rw [← trim_return]; rfl, rfl⟩)
      | cons next front =>
        refine .inr (.inr ⟨_, front, rfl, rfl, ?_⟩)
        rw [List.length_cons, List.length_cons]
        omega

/-- The carriage return at the end changes nothing about the cues. By induction on the number of lines. -/
theorem cues_return (front : List Str) (last : Str) (cueIndex : Nat) :
    cues f64 (front ++ [last ++ ['\r']]) cueIndex = cues f64 (front ++ [last]) cueIndex := by
  induction hn : front.length using Nat.strong_induction_on generalizing front cueIndex with
  | _ n ih =>
    -- the lines that are left after a block
    have hrest : ∀ (after : List Str) (index : Nat), after.length < n →
        cues f64 ((after ++ [last ++ ['\r']]).dropWhile inBlock) index =
          cues f64 ((after ++ [last]).dropWhile inBlock) index := by
      intro after index hlt
      rcases (block_return after last).2 with ⟨hnil, hnil'⟩ | ⟨after', hafter, hafter', hle⟩
      · rw [hnil, hnil']
      · rw [hafter, hafter']
        exact ih after'.length (by omega) after' index rfl
    have hcue : ∀ (line line' : Str) (rest rest' : List Str), front ++ [last ++ ['\r']] = line :: rest →
        front ++ [last] = line' :: rest' → trim line = trim line' → trim line' ≠ [] →
        opensSkippedBlock (trim line') = false →
        cues f64 (front ++ [last ++ ['\r']]) cueIndex = cues f64 (front ++ [last]) cueIndex := by
      intro line line' rest rest' hlines hlines' htrim hne hskip
      have htiming := cueTiming_return front last
      rw [hlines, hlines'] at htiming ⊢
      rw [cues_cue f64 (htrim ▸ hne) (htrim ▸ hskip), cues_cue f64 hne hskip]
      rcases htiming with ⟨failure, hleft, hright⟩ | ⟨timing, hleft, hright⟩ | ⟨timing, after, hleft, hright, hlt⟩
      · rw [hleft, hright]
      · rw [hleft, hright]
      · rw [hleft, hright]
        simp only [Except.bind]
        cases parseTimingLine f64 timing with
        | error failure => rfl
        | ok times =>
          have hentry : cueEntry f64 (cueIndex + 1) times ((after ++ [last ++ ['\r']]).takeWhile inBlock) =
              cueEntry f64 (cueIndex + 1) times ((after ++ [last]).takeWhile inBlock) := by
            unfold cueEntry
            rw [(block_return after last).1]
          simp only [hentry, hrest after (cueIndex + 1) (by omega)]
    cases front with
    | nil =>
      by_cases hblank : trim last = []
      · rw [List.nil_append, List.nil_append, cues_blank f64 hblank, cues_blank f64 ((trim_return last).trans hblank)]
      · cases hskip : opensSkippedBlock (trim last) with
        | true =>
          have hblank' : trim (last ++ ['\r']) ≠ [] := by rwa [trim_return]
          have hskip' : opensSkippedBlock (trim (last ++ ['\r'])) = true := by rwa [trim_return]
          rw [List.nil_append, List.nil_append, cues_skipped f64 hblank hskip, cues_skipped f64 hblank' hskip']
        | false => exact hcue _ _ [] [] rfl rfl (trim_return last) hblank hskip
    | cons line front =>
      rw [List.length_cons] at hn
      by_cases hblank : trim line = []
      · rw [List.cons_append, List.cons_append, cues_blank f64 hblank, cues_blank f64 hblank]
        exact ih front.length (by omega) front cueIndex rfl
      · cases hskip : opensSkippedBlock (trim line) with
        | true =>
          rw [List.cons_append, List.cons_append, cues_skipped f64 hblank hskip, cues_skipped f64 hblank hskip]
          exact hrest front cueIndex (by omega)
        | false => exact hcue line line _ _ rfl rfl rfl hblank hskip

/-- **A newline changes the outcome of the WebVTT parser exactly on the empty text.** -/
theorem parse_newline_iff {input : Str} (h : input.getLast? ≠ some '\n') :
    parse f64 (input ++ ['\n']) = parse f64 input ↔ input ≠ [] := by
  by_cases hne : input = []
  · subst hne
    refine iff_of_false ?_ (not_not_intro rfl)
    exact nofun
  · refine iff_of_true ?_ hne
    obtain ⟨front, last, hlines, hlines'⟩ := strLines_newline hne h
    rw [parse_eq_cues, parse_eq_cues, hlines, hlines']
    rcases stripCarriageReturn_cases last with hsame | hreturn
    · rw [hsame]
    · generalize stripCarriageReturn last = last' at hreturn
      subst hreturn
      cases front with
      | nil =>
        have hheader : isWebVttHeader (last' ++ ['\r']) = isWebVttHeader last' := by
          unfold isWebVttHeader
          rw [trim_return]
        simp only [List.nil_append, hheader]
      | cons firstLine front =>
        simp only [List.cons_append]
        rw [cues_return]

end WebVTTParser

end Transcript

end Fenic
