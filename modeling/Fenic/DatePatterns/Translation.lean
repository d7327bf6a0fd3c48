import Fenic.Expressions.LogicalExpr
import Fenic.Lib.Runs
import Fenic.Transcript.Types

/-!
# `DatePatterns.Translation` — the translation, run by run

A pattern of `SimpleDateFormat` is read run by run. A run of a pattern letter is a field, two single quotes are a quote
wherever they stand, an odd quote opens or closes a quoted section, and everything else stands for itself. A letter that
is no pattern letter is refused, and so is a section that is not closed.

Timestamps are in UTC. What depends on the weeks of a locale is left to the calendar.

A chrono format is read from left to right. A percent sign starts a directive, and another one behind it stands for
itself; everything else is copied. A format with a directive that chrono does not know prints nothing at all.

`Chrono` collects what the translation uses of this: the directives that it writes (`directiveText`), that other counts
of digits are no directives, and that no directive but the doubled percent sign writes a percent sign or a quote first.

The scanner of `_java_like_to_chrono` looks at a quote and at the character behind it. `javaLikeToChrono_eq_runs` says what
it writes for a whole run. It reads the quotes of a run as Java does, but outside of a section it takes the first of them for
an opening one, so that it writes one quote less when the run closes the section again.
-/

namespace Fenic

namespace DatePatterns

open Transcript (padded)
open Expressions (quote)

/-! ## Timestamps -/

def isLeap (year : Nat) : Bool := (year % 4 = 0 && year % 100 ≠ 0) || year % 400 = 0

def daysInMonth (year month : Nat) : Nat :=
  if month = 2 then (if isLeap year then 29 else 28) else if month ∈ [4, 6, 9, 11] then 30 else 31

/-- A timestamp in UTC, of the years that a `datetime` has. -/
structure Timestamp where
  year : Nat
  month : Nat
  day : Nat
  hour : Nat
  minute : Nat
  second : Nat
  microsecond : Nat
  year_range : 1 ≤ year ∧ year ≤ 9999
  month_range : 1 ≤ month ∧ month ≤ 12
  day_range : 1 ≤ day ∧ day ≤ daysInMonth year month
  hour_lt : hour < 24
  minute_lt : minute < 60
  second_lt : second < 60
  microsecond_lt : microsecond < 1000000

namespace Timestamp

def monthNames : List String :=
  ["January", "February", "March", "April", "May", "June", "July", "August", "September", "October", "November", "December"]

def dayNames : List String := ["Sunday", "Monday", "Tuesday", "Wednesday", "Thursday", "Friday", "Saturday"]

variable (t : Timestamp)

def dayOfYear : Nat := ((List.range t.month).map fun m => if m = 0 then 0 else daysInMonth t.year m).sum + t.day

/-- The days since a Sunday, modulo the week: every year moves its first day by one, every leap year by another. -/
def dayOfWeek : Nat := ((t.year - 1) + (t.year - 1) / 4 - (t.year - 1) / 100 + (t.year - 1) / 400 + t.dayOfYear) % 7

def monthName : List Char := (monthNames.getD (t.month - 1) "").toList

def dayName : List Char := (dayNames.getD t.dayOfWeek "").toList

def hour12 : Nat := if t.hour % 12 = 0 then 12 else t.hour % 12

def half : List Char := (if t.hour < 12 then "AM" else "PM").toList

def millisecond : Nat := t.microsecond / 1000

end Timestamp

/-! ## Fields -/

/-- The calendar of a locale. -/
class JavaCalendar where
  weekYear : Timestamp → Nat
  weekInYear : Timestamp → Nat
  weekInMonth : Timestamp → Nat

/-- `DateFormatSymbols.patternChars`. -/
def patternChars : List Char := "GyMdkHmsSEDFwWahKzZYuXL".toList

/-- The letter may stand as often. -/
def isField (ch : Char) (n : Nat) : Bool := ch ∈ patternChars && !(ch = 'X' && 4 ≤ n)

/-- A year is cut to two digits where there are two letters. -/
def yearText (n year : Nat) : List Char := if n = 2 then padded 2 (year % 100) else padded n year

def monthText (t : Timestamp) (n : Nat) : List Char :=
  if 4 ≤ n then t.monthName else if n = 3 then t.monthName.take 3 else padded n t.month

/-- The text of a field, a letter that stands `n` times. -/
def fieldText [JavaCalendar] (t : Timestamp) (ch : Char) (n : Nat) : List Char :=
  match ch with
  | 'G' => "AD".toList
  | 'y' => yearText n t.year
  | 'Y' => yearText n (JavaCalendar.weekYear t)
  | 'M' => monthText t n
  | 'L' => monthText t n
  | 'w' => padded n (JavaCalendar.weekInYear t)
  | 'W' => padded n (JavaCalendar.weekInMonth t)
  | 'D' => padded n t.dayOfYear
  | 'd' => padded n t.day
  | 'F' => padded n ((t.day - 1) / 7 + 1)
  | 'E' => if 4 ≤ n then t.dayName else t.dayName.take 3
  | 'u' => padded n (if t.dayOfWeek = 0 then 7 else t.dayOfWeek)
  | 'a' => t.half
  | 'H' => padded n t.hour
  | 'k' => padded n (if t.hour = 0 then 24 else t.hour)
  | 'K' => padded n (t.hour % 12)
  | 'h' => padded n t.hour12
  | 'm' => padded n t.minute
  | 's' => padded n t.second
  | 'S' => padded n t.millisecond
  | 'z' => (if 4 ≤ n then "Coordinated Universal Time" else "UTC").toList
  | 'Z' => "+0000".toList
  -- `X`: the offset zero is written as `Z`
  | _ => "Z".toList

/-! ## Patterns -/

inductive Item where
  | char (c : Char)
  | field (ch : Char) (n : Nat)
  deriving DecidableEq

def isLetter (c : Char) : Bool := ('a' ≤ c && c ≤ 'z') || ('A' ≤ c && c ≤ 'Z')

/-- The items of a run that is not of quotes, outside of a quoted section or in one. -/
def runItems (quoted : Bool) (ch : Char) (n : Nat) : Option (List Item) :=
  if quoted || !isLetter ch then some (List.replicate n (.char ch))
  else if isField ch n then some [.field ch n]
  else none

/-- Whether a section is open behind a run of quotes. -/
def afterQuotes (quoted : Bool) (n : Nat) : Bool := if n % 2 = 1 then !quoted else quoted

/-- The items of a pattern that is given by its runs. -/
def javaItems (quoted : Bool) : List (Char × Nat) → Option (List Item)
  | [] => if quoted then none else some []
  | (ch, n) :: runs =>
    if ch = quote then (javaItems (afterQuotes quoted n) runs).map (List.replicate (n / 2) (.char quote) ++ ·)
    else (runItems quoted ch n).bind fun items => (javaItems quoted runs).map (items ++ ·)

variable [JavaCalendar]

def Item.text (t : Timestamp) : Item → List Char
  | .char c => [c]
  | .field ch n => fieldText t ch n

def itemsText (t : Timestamp) (items : List Item) : List Char := items.flatMap (Item.text t)

/-- The items of a pattern, where Java takes it. -/
def javaPattern (pattern : String) : Option (List Item) := javaItems false (Runs.encode pattern.toList)

end DatePatterns

/-! ## Printing with a chrono format -/

namespace DatePatterns

open Transcript (padded)
open Expressions (quote)

/-- The directives that the translation writes, without the percent sign. -/
def directives : List String :=
  ["Y", "y", "-m", "m", "b", "B", "-d", "d", "-H", "H", "-I", "I", "-M", "M", "-S", "S", "3f", "6f", "9f", "A", "a", "p",
    "z", ":z", "Z"]

/-- The text of a directive of `directives`. -/
def directiveText (t : Timestamp) (directive : String) : List Char :=
  match directive with
  | "Y" => padded 4 t.year
  | "y" => padded 2 (t.year % 100)
  | "-m" => padded 1 t.month
  | "m" => padded 2 t.month
  | "b" => t.monthName.take 3
  | "B" => t.monthName
  | "-d" => padded 1 t.day
  | "d" => padded 2 t.day
  | "-H" => padded 1 t.hour
  | "H" => padded 2 t.hour
  | "-I" => padded 1 t.hour12
  | "I" => padded 2 t.hour12
  | "-M" => padded 1 t.minute
  | "M" => padded 2 t.minute
  | "-S" => padded 1 t.second
  | "S" => padded 2 t.second
  | "3f" => padded 3 t.millisecond
  | "6f" => padded 6 t.microsecond
  | "9f" => padded 9 (1000 * t.microsecond)
  | "A" => t.dayName
  | "a" => t.dayName.take 3
  | "p" => t.half
  | "z" => "+0000".toList
  | ":z" => "+00:00".toList
  -- `Z`
  | _ => "UTC".toList

/-- `DateTime::format`. There is no text where the format has an unknown directive. -/
class Chrono where
  format : List Char → Timestamp → Option (List Char)
  format_nil (t : Timestamp) : format [] t = some []
  format_char {c : Char} (hc : c ≠ '%') (rest : List Char) (t : Timestamp) :
    format (c :: rest) t = (format rest t).map (c :: ·)
  format_percent (rest : List Char) (t : Timestamp) : format ('%' :: '%' :: rest) t = (format rest t).map ('%' :: ·)
  format_directive {directive : String} (h : directive ∈ directives) (rest : List Char) (t : Timestamp) :
    format ('%' :: (directive.toList ++ rest)) t = (format rest t).map (directiveText t directive ++ ·)
  /-- Three, six or nine digits of the fraction can be asked for. -/
  format_fraction {n : Nat} (hpos : 0 < n) (hn : n ∉ [3, 6, 9]) (rest : List Char) (t : Timestamp) :
    format ('%' :: ((toString n).toList ++ 'f' :: rest)) t = none
  format_open (t : Timestamp) : format ['%'] t = none
  /-- Any other directive is unknown, or it writes something that starts with another character. -/
  format_other {c : Char} (hc : c ≠ '%') (rest : List Char) :
    ∃ t, ∀ text, format ('%' :: c :: rest) t = some text →
      ∃ first more, text = first :: more ∧ first ≠ '%' ∧ first ≠ quote

end DatePatterns

/-! ## The translation, run by run -/

namespace DatePatterns

open Expressions (quote repeatMap mapSegment endSegment segmentToChrono javaLikeToChrono)

/-- The quotes that are written for a run of them. -/
def writtenQuotes (quoted : Bool) (n : Nat) : Nat := if quoted then n / 2 else (n - 1) / 2

/-- What is written for a run that is not of quotes. -/
def writtenRun (quoted : Bool) (ch : Char) (n : Nat) : List Char :=
  if quoted then (List.replicate n ch).flatMap fun ch => if ch = '%' then ['%', '%'] else [ch] else repeatMap ch n

/-- The format that is written for a pattern that is given by its runs. -/
def chronoRuns (quoted : Bool) : List (Char × Nat) → List Char
  | [] => []
  | (ch, n) :: runs =>
    if ch = quote then List.replicate (writtenQuotes quoted n) quote ++ chronoRuns (afterQuotes quoted n) runs
    else writtenRun quoted ch n ++ chronoRuns quoted runs

/-! ## Segments -/

variable {runs : List (Char × Nat)}

theorem mapSegment_decode (h : Runs.Canonical runs) :
    mapSegment (Runs.decode runs) = runs.flatMap fun run => repeatMap run.1 run.2 := by
  rw [mapSegment, Runs.splitBy_decode h, List.flatMap_map]
  refine List.flatMap_congr fun run hrun => ?_
  obtain ⟨ch, n⟩ := run
  obtain ⟨n, rfl⟩ := Nat.exists_eq_succ_of_ne_zero (Nat.ne_of_gt (h.positive _ hrun))
  show repeatMap ch (List.replicate (n + 1) ch).length = _
  rw [List.length_replicate]

theorem segmentToChrono_single (quoted : Bool) (segment : List Char) (ch : Char) :
    segmentToChrono quoted segment [ch] =
      if ch = quote then endSegment quoted segment else endSegment quoted (segment ++ [ch]) := rfl

theorem segmentToChrono_pair (quoted : Bool) (segment : List Char) (ch next : Char) (chars : List Char) :
    segmentToChrono quoted segment (ch :: next :: chars) =
      if ch = quote then
        if quoted then
          if next = quote then segmentToChrono true (segment ++ [quote]) chars
          else endSegment true segment ++ segmentToChrono false [] (next :: chars)
        else endSegment false segment ++ segmentToChrono true [] (next :: chars)
      else segmentToChrono quoted (segment ++ [ch]) (next :: chars) := rfl

/-- Characters that are not quotes join the segment. -/
theorem segmentToChrono_replicate (quoted : Bool) {ch : Char} (hch : ch ≠ quote) (n : Nat) (segment rest : List Char) :
    segmentToChrono quoted segment (List.replicate n ch ++ rest) =
      segmentToChrono quoted (segment ++ List.replicate n ch) rest := by
  induction n generalizing segment with
  | zero => rw [List.replicate_zero, List.nil_append, List.append_nil]
  | succ n ih =>
    have hstep : ∀ chars, segmentToChrono quoted segment (ch :: chars) = segmentToChrono quoted (segment ++ [ch]) chars := by
      intro chars
      cases chars with
      | nil =>
        rw [segmentToChrono_single, if_neg hch]
        rfl
      | cons next chars => rw [segmentToChrono_pair, if_neg hch]
    rw [List.replicate_succ, List.cons_append, hstep, ih, List.append_assoc]
    rfl

/-- A quote outside of a section opens one. -/
theorem segmentToChrono_open (segment rest : List Char) :
    segmentToChrono false segment (quote :: rest) = endSegment false segment ++ segmentToChrono true [] rest := by
  cases rest with
  | nil =>
    rw [segmentToChrono_single, if_pos rfl]
    show _ = _ ++ []
    rw [List.append_nil]
  | cons next rest =>
    rw [segmentToChrono_pair, if_pos rfl, if_neg Bool.false_ne_true]

/-- Within a section, each two quotes of a run are one, and one that is left closes the section. -/
theorem segmentToChrono_quotes (n : Nat) (segment : List Char) {rest : List Char} (hrest : rest.head? ≠ some quote) :
    segmentToChrono true segment (List.replicate n quote ++ rest) =
      if n % 2 = 1 then endSegment true (segment ++ List.replicate (n / 2) quote) ++ segmentToChrono false [] rest
      else segmentToChrono true (segment ++ List.replicate (n / 2) quote) rest := by
  induction n using Nat.twoStepInduction generalizing segment with
  | zero =>
    rw [if_neg (by decide), List.replicate_zero, List.nil_append, List.append_nil]
  | one =>
    rw [if_pos rfl, List.replicate_one, List.singleton_append]
    show _ = endSegment true (segment ++ []) ++ _
    rw [List.append_nil]
    cases rest with
    | nil =>
      rw [segmentToChrono_single, if_pos rfl]
      show _ = _ ++ []
      rw [List.append_nil]
    | cons next rest =>
      have hnext : next ≠ quote := fun heq => hrest (congrArg some heq)
      rw [segmentToChrono_pair, if_pos rfl, if_pos rfl, if_neg hnext]
  | more n ih _ =>
    have hhalf : (n + 2) / 2 = n / 2 + 1 := Nat.add_div_right n (by decide)
    rw [List.replicate_succ, List.replicate_succ, List.cons_append, List.cons_append, segmentToChrono, if_pos rfl, if_pos rfl,
      if_pos rfl, ih, Nat.add_mod_right, hhalf, List.append_assoc, List.replicate_succ]
    rfl

theorem endSegment_quotes (n : Nat) (segment : List Char) :
    endSegment true (segment ++ List.replicate n quote) = endSegment true segment ++ List.replicate n quote := by
  show (segment ++ _).flatMap _ = segment.flatMap _ ++ _
  rw [List.flatMap_append]
  congr 1
  induction n with
  | zero => rfl
  | succ n ih =>
    rw [List.replicate_succ, List.flatMap_cons, ih]
    rfl

theorem head?_decode {run : Char × Nat} (h : Runs.Canonical (run :: runs)) :
    (Runs.decode runs).head? ≠ some run.1 := by
  cases runs with
  | nil => nofun
  | cons next runs =>
    obtain ⟨ch, n⟩ := next
    obtain ⟨n, rfl⟩ := Nat.exists_eq_succ_of_ne_zero (Nat.ne_of_gt (h.tail.positive _ List.mem_cons_self))
    intro heq
    injection heq with heq
    exact (List.isChain_cons_cons.mp h.apart).1 heq.symm

/-! ## The whole pattern -/

/-- The scanner outside of a section, with the runs of the segment, and in a section, with its text. -/
theorem segmentToChrono_eq (h : Runs.Canonical runs) :
    (∀ segment : List (Char × Nat), Runs.Canonical (segment ++ runs) →
        segmentToChrono false (Runs.decode segment) (Runs.decode runs) =
          (segment.flatMap fun run => repeatMap run.1 run.2) ++ chronoRuns false runs) ∧
      ∀ segment : List Char,
        segmentToChrono true segment (Runs.decode runs) = endSegment true segment ++ chronoRuns true runs := by
  induction runs with
  | nil =>
    refine ⟨fun segment hsegment => ?_, fun segment => ?_⟩
    · rw [List.append_nil] at hsegment
      rw [Runs.decode_nil, segmentToChrono, endSegment, if_neg Bool.false_ne_true, mapSegment_decode hsegment, chronoRuns,
        List.append_nil]
    · rw [Runs.decode_nil, segmentToChrono, chronoRuns, List.append_nil]
  | cons run runs ih =>
    obtain ⟨ch, n⟩ := run
    have hhead := head?_decode h
    obtain ⟨ihout, ihin⟩ := ih h.tail
    have ihempty : segmentToChrono false [] (Runs.decode runs) = chronoRuns false runs := ihout [] h.tail
    by_cases hch : ch = quote
    · subst hch
      -- a run of quotes, in a section
      have hquotes : ∀ (k : Nat) (segment : List Char),
          segmentToChrono true segment (List.replicate k quote ++ Runs.decode runs) =
            endSegment true segment ++ List.replicate (k / 2) quote ++ chronoRuns (afterQuotes true k) runs := by
        intro k segment
        rw [segmentToChrono_quotes k segment hhead, afterQuotes]
        split
        · rw [endSegment_quotes, ihempty]
          rfl
        · rw [ihin, endSegment_quotes]
      refine ⟨fun segment hsegment => ?_, fun segment => ?_⟩
      · obtain ⟨n, rfl⟩ := Nat.exists_eq_succ_of_ne_zero (Nat.ne_of_gt (h.positive _ List.mem_cons_self))
        have hcanonical : Runs.Canonical segment :=
          ⟨fun run hrun => hsegment.positive run (List.mem_append_left _ hrun), hsegment.apart.left_of_append⟩
        have hafter : afterQuotes true n = afterQuotes false (n + 1) := by
          unfold afterQuotes
          split <;> split <;> first | rfl | omega
        rw [Runs.decode_cons, List.replicate_succ, List.cons_append, segmentToChrono_open, hquotes, chronoRuns, if_pos rfl,
          hafter, endSegment, if_neg Bool.false_ne_true, mapSegment_decode hcanonical]
        rfl
      · rw [Runs.decode_cons, hquotes, chronoRuns, if_pos rfl, List.append_assoc]
        rfl
    · refine ⟨fun segment hsegment => ?_, fun segment => ?_⟩
      · have hjoined : Runs.decode segment ++ List.replicate n ch = Runs.decode (segment ++ [(ch, n)]) := by
          rw [Runs.decode_append, Runs.decode_cons, Runs.decode_nil, List.append_nil]
        rw [Runs.decode_cons, segmentToChrono_replicate false hch, hjoined, ihout, chronoRuns, if_neg hch, List.flatMap_append,
          List.append_assoc, List.flatMap_singleton]
        · rfl
        · rw [List.append_assoc]
          exact hsegment
      · rw [Runs.decode_cons, segmentToChrono_replicate true hch, ihin, chronoRuns, if_neg hch]
        show List.flatMap _ _ ++ _ = List.flatMap _ _ ++ (List.flatMap _ _ ++ _)
        rw [List.flatMap_append, List.append_assoc]

/-- **The format that is written for a pattern.** -/
theorem javaLikeToChrono_eq_runs (pattern : String) :
    (javaLikeToChrono pattern).toList = chronoRuns false (Runs.encode pattern.toList) := by
  have hscan := (segmentToChrono_eq (Runs.canonical_encode pattern.toList)).1 [] (Runs.canonical_encode _)
  rw [Runs.decode_nil, Runs.decode_encode] at hscan
  rw [javaLikeToChrono, String.toList_ofList, hscan]
  rfl

end DatePatterns

end Fenic
