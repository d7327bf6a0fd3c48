import Fenic.Lib.Except
import Fenic.Lib.Occurrence
import Fenic.Lib.Rows
import Fenic.Lib.Utf8

/-!
# `Regexp.Instr` — the position of a match

`regexp_instr` has two implementations: one that extracts the matched text and looks for it in the row, when the index is a literal, and a
plugin that takes the offset of the match, when the index is a column. Both count bytes, the first finds an earlier copy of the matched
text, the second one row only for a literal text, and a missing pattern is no match for the one and missing for the other
(`paths_agree_iff`).
-/

namespace Fenic

namespace Regexp

open Utf8

abbrev Str := List Char

inductive Failure where
  | panic
  | computeError (message : String)
  | typeError
  | overflowError
  deriving DecidableEq, Repr

/-- The regex engine: what a pattern compiles to, and the spans of the leftmost match and of its groups, in bytes. -/
structure Engine where
  Regex : Type
  new : Str → Except String Regex
  captures : Regex → Str → Option (List (Option (Nat × Nat)))
  captures_bounds : ∀ {regex text groups} {idx start stop : Nat}, captures regex text = some groups →
    groups[idx]? = some (some (start, stop)) →
      ∃ before matched after, text = before ++ (matched ++ after) ∧ start = byteLen before ∧ stop = byteLen before + byteLen matched

/-- `captures.get`, after `captures`. -/
def groupSpan (engine : Engine) (regex : engine.Regex) (idx : Nat) (text : Str) : Option (Nat × Nat) :=
  match engine.captures regex text with
  | some captures => captures[idx]?.join
  | none => none

abbrev Series (α : Type) := List (Option α)

/-- `ChunkedArray::get`. -/
def Series.get {α : Type} (series : Series α) (i : Nat) : Except Failure (Option α) :=
  match series[i]? with
  | some value => .ok value
  | none => .error .panic

/-! ## The plugin -/

section Plugin

variable (engine : Engine)

abbrev Cache := List (Str × engine.Regex)

/-- `get_or_compile_regex`. -/
def getOrCompileRegex (regexCache : Cache engine) (pattern : Str) : Except Failure (engine.Regex × Cache engine) :=
  match regexCache.lookup pattern with
  | some regex => .ok (regex, regexCache)
  | none =>
    match engine.new pattern with
    | .ok regex => .ok (regex, (pattern, regex) :: regexCache)
    | .error e => .error (.computeError ("Invalid regex pattern '" ++ String.ofList pattern ++ "': " ++ e))

/-- `start as i32`, and one more. -/
def oneBased (start : Nat) : Int :=
  (Int.bmod start (2 ^ 32) + 1).bmod (2 ^ 32)

/-- The value of a row, and the cache after it. -/
def instrValue (regexCache : Cache engine) (textOpt patternOpt : Option Str) (idxOpt : Option Int) :
    Except Failure (Option Int × Cache engine) :=
  match textOpt, patternOpt, idxOpt with
  | some text, some pattern, some idx =>
    if idx < 0 then .ok (some 0, regexCache)
    else do
      let (regex, regexCache) ← getOrCompileRegex engine regexCache pattern
      match groupSpan engine regex idx.toNat text with
      | some (start, _) => return (some (oneBased start), regexCache)
      | none => return (some 0, regexCache)
  | _, _, _ => .ok (none, regexCache)

/-- The loop over the rows. A series of one row is broadcast. -/
def instrLoop (textSeries patternSeries : Series Str) (idxSeries : Series Int) :
    List Nat → Cache engine → Except Failure (List (Option Int))
  | [], _ => .ok []
  | i :: rest, regexCache => do
    let textOpt ← textSeries.get i
    let patternOpt ← patternSeries.get (if patternSeries.length = 1 then 0 else i)
    let idxOpt ← idxSeries.get (if idxSeries.length = 1 then 0 else i)
    let (value, regexCache) ← instrValue engine regexCache textOpt patternOpt idxOpt
    let resultVec ← instrLoop textSeries patternSeries idxSeries rest regexCache
    return value :: resultVec

/-- `regexp_instr`. -/
def regexpInstr (textSeries patternSeries : Series Str) (idxSeries : Series Int) : Except Failure (List (Option Int)) :=
  instrLoop engine textSeries patternSeries idxSeries (List.range textSeries.length) []

end Plugin

/-! ## The expression -/

/-- A literal, or a column of a frame. -/
inductive Column (α : Type) where
  | literal (value : Option α)
  | values (rows : Series α)

namespace Column

variable {α : Type}

/-- What a plugin is given: one row for a literal. -/
def series : Column α → Series α
  | .literal value => [value]
  | .values rows => rows

/-- The rows in a frame of some height. -/
def rows (height : Nat) : Column α → Series α
  | .literal value => List.replicate height value
  | .values rows => rows

/-- The column is one of a frame of this height. -/
def Fits (height : Nat) : Column α → Prop
  | .literal _ => True
  | .values rows => rows.length = height

def IsLiteral : Column α → Prop
  | .literal _ => True
  | .values _ => False

end Column

section Native

variable (engine : Engine)

/-- `str.extract`, for a row: the text that the group matched. -/
def strExtract (groupIndex : Nat) (pattern text : Str) : Except Failure (Option Str) :=
  match engine.new pattern with
  | .ok regex =>
    .ok ((groupSpan engine regex groupIndex text).bind fun span => slice span.1 span.2 text)
  | .error e => .error (.computeError ("regex error: " ++ e))

/-- `str.find` of a literal, for a row: the offset in bytes. -/
def strFind (text pattern : Str) : Option Nat :=
  (Occurrence.splitFirst pattern text).map fun parts => byteLen parts.1

/-- The native expression, for a row. -/
def nativeRow (idx : Nat) (text pattern : Option Str) : Except Failure (Option Int) := do
  let matchExpr ← match text, pattern with
    | some text, some pattern => strExtract engine idx pattern text
    | _, _ => .ok none
  match text with
  | none => return none
  | some text =>
    match matchExpr with
    | none => return some 0
    | some matched => return (strFind text matched).map fun offset : Nat => (offset : Int) + 1

/-- The native expression. -/
def nativeInstr (idx : Nat) : Column Str → Column Str → Except Failure (Column Int)
  | .literal text, .literal pattern => (nativeRow engine idx text pattern).map .literal
  | .literal text, .values patterns => (patterns.mapM fun pattern => nativeRow engine idx text pattern).map .values
  | .values texts, .literal pattern => (texts.mapM fun text => nativeRow engine idx text pattern).map .values
  | .values texts, .values patterns => ((texts.zip patterns).mapM fun row => nativeRow engine idx row.1 row.2).map .values

/-- `_convert_regexp_instr_expr`, evaluated on its arguments. -/
def convertRegexpInstrExpr (expr pattern : Column Str) : Column Int → Except Failure (Column Int)
  | .literal none => .error .typeError
  | .literal (some idx) => if idx < 0 then .error .overflowError else nativeInstr engine idx.toNat expr pattern
  | .values idx => (regexpInstr engine expr.series pattern.series idx).map .values

end Native

/-! ## What the position should be -/

section Position

variable (engine : Engine)

/-- The text before the group, and the text that it matched. -/
def groupMatch (idx : Nat) (pattern text : Str) : Option (Str × Str) :=
  match engine.new pattern with
  | .ok regex =>
    (groupSpan engine regex idx text).bind fun span =>
      (takeBytes span.1 text).bind fun before => (slice span.1 span.2 text).map fun matched => (before, matched)
  | .error _ => none

/-- The position of the group in characters, from 1 on; 0 if there is no match. -/
def position (idx : Nat) (text pattern : Option Str) : Option Int :=
  text.map fun text =>
    match pattern.bind fun pattern => groupMatch engine idx pattern text with
    | some (before, _) => (before.length : Int) + 1
    | none => 0

/-- The pattern compiles, and has that group. -/
def Accepts (idx : Nat) (pattern : Str) : Prop :=
  ∃ regex, engine.new pattern = .ok regex ∧ ∀ text groups, engine.captures regex text = some groups → idx < groups.length

/-- The text has a pattern; what comes before the match is one byte for each character, and does not have the matched text in it. -/
def Located (idx : Nat) (text pattern : Option Str) : Prop :=
  ∀ t, text = some t → ∃ p, pattern = some p ∧ ∀ before matched, groupMatch engine idx p t = some (before, matched) →
    (∀ c ∈ before, c.utf8Size = 1) ∧ before.length + 1 < 2 ^ 31 ∧
      ∀ before' after, t = before' ++ (matched ++ after) → before.length ≤ before'.length

/-- Both paths give the position in every row. -/
def PathsAgree (height idx : Nat) (text pattern : Column Str) : Prop :=
  let expected := List.zipWith (position engine idx) (text.rows height) (pattern.rows height)
  (convertRegexpInstrExpr engine text pattern (.literal (some idx))).map (Column.rows height) = .ok expected ∧
    (convertRegexpInstrExpr engine text pattern (.values (List.replicate height (some idx)))).map (Column.rows height) = .ok expected

end Position

end Regexp

end Fenic
