import Fenic.Lib.Except
import Mathlib.Data.List.DropRight

/-!
# `TextExtract.Reader` — reading a text by a template format

`ParsedTemplateFormat.parse` takes a text such as `prefix${col1}middle${col2:csv}suffix` apart. `tokenize` splits it
into texts and columns, a doubled dollar being a text of its own; `processTokens` joins the texts that stand next to each
other, so that there is one delimiter before every column and one at the end, and reads the rules of the columns.

A position in the text is the part that is left to read, together with its index, which the error messages show.

`TemplateFormatReader` keeps a position in the input string; here it is the part of the string from that position on. A
loop over the columns takes the delimiters and rules along, so that the delimiter after a column is the next of the list.

What counts as a JSON document is left to the JSON library. It may fail on a text in a way of its own, which the reader
does not catch: one that nests too deep, or has a number with too many digits.
-/

namespace Fenic

namespace TextExtract

/-- A Python string. -/
abbrev Str := List Char

/-! ## Python's strings -/

/-- `str.isspace` of one character. -/
def isSpace (c : Char) : Bool :=
  (9 ≤ c.toNat && c.toNat ≤ 13) || (28 ≤ c.toNat && c.toNat ≤ 32) || c.toNat == 0x85 || c.toNat == 0xa0 ||
    c.toNat == 0x1680 || (0x2000 ≤ c.toNat && c.toNat ≤ 0x200a) || c.toNat == 0x2028 || c.toNat == 0x2029 ||
    c.toNat == 0x202f || c.toNat == 0x205f || c.toNat == 0x3000

/-- `s.strip()`. -/
def strip (s : Str) : Str :=
  (s.dropWhile isSpace).rdropWhile isSpace

/-- `c.upper()`. Characters whose capitals are not all plain letters stay, since no name has them. -/
def upperChar (c : Char) : Str :=
  match c.toNat with
  | 0xdf => ['S', 'S']
  | 0x131 => ['I']
  | 0x17f => ['S']
  | 0xfb00 => ['F', 'F']
  | 0xfb01 => ['F', 'I']
  | 0xfb02 => ['F', 'L']
  | 0xfb03 => ['F', 'F', 'I']
  | 0xfb04 => ['F', 'F', 'L']
  | 0xfb05 => ['S', 'T']
  | 0xfb06 => ['S', 'T']
  | _ => [c.toUpper]

/-- `s.upper()`. -/
def upper (s : Str) : Str :=
  s.flatMap upperChar

/-! ## Rules -/

inductive EscapingRule where
  | none
  | csv
  | json
  | regex
  | quoted
  | qualified
  deriving DecidableEq

namespace EscapingRule

/-- `cls.__members__`, in the order of the class. -/
def members : List (String × EscapingRule) :=
  [("NONE", none), ("CSV", csv), ("JSON", json), ("REGEX", regex), ("QUOTED", quoted), ("QUALIFIED", qualified)]

/-- `EscapingRule.from_string`. -/
def fromString (s : Str) : Except String EscapingRule :=
  match members.lookup (String.ofList (upper s)) with
  | some rule => .ok rule
  | .none => .error ("Invalid escaping rule '" ++ String.ofList s ++ "'. Valid are none, csv, json, regex, quoted, qualified")

end EscapingRule

/-! ## Tokens -/

inductive Token where
  /-- Literal text. -/
  | delimiter (content : Str)
  /-- What stands between the braces. -/
  | column (content : Str)
  deriving DecidableEq

/-- The token of a text; there is none for an empty one. -/
def literalTokens (content : Str) : List Token :=
  if content = [] then [] else [.delimiter content]

theorem length_dropWhile_le (p : Char → Bool) (s : Str) : (s.dropWhile p).length ≤ s.length :=
  (List.dropWhile_suffix p).length_le

/-- `_tokenize`, from a position on. -/
def tokenize (pos : Nat) (rest : Str) : Except String (List Token) :=
  match _h : rest.dropWhile (· ≠ '$') with
  | [] => .ok (literalTokens rest)
  | [_] => .error ("Unexpected end after '$' at position " ++ toString (pos + (rest.takeWhile (· ≠ '$')).length))
  | _ :: next :: after =>
    if next = '$' then do
      let tokens ← tokenize (pos + (rest.takeWhile (· ≠ '$')).length + 2) after
      .ok (literalTokens (rest.takeWhile (· ≠ '$')) ++ .delimiter ['$'] :: tokens)
    else if next = '{' then
      match _hbrace : after.dropWhile (· ≠ '}') with
      | [] => .error ("Unmatched opening brace starting at position " ++
          toString (pos + (rest.takeWhile (· ≠ '$')).length + 1))
      | _ :: behind => do
        let tokens ← tokenize
          (pos + (rest.takeWhile (· ≠ '$')).length + 2 + (after.takeWhile (· ≠ '}')).length + 1) behind
        .ok (literalTokens (rest.takeWhile (· ≠ '$')) ++ .column (after.takeWhile (· ≠ '}')) :: tokens)
    else .error ("Expected '\x7b' or '$' after '$' at position " ++
      toString (pos + (rest.takeWhile (· ≠ '$')).length + 1) ++ ", got '" ++ String.ofList [next] ++ "'")
  termination_by rest.length
  decreasing_by
    · have hle := length_dropWhile_le (· ≠ '$') rest
      rw [_h] at hle
      simp only [List.length_cons] at hle
      omega
    · have hle := length_dropWhile_le (· ≠ '$') rest
      have hle' := length_dropWhile_le (· ≠ '}') after
      rw [_h] at hle
      rw [_hbrace] at hle'
      simp only [List.length_cons] at hle hle'
      omega

/-! ## Formats -/

structure ParsedTemplateFormat where
  delimiters : List Str
  escapingRules : List EscapingRule
  columns : List Str
  deriving DecidableEq

/-- `ValidationError`, with what `dump` shows. -/
structure ValidationError where
  message : String
  debug : ParsedTemplateFormat
  deriving DecidableEq

namespace ParsedTemplateFormat

/-- `self.delimiters[-1] += content`. -/
def appendLast (content : Str) : List Str → List Str
  | [] => []
  | [last] => [last ++ content]
  | d :: ds => d :: appendLast content ds

/-- The name and the rule of a column token. -/
def columnSpec (content : Str) : Str × Except String EscapingRule :=
  if ':' ∈ content then
    (strip (content.takeWhile (· ≠ ':')), EscapingRule.fromString (strip (content.dropWhile (· ≠ ':')).tail))
  else (strip content, .ok .none)

/-- `_process_column_token`. -/
def processColumnToken (format : ParsedTemplateFormat) (content : Str) : Except String ParsedTemplateFormat := do
  let rule ← (columnSpec content).2
  if (columnSpec content).1 = [] then .error "Column name cannot be empty"
  else .ok { format with
    columns := format.columns ++ [(columnSpec content).1], escapingRules := format.escapingRules ++ [rule] }

/-- The loop of `_process_tokens`. -/
def processTokens (format : ParsedTemplateFormat) : List Token → Except ValidationError ParsedTemplateFormat
  | [] => .ok format
  | .delimiter content :: tokens =>
    processTokens { format with delimiters := appendLast content format.delimiters } tokens
  | .column content :: tokens =>
    match processColumnToken format content with
    | .ok format => processTokens { format with delimiters := format.delimiters ++ [[]] } tokens
    | .error message => .error ⟨message, format⟩

/-- `ParsedTemplateFormat.parse`. -/
def parse (formatString : Str) : Except ValidationError ParsedTemplateFormat :=
  match tokenize 0 formatString with
  | .ok tokens => processTokens ⟨[[]], [], []⟩ tokens
  | .error message => .error ⟨message, ⟨[], [], []⟩⟩

end ParsedTemplateFormat

/-! ## Reading a text by a template format -/

/-- `json.loads`, as far as the reader uses it: whether it accepts a text, and whether it raises another error than a
    `JSONDecodeError` on it. It does not accept the empty text. -/
class JsonLibrary where
  loads : Str → Bool
  raises : Str → Bool
  loads_nil : loads [] = false
  raises_of_loads (text : Str) : loads text = true → raises text = false

/-- The quotation mark. -/
def quote : Char := Char.ofNat 34

/-- `s.find(needle)`. -/
def find (needle : Str) : Str → Option Nat
  | [] => if needle.isPrefixOf [] then some 0 else none
  | c :: rest => if needle.isPrefixOf (c :: rest) then some 0 else (find needle rest).map (· + 1)

/-- How a read ends without a row: the input does not match, the rule has no reader, or the JSON library fails. -/
inductive ReadError where
  | eof (message : String)
  | value (message : String)
  | json
  deriving DecidableEq

namespace TemplateFormatReader

/-- `_consume_delimiter`. -/
def consumeDelimiter (delimiter rest : Str) : Option Str :=
  if delimiter = [] then some rest
  else if delimiter.isPrefixOf rest then some (rest.drop delimiter.length)
  else none

/-- `_read_until_next_delimiter`: the value, and what is left. -/
def readUntilNextDelimiter (nextDelimiter rest : Str) : Str × Str :=
  if nextDelimiter = [] then (strip rest, [])
  else
    match find nextDelimiter rest with
    | none => (strip rest, [])
    | some i => (strip (rest.take i), rest.drop i)

/-- The loop of `_read_quoted_field`, behind the opening quote. -/
def readQuoted : Str → Str × Str
  | [] => ([], [])
  | [c] => if c = quote then ([], []) else ([c], [])
  | c :: c' :: rest =>
    if c = quote then
      -- a doubled quote stands for one
      if c' = quote then (quote :: (readQuoted rest).1, (readQuoted rest).2) else ([], c' :: rest)
    else (c :: (readQuoted (c' :: rest)).1, (readQuoted (c' :: rest)).2)

/-- `_read_quoted_field`. -/
def readQuotedField (rest : Str) : Option Str × Str :=
  match rest with
  | [] => (none, [])
  | c :: rest' => if c = quote then (some (readQuoted rest').1, (readQuoted rest').2) else (none, c :: rest')

/-- `_read_csv_field`. -/
def readCsvField (nextDelimiter rest : Str) : Option Str × Str :=
  if rest.head? = some quote then readQuotedField rest
  else (some (strip (readUntilNextDelimiter nextDelimiter rest).1), (readUntilNextDelimiter nextDelimiter rest).2)

variable [JsonLibrary]

/-- `_read_json_field`. -/
def readJsonField (nextDelimiter rest : Str) : Except ReadError (Option Str × Str) :=
  let text := strip (readUntilNextDelimiter nextDelimiter rest).1
  let left := (readUntilNextDelimiter nextDelimiter rest).2
  if text = [] then .ok (none, left)
  else if JsonLibrary.raises text then .error .json
  else if JsonLibrary.loads text then .ok (some text, left)
  else .ok (none, left)

/-- `_read_field`. -/
def readField (rule : EscapingRule) (nextDelimiter rest : Str) : Except ReadError (Option Str × Str) :=
  match rule with
  | .none => .ok (some (readUntilNextDelimiter nextDelimiter rest).1, (readUntilNextDelimiter nextDelimiter rest).2)
  | .csv => .ok (readCsvField nextDelimiter rest)
  | .json => readJsonField nextDelimiter rest
  | .quoted => .ok (readQuotedField rest)
  | .regex => .error (.value "Unsupported escaping rule: REGEX")
  | .qualified => .error (.value "Unsupported escaping rule: QUALIFIED")

/-- A row, in the order of its keys. -/
abbrev Row := List (Str × Str)

/-- `row[name] = value`. -/
def setItem (name value : Str) : Row → Row
  | [] => [(name, value)]
  | (n, v) :: row => if n = name then (n, value) :: row else (n, v) :: setItem name value row

/-- The loop of `_parse_row` over the columns, and the delimiter at the end. -/
def parseColumns (row : Row) : List Str → List EscapingRule → List Str → Str → Except ReadError Row
  | delimiter :: next :: delimiters, rule :: rules, name :: columns, rest =>
    match consumeDelimiter delimiter rest with
    | none => .error (.eof "Failed to match delimiter")
    | some rest => do
      let (value, rest) ← readField rule next rest
      parseColumns (value.elim row fun value => setItem name value row) (next :: delimiters) rules columns rest
  | [delimiter], [], [], rest =>
    match consumeDelimiter delimiter rest with
    | none => .error (.eof "Failed to match final delimiter")
    | some _ => .ok row
  | _, _, _, _ => .error (.value "list index out of range")

/-- `_parse_row`. -/
def parseRow (format : ParsedTemplateFormat) (inputString : Str) : Except ReadError Row :=
  parseColumns [] format.delimiters format.escapingRules format.columns inputString

/-- `TemplateFormatReader.parse`: a text that the template does not match has no row. -/
def parse (format : ParsedTemplateFormat) (inputString : Str) : Except ReadError (Option Row) :=
  match parseRow format inputString with
  | .ok row => .ok (some row)
  | .error (.eof _) => .ok none
  | .error e => .error e

end TemplateFormatReader

end TextExtract

end Fenic
