import Mathlib.Data.List.Basic

/-!
# `SemanticOperators.JsonText` — `json.loads`

What the operators read from the completion of a model. A reader is `none` where `json.loads` raises, and nothing tells
one exception from another: the operators catch all of them.
-/

namespace Fenic

namespace SemanticOperators

/-- A Python string is a list of code points, among them lone surrogates. -/
abbrev PyString := List Nat

def pyString (s : String) : PyString := s.toList.map Char.toNat

/-- The values that `json.loads` and `model_dump` return. A float stands as it is written. -/
inductive PyValue where
  | none
  | bool (b : Bool)
  | int (n : Int)
  | float (literal : PyString)
  | str (s : PyString)
  | list (items : List PyValue)
  | dict (entries : List (PyString × PyValue))

/-- `d[key] = value`. -/
def setEntry (key : PyString) (value : PyValue) : List (PyString × PyValue) → List (PyString × PyValue)
  | [] => [(key, value)]
  | (k, v) :: entries => if k = key then (k, value) :: entries else (k, v) :: setEntry key value entries

namespace JsonText

/-! ## Characters -/

def quote : Nat := '"'.toNat

def backslash : Nat := '\\'.toNat

def isBlank (c : Nat) : Bool := c = 32 ∨ c = 9 ∨ c = 10 ∨ c = 13

def isDigit (c : Nat) : Bool := '0'.toNat ≤ c ∧ c ≤ '9'.toNat

def skipBlanks (text : PyString) : PyString := text.dropWhile isBlank

/-! ## Strings -/

/-- The letters of escapes. -/
def escapes : List (Nat × Nat) :=
  [(quote, quote), (backslash, backslash), ('/'.toNat, '/'.toNat), ('b'.toNat, 8), ('f'.toNat, 12), ('n'.toNat, 10),
    ('r'.toNat, 13), ('t'.toNat, 9)]

def hexDigit (c : Nat) : Option Nat :=
  if isDigit c then some (c - '0'.toNat)
  else if 'a'.toNat ≤ c ∧ c ≤ 'f'.toNat then some (c - 'a'.toNat + 10)
  else if 'A'.toNat ≤ c ∧ c ≤ 'F'.toNat then some (c - 'A'.toNat + 10)
  else none

def readHex : PyString → Option (Nat × PyString)
  | a :: b :: c :: d :: rest => do
    let a ← hexDigit a
    let b ← hexDigit b
    let c ← hexDigit c
    let d ← hexDigit d
    pure (((a * 16 + b) * 16 + c) * 16 + d, rest)
  | _ => none

/-- The code unit after `\u`. A high surrogate takes in the low one that is escaped after it. -/
def readUnit (text : PyString) : Option (Nat × PyString) := do
  let (unit, rest) ← readHex text
  match rest with
  | b :: u :: rest' =>
    if 0xd800 ≤ unit ∧ unit ≤ 0xdbff ∧ b = backslash ∧ u = 'u'.toNat then do
      let (low, rest'') ← readHex rest'
      if 0xdc00 ≤ low ∧ low ≤ 0xdfff then pure (0x10000 + (unit - 0xd800) * 0x400 + (low - 0xdc00), rest'')
      else pure (unit, rest)
    else pure (unit, rest)
  | _ => pure (unit, rest)

def readEscape : PyString → Option (Nat × PyString)
  | [] => none
  | c :: rest => if c = 'u'.toNat then readUnit rest else (escapes.lookup c).map fun d => (d, rest)

/-- The string up to its closing quote. The number bounds the characters. -/
def readChars : Nat → PyString → Option (PyString × PyString)
  | 0, _ => none
  | _, [] => none
  | n + 1, c :: rest =>
    if c = quote then some ([], rest)
    else if c = backslash then do
      let (d, rest) ← readEscape rest
      let (s, rest) ← readChars n rest
      pure (d :: s, rest)
    else if c < 32 then none
    else do
      let (s, rest) ← readChars n rest
      pure (c :: s, rest)

def readString (text : PyString) : Option (PyString × PyString) := readChars text.length text

/-! ## Numbers and constants -/

/-- A mark and the digits after it, if there are both. -/
def readPart (isMark : Nat → Bool) (allowSign : Bool) (text : PyString) : PyString × PyString :=
  match text with
  | [] => ([], [])
  | c :: rest =>
    let sign := if allowSign then rest.take 1 |>.filter (fun s => s = '+'.toNat ∨ s = '-'.toNat) else []
    let digits := (rest.drop sign.length).takeWhile isDigit
    if isMark c ∧ digits ≠ [] then (c :: sign ++ digits, rest.drop (sign.length + digits.length)) else ([], text)

/-- The digits before the point: a zero stands alone. -/
def readDigits (text : PyString) : PyString × PyString :=
  match text with
  | [] => ([], [])
  | c :: rest => if c = '0'.toNat then ([c], rest) else text.span isDigit

def digitsValue (digits : PyString) : Nat := digits.foldl (fun n c => n * 10 + (c - '0'.toNat)) 0

/-- `sys.get_int_max_str_digits()`. -/
def maxStrDigits : Nat := 4300

def readNumber (text : PyString) : Option (PyValue × PyString) :=
  let negative := text.head? = some '-'.toNat
  let sign := if negative then ['-'.toNat] else []
  let (digits, rest) := readDigits (text.drop sign.length)
  if digits = [] then none
  else
    let (fraction, rest) := readPart (· = '.'.toNat) false rest
    let (exponent, rest) := readPart (fun c => c = 'e'.toNat ∨ c = 'E'.toNat) true rest
    if fraction = [] ∧ exponent = [] then
      if maxStrDigits < digits.length then none
      else some (.int (if negative then -(digitsValue digits : Int) else digitsValue digits), rest)
    else some (.float (sign ++ digits ++ fraction ++ exponent), rest)

def constants : List (PyString × PyValue) :=
  [(pyString "null", .none), (pyString "true", .bool true), (pyString "false", .bool false),
    (pyString "NaN", .float (pyString "NaN")), (pyString "Infinity", .float (pyString "Infinity")),
    (pyString "-Infinity", .float (pyString "-Infinity"))]

def readConstant (text : PyString) : Option (PyValue × PyString) :=
  constants.findSome? fun (word, value) => if word.isPrefixOf text then some (value, text.drop word.length) else none

/-! ## Values -/

mutual

/-- A value. The first number bounds the steps, the second one the depth, which `RecursionError` cuts. -/
def readValue : Nat → Nat → PyString → Option (PyValue × PyString)
  | 0, _, _ => none
  | _, _, [] => none
  | n + 1, depth, c :: rest =>
    if c = quote then (readString rest).map fun (s, rest) => (.str s, rest)
    else if c = '['.toNat then
      match depth, skipBlanks rest with
      | 0, _ => none
      | depth + 1, next =>
        if next.head? = some ']'.toNat then some (.list [], next.tail)
        else (readItems n depth next).map fun (items, rest) => (.list items, rest)
    else if c = '\x7b'.toNat then
      match depth, skipBlanks rest with
      | 0, _ => none
      | depth + 1, next =>
        if next.head? = some '\x7d'.toNat then some (.dict [], next.tail)
        else (readEntries n depth [] next).map fun (entries, rest) => (.dict entries, rest)
    else (readConstant (c :: rest)).or (readNumber (c :: rest))

/-- The items up to the closing bracket. -/
def readItems : Nat → Nat → PyString → Option (List PyValue × PyString)
  | 0, _, _ => none
  | n + 1, depth, text => do
    let (item, rest) ← readValue n depth text
    match skipBlanks rest with
    | [] => none
    | c :: rest =>
      if c = ']'.toNat then pure ([item], rest)
      else if c = ','.toNat then do
        let (items, rest) ← readItems n depth (skipBlanks rest)
        pure (item :: items, rest)
      else none

/-- The entries up to the closing brace, after those that are read. -/
def readEntries : Nat → Nat → List (PyString × PyValue) → PyString → Option (List (PyString × PyValue) × PyString)
  | 0, _, _, _ => none
  | _, _, _, [] => none
  | n + 1, depth, entries, c :: rest => do
    let (key, rest) ← if c = quote then readString rest else none
    let rest ← match skipBlanks rest with
      | [] => none
      | c :: rest => if c = ':'.toNat then some (skipBlanks rest) else none
    let (value, rest) ← readValue n depth rest
    match skipBlanks rest with
    | [] => none
    | c :: rest =>
      if c = '\x7d'.toNat then pure (setEntry key value entries, rest)
      else if c = ','.toNat then readEntries n depth (setEntry key value entries) (skipBlanks rest)
      else none

end

/-- The byte order mark, with which no text may start. -/
def byteOrderMark : Nat := 0xfeff

/-- `json.loads`, where the interpreter recurses `depth` times. -/
def loads (depth : Nat) (text : PyString) : Option PyValue :=
  if text.head? = some byteOrderMark then none
  else do
    let (value, rest) ← readValue (2 * text.length + 1) depth (skipBlanks text)
    if skipBlanks rest = [] then pure value else none

end JsonText

end SemanticOperators

end Fenic
