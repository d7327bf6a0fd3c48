import Fenic.Lib.Utf8
import Mathlib.Data.Rat.Defs

/-!
# `Transcript.Types` — entries, errors and the texts that are parsed

A `str` is its list of characters, and an offset counts bytes. An access past the end of the bytes panics, and so
does a slice of a `str` inside a character; `from_utf8` gives an error there. Loops take fuel and fail when it is
used up, which is shown never to happen.

Floating-point numbers are a parameter: a type with the operations that the parsers use.

Numbers are written in decimal digits, padded with zeros to a width (`padded`). `ReadsDecimals` says what is known of
`parse::<f64>`: a decimal number is read as its value, rounded.
-/

namespace Fenic

namespace Transcript

open Utf8

abbrev Str := List Char

/-- `f64`, as far as the parsers use it. -/
structure F64 (F : Type) where
  parse : Str → Option F
  ofNat : Nat → F
  add : F → F → F
  sub : F → F → F
  mul : F → F → F
  div : F → F → F

inductive ParseError where
  | invalidTranscriptFormat (message : String)
  | unknownTranscriptFormat (message : String)
  | utf8Error
  deriving DecidableEq

/-- How a parse ends without entries: with an error it returns, with a panic, or never. -/
inductive Failure where
  | error (error : ParseError)
  | panic
  | diverge
  deriving DecidableEq

structure UnifiedTranscriptEntry (F : Type) where
  index : Option Int
  speaker : Option Str
  startTime : F
  endTime : Option F
  duration : Option F
  content : Str
  format : String
  deriving DecidableEq

/-- The parse returns entries or an error. -/
def Returns {α : Type} (result : Except Failure α) : Prop :=
  result ≠ .error .panic ∧ result ≠ .error .diverge

def invalidFormat {α : Type} (message : String) (text : Str) : Except Failure α :=
  .error (.error (.invalidTranscriptFormat (message ++ String.ofList text)))

variable {α : Type}

theorem returns_ok (value : α) : Returns (.ok value : Except Failure α) :=
  ⟨nofun, nofun⟩

theorem returns_error (error : ParseError) : Returns (.error (.error error) : Except Failure α) :=
  ⟨nofun, nofun⟩

variable {β : Type}

/-- Whether a failed parse returns does not depend on what it would have returned. -/
theorem returns_failed {failure : Failure} (h : Returns (.error failure : Except Failure α)) :
    Returns (.error failure : Except Failure β) :=
  ⟨fun hpanic => h.1 (by cases hpanic; rfl), fun hdiverge => h.2 (by cases hdiverge; rfl)⟩

variable {x : Except Failure α}

theorem returns_map (f : α → β) : Returns (x.map f) ↔ Returns x := by
  cases x with
  | error failure => exact ⟨returns_failed, returns_failed⟩
  | ok a => exact iff_of_true (returns_ok (f a)) (returns_ok a)

/-- The parse returns, and if with a value then with one that has the property. -/
def ReturnsWith {α : Type} (P : α → Prop) (result : Except Failure α) : Prop :=
  Returns result ∧ ∀ value, result = .ok value → P value

variable {P : α → Prop}

theorem returnsWith_ok {value : α} (h : P value) :
    ReturnsWith P (.ok value : Except Failure α) := by
  refine ⟨returns_ok value, ?_⟩
  intro value' heq
  cases heq
  exact h

theorem returnsWith_error (error : ParseError) :
    ReturnsWith P (.error (.error error) : Except Failure α) :=
  ⟨returns_error error, nofun⟩

theorem returnsWith_bind {Q : β → Prop} {f : α → Except Failure β}
    (hx : ReturnsWith P x) (hf : ∀ a, P a → ReturnsWith Q (f a)) : ReturnsWith Q (x >>= f) := by
  cases x with
  | ok a => exact hf a (hx.2 a rfl)
  | error failure =>
    cases failure with
    | error error => exact returnsWith_error error
    | panic => exact absurd rfl hx.1.1
    | diverge => exact absurd rfl hx.1.2

theorem returnsWith_mono {Q : α → Prop} (hx : ReturnsWith P x)
    (h : ∀ a, P a → Q a) : ReturnsWith Q x :=
  ⟨hx.1, fun a ha => h a (hx.2 a ha)⟩

/-! ## Strings -/

/-- `char::is_whitespace`. -/
def isWhitespace (c : Char) : Bool :=
  (9 ≤ c.toNat && c.toNat ≤ 13) || c.toNat = 0x20 || c.toNat = 0x85 || c.toNat = 0xA0 || c.toNat = 0x1680 ||
    (0x2000 ≤ c.toNat && c.toNat ≤ 0x200A) || c.toNat = 0x2028 || c.toNat = 0x2029 || c.toNat = 0x202F ||
    c.toNat = 0x205F || c.toNat = 0x3000

def trimStart (text : Str) : Str :=
  text.dropWhile isWhitespace

def trimEnd (text : Str) : Str :=
  (text.reverse.dropWhile isWhitespace).reverse

def trim (text : Str) : Str :=
  trimEnd (trimStart text)

/-- `contains("-->")`. -/
def containsArrow : Str → Bool
  | [] => false
  | '-' :: '-' :: '>' :: _ => true
  | _ :: text => containsArrow text

/-- `split("-->")`. -/
def splitArrow : Str → List Str
  | [] => [[]]
  | '-' :: '-' :: '>' :: text => [] :: splitArrow text
  | c :: text => (splitArrow text).modifyHead (c :: ·)

/-- The value of a sequence of decimal digits. -/
def digitsValue (digits : Str) : Nat :=
  digits.foldl (fun n c => 10 * n + (c.toNat - '0'.toNat)) 0

/-- `parse::<usize>()`. -/
def parseUsize (text : Str) : Option Nat :=
  let digits := if text.head? = some '+' then text.tail else text
  if digits ≠ [] ∧ digits.all Char.isDigit ∧ digitsValue digits < 2 ^ 64 then some (digitsValue digits) else none

/-- `as i64`. -/
def usizeAsI64 (n : Nat) : Int :=
  if n < 2 ^ 63 then n else n - 2 ^ 64

/-- The carriage return before a newline belongs to it. -/
def stripCarriageReturn (line : Str) : Str :=
  if line.getLast? = some '\r' then line.dropLast else line

def linesOfParts : List Str → List Str
  | [] => []
  | [last] => if last = [] then [] else [last]
  | part :: parts => stripCarriageReturn part :: linesOfParts parts

/-- `lines()`. -/
def strLines (text : Str) : List Str :=
  linesOfParts (text.splitOn '\n')

/-- `rfind` of a character, as a byte offset. -/
def rfind (c : Char) : Str → Option Nat
  | [] => none
  | first :: text =>
    match rfind c text with
    | some idx => some (first.utf8Size + idx)
    | none => if first = c then some 0 else none

/-! ## Bytes -/

/-- `&bytes[pos..]`. -/
def bytesFrom (input : Str) (pos : Nat) : Except Failure Str :=
  if byteLen input < pos then .error .panic
  else match dropBytes pos input with
    | some rest => .ok rest
    | none => .error (.error .utf8Error)

/-- `std::str::from_utf8(&bytes[start..stop])`. -/
def fromUtf8 (input : Str) (start stop : Nat) : Except Failure Str :=
  if stop < start ∨ byteLen input < stop then .error .panic
  else match slice start stop input with
    | some text => .ok text
    | none => .error (.error .utf8Error)

/-- `&text[start..stop]`. -/
def strSlice (text : Str) (start stop : Nat) : Except Failure Str :=
  if stop < start ∨ byteLen text < stop then .error .panic
  else match slice start stop text with
    | some part => .ok part
    | none => .error .panic

/-- The end of the line at an offset, by `memchr`. -/
def lineEnd (input : Str) (pos : Nat) : Except Failure Nat := do
  let rest ← bytesFrom input pos
  return pos + byteLen (rest.takeWhile (· ≠ '\n'))

/-- The bytes that the parsers skip before a block. -/
def isSkipped (c : Char) : Bool :=
  c = '\n' || c = '\r' || c = ' '

/-- The loop that skips leading whitespace. Each of the characters is one byte. -/
def skipBytes (input : Str) (pos : Nat) : Nat :=
  match dropBytes pos input with
  | some rest => pos + (rest.takeWhile isSkipped).length
  | none => pos

/-! ## Decimal numbers as they are written and read -/

/-- The decimal digits of a number. -/
def decimal (n : Nat) : Str :=
  Nat.toDigits 10 n

/-- The decimal digits of a number, after as many zeros as the width needs. -/
def padded (width n : Nat) : Str :=
  (decimal n).leftpad width '0'

def AllDigits (text : Str) : Prop :=
  ∀ c ∈ text, c.isDigit = true

theorem decimal_ne_nil (n : Nat) : decimal n ≠ [] :=
  Nat.toDigits_ne_nil

theorem allDigits_decimal (n : Nat) : AllDigits (decimal n) :=
  fun _ hc => Nat.isDigit_of_mem_toDigits (by decide) (by decide) hc

theorem digitsValue_eq (digits : Str) : digitsValue digits = Nat.ofDigitChars 10 digits 0 :=
  Nat.ofDigitChars_eq_foldl.symm

theorem digitsValue_decimal (n : Nat) : digitsValue (decimal n) = n := by
  exact Nat.ofDigitChars_ten_toDigits

theorem padded_ne_nil (width n : Nat) : padded width n ≠ [] :=
  List.append_ne_nil_of_right_ne_nil _ (decimal_ne_nil n)

theorem allDigits_padded (width n : Nat) : AllDigits (padded width n) := by
  intro c hc
  rcases List.mem_append.mp hc with hzero | hdigit
  · rw [List.eq_of_mem_replicate hzero]
    rfl
  · exact allDigits_decimal n c hdigit

theorem digitsValue_padded (width n : Nat) : digitsValue (padded width n) = n := by
  have hvalue := digitsValue_decimal n
  rw [digitsValue_eq] at hvalue
  unfold padded List.leftpad
  rw [digitsValue_eq, Nat.ofDigitChars_append, Nat.ofDigitChars_replicate_zero, Nat.mul_zero, hvalue]

theorem length_padded {width n : Nat} (hwidth : 0 < width) (h : n < 10 ^ width) : (padded width n).length = width := by
  have hlength : (decimal n).length ≤ width := (Nat.length_toDigits_le_iff (by decide) hwidth).mpr h
  unfold padded
  rw [List.length_leftpad]
  exact Nat.max_eq_left hlength

/-- A digit is one byte, and none of the characters that times are made of. -/
theorem isDigit_props {c : Char} (h : c.isDigit = true) :
    c.utf8Size = 1 ∧ isWhitespace c = false ∧ c ≠ ':' ∧ c ≠ '.' ∧ c ≠ ',' ∧ c ≠ '-' ∧ c ≠ '+' ∧ c ≠ '\n' ∧ c ≠ '\r' := by
  have hrange : 48 ≤ c.toNat ∧ c.toNat ≤ 57 := by
    unfold Char.isDigit at h
    rw [Bool.and_eq_true, decide_eq_true_eq, decide_eq_true_eq] at h
    exact ⟨h.1, h.2⟩
  have hne : ∀ d : Char, d.toNat < 48 ∨ 57 < d.toNat → c ≠ d := by
    rintro d hd rfl
    omega
  refine ⟨?_, ?_, hne _ (by decide), hne _ (by decide), hne _ (by decide), hne _ (by decide), hne _ (by decide),
    hne _ (by decide), hne _ (by decide)⟩
  · exact Char.utf8Size_eq_one_iff.mpr (by rw [UInt32.le_iff_toNat_le]; exact Nat.le_trans hrange.2 (by decide))
  · unfold isWhitespace
    simp only [Bool.or_eq_false_iff, Bool.and_eq_false_iff, decide_eq_false_iff_not]
    omega

variable {text : Str}

theorem byteLen_digits (h : AllDigits text) : Utf8.byteLen text = text.length := by
  induction text with
  | nil => rfl
  | cons c text ih =>
    have hc := (isDigit_props (h c List.mem_cons_self)).1
    rw [Utf8.byteLen_cons, hc, ih fun d hd => h d (List.mem_cons_of_mem _ hd), List.length_cons, Nat.add_comm]

/-! ## Reading -/

/-- Decimal numbers are read as their values, rounded. -/
structure ReadsDecimals {F : Type} (f64 : F64 F) (round : Rat → F) : Prop where
  digits : ∀ {digits : Str}, digits ≠ [] → AllDigits digits → f64.parse digits = some (round (digitsValue digits))
  fraction : ∀ {digits fraction : Str}, digits ≠ [] → AllDigits digits → fraction ≠ [] → AllDigits fraction →
    f64.parse (digits ++ '.' :: fraction) =
      some (round (digitsValue digits + digitsValue fraction / 10 ^ fraction.length))

/-- Exact arithmetic, which reads decimal numbers only. -/
def exactF64 : F64 Rat where
  parse text :=
    match text.splitOn '.' with
    | [digits] => if digits ≠ [] ∧ digits.all Char.isDigit then some (digitsValue digits) else none
    | [digits, fraction] =>
      if (digits ≠ [] ∧ digits.all Char.isDigit) ∧ fraction ≠ [] ∧ fraction.all Char.isDigit then
        some (digitsValue digits + digitsValue fraction / 10 ^ fraction.length)
      else none
    | _ => none
  ofNat n := n
  add := (· + ·)
  sub := (· - ·)
  mul := (· * ·)
  div := (· / ·)

theorem splitOn_of_not_mem {sep : Char} (h : sep ∉ text) : text.splitOn sep = [text] :=
  List.splitOn_eq_singleton h

theorem AllDigits.not_mem (h : AllDigits text) {c : Char} (hc : c.isDigit = false) : c ∉ text := by
  intro hmem
  rw [h c hmem] at hc
  cases hc

theorem AllDigits.all (h : AllDigits text) : text.all Char.isDigit = true :=
  List.all_eq_true.mpr h

theorem exactF64_readsDecimals : ReadsDecimals exactF64 id where
  digits := by
    intro digits hne hdigits
    have hsplit : digits.splitOn '.' = [digits] := splitOn_of_not_mem (hdigits.not_mem rfl)
    unfold exactF64
    dsimp only
    rw [hsplit]
    exact if_pos ⟨hne, hdigits.all⟩
  fraction := by
    intro digits fraction hne hdigits hne' hfraction
    have hsplit : (digits ++ '.' :: fraction).splitOn '.' = [digits, fraction] := by
      rw [List.splitOn_append_cons_self_of_not_mem (hdigits.not_mem rfl),
        splitOn_of_not_mem (hfraction.not_mem rfl)]
    unfold exactF64
    dsimp only
    rw [hsplit]
    exact if_pos ⟨⟨hne, hdigits.all⟩, hne', hfraction.all⟩

end Transcript

end Fenic
