import Fenic.Lib.Rows
import Mathlib.Data.List.Basic

/-!
# `Lib.Jq` — filters over JSON values

A part of the query language jq: values, and the filters that take a value to its outputs. A filter that meets an error gives
`none`; what it put out before is not kept. The numbers are a parameter.

A string literal is that of JSON, and may embed programs: it ends at the first quote that is not escaped, `\(` begins a program
whose output is put in its place, and any other character after a backslash has to be one of the escapes. What a literal with
programs in it comes to is left open here.

## Contents
- **Values.** Equality goes by the fields of objects and not by their order; `recurse` lists a value and all values in it.
- **Filters.** Combinators under the names of the language, with what each gives for filters of one output.
-/

namespace Fenic

namespace Jq

/-- The fields of an object have different names. -/
inductive Value (N : Type) where
  | null
  | bool (b : Bool)
  | number (n : N)
  | string (s : String)
  | array (items : List (Value N))
  | object (fields : List (String × Value N))

namespace Value

variable {N : Type}

/-! ## Values -/

/-- All but `false` and `null`. -/
def isTruthy : Value N → Bool
  | .null => false
  | .bool b => b
  | _ => true

/-- `type`. -/
def typeName : Value N → String
  | .null => "null"
  | .bool _ => "boolean"
  | .number _ => "number"
  | .string _ => "string"
  | .array _ => "array"
  | .object _ => "object"

section Equality

variable [DecidableEq N]

mutual

/-- `==`. -/
def eq : Value N → Value N → Bool
  | .null, .null => true
  | .bool b, .bool b' => b == b'
  | .number n, .number n' => n == n'
  | .string s, .string s' => s == s'
  | .array items, .array items' => eqItems items items'
  | .object fields, .object fields' => fields.length == fields'.length && eqFields fields fields'
  | _, _ => false

def eqItems : List (Value N) → List (Value N) → Bool
  | [], [] => true
  | v :: items, w :: items' => eq v w && eqItems items items'
  | _, _ => false

/-- Each of the fields is among the others, with an equal value. -/
def eqFields : List (String × Value N) → List (String × Value N) → Bool
  | [], _ => true
  | (name, v) :: fields, fields' =>
    (match fields'.lookup name with
      | some w => eq v w
      | none => false) && eqFields fields fields'

end

end Equality

mutual

/-- `..`: the value, and then all that is in it. -/
def recurse : Value N → List (Value N)
  | .array items => .array items :: recurseItems items
  | .object fields => .object fields :: recurseFields fields
  | v => [v]

def recurseItems : List (Value N) → List (Value N)
  | [] => []
  | v :: items => recurse v ++ recurseItems items

def recurseFields : List (String × Value N) → List (Value N)
  | [] => []
  | (_, v) :: fields => recurse v ++ recurseFields fields

end

theorem recurseItems_eq (items : List (Value N)) : recurseItems items = items.flatMap recurse := by
  induction items with
  | nil => rfl
  | cons v items ih =>
    show recurse v ++ recurseItems items = _
    rw [ih, List.flatMap_cons]

theorem recurseFields_eq (fields : List (String × Value N)) :
    recurseFields fields = fields.flatMap fun field => recurse field.2 := by
  induction fields with
  | nil => rfl
  | cons field fields ih =>
    show recurse field.2 ++ recurseFields fields = _
    rw [ih, List.flatMap_cons]

end Value

/-! ## Filters -/

/-- The outputs for a value, or an error. -/
abbrev Filter (N : Type) := Value N → Option (List (Value N))

variable {N : Type}

def literal (w : Value N) : Filter N := fun _ => some [w]

def identity : Filter N := fun v => some [v]

/-- `..`. -/
def recurse : Filter N := fun v => some v.recurse

/-- `.name`. -/
def field (name : String) : Filter N
  | .null => some [.null]
  | .object fields => some [(fields.lookup name).getD .null]
  | _ => none

/-- `.name?`. -/
def optionalField (name : String) : Filter N := fun v => some ((field name v).getD [])

/-- `f as $x | g`: the outputs of `g` for each output of `f`. -/
def each (f : Filter N) (g : Value N → Filter N) : Filter N := fun v =>
  (f v).bind fun xs => (xs.mapM fun x => g x v).map List.flatten

/-- `empty`. -/
def empty : Filter N := fun _ => some []

/-- `f | g`. -/
def pipe (f g : Filter N) : Filter N := each f fun x _ => g x

/-- `[f]`. -/
def collect (f : Filter N) : Filter N := fun v => (f v).map fun xs => [.array xs]

/-- `f == g`. -/
def equal [DecidableEq N] (f g : Filter N) : Filter N :=
  each g fun y => each f fun x => literal (.bool (x.eq y))

/-- `f and g`. The second filter is for the true outputs of the first one. -/
def conj (f g : Filter N) : Filter N :=
  each f fun x => if x.isTruthy then each g fun y => literal (.bool y.isTruthy) else literal (.bool false)

/-- `f or g`. The second filter is for the other outputs of the first one. -/
def disj (f g : Filter N) : Filter N :=
  each f fun x => if x.isTruthy then literal (.bool true) else each g fun y => literal (.bool y.isTruthy)

/-- `select(f)`. -/
def select (f : Filter N) : Filter N := each f fun x => if x.isTruthy then identity else empty

/-- An object with a field for each filter. -/
def construct : List (String × Filter N) → Filter N
  | [] => literal (.object [])
  | (name, f) :: fields => each f fun x => each (construct fields) fun rest =>
    match rest with
    | .object rest => literal (.object ((name, x) :: rest))
    | _ => empty

/-! ## Filters of one output -/

section

variable {f : Filter N} {g : Value N → Filter N} {v x : Value N}

/-- **After a filter with one output, that output is the bound one.** -/
theorem each_of_single (h : f v = some [x]) : each f g v = g x v := by
  unfold each
  rw [h, Option.bind_some]
  cases hg : g x v with
  | none => simp [hg]
  | some ys => simp [hg]

theorem each_of_empty (h : f v = some []) : each f g v = some [] := by
  unfold each
  rw [h]
  rfl

theorem pipe_of_single {g : Filter N} (h : f v = some [x]) : pipe f g v = g x := each_of_single h

theorem pipe_of_empty {g : Filter N} (h : f v = some []) : pipe f g v = some [] := each_of_empty h

/-- A filter whose parts have no errors puts their outputs one after the other. -/
theorem each_of_some {xs : List (Value N)} {outputs : Value N → List (Value N)} (h : f v = some xs)
    (hg : ∀ x ∈ xs, g x v = some (outputs x)) : each f g v = some (xs.flatMap outputs) := by
  unfold each
  rw [h, Option.bind_some]
  have hmap : xs.mapM (fun x => g x v) = some (xs.map outputs) := by
    rw [Rows.mapM_eq_some, List.map_map]
    exact List.map_congr_left hg
  rw [hmap, Option.map_some, List.flatMap_def]

end

/-! ## String literals of a jq program -/

/-- A character, or a code unit that is only half of one. -/
inductive CodeUnit where
  | char (c : Char)
  | surrogate (unit : Nat)
  deriving DecidableEq

/-- What is read after an opening quote. -/
inductive StringLiteral where
  /-- The literal, and what comes after it. -/
  | text (units : List CodeUnit) (rest : List Char)
  /-- A program begins in the literal. -/
  | embeds
  | invalid
  deriving DecidableEq

def StringLiteral.cons (unit : CodeUnit) : StringLiteral → StringLiteral
  | .text units rest => .text (unit :: units) rest
  | .embeds => .embeds
  | .invalid => .invalid

/-- The escapes of one character. -/
def escapeOf : Char → Option Char
  | '"' => some '"'
  | '\\' => some '\\'
  | '/' => some '/'
  | 'b' => some (Char.ofNat 8)
  | 'f' => some (Char.ofNat 12)
  | 'n' => some '\n'
  | 'r' => some '\r'
  | 't' => some '\t'
  | _ => none

def hexDigit (c : Char) : Option Nat :=
  if '0' ≤ c ∧ c ≤ '9' then some (c.toNat - '0'.toNat)
  else if 'a' ≤ c ∧ c ≤ 'f' then some (c.toNat - 'a'.toNat + 10)
  else if 'A' ≤ c ∧ c ≤ 'F' then some (c.toNat - 'A'.toNat + 10)
  else none

/-- The code unit of four hexadecimal digits. -/
def hexUnit (a b c d : Char) : Option CodeUnit :=
  match hexDigit a, hexDigit b, hexDigit c, hexDigit d with
  | some a, some b, some c, some d =>
    let unit := ((a * 16 + b) * 16 + c) * 16 + d
    some (if 0xD800 ≤ unit ∧ unit < 0xE000 then .surrogate unit else .char (Char.ofNat unit))
  | _, _, _, _ => none

def readString : List Char → StringLiteral
  | [] => .invalid
  | '"' :: rest => .text [] rest
  | '\\' :: rest =>
    match rest with
    | [] => .invalid
    | '(' :: _ => .embeds
    | 'u' :: a :: b :: c :: d :: rest =>
      match hexUnit a b c d with
      | some unit => (readString rest).cons unit
      | none => .invalid
    | c :: rest =>
      match escapeOf c with
      | some d => (readString rest).cons (.char d)
      | none => .invalid
  | c :: rest => (readString rest).cons (.char c)

/-- What stands for half a character. -/
def replacementChar : Char := Char.ofNat 0xFFFD

/-- The characters of the code units, after a first half. Two halves are one character; a half by itself is replaced. -/
def decodeUnits : Option Nat → List CodeUnit → List Char
  | none, [] => []
  | some _, [] => [replacementChar]
  | none, .char c :: units => c :: decodeUnits none units
  | some _, .char c :: units => replacementChar :: c :: decodeUnits none units
  | none, .surrogate unit :: units =>
    if unit < 0xDC00 then decodeUnits (some unit) units else replacementChar :: decodeUnits none units
  | some high, .surrogate unit :: units =>
    if unit < 0xDC00 then replacementChar :: decodeUnits (some unit) units
    else Char.ofNat (0x10000 + (high - 0xD800) * 0x400 + (unit - 0xDC00)) :: decodeUnits none units

variable {units : List CodeUnit} {rest : List Char}

theorem StringLiteral.cons_eq_text {unit : CodeUnit} {literal : StringLiteral} :
    literal.cons unit = .text units rest ↔ ∃ units', literal = .text units' rest ∧ units = unit :: units' := by
  cases literal with
  | text units' rest' =>
    constructor
    · intro h
      cases h
      exact ⟨units', rfl, rfl⟩
    · rintro ⟨_, h, rfl⟩
      cases h
      rfl
  | embeds | invalid => exact ⟨nofun, fun ⟨_, h, _⟩ => nomatch h⟩

/-- An escape is no shorter than what it stands for. -/
theorem length_decodeUnits_le (high : Option Nat) (units : List CodeUnit) :
    (decodeUnits high units).length ≤ high.toList.length + units.length := by
  induction units generalizing high with
  | nil => cases high <;> exact Nat.le_refl _
  | cons unit units ih =>
    have hnone := ih none
    cases unit with
    | char c =>
      cases high with
      | none =>
        show (decodeUnits none units).length + 1 ≤ 0 + (units.length + 1)
        simp only [Option.toList_none, List.length_nil] at hnone
        omega
      | some high =>
        show (decodeUnits none units).length + 1 + 1 ≤ 1 + (units.length + 1)
        simp only [Option.toList_none, List.length_nil] at hnone
        omega
    | surrogate unit =>
      have hsome := ih (some unit)
      simp only [Option.toList_none, Option.toList_some, List.length_nil, List.length_singleton] at hnone hsome
      cases high with
      | none =>
        unfold decodeUnits
        split
        · simp only [Option.toList_none, List.length_nil, List.length_cons]
          omega
        · simp only [Option.toList_none, List.length_nil, List.length_cons]
          omega
      | some high =>
        unfold decodeUnits
        split
        · simp only [Option.toList_some, List.length_nil, List.length_cons]
          omega
        · simp only [Option.toList_some, List.length_nil, List.length_cons]
          omega

/-- Characters that are not escaped stand for themselves. -/
theorem decodeUnits_map_char (s : List Char) : decodeUnits none (s.map .char) = s := by
  induction s with
  | nil => rfl
  | cons c s ih =>
    show c :: decodeUnits none (s.map .char) = c :: s
    rw [ih]

/-! ## What a literal takes -/

theorem readString_cons {c : Char} (hquote : c ≠ '"') (hbackslash : c ≠ '\\') (rest : List Char) :
    readString (c :: rest) = (readString rest).cons (.char c) := by
  rw [readString]
  · exact hquote
  · exact hbackslash

/-- What comes after a backslash: a program, an escape, or an error. -/
theorem readString_backslash {after : List Char}
    (h : readString ('\\' :: rest) = .text units after) :
    (∃ a b c d rest' unit, rest = 'u' :: a :: b :: c :: d :: rest' ∧ hexUnit a b c d = some unit ∧
      (readString rest').cons unit = .text units after) ∨
    ∃ c d rest', rest = c :: rest' ∧ escapeOf c = some d ∧ (readString rest').cons (.char d) = .text units after := by
  unfold readString at h
  split at h
  next => cases h
  next heq => exact absurd (List.cons.inj heq).1 (by decide)
  next rest' heq =>
      obtain rfl := (List.cons.inj heq).2
      split at h
      next => cases h
      next => cases h
      next a b c d rest' =>
          split at h
          next unit hunit => exact .inl ⟨a, b, c, d, rest', unit, rfl, hunit, h⟩
          next => cases h
      next c rest' _ _ =>
          split at h
          next d hd => exact .inr ⟨c, d, rest', rfl, hd, h⟩
          next => cases h
  next _ hbackslash heq => exact absurd (List.cons.inj heq).1.symm hbackslash

/-- A literal takes its closing quote. -/
theorem length_rest_lt {text : List Char} (h : readString text = .text units rest) :
    rest.length < text.length := by
  induction hlength : text.length using Nat.strongRecOn generalizing text units with
  | ind length ih =>
      subst hlength
      cases text with
      | nil => cases h
      | cons c text =>
          by_cases hquote : c = '"'
          · subst hquote
            cases h
            exact Nat.lt_succ_self _
          · by_cases hbackslash : c = '\\'
            · subst hbackslash
              rcases readString_backslash h with ⟨a, b, c, d, text', unit, rfl, -, h⟩ | ⟨c, d, text', rfl, -, h⟩
              · obtain ⟨units', h, -⟩ := StringLiteral.cons_eq_text.mp h
                have hlt := ih _ (by simp only [List.length_cons]; omega) h rfl
                simp only [List.length_cons]
                omega
              · obtain ⟨units', h, -⟩ := StringLiteral.cons_eq_text.mp h
                have hlt := ih _ (by simp only [List.length_cons]; omega) h rfl
                simp only [List.length_cons]
                omega
            · rw [readString_cons hquote hbackslash] at h
              obtain ⟨units', h, -⟩ := StringLiteral.cons_eq_text.mp h
              exact Nat.lt_trans (ih _ (Nat.lt_succ_self _) h rfl) (Nat.lt_succ_self _)

end Jq

end Fenic
