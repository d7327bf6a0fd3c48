import Fenic.Lib.Jq

/-!
# `Lib.JsonDumps` — strings as `json.dumps` writes them

All but the printable characters of ASCII is escaped. `readString_dumped`: what is written is read back as it was, by the
rules for string literals of JSON and jq.
-/

namespace Fenic
namespace JsonDumps

/-- `'\\u{0:04x}'.format(n)`. -/
def unicodeEscape (n : Nat) : List Char :=
  ['\\', 'u', Nat.digitChar (n / 4096 % 16), Nat.digitChar (n / 256 % 16), Nat.digitChar (n / 16 % 16),
    Nat.digitChar (n % 16)]

/-- The characters that `json.dumps` writes as they are. -/
def isKept (c : Char) : Bool := ' ' ≤ c && c ≤ '~' && c != '\\' && c != '"'

def escapeChar (c : Char) : List Char :=
  if isKept c then [c]
  else
    match c with
    | '"' => ['\\', '"']
    | '\\' => ['\\', '\\']
    | '\n' => ['\\', 'n']
    | '\r' => ['\\', 'r']
    | '\t' => ['\\', 't']
    | '\x08' => ['\\', 'b']
    | '\x0c' => ['\\', 'f']
    | c =>
      if c.toNat < 0x10000 then unicodeEscape c.toNat
      else
        -- beyond the first plane a character is two surrogates
        unicodeEscape (0xd800 + (c.toNat - 0x10000) / 1024) ++ unicodeEscape (0xdc00 + (c.toNat - 0x10000) % 1024)

def dumpString (s : List Char) : List Char := '"' :: (s.flatMap escapeChar ++ ['"'])

/-- A character that is not kept is written with more than one. -/
theorem length_escapeChar (c : Char) :
    (escapeChar c).length = 1 ∧ isKept c = true ∨ 2 ≤ (escapeChar c).length := by
  unfold escapeChar
  split
  · rename_i hkept
    exact .inl ⟨rfl, hkept⟩
  · right
    split
    all_goals try exact Nat.le_refl 2
    split <;> simp [unicodeEscape]

/-! ## Reading back -/

open Jq

theorem hexDigit_digitChar {d : Nat} (h : d < 16) : hexDigit (Nat.digitChar d) = some d := by
  have hall : ∀ d < 16, hexDigit (Nat.digitChar d) = some d := by decide
  exact hall d h

/-- The four digits are those of the code unit. -/
theorem hexUnit_digits {n : Nat} (h : n < 0x10000) :
    hexUnit (Nat.digitChar (n / 4096 % 16)) (Nat.digitChar (n / 256 % 16)) (Nat.digitChar (n / 16 % 16))
      (Nat.digitChar (n % 16)) = some (if 0xD800 ≤ n ∧ n < 0xE000 then .surrogate n else .char (Char.ofNat n)) := by
  have hvalue : ((n / 4096 % 16 * 16 + n / 256 % 16) * 16 + n / 16 % 16) * 16 + n % 16 = n := by omega
  unfold hexUnit
  rw [hexDigit_digitChar (Nat.mod_lt _ (by decide)), hexDigit_digitChar (Nat.mod_lt _ (by decide)),
    hexDigit_digitChar (Nat.mod_lt _ (by decide)), hexDigit_digitChar (Nat.mod_lt _ (by decide))]
  simp only [hvalue]

theorem readString_unicodeEscape {n : Nat} (h : n < 0x10000) (rest : List Char) :
    readString (unicodeEscape n ++ rest) =
      (readString rest).cons (if 0xD800 ≤ n ∧ n < 0xE000 then .surrogate n else .char (Char.ofNat n)) := by
  have hread := hexUnit_digits h
  simp only [unicodeEscape, List.cons_append, List.nil_append]
  rw [readString.eq_def]
  simp only [hread]

/-- A character, however it is written: what is read stands for it, in front of the characters behind it. -/
def ReadsAs (c : Char) (written : List Char) : Prop :=
  ∀ rest units after, readString rest = .text units after →
    ∃ units', readString (written ++ rest) = .text units' after ∧ decodeUnits none units' = c :: decodeUnits none units

theorem readsAs_of_char {c : Char} {written : List Char}
    (h : ∀ rest, readString (written ++ rest) = (readString rest).cons (.char c)) : ReadsAs c written := by
  intro rest units after hrest
  refine ⟨.char c :: units, ?_, rfl⟩
  rw [h, hrest]
  rfl

/-- Two halves of a character. -/
theorem readsAs_of_surrogates {c : Char} {high low : Nat} (hhigh : 0xD800 ≤ high) (hhigh' : high < 0xDC00)
    (hlow : 0xDC00 ≤ low) (hlow' : low < 0xE000)
    (hc : Char.ofNat (0x10000 + (high - 0xD800) * 0x400 + (low - 0xDC00)) = c) :
    ReadsAs c (unicodeEscape high ++ unicodeEscape low) := by
  intro rest units after hrest
  refine ⟨.surrogate high :: .surrogate low :: units, ?_, ?_⟩
  · rw [List.append_assoc, readString_unicodeEscape (by omega), readString_unicodeEscape (by omega), hrest,
      if_pos ⟨hhigh, by omega⟩, if_pos ⟨by omega, hlow'⟩]
    rfl
  · rw [decodeUnits, if_pos hhigh', decodeUnits, if_neg (by omega), hc]

theorem readsAs_escapeChar (c : Char) : ReadsAs c (escapeChar c) := by
  unfold escapeChar
  split
  next hkept =>
    have hquote : c ≠ '"' := by
      rintro rfl
      exact absurd hkept (by decide)
    have hbackslash : c ≠ '\\' := by
      rintro rfl
      exact absurd hkept (by decide)
    exact readsAs_of_char (readString_cons hquote hbackslash)
  next =>
    have hvalid : c.toNat < 0xD800 ∨ 0xDFFF < c.toNat ∧ c.toNat < 0x110000 := c.valid
    split
    all_goals try exact readsAs_of_char fun rest => rfl
    split
    next hplane =>
      apply readsAs_of_char
      intro rest
      rw [readString_unicodeEscape hplane, if_neg (by omega), Char.ofNat_toNat]
    next hplane =>
      apply readsAs_of_surrogates (by omega) (by omega) (by omega) (by omega)
      have hvalue : 0x10000 + (0xd800 + (c.toNat - 0x10000) / 1024 - 0xD800) * 0x400 +
          (0xdc00 + (c.toNat - 0x10000) % 1024 - 0xDC00) = c.toNat := by omega
      rw [hvalue, Char.ofNat_toNat]

/-- **A string that was written is read as it was.** -/
theorem readString_dumped (s rest : List Char) :
    ∃ units, readString (s.flatMap escapeChar ++ '"' :: rest) = .text units rest ∧ decodeUnits none units = s := by
  induction s with
  | nil => exact ⟨[], rfl, rfl⟩
  | cons c s ih =>
    obtain ⟨units, hread, hdecode⟩ := ih
    obtain ⟨units', hread', hdecode'⟩ := readsAs_escapeChar c _ _ _ hread
    refine ⟨units', ?_, ?_⟩
    · rw [List.flatMap_cons, List.append_assoc]
      exact hread'
    · rw [hdecode', hdecode]

end JsonDumps
end Fenic
