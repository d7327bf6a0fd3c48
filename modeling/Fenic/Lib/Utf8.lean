import Mathlib

/-!
# `Lib.Utf8` — byte offsets in a text

A text is its list of characters; its bytes are counted by the UTF-8 size of each. An offset is a number of bytes
from the start. It is a character boundary exactly when it is the size of a prefix, and then the text splits there
(`dropBytes_eq_some`).

`Lines` relates an offset to the lines that are still to be read from it. An offset one past the end stands for no
lines at all, which is not the same as the end itself: there the last line, an empty one, is still to come.

The bytes of a text are those of its characters. Only the first byte of a character is a leading one, so a run of bytes that
is a text by itself lies between two characters (`encode_infix_iff`).
-/

namespace Utf8

def byteLen (text : List Char) : Nat :=
  (text.map Char.utf8Size).sum

@[simp] theorem byteLen_nil : byteLen [] = 0 := rfl

@[simp] theorem byteLen_cons (c : Char) (text : List Char) : byteLen (c :: text) = c.utf8Size + byteLen text := by
  unfold byteLen
  rw [List.map_cons, List.sum_cons]

@[simp] theorem byteLen_append (text text' : List Char) : byteLen (text ++ text') = byteLen text + byteLen text' := by
  unfold byteLen
  rw [List.map_append, List.sum_append]

theorem length_le_byteLen (text : List Char) : text.length ≤ byteLen text := by
  induction text with
  | nil => exact Nat.le_refl 0
  | cons c text ih =>
    have hsize := c.utf8Size_pos
    rw [byteLen_cons, List.length_cons]
    omega

variable {text : List Char}

/-- A text has as many bytes as characters exactly if each of them is one byte. -/
theorem byteLen_eq_length_iff : byteLen text = text.length ↔ ∀ c ∈ text, c.utf8Size = 1 := by
  induction text with
  | nil => exact iff_of_true rfl nofun
  | cons c text ih =>
    have hsize := c.utf8Size_pos
    have hlength := length_le_byteLen text
    rw [List.forall_mem_cons, ← ih, byteLen_cons, List.length_cons]
    omega

theorem byteLen_eq_zero : byteLen text = 0 ↔ text = [] := by
  cases text with
  | nil => simp
  | cons c text =>
    have hpos := Char.utf8Size_pos c
    rw [byteLen_cons]
    constructor
    · intro h
      omega
    · intro h
      cases h

/-- What follows an offset, if it is a character boundary. -/
def dropBytes : Nat → List Char → Option (List Char)
  | 0, text => some text
  | _ + 1, [] => none
  | n + 1, c :: text => if c.utf8Size ≤ n + 1 then dropBytes (n + 1 - c.utf8Size) text else none

/-- What precedes an offset, if it is a character boundary. -/
def takeBytes : Nat → List Char → Option (List Char)
  | 0, _ => some []
  | _ + 1, [] => none
  | n + 1, c :: text => if c.utf8Size ≤ n + 1 then (takeBytes (n + 1 - c.utf8Size) text).map (c :: ·) else none

variable {n : Nat}

theorem dropBytes_cons {c : Char} (h : c.utf8Size ≤ n) (text : List Char) :
    dropBytes n (c :: text) = dropBytes (n - c.utf8Size) text := by
  have hpos := Char.utf8Size_pos c
  cases n with
  | zero => omega
  | succ n => rw [dropBytes, if_pos h]

theorem takeBytes_cons {c : Char} (h : c.utf8Size ≤ n) (text : List Char) :
    takeBytes n (c :: text) = (takeBytes (n - c.utf8Size) text).map (c :: ·) := by
  have hpos := Char.utf8Size_pos c
  cases n with
  | zero => omega
  | succ n => rw [takeBytes, if_pos h]

/-- The size of a prefix is a boundary. -/
theorem dropBytes_append (before after : List Char) : dropBytes (byteLen before) (before ++ after) = some after := by
  induction before with
  | nil => cases after <;> rfl
  | cons c before ih =>
    rw [List.cons_append, byteLen_cons, dropBytes_cons (Nat.le_add_right _ _), Nat.add_sub_cancel_left]
    exact ih

theorem takeBytes_append (before after : List Char) : takeBytes (byteLen before) (before ++ after) = some before := by
  induction before with
  | nil => cases after <;> rfl
  | cons c before ih =>
    rw [List.cons_append, byteLen_cons, takeBytes_cons (Nat.le_add_right _ _), Nat.add_sub_cancel_left, ih]
    rfl

variable {after : List Char}

/-- A boundary is the size of a prefix. -/
theorem dropBytes_eq_some :
    dropBytes n text = some after ↔ ∃ before, text = before ++ after ∧ n = byteLen before := by
  constructor
  · intro h
    induction text generalizing n with
    | nil =>
      cases n with
      | zero =>
        cases h
        exact ⟨[], rfl, rfl⟩
      | succ n => cases h
    | cons c text ih =>
      cases n with
      | zero =>
        cases h
        exact ⟨[], rfl, rfl⟩
      | succ n =>
        rw [dropBytes] at h
        by_cases hsize : c.utf8Size ≤ n + 1
        · rw [if_pos hsize] at h
          obtain ⟨before, rfl, hn⟩ := ih h
          refine ⟨c :: before, rfl, ?_⟩
          rw [byteLen_cons]
          omega
        · rw [if_neg hsize] at h
          cases h
  · rintro ⟨before, rfl, rfl⟩
    exact dropBytes_append before after

/-- Offsets add up along a text. -/
theorem dropBytes_add {m : Nat} (h : dropBytes m text = some after) :
    dropBytes (m + n) text = dropBytes n after := by
  obtain ⟨before, rfl, rfl⟩ := dropBytes_eq_some.mp h
  clear h
  induction before with
  | nil => rw [byteLen_nil, Nat.zero_add, List.nil_append]
  | cons c before ih =>
    have hsub : c.utf8Size + byteLen before + n - c.utf8Size = byteLen before + n := by omega
    rw [List.cons_append, byteLen_cons, dropBytes_cons (by omega), hsub]
    exact ih

theorem dropBytes_length (h : dropBytes n text = some after) :
    byteLen text = n + byteLen after := by
  obtain ⟨before, rfl, rfl⟩ := dropBytes_eq_some.mp h
  exact byteLen_append before after

/-- Whether an offset is a boundary depends on the text before it only. -/
theorem dropBytes_append_of_le (h : n ≤ byteLen text) (text' : List Char) :
    dropBytes n (text ++ text') = (dropBytes n text).map (· ++ text') := by
  induction text generalizing n with
  | nil =>
    rw [byteLen_nil, Nat.le_zero] at h
    subst h
    cases text' <;> rfl
  | cons c text ih =>
    rw [byteLen_cons] at h
    cases n with
    | zero => rfl
    | succ n =>
      rw [List.cons_append, dropBytes, dropBytes]
      by_cases hsize : c.utf8Size ≤ n + 1
      · rw [if_pos hsize, if_pos hsize]
        exact ih (by omega)
      · rw [if_neg hsize, if_neg hsize]
        rfl

theorem takeBytes_isSome (n : Nat) (text : List Char) : (takeBytes n text).isSome = (dropBytes n text).isSome := by
  induction text generalizing n with
  | nil => cases n <;> rfl
  | cons c text ih =>
    cases n with
    | zero => rfl
    | succ n =>
      rw [takeBytes, dropBytes]
      by_cases hsize : c.utf8Size ≤ n + 1
      · rw [if_pos hsize, if_pos hsize, Option.isSome_map]
        exact ih _
      · rw [if_neg hsize, if_neg hsize]

/-- The text between two offsets, if both are boundaries. -/
def slice (start stop : Nat) (text : List Char) : Option (List Char) :=
  (dropBytes start text).bind (takeBytes (stop - start))

theorem slice_eq {start : Nat} {before : List Char} (h : dropBytes start text = some (before ++ after)) :
    slice start (start + byteLen before) text = some before := by
  unfold slice
  rw [h, Option.bind_some, Nat.add_sub_cancel_left]
  exact takeBytes_append before after

/-! ## Lines -/

/-- The text of some lines, with a newline between them. -/
def unlines (lines : List (List Char)) : List Char :=
  ['\n'].intercalate lines

@[simp] theorem unlines_nil : unlines [] = [] := rfl

@[simp] theorem unlines_singleton (line : List Char) : unlines [line] = line := by
  simp [unlines]

variable {lines : List (List Char)}

theorem unlines_cons (line : List Char) (h : lines ≠ []) :
    unlines (line :: lines) = line ++ '\n' :: unlines lines := by
  cases lines with
  | nil => exact absurd rfl h
  | cons line' lines => simp [unlines, List.intercalate]

/-- There is a newline between two lines. -/
theorem length_le_byteLen_unlines (lines : List (List Char)) : lines.length ≤ byteLen (unlines lines) + 1 := by
  induction lines with
  | nil => exact Nat.zero_le _
  | cons line lines ih =>
    by_cases hnil : lines = []
    · subst hnil
      exact Nat.le_add_left _ _
    · have hnewline : Char.utf8Size '\n' = 1 := rfl
      rw [unlines_cons line hnil, byteLen_append, byteLen_cons, List.length_cons]
      omega

theorem unlines_splitOn (text : List Char) : unlines (text.splitOn '\n') = text :=
  List.intercalate_splitOn '\n'

/-- From the offset on, these lines are still to be read. -/
def Lines (text : List Char) (pos : Nat) (lines : List (List Char)) : Prop :=
  if lines = [] then pos = byteLen text + 1 else dropBytes pos text = some (unlines lines)

variable {pos : Nat}

theorem Lines.nil_iff : Lines text pos [] ↔ pos = byteLen text + 1 := by
  unfold Lines
  rw [if_pos rfl]

variable {line : List Char}

theorem Lines.cons_iff :
    Lines text pos (line :: lines) ↔ dropBytes pos text = some (unlines (line :: lines)) := by
  unfold Lines
  rw [if_neg (List.cons_ne_nil line lines)]

theorem Lines.start (text : List Char) : Lines text 0 (text.splitOn '\n') := by
  unfold Lines
  rw [if_neg (List.splitOn_ne_nil _ _), unlines_splitOn]
  cases text <;> rfl

/-- After a line and its newline, or the end of the text, the other lines are to be read. -/
theorem Lines.next
    (h : Lines text pos (line :: lines)) : Lines text (pos + byteLen line + 1) lines := by
  rw [Lines.cons_iff] at h
  cases lines with
  | nil =>
    rw [unlines_singleton] at h
    rw [Lines.nil_iff, dropBytes_length h]
  | cons line' lines =>
    rw [unlines_cons line (List.cons_ne_nil _ _)] at h
    have hnewline : byteLen (line ++ ['\n']) = byteLen line + 1 := by
      rw [byteLen_append]
      rfl
    have happend : line ++ '\n' :: unlines (line' :: lines) = (line ++ ['\n']) ++ unlines (line' :: lines) := by
      rw [List.append_assoc]
      rfl
    rw [Lines.cons_iff, Nat.add_assoc, ← hnewline, dropBytes_add h, happend, dropBytes_append]

theorem Lines.slice_line
    (h : Lines text pos (line :: lines)) : slice pos (pos + byteLen line) text = some line := by
  cases lines with
  | nil =>
    exact slice_eq h
  | cons line' lines =>
    exact slice_eq h

/-- The end of a line lies within the text. -/
theorem Lines.end_le
    (h : Lines text pos (line :: lines)) : pos + byteLen line ≤ byteLen text := by
  have hlength := dropBytes_length h
  cases lines with
  | nil =>
    rw [unlines_singleton] at hlength
    omega
  | cons line' lines =>
    rw [unlines_cons line (List.cons_ne_nil _ _), byteLen_append] at hlength
    omega

/-- There is text left unless the lines are over or only an empty last line is left. -/
theorem Lines.lt_iff (h : Lines text pos lines) :
    pos < byteLen text ↔ lines ≠ [] ∧ lines ≠ [[]] := by
  cases lines with
  | nil =>
    rw [Lines.nil_iff] at h
    exact ⟨fun hlt => by omega, fun hne => absurd rfl hne.1⟩
  | cons line lines =>
    have hlength := dropBytes_length h
    have hpositive : pos < byteLen text ↔ unlines (line :: lines) ≠ [] := by
      rw [ne_eq, ← byteLen_eq_zero]
      omega
    rw [hpositive]
    cases lines with
    | nil => simp
    | cons line' lines =>
      rw [unlines_cons line (List.cons_ne_nil _ _)]
      simp

end Utf8

/-! ## The bytes of a text -/

namespace Utf8Bytes

def encode (text : List Char) : List UInt8 := text.flatMap String.utf8EncodeChar

@[simp] theorem encode_nil : encode [] = [] := rfl

@[simp] theorem encode_cons (c : Char) (text : List Char) : encode (c :: text) = String.utf8EncodeChar c ++ encode text := rfl

@[simp] theorem encode_append (text text' : List Char) : encode (text ++ text') = encode text ++ encode text' :=
  List.flatMap_append

@[simp] theorem encode_flatten (texts : List (List Char)) : encode texts.flatten = texts.flatMap encode := by
  induction texts with
  | nil => rfl
  | cons text texts ih => rw [List.flatten_cons, encode_append, ih, List.flatMap_cons]

theorem toByteArray_encode (text : List Char) : (encode text).toByteArray = text.utf8Encode := by
  simp [encode, List.utf8Encode]

variable {text : List Char} {bytes : List UInt8}

/-- A text whose bytes come first is the first part of the text. -/
theorem prefix_of_encode_append {text' : List Char} (h : encode text ++ bytes = encode text') :
    text <+: text' := by
  apply List.isPrefix_of_utf8Encode_append_eq_utf8Encode bytes.toByteArray
  rw [← toByteArray_encode, ← toByteArray_encode, ← h]
  simp

/-- A byte that continues no character. -/
def Leading (byte : UInt8) : Prop := byte.toNat < 128 ∨ 192 ≤ byte.toNat

/-- One leading byte, and then none. -/
theorem exists_utf8EncodeChar (c : Char) :
    ∃ byte rest, String.utf8EncodeChar c = byte :: rest ∧ Leading byte ∧ ∀ byte' ∈ rest, ¬ Leading byte' := by
  have hval : c.toNat = c.val.toNat := rfl
  unfold String.utf8EncodeChar Leading
  dsimp only
  split
  · exact ⟨_, _, rfl, by simp; omega, by simp⟩
  · split
    · exact ⟨_, _, rfl, by simp; omega, by simp; omega⟩
    · split
      · exact ⟨_, _, rfl, by simp; omega, by simp; omega⟩
      · exact ⟨_, _, rfl, by simp; omega, by simp; omega⟩

/-- The bytes divide at a leading one as the text does. -/
theorem exists_append_of_leading {before after : List UInt8} (h : encode text = before ++ after)
    (hlead : ∀ byte, after.head? = some byte → Leading byte) :
    ∃ p s, text = p ++ s ∧ encode p = before ∧ encode s = after := by
  induction text generalizing before with
  | nil =>
    obtain ⟨rfl, rfl⟩ := List.append_eq_nil_iff.mp h.symm
    exact ⟨[], [], rfl, rfl, rfl⟩
  | cons c text ih =>
    cases before with
    | nil => exact ⟨[], c :: text, rfl, rfl, h⟩
    | cons byte before =>
      obtain ⟨byte', rest, hc, -, hrest⟩ := exists_utf8EncodeChar c
      rw [encode_cons, hc, List.cons_append, List.cons_append] at h
      obtain ⟨rfl, htail⟩ := List.cons.inj h
      -- what is behind the first byte of `c` is all of the rest of `c`, since a leading byte cannot lie in it
      obtain ⟨before', rfl⟩ : ∃ before', before = rest ++ before' := by
        rcases List.append_eq_append_iff.mp htail with ⟨before', hbefore, -⟩ | ⟨after', hrest', hafter⟩
        · exact ⟨before', hbefore⟩
        · cases after' with
          | nil => exact ⟨[], by rw [List.append_nil, hrest', List.append_nil]⟩
          | cons byte after' =>
            have hmem : byte ∈ rest := hrest' ▸ List.mem_append_right _ List.mem_cons_self
            exact absurd (hlead byte (by rw [hafter]; rfl)) (hrest byte hmem)
      rw [List.append_assoc, List.append_cancel_left_eq] at htail
      obtain ⟨p, s, rfl, hp, hs⟩ := ih htail
      refine ⟨c :: p, s, rfl, ?_, hs⟩
      rw [encode_cons, hc, hp, List.cons_append]

theorem leading_of_encode (hne : text ≠ []) {byte : UInt8}
    (h : (encode text ++ bytes).head? = some byte) : Leading byte := by
  cases text with
  | nil => exact absurd rfl hne
  | cons c text =>
    obtain ⟨byte', rest, hc, hleading, -⟩ := exists_utf8EncodeChar c
    rw [encode_cons, hc, List.cons_append, List.cons_append, List.head?_cons] at h
    exact Option.some.inj h ▸ hleading

/-- The number of bytes is that of a first part of the text. -/
def OnBoundary (text : List Char) (bytes : List UInt8) : Prop := ∃ p, p <+: text ∧ encode p = bytes

/-- Bytes from within a text are those of a text exactly when they begin and end at boundaries. -/
theorem encode_infix_iff {before after : List UInt8} (h : encode text = before ++ bytes ++ after)
    (hne : bytes ≠ []) :
    (∃ part, encode part = bytes) ↔ OnBoundary text before ∧ OnBoundary text (before ++ bytes) := by
  constructor
  · rintro ⟨part, rfl⟩
    have hpart : part ≠ [] := fun hnil => hne (by rw [hnil]; rfl)
    rw [List.append_assoc] at h
    obtain ⟨p, s, rfl, rfl, hs⟩ := exists_append_of_leading h fun byte => leading_of_encode hpart
    obtain ⟨rest, rfl⟩ := prefix_of_encode_append hs.symm
    refine ⟨⟨p, List.prefix_append _ _, rfl⟩, ⟨p ++ part, ?_, encode_append _ _⟩⟩
    rw [← List.append_assoc]
    exact List.prefix_append _ _
  · rintro ⟨⟨p, -, hp⟩, ⟨q, -, hq⟩⟩
    rw [← hp] at hq
    obtain ⟨part, rfl⟩ := prefix_of_encode_append hq.symm
    rw [encode_append, List.append_cancel_left_eq] at hq
    exact ⟨part, hq⟩

end Utf8Bytes
