import Fenic.Lib.Occurrence

/-!
# `TextFunctions.SplitPart` — one part of a split text

`split_part` and what its expression is converted to, over the rows of a frame. Every argument is a value of its own for each row; a literal
is the same for all rows, and only a literal part number of 0 is looked at before the rows are. A null of any argument, a part that is not
there and a part number that is null all give the same null of the list access, which is then filled.
-/

namespace Fenic

namespace SplitPart

abbrev Text := List Char

variable {Row : Type}

/-- The part number: an `int`, or a column of any expression. -/
inductive PartNumber (Row : Type) where
  | int (n : Int)
  | column (eval : Row → Option Int)

def PartNumber.eval : PartNumber Row → Row → Option Int
  | .int n, _ => some n
  | .column eval, row => eval row

/-- The call; a literal text or delimiter has the same value in each row. -/
structure Call (Row : Type) where
  src : Row → Option Text
  delimiter : Row → Option Text
  partNumber : PartNumber Row

/-! ## What the code computes -/

/-- `str.split` of the engine: into single characters at an empty delimiter. -/
def strSplit (text delimiter : Text) : List Text :=
  if delimiter = [] then text.map ([·]) else Occurrence.split delimiter text

/-- `list.get` with `null_on_oob`. -/
def listGet (items : List Text) (index : Int) : Option Text :=
  if 0 ≤ index then items[index.toNat]?
  else if -(items.length : Int) ≤ index then items[(items.length + index).toNat]? else none

/-- `_convert_split_part_expr` on a row. -/
def convertSplitPartExpr (text delimiter : Option Text) (partNumber : Option Int) : Option Text :=
  let split := text.bind fun text => delimiter.map (strSplit text)
  let part := partNumber.map fun n => if 0 < n then n - 1 else n
  some ((split.bind fun items => part.bind (listGet items)).getD [])

inductive SplitPartError where
  | validationError
  deriving DecidableEq

/-- `split_part`, and the column that it gives. -/
def splitPart (call : Call Row) (rows : List Row) : Except SplitPartError (List (Option Text)) :=
  match call.partNumber with
  | .int 0 => .error .validationError
  | partNumber => .ok (rows.map fun row => convertSplitPartExpr (call.src row) (call.delimiter row) (partNumber.eval row))

/-! ## What is documented -/

/-- The segments; an empty delimiter does not split. -/
def segments (text delimiter : Text) : List Text :=
  if delimiter = [] then [text] else Occurrence.split delimiter text

/-- The segment with a number, from the front or from the back, or the empty string. -/
def segment (items : List Text) (n : Int) : Text :=
  (if 0 < n then items[n.toNat - 1]? else items.reverse[(-n).toNat - 1]?).getD []

def documentedRow : Option Text → Option Text → Option Int → Option Text
  | some text, some delimiter, some n => some (segment (segments text delimiter) n)
  | _, _, _ => none

/-- A part number that is 0, in the call or in a row. -/
def HasZero (call : Call Row) (rows : List Row) : Prop :=
  call.partNumber = .int 0 ∨ ∃ row ∈ rows, call.partNumber.eval row = some 0

/-- **What the documentation says of a call.** -/
def Documented (call : Call Row) (rows : List Row) : Prop :=
  (HasZero call rows → ∃ e, splitPart call rows = .error e) ∧
    (¬ HasZero call rows → splitPart call rows =
      .ok (rows.map fun row => documentedRow (call.src row) (call.delimiter row) (call.partNumber.eval row)))

/-! ## When the code does it -/

/-- A part that can be told: the text is not split into characters that the part number reaches. -/
def Tells (text delimiter : Text) (n : Int) : Prop :=
  delimiter = [] → text.length ≤ 1 ∨ text.length < n.natAbs

/-- No argument of a row is null, its part number is not 0, and its delimiter tells the part. -/
def Plain (call : Call Row) (row : Row) : Prop :=
  ∃ text delimiter n, call.src row = some text ∧ call.delimiter row = some delimiter ∧ call.partNumber.eval row = some n ∧
    n ≠ 0 ∧ Tells text delimiter n

theorem getElem?_reverse {items : List Text} {k : Nat} (hk : k < items.length) :
    items.reverse[k]? = items[items.length - 1 - k]? := List.getElem?_reverse hk

/-- The index that the part number is converted to finds the segment. -/
theorem listGet_eq_segment (items : List Text) {n : Int} (hn : n ≠ 0) :
    (listGet items (if 0 < n then n - 1 else n)).getD [] = segment items n := by
  unfold listGet segment
  by_cases hpos : 0 < n
  · rw [if_pos hpos, if_pos hpos, if_pos (by omega)]
    congr 2
    omega
  · rw [if_neg hpos, if_neg hpos, if_neg (by omega)]
    by_cases hlength : -(items.length : Int) ≤ n
    · rw [if_pos hlength, getElem?_reverse (by omega)]
      congr 2
      omega
    · rw [if_neg hlength, List.getElem?_eq_none (by rw [List.length_reverse]; omega)]

theorem convert_eq (text delimiter : Text) {n : Int} (hn : n ≠ 0) :
    convertSplitPartExpr (some text) (some delimiter) (some n) = some (segment (strSplit text delimiter) n) :=
  congrArg some (listGet_eq_segment (strSplit text delimiter) hn)

/-- A character of a text, or of the text backwards, against the text as one segment. -/
theorem character_eq_iff {text characters : Text} (h : characters = text ∨ characters = text.reverse) (k : Nat) :
    ((characters.map ([·]))[k]?).getD [] = ([text][k]?).getD [] ↔ text.length ≤ 1 ∨ text.length < k + 1 := by
  have hlength : characters.length = text.length := by
    rcases h with rfl | rfl
    · rfl
    · exact List.length_reverse
  rw [List.getElem?_map]
  cases k with
  | zero =>
    show ((characters[0]?).map ([·])).getD [] = text ↔ _
    match text, h, hlength with
    | [], h, hlength => rw [List.length_eq_zero_iff.mp hlength]; simp
    | [c], h, _ =>
      obtain rfl : characters = [c] := h.elim id id
      simp
    | c :: d :: text, _, _ =>
      refine iff_of_false (fun heq => ?_) (by simp)
      cases hfirst : characters[0]? <;> simp [hfirst] at heq
  | succ k =>
    show _ = [] ↔ _
    by_cases hk : k + 1 < text.length
    · rw [List.getElem?_eq_getElem (hlength ▸ hk)]
      refine iff_of_false (by simp) (by omega)
    · rw [List.getElem?_eq_none (by omega)]
      exact iff_of_true rfl (by omega)

/-- The characters of a text against the text as one segment. -/
theorem segment_characters (text : Text) (n : Int) :
    segment (text.map ([·])) n = segment [text] n ↔ text.length ≤ 1 ∨ text.length < n.natAbs := by
  unfold segment
  by_cases hpos : 0 < n
  · rw [if_pos hpos, if_pos hpos, character_eq_iff (Or.inl rfl)]
    omega
  · rw [if_neg hpos, if_neg hpos, ← List.map_reverse, List.reverse_singleton, character_eq_iff (Or.inr rfl)]
    omega

theorem convert_eq_documented_iff (text delimiter : Text) {n : Int} (hn : n ≠ 0) :
    convertSplitPartExpr (some text) (some delimiter) (some n) = documentedRow (some text) (some delimiter) (some n) ↔
      Tells text delimiter n := by
  rw [convert_eq text delimiter hn, documentedRow, Option.some_inj, strSplit, segments, Tells]
  by_cases hdelimiter : delimiter = []
  · rw [if_pos hdelimiter, if_pos hdelimiter, segment_characters text n]
    exact (imp_iff_right hdelimiter).symm
  · rw [if_neg hdelimiter, if_neg hdelimiter]
    exact iff_of_true rfl fun h => absurd h hdelimiter

theorem convertRow_eq_iff (call : Call Row) {row : Row} (hzero : call.partNumber.eval row ≠ some 0) :
    convertSplitPartExpr (call.src row) (call.delimiter row) (call.partNumber.eval row) =
        documentedRow (call.src row) (call.delimiter row) (call.partNumber.eval row) ↔ Plain call row := by
  unfold Plain
  cases htext : call.src row with
  | none => exact iff_of_false nofun nofun
  | some text =>
    cases hdelimiter : call.delimiter row with
    | none => exact iff_of_false nofun nofun
    | some delimiter =>
      cases hpart : call.partNumber.eval row with
      | none => exact iff_of_false nofun nofun
      | some n =>
        have hn : n ≠ 0 := fun h => hzero (hpart.trans (congrArg some h))
        rw [convert_eq_documented_iff text delimiter hn]
        constructor
        · exact fun htells => ⟨text, delimiter, n, rfl, rfl, rfl, hn, htells⟩
        · rintro ⟨_, _, _, ⟨⟩, ⟨⟩, ⟨⟩, -, htells⟩
          exact htells

/-- **`split_part` does what is documented** for a literal 0, and where no argument is null, no part number of a row is 0, and no text is
split at an empty delimiter before a part that it reaches. -/
theorem splitPart_documented_iff (call : Call Row) (rows : List Row) :
    Documented call rows ↔ call.partNumber = .int 0 ∨ ∀ row ∈ rows, Plain call row := by
  by_cases hliteral : call.partNumber = .int 0
  · refine iff_of_true ⟨fun _ => ⟨.validationError, ?_⟩, fun h => absurd (Or.inl hliteral) h⟩ (Or.inl hliteral)
    rewrite [splitPart, hliteral]
    rfl
  · have hok : splitPart call rows =
        .ok (rows.map fun row => convertSplitPartExpr (call.src row) (call.delimiter row) (call.partNumber.eval row)) := by
      unfold splitPart
      split
      next hint => exact absurd hint hliteral
      next => rfl
    rw [or_iff_right hliteral, Documented, hok]
    by_cases hzero : HasZero call rows
    · -- the code does not look for the zero
      obtain ⟨row, hrow, hpart⟩ := hzero.resolve_left hliteral
      refine iff_of_false (fun h => nomatch h.1 hzero) fun hall => ?_
      obtain ⟨_, _, n, -, -, hn, hne, -⟩ := hall row hrow
      exact hne (Option.some.inj (hn.symm.trans hpart))
    · have hne : ∀ row ∈ rows, call.partNumber.eval row ≠ some 0 := fun row hrow h => hzero (Or.inr ⟨row, hrow, h⟩)
      rw [and_iff_right fun h => absurd h hzero, imp_iff_right hzero, Except.ok.injEq, List.map_inj_left]
      exact forall₂_congr fun row hrow => convertRow_eq_iff call (hne row hrow)

/-- A null text, a part number 0 in a column, and an empty delimiter. -/
theorem calls_not_documented :
    ¬ @Documented Unit ⟨fun _ => none, fun _ => some [','], .int 1⟩ [()] ∧
    ¬ @Documented Unit ⟨fun _ => some ['a', ',', 'b'], fun _ => some [','], .column fun _ => some 0⟩ [()] ∧
    ¬ @Documented Unit ⟨fun _ => some ['a', 'b'], fun _ => some [], .int 1⟩ [()] := by
  refine ⟨fun h => ?_, fun h => ?_, fun h => ?_⟩
  · exact absurd (h.2 (by simp [HasZero, PartNumber.eval])) (by decide)
  · obtain ⟨e, he⟩ := h.1 (Or.inr ⟨(), List.mem_singleton_self _, rfl⟩)
    cases he
  · exact absurd (h.2 (by simp [HasZero, PartNumber.eval])) (by decide)

end SplitPart

end Fenic
