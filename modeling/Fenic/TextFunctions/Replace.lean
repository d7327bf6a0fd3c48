import Fenic.Lib.Rows

/-!
# `TextFunctions.Replace` — replacing what a row searches for

`text.replace` and `text.regexp_replace`: the same expression, over texts or over patterns to search for. A search given by a plain column
is converted to a window over the groups of equal searches; every other search goes to the engine's `replace_all` as it is, which takes
one search only.
-/

namespace Fenic

namespace Replace

abbrev Text := List Char

/-- The engine's replacement of all occurrences: of a literal text, or of a pattern that compiles. -/
class Engine (Pattern : Type) where
  replaceText : Text → Pattern → Text → Text
  /-- whether no search at all is taken, on a frame without rows -/
  takesNoSearch : Bool

/-- A string expression: of one value for all rows (a literal, or a function of literals), a plain column, or any other over columns. -/
inductive Argument (Row V : Type) where
  | single (value : Option V)
  | columnExpr (eval : Row → Option V)
  | computed (eval : Row → Option V)

variable {Row V Pattern : Type}

def Argument.at : Argument Row V → Row → Option V
  | .single value, _ => value
  | .columnExpr eval, row => eval row
  | .computed eval, row => eval row

/-- The values that the engine has for an expression over some rows. -/
def Argument.values : Argument Row V → List Row → List (Option V)
  | .single value, _ => [value]
  | .columnExpr eval, rows => rows.map eval
  | .computed eval, rows => rows.map eval

/-- `ReplaceExpr`. -/
structure ReplaceExpr (Row Pattern : Type) where
  expr : Row → Option Text
  search : Argument Row Pattern
  replacement : Argument Row Text

/-! ## What the code computes -/

section
variable [Engine Pattern]

def replaceValue : Option Text → Option Pattern → Option Text → Option Text
  | some text, some search, some replacement => some (Engine.replaceText text search replacement)
  | _, _, _ => none

/-- `str.replace_all`: one search for all texts, and one replacement or one for each text. -/
def replaceAll (texts : List (Option Text)) (pattern : List (Option Pattern)) (value : List (Option Text)) :
    Option (List (Option Text)) :=
  match pattern, value with
  | [search], [replacement] => some (texts.map fun text => replaceValue text search replacement)
  | [search], replacements =>
    if replacements.length = texts.length then
      some (List.zipWith (fun text replacement => replaceValue text search replacement) texts replacements)
    else none
  | [], _ => if texts = [] ∧ Engine.takesNoSearch Pattern then some [] else none
  | _, _ => none

variable [DecidableEq Pattern]

/-- `_convert_replace_expr`, on the rows of a frame. -/
def convertReplaceExpr (logical : ReplaceExpr Row Pattern) (rows : List Row) : Option (List (Option Text)) :=
  match logical.search with
  | .columnExpr search =>
    Rows.overGroups search (fun group =>
      replaceAll (group.map logical.expr) ((group.map search).take 1) (logical.replacement.values group)) rows
  | search => replaceAll (rows.map logical.expr) (search.values rows) (logical.replacement.values rows)

/-! ## The meaning row by row -/

def ReplaceExpr.rowValue (logical : ReplaceExpr Row Pattern) (row : Row) : Option Text :=
  replaceValue (logical.expr row) (logical.search.at row) (logical.replacement.at row)

/-- **Each row has its own text, search and replacement.** -/
def RowByRow (logical : ReplaceExpr Row Pattern) (rows : List Row) : Prop :=
  convertReplaceExpr logical rows = some (rows.map logical.rowValue)

/-- One search for the whole frame, or a plain column. -/
def Argument.IsComputed (search : Argument Row Pattern) : Prop := ∃ eval, search = .computed eval

omit [DecidableEq Pattern] in
/-- With one search, all rows are replaced. -/
theorem replaceAll_single (logical : ReplaceExpr Row Pattern) (rows : List Row) {search : Option Pattern}
    (h : ∀ row ∈ rows, logical.search.at row = search) :
    replaceAll (rows.map logical.expr) [search] (logical.replacement.values rows) = some (rows.map logical.rowValue) := by
  have hrow : ∀ row ∈ rows, replaceValue (logical.expr row) search (logical.replacement.at row) = logical.rowValue row := by
    intro row hrow
    rw [ReplaceExpr.rowValue, h row hrow]
  have hcolumn : ∀ eval : Row → Option Text, (∀ row, logical.replacement.at row = eval row) →
      replaceAll (rows.map logical.expr) [search] (rows.map eval) = some (rows.map logical.rowValue) := by
    intro eval heval
    have hzip : List.zipWith (fun text replacement => replaceValue text search replacement) (rows.map logical.expr) (rows.map eval) =
        rows.map logical.rowValue := by
      rw [List.zipWith_map, List.zipWith_self]
      exact List.map_congr_left fun row hmem => by rw [← heval, hrow row hmem]
    rw [← hzip]
    match rows with
    | [] => rfl
    | [row] => rfl
    | row :: row' :: rows => exact if_pos (by simp)
  cases hreplacement : logical.replacement with
  | single value =>
    rw [hreplacement] at hrow
    show some (List.map _ (rows.map logical.expr)) = _
    rw [List.map_map]
    exact congrArg some (List.map_congr_left hrow)
  | columnExpr eval => exact hcolumn eval fun row => by rw [hreplacement]; rfl
  | computed eval => exact hcolumn eval fun row => by rw [hreplacement]; rfl

/-- A search by a plain column is replaced group by group. -/
theorem rowByRow_columnExpr {logical : ReplaceExpr Row Pattern} {search : Row → Option Pattern}
    (h : logical.search = .columnExpr search) (rows : List Row) : RowByRow logical rows := by
  rw [RowByRow, convertReplaceExpr, h]
  refine Rows.overGroups_eq fun k row hrow hkey => ?_
  have hsearch : ∀ row ∈ rows.filter fun row => decide (search row = k), search row = k :=
    fun row hmem => of_decide_eq_true (List.mem_filter.mp hmem).2
  -- the group has a row, whose search is that of the group
  obtain ⟨first, group, hgroup⟩ := List.exists_cons_of_ne_nil
    (List.ne_nil_of_mem (List.mem_filter.mpr ⟨hrow, decide_eq_true hkey⟩ : row ∈ rows.filter fun row => decide (search row = k)))
  have hfirst : ((rows.filter fun row => decide (search row = k)).map search).take 1 = [k] := by
    rw [hgroup]
    exact congrArg (fun value => [value]) (hsearch first (hgroup ▸ List.mem_cons_self))
  rw [hfirst]
  refine replaceAll_single logical _ fun row hmem => ?_
  rw [h]
  exact hsearch row hmem

end

/-- Texts, with an engine that replaces the whole text. -/
instance wholeText : Engine Text where
  replaceText text search replacement := if text = search then replacement else text
  takesNoSearch := false

end Replace

end Fenic
