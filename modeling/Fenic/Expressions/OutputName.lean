import Fenic.Expressions.Printing

/-!
# `Expressions.OutputName` — the name that the engine gives a converted expression

A converted expression that is not renamed has a name of its own: that of the column, alias or field at its root, or that
of one of its arguments, mostly the first. `outputName` is this rule over the expressions that `_convert_expr` makes.

`outputName_ne_printed` is the fact about names that the structs need: the printed form of an expression contains that
of the argument whose name it has and something more, so that it is not its name. There are three exceptions, for which
`hidesName` looks: a series has a name of its own, so has a struct literal, and four date functions do not print the date.
-/

namespace Fenic

namespace Expressions

/-! ## Literals -/

mutual

/-- The name of a converted literal: a struct has the name of its first field, a list that of its first item. -/
def Literal.outputName : Literal → Option String
  | .array _ items => Literal.itemsOutputName items
  | .struct fields => Literal.fieldsOutputName fields
  | _ => some "literal"

def Literal.itemsOutputName : List Literal → Option String
  | [] => some "literal"
  | l :: _ => l.outputName

/-- A struct without fields is refused. -/
def Literal.fieldsOutputName : List (String × Literal) → Option String
  | [] => none
  | (name, _) :: _ => some name

end

def Literal.isCompound : Literal → Bool
  | .array _ _ => true
  | .struct _ => true
  | _ => false

theorem Literal.outputName_of_not_compound {l : Literal} (h : l.isCompound = false) : l.outputName = some "literal" := by
  cases l <;> first | rfl | cases h

/-! ## The rule -/

/-- Where the name of a converted expression comes from. -/
inductive NameSource where
  | argument (i : Nat)
  | constant (name : String)
  | missing

/-- `DATA_COLUMN_NAME`. -/
def dataColumnName : String := "__data__"

/-- The names that are not the names of columns. -/
def engineNames : List String := ["literal", "len", "result", "toc", dataColumnName]

section

variable {Func Model Series : Type} [Printing Func Model Series]

/-- The name of an index by a text, which is a field access. -/
def fieldSource : List (LogicalExpr Func Model Series) → NameSource
  | [_, .node (.literal (.string field)) _] => .constant field
  | _ => .argument 0

namespace ExprHead

def nameSource (children : List (LogicalExpr Func Model Series)) : ExprHead Func Model Series → NameSource
  | .column name => .constant name
  | .literal l => l.outputName.elim .missing .constant
  | .seriesLiteral series =>
    .constant (if Printing.seriesLength Func Model series = 1 then "literal" else Printing.seriesName Func Model series)
  -- the converter raises
  | .unresolvedLiteral _ _ => .missing
  | .sort _ _ => .missing
  | .alias name => .constant name
  | .now _ => .constant "literal"
  | .unparameterized .index => fieldSource children
  -- `pl.len()`
  | .unparameterized .count =>
    if (viewAt (children.map fun e => e.head.view) 0).isLiteral then .constant "len" else .argument 0
  -- a chain of branches has the name of the value of its first one
  | .unparameterized .when => .argument (if children.length = 2 then 1 else 0)
  | .unparameterized .jsonType => .constant "result"
  | .jsonContains _ => .constant "result"
  | .mdGenerateToc _ => .constant "toc"
  -- the null of `pl.when(...).then(None)`
  | .regexpInstr =>
    if (viewAt (children.map fun e => e.head.view) 2).isLiteral then .constant "literal" else .argument 0
  -- `end - start`
  | .dateDiff => .argument 1
  | .timestampDiff _ => .argument 1
  | .semanticReduce .. => .constant dataColumnName
  | _ => .argument 0

/-- The printed form need not contain the name. -/
def hides : ExprHead Func Model Series → Bool
  | .literal l => l.isCompound
  | .seriesLiteral series => Printing.seriesLength Func Model series ≠ 1
  | .dateTrunc _ => true
  | .dateAdd _ => true
  | .timestampAdd _ => true
  | .dateFormat _ => true
  | _ => false

end ExprHead

namespace LogicalExpr

mutual

/-- The name of the converted expression. -/
def outputName : LogicalExpr Func Model Series → Option String
  | .node head children =>
    match head.nameSource children with
    | .argument i => (outputNames children)[i]?.join
    | .constant name => some name
    | .missing => none

def outputNames : List (LogicalExpr Func Model Series) → List (Option String)
  | [] => []
  | e :: es => outputName e :: outputNames es

end

mutual

/-- Some expression on the way to the name hides it. -/
def hidesName : LogicalExpr Func Model Series → Bool
  | .node head children =>
    head.hides ||
      match head.nameSource children with
      | .argument i => (hidesNames children).getD i false
      | _ => false

def hidesNames : List (LogicalExpr Func Model Series) → List Bool
  | [] => []
  | e :: es => hidesName e :: hidesNames es

end

theorem outputNames_eq (es : List (LogicalExpr Func Model Series)) : outputNames es = es.map outputName := by
  induction es with
  | nil => rfl
  | cons e es ih =>
    show outputName e :: outputNames es = _
    rw [ih]
    rfl

theorem hidesNames_eq (es : List (LogicalExpr Func Model Series)) : hidesNames es = es.map hidesName := by
  induction es with
  | nil => rfl
  | cons e es ih =>
    show hidesName e :: hidesNames es = _
    rw [ih]
    rfl

end LogicalExpr

/-! ## Printed forms are not engine names -/

/-- A character of every printed form but that of a column. -/
def isPunctuation (c : Char) : Bool := c = ' ' ∨ c = '(' ∨ c = '['

theorem not_engineName {s : String} (h : s.toList.any isPunctuation = true) : s ∉ engineNames := by
  have hnone : ∀ name ∈ engineNames, name.toList.any isPunctuation = false := by decide
  intro hmem
  rw [hnone s hmem] at h
  cases h

omit [Printing Func Model Series] in
theorem call_punctuated (name : String) (arguments : List String) :
    (call name arguments).toList.any isPunctuation = true := by
  simp [call, isPunctuation]

theorem UnparameterizedExpr.printed_punctuated (cls : UnparameterizedExpr) (arguments : List String) :
    (cls.printed arguments).toList.any isPunctuation = true := by
  unfold UnparameterizedExpr.printed
  split
  · simp [isPunctuation]
  · simp [isPunctuation]
  · simp [isPunctuation]
  · split <;> simp [isPunctuation]
  · simp [isPunctuation]
  · exact call_punctuated _ _

theorem ExprHead.printed_punctuated (heads : List (ExprHead Func Model Series)) (arguments : List String)
    {head : ExprHead Func Model Series} (h : ∀ name, head ≠ .column name) :
    (head.printed heads arguments).toList.any isPunctuation = true := by
  cases head with
  | column name => exact absurd rfl (h name)
  | unparameterized cls => exact cls.printed_punctuated arguments
  | _ => simp [ExprHead.printed, isPunctuation, call_punctuated]

/-! ## Printed forms are longer than the name inside -/

theorem argumentAt_length_le_intercalate (separator : String) (arguments : List String) (i : Nat) :
    (argumentAt arguments i).length ≤ (separator.intercalate arguments).length := by
  rw [argumentAt, List.getD_eq_getElem?_getD]
  cases hi : arguments[i]? with
  | none => exact Nat.zero_le _
  | some s => exact length_le_intercalate (List.mem_of_getElem? hi)

theorem length_intercalate_lt_call (name : String) (arguments : List String) :
    (", ".intercalate arguments).length < (call name arguments).length := by
  have hopen : "(".length = 1 := rfl
  simp only [call, String.length_append, hopen]
  omega

variable {arguments : List String}

theorem argumentAt_length_lt_call {name : String} (i : Nat) :
    (argumentAt arguments i).length < (call name arguments).length :=
  lt_of_le_of_lt (argumentAt_length_le_intercalate _ _ _) (length_intercalate_lt_call _ _)

theorem lt_length_call {name s : String} (h : ∃ argument ∈ arguments, s.length ≤ argument.length) :
    s.length < (call name arguments).length := by
  obtain ⟨argument, hmem, hle⟩ := h
  exact length_lt_call hmem hle

theorem UnparameterizedExpr.argumentAt_lt_printed {cls : UnparameterizedExpr}
    {children : List (LogicalExpr Func Model Series)} {i : Nat}
    (hlength : arguments.length = children.length)
    (hsource : (ExprHead.unparameterized cls).nameSource children = .argument i) :
    (argumentAt arguments i).length < (cls.printed arguments).length := by
  cases cls with
  | index =>
    obtain rfl : i = 0 := by
      rw [ExprHead.nameSource] at hsource
      unfold fieldSource at hsource
      split at hsource
      · cases hsource
      · cases hsource
        rfl
    have hopen : "[".length = 1 := rfl
    simp only [UnparameterizedExpr.printed, String.length_append, hopen]
    omega
  | not =>
    cases hsource
    have hnot : "NOT ".length = 4 := rfl
    simp only [UnparameterizedExpr.printed, String.length_append, hnot]
    omega
  | isIn =>
    cases hsource
    have hin : " IN ".length = 4 := rfl
    simp only [UnparameterizedExpr.printed, String.length_append, hin]
    omega
  | when =>
    have hthen : ") THEN (".length = 8 := rfl
    unfold UnparameterizedExpr.printed
    dsimp only
    split
    next condition value _ =>
        -- the only branch: the name is that of the value
        rw [ExprHead.nameSource, if_pos (by rw [← hlength]; rfl)] at hsource
        cases hsource
        simp only [argumentAt, List.getD_cons_succ, List.getD_cons_zero, String.length_append, hthen]
        omega
    next hchain =>
        rw [ExprHead.nameSource, if_neg] at hsource
        · cases hsource
          simp only [String.length_append, hthen]
          omega
        · intro htwo
          rw [← hlength] at htwo
          obtain ⟨condition, value, rfl⟩ := List.length_eq_two.mp htwo
          exact hchain condition value rfl
  | otherwise =>
    cases hsource
    have helse : " ELSE (".length = 7 := rfl
    simp only [UnparameterizedExpr.printed, String.length_append, helse]
    omega
  | count =>
    rw [ExprHead.nameSource] at hsource
    split at hsource
    · cases hsource
    · exact argumentAt_length_lt_call i
  | jsonType => cases hsource
  | _ =>
    cases hsource
    exact argumentAt_length_lt_call 0

theorem ExprHead.argumentAt_lt_printed {head : ExprHead Func Model Series}
    {children : List (LogicalExpr Func Model Series)} {heads : List (ExprHead Func Model Series)}
    {i : Nat} (hlength : arguments.length = children.length)
    (hsource : head.nameSource children = .argument i) (hhides : head.hides = false) :
    (argumentAt arguments i).length < (head.printed heads arguments).length := by
  cases head with
  | unparameterized cls => exact UnparameterizedExpr.argumentAt_lt_printed hlength hsource
  | literal l =>
    rw [ExprHead.nameSource, Literal.outputName_of_not_compound hhides] at hsource
    cases hsource
  | regexpInstr =>
    rw [ExprHead.nameSource] at hsource
    split at hsource
    · cases hsource
    · exact argumentAt_length_lt_call i
  | dateTrunc | dateAdd | timestampAdd | dateFormat => cases hhides
  | isNull =>
    cases hsource
    have his : " IS ".length = 4 := rfl
    simp only [ExprHead.printed, String.length_append, his]
    omega
  | _ =>
    cases hsource <;> simp only [ExprHead.printed] <;>
      first
        | with_reducible exact argumentAt_length_lt_call _
        | with_reducible
            apply lt_length_call
            simp [String.length_append, Nat.add_assoc, Nat.le_add_right, argumentAt_length_le_intercalate]

/-! ## Names and printed forms -/

namespace LogicalExpr

/-- What the name of an expression can be. -/
def NameBounded (e : LogicalExpr Func Model Series) (name : String) : Prop :=
  name ∈ engineNames ∨ name.length < e.printed.length ∨ ∃ children, e = .node (.column name) children

theorem printed_node (head : ExprHead Func Model Series) (children : List (LogicalExpr Func Model Series)) :
    printed (.node head children) = head.printed (children.map LogicalExpr.head) (children.map printed) := by
  show head.printed _ (printedChildren children) = _
  rw [printedChildren_eq]

theorem outputName_node (head : ExprHead Func Model Series) (children : List (LogicalExpr Func Model Series)) :
    outputName (.node head children) =
      match head.nameSource children with
      | .argument i => (children.map outputName)[i]?.join
      | .constant name => some name
      | .missing => none := by
  rw [← outputNames_eq]
  rfl

/-- The constant names are those of the engine, of a column, or of something that is printed. -/
theorem nameBounded_constant {head : ExprHead Func Model Series} {children : List (LogicalExpr Func Model Series)}
    {name : String} (hsource : head.nameSource children = .constant name) (hhides : head.hides = false) :
    NameBounded (.node head children) name := by
  have hengine : ∀ {name' : String}, NameSource.constant name' = .constant name → name' ∈ engineNames →
      NameBounded (.node head children) name := by
    intro name' h hmem
    cases h
    exact Or.inl hmem
  cases head with
  | column name' =>
    cases hsource
    exact Or.inr (Or.inr ⟨children, rfl⟩)
  | literal l =>
    rw [ExprHead.nameSource, Literal.outputName_of_not_compound hhides] at hsource
    exact hengine hsource (by decide)
  | seriesLiteral series =>
    have hone : Printing.seriesLength Func Model series = 1 := by simpa [ExprHead.hides] using hhides
    rw [ExprHead.nameSource, if_pos hone] at hsource
    exact hengine hsource (by decide)
  | now => exact hengine hsource (by decide)
  | unparameterized cls =>
    cases cls with
    | index =>
      rw [ExprHead.nameSource] at hsource
      unfold fieldSource at hsource
      split at hsource
      next base field children =>
          cases hsource
          right; left
          have hopen : "[".length = 1 := rfl
          have hfield : name.length < (printed (.node (.literal (.string name)) children)).length := by
            exact length_lt_call List.mem_cons_self le_rfl
          show _ < String.length (printed base ++ "[" ++ printed (.node (.literal (.string name)) children) ++ "]")
          simp only [String.length_append, hopen]
          omega
      · cases hsource
    | count =>
      rw [ExprHead.nameSource] at hsource
      split at hsource
      · exact hengine hsource (by decide)
      · cases hsource
    | jsonType => exact hengine hsource (by decide)
    | _ => cases hsource
  | regexpInstr =>
    rw [ExprHead.nameSource] at hsource
    split at hsource
    · exact hengine hsource (by decide)
    · cases hsource
  | jsonContains | mdGenerateToc | semanticReduce => exact hengine hsource (by decide)
  | _ =>
    -- an alias; the other classes have the name of an argument
    cases hsource <;>
      · have has : " AS ".length = 4 := rfl
        rw [NameBounded, printed_node]
        simp only [ExprHead.printed, String.length_append, has]
        omega

mutual

theorem nameBounded : ∀ e : LogicalExpr Func Model Series, ∀ name : String, e.hidesName = false →
    e.outputName = some name → NameBounded e name
  | .node head children, name, hhides, hname => by
    obtain ⟨hhead, hargument⟩ := Bool.or_eq_false_iff.mp hhides
    rw [outputName_node] at hname
    cases hsource : head.nameSource children with
    | constant name' =>
      rw [hsource] at hname
      cases hname
      exact nameBounded_constant hsource hhead
    | missing =>
      rw [hsource] at hname
      cases hname
    | argument i =>
      rw [hsource] at hname hargument
      dsimp only at hname hargument
      rw [Option.join_eq_some_iff, List.getElem?_map, Option.map_eq_some_iff] at hname
      obtain ⟨e, he, hname⟩ := hname
      have hhidden : e.hidesName = false := by
        rw [hidesNames_eq, List.getD_eq_getElem?_getD, List.getElem?_map, he] at hargument
        exact hargument
      have hprinted : argumentAt (children.map printed) i = e.printed := by
        rw [argumentAt, List.getD_eq_getElem?_getD, List.getElem?_map, he]
        rfl
      have hlonger : (argumentAt (children.map printed) i).length <
          (head.printed (children.map LogicalExpr.head) (children.map printed)).length :=
        ExprHead.argumentAt_lt_printed (List.length_map ..) hsource hhead
      rw [hprinted, ← printed_node] at hlonger
      rcases nameBounded_of_mem children e (List.mem_of_getElem? he) name hhidden hname with hengine | hlt | ⟨columns, rfl⟩
      · exact Or.inl hengine
      · exact Or.inr (Or.inl (hlt.trans hlonger))
      · rw [printed_node] at hlonger
        exact Or.inr (Or.inl hlonger)

theorem nameBounded_of_mem : ∀ es : List (LogicalExpr Func Model Series), ∀ e ∈ es, ∀ name : String,
    e.hidesName = false → e.outputName = some name → NameBounded e name
  | [], _, hmem, _, _, _ => absurd hmem List.not_mem_nil
  | e' :: es, e, hmem, name, hhides, hname => by
    rcases List.mem_cons.mp hmem with heq | hmem
    · rw [heq] at hhides hname ⊢
      exact nameBounded e' name hhides hname
    · exact nameBounded_of_mem es e hmem name hhides hname

end

/-- The name of an expression that is not a column, and of which nothing hides the name, is not its printed form. -/
theorem outputName_ne_printed {e : LogicalExpr Func Model Series} (hcolumn : ∀ name, e.head ≠ .column name)
    (hhides : e.hidesName = false) : e.outputName ≠ some e.printed := by
  intro hname
  obtain ⟨head, children⟩ := e
  rcases nameBounded (.node head children) _ hhides hname with hengine | hlt | ⟨children', hcolumn'⟩
  · have hpunctuated := ExprHead.printed_punctuated (children.map LogicalExpr.head) (children.map printed) hcolumn
    rw [← printed_node] at hpunctuated
    exact not_engineName hpunctuated hengine
  · exact lt_irrefl _ hlt
  · exact hcolumn _ (LogicalExpr.node.inj hcolumn').1

end LogicalExpr

end

end Expressions

end Fenic
