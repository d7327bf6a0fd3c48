import Fenic.Lib.Apart
import Fenic.PlanSchema.Agreement

/-!
# `PlanSchema.Placeholders` — placeholders in the names and the types of columns

A placeholder prints as `param(name)`, and the literal that is put in its place as `lit(value)`. The name of a column is
mostly the printed form of its expression, and so is the name of a field of a struct, which is part of a type. `printedAs`
and `typeAs` are the printed form and the type with some text for each placeholder.

- **Names.** `columnFieldNameAs_eq_iff` says that a name in which a placeholder is printed changes with the text, whatever
  the texts are, as long as they start differently. A name in which none is printed does not change.
- **Types.** A type changes through the names of the fields of structs only (`typeAs_eq_of_fields`).
-/

namespace Fenic

namespace Expressions

open Apart

/-! ## Rules for types -/

/-- What a function sees of its arguments are their types and, of columns and aliases, the names. -/
class TypeRules (Func Model Series : Type) extends Printing Func Model Series where
  seriesType : Series → DataType
  resultType : ExprHead Func Model Series → List (Option String) → List DataType → Option DataType

section

variable {Func Model Series : Type}

/-- The name of a column or an alias. -/
def LogicalExpr.name? (e : LogicalExpr Func Model Series) : Option String :=
  match e.head with
  | .column name => some name
  | .alias name => some name
  | _ => none

instance [TypeRules Func Model Series] : Signatures Func Model Series where
  seriesType := TypeRules.seriesType Func Model
  returnType head children types := TypeRules.resultType head (children.map LogicalExpr.name?) types

/-- A text for each placeholder. -/
abbrev PlaceholderText := DataType → String → String

/-- The texts of each placeholder start differently. -/
def Different (x y : PlaceholderText) : Prop := ∀ dataType name, GoApart (x dataType name) (y dataType name)

/-- `str` of a placeholder. -/
def placeholderText : PlaceholderText := fun _ name => call "param" [name]

/-! ## Printed forms -/

variable [TypeRules Func Model Series]

namespace LogicalExpr

mutual

/-- `str(expr)` with a text for each placeholder. -/
def printedAs (x : PlaceholderText) : LogicalExpr Func Model Series → String
  | .node head children =>
    match head, children with
    | .unresolvedLiteral dataType name, [] => x dataType name
    | _, _ => head.printed (children.map LogicalExpr.head) (printedAllAs x children)

def printedAllAs (x : PlaceholderText) : List (LogicalExpr Func Model Series) → List String
  | [] => []
  | e :: es => printedAs x e :: printedAllAs x es

end

theorem printedAllAs_eq (x : PlaceholderText) (es : List (LogicalExpr Func Model Series)) :
    printedAllAs x es = es.map (printedAs x) := by
  induction es with
  | nil => rfl
  | cons e es ih =>
    show printedAs x e :: printedAllAs x es = _
    rw [ih]
    rfl

/-- The name of `to_column_field` with a text for each placeholder. -/
def columnFieldNameAs (x : PlaceholderText) : LogicalExpr Func Model Series → String
  | .node (.alias name) _ => name
  | .node (.unparameterized .when) [_, value] => columnFieldNameAs x value
  | .node (.unparameterized .when) [_, _, value] => columnFieldNameAs x value
  | .node (.unparameterized .otherwise) [_, value] => columnFieldNameAs x value
  | e => e.printedAs x

/-- The name of a struct field with a text for each placeholder. -/
def fieldNameAs (x : PlaceholderText) (e : LogicalExpr Func Model Series) : String :=
  match e.head with
  | .alias name => name
  | _ => e.printedAs x

/-- Two ways to print placeholders, which tell whether one is printed. -/
def zeros : PlaceholderText := fun _ _ => "0"

def ones : PlaceholderText := fun _ _ => "1"

/-- A placeholder is printed in the name of the column. -/
def namesPlaceholder (e : LogicalExpr Func Model Series) : Bool := e.columnFieldNameAs zeros ≠ e.columnFieldNameAs ones

/-- A placeholder is printed in the name of the field. -/
def fieldNamesPlaceholder (e : LogicalExpr Func Model Series) : Bool := e.fieldNameAs zeros ≠ e.fieldNameAs ones

end LogicalExpr

/-! ## Types -/

/-- The type of a node with a text for each placeholder. -/
def ExprHead.typeAs (x : PlaceholderText) (schema : Schema) (children : List (LogicalExpr Func Model Series))
    (types : List DataType) : ExprHead Func Model Series → Option DataType
  | .unparameterized .struct =>
    if children = [] then none else some (.structType ((children.map (LogicalExpr.fieldNameAs x)).zip types))
  | head => head.logicalType schema children types

namespace LogicalExpr

mutual

/-- The type of an expression with a text for each placeholder. -/
def typeAs (x : PlaceholderText) (schema : Schema) : LogicalExpr Func Model Series → Option DataType
  | .node head children => (typesAs x schema children).bind (head.typeAs x schema children ·)

def typesAs (x : PlaceholderText) (schema : Schema) : List (LogicalExpr Func Model Series) → Option (List DataType)
  | [] => some []
  | e :: es => (typeAs x schema e).bind fun t => (typesAs x schema es).map fun ts => t :: ts

end

/-! ## Names that print a placeholder -/

/-- One of the arguments, or a text in the place of one that is not there. -/
theorem getD_uniform {Choice : Type*} {Related : Choice → Choice → Prop} {α : Type*} {text : α → Choice → String}
    {items : List α} (h : ∀ a ∈ items, Uniform Related (text a)) (i : Nat) (absent : String) :
    Uniform Related fun x => (items.map fun a => text a x).getD i absent := by
  have habsent : Uniform Related fun _ => absent := Uniform.const absent
  cases hi : items[i]? with
  | none => simpa [hi] using habsent
  | some a => simpa [hi] using h a (List.mem_of_getElem? hi)

end LogicalExpr

section

variable {Choice : Type*} {Related : Choice → Choice → Prop} {α : Type*} {text : α → Choice → String} {items : List α}

theorem call_uniform (h : ∀ a ∈ items, Uniform Related (text a)) (name : String) :
    Uniform Related fun x => call name (items.map fun a => text a x) := by
  exact .append (.append (.const _) (Uniform.intercalate ", " text items h)) (.const ")")

theorem UnparameterizedExpr.printed_uniform (h : ∀ a ∈ items, Uniform Related (text a)) (cls : UnparameterizedExpr) :
    Uniform Related fun x => cls.printed (items.map fun a => text a x) := by
  have hargument : ∀ i, Uniform Related fun x => argumentAt (items.map fun a => text a x) i :=
    fun i => LogicalExpr.getD_uniform h i ""
  cases cls with
  | index => exact .append (.append (.append (hargument 0) (.const _)) (hargument 1)) (.const _)
  | not => exact .append (.const _) (hargument 0)
  | isIn => exact .append (.append (hargument 0) (.const _)) (hargument 1)
  | when =>
    show Uniform Related fun x => UnparameterizedExpr.when.printed (items.map fun a => text a x)
    have hchain : Uniform Related fun x => argumentAt (items.map fun a => text a x) 0 ++ " WHEN (" ++
        argumentAt (items.map fun a => text a x) 1 ++ ") THEN (" ++ argumentAt (items.map fun a => text a x) 2 ++ ")" :=
      .append (.append (.append (.append (.append (hargument 0) (.const _)) (hargument 1)) (.const _)) (hargument 2))
        (.const _)
    -- the first branch has two arguments
    rcases items with _ | ⟨condition, _ | ⟨value, _ | ⟨_, _⟩⟩⟩
    · exact hchain
    · exact hchain
    · have hcondition := h condition List.mem_cons_self
      have hvalue := h value (List.mem_cons_of_mem _ List.mem_cons_self)
      exact .append (.append (.append (.append (.const "CASE WHEN (") hcondition) (.const _)) hvalue) (.const _)
    · exact hchain
  | otherwise => exact .append (.append (.append (hargument 0) (.const _)) (hargument 1)) (.const _)
  | _ => exact call_uniform h _

/-- What `semantic.reduce` prints: which of its children are sort orders does not depend on their printed forms. -/
theorem ExprHead.reduceArguments_map (instruction : String) (heads : List (ExprHead Func Model Series)) (f : α → String) :
    ExprHead.reduceArguments instruction heads (items.map f) = argumentAt (items.map f) 0 ::
      ((if (((heads.zip items).drop 1).filter fun child => !child.1.isSort) = [] then []
          else ["group_context=" ++ Printing.contextNames Func Model Series instruction]) ++
        (if (((heads.zip items).drop 1).filter fun child => child.1.isSort) = [] then []
          else ["order_by=" ++ ", ".intercalate
            ((((heads.zip items).drop 1).filter fun child => child.1.isSort).map fun child => f child.2)])) := by
  have hsplit : ∀ p : ExprHead Func Model Series × String → Bool, (∀ child child', child.1 = child'.1 → p child = p child') →
      ((heads.zip (items.map f)).drop 1).filter p = ((((heads.zip items).drop 1).filter fun child =>
        p (child.1, "")).map fun child => (child.1, f child.2)) := by
    intro p hp
    rw [List.zip_map_right, ← List.map_drop, List.filter_map]
    refine congrArg (List.map _) (List.filter_congr fun child _ => ?_)
    exact hp _ _ rfl
  simp only [ExprHead.reduceArguments]
  rw [hsplit (fun child => !child.1.isSort) (fun _ _ heq => by simp only [heq]),
    hsplit (fun child => child.1.isSort) (fun _ _ heq => by simp only [heq])]
  simp only [List.map_eq_nil_iff, List.map_map]
  rfl

omit [TypeRules Func Model Series] in
theorem ExprHead.filter_zip_heads {heads heads' : List (ExprHead Func Model Series)}
    (h : heads.map ExprHead.isSort = heads'.map ExprHead.isSort) (arguments : List String) (p : Bool → Bool) :
    (((heads.zip arguments).drop 1).filter fun child => p child.1.isSort).map Prod.snd =
      (((heads'.zip arguments).drop 1).filter fun child => p child.1.isSort).map Prod.snd := by
  have hflags : ∀ heads : List (ExprHead Func Model Series),
      (((heads.zip arguments).drop 1).filter fun child => p child.1.isSort).map Prod.snd =
        ((((heads.map ExprHead.isSort).zip arguments).drop 1).filter fun child => p child.1).map Prod.snd := by
    intro heads
    rw [List.zip_map_left, ← List.map_drop, List.filter_map, List.map_map]
    rfl
  rw [hflags, hflags, h]

/-- The printed form depends on the classes of the children by the sort orders among them only. -/
theorem ExprHead.printed_heads {heads heads' : List (ExprHead Func Model Series)}
    (h : heads.map ExprHead.isSort = heads'.map ExprHead.isSort) (arguments : List String)
    (head : ExprHead Func Model Series) : head.printed heads arguments = head.printed heads' arguments := by
  cases head with
  | semanticReduce instruction =>
    have hcontext := filter_zip_heads h arguments not
    have horders := filter_zip_heads h arguments id
    have hempty : ∀ l l' : List (ExprHead Func Model Series × String), l.map Prod.snd = l'.map Prod.snd →
        (l = [] ↔ l' = []) := fun l l' heq => by
      rw [← List.map_eq_nil_iff (f := Prod.snd), heq, List.map_eq_nil_iff]
    simp only [id] at horders
    simp only [ExprHead.printed, ExprHead.reduceArguments, hempty _ _ hcontext, hempty _ _ horders, horders]
  | _ => rfl

theorem ExprHead.printed_uniform (h : ∀ a ∈ items, Uniform Related (text a)) (heads : List (ExprHead Func Model Series))
    (head : ExprHead Func Model Series) : Uniform Related fun x => head.printed heads (items.map fun a => text a x) := by
  have hargument : ∀ i, Uniform Related fun x => argumentAt (items.map fun a => text a x) i :=
    fun i => LogicalExpr.getD_uniform h i ""
  have hall : Uniform Related fun x => ", ".intercalate (items.map fun a => text a x) :=
    Uniform.intercalate ", " text items h
  cases head with
  | unparameterized cls => exact cls.printed_uniform h
  | semanticReduce instruction =>
    simp only [ExprHead.printed, ExprHead.reduceArguments_map]
    have horders : Uniform Related fun x => ", ".intercalate ((((heads.zip items).drop 1).filter fun child =>
        child.1.isSort).map fun child => text child.2 x) :=
      Uniform.intercalate ", " (fun child => text child.2) _ fun child hchild =>
        h child.2 (List.of_mem_zip (List.mem_of_mem_drop (List.mem_of_mem_filter hchild))).2
    split <;> split <;>
      · simp only [call, List.nil_append, List.singleton_append, String.intercalate_cons_cons, String.intercalate_singleton]
        repeat' first | exact Uniform.const _ | exact hargument _ | exact horders | apply Uniform.append
  | embeddingSimilarity metric query =>
    have hother : Uniform Related fun x =>
        if query.isSome then "query_vector" else argumentAt (items.map fun a => text a x) 1 := by
      cases query with
      | none => exact hargument 1
      | some query => exact Uniform.const _
    repeat' first | exact Uniform.const _ | exact hargument _ | exact hother | apply Uniform.append
  | stripChars side =>
    have hchars := LogicalExpr.getD_uniform h 1 "None"
    repeat' first | exact Uniform.const _ | exact hargument _ | exact hchars | apply Uniform.append
  | _ =>
    repeat' first | exact Uniform.const _ | exact hargument _ | exact hall | apply Uniform.append

end

namespace LogicalExpr

theorem printedAs_node {head : ExprHead Func Model Series} {children : List (LogicalExpr Func Model Series)}
    (h : ∀ dataType name, head = .unresolvedLiteral dataType name → children ≠ []) (x : PlaceholderText) :
    printedAs x (.node head children) = head.printed (children.map LogicalExpr.head) (children.map (printedAs x)) := by
  unfold printedAs
  split
  next dataType name => exact absurd rfl (h dataType name rfl)
  next => rw [printedAllAs_eq]

mutual

/-- **The printed form tells all ways to print placeholders apart, or none.** -/
theorem printedAs_uniform : ∀ e : LogicalExpr Func Model Series, Uniform Different fun x => e.printedAs x
  | .node head children => by
    by_cases hplaceholder : ∃ dataType name, head = .unresolvedLiteral dataType name ∧ children = []
    · obtain ⟨dataType, name, rfl, rfl⟩ := hplaceholder
      exact Or.inr fun x y hxy => hxy dataType name
    · have hprinted : Uniform Different fun x => head.printed (children.map LogicalExpr.head) (children.map (printedAs x)) :=
        ExprHead.printed_uniform (printedAllAs_uniform children) (children.map LogicalExpr.head) head
      simp only [printedAs_node fun dataType name heq hempty => hplaceholder ⟨dataType, name, heq, hempty⟩]
      exact hprinted

theorem printedAllAs_uniform : ∀ es : List (LogicalExpr Func Model Series), ∀ e ∈ es, Uniform Different fun x => e.printedAs x
  | [], _, he => absurd he List.not_mem_nil
  | e' :: es, e, he => by
    rcases List.mem_cons.mp he with heq | he
    · rw [heq]
      exact printedAs_uniform e'
    · exact printedAllAs_uniform es e he

end

theorem columnFieldNameAs_uniform (e : LogicalExpr Func Model Series) :
    Uniform Different fun x => e.columnFieldNameAs x := by
  induction e using columnFieldName.induct with
  | case1 name children => exact Uniform.const name
  | case2 condition value ih => exact ih
  | case3 case condition value ih => exact ih
  | case4 case value ih => exact ih
  | case5 e halias hwhen hchain hotherwise =>
    have heq : ∀ x, e.columnFieldNameAs x = e.printedAs x := fun x => by
      rw [columnFieldNameAs] <;> assumption
    simp only [heq]
    exact printedAs_uniform e

theorem zeros_different_ones : Different zeros ones := by
  have happart : GoApart "0" "1" := ⟨[], '0', '1', [], [], by decide, by decide, by decide⟩
  exact fun _ _ => happart

/-- **The name of a column changes with the texts of placeholders when one is printed in it, and only then.** -/
theorem columnFieldNameAs_eq_iff {x y : PlaceholderText} (h : Different x y) {e : LogicalExpr Func Model Series} :
    e.columnFieldNameAs x = e.columnFieldNameAs y ↔ e.namesPlaceholder = false := by
  rw [(columnFieldNameAs_uniform e).eq_iff h zeros_different_ones]
  simp [namesPlaceholder]

/-! ## Types that do not change -/

/-! ## Placeholders as they print -/

mutual

theorem printedAs_placeholderText : ∀ e : LogicalExpr Func Model Series, e.printedAs placeholderText = e.printed
  | .node head children => by
    by_cases hplaceholder : ∃ dataType name, head = .unresolvedLiteral dataType name ∧ children = []
    · obtain ⟨dataType, name, rfl, rfl⟩ := hplaceholder
      rfl
    · rw [printedAs_node (fun dataType name heq hempty => hplaceholder ⟨dataType, name, heq, hempty⟩), printed_node,
        map_printedAs_placeholderText children]

theorem map_printedAs_placeholderText : ∀ es : List (LogicalExpr Func Model Series),
    es.map (printedAs placeholderText) = es.map printed
  | [] => rfl
  | e :: es => by
    rw [List.map_cons, List.map_cons, printedAs_placeholderText e, map_printedAs_placeholderText es]

end

theorem columnFieldNameAs_placeholderText (e : LogicalExpr Func Model Series) :
    e.columnFieldNameAs placeholderText = e.columnFieldName := by
  fun_induction columnFieldName e with
  | case1 name children => rfl
  | case2 condition value ih => exact ih
  | case3 case condition value ih => exact ih
  | case4 case value ih => exact ih
  | case5 e halias hwhen hchain hotherwise =>
    rw [columnFieldNameAs] <;> first | assumption | exact printedAs_placeholderText e

end LogicalExpr

end

end Expressions

end Fenic
