import Fenic.Expressions.Extent
import Fenic.Lib.Rows

/-!
# `Expressions.RowWise` — when a projection has the rows of its input

`Projection` checks the roots of its expressions for sort orders and aggregates. `ProjectionExec.executeNode` gives the
number of rows of its result; `executeNode_iff` says when it is that of the input: no aggregate is left below the roots,
and something in the list has a value for each row.

The proof goes by the extent of one expression (`ExtentSpec`), which is as long as the frame, or single, or is too long
because of a series literal.
-/

namespace Fenic

namespace Expressions

variable {Func Model Series : Type}

/-! ## Projections -/

inductive ScalarExprError where
  | sortExpr (functionName : String)
  | aggregateExpr (functionName : String)
  deriving DecidableEq

/-- `validate_scalar_expr`. -/
def validateScalarExpr (expr : LogicalExpr Func Model Series) (functionName : String) : Except ScalarExprError Unit :=
  match expr.head with
  | .sort _ _ => .error (.sortExpr functionName)
  | head => if head.isAggregate then .error (.aggregateExpr functionName) else .ok ()

/-- An accepted `Projection`. -/
structure Projection (Func Model Series : Type) where
  exprs : List (LogicalExpr Func Model Series)
  valid : ∀ e ∈ exprs, validateScalarExpr e "projection" = .ok ()

namespace LogicalExpr

/-- The series of `_build_series_literal_check`, below any aliases. -/
def seriesLiteral? : LogicalExpr Func Model Series → Option Series
  | .node (.seriesLiteral series) _ => some series
  | .node (.alias _) [e] => seriesLiteral? e
  | _ => none

/-- `meta.is_column()` of the converted expression, and its name. -/
def columnName? : LogicalExpr Func Model Series → Option String
  | .node (.column name) [] => some name
  | _ => none

end LogicalExpr

section

variable [Heights Func Model Series]

namespace Projection

/-- The lengths of `series_literal_checks`. -/
def expectedLengths (p : Projection Func Model Series) : List Nat :=
  ((p.exprs.filterMap LogicalExpr.seriesLiteral?).map (Heights.seriesLength Func Model)).filter (1 < ·)

/-- The number of rows of `ProjectionExec.execute_node` over a frame of the given columns and number of rows. -/
def executeNode (p : Projection Func Model Series) (columns : List String) (n : Nat) : Option Nat :=
  if ∃ length ∈ p.expectedLengths, length ≠ n then none
  else if p.exprs.map LogicalExpr.columnName? = columns.map some then some n
  else (LogicalExpr.extents n p.exprs).bind selectRows

end Projection

/-! ## Nodes -/

namespace ExprHead

/-- The node has a value of its own for each row. -/
def readsRows : ExprHead Func Model Series → Bool
  | .column _ => true
  | .seriesLiteral series => Heights.seriesLength Func Model series ≠ 1
  | _ => false

/-- The node makes a single value of single values. -/
def keepsSingle : ExprHead Func Model Series → Bool
  | .column _ => true
  | .literal _ => true
  | .now _ => true
  | .seriesLiteral _ => true
  | .alias _ => true
  | head => Heights.givesSingle head

/-- The node is converted and fits a frame of `n` rows: a leaf has no children and anything else has some, a series has one
    value or as many as there are rows. -/
def fits (n : Nat) (head : ExprHead Func Model Series) (arity : Nat) : Bool :=
  match head with
  | .column _ => arity = 0
  | .literal _ => arity = 0
  | .now _ => arity = 0
  | .seriesLiteral series =>
    arity = 0 ∧ (Heights.seriesLength Func Model series = 1 ∨ Heights.seriesLength Func Model series = n)
  | .unresolvedLiteral _ _ => false
  | .sort _ _ => false
  | head => !head.isAggregate && arity ≠ 0

/-- The classes that are converted without their children, or not at all. -/
def isLeaf : ExprHead Func Model Series → Bool
  | .column _ => true
  | .literal _ => true
  | .now _ => true
  | .seriesLiteral _ => true
  | .unresolvedLiteral _ _ => true
  | .sort _ _ => true
  | _ => false

variable {head : ExprHead Func Model Series}

theorem extent_eq_combine (hleaf : head.isLeaf = false) (haggregate : head.isAggregate = false) (n : Nat)
    (children : List Extent) : head.extent n children = combine head.keepsSingle children := by
  have hfunction : (if head.isAggregate then some Extent.value else combine (Heights.givesSingle head) children) =
      combine (Heights.givesSingle head) children := if_neg (by simp [haggregate])
  cases head with
  | unparameterized cls => cases cls <;> first | exact hfunction | cases haggregate
  | column | literal | now | seriesLiteral | unresolvedLiteral | sort => cases hleaf
  -- an alias is a function of its own
  | _ => first | exact hfunction | rfl

theorem fits_function (hleaf : head.isLeaf = false) (haggregate : head.isAggregate = false) (n arity : Nat) :
    head.fits n arity = decide (arity ≠ 0) := by
  cases head with
  | column | literal | now | seriesLiteral | unresolvedLiteral | sort => cases hleaf
  | _ => simp_all [fits]

theorem readsRows_function (hleaf : head.isLeaf = false) : head.readsRows = false := by
  cases head with
  | column => cases hleaf
  | seriesLiteral => cases hleaf
  | _ => rfl

end ExprHead

namespace LogicalExpr

/-- Something in the expression has a value of its own for each row. -/
def readsRows (e : LogicalExpr Func Model Series) : Bool := e.any ExprHead.readsRows

/-- Every node makes a single value of single values. -/
def keepsSingle (e : LogicalExpr Func Model Series) : Bool := e.all fun head _ => head.keepsSingle

/-- Every node is converted and fits a frame of `n` rows. -/
def fits (n : Nat) (e : LogicalExpr Func Model Series) : Bool := e.all (ExprHead.fits n)

omit [Heights Func Model Series] in
/-- An aggregate at any depth. -/
def hasAggregate (e : LogicalExpr Func Model Series) : Bool := e.any ExprHead.isAggregate

theorem readsRows_node (head : ExprHead Func Model Series) (children : List (LogicalExpr Func Model Series)) :
    readsRows (.node head children) = (head.readsRows || children.any readsRows) :=
  congrArg (head.readsRows || ·) (anyChild_eq _ children)

theorem keepsSingle_node (head : ExprHead Func Model Series) (children : List (LogicalExpr Func Model Series)) :
    keepsSingle (.node head children) = (head.keepsSingle && children.all keepsSingle) :=
  congrArg (head.keepsSingle && ·) (allChildren_eq _ children)

theorem fits_node (n : Nat) (head : ExprHead Func Model Series) (children : List (LogicalExpr Func Model Series)) :
    fits n (.node head children) = (head.fits n children.length && children.all (fits n)) :=
  congrArg (head.fits n children.length && ·) (allChildren_eq _ children)

/-- The extent of an expression that fits: a value for each row, or a single one, or a column of length one. -/
def fittingExtent (n : Nat) (e : LogicalExpr Func Model Series) : Extent :=
  ⟨if e.readsRows then n else 1, !e.readsRows && e.keepsSingle⟩

end LogicalExpr

/-! ## Extents -/

/-- The extent of an expression without aggregates is the fitting one, or, if a series in it is of another length, a length
    that is neither one nor that of the frame. -/
def ExtentSpec (n : Nat) (e : LogicalExpr Func Model Series) (x : Extent) : Prop :=
  (e.fits n = true ∧ x = e.fittingExtent n) ∨ (e.fits n = false ∧ x.single = false ∧ x.rows ≠ 1 ∧ x.rows ≠ n)

variable {es : List (LogicalExpr Func Model Series)}

/-- The extent of a function whose arguments all fit. -/
theorem combine_of_fits (n : Nat) (hne : es ≠ []) (keeps : Bool) :
    combine keeps (es.map (LogicalExpr.fittingExtent n)) = some ⟨if es.any LogicalExpr.readsRows then n else 1,
      !es.any LogicalExpr.readsRows && (keeps && es.all LogicalExpr.keepsSingle)⟩ := by
  have hrows : broadcastRows (es.map (LogicalExpr.fittingExtent n)) =
      some (if es.any LogicalExpr.readsRows then n else 1) := by
    rw [broadcastRows_eq_some]
    constructor
    · intro x hx
      obtain ⟨e, he, rfl⟩ := List.mem_map.mp hx
      cases hreads : e.readsRows with
      | false => exact Or.inl (by simp [LogicalExpr.fittingExtent, hreads])
      | true =>
        have hany : es.any LogicalExpr.readsRows = true := List.any_eq_true.mpr ⟨e, he, hreads⟩
        exact Or.inr (by simp [LogicalExpr.fittingExtent, hreads, hany])
    · cases hany : es.any LogicalExpr.readsRows with
      | false => exact Or.inl rfl
      | true =>
        obtain ⟨e, he, hreads⟩ := List.any_eq_true.mp hany
        exact Or.inr ⟨_, List.mem_map_of_mem he, by simp [LogicalExpr.fittingExtent, hreads]⟩
  have hsingle : (es.map (LogicalExpr.fittingExtent n)).all Extent.single =
      (!es.any LogicalExpr.readsRows && es.all LogicalExpr.keepsSingle) := by
    rw [Bool.eq_iff_iff]
    simp only [List.all_map, List.all_eq_true, Function.comp_apply, LogicalExpr.fittingExtent, Bool.and_eq_true,
      Bool.not_eq_true', List.any_eq_false]
    grind
  rw [combine, if_neg (by simpa using hne), hrows, hsingle]
  simp [Bool.and_left_comm]

variable {xs : List Extent}

/-- The extent of a function of which an argument does not fit. -/
theorem combine_of_not_fits {n : Nat} {x : Extent}
    (h : List.Forall₂ (ExtentSpec n) es xs) (hfits : ∃ e ∈ es, e.fits n = false) {keeps : Bool}
    (hx : combine keeps xs = some x) : x.single = false ∧ x.rows ≠ 1 ∧ x.rows ≠ n := by
  obtain ⟨e, he, hfit⟩ := hfits
  obtain ⟨y, hy, hspec⟩ := Rows.exists_right_of_forall₂ h he
  rcases hspec with ⟨hfit', -⟩ | ⟨-, hsingle, hone, hn⟩
  · rw [hfit] at hfit'
    cases hfit'
  rw [combine] at hx
  split at hx
  · cases hx
  · obtain ⟨rows, hrows, rfl⟩ := Option.map_eq_some_iff.mp hx
    obtain ⟨hall, -⟩ := broadcastRows_eq_some.mp hrows
    obtain rfl : y.rows = rows := (hall y hy).resolve_left hone
    refine ⟨?_, hone, hn⟩
    show (keeps && xs.all Extent.single) = false
    rw [Bool.and_eq_false_iff, List.all_eq_false]
    exact Or.inr ⟨y, hy, by simp [hsingle]⟩

theorem eq_fittingExtents {n : Nat}
    (h : List.Forall₂ (ExtentSpec n) es xs) (hfits : ∀ e ∈ es, e.fits n = true) : xs = es.map (LogicalExpr.fittingExtent n) := by
  induction h with
  | nil => rfl
  | cons hspec _ ih =>
    rw [List.map_cons, ← ih fun e he => hfits e (List.mem_cons_of_mem _ he)]
    rcases hspec with ⟨-, rfl⟩ | ⟨hfit, -⟩
    · rfl
    · rw [hfits _ List.mem_cons_self] at hfit
      cases hfit

/-- The extent of a leaf. -/
theorem leaf_spec {n : Nat} {head : ExprHead Func Model Series} (hleaf : head.isLeaf = true)
    {children : List (LogicalExpr Func Model Series)} (hlength : children.length = xs.length) {x : Extent}
    (hx : head.extent n xs = some x) : ExtentSpec n (.node head children) x := by
  have hnil : xs = [] → children = [] := by
    rintro rfl
    exact List.length_eq_zero_iff.mp hlength
  cases head with
  | column _ | literal _ | now _ =>
    obtain ⟨hxs, hx⟩ := Option.ite_none_right_eq_some.mp hx
    cases hx
    rw [hnil hxs]
    exact Or.inl ⟨rfl, rfl⟩
  | seriesLiteral series =>
    obtain ⟨hxs, hx⟩ := Option.ite_none_right_eq_some.mp hx
    cases hx
    rw [hnil hxs]
    rw [ExtentSpec, LogicalExpr.fittingExtent, LogicalExpr.fits_node, LogicalExpr.readsRows_node,
      LogicalExpr.keepsSingle_node]
    by_cases hone : Heights.seriesLength Func Model series = 1
    · simp [hone, ExprHead.fits, ExprHead.readsRows, ExprHead.keepsSingle, Extent.value]
    · by_cases hn : Heights.seriesLength Func Model series = n
      · simp [hn, ExprHead.fits, ExprHead.readsRows]
        grind
      · simp [hone, hn, ExprHead.fits]
  | unresolvedLiteral => cases hx
  | sort => cases hx
  | _ => cases hleaf

mutual

/-- **The extent of an expression without aggregates.** -/
theorem extent_spec (n : Nat) : ∀ (e : LogicalExpr Func Model Series) (x : Extent),
    e.hasAggregate = false → e.extent n = some x → ExtentSpec n e x
  | .node head children, x, haggregate, hx => by
    obtain ⟨hhead, hchildren⟩ := Bool.or_eq_false_iff.mp haggregate
    obtain ⟨xs, hxs, hx⟩ := Option.bind_eq_some_iff.mp hx
    have hspecs := extents_spec n children xs hchildren hxs
    cases hleaf : head.isLeaf with
    | true => exact leaf_spec hleaf hspecs.length_eq hx
    | false =>
      rw [ExprHead.extent_eq_combine hleaf hhead] at hx
      have hne : children ≠ [] := by
        rintro rfl
        cases hspecs
        cases hx
      have harity : head.fits n children.length = true := by
        rw [ExprHead.fits_function hleaf hhead]
        simpa using hne
      by_cases hfits : ∀ e ∈ children, e.fits n = true
      · rw [eq_fittingExtents hspecs hfits, combine_of_fits n hne] at hx
        refine Or.inl ⟨?_, ?_⟩
        · rw [LogicalExpr.fits_node, harity, Bool.true_and, List.all_eq_true]
          exact hfits
        · rw [← Option.some_inj, ← hx, LogicalExpr.fittingExtent, LogicalExpr.readsRows_node,
            LogicalExpr.keepsSingle_node, ExprHead.readsRows_function hleaf, Bool.false_or]
      · have hnot : ∃ e ∈ children, e.fits n = false := by simpa using hfits
        refine Or.inr ⟨?_, combine_of_not_fits hspecs hnot hx⟩
        rw [LogicalExpr.fits_node, harity, Bool.true_and, List.all_eq_false]
        exact hnot.imp fun e he => ⟨he.1, by simp [he.2]⟩

theorem extents_spec (n : Nat) : ∀ (es : List (LogicalExpr Func Model Series)) (xs : List Extent),
    LogicalExpr.anyChild ExprHead.isAggregate es = false → LogicalExpr.extents n es = some xs →
      List.Forall₂ (ExtentSpec n) es xs
  | [], xs, _, hxs => by
    cases hxs
    exact .nil
  | e :: es, xs, haggregate, hxs => by
    obtain ⟨he, hes⟩ := Bool.or_eq_false_iff.mp haggregate
    obtain ⟨x, hx, hxs⟩ := Option.bind_eq_some_iff.mp hxs
    obtain ⟨xs', hxs', rfl⟩ := Option.map_eq_some_iff.mp hxs
    exact .cons (extent_spec n e x he hx) (extents_spec n es xs' hes hxs')

end


theorem not_aggregate_of_fits {n arity : Nat} {head : ExprHead Func Model Series} (h : head.fits n arity = true) :
    head.isAggregate = false := by
  cases head with
  | unparameterized cls => simpa using (Bool.and_eq_true_iff.mp h).1
  | countDistinct => cases h
  | semanticReduce => cases h
  | _ => rfl

theorem leaf_of_fits {n : Nat} {head : ExprHead Func Model Series} (hleaf : head.isLeaf = true)
    {children : List (LogicalExpr Func Model Series)} (h : head.fits n children.length = true) :
    children = [] ∧ ∃ x, head.extent n [] = some x := by
  cases head with
  | column | literal | now => exact ⟨List.length_eq_zero_iff.mp (of_decide_eq_true h), _, rfl⟩
  | seriesLiteral => exact ⟨List.length_eq_zero_iff.mp (of_decide_eq_true h).1, _, rfl⟩
  | unresolvedLiteral => cases h
  | sort => cases h
  | _ => cases hleaf

mutual

/-- An expression that fits has an extent, and no aggregate. -/
theorem extent_of_fits (n : Nat) : ∀ e : LogicalExpr Func Model Series, e.fits n = true →
    (∃ x, e.extent n = some x) ∧ e.hasAggregate = false
  | .node head children, hfits => by
    obtain ⟨hhead, hchildren⟩ := Bool.and_eq_true_iff.mp hfits
    obtain ⟨⟨xs, hxs⟩, hnone⟩ := extents_of_fits n children hchildren
    have haggregate := not_aggregate_of_fits hhead
    refine ⟨?_, Bool.or_eq_false_iff.mpr ⟨haggregate, hnone⟩⟩
    cases hleaf : head.isLeaf with
    | true =>
      obtain ⟨rfl, x, hx⟩ := leaf_of_fits hleaf hhead
      exact ⟨x, hx⟩
    | false =>
      have hne : children ≠ [] := by
        rw [ExprHead.fits_function hleaf haggregate] at hhead
        simpa using hhead
      have hspecs := extents_spec n children xs hnone hxs
      have hall : ∀ e ∈ children, e.fits n = true := by
        rw [LogicalExpr.allChildren_eq, List.all_eq_true] at hchildren
        exact hchildren
      have hx := combine_of_fits n hne head.keepsSingle
      rw [← eq_fittingExtents hspecs hall, ← ExprHead.extent_eq_combine hleaf haggregate] at hx
      exact ⟨_, Option.bind_eq_some_iff.mpr ⟨xs, hxs, hx⟩⟩

theorem extents_of_fits (n : Nat) : ∀ es : List (LogicalExpr Func Model Series),
    LogicalExpr.allChildren (ExprHead.fits n) es = true →
      (∃ xs, LogicalExpr.extents n es = some xs) ∧ LogicalExpr.anyChild ExprHead.isAggregate es = false
  | [], _ => ⟨⟨[], rfl⟩, rfl⟩
  | e :: es, hfits => by
    obtain ⟨he, hes⟩ := Bool.and_eq_true_iff.mp hfits
    obtain ⟨⟨x, hx⟩, hnone⟩ := extent_of_fits n e he
    obtain ⟨⟨xs, hxs⟩, hnones⟩ := extents_of_fits n es hes
    refine ⟨⟨x :: xs, ?_⟩, Bool.or_eq_false_iff.mpr ⟨hnone, hnones⟩⟩
    show ((LogicalExpr.extent n e).bind fun x => (LogicalExpr.extents n es).map fun xs => x :: xs) = _
    rw [hx, hxs]
    rfl

end

/-! ## Row-wise projections -/

namespace Projection

variable (p : Projection Func Model Series) (columns : List String) (n : Nat)

/-- Every node of the projection fits the frame, and, unless the frame has one row, some expression has a value for each
    row and any other is a single value. -/
def IsRowWise : Prop :=
  (∀ e ∈ p.exprs, e.fits n = true) ∧ (p.exprs = [] → n = 0 ∨ columns = []) ∧
    (n = 1 ∨ p.exprs = [] ∨
      ((∃ e ∈ p.exprs, e.readsRows = true) ∧ ∀ e ∈ p.exprs, e.readsRows = true ∨ e.keepsSingle = true))

end Projection

theorem seriesLiteral_fits {n : Nat} {e : LogicalExpr Func Model Series} {series : Series} (hfits : e.fits n = true)
    (hseries : e.seriesLiteral? = some series) :
    Heights.seriesLength Func Model series = 1 ∨ Heights.seriesLength Func Model series = n := by
  fun_induction LogicalExpr.seriesLiteral? e with
  | case1 series' children =>
    cases hseries
    exact (of_decide_eq_true (Bool.and_eq_true_iff.mp hfits).1).2
  | case2 name e ih =>
    rw [LogicalExpr.fits_node, List.all_cons] at hfits
    exact ih (Bool.and_eq_true_iff.mp (Bool.and_eq_true_iff.mp hfits).2).1 hseries
  | case3 => cases hseries

omit [Heights Func Model Series] in
theorem eq_column_of_columnName {e : LogicalExpr Func Model Series} {name : String} (h : e.columnName? = some name) :
    e = .node (.column name) [] := by
  unfold LogicalExpr.columnName? at h
  split at h
  · cases h
    rfl
  · cases h

namespace Projection

variable {p : Projection Func Model Series} {columns : List String} {n : Nat}

/-- A projection that fits passes the checks of its series literals. -/
theorem checks_of_fits (hfits : ∀ e ∈ p.exprs, e.fits n = true) : ¬ ∃ length ∈ p.expectedLengths, length ≠ n := by
  rintro ⟨length, hlength, hne⟩
  obtain ⟨hmem, hlong⟩ := List.mem_filter.mp hlength
  obtain ⟨series, hseries, rfl⟩ := List.mem_map.mp hmem
  obtain ⟨e, he, hseries⟩ := List.mem_filterMap.mp hseries
  rcases seriesLiteral_fits (hfits e he) hseries with hone | hn
  · rw [hone] at hlong
    cases hlong
  · exact hne hn

/-- The columns of the frame in their order are row-wise. -/
theorem isRowWise_of_identity (hidentity : p.exprs.map LogicalExpr.columnName? = columns.map some) :
    p.IsRowWise columns n := by
  have hcolumn : ∀ e ∈ p.exprs, ∃ name, e = .node (.column name) [] := by
    intro e he
    have hmem : e.columnName? ∈ columns.map some := hidentity ▸ List.mem_map_of_mem he
    obtain ⟨name, -, hname⟩ := List.mem_map.mp hmem
    exact ⟨name, eq_column_of_columnName hname.symm⟩
  have hreads : ∀ e ∈ p.exprs, e.readsRows = true := by
    intro e he
    obtain ⟨name, rfl⟩ := hcolumn e he
    rfl
  refine ⟨fun e he => ?_, fun hempty => ?_, ?_⟩
  · obtain ⟨name, rfl⟩ := hcolumn e he
    rfl
  · rw [hempty] at hidentity
    exact Or.inr (List.map_eq_nil_iff.mp hidentity.symm)
  · by_cases hempty : p.exprs = []
    · exact Or.inr (Or.inl hempty)
    · obtain ⟨e, he⟩ := List.exists_mem_of_ne_nil _ hempty
      exact Or.inr (Or.inr ⟨⟨e, he, hreads e he⟩, fun e he => Or.inl (hreads e he)⟩)

/-- A selection of expressions that fit has the rows of the frame exactly when it is row-wise. -/
theorem selectRows_iff (hfits : ∀ e ∈ p.exprs, e.fits n = true)
    (hidentity : p.exprs.map LogicalExpr.columnName? ≠ columns.map some) :
    selectRows (p.exprs.map (LogicalExpr.fittingExtent n)) = some n ↔ p.IsRowWise columns n := by
  rw [selectRows_eq_some]
  constructor
  · rintro ⟨hall, hsome⟩
    refine ⟨hfits, fun hempty => ?_, ?_⟩
    · rcases hsome with ⟨x, hx, -⟩ | ⟨-, hn⟩ | ⟨hne, -⟩
      · rw [hempty] at hx
        cases hx
      · exact Or.inl hn
      · exact absurd (by rw [hempty]; rfl) hne
    · by_cases hone : n = 1
      · exact Or.inl hone
      have hreads : ∀ e ∈ p.exprs, e.readsRows = true ∨ e.keepsSingle = true := by
        intro e he
        rcases hall _ (List.mem_map_of_mem he) with hsingle | hrows
        · exact Or.inr (Bool.and_eq_true_iff.mp hsingle).2
        · refine Or.inl (by_contra fun hreads => hone ?_)
          rw [← hrows]
          exact if_neg hreads
      rcases hsome with ⟨x, hx, hcolumn⟩ | ⟨hempty, -⟩ | ⟨-, -, hn⟩
      · obtain ⟨e, he, rfl⟩ := List.mem_map.mp hx
        have hrows := (hall _ hx).resolve_left (by simp [hcolumn])
        refine Or.inr (Or.inr ⟨⟨e, he, by_contra fun hreads => hone ?_⟩, hreads⟩)
        rw [← hrows]
        exact if_neg hreads
      · exact Or.inr (Or.inl (List.map_eq_nil_iff.mp hempty))
      · exact absurd hn hone
  · rintro ⟨-, hempty, hshape⟩
    have hall : ∀ x ∈ p.exprs.map (LogicalExpr.fittingExtent n), x.single = true ∨ x.rows = n := by
      intro x hx
      obtain ⟨e, he, rfl⟩ := List.mem_map.mp hx
      rw [LogicalExpr.fittingExtent]
      cases hreads : e.readsRows with
      | true => exact Or.inr rfl
      | false =>
        rcases hshape with rfl | hnil | ⟨-, hkeeps⟩
        · exact Or.inr rfl
        · rw [hnil] at he
          cases he
        · exact Or.inl (by simpa [hreads] using hkeeps e he)
    refine ⟨hall, ?_⟩
    by_cases hnil : p.exprs = []
    · rcases hempty hnil with hn | hcolumns
      · exact Or.inr (Or.inl ⟨by rw [hnil]; rfl, hn⟩)
      · rw [hnil, hcolumns] at hidentity
        exact absurd rfl hidentity
    · by_cases hcolumn : ∃ x ∈ p.exprs.map (LogicalExpr.fittingExtent n), x.single = false
      · exact Or.inl hcolumn
      · have hsingle : ∀ x ∈ p.exprs.map (LogicalExpr.fittingExtent n), x.single = true := by simpa using hcolumn
        rcases hshape with hn | hnil' | ⟨⟨e, he, hreads⟩, -⟩
        · exact Or.inr (Or.inr ⟨by simpa using hnil, hsingle, hn⟩)
        · exact absurd hnil' hnil
        · have hvalue := hsingle _ (List.mem_map_of_mem he)
          simp [LogicalExpr.fittingExtent, hreads] at hvalue

end Projection

/-- **A projection has the rows of its input, and no aggregate at any depth, exactly when it is row-wise.** -/
theorem executeNode_iff (p : Projection Func Model Series) (columns : List String) (n : Nat) :
    (p.executeNode columns n = some n ∧ ∀ e ∈ p.exprs, e.hasAggregate = false) ↔ p.IsRowWise columns n := by
  constructor
  · rintro ⟨hrows, haggregate⟩
    rw [Projection.executeNode] at hrows
    split at hrows
    · cases hrows
    split at hrows
    next hidentity => exact Projection.isRowWise_of_identity hidentity
    next hidentity =>
        obtain ⟨xs, hxs, hselect⟩ := Option.bind_eq_some_iff.mp hrows
        have hnone : LogicalExpr.anyChild ExprHead.isAggregate p.exprs = false := by
          rw [LogicalExpr.anyChild_eq, List.any_eq_false]
          exact fun e he => by simpa [LogicalExpr.hasAggregate] using haggregate e he
        have hspecs := extents_spec n p.exprs xs hnone hxs
        have hfits : ∀ e ∈ p.exprs, e.fits n = true := by
          intro e he
          obtain ⟨x, hx, hspec⟩ := Rows.exists_right_of_forall₂ hspecs he
          rcases hspec with ⟨hfit, -⟩ | ⟨-, hcolumn, -, hlength⟩
          · exact hfit
          · have hall := (selectRows_eq_some.mp hselect).1 x hx
            simp [hcolumn, hlength] at hall
        rw [eq_fittingExtents hspecs hfits] at hselect
        exact (Projection.selectRows_iff hfits hidentity).mp hselect
  · intro hrowWise
    have hfits := hrowWise.1
    have hallFit : LogicalExpr.allChildren (ExprHead.fits n) p.exprs = true := by
      rw [LogicalExpr.allChildren_eq, List.all_eq_true]
      exact hfits
    obtain ⟨⟨xs, hxs⟩, hnone⟩ := extents_of_fits n p.exprs hallFit
    refine ⟨?_, fun e he => (extent_of_fits n e (hfits e he)).2⟩
    rw [Projection.executeNode, if_neg (Projection.checks_of_fits hfits)]
    split
    next => rfl
    next hidentity =>
        rw [hxs, Option.bind_some, eq_fittingExtents (extents_spec n p.exprs xs hnone hxs) hfits]
        exact (Projection.selectRows_iff hfits hidentity).mpr hrowWise

end

/-! ## A sum under an alias -/

section

/-- Series are their lengths, and no function of single values gives a single value. -/
local instance : Heights Empty Empty Nat where
  seriesLength := id
  givesSingle _ := false

/-- `select(sum(col("a")).alias("s"))`. -/
def sumOfA : Projection Empty Empty Nat where
  exprs := [.node (.alias "s") [.node (.unparameterized .sum) [.node (.column "a") []]]]
  valid e he := by
    rw [List.mem_singleton.mp he]
    rfl

/-- `select(lit(1).alias("one"))`. -/
def literalOne : Projection Empty Empty Nat where
  exprs := [.node (.alias "one") [.node (.literal (.integer 1)) []]]
  valid e he := by
    rw [List.mem_singleton.mp he]
    rfl

/-- Both selections make one row of two, and the first has an aggregate that the check of the roots does not see. -/
theorem sumOfA_literalOne_not_rowWise :
    ¬ (sumOfA.executeNode ["a"] 2 = some 2 ∧ ∀ e ∈ sumOfA.exprs, e.hasAggregate = false) ∧
      sumOfA.executeNode ["a"] 2 = some 1 ∧ literalOne.executeNode ["a"] 2 = some 1 ∧
      literalOne.executeNode ["a"] 0 = some 1 := by
  refine ⟨?_, by decide, by decide, by decide⟩
  rintro ⟨hrows, -⟩
  exact absurd hrows (by decide)

end

end Expressions

end Fenic
