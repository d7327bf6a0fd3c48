import Fenic.Expressions.LogicalExpr

/-!
# `Expressions.Extent` — how many values an expression has

What the engine computes for an expression over a frame of `n` rows is a column of some length, or a single value that
stands for as many rows as are asked for. A column has one value for each row, a literal and an aggregate are single
values, and a function has the values of its arguments. What the engine takes a function of single values for, again a
single value or a column of length one, is left open.
-/

namespace Fenic

namespace Expressions

/-- The length of a series, and which functions of single values give a single value. -/
class Heights (Func Model Series : Type) where
  seriesLength : Series → Nat
  givesSingle : ExprHead Func Model Series → Bool

/-- How many values there are, and whether the one value stands for any number. -/
structure Extent where
  rows : Nat
  single : Bool
  deriving DecidableEq

/-- The extent of a single value. -/
def Extent.value : Extent := ⟨1, true⟩

/-- The common length of columns, of which those of length one are repeated. -/
def broadcastRows (extents : List Extent) : Option Nat :=
  match extents.filter fun x => x.rows ≠ 1 with
  | [] => some 1
  | x :: xs => if ∀ y ∈ xs, y.rows = x.rows then some x.rows else none

/-- The extent of a function; there is none without arguments. -/
def combine (givesSingle : Bool) (extents : List Extent) : Option Extent :=
  if extents = [] then none
  else (broadcastRows extents).map fun rows => ⟨rows, givesSingle && extents.all Extent.single⟩

/-- The length of a selection: that of its columns, which have one length. -/
def selectRows (extents : List Extent) : Option Nat :=
  match extents.filter fun x => !x.single with
  | [] => some (if extents = [] then 0 else 1)
  | x :: xs => if ∀ y ∈ xs, y.rows = x.rows then some x.rows else none

/-- Lengths are common when each is one or the common one. -/
theorem broadcastRows_eq_some {extents : List Extent} {rows : Nat} :
    broadcastRows extents = some rows ↔
      (∀ x ∈ extents, x.rows = 1 ∨ x.rows = rows) ∧ (rows = 1 ∨ ∃ x ∈ extents, x.rows = rows) := by
  have hmem : ∀ x, x ∈ extents.filter (fun x => x.rows ≠ 1) ↔ x ∈ extents ∧ x.rows ≠ 1 := by simp
  unfold broadcastRows
  cases hfilter : extents.filter fun x => x.rows ≠ 1 with
  | nil =>
    rw [hfilter] at hmem
    have hone : ∀ x ∈ extents, x.rows = 1 := fun x hx => by
      by_contra hne
      exact absurd ((hmem x).mpr ⟨hx, hne⟩) List.not_mem_nil
    constructor
    · intro h
      obtain rfl : 1 = rows := Option.some_inj.mp h
      exact ⟨fun x hx => Or.inl (hone x hx), Or.inl rfl⟩
    · rintro ⟨-, rfl | ⟨x, hx, rfl⟩⟩
      · rfl
      · rw [hone x hx]
  | cons y ys =>
    rw [hfilter] at hmem
    obtain ⟨hy, hyrows⟩ := (hmem y).mp List.mem_cons_self
    dsimp only
    constructor
    · intro h
      split at h
      next hsame =>
          obtain rfl : y.rows = rows := Option.some_inj.mp h
          refine ⟨fun x hx => ?_, Or.inr ⟨y, hy, rfl⟩⟩
          by_cases hone : x.rows = 1
          · exact Or.inl hone
          · rcases List.mem_cons.mp ((hmem x).mpr ⟨hx, hone⟩) with rfl | hx
            · exact Or.inr rfl
            · exact Or.inr (hsame x hx)
      next => cases h
    · rintro ⟨hall, -⟩
      obtain rfl : y.rows = rows := (hall y hy).resolve_left hyrows
      refine if_pos fun x hx => ?_
      obtain ⟨hx, hone⟩ := (hmem x).mp (List.mem_cons_of_mem _ hx)
      exact (hall x hx).resolve_left hone

/-- A selection has the length of its columns; single values alone make one row, and nothing makes none. -/
theorem selectRows_eq_some {extents : List Extent} {rows : Nat} :
    selectRows extents = some rows ↔
      (∀ x ∈ extents, x.single = true ∨ x.rows = rows) ∧
        ((∃ x ∈ extents, x.single = false) ∨ (extents = [] ∧ rows = 0) ∨
          (extents ≠ [] ∧ (∀ x ∈ extents, x.single = true) ∧ rows = 1)) := by
  have hmem : ∀ x, x ∈ extents.filter (fun x => !x.single) ↔ x ∈ extents ∧ x.single = false := by simp
  unfold selectRows
  cases hfilter : extents.filter fun x => !x.single with
  | nil =>
    rw [hfilter] at hmem
    have hsingle : ∀ x ∈ extents, x.single = true := fun x hx => by
      by_contra hne
      exact absurd ((hmem x).mpr ⟨hx, by simpa using hne⟩) List.not_mem_nil
    have hnone : ¬ ∃ x ∈ extents, x.single = false := fun ⟨x, hx, h⟩ => by
      rw [hsingle x hx] at h
      cases h
    rw [Option.some_inj]
    by_cases hempty : extents = []
    · rw [if_pos hempty]
      exact ⟨fun h => ⟨fun x hx => Or.inl (hsingle x hx), Or.inr (Or.inl ⟨hempty, h.symm⟩)⟩, fun h => by
        rcases h.2 with h | ⟨-, h⟩ | ⟨h, -⟩
        · exact absurd h hnone
        · exact h.symm
        · exact absurd hempty h⟩
    · rw [if_neg hempty]
      exact ⟨fun h => ⟨fun x hx => Or.inl (hsingle x hx), Or.inr (Or.inr ⟨hempty, hsingle, h.symm⟩)⟩, fun h => by
        rcases h.2 with h | ⟨h, -⟩ | ⟨-, -, h⟩
        · exact absurd h hnone
        · exact absurd h hempty
        · exact h.symm⟩
  | cons y ys =>
    rw [hfilter] at hmem
    obtain ⟨hy, hycolumn⟩ := (hmem y).mp List.mem_cons_self
    dsimp only
    constructor
    · intro h
      split at h
      next hsame =>
          obtain rfl : y.rows = rows := Option.some_inj.mp h
          refine ⟨fun x hx => ?_, Or.inl ⟨y, hy, hycolumn⟩⟩
          cases hxsingle : x.single with
          | true => exact Or.inl rfl
          | false =>
            rcases List.mem_cons.mp ((hmem x).mpr ⟨hx, hxsingle⟩) with rfl | hx
            · exact Or.inr rfl
            · exact Or.inr (hsame x hx)
      next => cases h
    · rintro ⟨hall, -⟩
      obtain rfl : y.rows = rows := (hall y hy).resolve_left (by simp [hycolumn])
      refine if_pos fun x hx => ?_
      obtain ⟨hx, hxcolumn⟩ := (hmem x).mp (List.mem_cons_of_mem _ hx)
      exact (hall x hx).resolve_left (by simp [hxcolumn])

/-! ## Expressions -/

/-- `AggregateExpr` among the classes without attributes. -/
def UnparameterizedExpr.isAggregate : UnparameterizedExpr → Bool
  | .sum => true
  | .avg => true
  | .min => true
  | .max => true
  | .count => true
  | .collectList => true
  | .first => true
  | .stddev => true
  | .approxCountDistinct => true
  | .sumDistinct => true
  | _ => false

section

variable {Func Model Series : Type}

namespace ExprHead

/-- `isinstance(expr, AggregateExpr)`. -/
def isAggregate : ExprHead Func Model Series → Bool
  | .unparameterized cls => cls.isAggregate
  | .countDistinct _ => true
  | .semanticReduce .. => true
  | _ => false

variable [Heights Func Model Series]

/-- The extent of a converted expression over a frame of `n` rows, given those of its children, of which a leaf has none.
    The converter refuses placeholders and sort orders, and leaves the grouping of a list to `agg`. -/
def extent (n : Nat) (head : ExprHead Func Model Series) (children : List Extent) : Option Extent :=
  match head with
  | .column _ => if children = [] then some ⟨n, false⟩ else none
  | .literal _ => if children = [] then some .value else none
  | .now _ => if children = [] then some .value else none
  | .seriesLiteral series =>
    let length := Heights.seriesLength Func Model series
    if children = [] then some (if length = 1 then .value else ⟨length, false⟩) else none
  | .unresolvedLiteral _ _ => none
  | .sort _ _ => none
  | .alias _ => combine true children
  | .unparameterized .collectList => combine true children
  | head => if head.isAggregate then some .value else combine (Heights.givesSingle head) children

end ExprHead

namespace LogicalExpr

section

variable [Heights Func Model Series]

mutual

/-- The extent of a converted expression, if the converter and the engine take it. -/
def extent (n : Nat) : LogicalExpr Func Model Series → Option Extent
  | .node head children => (extents n children).bind (head.extent n)

def extents (n : Nat) : List (LogicalExpr Func Model Series) → Option (List Extent)
  | [] => some []
  | e :: es => (extent n e).bind fun x => (extents n es).map fun xs => x :: xs

end

end

mutual

/-- A property of every node: of its head and of the number of its children. -/
def all (p : ExprHead Func Model Series → Nat → Bool) : LogicalExpr Func Model Series → Bool
  | .node head children => p head children.length && allChildren p children

def allChildren (p : ExprHead Func Model Series → Nat → Bool) : List (LogicalExpr Func Model Series) → Bool
  | [] => true
  | e :: es => all p e && allChildren p es

end

mutual

/-- A property of some head. -/
def any (p : ExprHead Func Model Series → Bool) : LogicalExpr Func Model Series → Bool
  | .node head children => p head || anyChild p children

def anyChild (p : ExprHead Func Model Series → Bool) : List (LogicalExpr Func Model Series) → Bool
  | [] => false
  | e :: es => any p e || anyChild p es

end

theorem allChildren_eq (p : ExprHead Func Model Series → Nat → Bool) (es : List (LogicalExpr Func Model Series)) :
    allChildren p es = es.all (all p) := by
  induction es with
  | nil => rfl
  | cons e es ih =>
    show (all p e && allChildren p es) = _
    rw [ih]
    rfl

theorem anyChild_eq (p : ExprHead Func Model Series → Bool) (es : List (LogicalExpr Func Model Series)) :
    anyChild p es = es.any (any p) := by
  induction es with
  | nil => rfl
  | cons e es ih =>
    show (any p e || anyChild p es) = _
    rw [ih]
    rfl

end LogicalExpr

end

end Expressions

end Fenic
