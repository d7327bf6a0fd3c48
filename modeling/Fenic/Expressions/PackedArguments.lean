import Mathlib
import Fenic.Expressions.OutputName
import Fenic.Lib.Rows

/-!
# `Expressions.PackedArguments` — arguments that are packed into a struct

Functions of several arguments are converted to a function of one struct, which has a field for each argument. The fields
have the names that the engine gives the converted arguments, and the function takes the values out again by position or
by name. `argumentsReceived_iff` says when each function receives the values of its arguments: when the names are apart, as
the engine makes no struct otherwise. A distinct count of one column goes without a struct.

What an argument evaluates to over a row is left open; a literal has its value over every row.
-/

namespace Fenic

namespace Expressions

variable {Func Model Series : Type} [Printing Func Model Series] {Row Value Result : Type}

/-! ## Structs -/

/-- A struct column, as the dicts of its rows. -/
structure StructSeries (Value : Type) where
  fields : List String
  rows : List (List (String × Value))

/-- The engine finds a name for each argument, and no name twice. -/
def Named (args : List (LogicalExpr Func Model Series)) : Prop :=
  ∃ names, args.mapM LogicalExpr.outputName = some names ∧ names.Nodup

/-- The values of the arguments over a row. -/
def valuesAt (eval : LogicalExpr Func Model Series → Row → Value) (args : List (LogicalExpr Func Model Series)) (r : Row) :
    List Value :=
  args.map fun arg => eval arg r

/-- `pl.struct(...)`. -/
def structOf (eval : LogicalExpr Func Model Series → Row → Value) (args : List (LogicalExpr Func Model Series))
    (rows : List Row) : Option (StructSeries Value) :=
  (args.mapM LogicalExpr.outputName).bind fun names =>
    if args ≠ [] ∧ names.Nodup then some ⟨names, rows.map fun r => names.zip (valuesAt eval args r)⟩ else none

/-! ## Functions of structs -/

/-- `_convert_udf_to_map_elements`: `udf(*list(row.values()))`. -/
def adaptedUdf (udf : List Value → Result) (row : List (String × Value)) : Result := udf (row.map Prod.snd)

/-- `_convert_udf_expr`. -/
def convertUdf (eval : LogicalExpr Func Model Series → Row → Value) (udf : List Value → Result)
    (args : List (LogicalExpr Func Model Series)) (rows : List Row) : Option (List Result) :=
  (structOf eval args rows).map fun batch => batch.rows.map (adaptedUdf udf)

/-- `[row[name] for name in batch.struct.fields]`, for each row. -/
def asyncItems (batch : StructSeries Value) : Option (List (List Value)) :=
  batch.rows.mapM fun row => batch.fields.mapM fun name => row.lookup name

/-- `_convert_async_udf_expr`, up to the calls. -/
def convertAsyncUdf (eval : LogicalExpr Func Model Series → Row → Value) (udf : List Value → Result)
    (args : List (LogicalExpr Func Model Series)) (rows : List Row) : Option (List Result) :=
  (structOf eval args rows).bind fun batch => (asyncItems batch).map fun items => items.map udf

/-- `n_unique()`. -/
def nUnique [DecidableEq Value] (values : List Value) : Nat := values.dedup.length

/-- `_convert_count_distinct_expr`: the rows of the struct under a mask made of the arguments. -/
def convertCountDistinct [DecidableEq Value] (eval : LogicalExpr Func Model Series → Row → Option Value) (rows : List Row) :
    List (LogicalExpr Func Model Series) → Option Nat
  | [arg] => some (nUnique ((rows.map (eval arg)).filter Option.isSome))
  | args =>
    let anyNull := rows.map fun r => args.any fun arg => (eval arg r).isNone
    (structOf eval args rows).map fun batch =>
      nUnique (((batch.rows.zip anyNull).filter fun (_, isNull) => !isNull).map Prod.fst)

/-- `batch.struct.field(name)`. -/
def structField (batch : StructSeries Value) (name : String) : Option (List Value) :=
  batch.rows.mapM fun row => row.lookup name

/-- `pairwise_similarity_fn`. -/
def pairwiseSimilarityFn (similarity : Value → Value → Result) (batch : StructSeries (Option Value)) :
    Option (List (Option Result)) :=
  match batch.fields with
  | first :: second :: _ =>
    (structField batch first).bind fun embeddings1 => (structField batch second).map fun embeddings2 =>
      let similarities := List.zipWith (fun a b => a.bind fun a => b.map (similarity a)) embeddings1 embeddings2
      if similarities.any Option.isSome then similarities else List.replicate batch.rows.length none
  | _ => none

/-- `_convert_embedding_similarity_expr` of two expressions. -/
def convertEmbeddingSimilarity (eval : LogicalExpr Func Model Series → Row → Option Value) (similarity : Value → Value → Result)
    (expr other : LogicalExpr Func Model Series) (rows : List Row) : Option (List (Option Result)) :=
  (structOf eval [expr, other] rows).bind (pairwiseSimilarityFn similarity)

/-! ## Packing and unpacking -/

variable {names : List String}

/-- Under names that are apart, each value is found again. -/
theorem lookup_zip {values : List Value} (hnodup : names.Nodup) (hlength : values.length = names.length) :
    names.map (fun name => (names.zip values).lookup name) = values.map some := by
  induction names generalizing values with
  | nil => rw [List.eq_nil_of_length_eq_zero hlength]; rfl
  | cons name names ih =>
    cases values with
    | nil => cases hlength
    | cons value values =>
      obtain ⟨hname, hnodup⟩ := List.nodup_cons.mp hnodup
      have hrest : ∀ n ∈ names, ((name, value) :: names.zip values).lookup n = (names.zip values).lookup n := by
        intro n hn
        have hne : n ≠ name := fun heq => hname (heq ▸ hn)
        rw [List.lookup_cons, beq_eq_false_iff_ne.mpr hne]
      rw [List.zip_cons_cons, List.map_cons, List.map_cons, List.lookup_cons_self, List.map_congr_left hrest,
        ih hnodup (Nat.succ.inj hlength)]

theorem mapM_lookup {values : List Value} (hnodup : names.Nodup) (hlength : values.length = names.length) :
    names.mapM (fun name => (names.zip values).lookup name) = some values :=
  Rows.mapM_eq_some.mpr (lookup_zip hnodup hlength)

theorem mapM_rows {α : Type} {f : α → Option Value} {g : α → Value} {xs : List α} (h : ∀ x ∈ xs, f x = some (g x)) :
    xs.mapM f = some (xs.map g) := by
  rw [Rows.mapM_eq_some, List.map_map]
  exact List.map_congr_left h

theorem length_names {args : List (LogicalExpr Func Model Series)}
    (h : args.mapM LogicalExpr.outputName = some names) : names.length = args.length := by
  have hmap := congrArg List.length (Rows.mapM_eq_some.mp h)
  rwa [List.length_map, List.length_map, eq_comm] at hmap

/-- A struct is made exactly of arguments that are named. -/
theorem structOf_eq_some (eval : LogicalExpr Func Model Series → Row → Value) {args : List (LogicalExpr Func Model Series)}
    (hne : args ≠ []) (hnamed : Named args) (rows : List Row) :
    ∃ names, names.Nodup ∧ names.length = args.length ∧
      structOf eval args rows = some ⟨names, rows.map fun r => names.zip (valuesAt eval args r)⟩ := by
  obtain ⟨names, hnames, hnodup⟩ := hnamed
  refine ⟨names, hnodup, length_names hnames, ?_⟩
  rw [structOf, hnames, Option.bind_some, if_pos ⟨hne, hnodup⟩]

theorem structOf_eq_none {eval : LogicalExpr Func Model Series → Row → Value} {args : List (LogicalExpr Func Model Series)}
    (hnamed : ¬Named args) (rows : List Row) : structOf eval args rows = none := by
  rw [structOf]
  cases hnames : args.mapM LogicalExpr.outputName with
  | none => rfl
  | some names => exact if_neg fun h => hnamed ⟨names, hnames, h.2⟩

section

variable {args : List (LogicalExpr Func Model Series)}

theorem convertUdf_iff {eval : LogicalExpr Func Model Series → Row → Value} (hne : args ≠ []) (udf : List Value → Result)
    (rows : List Row) :
    convertUdf eval udf args rows = some (rows.map fun r => udf (valuesAt eval args r)) ↔ Named args := by
  by_cases hnamed : Named args
  · obtain ⟨names, -, hlength, hstruct⟩ := structOf_eq_some eval hne hnamed rows
    refine iff_of_true ?_ hnamed
    rw [convertUdf, hstruct, Option.map_some, List.map_map]
    refine congrArg some (List.map_congr_left fun r _ => congrArg udf ?_)
    exact List.map_snd_zip (by rw [valuesAt, List.length_map, hlength])
  · refine iff_of_false (fun h => ?_) hnamed
    rw [convertUdf, structOf_eq_none hnamed] at h
    cases h

theorem convertAsyncUdf_iff {eval : LogicalExpr Func Model Series → Row → Value} (hne : args ≠ []) (udf : List Value → Result)
    (rows : List Row) :
    convertAsyncUdf eval udf args rows = some (rows.map fun r => udf (valuesAt eval args r)) ↔ Named args := by
  by_cases hnamed : Named args
  · obtain ⟨names, hnodup, hlength, hstruct⟩ := structOf_eq_some eval hne hnamed rows
    refine iff_of_true ?_ hnamed
    have hitems : asyncItems ⟨names, rows.map fun r => names.zip (valuesAt eval args r)⟩ =
        some (rows.map (valuesAt eval args)) := by
      rw [asyncItems, List.mapM_map]
      exact mapM_rows fun r _ => mapM_lookup hnodup (by rw [valuesAt, List.length_map, hlength])
    rw [convertAsyncUdf, hstruct, Option.bind_some, hitems, Option.map_some, List.map_map]
    rfl
  · refine iff_of_false (fun h => ?_) hnamed
    rw [convertAsyncUdf, structOf_eq_none hnamed] at h
    cases h

end

/-! ## Distinct counts -/

/-- Tuples of one length are as many as their dicts. -/
theorem nUnique_zip [DecidableEq Value] {tuples : List (List Value)}
    (hlength : ∀ tuple ∈ tuples, tuple.length = names.length) :
    nUnique (tuples.map names.zip) = nUnique tuples := by
  have himage : (tuples.map names.zip).toFinset = tuples.toFinset.image names.zip := by
    ext entries
    rw [List.mem_toFinset, List.mem_map, Finset.mem_image]
    exact exists_congr fun tuple => and_congr_left fun _ => List.mem_toFinset.symm
  rw [nUnique, nUnique, ← List.card_toFinset, ← List.card_toFinset, himage]
  refine Finset.card_image_of_injOn fun tuple htuple tuple' htuple' heq => ?_
  have hsnd : ∀ tuple ∈ tuples, (names.zip tuple).map Prod.snd = tuple :=
    fun tuple htuple => List.map_snd_zip (hlength tuple htuple).le
  rw [← hsnd tuple (List.mem_toFinset.mp htuple), ← hsnd tuple' (List.mem_toFinset.mp htuple')]
  exact congrArg _ heq

/-- The tuples without nulls. -/
def distinctTuples [DecidableEq Value] (eval : LogicalExpr Func Model Series → Row → Option Value) (rows : List Row)
    (args : List (LogicalExpr Func Model Series)) : Nat :=
  nUnique ((rows.map (valuesAt eval args)).filter fun tuple => tuple.all Option.isSome)

omit [Printing Func Model Series] in
/-- The mask leaves the dicts of the tuples without nulls. -/
theorem masked_eq {eval : LogicalExpr Func Model Series → Row → Option Value} {args : List (LogicalExpr Func Model Series)}
    (names : List String) (rows : List Row) :
    (((rows.map fun r => names.zip (valuesAt eval args r)).zip
        (rows.map fun r => args.any fun arg => (eval arg r).isNone)).filter fun (_, isNull) => !isNull).map Prod.fst =
      ((rows.map (valuesAt eval args)).filter fun tuple => tuple.all Option.isSome).map names.zip := by
  rw [List.zip_map', List.filter_map, List.map_map, List.filter_map, List.map_map]
  refine congrArg₂ List.map rfl (List.filter_congr fun r _ => ?_)
  show (!(args.any fun arg => (eval arg r).isNone)) = (valuesAt eval args r).all Option.isSome
  rw [valuesAt, List.all_map, List.not_any_eq_all_not]
  exact congrArg (fun p => List.all args p) (funext fun arg => Option.not_isNone _)

theorem convertCountDistinct_iff [DecidableEq Value] {eval : LogicalExpr Func Model Series → Row → Option Value}
    {args : List (LogicalExpr Func Model Series)} (hne : args ≠ []) (rows : List Row) :
    convertCountDistinct eval rows args = some (distinctTuples eval rows args) ↔ args.length = 1 ∨ Named args := by
  match args with
  | [] => exact absurd rfl hne
  | [arg] =>
    refine iff_of_true (congrArg some ?_) (Or.inl rfl)
    have htuples : (rows.map (valuesAt eval [arg])).filter (fun tuple => tuple.all Option.isSome) =
        ((rows.map (eval arg)).filter Option.isSome).map fun value => [value] := by
      rw [List.filter_map, List.filter_map, List.map_map]
      refine congrArg₂ List.map rfl (List.filter_congr fun r _ => ?_)
      show ([eval arg r].all Option.isSome) = (eval arg r).isSome
      rw [List.all_cons, List.all_nil, Bool.and_true]
    rw [distinctTuples, htuples, nUnique, nUnique, List.dedup_map_of_injective fun _ _ h => List.head_eq_of_cons_eq h,
      List.length_map]
  | first :: second :: rest =>
    by_cases hnamed : Named (first :: second :: rest)
    · obtain ⟨names, -, hlength, hstruct⟩ := structOf_eq_some eval hne hnamed rows
      refine iff_of_true ?_ (Or.inr hnamed)
      rw [convertCountDistinct, hstruct]
      · refine congrArg some ((congrArg nUnique (masked_eq names rows)).trans (nUnique_zip fun tuple htuple => ?_))
        obtain ⟨r, -, rfl⟩ := List.mem_map.mp (List.mem_filter.mp htuple).1
        rw [valuesAt, List.length_map, hlength]
      · nofun
    · refine iff_of_false (fun h => ?_) fun h => h.elim nofun hnamed
      rw [convertCountDistinct, structOf_eq_none hnamed] at h
      · cases h
      · nofun

/-! ## Similarities -/

theorem convertEmbeddingSimilarity_iff {eval : LogicalExpr Func Model Series → Row → Option Value}
    (similarity : Value → Value → Result) (expr other : LogicalExpr Func Model Series) (rows : List Row) :
    convertEmbeddingSimilarity eval similarity expr other rows =
        some (rows.map fun r => (eval expr r).bind fun a => (eval other r).map (similarity a)) ↔
      Named [expr, other] := by
  by_cases hnamed : Named [expr, other]
  · obtain ⟨names, hnodup, hlength, hstruct⟩ := structOf_eq_some eval (List.cons_ne_nil _ _) hnamed rows
    refine iff_of_true ?_ hnamed
    obtain ⟨first, second, rfl⟩ := List.length_eq_two.mp hlength
    have hne : second ≠ first := fun heq => (List.nodup_cons.mp hnodup).1 (List.mem_singleton.mpr heq.symm)
    have hfirst : structField ⟨[first, second], rows.map fun r => [first, second].zip (valuesAt eval [expr, other] r)⟩ first =
        some (rows.map (eval expr)) := by
      rw [structField, List.mapM_map]
      exact mapM_rows fun r _ => List.lookup_cons_self
    have hsecond : structField ⟨[first, second], rows.map fun r => [first, second].zip (valuesAt eval [expr, other] r)⟩ second =
        some (rows.map (eval other)) := by
      rw [structField, List.mapM_map]
      refine mapM_rows fun r _ => ?_
      show ([(first, eval expr r), (second, eval other r)] : List (String × Option Value)).lookup second = _
      rw [List.lookup_cons, beq_eq_false_iff_ne.mpr hne]
      exact List.lookup_cons_self
    rw [convertEmbeddingSimilarity, hstruct, Option.bind_some, pairwiseSimilarityFn]
    simp only [hfirst, hsecond, Option.bind_some, Option.map_some, List.zipWith_map, List.zipWith_self, List.length_map]
    refine congrArg some ?_
    split
    · rfl
    next hnone =>
        -- without a pair of embeddings, everything is null
        refine (List.eq_replicate_iff.mpr ⟨List.length_map _, fun x hx => ?_⟩).symm
        by_contra hsome
        exact hnone (List.any_eq_true.mpr ⟨x, hx, Option.isSome_iff_ne_none.mpr hsome⟩)
  · refine iff_of_false (fun h => ?_) hnamed
    rw [convertEmbeddingSimilarity, structOf_eq_none hnamed] at h
    cases h

/-- **The functions receive the values of their arguments exactly when the arguments have names that are apart**; a distinct
count of one column always does. -/
theorem argumentsReceived_iff {Value : Type} [DecidableEq Value] (eval : LogicalExpr Func Model Series → Row → Option Value)
    (rows : List Row) (args : List (LogicalExpr Func Model Series)) (hne : args ≠ []) :
    (∀ (Result : Type) (udf : List (Option Value) → Result),
      convertUdf eval udf args rows = some (rows.map fun r => udf (valuesAt eval args r)) ↔ Named args) ∧
    (∀ (Result : Type) (udf : List (Option Value) → Result),
      convertAsyncUdf eval udf args rows = some (rows.map fun r => udf (valuesAt eval args r)) ↔ Named args) ∧
    (convertCountDistinct eval rows args = some (distinctTuples eval rows args) ↔ args.length = 1 ∨ Named args) ∧
    ∀ (Result : Type) (similarity : Value → Value → Result) (expr other : LogicalExpr Func Model Series),
      args = [expr, other] →
      (convertEmbeddingSimilarity eval similarity expr other rows =
        some (rows.map fun r => (eval expr r).bind fun a => (eval other r).map (similarity a)) ↔ Named args) := by
  refine ⟨fun Result udf => convertUdf_iff hne udf rows, fun Result udf => convertAsyncUdf_iff hne udf rows,
    convertCountDistinct_iff hne rows, ?_⟩
  rintro Result similarity expr other rfl
  exact convertEmbeddingSimilarity_iff similarity expr other rows

/-! ## Sums -/

namespace PackedExamples

/-- Texts of opaque values are left out. -/
local instance : Printing Empty Empty Empty where
  funcName := nofun
  literal _ := ""
  contentHash s := s
  schemaHash _ := ""
  contextNames s := s
  textChunkConfiguration _ := ""
  recursiveTextChunkConfiguration _ := ""
  modelAlias _ := ""
  seriesLength := nofun
  seriesName := nofun

def column (name : String) : LogicalExpr Empty Empty Empty := .node (.column name) []

def literal (n : Int) : LogicalExpr Empty Empty Empty := .node (.literal (.integer n)) []

/-- Integer columns, literals and sums. -/
def evalSum : LogicalExpr Empty Empty Empty → (String → Int) → Option Int
  | .node (.column name) _, r => some (r name)
  | .node (.literal (.integer n)) _, _ => some n
  | .node (.arithmetic .plus) [.node (.column name) _, .node (.literal (.integer n)) _], r => some (r name + n)
  | _, _ => none

/-- `col("a") + n`. -/
def aPlus (n : Int) : LogicalExpr Empty Empty Empty := .node (.arithmetic .plus) [column "a", literal n]

def total (values : List (Option Int)) : Int := (values.map (·.getD 0)).sum

/-- A column, a sum of another one and a literal. -/
theorem sums_received :
    convertUdf evalSum total [column "b", aPlus 1, literal 5] [fun name => if name = "a" then 1 else 2] = some [9] :=
  ((argumentsReceived_iff evalSum [fun name => if name = "a" then 1 else 2] [column "b", aPlus 1, literal 5]
    (List.cons_ne_nil _ _)).1 Int total).mpr ⟨["b", "a", "literal"], by decide, by decide⟩

/-- Two sums of one column, one column twice, and two literals have one name. -/
theorem oneName_fails :
    convertUdf evalSum (fun _ => 0) [aPlus 1, aPlus 2] [fun _ => 0] = none ∧
      convertAsyncUdf evalSum (fun _ => 0) [column "a", column "a"] [fun _ => 0] = none ∧
      convertCountDistinct evalSum [fun _ => 0] [column "a", aPlus 1] = none ∧
      convertUdf evalSum (fun _ => 0) [literal 1, literal 2] [fun _ => 0] = none ∧
      convertEmbeddingSimilarity evalSum (fun _ _ => 0) (column "a") (column "a") [fun _ => 0] = none := by
  decide

end PackedExamples

end Expressions

end Fenic
