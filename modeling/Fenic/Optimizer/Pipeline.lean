import Fenic.Optimizer.NotFilterPushdown
import Fenic.Optimizer.SemanticFilterRewrite

/-!
# `Optimizer.Pipeline` — the rules the plan converter runs

`PlanConverter.convert` optimizes a plan with three rules before it looks at it. Every rule refines the plans
it returns on, so the pipeline does (`optimize_ok_iff`); the first rule does not return on all of them.
-/

namespace Fenic

namespace LogicalPlanOptimizer

variable {A : Type}

/-- `LogicalPlanOptimizer.optimize`: the rules in order, each over the plan the one before it made. -/
def optimize (sess : Session A) :
    List (FilterHook A) → LogicalPlan A → Except PyException (OptimizationResult A)
  | [], p => pure ⟨p, false⟩
  | rule :: rules, p => do
    let result ← optimizeNode sess rule p
    let final ← optimize sess rules result.plan
    pure ⟨final.plan, result.wasModified || final.wasModified⟩

/-- The rules of `PlanConverter.convert`, in order. -/
def converterRules [BEq A] (sess : Session A) : List (FilterHook A) :=
  [NotFilterPushdownRule.optimizeFilter sess, MergeFiltersRule.mergeFilter sess,
    SemanticFilterRewriteRule.optimizeFilter sess]

/-- Rules that handle every filter refine every plan. -/
theorem optimize_refines {sess : Session A} (rules : List (FilterHook A))
    (hrules : ∀ rule ∈ rules, FilterHook.Handles sess rule (fun _ => True)) {p : LogicalPlan A}
    (hwf : WellFormed sess p) : ∃ r, optimize sess rules p = .ok r ∧ Refines sess p r.plan := by
  induction rules generalizing p with
  | nil => exact ⟨_, rfl, Refines.refl hwf⟩
  | cons rule rules ih =>
    obtain ⟨r, hr, href⟩ :=
      optimizeNode_refines (hrules rule (by simp)) p hwf (LogicalPlan.allPredicates_true p)
    obtain ⟨r', hr', href'⟩ := ih (fun q hq => hrules q (by simp [hq])) href.wellFormed
    refine ⟨⟨r'.plan, r.wasModified || r'.wasModified⟩, ?_, href.trans href'⟩
    simp [optimize, hr, hr']

/-- **The pipeline returns an equivalent plan exactly when every filter predicate of the plan satisfies
    `pushdownOk`.** -/
theorem optimize_ok_iff [BEq A] (sess : Session A) (p : LogicalPlan A) (hacc : p.Accepted sess)
    (hrow : p.AllPredicates (fun e => e.rowwise = true)) :
    (∃ r, optimize sess (converterRules sess) p = .ok r ∧ p.Equivalent r.plan) ↔
      p.AllPredicates (fun e => e.pushdownOk = true) := by
  constructor
  · rintro ⟨r, hr, -⟩
    simp only [optimize, converterRules, Except.bind_eq_ok] at hr
    obtain ⟨pushed, hpushed, -⟩ := hr
    exact allPredicates_of_optimizeNode
      (fun _ _ _ _ _ h => NotFilterPushdownRule.pushdownOk_of_optimizeFilter h) p pushed hpushed
  · intro hok
    obtain ⟨pushed, hpushed, href⟩ :=
      optimizeNode_refines (NotFilterPushdownRule.optimizeFilter_handles sess) p ⟨hacc, hrow⟩ hok
    obtain ⟨r, hr, href'⟩ := optimize_refines
      [MergeFiltersRule.mergeFilter sess, SemanticFilterRewriteRule.optimizeFilter sess]
      (by
        intro rule hrule
        simp only [List.mem_cons, List.not_mem_nil, or_false] at hrule
        rcases hrule with rfl | rfl
        · exact MergeFiltersRule.mergeFilter_handles sess
        · exact SemanticFilterRewriteRule.optimizeFilter_handles sess) href.wellFormed
    refine ⟨⟨r.plan, pushed.wasModified || r.wasModified⟩, ?_, (href.trans href').equivalent⟩
    rw [converterRules, optimize, hpushed, Except.ok_bind, hr]
    rfl

/-! ## Two filters over one frame -/

section Example

open LogicalExpr

/-- A planner without further expression classes. -/
def plainSession : Session Unit where
  exprString _ _ _ := ""
  exprType _ _ _ _ := .error (.typeError "no such expression")
  checkGroupContext _ _ := .ok ()
  planSchema _ _ := .error (.planError "no such plan")

/-- Three boolean columns. -/
def flagSchema : Schema := [⟨"a", .booleanType⟩, ⟨"b", .booleanType⟩, ⟨"c", .booleanType⟩]

/-- A persisted limit over a frame with three boolean columns, filtered by `predicate`. -/
def flagFilter (predicate : LogicalExpr Unit) : LogicalPlan Unit :=
  .filter (.node (.limit 10) [.node (.inMemorySource "flags") [] flagSchema none] flagSchema
    (some ⟨some "key"⟩)) predicate flagSchema none

/-- `a AND NOT (b OR c)`. -/
def keptConjunction : LogicalExpr Unit :=
  .boolean (.column "a") (.not (.boolean (.column "b") (.column "c") .or)) .and

/-- `NOT (NOT a OR (b OR c))`. -/
def negatedDisjunction : LogicalExpr Unit :=
  .not (.boolean (.not (.column "a")) (.boolean (.column "b") (.column "c") .or) .or)

theorem validate_flagSchema : validateSchema flagSchema = .ok flagSchema := by decide

/-- The frame accepts every row-wise boolean predicate. -/
theorem flagFilter_accepted {predicate : LogicalExpr Unit} (hrow : predicate.rowwise = true)
    (htype : predicate.dataType plainSession flagSchema = .ok .booleanType) :
    (flagFilter predicate).Accepted plainSession :=
  ⟨⟨⟨⟨trivial, rfl, validate_flagSchema⟩, trivial⟩, validate_flagSchema⟩,
    LogicalPlan.buildFilter_ok hrow htype validate_flagSchema⟩

/-- `NOT NOT a` becomes `a`, which the rule leaves alone. -/
theorem doubleNegation_twice : ∃ r, optimizeNode plainSession (NotFilterPushdownRule.optimizeFilter plainSession)
      (flagFilter (.not (.not (.column "a")))) = .ok r ∧
    optimizeNode plainSession (NotFilterPushdownRule.optimizeFilter plainSession) r.plan = .ok ⟨r.plan, false⟩ := by
  have hpush : pushNotInward (.not (.not (.column "a"))) = .ok (.column "a" : LogicalExpr Unit) := by
    rw [pushNotInward.eq_2, pushNotInward_leaf rfl]
  have hrun : optimizeNode plainSession (NotFilterPushdownRule.optimizeFilter plainSession) (flagFilter (.not (.not (.column "a")))) =
      .ok ⟨flagFilter (.column "a"), true⟩ := by
    rw [flagFilter, optimizeNode]
    unfold NotFilterPushdownRule.optimizeFilter
    rw [hpush]
    rfl
  exact ⟨_, hrun, NotFilterPushdownRule.pushdown_again hrun ⟨⟨trivial, trivial⟩, rfl⟩⟩

/-- The pipeline finishes on a nest of negated disjunctions. -/
theorem optimize_negatedDisjunction :
    ∃ r, optimize plainSession (converterRules plainSession) (flagFilter negatedDisjunction) = .ok r ∧
      (flagFilter negatedDisjunction).Equivalent r.plan :=
  (optimize_ok_iff plainSession (flagFilter negatedDisjunction) (flagFilter_accepted rfl rfl)
    ⟨⟨trivial, trivial⟩, rfl⟩).mpr ⟨⟨trivial, trivial⟩, rfl⟩

/-- **It raises on an accepted filter by `a AND NOT (b OR c)`.** -/
theorem optimize_keptConjunction_raises :
    (flagFilter keptConjunction).Accepted plainSession ∧
      (flagFilter keptConjunction).AllPredicates (fun e => e.rowwise = true) ∧
      optimize plainSession (converterRules plainSession) (flagFilter keptConjunction)
        = .error noOperatorAttribute := by
  refine ⟨flagFilter_accepted rfl rfl, ⟨⟨trivial, trivial⟩, rfl⟩, ?_⟩
  have hpush : pushNotInward keptConjunction = .error noOperatorAttribute := by
    have hright : pushNotInward (.not (.boolean (.column "b") (.column "c") .or))
        = .ok (.boolean (.not (.column "b")) (.not (.column "c")) .and : LogicalExpr Unit) := by
      rw [pushNotInward.eq_3, pushNotInward_not_leaf rfl, pushNotInward_not_leaf rfl]
      rfl
    rw [keptConjunction, pushNotInward.eq_1, pushNotInward_leaf rfl, hright]
    rfl
  have hbuilt : buildFilter plainSession flagSchema keptConjunction = .ok flagSchema :=
    LogicalPlan.buildFilter_ok rfl rfl validate_flagSchema
  have hnode : optimizeNode plainSession (NotFilterPushdownRule.optimizeFilter plainSession)
      (flagFilter keptConjunction) = .error noOperatorAttribute := by
    simp [flagFilter, optimizeNode, optimizeNodes, LogicalPlan.withChildren, LogicalPlan.rebuildSchema, LogicalPlan.schema,
      PlanOp.isSource, buildSchema, validate_flagSchema, hbuilt, NotFilterPushdownRule.optimizeFilter, hpush]
  rw [converterRules, optimize, hnode, Except.error_bind]

end Example

end LogicalPlanOptimizer

end Fenic
