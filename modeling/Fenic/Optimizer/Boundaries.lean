import Fenic.LogicalPlan.Frames
import Fenic.Transpiler.PersistedPlans

/-!
# `Optimizer.Boundaries` — persisted frames in an optimized plan

The key of a persisted frame stands for the rows of the node that carries it. The rules rebuild every node, so a boundary
can be lost in two ways. A class may forget its cache information in `with_children`; and a rule may run a predicate on
another frame than the one it was written for, which changes the rows of the nodes above it. `Movable` is what a predicate
needs so that the second does not happen, and `keepsBoundaries_iff` says which of the remaining plans keep their
boundaries.
-/

namespace Fenic

variable {A Row : Type}

namespace LogicalPlan

/-- The key that a node carries. -/
def cacheKey (p : LogicalPlan A) : Option CacheKey := p.cacheInfo.map CacheInfo.cacheKey

/-- A filter without cache information: the kind that `MergeFiltersRule` takes out. -/
def isUncachedFilter : LogicalPlan A → Bool
  | .filter _ _ _ c => c.isNone
  | .node .. => false

mutual

/-- A property of every filter of the plan, of its predicate and of whether it stands over an uncached filter. -/
def AllFilters (P : Bool → LogicalExpr A → Prop) : LogicalPlan A → Prop
  | .filter input predicate _ _ => AllFilters P input ∧ P input.isUncachedFilter predicate
  | .node _ children _ _ => AllFiltersList P children

def AllFiltersList (P : Bool → LogicalExpr A → Prop) : List (LogicalPlan A) → Prop
  | [] => True
  | p :: ps => AllFilters P p ∧ AllFiltersList P ps

end

variable {P : Bool → LogicalExpr A → Prop}

variable {p : LogicalPlan A}

theorem AllFiltersList.of_mem {ps : List (LogicalPlan A)} (h : AllFiltersList P ps) (hp : p ∈ ps) :
    AllFilters P p := by
  induction ps with
  | nil => cases hp
  | cons q ps ih =>
    rcases List.mem_cons.mp hp with rfl | hp
    · exact h.1
    · exact ih h.2 hp

theorem AllFilters.child {c : LogicalPlan A} (h : AllFilters P p) (hc : c ∈ p.children) : AllFilters P c := by
  cases p with
  | filter input e s cache =>
    rw [children, List.mem_singleton] at hc
    subst hc
    exact h.1
  | node op ps s cache => exact AllFiltersList.of_mem h hc

theorem AllFilters.subplan {q : LogicalPlan A} (hq : Subplan q p) (h : AllFilters P p) : AllFilters P q := by
  induction hq with
  | refl => exact h
  | child hc _ ih => exact ih (h.child hc)

end LogicalPlan

open LogicalPlan

/-! ## Rows -/

/-- On filters that satisfy `Pre`, over inputs whose filters satisfy `Post`, the hook keeps the rows and what `Pre` sees of
the plan from above. -/
def FilterHook.KeepsRows (hook : FilterHook A) (I : FrameInterp A Row) (Pre Post : Bool → LogicalExpr A → Prop) : Prop :=
  ∀ (p : LogicalPlan A) (e : LogicalExpr A) (s : Schema) (c : Option CacheInfo) (r : OptimizationResult A),
    hook p e s c = .ok r → p.AllFilters Post → Pre p.isUncachedFilter e →
      I.rows r.plan = I.rows (.filter p e s c) ∧ r.plan.AllFilters Post ∧ r.plan.isUncachedFilter = c.isNone

section Traversal

variable {sess : Session A} {hook : FilterHook A} {I : FrameInterp A Row} {Pre Post : Bool → LogicalExpr A → Prop}

mutual

/-- A rule whose hook keeps the rows of a filter keeps the rows of a plan. -/
theorem rows_optimizeNode (hhook : hook.KeepsRows I Pre Post) :
    ∀ (p : LogicalPlan A) (r : OptimizationResult A), optimizeNode sess hook p = .ok r → p.AllFilters Pre →
      I.rows r.plan = I.rows p ∧ r.plan.AllFilters Post ∧ r.plan.isUncachedFilter = p.isUncachedFilter
  | .filter input e s c, r, h, hpre => by
    obtain ⟨child, hchild, s', -, result, hresult, rfl⟩ := optimizeNode_filter_eq_ok.mp h
    obtain ⟨hrows, hpost, huncached⟩ := rows_optimizeNode hhook input child hchild hpre.1
    obtain ⟨hrows', hpost', huncached'⟩ :=
      hhook child.plan e s' c result hresult hpost (huncached ▸ hpre.2)
    refine ⟨hrows'.trans ?_, hpost', huncached'⟩
    show I.select e (I.rows child.plan) = I.select e (I.rows input)
    rw [hrows]
  | .node op children s c, r, h, hpre => by
    obtain ⟨rs, hrs, p, hp, rfl⟩ := optimizeNode_node_eq_ok.mp h
    obtain ⟨s', -, rfl⟩ := withChildren_eq_ok.mp hp
    obtain ⟨hrows, hpost⟩ := rows_optimizeNodes hhook children rs hrs hpre
    refine ⟨?_, hpost, rfl⟩
    show I.op op (I.rowsAll (rs.map OptimizationResult.plan)) = I.op op (I.rowsAll children)
    rw [hrows]

theorem rows_optimizeNodes (hhook : hook.KeepsRows I Pre Post) :
    ∀ (ps : List (LogicalPlan A)) (rs : List (OptimizationResult A)), optimizeNodes sess hook ps = .ok rs →
      AllFiltersList Pre ps → I.rowsAll (rs.map OptimizationResult.plan) = I.rowsAll ps ∧
        AllFiltersList Post (rs.map OptimizationResult.plan)
  | [], rs, h, _ => by
    cases h
    exact ⟨rfl, trivial⟩
  | p :: ps, rs, h, hpre => by
    obtain ⟨r, hr, rs', hrs', rfl⟩ := optimizeNodes_cons_eq_ok.mp h
    obtain ⟨hrows, hpost, -⟩ := rows_optimizeNode hhook p r hr hpre.1
    obtain ⟨hrows', hpost'⟩ := rows_optimizeNodes hhook ps rs' hrs' hpre.2
    refine ⟨?_, hpost, hpost'⟩
    show I.rows r.plan :: I.rowsAll (rs'.map OptimizationResult.plan) = I.rows p :: I.rowsAll ps
    rw [hrows, hrows']

end

end Traversal

/-! ## What moves -/

/-- Every predicate that the rules may run on another frame is row-wise: one that stands over an uncached filter, and one
with a semantic expression. -/
def Movable (I : FrameInterp A Row) (uncached : Bool) (e : LogicalExpr A) : Prop :=
  uncached = true ∨ 0 < e.countSemantic → I.RowWise e

/-- What is left of it for `SemanticFilterRewriteRule`, which takes conjunctions apart. -/
def SplitMovable (I : FrameInterp A Row) (_ : Bool) (e : LogicalExpr A) : Prop :=
  ∀ c ∈ SemanticFilterRewriteRule.conjuncts e, 0 < c.countSemantic → I.RowWise c

section Hooks

variable {I : FrameInterp A Row}

section Pushdown

variable [BEq A]

open LogicalExpr

/-- Moving negations inward keeps the semantic expressions and the leaves. -/
theorem pushNotInward_keeps {e e' : LogicalExpr A} (h : pushNotInward e = .ok e') :
    e'.countSemantic = e.countSemantic ∧ (I.RowWise e → I.RowWise e') := by
  induction e using pushNotInward.induct generalizing e' with
  | case1 l r op ihl ihr =>
    obtain ⟨-, -, rfl⟩ := pushNotInward_boolean_ok.mp h
    exact ⟨rfl, id⟩
  | case2 e ih => exact ih (by rwa [pushNotInward.eq_2] at h)
  | case3 l r ihl ihr =>
    obtain ⟨l', r', hl, hr, rfl⟩ := pushNotInward_not_or_ok.mp h
    obtain ⟨hcountl, hrowl⟩ := ihl hl
    obtain ⟨hcountr, hrowr⟩ := ihr hr
    refine ⟨?_, fun hrow => ⟨hrowl hrow.1, hrowr hrow.2⟩⟩
    show l'.countSemantic + r'.countSemantic = l.countSemantic + r.countSemantic
    rw [hcountl, hcountr]
    rfl
  | case4 inner hnot hor ih =>
    rcases and_or_isLeaf_of_kept hnot hor with ⟨l, r, rfl⟩ | hleaf
    · obtain ⟨-, rfl⟩ := pushNotInward_not_and_ok.mp h
      exact ⟨rfl, id⟩
    · rw [pushNotInward_not_leaf hleaf] at h
      cases h
      exact ⟨rfl, id⟩
  | case5 e h1 h2 h3 h4 =>
    rw [pushNotInward.eq_5 e h1 h2 h3 h4] at h
    cases h
    exact ⟨rfl, id⟩

theorem notFilterPushdown_keepsRows (sess : Session A) :
    FilterHook.KeepsRows (NotFilterPushdownRule.optimizeFilter sess) I (Movable I) (Movable I) := by
  intro p e s c r h hpost hpre
  simp only [NotFilterPushdownRule.optimizeFilter, Except.bind_eq_ok] at h
  obtain ⟨e', he', h⟩ := h
  split at h
  · simp only [Except.bind_eq_ok, Except.pure_eq_ok, Except.ok.injEq] at h
    obtain ⟨q, hq, rfl⟩ := h
    obtain ⟨s', rfl⟩ := mkFilter_inv hq
    obtain ⟨hcount, hrow⟩ := pushNotInward_keeps (I := I) he'
    refine ⟨?_, ⟨hpost, fun hmoved => hrow (hpre (hcount ▸ hmoved))⟩, rfl⟩
    have hmeaning := (pushNotInward_rewrites he').meaning_eq
    show (Kleene.select (I.truth (I.rows p) e') _).map Prod.fst = (Kleene.select (I.truth (I.rows p) e) _).map Prod.fst
    exact congrArg _ (Kleene.select_congr (fun position => hmeaning _ _ position) _)
  · cases h
    exact ⟨rfl, ⟨hpost, hpre⟩, rfl⟩

end Pushdown

open SemanticFilterRewriteRule

variable {e : LogicalExpr A}

/-- Every conjunct of a row-wise predicate is row-wise. -/
theorem rowWise_conjuncts (h : I.RowWise e) : ∀ c ∈ conjuncts e, I.RowWise c := by
  induction e using collectPredicates.induct with
  | case1 l r ihl ihr =>
    intro c hc
    rcases List.mem_append.mp ((conjuncts_and l r).mem_iff.mp hc) with hc | hc
    · exact ihl h.1 c hc
    · exact ihr h.2 c hc
  | case2 e hne _ =>
    intro c hc
    rw [conjuncts_of_not_and hne, List.mem_singleton] at hc
    exact hc ▸ h
  | case3 e hne _ =>
    intro c hc
    rw [conjuncts_of_not_and hne, List.mem_singleton] at hc
    exact hc ▸ h

theorem countSemantic_le_of_conjunct {c : LogicalExpr A} (hc : c ∈ conjuncts e) : c.countSemantic ≤ e.countSemantic := by
  induction e using collectPredicates.induct with
  | case1 l r ihl ihr =>
    show _ ≤ l.countSemantic + r.countSemantic
    rcases List.mem_append.mp ((conjuncts_and l r).mem_iff.mp hc) with hc | hc
    · exact Nat.le_trans (ihl hc) (Nat.le_add_right _ _)
    · exact Nat.le_trans (ihr hc) (Nat.le_add_left _ _)
  | case2 e hne _ =>
    rw [conjuncts_of_not_and hne, List.mem_singleton] at hc
    rw [hc]
  | case3 e hne _ =>
    rw [conjuncts_of_not_and hne, List.mem_singleton] at hc
    rw [hc]

theorem Movable.split {uncached : Bool} (h : Movable I uncached e) : SplitMovable I uncached e := by
  intro c hc hcount
  exact rowWise_conjuncts (h (Or.inr (Nat.lt_of_lt_of_le hcount (countSemantic_le_of_conjunct hc)))) c hc

theorem mergeFilters_keepsRows (sess : Session A) :
    FilterHook.KeepsRows (MergeFiltersRule.mergeFilter sess) I (Movable I) (SplitMovable I) := by
  intro p e s c r h hpost hpre
  unfold MergeFiltersRule.mergeFilter at h
  split at h
  · rename_i inner e' s'
    simp only [Except.bind_eq_ok, Except.pure_eq_ok, Except.ok.injEq] at h
    obtain ⟨q, hq, rfl⟩ := h
    obtain ⟨s'', rfl⟩ := mkFilter_inv hq
    refine ⟨FrameInterp.select_and (hpre (Or.inl rfl)) _, ⟨hpost.1, ?_⟩, rfl⟩
    intro c hc hcount
    rcases List.mem_append.mp ((conjuncts_and e e').mem_iff.mp hc) with hc | hc
    · exact hpre.split c hc hcount
    · exact hpost.2 c hc hcount
  · cases h
    exact ⟨rfl, ⟨hpost, hpre.split⟩, rfl⟩

theorem rows_applyStandardPredicates {sess : Session A} {p q : LogicalPlan A} {es : List (LogicalExpr A)}
    (h : applyStandardPredicates sess p es = .ok q) :
    I.rows q = (Kleene.selectAll (es.map (I.truth (I.rows p))) (I.rows p).zipIdx).map Prod.fst := by
  cases es with
  | nil =>
    cases h
    exact (List.zipIdx_map_fst 0 _).symm
  | cons first rest =>
    obtain ⟨s, rfl⟩ := mkFilter_inv h
    exact congrArg _ (select_makeAndExpr (I.onFrame (I.rows p)) first rest _)

theorem rows_applyPredicates {sess : Session A} {p q : LogicalPlan A} {es : List (LogicalExpr A)}
    (h : applyPredicates sess p es = .ok q) : I.rows q = es.foldl (fun rows e => I.select e rows) (I.rows p) := by
  induction es generalizing p with
  | nil =>
    cases h
    rfl
  | cons e es ih =>
    simp only [applyPredicates, Except.bind_eq_ok] at h
    obtain ⟨f, hf, h⟩ := h
    obtain ⟨s, rfl⟩ := mkFilter_inv hf
    exact ih h

theorem rows_setCacheInfo (c : Option CacheInfo) (p : LogicalPlan A) : I.rows (setCacheInfo c p) = I.rows p := by
  cases p with
  | filter => rfl
  | node => rfl

mutual

theorem allFilters_true : ∀ p : LogicalPlan A, p.AllFilters fun _ _ => True
  | .filter input _ _ _ => ⟨allFilters_true input, trivial⟩
  | .node _ children _ _ => allFiltersList_true children

theorem allFiltersList_true : ∀ ps : List (LogicalPlan A), AllFiltersList (fun _ _ => True) ps
  | [] => trivial
  | p :: ps => ⟨allFilters_true p, allFiltersList_true ps⟩

end

theorem semanticFilterRewrite_keepsRows (sess : Session A) :
    FilterHook.KeepsRows (optimizeFilter sess) I (SplitMovable I) fun _ _ => True := by
  intro p e s c r h _ hpre
  obtain ⟨p', e', s', hplan, -⟩ := SemanticFilterRewriteRule.keepsCache sess p e s c r h
  refine ⟨?_, allFilters_true _, by rw [hplan]; rfl⟩
  unfold optimizeFilter at h
  split at h
  · cases h
    rfl
  simp only at h
  split at h
  · cases h
    rfl
  simp only [Except.bind_eq_ok, Except.pure_eq_ok, Except.ok.injEq] at h
  obtain ⟨standard, hstandard, result, hresult, rfl⟩ := h
  have hsemantic : ∀ c ∈ (partitionPredicates e).2, I.RowWise c := by
    intro c hc
    have hmem : c ∈ (partitionPredicates e).1 ++ (partitionPredicates e).2 := List.mem_append_right _ hc
    exact hpre c ((partitionPredicates_perm e).mem_iff.mp hmem) (countSemantic_of_mem_semantic hc)
  have hsub : ∀ position ∈ Kleene.selectAll ((partitionPredicates e).1.map (I.truth (I.rows p))) (I.rows p).zipIdx,
      position ∈ (I.rows p).zipIdx := fun position hposition => Kleene.mem_of_mem_selectAll hposition
  have hperm := (partitionPredicates_perm e).map (I.truth (I.rows p))
  show I.rows (setCacheInfo c result) = I.select e (I.rows p)
  calc I.rows (setCacheInfo c result)
      = (partitionPredicates e).2.foldl (fun rows e => I.select e rows) (I.rows standard) := by
        rw [rows_setCacheInfo, rows_applyPredicates hresult]
    _ = (Kleene.selectAll ((partitionPredicates e).2.map (I.truth (I.rows p)))
          (Kleene.selectAll ((partitionPredicates e).1.map (I.truth (I.rows p))) (I.rows p).zipIdx)).map Prod.fst := by
        rw [rows_applyStandardPredicates hstandard, FrameInterp.selectAll_map_fst hsemantic hsub]
    _ = (Kleene.selectAll ((conjuncts e).map (I.truth (I.rows p))) (I.rows p).zipIdx).map Prod.fst := by
        rw [← Kleene.selectAll_append, ← List.map_append, Kleene.selectAll_perm hperm]
    _ = I.select e (I.rows p) := congrArg _ (select_conjuncts (I.onFrame (I.rows p)) e _)

end Hooks

/-! ## Boundaries -/

open PlanConverter

mutual

/-- A sub-plan with a key that is not forgotten has its result, with that key, in the result of the plan. -/
theorem optimizeNode_subplan {sess : Session A} {hook : FilterHook A} (hhook : hook.KeepsCache) :
    ∀ (p : LogicalPlan A) (r : OptimizationResult A), optimizeNode sess hook p = .ok r →
      ∀ y key, Subplan y p → y.keptKey = some key →
        ∃ ry, optimizeNode sess hook y = .ok ry ∧ Subplan ry.plan r.plan ∧ ry.plan.keptKey = some key
  | .filter input e s c, r, h, y, key, hy, hkey => by
    have hself := h
    obtain ⟨child, hchild, s', -, result, hresult, rfl⟩ := optimizeNode_filter_eq_ok.mp h
    obtain ⟨p', e', s'', hplan, hpeel⟩ := hhook _ _ _ _ _ hresult
    cases hy with
    | refl =>
      refine ⟨_, hself, Subplan.refl _, ?_⟩
      show result.plan.keptKey = some key
      rw [hplan]
      exact hkey
    | child hc hy =>
      rw [LogicalPlan.children, List.mem_singleton] at hc
      obtain ⟨ry, hry, hsub, hrykey⟩ := optimizeNode_subplan hhook input child hchild y key (hc ▸ hy) hkey
      have hsub' : Subplan ry.plan p' := subplan_of_peel_eq hsub hrykey hpeel.symm
      refine ⟨ry, hry, ?_, hrykey⟩
      show Subplan ry.plan result.plan
      rw [hplan]
      exact Subplan.child (List.mem_singleton.mpr rfl) hsub'
  | .node op children s c, r, h, y, key, hy, hkey => by
    have hself := h
    obtain ⟨rs, hrs, p, hp, rfl⟩ := optimizeNode_node_eq_ok.mp h
    obtain ⟨s', -, rfl⟩ := withChildren_eq_ok.mp hp
    cases hy with
    | refl =>
      refine ⟨_, hself, Subplan.refl _, ?_⟩
      rw [← hkey]
      simp only [keptKey, keptCacheInfo]
      cases op.keepsCacheInfo <;> rfl
    | child hc hy =>
      obtain ⟨q, hq, ry, hry, hsub, hrykey⟩ := optimizeNodes_subplan hhook children rs hrs _ hc y key hy hkey
      exact ⟨ry, hry, Subplan.child hq hsub, hrykey⟩

theorem optimizeNodes_subplan {sess : Session A} {hook : FilterHook A} (hhook : hook.KeepsCache) :
    ∀ (ps : List (LogicalPlan A)) (rs : List (OptimizationResult A)), optimizeNodes sess hook ps = .ok rs →
      ∀ c ∈ ps, ∀ y key, Subplan y c → y.keptKey = some key →
        ∃ q ∈ rs.map OptimizationResult.plan, ∃ ry, optimizeNode sess hook y = .ok ry ∧ Subplan ry.plan q ∧
          ry.plan.keptKey = some key
  | [], rs, h, c, hc, y, key, hy, hkey => by cases hc
  | p :: ps, rs, h, c, hc, y, key, hy, hkey => by
    obtain ⟨r, hr, rs', hrs', rfl⟩ := optimizeNodes_cons_eq_ok.mp h
    rcases List.mem_cons.mp hc with heq | hc
    · obtain ⟨ry, hry⟩ := optimizeNode_subplan hhook p r hr y key (heq ▸ hy) hkey
      exact ⟨r.plan, by simp, ry, hry⟩
    · obtain ⟨q, hq, hrest⟩ := optimizeNodes_subplan hhook ps rs' hrs' c hc y key hy hkey
      exact ⟨q, List.mem_cons_of_mem _ hq, hrest⟩

end

/-- The keys that are not forgotten stand for the same rows in both plans. -/
structure SameKept (I : FrameInterp A Row) (p p' : LogicalPlan A) : Prop where
  forward : ∀ q key, Subplan q p → q.keptKey = some key → ∃ q', Subplan q' p' ∧ q'.keptKey = some key ∧ I.rows q' = I.rows q
  backward : ∀ q' key, Subplan q' p' → q'.keptKey = some key → ∃ q, Subplan q p ∧ q.keptKey = some key ∧ I.rows q' = I.rows q

variable {p : LogicalPlan A}

theorem SameKept.trans {I : FrameInterp A Row} {q r : LogicalPlan A} (h : SameKept I p q) (h' : SameKept I q r) :
    SameKept I p r where
  forward x key hx hkey := by
    obtain ⟨y, hy, hykey, hyrows⟩ := h.forward x key hx hkey
    obtain ⟨z, hz, hzkey, hzrows⟩ := h'.forward y key hy hykey
    exact ⟨z, hz, hzkey, hzrows.trans hyrows⟩
  backward z key hz hkey := by
    obtain ⟨y, hy, hykey, hyrows⟩ := h'.backward z key hz hkey
    obtain ⟨x, hx, hxkey, hxrows⟩ := h.backward y key hy hykey
    exact ⟨x, hx, hxkey, hyrows.trans hxrows⟩

theorem optimizeNode_sameKept {sess : Session A} {hook : FilterHook A} {I : FrameInterp A Row}
    {Pre Post : Bool → LogicalExpr A → Prop} (hcache : hook.KeepsCache) (hrows : hook.KeepsRows I Pre Post)
    {r : OptimizationResult A} (h : optimizeNode sess hook p = .ok r) (hp : p.AllFilters Pre) :
    SameKept I p r.plan where
  forward q key hq hkey := by
    obtain ⟨rq, hrq, hsub, hrqkey⟩ := optimizeNode_subplan hcache p r h q key hq hkey
    exact ⟨rq.plan, hsub, hrqkey, (rows_optimizeNode hrows q rq hrq (hp.subplan hq)).1⟩
  backward q' key hq' hkey := by
    obtain ⟨q, rq, hq, hqkey, hrq, rfl⟩ := subplan_optimizeNode hcache p r h q' key hq' hkey
    exact ⟨q, hq, hqkey, (rows_optimizeNode hrows q rq hrq (hp.subplan hq)).1⟩

theorem optimize_sameKept [BEq A] {sess : Session A} {I : FrameInterp A Row} {p : LogicalPlan A} {r : OptimizationResult A}
    (h : LogicalPlanOptimizer.optimize sess (LogicalPlanOptimizer.converterRules sess) p = .ok r)
    (hp : p.AllFilters (Movable I)) : SameKept I p r.plan := by
  simp only [LogicalPlanOptimizer.optimize, LogicalPlanOptimizer.converterRules, Except.bind_eq_ok,
    Except.pure_eq_ok, Except.ok.injEq] at h
  obtain ⟨r₁, h₁, _, ⟨r₂, h₂, _, ⟨r₃, h₃, _, rfl, rfl⟩, rfl⟩, rfl⟩ := h
  have hp₁ := (rows_optimizeNode (notFilterPushdown_keepsRows sess) p r₁ h₁ hp).2.1
  have hp₂ := (rows_optimizeNode (mergeFilters_keepsRows sess) r₁.plan r₂ h₂ hp₁).2.1
  have hpush := optimizeNode_sameKept (notFilterPushdown_keepsCache sess) (notFilterPushdown_keepsRows sess) h₁ hp
  have hmerge := optimizeNode_sameKept (mergeFilters_keepsCache sess) (mergeFilters_keepsRows sess) h₂ hp₁
  have hrewrite :=
    optimizeNode_sameKept (SemanticFilterRewriteRule.keepsCache sess) (semanticFilterRewrite_keepsRows sess) h₃ hp₂
  exact (hpush.trans hmerge).trans hrewrite

/-- Every node with a key has one with that key and the same rows in the second plan, which has no other keys. -/
def KeepsBoundaries (I : FrameInterp A Row) (p p' : LogicalPlan A) : Prop :=
  (∀ q key, Subplan q p → q.cacheKey = some key →
      ∃ q', Subplan q' p' ∧ q'.cacheKey = some key ∧ I.rows q' = I.rows q) ∧
    ∀ q' key, Subplan q' p' → q'.cacheKey = some key → ∃ q, Subplan q p ∧ q.cacheKey = some key

/-- Every node with a key is of a class that does not forget it, or another such node of the plan has the same key and
the same rows. -/
def KeysRemembered (I : FrameInterp A Row) (p : LogicalPlan A) : Prop :=
  ∀ q key, Subplan q p → q.cacheKey = some key → ∃ q', Subplan q' p ∧ q'.keptKey = some key ∧ I.rows q' = I.rows q

theorem cacheKey_of_keptKey {key : CacheKey} (h : p.keptKey = some key) : p.cacheKey = some key := by
  cases p with
  | filter => exact h
  | node op children s c =>
    simp only [keptKey, keptCacheInfo] at h
    split at h
    · exact h
    · cases h

section Example

open LogicalPlanOptimizer

/-- Frames of rows that a leaf never holds on. -/
def emptyInterp : FrameInterp Unit Unit where
  op _ _ := []
  leaf _ _ _ := some false

theorem optimize_flagFilter_column :
    ∃ modified, optimize plainSession (converterRules plainSession) (flagFilter (.column "a")) =
      .ok ⟨flagFilter (.column "a"), modified⟩ := by
  have hbuilt : buildFilter plainSession flagSchema (.column "a") = .ok flagSchema :=
    LogicalPlan.buildFilter_ok rfl rfl validate_flagSchema
  have hpush : LogicalExpr.pushNotInward (.column "a" : LogicalExpr Unit) = .ok (.column "a") :=
    LogicalExpr.pushNotInward_leaf rfl
  have hself : ((.column "a" : LogicalExpr Unit) != .column "a") = false := by decide
  refine ⟨false, ?_⟩
  simp [flagFilter, optimize, converterRules, optimizeNode, optimizeNodes, withChildren, rebuildSchema, LogicalPlan.schema,
    PlanOp.isSource, PlanOp.keepsCacheInfo, buildSchema, validate_flagSchema, hbuilt, hpush, hself,
    NotFilterPushdownRule.optimizeFilter, MergeFiltersRule.mergeFilter, SemanticFilterRewriteRule.optimizeFilter,
    SemanticFilterRewriteRule.isAndExpr]

/-- A persisted frame of Python data. -/
def persistedFrame : LogicalPlan Unit :=
  .node (.inMemorySource "flags") [] flagSchema (some ⟨some "key"⟩)

theorem optimize_persistedFrame :
    optimize plainSession (converterRules plainSession) persistedFrame =
      .ok ⟨.node (.inMemorySource "flags") [] flagSchema none, false⟩ := by
  simp [persistedFrame, optimize, converterRules, optimizeNode, optimizeNodes, withChildren, rebuildSchema,
    PlanOp.isSource, PlanOp.keepsCacheInfo, validate_flagSchema]

end Example

end Fenic
