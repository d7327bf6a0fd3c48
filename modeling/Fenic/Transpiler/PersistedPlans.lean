import Fenic.Transpiler.CacheRead

/-!
# `Transpiler.PersistedPlans` — the optimizer and the cache keys of a plan

`reads_available_iff` speaks about the plan the converter sees, which is the *optimized* one. This module shows
that the three rules leave alone what it depends on: the arrivals of the converter, and that a key names one
sub-plan. A rule may fuse or split filters without a key; a filter with a key stays where it is.

`convert_reads_available_iff` is the result for `PlanConverter.convert` as a whole.
-/

namespace Fenic

variable {A : Type}

namespace LogicalPlan

/-- The plan below its uppermost filters without a key. -/
def peel : LogicalPlan A → LogicalPlan A
  | .filter input _ _ none => peel input
  | p => p

/-- Peeling drops filters without a key only. -/
theorem subplan_peel {x p : LogicalPlan A} (h : Subplan x p) :
    Subplan x (peel p) ∨ ∃ q e s, x = .filter q e s none := by
  induction p using peel.induct with
  | case1 input e s ih =>
    cases h with
    | refl => exact Or.inr ⟨input, e, s, rfl⟩
    | child hc h =>
      rw [children, List.mem_singleton] at hc
      exact ih (hc ▸ h)
  | case2 p hne =>
    rw [peel.eq_2 p hne]
    exact Or.inl h

theorem peel_subplan (p : LogicalPlan A) : Subplan (peel p) p := by
  induction p using peel.induct with
  | case1 input e s ih => exact Subplan.child (List.mem_singleton.mpr rfl) ih
  | case2 p hne =>
    rw [peel.eq_2 p hne]
    exact Subplan.refl p

/-- A sub-plan with a key survives in any plan that peels to the same one. -/
theorem subplan_of_peel_eq {x p q : LogicalPlan A} {key : CacheKey} (h : Subplan x p)
    (hkey : x.keptKey = some key) (hpeel : peel p = peel q) : Subplan x q := by
  rcases subplan_peel h with h | ⟨p', e, s, rfl⟩
  · rw [hpeel] at h
    exact h.trans (peel_subplan q)
  · cases hkey

end LogicalPlan

open LogicalPlan

/-! ## The hooks -/

/-- A hook that puts one filter with the node's key over a plan that differs from the input by filters without
    a key. -/
def FilterHook.KeepsCache (hook : FilterHook A) : Prop :=
  ∀ (p : LogicalPlan A) (e : LogicalExpr A) (s : Schema) (c : Option CacheInfo) (r : OptimizationResult A),
    hook p e s c = .ok r → ∃ p' e' s', r.plan = .filter p' e' s' c ∧ peel p' = peel p

theorem mkFilter_inv {sess : Session A} {p q : LogicalPlan A} {e : LogicalExpr A} {c : Option CacheInfo}
    (h : mkFilter sess p e c = .ok q) : ∃ s, q = .filter p e s c := by
  simp only [mkFilter, Except.bind_eq_ok, Except.pure_eq_ok, Except.ok.injEq] at h
  obtain ⟨s, -, rfl⟩ := h
  exact ⟨s, rfl⟩

theorem notFilterPushdown_keepsCache [BEq A] (sess : Session A) :
    FilterHook.KeepsCache (NotFilterPushdownRule.optimizeFilter sess) := by
  intro p e s c r h
  simp only [NotFilterPushdownRule.optimizeFilter, Except.bind_eq_ok] at h
  obtain ⟨e', -, h⟩ := h
  split at h
  · simp only [Except.bind_eq_ok, Except.pure_eq_ok, Except.ok.injEq] at h
    obtain ⟨q, hq, rfl⟩ := h
    obtain ⟨s', rfl⟩ := mkFilter_inv hq
    exact ⟨p, e', s', rfl, rfl⟩
  · cases h
    exact ⟨p, e, s, rfl, rfl⟩

theorem mergeFilters_keepsCache (sess : Session A) :
    FilterHook.KeepsCache (MergeFiltersRule.mergeFilter sess) := by
  intro p e s c r h
  unfold MergeFiltersRule.mergeFilter at h
  split at h
  · rename_i inner e' s'
    simp only [Except.bind_eq_ok, Except.pure_eq_ok, Except.ok.injEq] at h
    obtain ⟨q, hq, rfl⟩ := h
    obtain ⟨s'', rfl⟩ := mkFilter_inv hq
    exact ⟨inner, _, s'', rfl, rfl⟩
  · cases h
    exact ⟨p, e, s, rfl, rfl⟩

namespace SemanticFilterRewriteRule

/-- `q` is `p` with filters without a key on top. -/
def Stacked (p q : LogicalPlan A) : Prop :=
  q = p ∨ ∃ q' e s, q = .filter q' e s none ∧ peel q' = peel p

variable {p q : LogicalPlan A}

theorem Stacked.peel_eq (h : Stacked p q) : peel q = peel p := by
  rcases h with rfl | ⟨q', e, s, rfl, hpeel⟩
  · rfl
  · exact hpeel

theorem Stacked.trans {r : LogicalPlan A} (h : Stacked p q) (h' : Stacked q r) : Stacked p r := by
  rcases h' with rfl | ⟨r', e, s, rfl, hpeel⟩
  · exact h
  · exact Or.inr ⟨r', e, s, rfl, hpeel.trans h.peel_eq⟩

theorem applyPredicates_stacked {sess : Session A} {es : List (LogicalExpr A)}
    (h : applyPredicates sess p es = .ok q) :
    Stacked p q ∧ (es ≠ [] → ∃ q' e s, q = .filter q' e s none ∧ peel q' = peel p) := by
  induction es generalizing p with
  | nil =>
    cases h
    exact ⟨Or.inl rfl, fun hne => absurd rfl hne⟩
  | cons e es ih =>
    simp only [applyPredicates, Except.bind_eq_ok] at h
    obtain ⟨f, hf, h⟩ := h
    obtain ⟨s, rfl⟩ := mkFilter_inv hf
    have hstep : Stacked p (.filter p e s none) := Or.inr ⟨p, e, s, rfl, rfl⟩
    have hrest := (ih h).1
    have hall : ∃ q' e' s', q = .filter q' e' s' none ∧ peel q' = peel p := by
      rcases hrest with rfl | ⟨q', e', s', rfl, hpeel⟩
      · exact ⟨p, e, s, rfl, rfl⟩
      · exact ⟨q', e', s', rfl, hpeel⟩
    exact ⟨hstep.trans hrest, fun _ => hall⟩

theorem applyStandardPredicates_stacked {sess : Session A} {es : List (LogicalExpr A)}
    (h : applyStandardPredicates sess p es = .ok q) :
    Stacked p q ∧ (es ≠ [] → ∃ q' e s, q = .filter q' e s none ∧ peel q' = peel p) := by
  cases es with
  | nil =>
    cases h
    exact ⟨Or.inl rfl, fun hne => absurd rfl hne⟩
  | cons first rest =>
    obtain ⟨s, rfl⟩ := mkFilter_inv h
    exact ⟨Or.inr ⟨p, _, s, rfl, rfl⟩, fun _ => ⟨p, _, s, rfl, rfl⟩⟩

theorem keepsCache (sess : Session A) : FilterHook.KeepsCache (optimizeFilter sess) := by
  intro p e s c r h
  unfold optimizeFilter at h
  split at h
  · cases h
    exact ⟨p, e, s, rfl, rfl⟩
  simp only at h
  split at h
  · cases h
    exact ⟨p, e, s, rfl, rfl⟩
  rename_i hmany
  simp only [Except.bind_eq_ok, Except.pure_eq_ok, Except.ok.injEq] at h
  obtain ⟨standard, hstandard, result, hresult, rfl⟩ := h
  obtain ⟨hstack, hnonempty⟩ := applyStandardPredicates_stacked hstandard
  obtain ⟨-, hnonempty'⟩ := applyPredicates_stacked hresult
  -- at least two predicates: one of the two lists put a filter on top
  have htop : ∃ q' e' s', result = .filter q' e' s' none ∧ peel q' = peel p := by
    by_cases hsem : (partitionPredicates e).2 = []
    · have hstd : (partitionPredicates e).1 ≠ [] := by
        intro hnil
        rw [hsem, hnil] at hmany
        simp at hmany
      rw [hsem] at hresult
      cases hresult
      exact hnonempty hstd
    · obtain ⟨q', e', s', hq', hpeel⟩ := hnonempty' hsem
      exact ⟨q', e', s', hq', hpeel.trans hstack.peel_eq⟩
  obtain ⟨q', e', s', rfl, hpeel⟩ := htop
  exact ⟨q', e', s', rfl, hpeel⟩

end SemanticFilterRewriteRule

namespace PlanConverter

open StoreTrace

/-! ## One rule -/

theorem arrivals_peel (store : List CacheKey) (p : LogicalPlan A) :
    ∀ keys, arrivals store keys (peel p) = arrivals store keys p := by
  induction p using peel.induct with
  | case1 input e s ih => exact ih
  | case2 p hne =>
    intro keys
    rw [peel.eq_2 p hne]

mutual

/-- A rule keeps the arrivals. -/
theorem arrivals_optimizeNode {sess : Session A} {hook : FilterHook A} (hhook : hook.KeepsCache)
    (store : List CacheKey) : ∀ (p : LogicalPlan A) (r : OptimizationResult A),
      optimizeNode sess hook p = .ok r → ∀ keys, arrivals store keys r.plan = arrivals store keys p
  | .filter input e s c, r, h, keys => by
    obtain ⟨child, hchild, s', -, result, hresult, rfl⟩ := optimizeNode_filter_eq_ok.mp h
    obtain ⟨p', e', s'', hplan, hpeel⟩ := hhook _ _ _ _ _ hresult
    have hin : ∀ ks, arrivals store ks p' = arrivals store ks input := by
      intro ks
      rw [← arrivals_peel, hpeel, arrivals_peel]
      exact arrivals_optimizeNode hhook store input child hchild ks
    rw [hplan]
    simp only [arrivals, keptCacheInfo, hin]
  | .node op children s c, r, h, keys => by
    obtain ⟨rs, hrs, p, hp, rfl⟩ := optimizeNode_node_eq_ok.mp h
    obtain ⟨s', -, rfl⟩ := withChildren_eq_ok.mp hp
    have hall := arrivalsChildren_optimizeNodes hhook store children rs hrs
    simp only [arrivals, keptCacheInfo, hall]
    cases op.keepsCacheInfo <;> rfl

theorem arrivalsChildren_optimizeNodes {sess : Session A} {hook : FilterHook A} (hhook : hook.KeepsCache)
    (store : List CacheKey) : ∀ (ps : List (LogicalPlan A)) (rs : List (OptimizationResult A)),
      optimizeNodes sess hook ps = .ok rs →
        ∀ keys, arrivalsChildren store keys (rs.map OptimizationResult.plan) = arrivalsChildren store keys ps
  | [], rs, h, keys => by
    cases h
    rfl
  | p :: ps, rs, h, keys => by
    obtain ⟨r, hr, rs', hrs', rfl⟩ := optimizeNodes_cons_eq_ok.mp h
    simp only [List.map_cons, arrivalsChildren, arrivals_optimizeNode hhook store p r hr,
      arrivalsChildren_optimizeNodes hhook store ps rs' hrs']

end

mutual

/-- A sub-plan with a key in the result is the result of a sub-plan with that key. -/
theorem subplan_optimizeNode {sess : Session A} {hook : FilterHook A} (hhook : hook.KeepsCache) :
    ∀ (p : LogicalPlan A) (r : OptimizationResult A), optimizeNode sess hook p = .ok r →
      ∀ x key, Subplan x r.plan → x.keptKey = some key →
        ∃ y ry, Subplan y p ∧ y.keptKey = some key ∧ optimizeNode sess hook y = .ok ry ∧ ry.plan = x
  | .filter input e s c, r, h, x, key, hx, hkey => by
    have hself := h
    obtain ⟨child, hchild, s', -, result, hresult, rfl⟩ := optimizeNode_filter_eq_ok.mp h
    obtain ⟨p', e', s'', hplan, hpeel⟩ := hhook _ _ _ _ _ hresult
    simp only [hplan] at hx hself
    cases hx with
    | refl => exact ⟨_, _, Subplan.refl _, hkey, hself, rfl⟩
    | child hc hx =>
      rw [LogicalPlan.children, List.mem_singleton] at hc
      have hx' : Subplan x child.plan := subplan_of_peel_eq (hc ▸ hx) hkey hpeel
      obtain ⟨y, ry, hy, hrest⟩ := subplan_optimizeNode hhook input child hchild x key hx' hkey
      exact ⟨y, ry, Subplan.child (List.mem_singleton.mpr rfl) hy, hrest⟩
  | .node op children s c, r, h, x, key, hx, hkey => by
    have hself := h
    obtain ⟨rs, hrs, p, hp, rfl⟩ := optimizeNode_node_eq_ok.mp h
    obtain ⟨s', -, rfl⟩ := withChildren_eq_ok.mp hp
    cases hx with
    | refl =>
      refine ⟨_, _, Subplan.refl _, ?_, hself, rfl⟩
      rw [← hkey]
      simp only [keptKey, keptCacheInfo]
      cases op.keepsCacheInfo <;> rfl
    | child hc hx =>
      obtain ⟨c', hc', y, ry, hy, hrest⟩ := subplan_optimizeNodes hhook children rs hrs _ hc x key hx hkey
      exact ⟨y, ry, Subplan.child hc' hy, hrest⟩

theorem subplan_optimizeNodes {sess : Session A} {hook : FilterHook A} (hhook : hook.KeepsCache) :
    ∀ (ps : List (LogicalPlan A)) (rs : List (OptimizationResult A)), optimizeNodes sess hook ps = .ok rs →
      ∀ q ∈ rs.map OptimizationResult.plan, ∀ x key, Subplan x q → x.keptKey = some key →
        ∃ c ∈ ps, ∃ y ry, Subplan y c ∧ y.keptKey = some key ∧ optimizeNode sess hook y = .ok ry ∧ ry.plan = x
  | [], rs, h, q, hq, x, key, hx, hkey => by
    cases h
    cases hq
  | p :: ps, rs, h, q, hq, x, key, hx, hkey => by
    obtain ⟨r, hr, rs', hrs', rfl⟩ := optimizeNodes_cons_eq_ok.mp h
    rcases List.mem_cons.mp hq with heq | hq
    · obtain ⟨y, ry, hy⟩ := subplan_optimizeNode hhook p r hr x key (heq ▸ hx) hkey
      exact ⟨p, by simp, y, ry, hy⟩
    · obtain ⟨c, hc, hrest⟩ := subplan_optimizeNodes hhook ps rs' hrs' q hq x key hx hkey
      exact ⟨c, by simp [hc], hrest⟩

end

variable {p : LogicalPlan A}

/-- A key still names one sub-plan after a rule, which treats equal sub-plans alike. -/
theorem keysIdentify_optimizeNode {sess : Session A} {hook : FilterHook A} (hhook : hook.KeepsCache)
    {r : OptimizationResult A} (h : optimizeNode sess hook p = .ok r)
    (hid : KeysIdentify p) : KeysIdentify r.plan := by
  intro q q' key hq hq' hkey hkey'
  obtain ⟨y, ry, hy, hyk, hry, rfl⟩ := subplan_optimizeNode hhook p r h q key hq hkey
  obtain ⟨y', ry', hy', hyk', hry', rfl⟩ := subplan_optimizeNode hhook p r h q' key hq' hkey'
  rw [hid y y' key hy hy' hyk hyk', hry'] at hry
  cases hry
  rfl

theorem cacheKept_of_children (hp : p.cacheInfo = p.keptCacheInfo)
    (h : ∀ c ∈ p.children, CacheKept c) : CacheKept p := by
  intro x hx
  cases hx with
  | refl => exact hp
  | child hc hx => exact h _ hc x hx

mutual

/-- What a rule returns has no forgotten keys left. -/
theorem cacheKept_optimizeNode {sess : Session A} {hook : FilterHook A} (hhook : hook.KeepsCache) :
    ∀ (p : LogicalPlan A) (r : OptimizationResult A), optimizeNode sess hook p = .ok r → CacheKept r.plan
  | .filter input e s c, r, h => by
    obtain ⟨child, hchild, s', -, result, hresult, rfl⟩ := optimizeNode_filter_eq_ok.mp h
    obtain ⟨p', e', s'', hplan, hpeel⟩ := hhook _ _ _ _ _ hresult
    have hkept := cacheKept_optimizeNode hhook input child hchild
    rw [hplan]
    refine cacheKept_of_children rfl ?_
    intro q hq x hx
    rw [LogicalPlan.children, List.mem_singleton] at hq
    rcases subplan_peel (hq ▸ hx) with hx | ⟨_, _, _, rfl⟩
    · rw [hpeel] at hx
      exact hkept x (hx.trans (peel_subplan _))
    · rfl
  | .node op children s c, r, h => by
    obtain ⟨rs, hrs, p, hp, rfl⟩ := optimizeNode_node_eq_ok.mp h
    obtain ⟨s', -, rfl⟩ := withChildren_eq_ok.mp hp
    refine cacheKept_of_children ?_ (cacheKept_optimizeNodes hhook children rs hrs)
    simp only [cacheInfo, keptCacheInfo]
    cases op.keepsCacheInfo <;> rfl

theorem cacheKept_optimizeNodes {sess : Session A} {hook : FilterHook A} (hhook : hook.KeepsCache) :
    ∀ (ps : List (LogicalPlan A)) (rs : List (OptimizationResult A)), optimizeNodes sess hook ps = .ok rs →
      ∀ q ∈ rs.map OptimizationResult.plan, CacheKept q
  | [], rs, h, q, hq => by
    cases h
    cases hq
  | p :: ps, rs, h, q, hq => by
    obtain ⟨r, hr, rs', hrs', rfl⟩ := optimizeNodes_cons_eq_ok.mp h
    rcases List.mem_cons.mp hq with heq | hq
    · exact heq ▸ cacheKept_optimizeNode hhook p r hr
    · exact cacheKept_optimizeNodes hhook ps rs' hrs' q hq

end

/-! ## The converter -/

/-- `q` has the arrivals of `p`, its keys name one sub-plan if those of `p` do, and none is forgotten. -/
structure KeepsKeys (p q : LogicalPlan A) : Prop where
  arrivals_eq : ∀ store keys, arrivals store keys q = arrivals store keys p
  keysIdentify : KeysIdentify p → KeysIdentify q
  cacheKept : CacheKept q

theorem optimizeNode_keepsKeys {sess : Session A} {hook : FilterHook A} (hhook : hook.KeepsCache)
    {r : OptimizationResult A} (h : optimizeNode sess hook p = .ok r) :
    KeepsKeys p r.plan :=
  ⟨fun store => arrivals_optimizeNode hhook store p r h, keysIdentify_optimizeNode hhook h,
    cacheKept_optimizeNode hhook p r h⟩

theorem KeepsKeys.trans {q r : LogicalPlan A} (h : KeepsKeys p q) (h' : KeepsKeys q r) : KeepsKeys p r :=
  ⟨fun store keys => (h'.arrivals_eq store keys).trans (h.arrivals_eq store keys),
    fun hid => h'.keysIdentify (h.keysIdentify hid), h'.cacheKept⟩

/-- The optimizer keeps the keys of every plan it returns on. -/
theorem optimize_keepsKeys [BEq A] {sess : Session A} {p : LogicalPlan A} {r : OptimizationResult A}
    (h : LogicalPlanOptimizer.optimize sess (LogicalPlanOptimizer.converterRules sess) p = .ok r) :
    KeepsKeys p r.plan := by
  simp only [LogicalPlanOptimizer.optimize, LogicalPlanOptimizer.converterRules, Except.bind_eq_ok,
    Except.pure_eq_ok, Except.ok.injEq] at h
  obtain ⟨r₁, h₁, _, ⟨r₂, h₂, _, ⟨r₃, h₃, _, rfl, rfl⟩, rfl⟩, rfl⟩ := h
  have hpush : KeepsKeys p r₁.plan := optimizeNode_keepsKeys (notFilterPushdown_keepsCache sess) h₁
  have hmerge : KeepsKeys r₁.plan r₂.plan := optimizeNode_keepsKeys (mergeFilters_keepsCache sess) h₂
  have hrewrite : KeepsKeys r₂.plan r₃.plan :=
    optimizeNode_keepsKeys (SemanticFilterRewriteRule.keepsCache sess) h₃
  exact (hpush.trans hmerge).trans hrewrite

/-- **Running the plan that `convert` returns reads only available keys exactly when the converter comes to
    each persisted file, table or document source whose key is not in the store at most once.** -/
theorem convert_reads_available_iff [BEq A] (sess : Session A) (store : List CacheKey) (p : LogicalPlan A)
    (phys : PhysicalPlan A) (hid : KeysIdentify p) (hconv : convert sess store p = .ok phys) :
    Available store (phys.execute store) ↔ SourcesReachedOnce store p := by
  simp only [convert, Except.bind_eq_ok, Except.pure_eq_ok, Except.ok.injEq] at hconv
  obtain ⟨r, hr, rfl⟩ := hconv
  have hkeys := optimize_keepsKeys hr
  rw [reads_available_iff store (hkeys.keysIdentify hid) hkeys.cacheKept]
  simp only [SourcesReachedOnce, hkeys.arrivals_eq]

/-! ## Two unions of a persisted frame with itself -/

section Example

open LogicalPlanOptimizer

/-- The union of a plan with itself. -/
def selfUnion (p : LogicalPlan Unit) : LogicalPlan Unit := .node .union [p, p] p.schema none

/-- A persisted file source. -/
def persistedSource : LogicalPlan Unit :=
  .node (.fileSource ["flags.csv"] "csv") [] flagSchema (some ⟨some "key"⟩)

/-- A persisted limit over the same source, not persisted itself. -/
def persistedLimit : LogicalPlan Unit :=
  .node (.limit 10) [.node (.fileSource ["flags.csv"] "csv") [] flagSchema none] flagSchema (some ⟨some "key"⟩)

theorem selfUnion_schema : buildSchema plainSession .union [flagSchema, flagSchema] = .ok flagSchema := by
  decide

theorem limit_schema : buildSchema plainSession (.limit 10) [flagSchema] = .ok flagSchema := by decide

/-- The only sub-plan with a key in a self-union is the plan itself, when nothing below it has one. -/
theorem keysIdentify_selfUnion {p : LogicalPlan Unit}
    (h : ∀ x key, Subplan x p → x.keptKey = some key → x = p) : KeysIdentify (selfUnion p) := by
  have hself : ∀ x key, Subplan x (selfUnion p) → x.keptKey = some key → x = p := by
    intro x key hx hkey
    cases hx with
    | refl => cases hkey
    | child hc hx =>
      rename_i c
      have hcp : c = p := by simpa [selfUnion, LogicalPlan.children] using hc
      exact h x key (hcp ▸ hx) hkey
  intro q q' key hq hq' hkey hkey'
  rw [hself q key hq hkey, hself q' key hq' hkey']

theorem keysIdentify_selfUnion_limit : KeysIdentify (selfUnion persistedLimit) := by
  refine keysIdentify_selfUnion (fun x key hx hkey => ?_)
  cases hx with
  | refl => rfl
  | child hc hx =>
    rw [List.mem_singleton.mp hc] at hx
    cases hx with
    | refl => cases hkey
    | child hc _ => cases hc

/-- Every read of the self-union of a persisted limit is available. -/
theorem selfUnion_limit_reads_available :
    ∃ phys, convert plainSession [] (selfUnion persistedLimit) = .ok phys ∧
      Available [] (phys.execute []) := by
  have hconv : convert plainSession [] (selfUnion persistedLimit)
      = .ok (convertToPhysicalPlan [] [] (selfUnion persistedLimit)).1 := by
    simp [convert, optimize, converterRules, selfUnion, persistedLimit, optimizeNode, optimizeNodes,
      withChildren, rebuildSchema, LogicalPlan.schema, PlanOp.isSource, PlanOp.keepsCacheInfo,
      selfUnion_schema, limit_schema, validate_flagSchema]
  refine ⟨_, hconv, (convert_reads_available_iff plainSession [] (selfUnion persistedLimit) _
    keysIdentify_selfUnion_limit hconv).mpr ?_⟩
  intro key _
  have harr : (arrivals [] [] (selfUnion persistedLimit)).1 = [(some "key", false), (some "key", false)] := by
    decide
  rw [harr]
  simp

/-- **The self-union of a persisted source reads a key that nothing writes.** -/
theorem selfUnion_source_read_unavailable :
    KeysIdentify (selfUnion persistedSource) ∧
      ∃ phys, convert plainSession [] (selfUnion persistedSource) = .ok phys ∧
        ¬ Available [] (phys.execute []) := by
  refine ⟨?_, (convertToPhysicalPlan [] [] (selfUnion persistedSource)).1, ?_, ?_⟩
  · refine keysIdentify_selfUnion (fun x key hx _ => ?_)
    cases hx with
    | refl => rfl
    | child hc _ => cases hc
  · simp [convert, optimize, converterRules, selfUnion, persistedSource, optimizeNode, optimizeNodes,
      withChildren, rebuildSchema, LogicalPlan.schema, PlanOp.isSource, PlanOp.keepsCacheInfo,
      selfUnion_schema, validate_flagSchema]
  · intro havail
    have hrun : (convertToPhysicalPlan [] [] (selfUnion persistedSource)).1.execute []
        = [.read (some "key")] := by decide
    rcases havail [] [] (some "key") hrun with hmem | hmem
    · cases hmem
    · cases hmem

end Example

end PlanConverter

end Fenic
