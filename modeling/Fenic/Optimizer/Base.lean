import Fenic.LogicalPlan.Plan

/-!
# `Optimizer.Base` — the traversal every rule shares

Each rule walks a plan bottom-up, rebuilds every node over its rewritten children and then hands the filters
to its own hook. The traversal is `optimizeNode`, with the hook as a parameter, and a rule is proved by what
its hook does on *one* filter: `optimizeNode_refines` carries that to every plan.

`Refines p q` is what a rule owes: `q` is again an accepted plan of the same schema with row-wise leaves, and
it has the rows of `p` in the same order.

`MergeFiltersRule` conjoins two filters in a row, unless the lower one was persisted: its frame has to be
materialised on its own. The outer predicate becomes the *left* operand.
-/

namespace Fenic

variable {A : Type}

/-- `OptimizationResult`. -/
structure OptimizationResult (A : Type) where
  plan : LogicalPlan A
  wasModified : Bool

/-- What a rule does with a filter, given its rewritten input, its predicate, its schema and its cache key. -/
abbrev FilterHook (A : Type) :=
  LogicalPlan A → LogicalExpr A → Schema → Option CacheInfo → Except PyException (OptimizationResult A)

mutual

/-- `optimize_node`, the same in the three rules up to the hook. -/
def optimizeNode (sess : Session A) (hook : FilterHook A) :
    LogicalPlan A → Except PyException (OptimizationResult A)
  | .filter input predicate _ cache => do
    let child ← optimizeNode sess hook input
    -- `Filter.with_children` re-runs the constructor before the hook sees the node
    let s ← buildFilter sess child.plan.schema predicate
    let result ← hook child.plan predicate s cache
    pure ⟨result.plan, child.wasModified || result.wasModified⟩
  | .node op children stored cache => do
    let optimized ← optimizeNodes sess hook children
    let newNode ← LogicalPlan.withChildren sess op stored cache (optimized.map OptimizationResult.plan)
    pure ⟨newNode, optimized.any OptimizationResult.wasModified⟩

def optimizeNodes (sess : Session A) (hook : FilterHook A) :
    List (LogicalPlan A) → Except PyException (List (OptimizationResult A))
  | [] => pure []
  | p :: ps => do
    let r ← optimizeNode sess hook p
    let rs ← optimizeNodes sess hook ps
    pure (r :: rs)

end

/-! ## What the traversal returns -/

section

variable {sess : Session A} {hook : FilterHook A} {s : Schema} {c : Option CacheInfo} {r : OptimizationResult A}

theorem optimizeNode_filter_eq_ok {input : LogicalPlan A} {e : LogicalExpr A} :
    optimizeNode sess hook (.filter input e s c) = .ok r ↔
      ∃ child, optimizeNode sess hook input = .ok child ∧ ∃ s', buildFilter sess child.plan.schema e = .ok s' ∧
        ∃ result, hook child.plan e s' c = .ok result ∧ ⟨result.plan, child.wasModified || result.wasModified⟩ = r := by
  simp only [optimizeNode, Except.bind_eq_ok, Except.pure_eq_ok, Except.ok.injEq]

theorem optimizeNode_node_eq_ok {op : PlanOp A} {children : List (LogicalPlan A)} :
    optimizeNode sess hook (.node op children s c) = .ok r ↔ ∃ rs, optimizeNodes sess hook children = .ok rs ∧
      ∃ p, LogicalPlan.withChildren sess op s c (rs.map OptimizationResult.plan) = .ok p ∧
        ⟨p, rs.any OptimizationResult.wasModified⟩ = r := by
  simp only [optimizeNode, Except.bind_eq_ok, Except.pure_eq_ok, Except.ok.injEq]

theorem optimizeNodes_cons_eq_ok {p : LogicalPlan A} {ps : List (LogicalPlan A)} {rs : List (OptimizationResult A)} :
    optimizeNodes sess hook (p :: ps) = .ok rs ↔
      ∃ r, optimizeNode sess hook p = .ok r ∧ ∃ rs', optimizeNodes sess hook ps = .ok rs' ∧ r :: rs' = rs := by
  simp only [optimizeNodes, Except.bind_eq_ok, Except.pure_eq_ok, Except.ok.injEq]

theorem LogicalPlan.withChildren_eq_ok {op : PlanOp A} {children : List (LogicalPlan A)} {p : LogicalPlan A} :
    withChildren sess op s c children = .ok p ↔
      ∃ s', rebuildSchema sess op s children = .ok s' ∧ .node op children s' (if op.keepsCacheInfo then c else none) = p := by
  simp only [withChildren, Except.bind_eq_ok, Except.pure_eq_ok, Except.ok.injEq]

end

/-! ## What a rule owes -/

/-- An accepted plan whose filter predicates have row-wise leaves. -/
structure WellFormed (sess : Session A) (p : LogicalPlan A) : Prop where
  accepted : p.Accepted sess
  rowwise : p.AllPredicates (fun e => e.rowwise = true)

/-- `q` may replace `p`. -/
structure Refines (sess : Session A) (p q : LogicalPlan A) : Prop where
  wellFormed : WellFormed sess q
  schema_eq : q.schema = p.schema
  equivalent : p.Equivalent q

variable {p : LogicalPlan A}

theorem Refines.refl {sess : Session A} (h : WellFormed sess p) : Refines sess p p :=
  ⟨h, rfl, fun _ _ => rfl⟩

theorem Refines.trans {sess : Session A} {q r : LogicalPlan A} (h : Refines sess p q)
    (h' : Refines sess q r) : Refines sess p r :=
  ⟨h'.wellFormed, h'.schema_eq.trans h.schema_eq, fun Row I => (h.equivalent Row I).trans (h'.equivalent Row I)⟩

/-- Pointwise refinement of two child lists. -/
abbrev RefinesAll (sess : Session A) : List (LogicalPlan A) → List (LogicalPlan A) → Prop :=
  List.Forall₂ (Refines sess)

namespace LogicalPlan

mutual

theorem allPredicates_true : ∀ p : LogicalPlan A, AllPredicates (fun _ => True) p
  | .filter input _ _ _ => ⟨allPredicates_true input, trivial⟩
  | .node _ children _ _ => allPredicatesList_true children

theorem allPredicatesList_true : ∀ ps : List (LogicalPlan A), AllPredicatesList (fun _ => True) ps
  | [] => trivial
  | p :: ps => ⟨allPredicates_true p, allPredicatesList_true ps⟩

end

end LogicalPlan

variable {s : Schema} {c : Option CacheInfo}

/-- A filter over an accepted input is well formed when its constructor accepts its row-wise predicate. -/
theorem WellFormed.filter {sess : Session A} {e : LogicalExpr A}
    (hp : WellFormed sess p) (he : e.rowwise = true)
    (hs : buildFilter sess p.schema e = .ok s) : WellFormed sess (.filter p e s c) :=
  ⟨⟨hp.accepted, hs⟩, ⟨hp.rowwise, he⟩⟩

namespace RefinesAll

variable {sess : Session A} {ps qs : List (LogicalPlan A)}

theorem schemas (h : RefinesAll sess ps qs) : qs.map LogicalPlan.schema = ps.map LogicalPlan.schema := by
  induction h with
  | nil => rfl
  | cons hd _ ih => simp [hd.schema_eq, ih]

theorem accepted (h : RefinesAll sess ps qs) : LogicalPlan.AcceptedAll sess qs := by
  induction h with
  | nil => trivial
  | cons hd _ ih => exact ⟨hd.wellFormed.accepted, ih⟩

theorem rowwise (h : RefinesAll sess ps qs) :
    LogicalPlan.AllPredicatesList (fun e => e.rowwise = true) qs := by
  induction h with
  | nil => trivial
  | cons hd _ ih => exact ⟨hd.wellFormed.rowwise, ih⟩

theorem denoteAll_eq (h : RefinesAll sess ps qs) {Row : Type} (I : Interp A Row) :
    LogicalPlan.denoteAll I ps = LogicalPlan.denoteAll I qs := by
  induction h with
  | nil => rfl
  | cons hd _ ih => simp only [LogicalPlan.denoteAll, hd.equivalent Row I, ih]

end RefinesAll

/-- Rebuilding a node over refined children succeeds and refines the node. -/
theorem withChildren_refines {sess : Session A} {op : PlanOp A} {ps qs : List (LogicalPlan A)}
    (hnode : WellFormed sess (.node op ps s c)) (h : RefinesAll sess ps qs) :
    ∃ p, LogicalPlan.withChildren sess op s c qs = .ok p ∧ Refines sess (.node op ps s c) p := by
  refine ⟨.node op qs s (if op.keepsCacheInfo then c else none), ?_, ⟨⟨?_, ?_⟩, rfl, ?_⟩⟩
  · have hbuilt := hnode.accepted.2
    unfold LogicalPlan.withChildren LogicalPlan.rebuildSchema
    cases hsrc : op.isSource with
    | true =>
      rw [if_pos hsrc] at hbuilt
      obtain ⟨rfl, hs⟩ := hbuilt
      cases h
      simp [hs]
    | false =>
      rw [if_neg (by simp [hsrc])] at hbuilt
      simp [h.schemas, hbuilt]
  · refine ⟨h.accepted, ?_⟩
    have hbuilt := hnode.accepted.2
    cases hsrc : op.isSource with
    | true =>
      rw [if_pos hsrc] at hbuilt
      obtain ⟨rfl, hs⟩ := hbuilt
      cases h
      simp [hs]
    | false =>
      rw [if_neg (by simp [hsrc])] at hbuilt
      simp [h.schemas, hbuilt]
  · exact h.rowwise
  · intro Row I
    simp only [LogicalPlan.denote, h.denoteAll_eq I]

/-! ## From one filter to a whole plan -/

/-- A hook that handles every filter whose predicate satisfies `P`. -/
def FilterHook.Handles (sess : Session A) (hook : FilterHook A) (P : LogicalExpr A → Prop) : Prop :=
  ∀ (p : LogicalPlan A) (e : LogicalExpr A) (s : Schema) (c : Option CacheInfo),
    WellFormed sess (.filter p e s c) → P e →
      ∃ r, hook p e s c = .ok r ∧ Refines sess (.filter p e s c) r.plan

/-- Filtering a refined input refines the filter. -/
theorem Refines.filter {sess : Session A} {q : LogicalPlan A} {e : LogicalExpr A}
    (hnode : WellFormed sess (.filter p e s c)) (h : Refines sess p q) :
    Refines sess (.filter p e s c) (.filter q e s c) := by
  refine ⟨h.wellFormed.filter hnode.rowwise.2 ?_, rfl, ?_⟩
  · rw [h.schema_eq]
    exact hnode.accepted.2
  · intro Row I
    simp only [LogicalPlan.denote_filter, h.equivalent Row I]

mutual

/-- **If the hook handles the predicates of a plan, the traversal returns a plan that refines it.** -/
theorem optimizeNode_refines {sess : Session A} {hook : FilterHook A} {P : LogicalExpr A → Prop}
    (hhook : hook.Handles sess P) :
    ∀ (p : LogicalPlan A), WellFormed sess p → p.AllPredicates P →
      ∃ r, optimizeNode sess hook p = .ok r ∧ Refines sess p r.plan
  | .filter input e s c, hwf, hP => by
    obtain ⟨child, hchild, hin⟩ :=
      optimizeNode_refines hhook input ⟨hwf.accepted.1, hwf.rowwise.1⟩ hP.1
    have hfilter : Refines sess (.filter input e s c) (.filter child.plan e s c) := hin.filter hwf
    obtain ⟨r, hr, href⟩ := hhook child.plan e s c hfilter.wellFormed hP.2
    have hbuilt : buildFilter sess child.plan.schema e = .ok s := hfilter.wellFormed.accepted.2
    refine ⟨⟨r.plan, child.wasModified || r.wasModified⟩, ?_, hfilter.trans href⟩
    simp [optimizeNode, hchild, hbuilt, hr]
  | .node op children s c, hwf, hP => by
    obtain ⟨rs, hrs, hall⟩ := optimizeNodes_refines hhook children hwf.accepted.1 hwf.rowwise hP
    obtain ⟨q, hq, href⟩ := withChildren_refines hwf hall
    refine ⟨⟨q, rs.any OptimizationResult.wasModified⟩, ?_, href⟩
    simp [optimizeNode, hrs, hq]

theorem optimizeNodes_refines {sess : Session A} {hook : FilterHook A} {P : LogicalExpr A → Prop}
    (hhook : hook.Handles sess P) :
    ∀ (ps : List (LogicalPlan A)), LogicalPlan.AcceptedAll sess ps →
      LogicalPlan.AllPredicatesList (fun e => e.rowwise = true) ps → LogicalPlan.AllPredicatesList P ps →
      ∃ rs, optimizeNodes sess hook ps = .ok rs ∧ RefinesAll sess ps (rs.map OptimizationResult.plan)
  | [], _, _, _ => ⟨[], rfl, List.Forall₂.nil⟩
  | p :: ps, hacc, hrow, hP => by
    obtain ⟨r, hr, href⟩ := optimizeNode_refines hhook p ⟨hacc.1, hrow.1⟩ hP.1
    obtain ⟨rs, hrs, hall⟩ := optimizeNodes_refines hhook ps hacc.2 hrow.2 hP.2
    refine ⟨r :: rs, ?_, List.Forall₂.cons href hall⟩
    simp [optimizeNodes, hr, hrs]

end

mutual

/-- If the hook returns only on predicates that satisfy `P`, so does the traversal. -/
theorem allPredicates_of_optimizeNode {sess : Session A} {hook : FilterHook A} {P : LogicalExpr A → Prop}
    (hhook : ∀ p e s c r, hook p e s c = .ok r → P e) :
    ∀ (p : LogicalPlan A) (r : OptimizationResult A), optimizeNode sess hook p = .ok r → p.AllPredicates P
  | .filter input e s c, r, h => by
    obtain ⟨child, hchild, s', -, r', hr', -⟩ := optimizeNode_filter_eq_ok.mp h
    exact ⟨allPredicates_of_optimizeNode hhook input child hchild, hhook _ _ _ _ _ hr'⟩
  | .node op children s c, r, h => by
    obtain ⟨rs, hrs, -⟩ := optimizeNode_node_eq_ok.mp h
    exact allPredicates_of_optimizeNodes hhook children rs hrs

theorem allPredicates_of_optimizeNodes {sess : Session A} {hook : FilterHook A} {P : LogicalExpr A → Prop}
    (hhook : ∀ p e s c r, hook p e s c = .ok r → P e) :
    ∀ (ps : List (LogicalPlan A)) (rs : List (OptimizationResult A)),
      optimizeNodes sess hook ps = .ok rs → LogicalPlan.AllPredicatesList P ps
  | [], _, _ => trivial
  | p :: ps, rs, h => by
    obtain ⟨r, hr, rs', hrs', -⟩ := optimizeNodes_cons_eq_ok.mp h
    exact ⟨allPredicates_of_optimizeNode hhook p r hr, allPredicates_of_optimizeNodes hhook ps rs' hrs'⟩

end

mutual

/-- A property that the hook gives to a filter, and `with_children` to any other node, holds of what the traversal returns. -/
theorem optimizeNode_ensures {sess : Session A} {hook : FilterHook A} {Q : LogicalPlan A → Prop}
    (hfilter : ∀ p e s c r, hook p e s c = .ok r → buildFilter sess p.schema e = .ok s → Q p → Q r.plan)
    (hnode : ∀ op children s c p, LogicalPlan.withChildren sess op s c children = .ok p → (∀ q ∈ children, Q q) → Q p) :
    ∀ (p : LogicalPlan A) (r : OptimizationResult A), optimizeNode sess hook p = .ok r → Q r.plan
  | .filter input e s c, r, h => by
    obtain ⟨child, hchild, s', hs', result, hresult, rfl⟩ := optimizeNode_filter_eq_ok.mp h
    have hchildQ : Q child.plan := optimizeNode_ensures hfilter hnode input child hchild
    show Q result.plan
    exact hfilter _ _ _ _ _ hresult hs' hchildQ
  | .node op children s c, r, h => by
    obtain ⟨rs, hrs, p, hp, rfl⟩ := optimizeNode_node_eq_ok.mp h
    exact hnode _ _ _ _ _ hp (optimizeNodes_ensures hfilter hnode children rs hrs)

theorem optimizeNodes_ensures {sess : Session A} {hook : FilterHook A} {Q : LogicalPlan A → Prop}
    (hfilter : ∀ p e s c r, hook p e s c = .ok r → buildFilter sess p.schema e = .ok s → Q p → Q r.plan)
    (hnode : ∀ op children s c p, LogicalPlan.withChildren sess op s c children = .ok p → (∀ q ∈ children, Q q) → Q p) :
    ∀ (ps : List (LogicalPlan A)) (rs : List (OptimizationResult A)), optimizeNodes sess hook ps = .ok rs →
      ∀ q ∈ rs.map OptimizationResult.plan, Q q
  | [], rs, h, q, hq => by
    cases h
    cases hq
  | p :: ps, rs, h, q, hq => by
    obtain ⟨r, hr, rs', hrs', rfl⟩ := optimizeNodes_cons_eq_ok.mp h
    rcases List.mem_cons.mp hq with heq | hq
    · exact heq ▸ optimizeNode_ensures hfilter hnode p r hr
    · exact optimizeNodes_ensures hfilter hnode ps rs' hrs' q hq

end

/-! ## The second run -/

namespace FilterHook

/-- The traversal finds nothing to do. -/
def Keeps (sess : Session A) (hook : FilterHook A) (p : LogicalPlan A) : Prop := optimizeNode sess hook p = .ok ⟨p, false⟩

variable {sess : Session A} {hook : FilterHook A}

theorem Keeps.filter {e : LogicalExpr A} (h : hook.Keeps sess p) (hbuilt : buildFilter sess p.schema e = .ok s)
    (hhook : hook p e s c = .ok ⟨.filter p e s c, false⟩) : hook.Keeps sess (.filter p e s c) := by
  unfold Keeps at h ⊢
  rw [optimizeNode, h, Except.ok_bind, hbuilt, Except.ok_bind, hhook]
  rfl

/-- A node over children with nothing to do has nothing to do either. -/
theorem keeps_withChildren {op : PlanOp A} {children : List (LogicalPlan A)} (h : LogicalPlan.withChildren sess op s c children = .ok p)
    (hchildren : ∀ q ∈ children, hook.Keeps sess q) : hook.Keeps sess p := by
  obtain ⟨s', hs', rfl⟩ := LogicalPlan.withChildren_eq_ok.mp h
  have hall : ∀ ps : List (LogicalPlan A), (∀ q ∈ ps, hook.Keeps sess q) →
      optimizeNodes sess hook ps = .ok (ps.map fun q => ⟨q, false⟩) := by
    intro ps hps
    induction ps with
    | nil => rfl
    | cons q ps ih =>
      rw [optimizeNodes, hps q List.mem_cons_self, Except.ok_bind, ih fun q' hq' => hps q' (List.mem_cons_of_mem _ hq')]
      rfl
  -- a source checks the schema that it stores, any other class computes it from its children
  have hagain : LogicalPlan.rebuildSchema sess op s' children = .ok s' := by
    unfold LogicalPlan.rebuildSchema at hs' ⊢
    split at hs'
    next hsource =>
      rw [if_pos hsource]
      split at hs'
      next hempty =>
        rw [if_pos hempty]
        obtain ⟨rfl, hvalid⟩ := LogicalPlan.validateSchema_inv hs'
        exact hvalid
      next => cases hs'
    next hother =>
      rw [if_neg hother]
      exact hs'
  have hplans : (children.map fun q => (⟨q, false⟩ : OptimizationResult A)).map OptimizationResult.plan = children := by
    rw [List.map_map]
    exact List.map_id _
  have hflags : (children.map fun q => (⟨q, false⟩ : OptimizationResult A)).any OptimizationResult.wasModified = false := by
    simp
  unfold Keeps
  rw [optimizeNode, hall children hchildren, Except.ok_bind, hplans, hflags, LogicalPlan.withChildren, hagain]
  cases op.keepsCacheInfo <;> rfl

end FilterHook

/-! ## Fusing a filter with the filter below it -/

namespace MergeFiltersRule

variable {A : Type}

/-- `merge_filter`. -/
def mergeFilter (sess : Session A) : FilterHook A
  | .filter innerInput innerPredicate _ none, predicate, _, cache => do
    let merged ← LogicalPlan.mkFilter sess innerInput (.boolean predicate innerPredicate .and) cache
    pure ⟨merged, true⟩
  | input, predicate, s, cache => pure ⟨.filter input predicate s cache, false⟩

/-- Two filters in a row are one filter by the conjunction, with the rows in the same order. -/
theorem merged_refines {sess : Session A} {p : LogicalPlan A} {e e' : LogicalExpr A} {s s' : Schema}
    {c c' : Option CacheInfo} (hwf : WellFormed sess (.filter (.filter p e' s' c') e s c)) :
    LogicalPlan.mkFilter sess p (.boolean e e' .and) c = .ok (.filter p (.boolean e e' .and) s c) ∧
      Refines sess (.filter (.filter p e' s' c') e s c) (.filter p (.boolean e e' .and) s c) := by
  obtain ⟨hinner, houter⟩ := hwf.accepted
  obtain ⟨⟨hrow, hrow'⟩, hrowe⟩ := hwf.rowwise
  obtain ⟨htype', hs, rfl⟩ := LogicalPlan.buildFilter_inv hinner.2
  obtain ⟨htype, -, rfl⟩ := LogicalPlan.buildFilter_inv houter
  have hand : (LogicalExpr.boolean e e' .and).rowwise = true := by
    rw [LogicalExpr.rowwise_boolean, hrowe, hrow', Bool.and_self]
  have hbuilt : buildFilter sess p.schema (.boolean e e' .and) = .ok p.schema :=
    LogicalPlan.buildFilter_ok hand (LogicalExpr.dataType_boolean_iff.mpr ⟨htype, htype'⟩) hs
  refine ⟨?_, WellFormed.filter ⟨hinner.1, hrow⟩ hand hbuilt, rfl, ?_⟩
  · simp only [LogicalPlan.mkFilter, hbuilt, Except.ok_bind, Except.pure_eq_ok]
    rfl
  · intro Row I
    exact (Kleene.select_and _ _ _).symm

/-- The rule handles every filter. -/
theorem mergeFilter_handles (sess : Session A) :
    FilterHook.Handles sess (mergeFilter sess) (fun _ => True) := by
  intro p e s c hwf _
  cases p with
  | filter p' e' s' c' =>
    cases c' with
    | none =>
      obtain ⟨hmk, href⟩ := merged_refines hwf
      exact ⟨⟨_, true⟩, by rw [mergeFilter, hmk]; rfl, href⟩
    | some key => exact ⟨⟨_, false⟩, rfl, Refines.refl hwf⟩
  | node op children s' c' => exact ⟨⟨_, false⟩, rfl, Refines.refl hwf⟩

/-- A filter with nothing to do has an input with nothing to do, and is not merged with it. -/
theorem keeps_filter_inv {sess : Session A} {p : LogicalPlan A} {e : LogicalExpr A} {s : Schema} {c : Option CacheInfo}
    (h : (mergeFilter sess).Keeps sess (.filter p e s c)) : (mergeFilter sess).Keeps sess p ∧
      ∀ e s c, mergeFilter sess p e s c = .ok ⟨.filter p e s c, false⟩ := by
  simp only [FilterHook.Keeps, optimizeNode, Except.bind_eq_ok, Except.pure_eq_ok, Except.ok.injEq, OptimizationResult.mk.injEq,
    Bool.or_eq_false_iff] at h
  obtain ⟨⟨p', modified⟩, hchild, s', -, result, hresult, hplan, hchildKept, hkept⟩ := h
  dsimp only at hresult hchildKept
  cases p' with
  | filter inner e' s' c' =>
    cases c' with
    | none =>
      simp only [mergeFilter, Except.bind_eq_ok, Except.pure_eq_ok, Except.ok.injEq] at hresult
      obtain ⟨merged, -, rfl⟩ := hresult
      cases hkept
    | some key =>
      cases hresult
      cases hplan
      cases hchildKept
      exact ⟨hchild, fun _ _ _ => rfl⟩
  | node op children s' c' =>
    cases hresult
    cases hplan
    cases hchildKept
    exact ⟨hchild, fun _ _ _ => rfl⟩

/-- **A second run of the rule changes nothing**: no filter is left over an unpersisted filter. -/
theorem mergeFilter_again (sess : Session A) (p : LogicalPlan A) :
    (do let r ← optimizeNode sess (mergeFilter sess) p
        optimizeNode sess (mergeFilter sess) r.plan) =
      (optimizeNode sess (mergeFilter sess) p).map fun r => ⟨r.plan, false⟩ := by
  cases hfirst : optimizeNode sess (mergeFilter sess) p with
  | error e => rfl
  | ok r =>
    show (mergeFilter sess).Keeps sess r.plan
    refine optimizeNode_ensures (fun q e s c r hhook hbuilt hq => ?_)
      (fun _ _ _ _ _ hwith hchildren => FilterHook.keeps_withChildren hwith hchildren) p r hfirst
    cases q with
    | filter inner e' s' c' =>
      cases c' with
      | none =>
        -- nothing is left to merge with the filter below, which was merged first
        obtain ⟨hinner, hkept⟩ := keeps_filter_inv hq
        simp only [mergeFilter, LogicalPlan.mkFilter, Except.bind_eq_ok, Except.pure_eq_ok, Except.ok.injEq] at hhook
        obtain ⟨merged, ⟨s'', hs'', rfl⟩, rfl⟩ := hhook
        exact hinner.filter hs'' (hkept _ _ _)
      | some key =>
        cases hhook
        exact hq.filter hbuilt rfl
    | node op children s' c' =>
      cases hhook
      exact hq.filter hbuilt rfl

end MergeFiltersRule

end Fenic
