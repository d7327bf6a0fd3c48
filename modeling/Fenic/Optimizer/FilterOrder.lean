import Fenic.Transpiler.PersistedPlans

/-!
# `Optimizer.FilterOrder` — the order in which conjuncts run

`filters` are the predicates of the chain of filters at the top of a plan, in the order in which they run: the lowest
first. `SemanticFilterRewriteRule` puts a chain of its own, `splitFilters`, in the place of each filter, and leaves the
rest of the plan alone (`chainWise_optimizeNode`). The chain of one filter runs the standard conjuncts first and then the
semantic ones, fewest model calls first; over a filter that was there before, the rule has no say.

A second run of the rule finds nothing to do (`optimizeNode_again`).
-/

namespace Fenic

variable {A : Type}

/-! ## Stable sorting -/

/-- Sorting by a key keeps the order of the items of one key. -/
theorem filter_insertionSort {α : Type} (key : α → Nat) (xs : List α) (n : Nat) :
    (xs.insertionSort fun x y => key x ≤ key y).filter (fun x => key x = n) = xs.filter fun x => key x = n := by
  have htied : (xs.filter fun x => key x = n).Pairwise fun x y => key x ≤ key y := by
    refine List.pairwise_of_forall_mem_list fun x hx y hy => ?_
    have hkeyx := of_decide_eq_true (List.mem_filter.mp hx).2
    have hkeyy := of_decide_eq_true (List.mem_filter.mp hy).2
    omega
  have hsub := (List.sublist_insertionSort htied List.filter_sublist).filter fun x => key x = n
  rw [List.filter_filter] at hsub
  simp only [Bool.and_self] at hsub
  refine (hsub.eq_of_length ?_).symm
  exact ((List.perm_insertionSort _ xs).filter _).length_eq.symm

namespace SemanticFilterRewriteRule

/-! ## Conjuncts in source order -/

/-- The conjuncts of a predicate, from left to right. -/
def sourceConjuncts : LogicalExpr A → List (LogicalExpr A)
  | .boolean l r .and => sourceConjuncts l ++ sourceConjuncts r
  | e => [e]

variable {e : LogicalExpr A}

theorem sourceConjuncts_of_not_and (h : isAndExpr e = false) : sourceConjuncts e = [e] := by
  unfold sourceConjuncts
  split
  · cases h
  · rfl

theorem conjunct_induction {motive : LogicalExpr A → Prop}
    (and : ∀ l r, motive l → motive r → motive (.boolean l r .and)) (other : ∀ e, isAndExpr e = false → motive e)
    (e : LogicalExpr A) : motive e := by
  induction e using sourceConjuncts.induct with
  | case1 l r ihl ihr => exact and l r ihl ihr
  | case2 e hne =>
    apply other
    unfold isAndExpr
    split
    · rename_i l r
      exact (hne l r rfl).elim
    · rfl

theorem isAndExpr_of_mem_sourceConjuncts : ∀ c ∈ sourceConjuncts e, isAndExpr c = false := by
  induction e using conjunct_induction with
  | and l r ihl ihr =>
    intro c hc
    rcases List.mem_append.mp hc with hc | hc
    · exact ihl c hc
    · exact ihr c hc
  | other e hnot =>
    intro c hc
    rw [sourceConjuncts_of_not_and hnot, List.mem_singleton] at hc
    rw [hc, hnot]

theorem sourceConjuncts_ne_nil (e : LogicalExpr A) : 0 < (sourceConjuncts e).length := by
  induction e using conjunct_induction with
  | and l r ihl ihr =>
    show 0 < (sourceConjuncts l ++ sourceConjuncts r).length
    rw [List.length_append]
    omega
  | other e hnot =>
    rw [sourceConjuncts_of_not_and hnot]
    exact Nat.one_pos

theorem flatMap_sourceConjuncts {cs : List (LogicalExpr A)} (h : ∀ c ∈ cs, isAndExpr c = false) :
    cs.flatMap sourceConjuncts = cs := by
  induction cs with
  | nil => rfl
  | cons c cs ih =>
    rw [List.flatMap_cons, sourceConjuncts_of_not_and (h c List.mem_cons_self),
      ih fun c' hc' => h c' (List.mem_cons_of_mem _ hc')]
    rfl

theorem sourceConjuncts_makeAndExpr (first : LogicalExpr A) (rest : List (LogicalExpr A)) :
    sourceConjuncts (makeAndExpr first rest) = (first :: rest).flatMap sourceConjuncts := by
  induction rest generalizing first with
  | nil => exact (List.append_nil _).symm
  | cons e rest ih =>
    show sourceConjuncts (makeAndExpr (.boolean first e .and) rest) = _
    rw [ih, List.flatMap_cons, List.flatMap_cons, List.flatMap_cons]
    exact List.append_assoc _ _ _

theorem countSemantic_le_of_mem_source {c : LogicalExpr A} (hc : c ∈ sourceConjuncts e) :
    c.countSemantic ≤ e.countSemantic := by
  induction e using conjunct_induction with
  | and l r ihl ihr =>
    show _ ≤ l.countSemantic + r.countSemantic
    rcases List.mem_append.mp hc with hc | hc
    · exact Nat.le_trans (ihl hc) (Nat.le_add_right _ _)
    · exact Nat.le_trans (ihr hc) (Nat.le_add_left _ _)
  | other e hnot =>
    rw [sourceConjuncts_of_not_and hnot, List.mem_singleton] at hc
    rw [hc]

/-- `_partition_predicates` takes the two kinds of conjuncts apart. -/
theorem collectPredicates_eq (e : LogicalExpr A) :
    collectPredicates e = ((sourceConjuncts e).filter fun c => c.countSemantic = 0,
      ((sourceConjuncts e).filter fun c => 0 < c.countSemantic).map fun c => (c, c.countSemantic)) := by
  induction e using collectPredicates.induct with
  | case1 l r ihl ihr =>
    rw [collectPredicates.eq_1, ihl, ihr]
    show _ = ((sourceConjuncts l ++ sourceConjuncts r).filter _, ((sourceConjuncts l ++ sourceConjuncts r).filter _).map _)
    rw [List.filter_append, List.filter_append, List.map_append]
  | case2 e hne hcount =>
    rw [collectPredicates.eq_2 e hne, if_pos hcount, sourceConjuncts.eq_2 e hne]
    simp [hcount, Nat.ne_of_gt hcount]
  | case3 e hne hcount =>
    rw [collectPredicates.eq_2 e hne, if_neg hcount, sourceConjuncts.eq_2 e hne]
    simp [Nat.eq_zero_of_not_pos hcount]

/-- The semantic conjuncts, fewest model calls first. -/
def sortedSemantic (e : LogicalExpr A) : List (LogicalExpr A) :=
  ((sourceConjuncts e).filter fun c => 0 < c.countSemantic).insertionSort fun c d => c.countSemantic ≤ d.countSemantic

theorem partitionPredicates_eq (e : LogicalExpr A) :
    partitionPredicates e = ((sourceConjuncts e).filter fun c => c.countSemantic = 0, sortedSemantic e) := by
  rw [partitionPredicates, collectPredicates_eq, sortedSemantic]
  congr 1
  rw [← List.map_insertionSort (r := fun c d : LogicalExpr A => c.countSemantic ≤ d.countSemantic)]
  · rw [List.map_map]
    exact List.map_id _
  · exact fun _ _ _ _ => Iff.rfl

/-! ## The chain of one filter -/

/-- The predicate of the filter by the standard conjuncts, if there are any. -/
def standardFilter : List (LogicalExpr A) → List (LogicalExpr A)
  | [] => []
  | first :: rest => [makeAndExpr first rest]

/-- The predicates of the filters that the rule puts in the place of one, the lowest first. -/
def splitFilters (e : LogicalExpr A) : List (LogicalExpr A) :=
  if !isAndExpr e || e.countSemantic == 0 then [e]
  else standardFilter ((sourceConjuncts e).filter fun c => c.countSemantic = 0) ++ sortedSemantic e

/-- The conjuncts `cs` stand in the filters `es`: none is lost or doubled, a conjunct with model calls has a filter of its
own, no conjunct runs before one with fewer model calls, and those with equally many run in source order. -/
structure Ordered (cs es : List (LogicalExpr A)) : Prop where
  perm : (es.flatMap sourceConjuncts).Perm cs
  separate : ∀ e ∈ es, (∀ c ∈ sourceConjuncts e, c.countSemantic = 0) ∨ sourceConjuncts e = [e]
  sorted : (es.flatMap sourceConjuncts).Pairwise fun c d => c.countSemantic ≤ d.countSemantic
  ties : ∀ n, 0 < n → (es.flatMap sourceConjuncts).filter (fun c => c.countSemantic = n) =
    cs.filter fun c => c.countSemantic = n

theorem ordered_singleton (h : isAndExpr e = false ∨ e.countSemantic = 0) :
    Ordered (sourceConjuncts e) [e] := by
  have hflat : [e].flatMap sourceConjuncts = sourceConjuncts e := List.append_nil _
  refine ⟨by rw [hflat], fun e' he' => ?_, ?_, fun n _ => by rw [hflat]⟩
  · rw [List.mem_singleton] at he'
    subst he'
    rcases h with hand | hcount
    · exact Or.inr (sourceConjuncts_of_not_and hand)
    · exact Or.inl fun c hc => Nat.le_zero.mp (hcount ▸ countSemantic_le_of_mem_source hc)
  · rw [hflat]
    rcases h with hand | hcount
    · rw [sourceConjuncts_of_not_and hand]
      exact List.pairwise_singleton _ _
    · refine List.Pairwise.imp_of_mem ?_ (List.pairwise_of_forall (R := fun _ _ => True) fun _ _ => trivial)
      intro c d hc hd _
      have hzero := countSemantic_le_of_mem_source hc
      omega

/-- Every conjunct is standard or semantic. -/
theorem filter_standard_append_semantic (cs : List (LogicalExpr A)) :
    ((cs.filter fun c => c.countSemantic = 0) ++ cs.filter fun c => 0 < c.countSemantic).Perm cs := by
  have hsplit := List.filter_append_perm (fun c : LogicalExpr A => decide (c.countSemantic = 0)) cs
  have hrest : (fun c : LogicalExpr A => !decide (c.countSemantic = 0)) = fun c => decide (0 < c.countSemantic) := by
    funext c
    rw [← decide_not]
    exact decide_eq_decide.mpr Nat.pos_iff_ne_zero.symm
  rwa [hrest] at hsplit

theorem flatMap_sourceConjuncts_split :
    (standardFilter ((sourceConjuncts e).filter fun c => c.countSemantic = 0) ++ sortedSemantic e).flatMap sourceConjuncts =
      ((sourceConjuncts e).filter fun c => c.countSemantic = 0) ++ sortedSemantic e := by
  have hstandard : ∀ c ∈ (sourceConjuncts e).filter fun c => c.countSemantic = 0, isAndExpr c = false :=
    fun c hc => isAndExpr_of_mem_sourceConjuncts c (List.mem_filter.mp hc).1
  have hsemantic : ∀ c ∈ sortedSemantic e, isAndExpr c = false :=
    fun c hc => isAndExpr_of_mem_sourceConjuncts c (List.mem_filter.mp ((List.mem_insertionSort _).mp hc)).1
  rw [List.flatMap_append, flatMap_sourceConjuncts hsemantic]
  congr 1
  cases hcs : (sourceConjuncts e).filter fun c => c.countSemantic = 0 with
  | nil => rfl
  | cons first rest =>
    rw [hcs] at hstandard
    show sourceConjuncts (makeAndExpr first rest) ++ [] = first :: rest
    rw [List.append_nil, sourceConjuncts_makeAndExpr, flatMap_sourceConjuncts hstandard]

theorem ordered_splitFilters (e : LogicalExpr A) : Ordered (sourceConjuncts e) (splitFilters e) := by
  unfold splitFilters
  split
  next h =>
    refine ordered_singleton ?_
    simpa using h
  next =>
    have hsemantic : ∀ c ∈ sortedSemantic e, 0 < c.countSemantic ∧ isAndExpr c = false := by
      intro c hc
      have hmem := List.mem_filter.mp ((List.mem_insertionSort _).mp hc)
      exact ⟨of_decide_eq_true hmem.2, isAndExpr_of_mem_sourceConjuncts c hmem.1⟩
    have hsorted : (sortedSemantic e).Perm ((sourceConjuncts e).filter fun c => 0 < c.countSemantic) :=
      List.perm_insertionSort _ _
    refine ⟨?_, fun e' he' => ?_, ?_, fun n hn => ?_⟩
    · rw [flatMap_sourceConjuncts_split]
      exact (hsorted.append_left _).trans (filter_standard_append_semantic _)
    · rcases List.mem_append.mp he' with he' | he'
      · refine Or.inl ?_
        unfold standardFilter at he'
        split at he'
        next => cases he'
        next first rest hcs =>
          have hstandard : ∀ c ∈ first :: rest, c.countSemantic = 0 ∧ isAndExpr c = false := by
            intro c hc
            have hmem := List.mem_filter.mp (hcs ▸ hc)
            exact ⟨of_decide_eq_true hmem.2, isAndExpr_of_mem_sourceConjuncts c hmem.1⟩
          rw [List.mem_singleton.mp he', sourceConjuncts_makeAndExpr,
            flatMap_sourceConjuncts fun c hc => (hstandard c hc).2]
          exact fun c hc => (hstandard c hc).1
      · exact Or.inr (sourceConjuncts_of_not_and (hsemantic e' he').2)
    · rw [flatMap_sourceConjuncts_split]
      refine List.pairwise_append.mpr ⟨?_, ?_, fun c hc d _ => ?_⟩
      · refine List.pairwise_of_forall_mem_list fun c hc d _ => ?_
        have hzero := of_decide_eq_true (List.mem_filter.mp hc).2
        omega
      · have : Std.Total fun c d : LogicalExpr A => c.countSemantic ≤ d.countSemantic := ⟨fun c d => Nat.le_total _ _⟩
        exact List.pairwise_insertionSort _ _
      · have hzero := of_decide_eq_true (List.mem_filter.mp hc).2
        omega
    · rw [flatMap_sourceConjuncts_split, List.filter_append, sortedSemantic, filter_insertionSort, List.filter_filter,
        List.filter_filter]
      have hnone : (sourceConjuncts e).filter (fun c => decide (c.countSemantic = n) && decide (c.countSemantic = 0)) = [] := by
        refine List.filter_eq_nil_iff.mpr fun c _ hboth => ?_
        simp only [Bool.and_eq_true, decide_eq_true_eq] at hboth
        omega
      rw [hnone, List.nil_append]
      refine List.filter_congr fun c _ => ?_
      by_cases hc : c.countSemantic = n
      · simp [hc, hn]
      · simp [hc]

/-! ## The chains of a plan -/

/-- The rule takes a conjunction apart unless it has no semantic conjunct; it has two conjuncts at least. -/
theorem two_le_length_sourceConjuncts (h : isAndExpr e = true) : 2 ≤ (sourceConjuncts e).length := by
  unfold isAndExpr at h
  split at h
  next l r =>
    show 2 ≤ (sourceConjuncts l ++ sourceConjuncts r).length
    rw [List.length_append]
    have hl := sourceConjuncts_ne_nil l
    have hr := sourceConjuncts_ne_nil r
    omega
  next => cases h

theorem length_partitionPredicates (e : LogicalExpr A) :
    (partitionPredicates e).1.length + (partitionPredicates e).2.length = (sourceConjuncts e).length := by
  rw [partitionPredicates_eq, ← (filter_standard_append_semantic (sourceConjuncts e)).length_eq, List.length_append,
    sortedSemantic, List.length_insertionSort]

/-- A conjunction that is taken apart gives two predicates at least. -/
theorem two_predicates (hsplit : ¬ (!isAndExpr e || e.countSemantic == 0) = true) :
    ¬ (partitionPredicates e).1.length + (partitionPredicates e).2.length ≤ 1 := by
  have hand : isAndExpr e = true := by
    by_contra hnot
    simp [hnot] at hsplit
  have htwo := two_le_length_sourceConjuncts hand
  rw [length_partitionPredicates]
  omega

end SemanticFilterRewriteRule

namespace LogicalPlan

/-- The predicates of the chain of filters at the top of a plan, in the order in which they run. -/
def filters : LogicalPlan A → List (LogicalExpr A)
  | .filter input predicate _ _ => filters input ++ [predicate]
  | .node .. => []

/-- What the chain stands on. -/
def belowFilters : LogicalPlan A → LogicalPlan A
  | .filter input _ _ _ => belowFilters input
  | .node op children s c => .node op children s c

/-- The maximal chains of two plans, which are alike apart from their filters, are related one by one. -/
inductive ChainWise (R : List (LogicalExpr A) → List (LogicalExpr A) → Prop) : LogicalPlan A → LogicalPlan A → Prop where
  | intro {p p' : LogicalPlan A} {op : PlanOp A} {children children' : List (LogicalPlan A)} {s s' : Schema}
      {c c' : Option CacheInfo} (below : p.belowFilters = .node op children s c)
      (below' : p'.belowFilters = .node op children' s' c') (chain : R p.filters p'.filters)
      (rest : List.Forall₂ (ChainWise R) children children') : ChainWise R p p'

end LogicalPlan

namespace SemanticFilterRewriteRule

open LogicalPlan

variable {sess : Session A} {p q : LogicalPlan A} {es : List (LogicalExpr A)}

theorem applyStandardPredicates_chain
    (h : applyStandardPredicates sess p es = .ok q) :
    q.filters = p.filters ++ standardFilter es ∧ q.belowFilters = p.belowFilters := by
  cases es with
  | nil =>
    cases h
    exact ⟨(List.append_nil _).symm, rfl⟩
  | cons first rest =>
    obtain ⟨s, rfl⟩ := mkFilter_inv h
    exact ⟨rfl, rfl⟩

theorem applyPredicates_chain
    (h : applyPredicates sess p es = .ok q) : q.filters = p.filters ++ es ∧ q.belowFilters = p.belowFilters := by
  induction es generalizing p with
  | nil =>
    cases h
    exact ⟨(List.append_nil _).symm, rfl⟩
  | cons e es ih =>
    simp only [applyPredicates, Except.bind_eq_ok] at h
    obtain ⟨f, hf, h⟩ := h
    obtain ⟨s, rfl⟩ := mkFilter_inv hf
    obtain ⟨hfilters, hbelow⟩ := ih h
    refine ⟨?_, hbelow⟩
    rw [hfilters, filters, List.append_assoc]
    rfl

variable {e : LogicalExpr A} {s : Schema} {c : Option CacheInfo} {r : OptimizationResult A}

/-- What the rule does with one filter, seen from above. -/
theorem optimizeFilter_chain
    (h : optimizeFilter sess p e s c = .ok r) :
    r.plan.filters = p.filters ++ splitFilters e ∧ r.plan.belowFilters = p.belowFilters := by
  obtain ⟨p', e', s', hplan, -⟩ := SemanticFilterRewriteRule.keepsCache sess p e s c r h
  unfold optimizeFilter at h
  unfold splitFilters
  split at h
  next hkept =>
    cases h
    rw [if_pos hkept]
    exact ⟨rfl, rfl⟩
  next hsplit =>
    simp only at h
    split at h
    next hone => exact absurd hone (two_predicates hsplit)
    next =>
      simp only [Except.bind_eq_ok, Except.pure_eq_ok, Except.ok.injEq] at h
      obtain ⟨standard, hstandard, result, hresult, rfl⟩ := h
      rw [partitionPredicates_eq] at hstandard hresult
      obtain ⟨hfilters, hbelow⟩ := applyStandardPredicates_chain hstandard
      obtain ⟨hfilters', hbelow'⟩ := applyPredicates_chain hresult
      rw [if_neg hsplit]
      cases result with
      | node op children s c' => cases hplan
      | filter input e' s' c' =>
        refine ⟨hfilters'.trans ?_, hbelow'.trans hbelow⟩
        rw [hfilters, List.append_assoc]

/-- No conjunct of a chain is lost or doubled, and the chain of each of its filters is in order and stands where the filter
stood. -/
structure InOrder (es es' : List (LogicalExpr A)) : Prop where
  perm : (es'.flatMap sourceConjuncts).Perm (es.flatMap sourceConjuncts)
  parts : ∃ parts : List (List (LogicalExpr A)), es' = parts.flatten ∧
    List.Forall₂ (fun e part => Ordered (sourceConjuncts e) part) es parts

theorem InOrder.nil : InOrder ([] : List (LogicalExpr A)) [] :=
  ⟨List.Perm.refl _, [], rfl, List.Forall₂.nil⟩

theorem InOrder.snoc {es' : List (LogicalExpr A)} (h : InOrder es es') (e : LogicalExpr A) :
    InOrder (es ++ [e]) (es' ++ splitFilters e) := by
  obtain ⟨parts, hflatten, hparts⟩ := h.parts
  refine ⟨?_, parts ++ [splitFilters e], by simp [hflatten], ?_⟩
  · rw [List.flatMap_append, List.flatMap_append, List.flatMap_singleton]
    exact h.perm.append (ordered_splitFilters e).perm
  · exact List.rel_append hparts (List.Forall₂.cons (ordered_splitFilters e) List.Forall₂.nil)

mutual

theorem chainWise_optimizeNode {sess : Session A} : ∀ (p : LogicalPlan A) (r : OptimizationResult A),
    optimizeNode sess (optimizeFilter sess) p = .ok r → ChainWise InOrder p r.plan
  | .filter input e s c, r, h => by
    obtain ⟨child, hchild, s', -, result, hresult, rfl⟩ := optimizeNode_filter_eq_ok.mp h
    obtain ⟨below, below', chain, rest⟩ := chainWise_optimizeNode input child hchild
    obtain ⟨hfilters, hbelow⟩ := optimizeFilter_chain hresult
    refine ChainWise.intro below (hbelow.trans below') ?_ rest
    show InOrder (input.filters ++ [e]) result.plan.filters
    rw [hfilters]
    exact chain.snoc e
  | .node op children s c, r, h => by
    obtain ⟨rs, hrs, p, hp, rfl⟩ := optimizeNode_node_eq_ok.mp h
    obtain ⟨s', -, rfl⟩ := withChildren_eq_ok.mp hp
    exact ChainWise.intro rfl rfl InOrder.nil (chainWise_optimizeNodes children rs hrs)

theorem chainWise_optimizeNodes {sess : Session A} : ∀ (ps : List (LogicalPlan A)) (rs : List (OptimizationResult A)),
    optimizeNodes sess (optimizeFilter sess) ps = .ok rs →
      List.Forall₂ (ChainWise InOrder) ps (rs.map OptimizationResult.plan)
  | [], rs, h => by
    cases h
    exact List.Forall₂.nil
  | p :: ps, rs, h => by
    obtain ⟨r, hr, rs', hrs', rfl⟩ := optimizeNodes_cons_eq_ok.mp h
    exact List.Forall₂.cons (chainWise_optimizeNode p r hr) (chainWise_optimizeNodes ps rs' hrs')

end

/-! ## The second run -/

/-- The rule finds nothing to do. -/
def Unchanged (sess : Session A) (p : LogicalPlan A) : Prop :=
  optimizeNode sess (optimizeFilter sess) p = .ok ⟨p, false⟩

/-- A filter that is not taken apart is unchanged over an unchanged input. -/
theorem Unchanged.filter (h : Unchanged sess p)
    (hbuilt : buildFilter sess p.schema e = .ok s) (hkept : (!isAndExpr e || e.countSemantic == 0) = true)
    (c : Option CacheInfo) : Unchanged sess (.filter p e s c) := by
  have hhook : optimizeFilter sess p e s c = .ok ⟨.filter p e s c, false⟩ := by
    rw [optimizeFilter, if_pos hkept]
    rfl
  exact FilterHook.Keeps.filter h hbuilt hhook

theorem Unchanged.mkFilter (h : Unchanged sess p)
    (hq : LogicalPlan.mkFilter sess p e = .ok q) (hkept : (!isAndExpr e || e.countSemantic == 0) = true) :
    Unchanged sess q := by
  simp only [LogicalPlan.mkFilter, Except.bind_eq_ok, Except.pure_eq_ok, Except.ok.injEq] at hq
  obtain ⟨s, hs, rfl⟩ := hq
  exact h.filter hs hkept none

theorem countSemantic_makeAndExpr {first : LogicalExpr A} {rest : List (LogicalExpr A)} (hfirst : first.countSemantic = 0)
    (hrest : ∀ c ∈ rest, c.countSemantic = 0) : (makeAndExpr first rest).countSemantic = 0 := by
  induction rest generalizing first with
  | nil => exact hfirst
  | cons e rest ih =>
    refine ih ?_ fun c hc => hrest c (List.mem_cons_of_mem _ hc)
    show first.countSemantic + e.countSemantic = 0
    rw [hfirst, hrest e List.mem_cons_self]

theorem Unchanged.applyStandardPredicates
    (h : Unchanged sess p) (hq : applyStandardPredicates sess p es = .ok q) (hes : ∀ e ∈ es, e.countSemantic = 0) :
    Unchanged sess q := by
  cases es with
  | nil =>
    cases hq
    exact h
  | cons first rest =>
    have hcount := countSemantic_makeAndExpr (hes first List.mem_cons_self) fun c hc => hes c (List.mem_cons_of_mem _ hc)
    exact h.mkFilter hq (by simp [hcount])

theorem Unchanged.applyPredicates
    (h : Unchanged sess p) (hq : applyPredicates sess p es = .ok q) (hes : ∀ e ∈ es, isAndExpr e = false) :
    Unchanged sess q := by
  induction es generalizing p with
  | nil =>
    cases hq
    exact h
  | cons e es ih =>
    simp only [SemanticFilterRewriteRule.applyPredicates, Except.bind_eq_ok] at hq
    obtain ⟨f, hf, hq⟩ := hq
    have hstep : Unchanged sess f := h.mkFilter hf (by simp [hes e List.mem_cons_self])
    exact ih hstep hq fun e' he' => hes e' (List.mem_cons_of_mem _ he')

theorem optimizeFilter_setCacheInfo
    {c' : Option CacheInfo} (h : optimizeFilter sess p e s c = .ok r) :
    optimizeFilter sess p e s c' = .ok ⟨setCacheInfo c' r.plan, r.wasModified⟩ := by
  unfold optimizeFilter at h ⊢
  split at h
  next hkept =>
    cases h
    rw [if_pos hkept]
    rfl
  next hsplit =>
    rw [if_neg hsplit]
    simp only at h ⊢
    split at h
    next hone =>
      cases h
      rw [if_pos hone]
      rfl
    next hone =>
      rw [if_neg hone]
      simp only [Except.bind_eq_ok, Except.pure_eq_ok, Except.ok.injEq] at h
      obtain ⟨standard, hstandard, result, hresult, rfl⟩ := h
      rw [hstandard, Except.ok_bind, hresult, Except.ok_bind]
      cases result with
      | filter => rfl
      | node => rfl

/-- The key of an unchanged filter does not matter. -/
theorem Unchanged.setCacheInfo
    (h : Unchanged sess (.filter p e s c)) (c' : Option CacheInfo) :
    Unchanged sess (.filter p e s c') := by
  obtain ⟨child, hchild, s', hs', result, hresult, hr⟩ := optimizeNode_filter_eq_ok.mp h
  injection hr with hplan hmodified
  refine optimizeNode_filter_eq_ok.mpr ⟨child, hchild, s', hs', _, optimizeFilter_setCacheInfo hresult, ?_⟩
  rw [hplan, hmodified]
  rfl

theorem unchanged_optimizeFilter
    (h : optimizeFilter sess p e s c = .ok r)
    (hbuilt : buildFilter sess p.schema e = .ok s) (hp : Unchanged sess p) : Unchanged sess r.plan := by
  obtain ⟨p', e', s', hplan, -⟩ := SemanticFilterRewriteRule.keepsCache sess p e s c r h
  unfold optimizeFilter at h
  split at h
  next hkept =>
    cases h
    exact hp.filter hbuilt hkept c
  next hsplit =>
    simp only at h
    split at h
    next hone => exact absurd hone (two_predicates hsplit)
    next =>
      simp only [Except.bind_eq_ok, Except.pure_eq_ok, Except.ok.injEq] at h
      obtain ⟨standard, hstandard, result, hresult, rfl⟩ := h
      have hcounts : ∀ c ∈ (partitionPredicates e).1, c.countSemantic = 0 := (collectPredicates_count e).1
      have hsemantic : ∀ c ∈ (partitionPredicates e).2, isAndExpr c = false := by
        intro c hc
        rw [partitionPredicates_eq] at hc
        exact isAndExpr_of_mem_sourceConjuncts c (List.mem_filter.mp ((List.mem_insertionSort _).mp hc)).1
      have hresult' := (hp.applyStandardPredicates hstandard hcounts).applyPredicates hresult hsemantic
      cases result with
      | node op children s c' => cases hplan
      | filter input e' s' c' => exact hresult'.setCacheInfo c

theorem unchanged_withChildren {op : PlanOp A} {children : List (LogicalPlan A)} (h : withChildren sess op s c children = .ok p)
    (hchildren : ∀ q ∈ children, Unchanged sess q) : Unchanged sess p := FilterHook.keeps_withChildren h hchildren

/-- A second run of the rule returns the plan and says that nothing was modified. -/
theorem optimizeNode_again (p : LogicalPlan A) (r : OptimizationResult A)
    (h : optimizeNode sess (optimizeFilter sess) p = .ok r) : Unchanged sess r.plan :=
  optimizeNode_ensures (fun _ _ _ _ _ hhook hbuilt hinput => unchanged_optimizeFilter hhook hbuilt hinput)
    (fun _ _ _ _ _ hwith hchildren => unchanged_withChildren hwith hchildren) p r h

/-- **What the rule returns: in the place of each filter a chain with the same conjuncts, the standard ones first and then
the semantic ones by the number of their model calls; and nothing for a second run to do.** -/
theorem optimizeNode_inOrder (sess : Session A) (p : LogicalPlan A) (r : OptimizationResult A)
    (h : optimizeNode sess (optimizeFilter sess) p = .ok r) :
    ChainWise InOrder p r.plan ∧ optimizeNode sess (optimizeFilter sess) r.plan = .ok ⟨r.plan, false⟩ :=
  ⟨chainWise_optimizeNode p r h, optimizeNode_again p r h⟩

section Example

open LogicalPlanOptimizer

/-- A planner for which every further expression is a predicate. -/
def predicateSession : Session Unit where
  exprString _ _ _ := ""
  exprType _ _ _ _ := .ok .booleanType
  checkGroupContext _ _ := .ok ()
  planSchema _ _ := .error (.planError "no such plan")

/-- `semantic.predicate(...)`. -/
def semanticPredicate : LogicalExpr Unit := .other ⟨"SemanticPredExpr", true, false⟩ () []

def flagSource : LogicalPlan Unit := .node (.inMemorySource "flags") [] flagSchema none

theorem buildFilter_semanticPredicate : buildFilter predicateSession flagSchema semanticPredicate = .ok flagSchema :=
  LogicalPlan.buildFilter_ok rfl rfl validate_flagSchema

theorem buildFilter_column : buildFilter predicateSession flagSchema (.column "a") = .ok flagSchema :=
  LogicalPlan.buildFilter_ok rfl rfl validate_flagSchema

theorem unchanged_flagSource : Unchanged predicateSession flagSource := by
  simp [Unchanged, flagSource, optimizeNode, optimizeNodes, withChildren, rebuildSchema, PlanOp.isSource,
    PlanOp.keepsCacheInfo, validate_flagSchema]

/-- The rule puts the cheap conjunct of `semantic.predicate(...) AND a` below the other. -/
theorem split_inOrder :
    ∃ r, optimizeNode predicateSession (optimizeFilter predicateSession)
        (.filter flagSource (.boolean semanticPredicate (.column "a") .and) flagSchema none) = .ok r ∧
      ChainWise InOrder (.filter flagSource (.boolean semanticPredicate (.column "a") .and) flagSchema none) r.plan := by
  have hrun : optimizeNode predicateSession (optimizeFilter predicateSession)
      (.filter flagSource (.boolean semanticPredicate (.column "a") .and) flagSchema none) =
        .ok ⟨.filter (.filter flagSource (.column "a") flagSchema none) semanticPredicate flagSchema none, true⟩ := by
    rfl
  exact ⟨_, hrun, (optimizeNode_inOrder predicateSession _ _ hrun).1⟩

/-- **Over a persisted filter with a model call, a standard conjunct runs after a semantic one.** -/
theorem persisted_chain_unordered : ¬ ∀ (p : LogicalPlan Unit) (r : OptimizationResult Unit),
    optimizeNode predicateSession (optimizeFilter predicateSession) p = .ok r →
      ChainWise (fun es es' => Ordered (es.flatMap sourceConjuncts) es') p r.plan ∧
        optimizeNode predicateSession (optimizeFilter predicateSession) r.plan = .ok ⟨r.plan, false⟩ := by
  intro hall
  have hinner : Unchanged predicateSession (.filter flagSource semanticPredicate flagSchema (some ⟨some "key"⟩)) :=
    unchanged_flagSource.filter buildFilter_semanticPredicate rfl _
  have houter := hinner.filter buildFilter_column rfl none
  obtain ⟨-, -, chain, -⟩ := (hall _ _ houter).1
  have hsorted : [semanticPredicate, .column "a"].Pairwise fun c d => c.countSemantic ≤ d.countSemantic := chain.sorted
  have hle : semanticPredicate.countSemantic ≤ (.column "a" : LogicalExpr Unit).countSemantic :=
    (List.pairwise_cons.mp hsorted).1 _ List.mem_cons_self
  exact absurd hle (by decide)

end Example

end SemanticFilterRewriteRule

end Fenic
