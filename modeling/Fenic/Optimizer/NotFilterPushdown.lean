import Fenic.Optimizer.Base

/-!
# `Optimizer.NotFilterPushdown` — moving negations inward

`pushNotInward` is the predicate rewrite of `NotFilterPushdownRule`: it removes double negations and turns a
negated disjunction into a conjunction of negations, and leaves a negated conjunction alone.

The rewrite keeps the meaning of every predicate it finishes on. It does not finish on all of them: under an
AND/OR node that it keeps, a rewritten operand makes it read an attribute `BooleanExpr` does not have.
`pushdownOk` is the exact condition for finishing, proved in `pushNotInward_ok_iff`, and the rule handles
exactly the filters whose predicate satisfies it.
-/

namespace Fenic

namespace LogicalExpr

variable {A : Type} [BEq A]

/-- What rebuilding a `BooleanExpr` from `expr.operator` raises; the attribute is called `op`. -/
def noOperatorAttribute : PyException :=
  .attributeError "'BooleanExpr' object has no attribute 'operator'"

/-- `push_not_inward`. -/
def pushNotInward : LogicalExpr A → Except PyException (LogicalExpr A)
  | .boolean l r op => do
    let left ← pushNotInward l
    let right ← pushNotInward r
    if left != l || right != r then throw noOperatorAttribute
    else pure (.boolean l r op)
  | .not (.not e) => pushNotInward e
  | .not (.boolean l r .or) => do
    let left ← pushNotInward (.not l)
    let right ← pushNotInward (.not r)
    pure (.boolean left right .and)
  | .not inner => do
    let innerTransformed ← pushNotInward inner
    if innerTransformed != inner then pure (.not innerTransformed)
    else pure (.not inner)
  | e => pure e

/-! ## Predicates the rewrite has nothing to do on -/

/-- No double negation and no negated disjunction at any position the rewrite reaches. -/
def unchanged : LogicalExpr A → Bool
  | .boolean l r _ => unchanged l && unchanged r
  | .not (.not _) => false
  | .not (.boolean _ _ .or) => false
  | .not (.boolean l r .and) => unchanged l && unchanged r
  | _ => true

/-- The rewrite leaves the predicate alone and notices that it did: the predicate equals itself. -/
def stable (e : LogicalExpr A) : Bool := unchanged e && e == e

mutual

/-- The predicates on which the rewrite finishes: every AND/OR node it keeps has stable operands. -/
def pushdownOk : LogicalExpr A → Bool
  | .boolean l r _ => stable l && stable r
  | .not e => negatedOk e
  | _ => true

/-- The same for the negation of a predicate. -/
def negatedOk : LogicalExpr A → Bool
  | .not e => pushdownOk e
  | .boolean l r .or => negatedOk l && negatedOk r
  | .boolean l r .and => stable l && stable r
  | _ => true

end

/-- Equal predicates have the same positions to rewrite, although equality is not reflexive. -/
theorem unchanged_of_beq : ∀ (e e' : LogicalExpr A), (e == e') = true → unchanged e' = unchanged e
  | .boolean l r op, e', h => by
    cases e' with
    | boolean l' r' op' =>
      simp only [boolean_beq_boolean, Bool.and_eq_true] at h
      simp only [unchanged, unchanged_of_beq l l' h.1.2, unchanged_of_beq r r' h.2]
    | _ => cases h
  | .not inner, e', h => by
    cases e' with
    | not inner' =>
      rw [not_beq_not] at h
      cases inner with
      | not a => cases inner' <;> first | rfl | cases h
      | boolean l r op =>
        cases inner' with
        | boolean l' r' op' =>
          simp only [boolean_beq_boolean, Bool.and_eq_true, beq_iff_eq] at h
          obtain ⟨⟨rfl, hl⟩, hr⟩ := h
          cases op with
          | or => rfl
          | and => simp only [unchanged, unchanged_of_beq l l' hl, unchanged_of_beq r r' hr]
        | _ => cases h
      | _ => cases inner' <;> first | rfl | cases h
    | _ => cases h
  | .column _, e', h => by cases e' <;> first | rfl | cases h
  | .alias _ _, e', h => by cases e' <;> first | rfl | cases h
  | .sort _ _ _, e', h => by cases e' <;> first | rfl | cases h
  | .other _ _ _, e', h => by cases e' <;> first | rfl | cases h

/-! ## When the rewrite finishes -/

variable {l r e' : LogicalExpr A}

/-- On a kept AND/OR node the rewrite finishes when each operand rewrites to something equal to it. -/
theorem pushNotInward_boolean_ok {op : BooleanOp} :
    pushNotInward (.boolean l r op) = .ok e' ↔
      (∃ l', pushNotInward l = .ok l' ∧ (l' == l) = true) ∧
        (∃ r', pushNotInward r = .ok r' ∧ (r' == r) = true) ∧ e' = .boolean l r op := by
  simp only [pushNotInward.eq_1, Except.bind_eq_ok, Except.throw_eq_error, Except.pure_eq_ok,
    Except.guard_eq_ok, bne, Bool.or_eq_true, Bool.not_eq_true', not_or, Bool.not_eq_false]
  constructor
  · rintro ⟨l', hl, r', hr, ⟨hl', hr'⟩, h⟩
    cases h
    exact ⟨⟨l', hl, hl'⟩, ⟨r', hr, hr'⟩, rfl⟩
  · rintro ⟨⟨l', hl, hl'⟩, ⟨r', hr, hr'⟩, rfl⟩
    exact ⟨l', hl, r', hr, ⟨hl', hr'⟩, rfl⟩

/-- On a negated disjunction the rewrite finishes when it does on both negated operands. -/
theorem pushNotInward_not_or_ok :
    pushNotInward (.not (.boolean l r .or)) = .ok e' ↔
      ∃ l' r', pushNotInward (.not l) = .ok l' ∧ pushNotInward (.not r) = .ok r' ∧
        e' = .boolean l' r' .and := by
  simp only [pushNotInward.eq_3, Except.bind_eq_ok, Except.pure_eq_ok]
  constructor
  · rintro ⟨l', hl, r', hr, h⟩
    cases h
    exact ⟨l', r', hl, hr, rfl⟩
  · rintro ⟨l', r', hl, hr, rfl⟩
    exact ⟨l', hl, r', hr, rfl⟩

/-- A negated conjunction is kept as it is, provided the rewrite finishes on the conjunction. -/
theorem pushNotInward_not_and_ok :
    pushNotInward (.not (.boolean l r .and)) = .ok e' ↔
      (∃ e'', pushNotInward (.boolean l r .and) = .ok e'') ∧ e' = .not (.boolean l r .and) := by
  rw [pushNotInward.eq_4 _ (by intro _ h; cases h) (by intro _ _ h; cases h)]
  simp only [Except.bind_eq_ok, Except.pure_eq_ok]
  constructor
  · rintro ⟨inner, h, hi⟩
    obtain ⟨-, -, rfl⟩ := pushNotInward_boolean_ok.mp h
    rw [ite_self] at hi
    cases hi
    exact ⟨⟨_, h⟩, rfl⟩
  · rintro ⟨⟨inner, h⟩, rfl⟩
    obtain ⟨-, -, rfl⟩ := pushNotInward_boolean_ok.mp h
    exact ⟨_, h, ite_self _⟩

variable {e : LogicalExpr A}

/-- A leaf is returned as it is. -/
theorem pushNotInward_leaf (h : e.isLeaf = true) : pushNotInward e = .ok e := by
  cases e with
  | not e => cases h
  | boolean l r op => cases h
  | _ =>
    rw [pushNotInward.eq_5]
    · rfl
    all_goals
      intros
      contradiction

/-- So is a negated leaf, whether or not the leaf equals itself. -/
theorem pushNotInward_not_leaf (h : e.isLeaf = true) :
    pushNotInward (.not e) = .ok (.not e) := by
  rw [pushNotInward.eq_4 e (by rintro e rfl; cases h) (by rintro l r rfl; cases h), pushNotInward_leaf h,
    Except.ok_bind]
  exact ite_self _

omit [BEq A] in
/-- Below a negation that is kept stands a conjunction or a leaf. -/
theorem and_or_isLeaf_of_kept {inner : LogicalExpr A} (hnot : ∀ e, inner = .not e → False)
    (hor : ∀ l r, inner = .boolean l r .or → False) :
    (∃ l r, inner = .boolean l r .and) ∨ inner.isLeaf = true := by
  cases inner with
  | not e => exact (hnot e rfl).elim
  | boolean l r op =>
    cases op with
    | and => exact Or.inl ⟨l, r, rfl⟩
    | or => exact (hor l r rfl).elim
  | _ => exact Or.inr rfl

omit [BEq A] in
theorem unchanged_not_leaf (h : e.isLeaf = true) : unchanged (.not e) = true := by
  cases e <;> first | rfl | cases h

/-- What the rewrite returns has nothing left to rewrite. -/
theorem unchanged_of_pushNotInward (h : pushNotInward e = .ok e') :
    unchanged e' = true := by
  induction e using pushNotInward.induct generalizing e' with
  | case1 l r op ihl ihr =>
    obtain ⟨⟨l', hl, hl'⟩, ⟨r', hr, hr'⟩, rfl⟩ := pushNotInward_boolean_ok.mp h
    have hul : unchanged l = true := by rw [unchanged_of_beq l' l hl', ihl hl]
    have hur : unchanged r = true := by rw [unchanged_of_beq r' r hr', ihr hr]
    simp only [unchanged, hul, hur, Bool.and_self]
  | case2 e ih => exact ih (by rwa [pushNotInward.eq_2] at h)
  | case3 l r ihl ihr =>
    obtain ⟨l', r', hl, hr, rfl⟩ := pushNotInward_not_or_ok.mp h
    simp only [unchanged, ihl hl, ihr hr, Bool.and_self]
  | case4 inner hnot hor ih =>
    rcases and_or_isLeaf_of_kept hnot hor with ⟨l, r, rfl⟩ | hleaf
    · obtain ⟨⟨e'', h'⟩, rfl⟩ := pushNotInward_not_and_ok.mp h
      obtain ⟨-, -, rfl⟩ := pushNotInward_boolean_ok.mp h'
      have hu : unchanged (.boolean l r .and) = true := ih h'
      exact hu
    · rw [pushNotInward_not_leaf hleaf] at h
      cases h
      exact unchanged_not_leaf hleaf
  | case5 e h1 h2 h3 h4 =>
    rw [pushNotInward.eq_5 e h1 h2 h3 h4] at h
    cases h
    cases e with
    | not e => exact (h4 e rfl).elim
    | boolean l r op => exact (h1 l r op rfl).elim
    | _ => rfl

/-- On a predicate with nothing to rewrite, the rewrite returns it or raises. -/
theorem eq_of_pushNotInward (hu : unchanged e = true)
    (h : pushNotInward e = .ok e') : e' = e := by
  cases e with
  | boolean l r op =>
    obtain ⟨-, -, rfl⟩ := pushNotInward_boolean_ok.mp h
    rfl
  | not inner =>
    cases inner with
    | not e => cases hu
    | boolean l r op =>
      cases op with
      | or => cases hu
      | and => exact (pushNotInward_not_and_ok.mp h).2
    | _ =>
      rw [pushNotInward_not_leaf rfl] at h
      cases h
      rfl
  | _ =>
    rw [pushNotInward_leaf rfl] at h
    cases h
    rfl

/-- It raises only where some operand differs from itself. -/
theorem pushNotInward_of_unchanged (hu : unchanged e = true)
    (hself : (e == e) = true) : pushNotInward e = .ok e := by
  induction e using pushNotInward.induct with
  | case1 l r op ihl ihr =>
    simp only [unchanged, Bool.and_eq_true] at hu
    simp only [boolean_beq_boolean, Bool.and_eq_true] at hself
    exact pushNotInward_boolean_ok.mpr
      ⟨⟨l, ihl hu.1 hself.1.2, hself.1.2⟩, ⟨r, ihr hu.2 hself.2, hself.2⟩, rfl⟩
  | case2 e ih => cases hu
  | case3 l r ihl ihr => cases hu
  | case4 inner hnot hor ih =>
    rcases and_or_isLeaf_of_kept hnot hor with ⟨l, r, rfl⟩ | hleaf
    · exact pushNotInward_not_and_ok.mpr ⟨⟨_, ih hu hself⟩, rfl⟩
    · exact pushNotInward_not_leaf hleaf
  | case5 e h1 h2 h3 h4 => exact pushNotInward.eq_5 e h1 h2 h3 h4

/-- A predicate is stable exactly when the rewrite returns something equal to it. -/
theorem stable_iff :
    stable e = true ↔ ∃ e', pushNotInward e = .ok e' ∧ (e' == e) = true := by
  rw [stable, Bool.and_eq_true]
  constructor
  · rintro ⟨hu, hself⟩
    exact ⟨e, pushNotInward_of_unchanged hu hself, hself⟩
  · rintro ⟨e', h, heq⟩
    have hu : unchanged e = true := by
      rw [unchanged_of_beq e' e heq, unchanged_of_pushNotInward h]
    obtain rfl := eq_of_pushNotInward hu h
    exact ⟨hu, heq⟩

/-- A kept AND/OR node is rewritten exactly when both operands are stable. -/
theorem pushNotInward_boolean_iff {op : BooleanOp} :
    (∃ e', pushNotInward (.boolean l r op) = .ok e') ↔ (stable l && stable r) = true := by
  rw [Bool.and_eq_true, stable_iff, stable_iff]
  constructor
  · rintro ⟨e', h⟩
    obtain ⟨hl, hr, -⟩ := pushNotInward_boolean_ok.mp h
    exact ⟨hl, hr⟩
  · rintro ⟨hl, hr⟩
    exact ⟨_, pushNotInward_boolean_ok.mpr ⟨hl, hr, rfl⟩⟩

/-- **`pushNotInward` returns exactly on the predicates that satisfy `pushdownOk`.** -/
theorem pushNotInward_ok_iff (e : LogicalExpr A) :
    (∃ e', pushNotInward e = .ok e') ↔ pushdownOk e = true := by
  induction e using pushNotInward.induct with
  | case1 l r op ihl ihr => exact pushNotInward_boolean_iff
  | case2 e ih => rwa [pushNotInward.eq_2]
  | case3 l r ihl ihr =>
    have hok : pushdownOk (.not (.boolean l r .or)) = (pushdownOk (.not l) && pushdownOk (.not r)) := rfl
    rw [hok, Bool.and_eq_true, ← ihl, ← ihr]
    constructor
    · rintro ⟨e', h⟩
      obtain ⟨l', r', hl, hr, -⟩ := pushNotInward_not_or_ok.mp h
      exact ⟨⟨l', hl⟩, ⟨r', hr⟩⟩
    · rintro ⟨⟨l', hl⟩, ⟨r', hr⟩⟩
      exact ⟨_, pushNotInward_not_or_ok.mpr ⟨l', r', hl, hr, rfl⟩⟩
  | case4 inner hnot hor ih =>
    rcases and_or_isLeaf_of_kept hnot hor with ⟨l, r, rfl⟩ | hleaf
    · have hok : pushdownOk (.not (.boolean l r .and)) = pushdownOk (.boolean l r .and) := rfl
      rw [hok, ← ih]
      constructor
      · rintro ⟨e', h⟩
        exact (pushNotInward_not_and_ok.mp h).1
      · intro h
        exact ⟨_, pushNotInward_not_and_ok.mpr ⟨h, rfl⟩⟩
    · have hok : pushdownOk (.not inner) = true := by cases inner <;> first | rfl | cases hleaf
      simp only [hok, iff_true]
      exact ⟨_, pushNotInward_not_leaf hleaf⟩
  | case5 e h1 h2 h3 h4 =>
    have hok : pushdownOk e = true := by
      cases e with
      | not e => exact (h4 e rfl).elim
      | boolean l r op => exact (h1 l r op rfl).elim
      | _ => rfl
    simp only [hok, iff_true]
    exact ⟨_, pushNotInward.eq_5 e h1 h2 h3 h4⟩

/-! ## What the rewrite preserves -/

/-- The three facts a rewritten filter needs: the same truth value on every row under every valuation of
    the leaves, the same boolean type, and row-wise leaves. -/
structure Rewrites (e e' : LogicalExpr A) : Prop where
  meaning_eq : ∀ (Row : Type) (leaf : LogicalExpr A → Row → Kleene.Truth) (r : Row),
    meaning leaf e' r = meaning leaf e r
  boolean_type : ∀ (sess : Session A) (s : Schema), dataType sess s e = .ok .booleanType →
    dataType sess s e' = .ok .booleanType
  rowwise_of : e.rowwise = true → e'.rowwise = true

omit [BEq A] in
theorem Rewrites.refl (e : LogicalExpr A) : Rewrites e e :=
  ⟨fun _ _ _ => rfl, fun _ _ h => h, fun h => h⟩

omit [BEq A] in
/-- Dropping a double negation. -/
theorem Rewrites.not_not (h : Rewrites e e') : Rewrites (.not (.not e)) e' where
  meaning_eq Row leaf r := by
    rw [h.meaning_eq, meaning_not, meaning_not, Kleene.not_not]
  boolean_type sess s ht := h.boolean_type sess s (dataType_not_iff.mp (dataType_not_iff.mp ht))
  rowwise_of hrow := h.rowwise_of hrow

omit [BEq A] in
/-- De Morgan on a negated disjunction. -/
theorem Rewrites.not_or {l' r' : LogicalExpr A} (hl : Rewrites (.not l) l')
    (hr : Rewrites (.not r) r') : Rewrites (.not (.boolean l r .or)) (.boolean l' r' .and) where
  meaning_eq Row leaf row := by
    simp only [meaning_and, meaning_not, meaning_or, hl.meaning_eq, hr.meaning_eq, Kleene.not_or]
  boolean_type sess s ht := by
    obtain ⟨htl, htr⟩ := dataType_boolean_iff.mp (dataType_not_iff.mp ht)
    exact dataType_boolean_iff.mpr
      ⟨hl.boolean_type sess s (dataType_not_iff.mpr htl), hr.boolean_type sess s (dataType_not_iff.mpr htr)⟩
  rowwise_of hrow := by
    simp only [rowwise_not, rowwise_boolean, Bool.and_eq_true] at hrow ⊢
    exact ⟨hl.rowwise_of hrow.1, hr.rowwise_of hrow.2⟩

/-- **Whatever `pushNotInward` returns means the same as its input.** -/
theorem pushNotInward_rewrites (h : pushNotInward e = .ok e') : Rewrites e e' := by
  induction e using pushNotInward.induct generalizing e' with
  | case1 l r op ihl ihr =>
    obtain ⟨-, -, rfl⟩ := pushNotInward_boolean_ok.mp h
    exact Rewrites.refl _
  | case2 e ih => exact (ih (by rwa [pushNotInward.eq_2] at h)).not_not
  | case3 l r ihl ihr =>
    obtain ⟨l', r', hl, hr, rfl⟩ := pushNotInward_not_or_ok.mp h
    exact Rewrites.not_or (ihl hl) (ihr hr)
  | case4 inner hnot hor ih =>
    rcases and_or_isLeaf_of_kept hnot hor with ⟨l, r, rfl⟩ | hleaf
    · obtain ⟨-, rfl⟩ := pushNotInward_not_and_ok.mp h
      exact Rewrites.refl _
    · rw [pushNotInward_not_leaf hleaf] at h
      cases h
      exact Rewrites.refl _
  | case5 e h1 h2 h3 h4 =>
    rw [pushNotInward.eq_5 e h1 h2 h3 h4] at h
    cases h
    exact Rewrites.refl _

end LogicalExpr

/-! ## The rule -/

namespace NotFilterPushdownRule

open LogicalExpr

variable {A : Type} [BEq A]

/-- `optimize_filter`. -/
def optimizeFilter (sess : Session A) : FilterHook A := fun input predicate s cache => do
  let transformedPredicate ← pushNotInward predicate
  if transformedPredicate != predicate then
    let newFilter ← LogicalPlan.mkFilter sess input transformedPredicate cache
    pure ⟨newFilter, true⟩
  else pure ⟨.filter input predicate s cache, false⟩

omit [BEq A] in
/-- Replacing the predicate of a filter by a rewritten one. -/
theorem mkFilter_refines {sess : Session A} {p : LogicalPlan A} {e e' : LogicalExpr A} {s : Schema}
    {c : Option CacheInfo} (hwf : WellFormed sess (.filter p e s c)) (h : Rewrites e e') :
    LogicalPlan.mkFilter sess p e' c = .ok (.filter p e' s c) ∧
      Refines sess (.filter p e s c) (.filter p e' s c) := by
  obtain ⟨htype, hs, hss⟩ := LogicalPlan.buildFilter_inv hwf.accepted.2
  have hrow : e'.rowwise = true := h.rowwise_of hwf.rowwise.2
  have hbuilt : buildFilter sess p.schema e' = .ok s := by
    rw [hss]
    exact LogicalPlan.buildFilter_ok hrow (h.boolean_type sess _ htype) hs
  refine ⟨by simp [LogicalPlan.mkFilter, hbuilt], ?_, rfl, ?_⟩
  · exact WellFormed.filter ⟨hwf.accepted.1, hwf.rowwise.1⟩ hrow hbuilt
  · intro Row I
    exact Kleene.select_congr (fun r => (h.meaning_eq Row I.leaf r).symm) _

/-- The rule handles the filters on which the rewrite returns. -/
theorem optimizeFilter_handles (sess : Session A) :
    FilterHook.Handles sess (optimizeFilter sess) (fun e => pushdownOk e = true) := by
  intro p e s c hwf hok
  obtain ⟨e', he'⟩ := (pushNotInward_ok_iff e).mpr hok
  obtain ⟨hmk, href⟩ := mkFilter_refines hwf (pushNotInward_rewrites he')
  by_cases hchanged : (e' != e) = true
  · exact ⟨⟨.filter p e' s c, true⟩, by simp [optimizeFilter, he', hchanged, hmk], href⟩
  · exact ⟨⟨.filter p e s c, false⟩, by simp [optimizeFilter, he', hchanged], Refines.refl hwf⟩

/-- It handles no others. -/
theorem pushdownOk_of_optimizeFilter {sess : Session A} {p : LogicalPlan A} {e : LogicalExpr A} {s : Schema}
    {c : Option CacheInfo} {r : OptimizationResult A} (h : optimizeFilter sess p e s c = .ok r) :
    pushdownOk e = true := by
  simp only [optimizeFilter, Except.bind_eq_ok] at h
  obtain ⟨e', he', -⟩ := h
  exact (pushNotInward_ok_iff e).mp ⟨e', he'⟩

theorem optimizeFilter_of_unchanged {sess : Session A} {p : LogicalPlan A} {e : LogicalExpr A} {s : Schema} {c : Option CacheInfo}
    (hu : LogicalExpr.unchanged e = true) (hself : (e == e) = true) : optimizeFilter sess p e s c = .ok ⟨.filter p e s c, false⟩ := by
  have hkept : (e != e) = false := by rw [bne, hself]; rfl
  simp [optimizeFilter, LogicalExpr.pushNotInward_of_unchanged hu hself, hkept]

/-- **A second run of the rule changes nothing**, where each predicate it has left is equal to itself. -/
theorem pushdown_again {sess : Session A} {p : LogicalPlan A} {r : OptimizationResult A} (h : optimizeNode sess (optimizeFilter sess) p = .ok r)
    (hself : r.plan.AllPredicates fun e => (e == e) = true) : optimizeNode sess (optimizeFilter sess) r.plan = .ok ⟨r.plan, false⟩ := by
  refine @optimizeNode_ensures A sess (optimizeFilter sess)
    (fun q => (q.AllPredicates fun e => (e == e) = true) → (optimizeFilter sess).Keeps sess q) (fun q e s c r hhook hbuilt hq => ?_)
    (fun op children s c p hwith hchildren hself => ?_) p r h hself
  · simp only [optimizeFilter, Except.bind_eq_ok] at hhook
    obtain ⟨e', he', hhook⟩ := hhook
    split at hhook
    · simp only [LogicalPlan.mkFilter, Except.bind_eq_ok, Except.pure_eq_ok, Except.ok.injEq] at hhook
      obtain ⟨_, ⟨s', hs', rfl⟩, rfl⟩ := hhook
      rintro ⟨hinput, hself⟩
      exact (hq hinput).filter hs' (optimizeFilter_of_unchanged (LogicalExpr.unchanged_of_pushNotInward he') hself)
    next hkept =>
      cases hhook
      rintro ⟨hinput, hself⟩
      have hu : LogicalExpr.unchanged e = true := by
        rw [LogicalExpr.unchanged_of_beq e' e (by simpa [bne] using hkept), LogicalExpr.unchanged_of_pushNotInward he']
      exact (hq hinput).filter hbuilt (optimizeFilter_of_unchanged hu hself)
  · refine FilterHook.keeps_withChildren hwith fun q hq => hchildren q hq ?_
    obtain ⟨s', -, rfl⟩ := LogicalPlan.withChildren_eq_ok.mp hwith
    clear hwith hchildren
    induction children with
    | nil => cases hq
    | cons first rest ih =>
      rcases List.mem_cons.mp hq with rfl | hq
      · exact hself.1
      · exact ih hq hself.2

end NotFilterPushdownRule

end Fenic
