import Fenic.Optimizer.Base
import Mathlib.Data.List.Sort

/-!
# `Optimizer.SemanticFilterRewrite` — cheap conjuncts before language-model calls

`SemanticFilterRewriteRule` takes a conjunction with semantic predicates apart: the standard conjuncts form
one filter, and each semantic conjunct gets its own filter above it, fewest model calls first.

The correctness argument is one about chains: an AND tree selects like the chain of its conjuncts, the new
filters are a chain too, and the two chains are permutations of each other.
-/

namespace Fenic

namespace SemanticFilterRewriteRule

variable {A : Type}

/-! ## Conjuncts -/

/-- `is_and_expr`. -/
def isAndExpr : LogicalExpr A → Bool
  | .boolean _ _ .and => true
  | _ => false

/-- `_partition_predicates` run on one expression: its standard conjuncts, and its semantic conjuncts with
    their counts, in source order. -/
def collectPredicates : LogicalExpr A → List (LogicalExpr A) × List (LogicalExpr A × Nat)
  | .boolean l r .and =>
    let left := collectPredicates l
    let right := collectPredicates r
    (left.1 ++ right.1, left.2 ++ right.2)
  | e => if e.countSemantic > 0 then ([], [(e, e.countSemantic)]) else ([e], [])

/-- `partition_predicates`. Python's sort is stable, as insertion sort is. -/
def partitionPredicates (predicate : LogicalExpr A) : List (LogicalExpr A) × List (LogicalExpr A) :=
  let collected := collectPredicates predicate
  (collected.1, (collected.2.insertionSort (fun p q => p.2 ≤ q.2)).map Prod.fst)

/-- `_make_and_expr` of a non-empty list, given as its head and its tail. -/
def makeAndExpr (first : LogicalExpr A) (rest : List (LogicalExpr A)) : LogicalExpr A :=
  rest.foldl (fun result predicate => .boolean result predicate .and) first

/-! ## The rule -/

/-- One filter by the conjunction of the standard predicates, if there are any. -/
def applyStandardPredicates (sess : Session A) (input : LogicalPlan A) :
    List (LogicalExpr A) → Except PyException (LogicalPlan A)
  | [] => pure input
  | first :: rest => LogicalPlan.mkFilter sess input (makeAndExpr first rest)

/-- One more filter on top for each semantic predicate. -/
def applyPredicates (sess : Session A) :
    LogicalPlan A → List (LogicalExpr A) → Except PyException (LogicalPlan A)
  | result, [] => pure result
  | result, predicate :: predicates => do
    let filtered ← LogicalPlan.mkFilter sess result predicate
    applyPredicates sess filtered predicates

/-- `result.cache_info = ...`. -/
def setCacheInfo (cache : Option CacheInfo) : LogicalPlan A → LogicalPlan A
  | .filter input predicate s _ => .filter input predicate s cache
  | .node op children s _ => .node op children s cache

/-- `optimize_filter`. -/
def optimizeFilter (sess : Session A) : FilterHook A := fun input predicate s cache =>
  if !isAndExpr predicate || predicate.countSemantic == 0 then
    pure ⟨.filter input predicate s cache, false⟩
  else
    let (standardPredicates, semanticPredicates) := partitionPredicates predicate
    if standardPredicates.length + semanticPredicates.length ≤ 1 then
      pure ⟨.filter input predicate s cache, false⟩
    else do
      let standard ← applyStandardPredicates sess input standardPredicates
      let result ← applyPredicates sess standard semanticPredicates
      pure ⟨setCacheInfo cache result, true⟩

/-! ## Chains of filters -/

/-- Every conjunct, standard ones first. -/
def conjuncts (e : LogicalExpr A) : List (LogicalExpr A) :=
  (collectPredicates e).1 ++ (collectPredicates e).2.map Prod.fst

theorem conjuncts_and (l r : LogicalExpr A) :
    (conjuncts (.boolean l r .and)).Perm (conjuncts l ++ conjuncts r) := by
  simp only [conjuncts, collectPredicates, List.map_append, List.append_assoc]
  refine List.Perm.append_left _ ?_
  rw [← List.append_assoc, ← List.append_assoc]
  exact List.Perm.append_right _ List.perm_append_comm

variable {e : LogicalExpr A}

theorem conjuncts_of_not_and (h : ∀ l r, e = .boolean l r .and → False) :
    conjuncts e = [e] := by
  rw [conjuncts, collectPredicates.eq_2 e h]
  split <;> rfl

/-- The two lists the rule makes hold each conjunct once. -/
theorem partitionPredicates_perm (e : LogicalExpr A) :
    ((partitionPredicates e).1 ++ (partitionPredicates e).2).Perm (conjuncts e) :=
  List.Perm.append_left _ ((List.perm_insertionSort _ _).map _)

/-- The standard conjuncts have no semantic expression, and the semantic ones stand beside their counts. -/
theorem collectPredicates_count (e : LogicalExpr A) :
    (∀ c ∈ (collectPredicates e).1, c.countSemantic = 0) ∧
      ∀ c ∈ (collectPredicates e).2, c.2 = c.1.countSemantic ∧ 0 < c.2 := by
  induction e using collectPredicates.induct with
  | case1 l r ihl ihr =>
    refine ⟨fun c hc => ?_, fun c hc => ?_⟩
    · rcases List.mem_append.mp hc with hc | hc
      · exact ihl.1 c hc
      · exact ihr.1 c hc
    · rcases List.mem_append.mp hc with hc | hc
      · exact ihl.2 c hc
      · exact ihr.2 c hc
  | case2 e hne hcount =>
    rw [collectPredicates.eq_2 e hne, if_pos hcount]
    refine ⟨nofun, fun c hc => ?_⟩
    rw [List.mem_singleton.mp hc]
    exact ⟨rfl, hcount⟩
  | case3 e hne hcount =>
    rw [collectPredicates.eq_2 e hne, if_neg hcount]
    refine ⟨fun c hc => ?_, nofun⟩
    rw [List.mem_singleton.mp hc]
    exact Nat.eq_zero_of_not_pos hcount

theorem countSemantic_of_mem_semantic {c : LogicalExpr A} (hc : c ∈ (partitionPredicates e).2) :
    0 < c.countSemantic := by
  obtain ⟨⟨c, n⟩, hmem, rfl⟩ := List.mem_map.mp hc
  obtain ⟨heq, hpos⟩ := (collectPredicates_count e).2 _ ((List.perm_insertionSort _ _).mem_iff.mp hmem)
  exact heq ▸ hpos

/-- What a predicate needs to stand in a filter over schema `s`. -/
structure Selectable (sess : Session A) (s : Schema) (e : LogicalExpr A) : Prop where
  rowwise : e.rowwise = true
  boolean_type : e.dataType sess s = .ok .booleanType

variable {sess : Session A} {s : Schema}

theorem selectable_and {l r : LogicalExpr A} :
    Selectable sess s (.boolean l r .and) ↔ Selectable sess s l ∧ Selectable sess s r := by
  constructor
  · rintro ⟨hrow, htype⟩
    rw [LogicalExpr.rowwise_boolean, Bool.and_eq_true] at hrow
    obtain ⟨hl, hr⟩ := LogicalExpr.dataType_boolean_iff.mp htype
    exact ⟨⟨hrow.1, hl⟩, ⟨hrow.2, hr⟩⟩
  · rintro ⟨⟨hrowl, hl⟩, ⟨hrowr, hr⟩⟩
    exact ⟨by rw [LogicalExpr.rowwise_boolean, hrowl, hrowr, Bool.and_self],
      LogicalExpr.dataType_boolean_iff.mpr ⟨hl, hr⟩⟩

/-- The conjuncts of a selectable predicate are selectable. -/
theorem selectable_conjuncts
    (h : Selectable sess s e) : ∀ c ∈ conjuncts e, Selectable sess s c := by
  induction e using collectPredicates.induct with
  | case1 l r ihl ihr =>
    intro c hc
    obtain ⟨hl, hr⟩ := selectable_and.mp h
    rcases List.mem_append.mp ((conjuncts_and l r).mem_iff.mp hc) with hc | hc
    · exact ihl hl c hc
    · exact ihr hr c hc
  | case2 e hne _ =>
    intro c hc
    rw [conjuncts_of_not_and hne, List.mem_singleton] at hc
    exact hc ▸ h
  | case3 e hne _ =>
    intro c hc
    rw [conjuncts_of_not_and hne, List.mem_singleton] at hc
    exact hc ▸ h

/-- A conjunction built from selectable predicates is selectable. -/
theorem selectable_makeAndExpr {first : LogicalExpr A}
    {rest : List (LogicalExpr A)} (hf : Selectable sess s first)
    (hr : ∀ e ∈ rest, Selectable sess s e) : Selectable sess s (makeAndExpr first rest) := by
  induction rest generalizing first with
  | nil => exact hf
  | cons e rest ih =>
    exact ih (selectable_and.mpr ⟨hf, hr e (by simp)⟩) (fun e' he' => hr e' (by simp [he']))

section Meaning

variable {Row : Type}

/-- The predicates of a list as truth-valued functions of a row. -/
def meanings (I : Interp A Row) (es : List (LogicalExpr A)) : List (Row → Kleene.Truth) :=
  es.map (fun e => e.meaning I.leaf)

/-- An AND tree selects like the chain of its conjuncts. -/
theorem select_conjuncts (I : Interp A Row) (e : LogicalExpr A) (rows : List Row) :
    Kleene.selectAll (meanings I (conjuncts e)) rows = Kleene.select (e.meaning I.leaf) rows := by
  induction e using collectPredicates.induct generalizing rows with
  | case1 l r ihl ihr =>
    have hperm : (meanings I (conjuncts (.boolean l r .and))).Perm
        (meanings I (conjuncts l) ++ meanings I (conjuncts r)) := by
      rw [meanings, meanings, meanings, ← List.map_append]
      exact (conjuncts_and l r).map _
    calc Kleene.selectAll (meanings I (conjuncts (.boolean l r .and))) rows
        = Kleene.selectAll (meanings I (conjuncts r)) (Kleene.selectAll (meanings I (conjuncts l)) rows) := by
          rw [Kleene.selectAll_perm hperm, Kleene.selectAll_append]
      _ = Kleene.select (r.meaning I.leaf) (Kleene.select (l.meaning I.leaf) rows) := by rw [ihl, ihr]
      _ = Kleene.select (l.meaning I.leaf) (Kleene.select (r.meaning I.leaf) rows) := Kleene.select_comm _ _ _
      _ = Kleene.select ((LogicalExpr.boolean l r .and).meaning I.leaf) rows :=
          (Kleene.select_and _ _ _).symm
  | case2 e hne _ => rw [conjuncts_of_not_and hne]; rfl
  | case3 e hne _ => rw [conjuncts_of_not_and hne]; rfl

/-- `_make_and_expr` selects like the chain of its arguments. -/
theorem select_makeAndExpr (I : Interp A Row) (first : LogicalExpr A) (rest : List (LogicalExpr A))
    (rows : List Row) :
    Kleene.select ((makeAndExpr first rest).meaning I.leaf) rows
      = Kleene.selectAll (meanings I (first :: rest)) rows := by
  induction rest generalizing first with
  | nil => rfl
  | cons e rest ih =>
    calc Kleene.select ((makeAndExpr first (e :: rest)).meaning I.leaf) rows
        = Kleene.selectAll (meanings I rest)
            (Kleene.select ((LogicalExpr.boolean first e .and).meaning I.leaf) rows) :=
          ih (.boolean first e .and)
      _ = Kleene.selectAll (meanings I rest)
            (Kleene.select (first.meaning I.leaf) (Kleene.select (e.meaning I.leaf) rows)) :=
          congrArg _ (Kleene.select_and _ _ _)
      _ = Kleene.selectAll (meanings I (first :: e :: rest)) rows := by
          rw [Kleene.select_comm]
          rfl

end Meaning

/-! ## The rule is sound -/

/-- `q` filters `p` by the predicates `es` in turn. -/
structure Filtered (sess : Session A) (p : LogicalPlan A) (es : List (LogicalExpr A)) (q : LogicalPlan A) :
    Prop where
  wellFormed : WellFormed sess q
  schema_eq : q.schema = p.schema
  denote_eq : ∀ (Row : Type) (I : Interp A Row),
    q.denote I = Kleene.selectAll (meanings I es) (p.denote I)

variable {p : LogicalPlan A}

theorem Filtered.nil (h : WellFormed sess p) :
    Filtered sess p [] p :=
  ⟨h, rfl, fun _ _ => rfl⟩

variable {q : LogicalPlan A} {es : List (LogicalExpr A)}

theorem Filtered.append {r : LogicalPlan A} {es' : List (LogicalExpr A)}
    (h : Filtered sess p es q) (h' : Filtered sess q es' r) : Filtered sess p (es ++ es') r := by
  refine ⟨h'.wellFormed, h'.schema_eq.trans h.schema_eq, fun Row I => ?_⟩
  rw [h'.denote_eq, h.denote_eq, meanings, meanings, meanings, List.map_append, Kleene.selectAll_append]

/-- A filter by one selectable predicate. -/
theorem mkFilter_filtered
    (es : List (LogicalExpr A)) (hp : WellFormed sess p) (hs : validateSchema p.schema = .ok p.schema)
    (he : Selectable sess p.schema e)
    (hsel : ∀ (Row : Type) (I : Interp A Row) (rows : List Row),
      Kleene.select (e.meaning I.leaf) rows = Kleene.selectAll (meanings I es) rows) :
    ∃ q, LogicalPlan.mkFilter sess p e = .ok q ∧ Filtered sess p es q := by
  have hbuilt : buildFilter sess p.schema e = .ok p.schema :=
    LogicalPlan.buildFilter_ok he.rowwise he.boolean_type hs
  refine ⟨.filter p e p.schema none, by simp [LogicalPlan.mkFilter, hbuilt], ?_, rfl, ?_⟩
  · exact hp.filter he.rowwise hbuilt
  · intro Row I
    rw [LogicalPlan.denote_filter, hsel]

/-- The filters put on top one by one. -/
theorem applyPredicates_filtered (es : List (LogicalExpr A))
    (hp : WellFormed sess p) (hs : validateSchema p.schema = .ok p.schema)
    (hes : ∀ e ∈ es, Selectable sess p.schema e) :
    ∃ q, applyPredicates sess p es = .ok q ∧ Filtered sess p es q := by
  induction es generalizing p with
  | nil => exact ⟨p, rfl, Filtered.nil hp⟩
  | cons e es ih =>
    obtain ⟨q, hq, hpq⟩ := mkFilter_filtered [e] hp hs (hes e (by simp)) (fun _ _ _ => rfl)
    have hes' : ∀ e' ∈ es, Selectable sess q.schema e' := by
      rw [hpq.schema_eq]
      intro e' he'
      exact hes e' (by simp [he'])
    obtain ⟨r, hr, hqr⟩ := ih hpq.wellFormed (by rw [hpq.schema_eq]; exact hs) hes'
    exact ⟨r, by simp [applyPredicates, hq, hr], hpq.append hqr⟩

/-- A cache key does not change what a plan is. -/
theorem setCacheInfo_filtered
    (c : Option CacheInfo) (h : Filtered sess p es q) : Filtered sess p es (setCacheInfo c q) := by
  cases q with
  | filter | node => exact ⟨⟨h.wellFormed.accepted, h.wellFormed.rowwise⟩, h.schema_eq, h.denote_eq⟩

/-- Filtering by a permutation of a predicate's conjuncts refines the filter by the predicate. -/
theorem Filtered.refines
    {c : Option CacheInfo} (hperm : es.Perm (conjuncts e))
    (h : Filtered sess p es q) : Refines sess (.filter p e p.schema c) q := by
  refine ⟨h.wellFormed, h.schema_eq, fun Row I => ?_⟩
  have hchain : (meanings I es).Perm (meanings I (conjuncts e)) := hperm.map _
  rw [h.denote_eq, Kleene.selectAll_perm hchain, LogicalPlan.denote_filter, select_conjuncts]

/-- The standard filter: none when there are no standard predicates. -/
theorem applyStandardPredicates_filtered
    (hp : WellFormed sess p) (hs : validateSchema p.schema = .ok p.schema)
    (hes : ∀ e ∈ es, Selectable sess p.schema e) :
    ∃ q, applyStandardPredicates sess p es = .ok q ∧ Filtered sess p es q := by
  cases es with
  | nil => exact ⟨p, rfl, Filtered.nil hp⟩
  | cons first rest =>
    have hand : Selectable sess p.schema (makeAndExpr first rest) :=
      selectable_makeAndExpr (hes first (by simp)) (fun e he => hes e (by simp [he]))
    exact mkFilter_filtered _ hp hs hand (fun _ I rows => select_makeAndExpr I first rest rows)

/-- The rule handles every filter. -/
theorem optimizeFilter_handles (sess : Session A) :
    FilterHook.Handles sess (optimizeFilter sess) (fun _ => True) := by
  intro p e s c hwf _
  by_cases hand : (!isAndExpr e || e.countSemantic == 0) = true
  · exact ⟨_, by rw [optimizeFilter, if_pos hand]; rfl, Refines.refl hwf⟩
  by_cases hone : (partitionPredicates e).1.length + (partitionPredicates e).2.length ≤ 1
  · exact ⟨_, by rw [optimizeFilter, if_neg hand]; simp only [if_pos hone]; rfl, Refines.refl hwf⟩
  obtain ⟨htype, hs, rfl⟩ := LogicalPlan.buildFilter_inv hwf.accepted.2
  have hp : WellFormed sess p := ⟨hwf.accepted.1, hwf.rowwise.1⟩
  have hsel : ∀ e' ∈ (partitionPredicates e).1 ++ (partitionPredicates e).2,
      Selectable sess p.schema e' := fun e' he' =>
    selectable_conjuncts ⟨hwf.rowwise.2, htype⟩ e' ((partitionPredicates_perm e).mem_iff.mp he')
  obtain ⟨q, hq, hpq⟩ := applyStandardPredicates_filtered hp hs (fun e' he' => hsel e' (List.mem_append_left _ he'))
  obtain ⟨r, hr, hqr⟩ := applyPredicates_filtered (partitionPredicates e).2 hpq.wellFormed
    (by rw [hpq.schema_eq]; exact hs)
    (fun e' he' => by rw [hpq.schema_eq]; exact hsel e' (List.mem_append_right _ he'))
  refine ⟨⟨setCacheInfo c r, true⟩, ?_, (setCacheInfo_filtered c (hpq.append hqr)).refines
    (partitionPredicates_perm e)⟩
  rw [optimizeFilter, if_neg hand]
  simp only [if_neg hone]
  rw [hq, Except.ok_bind, hr]
  rfl

end SemanticFilterRewriteRule

end Fenic
