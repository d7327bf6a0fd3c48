import Mathlib
import Fenic.Optimizer.Pipeline
import Fenic.Lib.StoreTrace

/-!
# `Transpiler.PlanConverter` — from logical to physical plans, and running them

`PlanConverter` turns an optimized plan into operators. A persisted node is converted once: every later
occurrence of its cache key becomes a `CacheReadExec`. `PhysicalPlan.execute` runs the children of an operator
from left to right, then the operator, and then writes the operator's frame if it carries a cache key.

The model keeps what decides *which keys are read and written, in which order*: the frames themselves and the
converted expressions play no part.
-/

namespace Fenic

variable {A : Type}

/-- A key of the intermediate store; `CacheInfo` allows it to be absent. -/
abbrev CacheKey := Option String

instance : LawfulBEq CacheKey := inferInstance

/-! ## Physical plans -/

/-- The operator a physical node runs. -/
inductive PhysicalOp (A : Type) where
  | filter (predicate : LogicalExpr A)
  | op (op : PlanOp A)

/-- A physical plan: a cache read, or an operator over its children with the cache information its
    constructor was given. -/
inductive PhysicalPlan (A : Type) where
  | cacheRead (key : CacheKey)
  | exec (op : PhysicalOp A) (children : List (PhysicalPlan A)) (cacheInfo : Option CacheInfo)

/-- The operator of a logical node. -/
def LogicalPlan.physicalOp : LogicalPlan A → PhysicalOp A
  | .filter _ predicate _ _ => .filter predicate
  | .node op _ _ _ => .op op

/-- The cache information the converter passes to a node's operator: the four source operators are built
    without it. -/
def LogicalPlan.execCacheInfo : LogicalPlan A → Option CacheInfo
  | .filter _ _ _ cache => cache
  | .node op _ _ cache => if op.isSource then none else cache

namespace PlanConverter

/-! ## Conversion -/

/-- The head of `_convert_to_physical_plan`: read the key (`inl`), or go on with these cache keys (`inr`). -/
def lookup (store cacheKeys : List CacheKey) : Option CacheInfo → CacheKey ⊕ List CacheKey
  | some info =>
    if info.cacheKey ∈ cacheKeys ∨ info.cacheKey ∈ store then .inl info.cacheKey
    else .inr (info.cacheKey :: cacheKeys)
  | none => .inr cacheKeys

mutual

/-- `_convert_to_physical_plan`, with the key set it mutates as a second result. -/
def convertToPhysicalPlan (store : List CacheKey) :
    List CacheKey → LogicalPlan A → PhysicalPlan A × List CacheKey
  | cacheKeys, .filter input predicate s cache =>
    match lookup store cacheKeys cache with
    | .inl key => (.cacheRead key, cacheKeys)
    | .inr cacheKeys =>
      let child := convertToPhysicalPlan store cacheKeys input
      (.exec (.filter predicate) [child.1] (LogicalPlan.filter input predicate s cache).execCacheInfo, child.2)
  | cacheKeys, .node op children s cache =>
    match lookup store cacheKeys cache with
    | .inl key => (.cacheRead key, cacheKeys)
    | .inr cacheKeys =>
      let converted := convertChildren store cacheKeys children
      (.exec (.op op) converted.1 (LogicalPlan.node op children s cache).execCacheInfo, converted.2)

/-- The children, from left to right. -/
def convertChildren (store : List CacheKey) :
    List CacheKey → List (LogicalPlan A) → List (PhysicalPlan A) × List CacheKey
  | cacheKeys, [] => ([], cacheKeys)
  | cacheKeys, p :: ps =>
    let first := convertToPhysicalPlan store cacheKeys p
    let rest := convertChildren store first.2 ps
    (first.1 :: rest.1, rest.2)

end

/-- `PlanConverter.convert`. -/
def convert [BEq A] (sess : Session A) (store : List CacheKey) (logical : LogicalPlan A) :
    Except PyException (PhysicalPlan A) := do
  let optimized ← LogicalPlanOptimizer.optimize sess (LogicalPlanOptimizer.converterRules sess) logical
  pure (convertToPhysicalPlan store [] optimized.plan).1

/-- Both node forms convert alike. -/
theorem convertToPhysicalPlan_eq (store cacheKeys : List CacheKey) (p : LogicalPlan A) :
    convertToPhysicalPlan store cacheKeys p =
      match lookup store cacheKeys p.cacheInfo with
      | .inl key => (.cacheRead key, cacheKeys)
      | .inr keys =>
        (.exec p.physicalOp (convertChildren store keys p.children).1 p.execCacheInfo,
          (convertChildren store keys p.children).2) := by
  cases p <;> rfl

end PlanConverter

/-! ## Execution -/

/-- What an execution does to the intermediate store. -/
abbrev StoreEvent := StoreTrace.Event CacheKey

namespace PhysicalPlan

open StoreTrace

mutual

/-- `PhysicalPlan.execute`: children first, then the node, then the cache write. -/
def execute : List CacheKey → PhysicalPlan A → List StoreEvent
  | _, .cacheRead key => [.read key]
  | store, .exec _ children cache =>
    let events := executeChildren store children
    match cache with
    | none => events
    | some info =>
      -- the frame is written only when the key is still absent at this point of the run
      if info.cacheKey ∈ storeAfter store events then events else events ++ [.write info.cacheKey]

/-- The children, from left to right. -/
def executeChildren : List CacheKey → List (PhysicalPlan A) → List StoreEvent
  | _, [] => []
  | store, p :: ps =>
    let events := execute store p
    events ++ executeChildren (storeAfter store events) ps

end

end PhysicalPlan

end Fenic
