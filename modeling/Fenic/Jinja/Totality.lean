import Fenic.Jinja.VariableTree

/-!
# `Jinja.Totality` — how the analysis of a template ends

`fromJinjaTemplate` is meant to return a tree or to name what it does not support. Both walks of it stop at the first
spot that they have something against, so the error is found without running them: `nodes` lists the nodes in the order of
`validateStmts`, `sites` the expressions in the order in which `collectStmts` asks for their paths, and the first node with
a `refusal`, or else the first site with a `fault`, is the error (`validateStmts_error`, `collectStmts_error`).

The one error that is no message to the user is that of a loop over something without a path.
-/

namespace Fenic

namespace Jinja

/-! ## Nodes and their refusals -/

inductive Node where
  | expr (e : Expr)
  | stmt (stmt : Stmt)

def Expr.nodes : Expr → List Node
  | .getattr node attr => .expr (.getattr node attr) :: node.nodes
  | .getitem node arg => .expr (.getitem node arg) :: (node.nodes ++ arg.nodes)
  | .not node => .expr (.not node) :: node.nodes
  | e => [.expr e]

mutual

/-- The nodes of a statement, each before its children. -/
def stmtNodes : Stmt → List Node
  | .output nodes => .stmt (.output nodes) :: nodes.flatMap Expr.nodes
  | .cond test body elifs els =>
    .stmt (.cond test body elifs els) :: (test.nodes ++ (nodes body ++ (elifNodes elifs ++ nodes els)))
  | .loop target iter body els test =>
    .stmt (.loop target iter body els test) ::
      (target.nodes ++ (iter.nodes ++ (nodes body ++ (nodes els ++ test.toList.flatMap Expr.nodes))))
  | .other typeName => [.stmt (.other typeName)]

def nodes : List Stmt → List Node
  | [] => []
  | stmt :: stmts => stmtNodes stmt ++ nodes stmts

def elifNodes : List (Expr × List Stmt) → List Node
  | [] => []
  | (test, body) :: elifs => test.nodes ++ (nodes body ++ elifNodes elifs)

end

/-- What `validate_node` has against a node itself. -/
def Node.refusal : Node → Option TemplateError
  | .expr (.other typeName) => some (.unsupportedNode typeName)
  | .expr (.getitem _ (.const (.int _))) => none
  | .expr (.getitem _ (.const (.str _))) => none
  | .expr (.getitem _ (.const _)) => some .invalidIndex
  | .expr (.getitem _ _) => some .dynamicIndex
  | .stmt (.other typeName) => some (.unsupportedNode typeName)
  | _ => none

/-! ## Sites and their faults -/

/-- What the collection of the accesses does with an expression. -/
inductive Role where
  | printed
  | tested
  | iterated
  | bound
  deriving DecidableEq

/-- An expression that the collection looks at. -/
structure Site where
  inLoop : Bool
  role : Role
  expr : Expr

mutual

/-- The filter of a loop is never looked at. -/
def stmtSites (inLoop : Bool) : Stmt → List Site
  | .output nodes => nodes.map fun node => ⟨inLoop, .printed, node⟩
  | .cond test body elifs els => ⟨inLoop, .tested, test⟩ :: (sites inLoop body ++ (elifSites inLoop elifs ++ sites inLoop els))
  | .loop target iter body els _ => ⟨inLoop, .iterated, iter⟩ :: ⟨inLoop, .bound, target⟩ :: (sites true body ++ sites true els)
  | .other _ => []

def sites (inLoop : Bool) : List Stmt → List Site
  | [] => []
  | stmt :: stmts => stmtSites inLoop stmt ++ sites inLoop stmts

def elifSites (inLoop : Bool) : List (Expr × List Stmt) → List Site
  | [] => []
  | (test, body) :: elifs => ⟨inLoop, .tested, test⟩ :: (sites inLoop body ++ elifSites inLoop elifs)

end

/-- The attribute of `loop` that a chain of attributes and subscripts starts with. -/
def Expr.loopAttribute : Expr → Option String
  | .getattr (.name root) attr => if root = "loop" then some attr else none
  | .getattr node _ => node.loopAttribute
  | .getitem node _ => node.loopAttribute
  | _ => none

/-- A variable, or a part of one, that is not the object of a loop. -/
def Expr.hasPath (inLoop : Bool) : Expr → Bool
  | .name root => !(root = "loop" && inLoop)
  | .getattr node _ => node.hasPath inLoop
  | .getitem node arg => node.hasPath inLoop && (indexPath arg).isSome
  | _ => false

/-- In a loop, an attribute that the object of the loop does not have. -/
def Expr.invalidAttribute (inLoop : Bool) (e : Expr) : Option String :=
  if inLoop then e.loopAttribute.filter fun attr => attr ∉ validLoopAttributes else none

def Expr.isName : Expr → Bool
  | .name _ => true
  | _ => false

namespace Site

/-- A loop over something that is no part of a column. -/
def pathless (site : Site) : Bool :=
  site.role = .iterated && !site.expr.hasPath site.inLoop

/-- An attribute that no loop has, or a loop that does not bind a variable. -/
def misused (site : Site) : Bool :=
  match site.role with
  | .bound => !site.expr.isName
  | _ => (site.expr.invalidAttribute site.inLoop).isSome

/-- What the collection has against an expression where it stands. -/
def fault (site : Site) : Option TemplateError :=
  match site.role with
  | .bound => if site.expr.isName then none else some .loopTarget
  | _ =>
    match site.expr.invalidAttribute site.inLoop with
    | some attr => some (.invalidLoopAttribute attr)
    | none => if site.pathless then some (.unboundLocal "iter_access") else none

end Site

/-! ## The error of each walk -/

theorem validateExpr_error (e : Expr) : (validateExpr e).error? = e.nodes.findSome? Node.refusal := by
  induction e with
  | name name => rfl
  | const value => rfl
  | templateData data => rfl
  | other typeName => rfl
  | not node ih => exact ih
  | getattr node attr ih => exact ih
  | getitem node arg ih _ =>
    cases arg with
    | const value =>
      cases value with
      | int n =>
        show (validateExpr node).error? = (node.nodes ++ [Node.expr (.const (.int n))]).findSome? Node.refusal
        rw [ih, List.findSome?_append]
        exact Option.or_none.symm
      | str s =>
        show (validateExpr node).error? = (node.nodes ++ [Node.expr (.const (.str s))]).findSome? Node.refusal
        rw [ih, List.findSome?_append]
        exact Option.or_none.symm
      | _ => rfl
    | _ => rfl

theorem forM_validateExpr_error (es : List Expr) :
    (es.forM validateExpr).error? = (es.flatMap Expr.nodes).findSome? Node.refusal := by
  rw [Except.error?_forM]
  induction es with
  | nil => rfl
  | cons e es ih =>
    rw [List.flatMap_cons, List.findSome?_append, Except.findSome?_cons_or, ih, validateExpr_error]

mutual

theorem validateStmt_error : ∀ stmt : Stmt, (validateStmt stmt).error? = (stmtNodes stmt).findSome? Node.refusal
  | .output nodes => forM_validateExpr_error nodes
  | .cond test body elifs els => by
    show _ = (test.nodes ++ (nodes body ++ (elifNodes elifs ++ nodes els))).findSome? Node.refusal
    rw [List.findSome?_append, List.findSome?_append, List.findSome?_append, ← validateExpr_error,
      ← validateStmts_error body, ← validateElifs_error elifs, ← validateStmts_error els, validateStmt]
    refine Except.error?_bind fun _ _ => ?_
    refine Except.error?_bind fun _ _ => ?_
    exact Except.error?_bind fun _ _ => rfl
  | .loop target iter body els test => by
    show _ = (target.nodes ++ (iter.nodes ++ (nodes body ++ (nodes els ++ test.toList.flatMap Expr.nodes)))).findSome?
      Node.refusal
    rw [List.findSome?_append, List.findSome?_append, List.findSome?_append, List.findSome?_append, ← validateExpr_error,
      ← validateExpr_error, ← validateStmts_error body, ← validateStmts_error els, ← forM_validateExpr_error, validateStmt]
    refine Except.error?_bind fun _ _ => ?_
    refine Except.error?_bind fun _ _ => ?_
    refine Except.error?_bind fun _ _ => ?_
    refine Except.error?_bind fun _ _ => ?_
    cases test with
    | none => rfl
    | some test =>
      show (validateExpr test).error? = (validateExpr test >>= fun _ => .ok ()).error?
      cases validateExpr test with
      | error e => rfl
      | ok _ => rfl
  | .other typeName => rfl

/-- The validation raises what it has against the first node that it has something against. -/
theorem validateStmts_error : ∀ stmts : List Stmt, (validateStmts stmts).error? = (nodes stmts).findSome? Node.refusal
  | [] => rfl
  | stmt :: stmts => by
    rw [nodes, List.findSome?_append, ← validateStmt_error stmt, ← validateStmts_error stmts, validateStmts]
    exact Except.error?_bind fun _ _ => rfl

theorem validateElifs_error : ∀ elifs : List (Expr × List Stmt),
    (validateElifs elifs).error? = (elifNodes elifs).findSome? Node.refusal
  | [] => rfl
  | (test, body) :: elifs => by
    rw [elifNodes, List.findSome?_append, List.findSome?_append, ← validateExpr_error, ← validateStmts_error body,
      ← validateElifs_error elifs, validateElifs]
    refine Except.error?_bind fun _ _ => ?_
    exact Except.error?_bind fun _ _ => rfl

end

/-- What `extractVariablePath` does with an expression: it stops at an attribute that no loop has, and else tells whether
the expression has a path. -/
def ExtractsAs (inLoop : Bool) (e : Expr) (result : Except TemplateError (Option Path)) : Prop :=
  result.error? = (e.invalidAttribute inLoop).map .invalidLoopAttribute ∧
    ∀ path, result = .ok path → path.isSome = e.hasPath inLoop

theorem extractVariablePath_name (inLoop : Bool) (n : String) :
    ExtractsAs inLoop (.name n) (extractVariablePath inLoop (.name n)) := by
  refine ⟨by cases inLoop <;> rfl, fun path h => ?_⟩
  cases h
  by_cases hloop : n = "loop" ∧ inLoop = true
  · simp [Expr.hasPath, hloop]
  · rw [if_neg hloop]
    simpa [Expr.hasPath, or_iff_not_imp_left] using hloop

theorem extractVariablePath_loop (inLoop : Bool) (n attr : String) :
    ExtractsAs inLoop (.getattr (.name n) attr) (extractVariablePath inLoop (.getattr (.name n) attr)) := by
  rw [extractVariablePath]
  by_cases hloop : n = "loop" ∧ inLoop = true
  · obtain ⟨rfl, rfl⟩ := hloop
    by_cases hattr : attr ∈ validLoopAttributes
    · rw [if_pos hattr]
      refine ⟨?_, fun path h => ?_⟩
      · simp [Expr.invalidAttribute, Expr.loopAttribute, Option.filter_some, hattr]
      · cases h
        rfl
    · rw [if_neg hattr]
      refine ⟨?_, nofun⟩
      simp [Expr.invalidAttribute, Expr.loopAttribute, Option.filter_some, hattr]
  · rw [if_neg hloop]
    refine ⟨?_, fun path h => ?_⟩
    · cases inLoop with
      | false => rfl
      | true =>
        have hn : n ≠ "loop" := fun hn => hloop ⟨hn, rfl⟩
        simp [Expr.invalidAttribute, Expr.loopAttribute, hn]
    · cases h
      simpa [Expr.hasPath, or_iff_not_imp_left] using hloop

/-- The path of an attribute or a subscript is computed from the path of what it is taken of. -/
theorem ExtractsAs.step {inLoop : Bool} {node e : Expr} {result : Except TemplateError (Option Path)}
    (h : ExtractsAs inLoop node result) {f : Option Path → Option Path}
    (hattr : e.invalidAttribute inLoop = node.invalidAttribute inLoop)
    (hf : ∀ path : Option Path, path.isSome = node.hasPath inLoop → (f path).isSome = e.hasPath inLoop) :
    ExtractsAs inLoop e (result >>= fun path => .ok (f path)) := by
  refine ⟨?_, fun path hpath => ?_⟩
  · rw [hattr, ← h.1]
    exact Except.error?_bind_of_ok fun _ => rfl
  · obtain ⟨base, hbase, hpath⟩ := Except.bind_eq_ok.mp hpath
    cases hpath
    exact hf base (h.2 base hbase)

theorem extractVariablePath_as (inLoop : Bool) (e : Expr) : ExtractsAs inLoop e (extractVariablePath inLoop e) := by
  have hnone : ∀ e : Expr, e.loopAttribute = none → e.hasPath inLoop = false → ExtractsAs inLoop e (.ok none) := by
    intro e hattr hpath
    refine ⟨?_, fun path h => ?_⟩
    · cases inLoop <;> simp [Expr.invalidAttribute, hattr]
    · cases h
      exact hpath.symm
  induction e with
  | name n => exact extractVariablePath_name inLoop n
  | const _ | templateData _ | other _ | not _ _ => exact hnone _ rfl rfl
  | getattr node attr ih =>
    have hf : ∀ path : Option Path, path.isSome = node.hasPath inLoop →
        (path.map (· ++ [attr])).isSome = node.hasPath inLoop := fun path h => by rw [Option.isSome_map, h]
    cases node with
    | name n => exact extractVariablePath_loop inLoop n attr
    | _ => exact ih.step rfl hf
  | getitem node arg ih _ =>
    refine ih.step rfl fun path h => ?_
    show _ = (node.hasPath inLoop && (indexPath arg).isSome)
    rw [← h]
    cases path with
    | none => rfl
    | some path => exact Option.isSome_map

theorem Site.fault_printed (inLoop : Bool) (e : Expr) :
    Site.fault ⟨inLoop, .printed, e⟩ = (e.invalidAttribute inLoop).map .invalidLoopAttribute := by
  unfold Site.fault
  cases e.invalidAttribute inLoop with
  | none => rfl
  | some attr => rfl

theorem Site.fault_tested (inLoop : Bool) (e : Expr) :
    Site.fault ⟨inLoop, .tested, e⟩ = (e.invalidAttribute inLoop).map .invalidLoopAttribute := by
  unfold Site.fault
  cases e.invalidAttribute inLoop with
  | none => rfl
  | some attr => rfl

theorem Site.fault_iterated (inLoop : Bool) (e : Expr) :
    Site.fault ⟨inLoop, .iterated, e⟩ =
      ((e.invalidAttribute inLoop).map .invalidLoopAttribute).or
        (if e.hasPath inLoop then none else some (.unboundLocal "iter_access")) := by
  unfold Site.fault
  cases e.invalidAttribute inLoop with
  | none =>
    show (if (!e.hasPath inLoop) = true then some (TemplateError.unboundLocal "iter_access") else none) = _
    cases e.hasPath inLoop <;> rfl
  | some attr => rfl

theorem handleOutputNode_error (scope : LoopStack) (controlContext : List TemplateReference) (e : Expr) :
    (handleOutputNode scope controlContext e).error? = Site.fault ⟨!scope.isEmpty, .printed, e⟩ := by
  have hpath := (extractVariablePath_as (!scope.isEmpty) e).1
  rw [Site.fault_printed, ← hpath]
  unfold handleOutputNode
  split
  next => rfl
  next =>
    refine Except.error?_bind_of_ok fun path => ?_
    cases path with
    | some path => rfl
    | none => by_cases h : controlContext = [] <;> simp [h]

theorem handleOutput_error (scope : LoopStack) (controlContext : List TemplateReference) (es : List Expr) :
    (handleOutput scope controlContext es).error? =
      (es.map fun e => (⟨!scope.isEmpty, .printed, e⟩ : Site)).findSome? Site.fault := by
  induction es with
  | nil => rfl
  | cons e es ih =>
    rw [List.map_cons, Except.findSome?_cons_or, ← ih, ← handleOutputNode_error scope controlContext, handleOutput]
    exact Except.error?_bind fun _ _ => Except.error?_bind_of_ok fun _ => rfl

theorem conditionAccess_error (scope : LoopStack) (test : Expr) :
    (conditionAccess scope test).error? = Site.fault ⟨!scope.isEmpty, .tested, test⟩ := by
  rw [Site.fault_tested, ← (extractVariablePath_as (!scope.isEmpty) test).1]
  refine Except.error?_bind_of_ok fun path => ?_
  cases path with
  | some path => rfl
  | none => rfl

mutual

theorem collectStmt_error : ∀ (scope : LoopStack) (controlContext : List TemplateReference) (stmt : Stmt),
    (collectStmt scope controlContext stmt).error? = (stmtSites (!scope.isEmpty) stmt).findSome? Site.fault
  | scope, controlContext, .output nodes => handleOutput_error scope controlContext nodes
  | scope, controlContext, .cond test body elifs els => by
    rw [stmtSites, Except.findSome?_cons_or, List.findSome?_append, List.findSome?_append, ← conditionAccess_error,
      collectStmt]
    refine Except.error?_bind fun condition _ => ?_
    rw [← collectStmts_error scope (controlContext ++ condition) body,
      ← collectElifs_error scope (controlContext ++ condition) elifs,
      ← collectStmts_error scope (controlContext ++ condition) els]
    refine Except.error?_bind fun _ _ => ?_
    refine Except.error?_bind fun _ _ => ?_
    exact Except.error?_bind_of_ok fun _ => rfl
  | scope, controlContext, .loop target iter body els test => by
    rw [stmtSites, Except.findSome?_cons_or, Except.findSome?_cons_or, List.findSome?_append, collectStmt]
    obtain ⟨herror, hpath⟩ := extractVariablePath_as (!scope.isEmpty) iter
    cases hiter : extractVariablePath (!scope.isEmpty) iter with
    | error e =>
      rw [Site.fault_iterated, ← herror, hiter]
      rfl
    | ok path =>
      rw [Site.fault_iterated, ← herror, ← hpath path hiter, hiter]
      cases path with
      | none => rfl
      | some path =>
        cases target with
        | name n =>
          let iteration : TemplateReference := ⟨resolveVariablePath path scope, .iteration⟩
          -- whatever the frame, the body and the `else` are in a loop
          have hbody : (collectStmts (⟨n, iteration.varPath⟩ :: scope) (controlContext ++ [iteration]) body).error? =
              (sites true body).findSome? Site.fault := collectStmts_error _ _ body
          have hels : (collectStmts (⟨n, iteration.varPath⟩ :: scope) (controlContext ++ [iteration]) els).error? =
              (sites true els).findSome? Site.fault := collectStmts_error _ _ els
          rw [← hbody, ← hels]
          show (collectStmts (⟨n, iteration.varPath⟩ :: scope) (controlContext ++ [iteration]) body >>= fun bodies =>
              collectStmts (⟨n, iteration.varPath⟩ :: scope) (controlContext ++ [iteration]) els >>= fun elses =>
                .ok (⟨iteration, controlContext⟩ :: (bodies ++ elses))).error? = Option.or _ _
          exact Except.error?_bind fun _ _ => Except.error?_bind_of_ok fun _ => rfl
        | _ => rfl
  | scope, controlContext, .other typeName => rfl

/-- The collection raises what it has against the first site that it has something against. -/
theorem collectStmts_error : ∀ (scope : LoopStack) (controlContext : List TemplateReference) (stmts : List Stmt),
    (collectStmts scope controlContext stmts).error? = (sites (!scope.isEmpty) stmts).findSome? Site.fault
  | scope, controlContext, [] => rfl
  | scope, controlContext, stmt :: stmts => by
    rw [sites, List.findSome?_append, ← collectStmt_error scope controlContext stmt,
      ← collectStmts_error scope controlContext stmts, collectStmts]
    exact Except.error?_bind fun _ _ => Except.error?_bind_of_ok fun _ => rfl

theorem collectElifs_error : ∀ (scope : LoopStack) (controlContext : List TemplateReference)
    (elifs : List (Expr × List Stmt)),
    (collectElifs scope controlContext elifs).error? = (elifSites (!scope.isEmpty) elifs).findSome? Site.fault
  | scope, controlContext, [] => rfl
  | scope, controlContext, (test, body) :: elifs => by
    rw [elifSites, Except.findSome?_cons_or, List.findSome?_append, ← conditionAccess_error, collectElifs]
    refine Except.error?_bind fun condition _ => ?_
    rw [← collectStmts_error scope (controlContext ++ condition) body, ← collectElifs_error scope controlContext elifs]
    exact Except.error?_bind fun _ _ => Except.error?_bind_of_ok fun _ => rfl

end

/-! ## The tree -/

/-- A variable is used in two ways. -/
def TemplateError.IsInconsistency (e : TemplateError) : Prop :=
  ∃ used used', e = .inconsistentUse used used' ∧ used ≠ used'

variable {e : TemplateError}

theorem setRequirement_error {req : TypeRequirement} {node : VariableNode}
    (h : node.setRequirement req = .error e) : e.IsInconsistency := by
  cases node with
  | node requirement children =>
    cases requirement with
    | none => cases h
    | some req' =>
      rw [VariableNode.setRequirement] at h
      by_cases heq : req' = req
      · rw [if_pos heq] at h
        cases h
      · rw [if_neg heq] at h
        cases h
        exact ⟨req', req, rfl, heq⟩

theorem updateChild_error {name : String} {update : VariableNode → Except TemplateError VariableNode}
    {children : List (String × VariableNode)} (h : updateChild name update children = .error e) :
    ∃ node, update node = .error e := by
  induction children with
  | nil =>
    rcases Except.bind_eq_error.mp h with hupdate | ⟨_, _, h⟩
    · exact ⟨_, hupdate⟩
    · cases h
  | cons child children ih =>
    rw [updateChild] at h
    split at h
    next =>
      rcases Except.bind_eq_error.mp h with hupdate | ⟨_, _, h⟩
      · exact ⟨_, hupdate⟩
      · cases h
    next =>
      rcases Except.bind_eq_error.mp h with hrest | ⟨_, _, h⟩
      · exact ih hrest
      · cases h

theorem addPath_error {leaf : Option TypeRequirement} {path : Path} {node : VariableNode}
    (h : addPath leaf path node = .error e) : e.IsInconsistency := by
  induction path generalizing node with
  | nil =>
    cases leaf with
    | none => cases h
    | some req =>
      rcases Except.bind_eq_error.mp h with hset | ⟨node', _, h⟩
      · exact setRequirement_error hset
      · split at h
        next =>
          rcases Except.bind_eq_error.mp h with hchild | ⟨_, _, h⟩
          · obtain ⟨_, hchild⟩ := updateChild_error hchild
            cases hchild
          · cases h
        next => cases h
  | cons part path ih =>
    rcases Except.bind_eq_error.mp h with hset | ⟨node', _, h⟩
    · exact setRequirement_error hset
    · rcases Except.bind_eq_error.mp h with hchild | ⟨_, _, h⟩
      · obtain ⟨_, hchild⟩ := updateChild_error hchild
        exact ih hchild
      · cases h

/-- Of paths, only a tree in which a variable would have two uses cannot be built. -/
theorem buildSchemaTree_error {accesses : List TemplateReference}
    (h : buildSchemaTree accesses = .error e) : e.IsInconsistency := by
  have hfold : ∀ tree : VariableTree, accesses.foldlM addAccess tree = .error e → e.IsInconsistency := by
    clear h
    induction accesses with
    | nil => exact nofun
    | cons access accesses ih =>
      intro tree h
      rcases Except.bind_eq_error.mp h with haccess | ⟨tree', _, h⟩
      · unfold addAccess at haccess
        split at haccess
        next => cases haccess
        next =>
          obtain ⟨_, hpath⟩ := updateChild_error haccess
          exact addPath_error hpath
      · exact ih tree' h
  exact hfold [] h

/-! ## The end of the analysis -/

/-- What an error says is there, in the nodes of the template or where its expressions stand. A Python error says nothing
of the template. -/
def TemplateError.Names (ast : Template) : TemplateError → Prop
  | .unsupportedNode typeName => .expr (.other typeName) ∈ nodes ast ∨ .stmt (.other typeName) ∈ nodes ast
  | .dynamicIndex => ∃ node arg, .expr (.getitem node arg) ∈ nodes ast ∧ ∀ value, arg ≠ .const value
  | .invalidIndex => ∃ node value, .expr (.getitem node (.const value)) ∈ nodes ast ∧ indexPath (.const value) = none
  | .loopTarget => ∃ site ∈ sites false ast, site.role = .bound ∧ site.expr.isName = false
  | .invalidLoopAttribute attr =>
    ∃ site ∈ sites false ast, site.inLoop = true ∧ site.expr.loopAttribute = some attr ∧ attr ∉ validLoopAttributes
  | .inconsistentUse used used' => used ≠ used'
  | .unboundLocal _ => False

/-- The analysis returns a tree, or it raises an error that names what it does not support. -/
def Settled (ast : Template) : Prop :=
  (∃ tree, fromJinjaTemplate ast = .ok tree) ∨ ∃ e, fromJinjaTemplate ast = .error e ∧ e.Names ast

variable {ast : Template}

theorem refusal_names {node : Node} (hnode : node ∈ nodes ast)
    (h : node.refusal = some e) : e.Names ast := by
  unfold Node.refusal at h
  split at h
  next typeName =>
    cases h
    exact Or.inl hnode
  next => cases h
  next => cases h
  next node value hint hstr =>
    cases h
    refine ⟨node, _, hnode, ?_⟩
    cases value with
    | int n => exact absurd rfl (hint n)
    | str s => exact absurd rfl (hstr s)
    | _ => rfl
  next node arg hint hstr hconst =>
    cases h
    exact ⟨node, arg, hnode, fun value => hconst value⟩
  next typeName =>
    cases h
    exact Or.inr hnode
  next => cases h

variable {site : Site}

theorem fault_names (hsite : site ∈ sites false ast) (h : site.misused = true) :
    ∃ e, site.fault = some e ∧ e.Names ast := by
  obtain ⟨inLoop, role, expr⟩ := site
  have hattribute : ∀ attr, expr.invalidAttribute inLoop = some attr →
      (TemplateError.invalidLoopAttribute attr).Names ast := by
    intro attr hattr
    cases inLoop with
    | false => cases hattr
    | true =>
      obtain ⟨hloop, hinvalid⟩ := Option.filter_eq_some_iff.mp hattr
      exact ⟨_, hsite, rfl, hloop, of_decide_eq_true hinvalid⟩
  have hmisused : (expr.invalidAttribute inLoop).isSome = true → ∀ role, role ≠ .bound →
      ∃ e, Site.fault ⟨inLoop, role, expr⟩ = some e ∧ e.Names ast := by
    intro hsome role hrole
    obtain ⟨attr, hattr⟩ := Option.isSome_iff_exists.mp hsome
    refine ⟨.invalidLoopAttribute attr, ?_, hattribute attr hattr⟩
    unfold Site.fault
    cases role with
    | bound => exact absurd rfl hrole
    | _ => simp [hattr]
  cases role with
  | bound =>
    have hname : expr.isName = false := by simpa [Site.misused] using h
    exact ⟨.loopTarget, by simp [Site.fault, hname], _, hsite, rfl, hname⟩
  | _ => exact hmisused h _ nofun

theorem fault_of_pathless (h : site.pathless = true) (hmisused : site.misused = false) :
    site.fault = some (.unboundLocal "iter_access") := by
  obtain ⟨inLoop, role, expr⟩ := site
  cases role with
  | iterated =>
    have hpath : expr.hasPath inLoop = false := by simpa [Site.pathless] using h
    have hattr : expr.invalidAttribute inLoop = none := Option.not_isSome_iff_eq_none.mp (by simpa [Site.misused] using hmisused)
    rw [Site.fault_iterated, hattr, hpath]
    rfl
  | _ => cases h

theorem fault_of_not_pathless (h : site.pathless = false) (hmisused : site.misused = false) :
    site.fault = none := by
  obtain ⟨inLoop, role, expr⟩ := site
  cases role with
  | bound =>
    have hname : expr.isName = true := by simpa [Site.misused] using hmisused
    simp [Site.fault, hname]
  | _ =>
    have hattr : expr.invalidAttribute inLoop = none := Option.not_isSome_iff_eq_none.mp (by simpa [Site.misused] using hmisused)
    simp [Site.fault, hattr, h]

/-- The collection stops before it comes to a loop over something without a path. -/
def StopsBeforePathless (ast : Template) : Prop :=
  ∀ before site after, sites false ast = before ++ site :: after → site.pathless = true →
    ∃ site' ∈ before ++ [site], site'.misused = true

theorem settled_of_refused {node : Node} (hnode : node ∈ nodes ast) (hrefused : node.refusal ≠ none) :
    Settled ast := by
  cases hfirst : (nodes ast).findSome? Node.refusal with
  | none => exact absurd (List.findSome?_eq_none_iff.mp hfirst node hnode) hrefused
  | some e =>
    obtain ⟨before, first, after, hnodes, hrefusal, -⟩ := List.findSome?_eq_some_iff.mp hfirst
    have hmem : first ∈ nodes ast := by
      rw [hnodes]
      exact List.mem_append_right _ List.mem_cons_self
    have hvalidate : validateStmts ast = .error e := by
      rw [← Except.error?_eq_some, validateStmts_error, hfirst]
    refine Or.inr ⟨e, ?_, refusal_names hmem hrefusal⟩
    rw [fromJinjaTemplate, hvalidate]
    rfl

/-- A template without a refused node is handed to the collection. -/
theorem fromJinjaTemplate_allowed (hallowed : ∀ node ∈ nodes ast, node.refusal = none) :
    fromJinjaTemplate ast =
      collectStmts [] [] ast >>= fun allAccesses => buildSchemaTree (extractOutputDependencies allAccesses) := by
  have hvalidate : (validateStmts ast).error? = none := by
    rw [validateStmts_error]
    exact List.findSome?_eq_none_iff.mpr hallowed
  obtain ⟨⟨⟩, hvalidate⟩ := Except.error?_eq_none.mp hvalidate
  rw [fromJinjaTemplate, hvalidate]
  rfl

theorem settled_of_stops (hallowed : ∀ node ∈ nodes ast, node.refusal = none)
    (hstops : StopsBeforePathless ast) : Settled ast := by
  unfold Settled
  rw [fromJinjaTemplate_allowed hallowed]
  have hcollect := collectStmts_error [] [] ast
  cases hfirst : (sites false ast).findSome? Site.fault with
  | none =>
    obtain ⟨accesses, haccesses⟩ := Except.error?_eq_none.mp (hcollect.trans hfirst)
    rw [haccesses, Except.ok_bind]
    cases hbuild : buildSchemaTree (extractOutputDependencies accesses) with
    | ok tree => exact Or.inl ⟨tree, rfl⟩
    | error e =>
      obtain ⟨used, used', rfl, hne⟩ := buildSchemaTree_error hbuild
      exact Or.inr ⟨_, rfl, hne⟩
  | some e =>
    rw [Except.error?_eq_some.mp (hcollect.trans hfirst), Except.error_bind]
    obtain ⟨before, site, after, hsites, hfault, hbefore⟩ := List.findSome?_eq_some_iff.mp hfirst
    have hmem : site ∈ sites false ast := by
      rw [hsites]
      exact List.mem_append_right _ List.mem_cons_self
    have hmisused : site.misused = true := by
      by_contra hmisused
      have hnot := Bool.eq_false_iff.mpr hmisused
      cases hpathless : site.pathless with
      | false =>
        rw [fault_of_not_pathless hpathless hnot] at hfault
        cases hfault
      | true =>
        -- the misuse that the loop stands behind would be the first fault
        obtain ⟨site', hsite', hmisused'⟩ := hstops before site after hsites hpathless
        rcases List.mem_append.mp hsite' with hsite' | hsite'
        · have hmem' : site' ∈ sites false ast := by
            rw [hsites]
            exact List.mem_append_left _ hsite'
          obtain ⟨e', hfault', -⟩ := fault_names hmem' hmisused'
          rw [hbefore site' hsite'] at hfault'
          cases hfault'
        · rw [List.mem_singleton.mp hsite', hnot] at hmisused'
          cases hmisused'
    obtain ⟨e', hfault', hnames⟩ := fault_names hmem hmisused
    rw [hfault] at hfault'
    cases hfault'
    exact Or.inr ⟨e, rfl, hnames⟩

theorem stops_of_settled (hallowed : ∀ node ∈ nodes ast, node.refusal = none) (h : Settled ast) :
    StopsBeforePathless ast := by
  intro before site after hsites hpathless
  by_contra hnone
  have hclean : ∀ site' ∈ before ++ [site], site'.misused = false := by
    intro site' hsite'
    exact Bool.eq_false_iff.mpr fun hmisused => hnone ⟨site', hsite', hmisused⟩
  have hsite := fault_of_pathless hpathless (hclean site (List.mem_append_right _ List.mem_cons_self))
  -- nothing is wrong before the site but loops without a path, so one of these is the first fault
  have hbefore : ∀ e, before.findSome? Site.fault = some e → e = .unboundLocal "iter_access" := by
    intro e he
    obtain ⟨first, hfirst, hfault⟩ := List.exists_of_findSome?_eq_some he
    have hfirstClean := hclean first (List.mem_append_left _ hfirst)
    cases hpath : first.pathless with
    | false =>
      rw [fault_of_not_pathless hpath hfirstClean] at hfault
      cases hfault
    | true =>
      rw [fault_of_pathless hpath hfirstClean] at hfault
      exact (Option.some.inj hfault).symm
  have hfirst : (sites false ast).findSome? Site.fault = some (.unboundLocal "iter_access") := by
    rw [hsites, List.findSome?_append, Except.findSome?_cons_or, hsite]
    cases hfind : before.findSome? Site.fault with
    | none => rfl
    | some e => rw [hbefore e hfind]; rfl
  have hcollect : collectStmts [] [] ast = .error (.unboundLocal "iter_access") :=
    Except.error?_eq_some.mp ((collectStmts_error [] [] ast).trans hfirst)
  unfold Settled at h
  rw [fromJinjaTemplate_allowed hallowed, hcollect, Except.error_bind] at h
  rcases h with ⟨tree, htree⟩ | ⟨e, he, hnames⟩
  · cases htree
  · cases he
    exact hnames

/-- The analysis returns a tree or names what it does not support exactly if the template has a node that is refused, or
the collection stops before it comes to a loop over something that is no part of a column. -/
theorem settled_iff (ast : Template) :
    Settled ast ↔ (∃ node ∈ nodes ast, node.refusal ≠ none) ∨ StopsBeforePathless ast := by
  by_cases hallowed : ∀ node ∈ nodes ast, node.refusal = none
  · constructor
    · exact fun h => Or.inr (stops_of_settled hallowed h)
    · rintro (⟨node, hnode, hrefused⟩ | hstops)
      · exact absurd (hallowed node hnode) hrefused
      · exact settled_of_stops hallowed hstops
  · obtain ⟨node, hnode, hrefused⟩ : ∃ node ∈ nodes ast, node.refusal ≠ none := by
      by_contra hnone
      refine hallowed fun node hnode => ?_
      by_contra hrefused
      exact hnone ⟨node, hnode, hrefused⟩
    exact ⟨fun _ => Or.inl ⟨node, hnode, hrefused⟩, fun _ => settled_of_refused hnode hrefused⟩

/-- `{% for x in 1 %}{{ x }}{% endfor %}` ends with Python's error for a local variable without a value. -/
theorem loop_over_number_unsettled : ¬ ∀ ast : Template, Settled ast := by
  intro h
  have hrun : fromJinjaTemplate [.loop (.name "x") (.const (.int 1)) [.output [.name "x"]] [] none] =
      .error (.unboundLocal "iter_access") := rfl
  rcases h [.loop (.name "x") (.const (.int 1)) [.output [.name "x"]] [] none] with ⟨tree, htree⟩ | ⟨e, he, hnames⟩
  · rw [hrun] at htree
    cases htree
  · rw [hrun] at he
    cases he
    exact hnames

end Jinja

end Fenic
