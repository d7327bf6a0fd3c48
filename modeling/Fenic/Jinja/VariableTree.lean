import Fenic.Dtypes.Series
import Fenic.Jinja.Render

/-!
# `Jinja.VariableTree` — which parts of the columns a template uses

`fromJinjaTemplate` checks that a template has only the allowed nodes, collects the accesses to variables together with
the conditions and loops around them (`collect`), keeps those on which the output depends
(`extractOutputDependencies`), and builds the tree of their paths (`buildSchemaTree`). `validateJinjaVariable` compares
a variable of the tree with the type of a column.

An element of an array is the path of the array with `*` behind it.
-/

namespace Fenic

namespace Jinja

inductive TypeRequirement where
  | array
  | struct
  deriving DecidableEq

inductive TemplateError where
  | unsupportedNode (typeName : String)
  /-- An index that is not constant. -/
  | dynamicIndex
  /-- A constant index that is neither a number nor a text. -/
  | invalidIndex
  | loopTarget
  | invalidLoopAttribute (attr : String)
  | inconsistentUse (used used' : TypeRequirement)
  /-- Python's error for a loop over something without a path. -/
  | unboundLocal (variableName : String)

/-! ## Paths -/

abbrev Path := List String

/-- How a variable is used. -/
inductive ReferenceAccessContext where
  | output
  | condition
  | iteration
  deriving DecidableEq

structure TemplateReference where
  varPath : Path
  context : ReferenceAccessContext
  deriving DecidableEq

structure ReferenceWithDeps where
  access : TemplateReference
  controlDependencies : List TemplateReference

structure LoopDefinition where
  varName : String
  arrayPath : Path

/-- `LoopStack`, innermost loop first. -/
abbrev LoopStack := List LoopDefinition

/-- `resolve_variable`. -/
def LoopStack.resolveVariable (scope : LoopStack) (varName : String) : Option Path :=
  (scope.find? fun frame => frame.varName == varName).map fun frame => frame.arrayPath ++ ["*"]

/-- `_resolve_variable_path`. -/
def resolveVariablePath (path : Path) (scope : LoopStack) : Path :=
  match path with
  | [] => []
  | root :: rest =>
    match scope.resolveVariable root with
    | some resolvedRoot => resolvedRoot ++ rest
    | none => root :: rest

/-- What a constant index adds to a path. -/
def indexPath : Expr → Option Path
  | .const (.int _) => some ["*"]
  | .const (.str s) => some [s]
  | _ => none

/-- `_extract_variable_path`. -/
def extractVariablePath (isInLoop : Bool) : Expr → Except TemplateError (Option Path)
  | .name name => .ok (if name = "loop" ∧ isInLoop = true then none else some [name])
  | .getattr (.name name) attr =>
    if name = "loop" ∧ isInLoop = true then
      if attr ∈ validLoopAttributes then .ok none else .error (.invalidLoopAttribute attr)
    else .ok (some [name, attr])
  | .getattr node attr => do
    let basePath ← extractVariablePath isInLoop node
    .ok (basePath.map (· ++ [attr]))
  | .getitem node arg => do
    let basePath ← extractVariablePath isInLoop node
    .ok (basePath.bind fun basePath => (indexPath arg).map (basePath ++ ·))
  | _ => .ok none

/-! ## The allowed nodes -/

/-- `validate_node` for expressions. -/
def validateExpr : Expr → Except TemplateError Unit
  | .other typeName => .error (.unsupportedNode typeName)
  | .getattr node _ => validateExpr node
  | .not node => validateExpr node
  | .getitem node arg =>
    match arg with
    | .const (.int _) => validateExpr node
    | .const (.str _) => validateExpr node
    | .const _ => .error .invalidIndex
    | _ => .error .dynamicIndex
  | _ => .ok ()

mutual

/-- `validate_node` for statements. -/
def validateStmt : Stmt → Except TemplateError Unit
  | .output nodes => nodes.forM validateExpr
  | .cond test body elifs els => do
    validateExpr test
    validateStmts body
    validateElifs elifs
    validateStmts els
  | .loop target iter body els test => do
    validateExpr target
    validateExpr iter
    validateStmts body
    validateStmts els
    test.forM validateExpr
  | .other typeName => .error (.unsupportedNode typeName)

def validateStmts : List Stmt → Except TemplateError Unit
  | [] => .ok ()
  | stmt :: stmts => do
    validateStmt stmt
    validateStmts stmts

def validateElifs : List (Expr × List Stmt) → Except TemplateError Unit
  | [] => .ok ()
  | (test, body) :: elifs => do
    validateExpr test
    validateStmts body
    validateElifs elifs

end

/-! ## Accesses -/

/-- One node of `_handle_output`. -/
def handleOutputNode (scope : LoopStack) (controlContext : List TemplateReference) (node : Expr) :
    Except TemplateError (List ReferenceWithDeps) :=
  match node with
  | .templateData "" => .ok []
  | node => do
    let outputPath ← extractVariablePath (!scope.isEmpty) node
    match outputPath with
    | some path => .ok [⟨⟨resolveVariablePath path scope, .output⟩, controlContext⟩]
    -- the marker of an output without a variable
    | none => if controlContext = [] then .ok [] else .ok [⟨⟨[], .output⟩, controlContext⟩]

/-- `_handle_output`. -/
def handleOutput (scope : LoopStack) (controlContext : List TemplateReference) :
    List Expr → Except TemplateError (List ReferenceWithDeps)
  | [] => .ok []
  | node :: nodes => do
    let accesses ← handleOutputNode scope controlContext node
    let others ← handleOutput scope controlContext nodes
    .ok (accesses ++ others)

/-- The access that `_handle_conditional` records for a test. -/
def conditionAccess (scope : LoopStack) (test : Expr) : Except TemplateError (List TemplateReference) := do
  let conditionPath ← extractVariablePath (!scope.isEmpty) test
  match conditionPath with
  | some path => .ok [⟨resolveVariablePath path scope, .condition⟩]
  | none => .ok []

mutual

/-- `_traverse_and_collect`: the accesses of the statement, of which those that are no outputs are never used again. -/
def collectStmt (scope : LoopStack) (controlContext : List TemplateReference) :
    Stmt → Except TemplateError (List ReferenceWithDeps)
  | .output nodes => handleOutput scope controlContext nodes
  | .cond test body elifs els => do
    let condition ← conditionAccess scope test
    let bodies ← collectStmts scope (controlContext ++ condition) body
    let others ← collectElifs scope (controlContext ++ condition) elifs
    let elses ← collectStmts scope (controlContext ++ condition) els
    .ok (bodies ++ others ++ elses)
  | .loop target iter body els _ => do
    let arrayPath ← extractVariablePath (!scope.isEmpty) iter
    match arrayPath with
    | none => .error (.unboundLocal "iter_access")
    | some path =>
      match target with
      | .name name => do
        let iteration : TemplateReference := ⟨resolveVariablePath path scope, .iteration⟩
        let bodies ← collectStmts (⟨name, iteration.varPath⟩ :: scope) (controlContext ++ [iteration]) body
        let elses ← collectStmts (⟨name, iteration.varPath⟩ :: scope) (controlContext ++ [iteration]) els
        .ok (⟨iteration, controlContext⟩ :: (bodies ++ elses))
      | _ => .error .loopTarget
  | .other _ => .ok []

def collectStmts (scope : LoopStack) (controlContext : List TemplateReference) :
    List Stmt → Except TemplateError (List ReferenceWithDeps)
  | [] => .ok []
  | stmt :: stmts => do
    let accesses ← collectStmt scope controlContext stmt
    let others ← collectStmts scope controlContext stmts
    .ok (accesses ++ others)

/-- An `elif` is an `if` of its own, under the conditions of the first. -/
def collectElifs (scope : LoopStack) (controlContext : List TemplateReference) :
    List (Expr × List Stmt) → Except TemplateError (List ReferenceWithDeps)
  | [] => .ok []
  | (test, body) :: elifs => do
    let condition ← conditionAccess scope test
    let accesses ← collectStmts scope (controlContext ++ condition) body
    let others ← collectElifs scope controlContext elifs
    .ok (accesses ++ others)

end

/-- `d[key] = value` for the dict of the control dependencies, whose key is the path. -/
def setDependency (dep : TemplateReference) : List TemplateReference → List TemplateReference
  | [] => [dep]
  | d :: deps => if d.varPath = dep.varPath then dep :: deps else d :: setDependency dep deps

/-- `_extract_output_dependencies`. -/
def extractOutputDependencies (allAccesses : List ReferenceWithDeps) : List TemplateReference :=
  let outputs := allAccesses.filter fun a => a.access.context = .output
  outputs.map ReferenceWithDeps.access ++
    (outputs.flatMap ReferenceWithDeps.controlDependencies).foldl (fun deps dep => setDependency dep deps) []

/-! ## The tree -/

/-- A variable, or a part of one. -/
inductive VariableNode where
  | node (requirement : Option TypeRequirement) (children : List (String × VariableNode))

namespace VariableNode

def requirement : VariableNode → Option TypeRequirement
  | .node requirement _ => requirement

def children : VariableNode → List (String × VariableNode)
  | .node _ children => children

def new : VariableNode := .node none []

/-- `set_requirement`. -/
def setRequirement (req : TypeRequirement) : VariableNode → Except TemplateError VariableNode
  | .node none children => .ok (.node (some req) children)
  | .node (some req') children =>
    if req' = req then .ok (.node (some req) children) else .error (.inconsistentUse req' req)

end VariableNode

/-- Replaces the child of a name, which is created if there is none. -/
def updateChild (name : String) (update : VariableNode → Except TemplateError VariableNode) :
    List (String × VariableNode) → Except TemplateError (List (String × VariableNode))
  | [] => do
    let node ← update .new
    .ok [(name, node)]
  | (name', node) :: children =>
    if name' = name then do
      let node ← update node
      .ok ((name', node) :: children)
    else do
      let children ← updateChild name update children
      .ok ((name', node) :: children)

/-- The requirement that a part of a path sets on what stands before it. -/
def partRequirement (part : String) : TypeRequirement :=
  if part = "*" then .array else .struct

/-- The walk of `_add_path_to_tree` below a node, and the requirement at the end. -/
def addPath (leafRequirement : Option TypeRequirement) : Path → VariableNode → Except TemplateError VariableNode
  | [], node =>
    match leafRequirement with
    | none => .ok node
    | some req => do
      let node ← node.setRequirement req
      if req = .array then do
        let children ← updateChild "*" .ok node.children
        .ok (.node node.requirement children)
      else .ok node
  | part :: path, node => do
    let node ← node.setRequirement (partRequirement part)
    let children ← updateChild part (addPath leafRequirement path) node.children
    .ok (.node node.requirement children)

/-- `VariableTree.variables`. -/
abbrev VariableTree := List (String × VariableNode)

/-- One access of `_build_schema_tree`. -/
def addAccess (tree : VariableTree) (access : TemplateReference) : Except TemplateError VariableTree :=
  match access.varPath with
  | [] => .ok tree
  | root :: path =>
    updateChild root (addPath (if access.context = .iteration then some .array else none) path) tree

/-- `_build_schema_tree`. -/
def buildSchemaTree (accesses : List TemplateReference) : Except TemplateError VariableTree :=
  accesses.foldlM addAccess []

/-- `VariableTree.from_jinja_template`, of a parsed template. -/
def fromJinjaTemplate (ast : Template) : Except TemplateError VariableTree := do
  validateStmts ast
  let allAccesses ← collectStmts [] [] ast
  buildSchemaTree (extractOutputDependencies allAccesses)

/-! ## Types -/

inductive ValidationFailure where
  | notArray (path : Path) (dataType : DataType)
  | notStruct (path : Path) (dataType : DataType)
  | noField (path : Path) (name : String)
  | keyError (name : String)

mutual

/-- `validate_helper`. -/
def validateHelper (path : Path) : VariableNode → DataType → Except ValidationFailure Unit
  | .node none _, _ => .ok ()
  | .node (some .array) children, dataType =>
    match dataType with
    | .arrayType elementType => validateElement path elementType children
    | dataType => .error (.notArray path dataType)
  | .node (some .struct) children, dataType =>
    match dataType with
    | .structType fields => validateFields path fields children
    | dataType => .error (.notStruct path dataType)

/-- The check of `children["*"]`. -/
def validateElement (path : Path) (elementType : DataType) : List (String × VariableNode) → Except ValidationFailure Unit
  | [] => .error (.keyError "*")
  | (name, node) :: children =>
    if name = "*" then validateHelper (path ++ ["*"]) node elementType
    else validateElement path elementType children

def validateFields (path : Path) (fields : List (String × DataType)) :
    List (String × VariableNode) → Except ValidationFailure Unit
  | [] => .ok ()
  | (name, node) :: children =>
    match Dtypes.mapGet fields name with
    | none => .error (.noField path name)
    | some dataType => do
      validateHelper (path ++ [name]) node dataType
      validateFields path fields children

end

/-- `validate_jinja_variable`. -/
def validateJinjaVariable (tree : VariableTree) (variableName : String) (dataType : DataType) :
    Except ValidationFailure Unit :=
  match tree.lookup variableName with
  | none => .error (.keyError variableName)
  | some node => validateHelper [variableName] node dataType

end Jinja

end Fenic
