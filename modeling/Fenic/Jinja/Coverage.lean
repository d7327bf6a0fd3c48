import Fenic.Jinja.VariableTree
import Mathlib.Data.List.Induction

/-!
# `Jinja.Coverage` — which reads of a template the tree knows of

`Has leaf path node` says that a node has the parts of a path below it, each with the requirement that the next part sets,
and at the end the requirement of the access. Adding a path brings it about (`has_addPath`) and keeps it for the paths
that are there (`extends_addPath`); so the tree that `buildSchemaTree` returns has every path of the accesses
(`hasVar_of_mem`).

`VariableTree` records the accesses that it thinks matter; rendering reads what the template says. `shape` is the path
that an expression stands for when it is rendered: the loop variable is in scope in the body and in the filter of a loop,
but not behind its `else`. `Recorded` says that a path is a part of what the template prints, or of what it tests or loops
over around something printed. For a recorded path the tree has the node before its last part, with the requirement
that this part sets (`find_of_recorded`); for a loop that is kept, the tree has the array (`find_of_loopKept`).
-/

namespace Fenic

namespace Jinja

/-! ## Nodes -/

/-- The node at the end of a path. -/
def VariableNode.find : Path → VariableNode → Option VariableNode
  | [], n => some n
  | part :: path, n => (n.children.lookup part).bind (VariableNode.find path)

/-- The node of a variable or of a part of one. -/
def VariableTree.find (tree : VariableTree) : Path → Option VariableNode
  | [] => none
  | root :: path => (tree.lookup root).bind (VariableNode.find path)

/-- The parts of a path are below a node, with their requirements. -/
def Has (leaf : Option TypeRequirement) : Path → VariableNode → Prop
  | [], node => ∀ req, leaf = some req → node.requirement = some req ∧
      (req = .array → ∃ child, node.children.lookup "*" = some child)
  | part :: path, node => node.requirement = some (partRequirement part) ∧
      ∃ child, node.children.lookup part = some child ∧ Has leaf path child

/-- A node has everything that another has. -/
def Extends (node node' : VariableNode) : Prop :=
  (∀ req, node.requirement = some req → node'.requirement = some req) ∧
    ∀ name child, node.children.lookup name = some child →
      ∃ child', node'.children.lookup name = some child' ∧ ∀ leaf path, Has leaf path child → Has leaf path child'

theorem Extends.has {node node' : VariableNode} (h : Extends node node') {leaf : Option TypeRequirement} {path : Path}
    (hhas : Has leaf path node) : Has leaf path node' := by
  cases path with
  | nil =>
    intro req hreq
    obtain ⟨hrequirement, hchild⟩ := hhas req hreq
    refine ⟨h.1 req hrequirement, fun harray => ?_⟩
    obtain ⟨child, hlookup⟩ := hchild harray
    obtain ⟨child', hlookup', -⟩ := h.2 "*" child hlookup
    exact ⟨child', hlookup'⟩
  | cons part path =>
    obtain ⟨hrequirement, child, hlookup, hchild⟩ := hhas
    obtain ⟨child', hlookup', hkeeps⟩ := h.2 part child hlookup
    exact ⟨h.1 _ hrequirement, child', hlookup', hkeeps leaf path hchild⟩

theorem setRequirement_inv {req : TypeRequirement} {node node' : VariableNode} (h : node.setRequirement req = .ok node') :
    node' = .node (some req) node.children ∧ (node.requirement = none ∨ node.requirement = some req) := by
  obtain ⟨requirement, children⟩ := node
  cases requirement with
  | none =>
    cases h
    exact ⟨rfl, Or.inl rfl⟩
  | some req' =>
    obtain ⟨rfl, h⟩ := Except.require_eq_ok.mp h
    cases h
    exact ⟨rfl, Or.inr rfl⟩

theorem lookup_cons_self {α : Type} (name : String) (a : α) (entries : List (String × α)) :
    List.lookup name ((name, a) :: entries) = some a := by
  simp [List.lookup]

theorem lookup_cons_of_ne {α : Type} {name name' : String} (h : name ≠ name') (a : α) (entries : List (String × α)) :
    List.lookup name ((name', a) :: entries) = List.lookup name entries := by
  have hbeq : (name == name') = false := by simpa using h
  simp [List.lookup, hbeq]

/-- The child of the name is updated, or a new one is; the others stay. -/
theorem updateChild_inv {name : String} {update : VariableNode → Except TemplateError VariableNode}
    {children children' : List (String × VariableNode)} (h : updateChild name update children = .ok children') :
    (∃ child', update ((children.lookup name).getD .new) = .ok child' ∧ children'.lookup name = some child') ∧
      ∀ other ≠ name, children'.lookup other = children.lookup other := by
  induction children generalizing children' with
  | nil =>
    obtain ⟨child', hchild', h⟩ := Except.bind_eq_ok.mp h
    cases h
    exact ⟨⟨child', hchild', lookup_cons_self _ _ _⟩, fun other hne => lookup_cons_of_ne hne _ _⟩
  | cons entry children ih =>
    obtain ⟨name', node⟩ := entry
    rw [updateChild] at h
    by_cases hname : name' = name
    · subst hname
      rw [if_pos rfl] at h
      obtain ⟨child', hchild', h⟩ := Except.bind_eq_ok.mp h
      cases h
      refine ⟨⟨child', ?_, lookup_cons_self _ _ _⟩, fun other hne => ?_⟩
      · rw [lookup_cons_self]
        exact hchild'
      · rw [lookup_cons_of_ne hne, lookup_cons_of_ne hne]
    · rw [if_neg hname] at h
      obtain ⟨rest, hrest, h⟩ := Except.bind_eq_ok.mp h
      cases h
      obtain ⟨⟨child', hchild', hlookup⟩, hothers⟩ := ih hrest
      refine ⟨⟨child', ?_, ?_⟩, fun other hne => ?_⟩
      · rw [lookup_cons_of_ne (Ne.symm hname)]
        exact hchild'
      · rw [lookup_cons_of_ne (Ne.symm hname)]
        exact hlookup
      · by_cases hother : other = name'
        · subst hother
          rw [lookup_cons_self, lookup_cons_self]
        · rw [lookup_cons_of_ne hother, lookup_cons_of_ne hother, hothers other hne]

/-! ## Adding a path -/

/-- What `addPath` does to a node: the requirement is set, and one child is updated. -/
theorem addPath_cons_inv {leaf : Option TypeRequirement} {part : String} {path : Path} {node node' : VariableNode}
    (h : addPath leaf (part :: path) node = .ok node') :
    node'.requirement = some (partRequirement part) ∧
      (node.requirement = none ∨ node.requirement = some (partRequirement part)) ∧
      updateChild part (addPath leaf path) node.children = .ok node'.children := by
  obtain ⟨node₁, hnode₁, h⟩ := Except.bind_eq_ok.mp h
  obtain ⟨rfl, hrequirement⟩ := setRequirement_inv hnode₁
  obtain ⟨children, hchildren, h⟩ := Except.bind_eq_ok.mp h
  cases h
  exact ⟨rfl, hrequirement, hchildren⟩

/-- The end of a path: nothing, or a requirement, and for an array its element. -/
theorem addPath_nil_inv {leaf : Option TypeRequirement} {node node' : VariableNode} (h : addPath leaf [] node = .ok node') :
    (leaf = none ∧ node' = node) ∨
    ∃ req, leaf = some req ∧ node'.requirement = some req ∧ (node.requirement = none ∨ node.requirement = some req) ∧
      ((req = .array ∧ updateChild "*" .ok node.children = .ok node'.children) ∨
        (req ≠ .array ∧ node'.children = node.children)) := by
  cases leaf with
  | none =>
    cases h
    exact Or.inl ⟨rfl, rfl⟩
  | some req =>
    obtain ⟨node₁, hnode₁, h⟩ := Except.bind_eq_ok.mp h
    obtain ⟨rfl, hrequirement⟩ := setRequirement_inv hnode₁
    refine Or.inr ⟨req, rfl, ?_⟩
    by_cases harray : req = .array
    · rw [if_pos harray] at h
      obtain ⟨children, hchildren, h⟩ := Except.bind_eq_ok.mp h
      cases h
      exact ⟨rfl, hrequirement, Or.inl ⟨harray, hchildren⟩⟩
    · rw [if_neg harray] at h
      cases h
      exact ⟨rfl, hrequirement, Or.inr ⟨harray, rfl⟩⟩

/-- **The path that is added is there.** -/
theorem has_addPath {leaf : Option TypeRequirement} {path : Path} {node node' : VariableNode}
    (h : addPath leaf path node = .ok node') : Has leaf path node' := by
  induction path generalizing node node' with
  | nil =>
    rcases addPath_nil_inv h with ⟨rfl, -⟩ | ⟨req, rfl, hrequirement, -, hchildren⟩
    · intro req hreq
      cases hreq
    · intro req' hreq'
      cases hreq'
      refine ⟨hrequirement, fun harray => ?_⟩
      rcases hchildren with ⟨-, hchildren⟩ | ⟨hne, -⟩
      · obtain ⟨⟨child', -, hlookup⟩, -⟩ := updateChild_inv hchildren
        exact ⟨child', hlookup⟩
      · exact absurd harray hne
  | cons part path ih =>
    obtain ⟨hrequirement, -, hchildren⟩ := addPath_cons_inv h
    obtain ⟨⟨child', hchild', hlookup⟩, -⟩ := updateChild_inv hchildren
    exact ⟨hrequirement, child', hlookup, ih hchild'⟩

theorem requirement_kept {req : TypeRequirement} {node node' : VariableNode} (hnode' : node'.requirement = some req)
    (hnode : node.requirement = none ∨ node.requirement = some req) :
    ∀ req', node.requirement = some req' → node'.requirement = some req' := by
  intro req' hreq'
  rcases hnode with h | h
  · rw [h] at hreq'
    cases hreq'
  · rw [hnode', ← h, hreq']

/-- An update that keeps what the child has keeps what all children have. -/
theorem children_kept {name : String} {update : VariableNode → Except TemplateError VariableNode}
    {children children' : List (String × VariableNode)} (h : updateChild name update children = .ok children')
    (hupdate : ∀ node node', update node = .ok node' → ∀ leaf path, Has leaf path node → Has leaf path node')
    (other : String) (child : VariableNode) (hchild : children.lookup other = some child) :
    ∃ child', children'.lookup other = some child' ∧ ∀ leaf path, Has leaf path child → Has leaf path child' := by
  obtain ⟨⟨child', hchild', hlookup⟩, hothers⟩ := updateChild_inv h
  by_cases hother : other = name
  · subst hother
    rw [hchild] at hchild'
    exact ⟨child', hlookup, hupdate child child' hchild'⟩
  · exact ⟨child, (hothers other hother).trans hchild, fun _ _ hhas => hhas⟩

/-- **What a node has stays when a path is added.** -/
theorem extends_addPath {leaf : Option TypeRequirement} {path : Path} {node node' : VariableNode}
    (h : addPath leaf path node = .ok node') : Extends node node' := by
  induction path generalizing node node' with
  | nil =>
    rcases addPath_nil_inv h with ⟨-, rfl⟩ | ⟨req, -, hrequirement, hbefore, hchildren⟩
    · exact ⟨fun req hreq => hreq, fun name child hchild => ⟨child, hchild, fun _ _ hhas => hhas⟩⟩
    · refine ⟨requirement_kept hrequirement hbefore, fun name child hchild => ?_⟩
      rcases hchildren with ⟨-, hchildren⟩ | ⟨-, hchildren⟩
      · apply children_kept hchildren ?_ name child hchild
        intro node node' hnode leaf path hhas
        cases hnode
        exact hhas
      · rw [hchildren]
        exact ⟨child, hchild, fun _ _ hhas => hhas⟩
  | cons part path ih =>
    obtain ⟨hrequirement, hbefore, hchildren⟩ := addPath_cons_inv h
    refine ⟨requirement_kept hrequirement hbefore, fun name child hchild => ?_⟩
    apply children_kept hchildren ?_ name child hchild
    intro node node' hnode leaf' path' hhas
    exact (ih hnode).has hhas

/-! ## The tree -/

/-- The requirement that an access sets at the end of its path. -/
def TemplateReference.leaf (access : TemplateReference) : Option TypeRequirement :=
  if access.context = .iteration then some .array else none

/-- The parts of a path are in the tree. -/
def HasVar (leaf : Option TypeRequirement) (path : Path) (tree : VariableTree) : Prop :=
  match path with
  | [] => True
  | root :: path => ∃ node, tree.lookup root = some node ∧ Has leaf path node

theorem hasVar_addAccess {access : TemplateReference} {tree tree' : VariableTree} (h : addAccess tree access = .ok tree') :
    HasVar access.leaf access.varPath tree' := by
  unfold addAccess at h
  cases hpath : access.varPath with
  | nil => trivial
  | cons root path =>
    rw [hpath] at h
    obtain ⟨⟨child', hchild', hlookup⟩, -⟩ := updateChild_inv h
    exact ⟨child', hlookup, has_addPath hchild'⟩

theorem HasVar.addAccess {access : TemplateReference} {tree tree' : VariableTree} (h : addAccess tree access = .ok tree')
    {leaf : Option TypeRequirement} {path : Path} (hhas : HasVar leaf path tree) : HasVar leaf path tree' := by
  unfold Jinja.addAccess at h
  cases hpath : access.varPath with
  | nil =>
    rw [hpath] at h
    cases h
    exact hhas
  | cons root rest =>
    rw [hpath] at h
    cases path with
    | nil => trivial
    | cons root' path =>
      obtain ⟨node, hlookup, hnode⟩ := hhas
      obtain ⟨node', hlookup', hkeeps⟩ := children_kept h (fun _ _ hupdate _ _ hhas => (extends_addPath hupdate).has hhas)
        root' node hlookup
      exact ⟨node', hlookup', hkeeps _ _ hnode⟩

/-- **The tree has the path of every access.** -/
theorem hasVar_of_mem {accesses : List TemplateReference} {tree : VariableTree} (h : buildSchemaTree accesses = .ok tree)
    {access : TemplateReference} (hmem : access ∈ accesses) : HasVar access.leaf access.varPath tree := by
  have hrun : ∀ (accesses : List TemplateReference) (start : VariableTree), accesses.foldlM addAccess start = .ok tree →
      (∀ leaf path, HasVar leaf path start → HasVar leaf path tree) ∧
        ∀ access ∈ accesses, HasVar access.leaf access.varPath tree := by
    intro accesses
    induction accesses with
    | nil =>
      intro start hstart
      cases hstart
      exact ⟨fun _ _ hhas => hhas, fun access hmem => absurd hmem List.not_mem_nil⟩
    | cons first accesses ih =>
      intro start hstart
      obtain ⟨next, hnext, hrest⟩ := Except.bind_eq_ok.mp hstart
      obtain ⟨hkeeps, hall⟩ := ih next hrest
      refine ⟨fun leaf path hhas => hkeeps _ _ (hhas.addAccess hnext), fun access hmem => ?_⟩
      rcases List.mem_cons.mp hmem with rfl | hmem
      · exact hkeeps _ _ (hasVar_addAccess hnext)
      · exact hall access hmem
  exact (hrun accesses [] h).2 access hmem

/-! ## Which reads of a template the tree knows of -/

/-! ## Paths of expressions -/

/-- A loop around an expression, with the path of its array. The filter of a loop has no loop object. -/
structure ScopeFrame where
  target : String
  root : String
  rest : Path
  hasLoop : Bool

abbrev Scope := List ScopeFrame

/-- What an expression stands for: a part of a column, the loop object of a loop, or nothing of a column. -/
inductive Shape where
  | path (root : String) (rest : Path)
  | loop (root : String) (rest : Path)
  | data

def resolveFrames (name : String) : Scope → Option Shape
  | [] => none
  | frame :: frames =>
    if frame.target = name then some (.path frame.root (frame.rest ++ ["*"]))
    else if frame.hasLoop = true ∧ name = "loop" then some (.loop frame.root frame.rest)
    else resolveFrames name frames

def resolveName (scope : Scope) (name : String) : Shape :=
  (resolveFrames name scope).getD (.path name [])

def attrShape (attr : String) : Shape → Shape
  | .path root rest => .path root (rest ++ [attr])
  | .loop root rest => if attr = "previtem" ∨ attr = "nextitem" then .path root (rest ++ ["*"]) else .data
  | .data => .data

def indexShape : Shape → Shape
  | .path root rest => .path root (rest ++ ["*"])
  | _ => .data

def shape (scope : Scope) : Expr → Shape
  | .name name => resolveName scope name
  | .getattr node attr => attrShape attr (shape scope node)
  | .getitem node arg =>
    match arg with
    | .const (.int _) => indexShape (shape scope node)
    | .const (.str s) => attrShape s (shape scope node)
    | _ => .data
  | _ => .data

/-! ## Recorded paths -/

/-- The conditions and loops around what is printed, in the order of the template. -/
def controls (accesses : List ReferenceWithDeps) : List TemplateReference :=
  (accesses.filter fun a => a.access.context = .output).flatMap ReferenceWithDeps.controlDependencies

/-- The path is a part of one that is printed, or tested or looped over around something printed. -/
def Recorded (accesses : List ReferenceWithDeps) (path : Path) : Prop :=
  (∃ a ∈ accesses, a.access.context = .output ∧ path <+: a.access.varPath) ∨ ∃ d ∈ controls accesses, path <+: d.varPath

/-- Of the conditions and loops on a path around what is printed, the last is a loop. -/
def LoopLast (accesses : List ReferenceWithDeps) (path : Path) : Prop :=
  ((controls accesses).filter fun d => d.varPath = path).getLast? = some ⟨path, .iteration⟩

section Dependencies

theorem mem_setDependency_self (dep : TemplateReference) (deps : List TemplateReference) : dep ∈ setDependency dep deps := by
  induction deps with
  | nil => exact List.mem_cons_self
  | cons d deps ih =>
    rw [setDependency]
    split
    · exact List.mem_cons_self
    · exact List.mem_cons_of_mem _ ih

theorem mem_setDependency_of_ne {dep d : TemplateReference} {deps : List TemplateReference} (h : d ∈ deps)
    (hne : d.varPath ≠ dep.varPath) : d ∈ setDependency dep deps := by
  induction deps with
  | nil => cases h
  | cons d' deps ih =>
    rw [setDependency]
    split
    next heq =>
        rcases List.mem_cons.mp h with rfl | h
        · exact absurd heq hne
        · exact List.mem_cons_of_mem _ h
    next =>
        rcases List.mem_cons.mp h with rfl | h
        · exact List.mem_cons_self
        · exact List.mem_cons_of_mem _ (ih h)

/-- The dict keeps the last dependency with a path. -/
theorem mem_dependencies_of_last {deps : List TemplateReference} {d : TemplateReference}
    (h : (deps.filter fun d' => d'.varPath = d.varPath).getLast? = some d) :
    d ∈ deps.foldl (fun deps dep => setDependency dep deps) [] := by
  induction deps using List.reverseRecOn with
  | nil => cases h
  | append_singleton deps dep ih =>
    rw [List.foldl_append, List.foldl_cons, List.foldl_nil]
    by_cases hpath : dep.varPath = d.varPath
    · have hlast : (deps.filter (fun d' => d'.varPath = d.varPath) ++ [dep]).getLast? = some d := by
        simpa [hpath] using h
      rw [List.getLast?_concat] at hlast
      cases hlast
      exact mem_setDependency_self _ _
    · have hrest : (deps.filter fun d' => d'.varPath = d.varPath).getLast? = some d := by
        simpa [hpath] using h
      exact mem_setDependency_of_ne (ih hrest) (Ne.symm hpath)

/-- Every path of a dependency is that of the last one. -/
theorem exists_last {deps : List TemplateReference} {d : TemplateReference} (h : d ∈ deps) :
    ∃ last, last.varPath = d.varPath ∧ (deps.filter fun d' => d'.varPath = last.varPath).getLast? = some last := by
  have hmem : d ∈ deps.filter fun d' => d'.varPath = d.varPath := by
    rw [List.mem_filter]
    exact ⟨h, by simp⟩
  have hne : (deps.filter fun d' => d'.varPath = d.varPath) ≠ [] := List.ne_nil_of_mem hmem
  have hlast := List.getLast_mem hne
  rw [List.mem_filter] at hlast
  have hpath : ((deps.filter fun d' => d'.varPath = d.varPath).getLast hne).varPath = d.varPath := by simpa using hlast.2
  refine ⟨_, hpath, ?_⟩
  rw [hpath]
  exact List.getLast?_eq_some_getLast hne

end Dependencies

/-! ## Paths in the tree -/

theorem find_append (path : Path) (part : String) (node : VariableNode) :
    node.find (path ++ [part]) = (node.find path).bind fun n => n.children.lookup part := by
  induction path generalizing node with
  | nil =>
    show (node.children.lookup part).bind some = node.children.lookup part
    cases node.children.lookup part <;> rfl
  | cons first path ih =>
    show (node.children.lookup first).bind (VariableNode.find (path ++ [part])) = _
    show _ = ((node.children.lookup first).bind (VariableNode.find path)).bind _
    cases node.children.lookup first with
    | none => rfl
    | some child => exact ih child

theorem tree_find_append (tree : VariableTree) (root : String) (rest : Path) (part : String) :
    tree.find (root :: (rest ++ [part])) = (tree.find (root :: rest)).bind fun n => n.children.lookup part := by
  show (tree.lookup root).bind (VariableNode.find (rest ++ [part])) = _
  show _ = ((tree.lookup root).bind (VariableNode.find rest)).bind _
  cases tree.lookup root with
  | none => rfl
  | some node => exact find_append rest part node

/-- A node with a requirement and a child. -/
def Requires (node : VariableNode) (req : TypeRequirement) (part : String) : Prop :=
  node.requirement = some req ∧ ∃ child, node.children.lookup part = some child

theorem find_of_has {leaf : Option TypeRequirement} {path : Path} {part : String} {full : Path} {node : VariableNode}
    (hfull : path ++ [part] <+: full) (h : Has leaf full node) :
    ∃ n, node.find path = some n ∧ Requires n (partRequirement part) part := by
  induction path generalizing full node with
  | nil =>
    obtain ⟨rest, rfl⟩ := hfull
    obtain ⟨hrequirement, child, hlookup, -⟩ := h
    exact ⟨node, rfl, hrequirement, child, hlookup⟩
  | cons first path ih =>
    obtain ⟨rest, rfl⟩ := hfull
    obtain ⟨-, child, hlookup, hchild⟩ := h
    obtain ⟨n, hfind, hrequires⟩ := ih (List.prefix_append _ rest) hchild
    refine ⟨n, ?_, hrequires⟩
    show (node.children.lookup first).bind (VariableNode.find path) = some n
    rw [hlookup]
    exact hfind

theorem find_of_hasVar {leaf : Option TypeRequirement} {root : String} {rest : Path} {part : String} {full : Path}
    {tree : VariableTree} (hfull : root :: (rest ++ [part]) <+: full) (h : HasVar leaf full tree) :
    ∃ n, tree.find (root :: rest) = some n ∧ Requires n (partRequirement part) part := by
  obtain ⟨more, rfl⟩ := hfull
  obtain ⟨node, hlookup, hnode⟩ := h
  obtain ⟨n, hfind, hrequires⟩ := find_of_has (List.prefix_append (rest ++ [part]) more) hnode
  refine ⟨n, ?_, hrequires⟩
  show (tree.lookup root).bind (VariableNode.find rest) = some n
  rw [hlookup]
  exact hfind

/-- The element of an array whose loop is kept. -/
theorem find_of_hasVar_iteration {root : String} {rest : Path} {tree : VariableTree}
    (h : HasVar (some .array) (root :: rest) tree) :
    ∃ n, tree.find (root :: rest) = some n ∧ Requires n .array "*" := by
  obtain ⟨node, hlookup, hnode⟩ := h
  have hend : ∀ (path : Path) (node : VariableNode), Has (some .array) path node →
      ∃ n, node.find path = some n ∧ Requires n .array "*" := by
    intro path
    induction path with
    | nil =>
      intro node hnode
      obtain ⟨hrequirement, hchild⟩ := hnode .array rfl
      exact ⟨node, rfl, hrequirement, hchild rfl⟩
    | cons part path ih =>
      rintro node ⟨-, child, hlookup, hchild⟩
      obtain ⟨n, hfind, hrequires⟩ := ih child hchild
      refine ⟨n, ?_, hrequires⟩
      show (node.children.lookup part).bind (VariableNode.find path) = some n
      rw [hlookup]
      exact hfind
  obtain ⟨n, hfind, hrequires⟩ := hend rest node hnode
  refine ⟨n, ?_, hrequires⟩
  show (tree.lookup root).bind (VariableNode.find rest) = some n
  rw [hlookup]
  exact hfind

section Tree

variable {accesses : List ReferenceWithDeps} {tree : VariableTree}

/-- **A recorded path is in the tree.** -/
theorem find_of_recorded (htree : buildSchemaTree (extractOutputDependencies accesses) = .ok tree) {root : String}
    {rest : Path} {part : String} (h : Recorded accesses (root :: (rest ++ [part]))) :
    ∃ n, tree.find (root :: rest) = some n ∧ Requires n (partRequirement part) part := by
  rcases h with ⟨a, ha, houtput, hfull⟩ | ⟨d, hd, hfull⟩
  · have hmem : a.access ∈ extractOutputDependencies accesses := by
      apply List.mem_append_left
      apply List.mem_map_of_mem
      rw [List.mem_filter]
      exact ⟨ha, by simp [houtput]⟩
    exact find_of_hasVar hfull (hasVar_of_mem htree hmem)
  · obtain ⟨last, hpath, hlast⟩ := exists_last hd
    have hmem : last ∈ extractOutputDependencies accesses :=
      List.mem_append_right _ (mem_dependencies_of_last hlast)
    rw [← hpath] at hfull
    exact find_of_hasVar hfull (hasVar_of_mem htree hmem)

/-- **An array whose loop is kept is in the tree.** -/
theorem find_of_loopKept (htree : buildSchemaTree (extractOutputDependencies accesses) = .ok tree) {root : String}
    {rest : Path} (h : Recorded accesses (root :: (rest ++ ["*"])) ∨ LoopLast accesses (root :: rest)) :
    ∃ n, tree.find (root :: rest) = some n ∧ Requires n .array "*" := by
  rcases h with h | h
  · exact find_of_recorded htree h
  · have hmem : (⟨root :: rest, .iteration⟩ : TemplateReference) ∈ extractOutputDependencies accesses :=
      List.mem_append_right _ (mem_dependencies_of_last h)
    exact find_of_hasVar_iteration (hasVar_of_mem htree hmem)

end Tree

end Jinja

end Fenic
