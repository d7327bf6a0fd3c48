import Fenic.Jinja.Coverage

/-!
# `Jinja.TypeSoundness` — validated templates access values by their types

`validateJinjaVariable` checks the tree of a template against the types of the columns. It makes rendering access fields
of structs only, and index and loop over arrays only, as far as the tree knows of the accesses: `Checked` says of a
template that the paths which rendering accesses are recorded, and `render_wellTyped` that a template so checked is
rendered well-typed, on all values of validated types.

The invariant of a rendering is `EnvTyped`: the values of the variables are of the types against which the nodes of the
tree at their paths were validated.
-/

namespace Fenic

namespace Jinja

/-! ## Well-typed accesses -/

/-- The access is to a value of the right type. What is absent has no type. -/
def Access.WellTyped : Access → Prop
  | .field v name => v.isAbsent = true ∨ (∃ entries, v = .map entries ∧ name ∈ entries.map Prod.fst) ∨
      ∃ index0 length previtem nextitem, v = .loop index0 length previtem nextitem ∧ name ∈ validLoopAttributes
  | .index v => v.isAbsent = true ∨ ∃ items, v = .list items
  | .iterate v => v.isAbsent = true ∨ ∃ items, v = .list items

/-- The types whose values are numbers, texts or truth values for the template. -/
def isScalarType : DataType → Bool
  | .arrayType _ => false
  | .structType _ => false
  | .embeddingType _ _ => false
  | _ => true

/-- A value of a column of a type, as rendering sees it. -/
inductive ValueOf : DataType → Value → Prop
  | none (t : DataType) : ValueOf t .none
  | bool {t : DataType} (h : isScalarType t = true) (b : Bool) : ValueOf t (.bool b)
  | int {t : DataType} (h : isScalarType t = true) (n : Int) : ValueOf t (.int n)
  | float {t : DataType} (h : isScalarType t = true) (x : Float) : ValueOf t (.float x)
  | str {t : DataType} (h : isScalarType t = true) (s : String) : ValueOf t (.str s)
  | list {t : DataType} {items : List Value} (h : ∀ item ∈ items, ValueOf t item) : ValueOf (.arrayType t) (.list items)
  | embedding {d : Nat} {m : String} {xs : List Float} : ValueOf (.embeddingType d m) (.list (xs.map .float))
  | map {fields : List (String × DataType)} {entries : List (String × Value)}
      (hnames : ∀ name t, Dtypes.mapGet fields name = some t → name ∈ entries.map Prod.fst)
      (h : ∀ name t, Dtypes.mapGet fields name = some t → ValueOf t (Value.field name (.map entries))) :
      ValueOf (.structType fields) (.map entries)

/-! ## Checked templates -/

section Checked

variable (accesses : List ReferenceWithDeps)

/-- A field that is accessed is recorded; the field `*` would be taken for an element. -/
def AttrChecked (attr : String) : Shape → Prop
  | .path root rest => attr ≠ "*" ∧ Recorded accesses (root :: (rest ++ [attr]))
  | .loop _ _ => attr ∈ validLoopAttributes
  | .data => False

def IndexChecked : Shape → Prop
  | .path root rest => Recorded accesses (root :: (rest ++ ["*"]))
  | _ => False

def ExprChecked (scope : Scope) : Expr → Prop
  | .name _ => True
  | .const _ => True
  | .templateData _ => True
  | .getattr node attr => ExprChecked scope node ∧ AttrChecked accesses attr (shape scope node)
  | .getitem node arg => ExprChecked scope node ∧
      match arg with
      | .const (.int _) => IndexChecked accesses (shape scope node)
      | .const (.str s) => AttrChecked accesses s (shape scope node)
      | _ => False
  | .not node => ExprChecked scope node
  | .other _ => False

/-- The loop runs over a path on which the tree keeps the array. -/
def LoopChecked (path : Shape) : Prop :=
  ∃ root rest, path = .path root rest ∧
    (Recorded accesses (root :: (rest ++ ["*"])) ∨ LoopLast accesses (root :: rest))

/-- The frame of a loop over a shape. -/
def Shape.frame (target : String) (hasLoop : Bool) : Shape → ScopeFrame
  | .path root rest => ⟨target, root, rest, hasLoop⟩
  | .loop root rest => ⟨target, root, rest, hasLoop⟩
  | .data => ⟨target, "", [], hasLoop⟩

mutual

def StmtChecked (scope : Scope) : Stmt → Prop
  | .output nodes => ∀ node ∈ nodes, ExprChecked accesses scope node
  | .cond test body elifs els => ExprChecked accesses scope test ∧ StmtsChecked scope body ∧ ElifsChecked scope elifs ∧
      StmtsChecked scope els
  | .loop target iter body els test =>
    match target with
    | .name name => ExprChecked accesses scope iter ∧ LoopChecked accesses (shape scope iter) ∧
        (∀ filter, test = some filter → ExprChecked accesses ((shape scope iter).frame name false :: scope) filter) ∧
        StmtsChecked ((shape scope iter).frame name true :: scope) body ∧ StmtsChecked scope els
    | _ => False
  | .other _ => False

def StmtsChecked (scope : Scope) : List Stmt → Prop
  | [] => True
  | stmt :: stmts => StmtChecked scope stmt ∧ StmtsChecked scope stmts

def ElifsChecked (scope : Scope) : List (Expr × List Stmt) → Prop
  | [] => True
  | (test, body) :: elifs => ExprChecked accesses scope test ∧ StmtsChecked scope body ∧ ElifsChecked scope elifs

end

end Checked

/-- Rendering accesses recorded paths only, and loops over arrays that the tree keeps. -/
def Checked (ast : Template) : Prop :=
  ∀ accesses, collectStmts [] [] ast = .ok accesses → StmtsChecked accesses [] ast

/-! ## Values at nodes -/

/-- The value is of a type that the node was validated against. -/
def Typed (node : VariableNode) (v : Value) : Prop :=
  v.isAbsent = true ∨ ∃ path t, validateHelper path node t = .ok () ∧ ValueOf t v

variable {path : Path} {child : VariableNode}

theorem validateElement_inv {t : DataType} {children : List (String × VariableNode)}
    (h : validateElement path t children = .ok ()) (hchild : children.lookup "*" = some child) :
    ∃ path', validateHelper path' child t = .ok () := by
  induction children with
  | nil => cases hchild
  | cons entry children ih =>
    obtain ⟨name, node⟩ := entry
    rw [validateElement] at h
    by_cases hname : name = "*"
    · subst hname
      cases hchild
      exact ⟨_, h⟩
    · rw [if_neg hname] at h
      rw [lookup_cons_of_ne (Ne.symm hname)] at hchild
      exact ih h hchild

theorem validateFields_inv {fields : List (String × DataType)} {children : List (String × VariableNode)}
    {name : String} (h : validateFields path fields children = .ok ())
    (hchild : children.lookup name = some child) :
    ∃ t path', Dtypes.mapGet fields name = some t ∧ validateHelper path' child t = .ok () := by
  induction children with
  | nil => cases hchild
  | cons entry children ih =>
    obtain ⟨name', node⟩ := entry
    rw [validateFields] at h
    cases hfield : Dtypes.mapGet fields name' with
    | none =>
      rw [hfield] at h
      cases h
    | some t =>
      rw [hfield] at h
      obtain ⟨_, hnode, hrest⟩ := Except.bind_eq_ok.mp h
      by_cases hname : name = name'
      · subst hname
        rw [lookup_cons_self] at hchild
        cases hchild
        exact ⟨t, _, hfield, hnode⟩
      · rw [lookup_cons_of_ne hname] at hchild
        exact ih hrest hchild

variable {v : Value}

/-- A value at an array node is an array of values at the node of its elements. -/
theorem Typed.array {node : VariableNode} (h : Typed node v) (hrequirement : node.requirement = some .array)
    (hchild : node.children.lookup "*" = some child) :
    v.isAbsent = true ∨ ∃ items, v = .list items ∧ ∀ item ∈ items, Typed child item := by
  rcases h with h | ⟨path, t, hvalid, hvalue⟩
  · exact Or.inl h
  · obtain ⟨requirement, children⟩ := node
    cases hrequirement
    cases t with
    | arrayType t =>
      obtain ⟨path', hchildValid⟩ := validateElement_inv hvalid hchild
      cases hvalue with
      | none => exact Or.inl rfl
      | list hitems => exact Or.inr ⟨_, rfl, fun item hitem => Or.inr ⟨path', t, hchildValid, hitems item hitem⟩⟩
      | bool h => cases h
      | int h => cases h
      | float h => cases h
      | str h => cases h
    | _ => cases hvalid

/-- A value at a struct node has the fields of the node. -/
theorem Typed.struct {node : VariableNode} {name : String} (h : Typed node v)
    (hrequirement : node.requirement = some .struct) (hchild : node.children.lookup name = some child) :
    v.isAbsent = true ∨ ∃ entries, v = .map entries ∧ name ∈ entries.map Prod.fst ∧ Typed child (v.field name) := by
  rcases h with h | ⟨path, t, hvalid, hvalue⟩
  · exact Or.inl h
  · obtain ⟨requirement, children⟩ := node
    cases hrequirement
    cases t with
    | structType fields =>
      obtain ⟨t, path', hfield, hchildValid⟩ := validateFields_inv hvalid hchild
      cases hvalue with
      | none => exact Or.inl rfl
      | map hnames hfields =>
        exact Or.inr ⟨_, rfl, hnames name t hfield, Or.inr ⟨path', t, hchildValid, hfields name t hfield⟩⟩
      | bool h => cases h
      | int h => cases h
      | float h => cases h
      | str h => cases h
    | _ => cases hvalid

/-- The value is typed by the node at the path, if the tree has one. -/
def PathTyped (tree : VariableTree) (path : Path) (v : Value) : Prop :=
  ∀ node, tree.find path = some node → Typed node v

theorem pathTyped_of_isAbsent {tree : VariableTree} (h : v.isAbsent = true) : PathTyped tree path v :=
  fun _ _ => Or.inl h

/-- A value is typed by the path that its expression stands for. -/
def ShapeTyped (tree : VariableTree) : Shape → Value → Prop
  | .path root rest, v => PathTyped tree (root :: rest) v
  | .loop root rest, v => ∃ index0 length previtem nextitem, v = .loop index0 length previtem nextitem ∧
      PathTyped tree (root :: (rest ++ ["*"])) previtem ∧ PathTyped tree (root :: (rest ++ ["*"])) nextitem
  | .data, _ => True

/-- The variables of a loop are typed by the elements of its array. -/
def FrameTyped (tree : VariableTree) (scope : ScopeFrame) (frame : Frame) : Prop :=
  frame.target = scope.target ∧ PathTyped tree (scope.root :: (scope.rest ++ ["*"])) frame.item ∧
    (scope.hasLoop = false → frame.loopObject = none) ∧
    (scope.hasLoop = true → ∃ v, frame.loopObject = some v ∧ ShapeTyped tree (.loop scope.root scope.rest) v)

structure EnvTyped (tree : VariableTree) (scope : Scope) (env : Env) : Prop where
  frames : List.Forall₂ (FrameTyped tree) scope env.frames
  columns : ∀ name, PathTyped tree [name] ((env.columns.lookup name).getD .undefined)

theorem EnvTyped.push {tree : VariableTree} {scope : Scope} {env : Env} {scopeFrame : ScopeFrame} {frame : Frame}
    (h : EnvTyped tree scope env) (hframe : FrameTyped tree scopeFrame frame) :
    EnvTyped tree (scopeFrame :: scope) (env.push frame) :=
  ⟨.cons hframe h.frames, h.columns⟩

/-- A variable is typed by what its name stands for. -/
theorem EnvTyped.lookup {tree : VariableTree} {scope : Scope} {env : Env} (h : EnvTyped tree scope env) (name : String) :
    ShapeTyped tree (resolveName scope name) (env.lookup name) := by
  obtain ⟨frames, columns⟩ := env
  obtain ⟨hframes, hcolumns⟩ := h
  unfold resolveName Env.lookup
  dsimp only at hframes hcolumns ⊢
  induction hframes with
  | nil => exact hcolumns name
  | @cons scopeFrame frame scope frames hframe _ ih =>
    obtain ⟨htarget, hitem, hnoLoop, hloop⟩ := hframe
    rw [resolveFrames, lookupFrames, htarget]
    by_cases hname : scopeFrame.target = name
    · rw [if_pos hname, if_pos hname]
      exact hitem
    · rw [if_neg hname, if_neg hname]
      cases hhas : scopeFrame.hasLoop with
      | false =>
        rw [hnoLoop hhas, if_neg (by simp)]
        exact ih
      | true =>
        obtain ⟨v, hv, htyped⟩ := hloop hhas
        rw [hv]
        dsimp only
        by_cases hloopName : name = "loop"
        · rw [if_pos ⟨rfl, hloopName⟩, if_pos hloopName]
          exact htyped
        · rw [if_neg (fun h => hloopName h.2), if_neg hloopName]
          exact ih

/-! ## Safe renderings -/

/-- All accesses are well-typed, and the result has a property. -/
def Safe {α : Type} (x : Rendering α) (P : α → Prop) : Prop :=
  (∀ access ∈ x.log, access.WellTyped) ∧ ∀ a, x.result = .ok a → P a

section Safe

variable {α β : Type} {P : α → Prop} {Q : β → Prop}

theorem safe_pure {a : α} (h : P a) : Safe (pure a : Rendering α) P := by
  refine ⟨fun access hmem => absurd hmem List.not_mem_nil, fun a' ha' => ?_⟩
  cases ha'
  exact h

theorem safe_fail (e : RenderError) : Safe (.fail e : Rendering α) P :=
  ⟨fun access hmem => absurd hmem List.not_mem_nil, fun a ha => by cases ha⟩

theorem safe_record {access : Access} {x : Rendering α} (haccess : access.WellTyped) (hx : Safe x P) :
    Safe (.record access x) P := by
  refine ⟨fun access' hmem => ?_, hx.2⟩
  rcases List.mem_cons.mp hmem with rfl | hmem
  · exact haccess
  · exact hx.1 access' hmem

theorem Safe.bind {x : Rendering α} {f : α → Rendering β} (hx : Safe x P) (hf : ∀ a, P a → Safe (f a) Q) :
    Safe (x >>= f) Q := by
  constructor
  · intro access hmem
    rcases Rendering.mem_bind_log hmem with h | ⟨a, ha, h⟩
    · exact hx.1 access h
    · exact (hf a (hx.2 a ha)).1 access h
  · intro b hb
    rw [Rendering.bind_result] at hb
    obtain ⟨a, ha, hb⟩ := Except.bind_eq_ok.mp hb
    exact (hf a (hx.2 a ha)).2 b hb

end Safe

section Rendering

variable {accesses : List ReferenceWithDeps} {tree : VariableTree}
  (htree : buildSchemaTree (extractOutputDependencies accesses) = .ok tree)

include htree

/-! ### Parts of values -/

variable {v : Value}

theorem getAttr_safe {s : Shape} {attr : String} (hv : ShapeTyped tree s v) (hchecked : AttrChecked accesses attr s) :
    Safe (getAttr v attr) (ShapeTyped tree (attrShape attr s)) := by
  cases s with
  | data => cases hchecked
  | loop root rest =>
    obtain ⟨index0, length, previtem, nextitem, rfl, hprev, hnext⟩ := hv
    have haccess : Access.WellTyped (.field (.loop index0 length previtem nextitem) attr) :=
      Or.inr (Or.inr ⟨_, _, _, _, rfl, hchecked⟩)
    apply safe_record haccess
    apply safe_pure
    show ShapeTyped tree (if attr = "previtem" ∨ attr = "nextitem" then .path root (rest ++ ["*"]) else .data) _
    by_cases hitem : attr = "previtem" ∨ attr = "nextitem"
    · rw [if_pos hitem]
      rcases hitem with rfl | rfl
      · exact hprev
      · exact hnext
    · rw [if_neg hitem]
      trivial
  | path root rest =>
    obtain ⟨hne, hrecorded⟩ := hchecked
    obtain ⟨node, hfind, hrequirement, child, hchild⟩ := find_of_recorded htree hrecorded
    rw [partRequirement, if_neg hne] at hrequirement
    have hpath : tree.find (root :: (rest ++ [attr])) = some child := by
      rw [tree_find_append, hfind]
      exact hchild
    rcases (hv node hfind).struct hrequirement hchild with habsent | ⟨entries, rfl, hmem, hfield⟩
    · have haccess : Access.WellTyped (.field v attr) := Or.inl habsent
      apply safe_record haccess
      cases v <;> cases habsent
      · exact safe_fail _
      · exact safe_pure (pathTyped_of_isAbsent rfl)
    · have haccess : Access.WellTyped (.field (.map entries) attr) := Or.inr (Or.inl ⟨entries, rfl, hmem⟩)
      apply safe_record haccess
      apply safe_pure
      intro node' hnode'
      rw [hpath] at hnode'
      cases hnode'
      exact hfield

variable [Minijinja]

theorem getItem_int_safe {s : Shape} {i : Int} (hv : ShapeTyped tree s v) (hchecked : IndexChecked accesses s) :
    Safe (getItem v (.int i)) (ShapeTyped tree (indexShape s)) := by
  cases s with
  | data => cases hchecked
  | loop root rest => cases hchecked
  | path root rest =>
    obtain ⟨node, hfind, hrequirement, child, hchild⟩ := find_of_recorded htree hchecked
    have hpath : tree.find (root :: (rest ++ ["*"])) = some child := by
      rw [tree_find_append, hfind]
      exact hchild
    rcases (hv node hfind).array hrequirement hchild with habsent | ⟨items, rfl, hitems⟩
    · have haccess : Access.WellTyped (.index v) := Or.inl habsent
      apply safe_record haccess
      cases v <;> cases habsent
      · exact safe_fail _
      · exact safe_pure (pathTyped_of_isAbsent rfl)
    · have haccess : Access.WellTyped (.index (.list items)) := Or.inr ⟨items, rfl⟩
      apply safe_record haccess
      apply safe_pure
      intro node' hnode'
      rw [hpath] at hnode'
      cases hnode'
      rw [List.getD_eq_getElem?_getD]
      cases hget : items[i.toNat]? with
      | none => exact Or.inl rfl
      | some item => exact hitems item (List.mem_of_getElem? hget)

/-! ### Expressions -/

/-- **Evaluating a checked expression is safe**, and its value is typed by the path it stands for. -/
theorem evalExpr_safe {scope : Scope} {env : Env} (henv : EnvTyped tree scope env) :
    ∀ e : Expr, ExprChecked accesses scope e → Safe (evalExpr env e) (ShapeTyped tree (shape scope e))
  | .name name, _ => safe_pure (henv.lookup name)
  | .const _, _ => safe_pure trivial
  | .templateData _, _ => safe_pure trivial
  | .getattr node attr, hchecked =>
    (evalExpr_safe henv node hchecked.1).bind fun _ hv => getAttr_safe htree hv hchecked.2
  | .not node, hchecked => (evalExpr_safe henv node hchecked).bind fun _ _ => safe_pure trivial
  | .getitem node arg, hchecked => by
    obtain ⟨hnode, harg⟩ := hchecked
    apply (evalExpr_safe henv node hnode).bind
    intro v hv
    cases arg with
    | const c =>
      -- a constant evaluates to itself
      have hpure : ∀ key, Safe (evalExpr env (.const key)) (fun k => k = .ofConst key) := fun key => safe_pure rfl
      apply (hpure c).bind
      rintro _ rfl
      cases c with
      | int n => exact getItem_int_safe htree hv harg
      | str s => exact getAttr_safe htree hv harg
      | _ => cases harg
    | _ => cases harg
  | .other _, hchecked => by cases hchecked

/-! ### Loops -/

omit [Minijinja] in
/-- A loop over a checked path runs over the elements of an array. -/
theorem iterate_safe {root : String} {rest : Path} (hv : PathTyped tree (root :: rest) v)
    (hkept : Recorded accesses (root :: (rest ++ ["*"])) ∨ LoopLast accesses (root :: rest)) :
    Safe (iterate v) (fun items => ∀ item ∈ items, PathTyped tree (root :: (rest ++ ["*"])) item) := by
  obtain ⟨node, hfind, hrequirement, child, hchild⟩ := find_of_loopKept htree hkept
  have hpath : tree.find (root :: (rest ++ ["*"])) = some child := by
    rw [tree_find_append, hfind]
    exact hchild
  rcases (hv node hfind).array hrequirement hchild with habsent | ⟨items, rfl, hitems⟩
  · have haccess : Access.WellTyped (.iterate v) := Or.inl habsent
    apply safe_record haccess
    cases v <;> cases habsent
    · exact safe_pure fun item hmem => absurd hmem List.not_mem_nil
    · exact safe_pure fun item hmem => absurd hmem List.not_mem_nil
  · have haccess : Access.WellTyped (.iterate (.list items)) := Or.inr ⟨items, rfl⟩
    apply safe_record haccess
    apply safe_pure
    intro item hitem node' hnode'
    rw [hpath] at hnode'
    cases hnode'
    exact hitems item hitem

theorem filterItems_safe {scope : Scope} {env : Env} (henv : EnvTyped tree scope env) {name root : String} {rest : Path}
    {test : Expr} (htest : ExprChecked accesses (⟨name, root, rest, false⟩ :: scope) test) :
    ∀ items : List Value, (∀ item ∈ items, PathTyped tree (root :: (rest ++ ["*"])) item) →
      Safe (filterItems env name test items) (fun kept => ∀ item ∈ kept, PathTyped tree (root :: (rest ++ ["*"])) item)
  | [], _ => safe_pure fun item hmem => absurd hmem List.not_mem_nil
  | item :: items, hitems => by
    have hframe : FrameTyped tree ⟨name, root, rest, false⟩ ⟨name, item, none⟩ :=
      ⟨rfl, hitems item List.mem_cons_self, fun _ => rfl, fun h => by cases h⟩
    apply (evalExpr_safe htree (henv.push hframe) test htest).bind
    intro keep _
    apply (filterItems_safe henv htest items fun item' hmem => hitems item' (List.mem_cons_of_mem _ hmem)).bind
    intro kept hkept
    apply safe_pure
    intro item' hmem
    split at hmem
    · rcases List.mem_cons.mp hmem with rfl | hmem
      · exact hitems _ List.mem_cons_self
      · exact hkept item' hmem
    · exact hkept item' hmem

omit htree [Minijinja] in
/-- The runs of a body are safe if each is, whatever the items before and after. -/
theorem renderItems_safe {name root : String} {rest : Path} {body : Frame → Rendering String}
    (hbody : ∀ frame, FrameTyped tree ⟨name, root, rest, true⟩ frame → Safe (body frame) fun _ => True) :
    ∀ (items : List Value) (index0 length : Nat) (previtem : Value),
      PathTyped tree (root :: (rest ++ ["*"])) previtem →
      (∀ item ∈ items, PathTyped tree (root :: (rest ++ ["*"])) item) →
      Safe (renderItems name body index0 length previtem items) fun _ => True
  | [], _, _, _, _, _ => safe_pure trivial
  | item :: items, index0, length, previtem, hprev, hitems => by
    have hitem := hitems item List.mem_cons_self
    have hrest : ∀ item' ∈ items, PathTyped tree (root :: (rest ++ ["*"])) item' :=
      fun item' hmem => hitems item' (List.mem_cons_of_mem _ hmem)
    have hnext : PathTyped tree (root :: (rest ++ ["*"])) (items.headD .undefined) := by
      cases items with
      | nil => exact pathTyped_of_isAbsent rfl
      | cons next items => exact hrest next List.mem_cons_self
    have hframe : FrameTyped tree ⟨name, root, rest, true⟩
        ⟨name, item, some (.loop index0 length previtem (items.headD .undefined))⟩ :=
      ⟨rfl, hitem, nofun, fun _ => ⟨_, rfl, _, _, _, _, rfl, hprev, hnext⟩⟩
    apply (hbody _ hframe).bind
    intro _ _
    apply (renderItems_safe hbody items (index0 + 1) length item hitem hrest).bind
    intro _ _
    exact safe_pure trivial

theorem loopItems_safe {scope : Scope} {env : Env} (henv : EnvTyped tree scope env) {name root : String} {rest : Path}
    {iter : Expr} {test : Option Expr} (hiter : ExprChecked accesses scope iter) (hshape : shape scope iter = .path root rest)
    (hkept : Recorded accesses (root :: (rest ++ ["*"])) ∨ LoopLast accesses (root :: rest))
    (htest : ∀ filter, test = some filter → ExprChecked accesses (⟨name, root, rest, false⟩ :: scope) filter) :
    Safe (loopItems env name iter test) (fun items => ∀ item ∈ items, PathTyped tree (root :: (rest ++ ["*"])) item) := by
  have heval := evalExpr_safe htree henv iter hiter
  rw [hshape] at heval
  apply heval.bind
  intro v hv
  apply (iterate_safe htree hv hkept).bind
  intro items hitems
  cases test with
  | none => exact safe_pure hitems
  | some test => exact filterItems_safe htree henv (htest test rfl) items hitems

/-! ### Statements -/

theorem renderOutput_safe {scope : Scope} {env : Env} (henv : EnvTyped tree scope env) :
    ∀ nodes : List Expr, (∀ node ∈ nodes, ExprChecked accesses scope node) → Safe (renderOutput env nodes) fun _ => True
  | [], _ => safe_pure trivial
  | node :: nodes, hchecked => by
    have hnode : Safe (renderNode env node) fun _ => True := by
      cases node with
      | templateData data => exact safe_pure trivial
      | _ => exact (evalExpr_safe htree henv _ (hchecked _ List.mem_cons_self)).bind fun _ _ => safe_pure trivial
    apply hnode.bind
    intro _ _
    apply (renderOutput_safe henv nodes fun node' hmem => hchecked node' (List.mem_cons_of_mem _ hmem)).bind
    intro _ _
    exact safe_pure trivial

end Rendering

section Statements

variable {accesses : List ReferenceWithDeps} {tree : VariableTree} [Minijinja]

mutual

/-- **Rendering a checked statement is safe.** -/
theorem renderStmt_safe (htree : buildSchemaTree (extractOutputDependencies accesses) = .ok tree) : ∀ (stmt : Stmt) {scope : Scope} {env : Env}, EnvTyped tree scope env →
    StmtChecked accesses scope stmt → Safe (renderStmt env stmt) fun _ => True
  | .output nodes, _, _, henv, hchecked => renderOutput_safe htree henv nodes hchecked
  | .cond test body elifs els, _, _, henv, hchecked => by
    obtain ⟨htest, hbody, helifs, hels⟩ := hchecked
    apply (evalExpr_safe htree henv test htest).bind
    intro v _
    split
    · exact renderStmts_safe htree body henv hbody
    · exact renderElifs_safe htree elifs henv helifs (renderStmts_safe htree els henv hels)
  | .loop target iter body els test, scope, env, henv, hchecked => by
    cases target with
    | name name =>
      obtain ⟨hiter, ⟨root, rest, hshape, hkept⟩, htest, hbody, hels⟩ := hchecked
      rw [hshape] at htest hbody
      apply (loopItems_safe htree henv hiter hshape hkept htest).bind
      intro items hitems
      split
      · exact renderStmts_safe htree els henv hels
      · have hruns : ∀ frame, FrameTyped tree ⟨name, root, rest, true⟩ frame →
            Safe (renderStmts (env.push frame) body) fun _ => True :=
          fun frame hframe => renderStmts_safe htree body (henv.push hframe) hbody
        exact renderItems_safe hruns items 0 items.length .undefined (pathTyped_of_isAbsent rfl) hitems
    | _ => cases hchecked
  | .other _, _, _, _, hchecked => by cases hchecked

theorem renderStmts_safe (htree : buildSchemaTree (extractOutputDependencies accesses) = .ok tree) : ∀ (stmts : List Stmt) {scope : Scope} {env : Env}, EnvTyped tree scope env →
    StmtsChecked accesses scope stmts → Safe (renderStmts env stmts) fun _ => True
  | [], _, _, _, _ => safe_pure trivial
  | stmt :: stmts, _, _, henv, hchecked => by
    apply (renderStmt_safe htree stmt henv hchecked.1).bind
    intro _ _
    apply (renderStmts_safe htree stmts henv hchecked.2).bind
    intro _ _
    exact safe_pure trivial

theorem renderElifs_safe (htree : buildSchemaTree (extractOutputDependencies accesses) = .ok tree) : ∀ (elifs : List (Expr × List Stmt)) {scope : Scope} {env : Env} {els : Rendering String},
    EnvTyped tree scope env → ElifsChecked accesses scope elifs → (Safe els fun _ => True) →
      Safe (renderElifs env els elifs) fun _ => True
  | [], _, _, _, _, _, hels => hels
  | (test, body) :: elifs, _, _, _, henv, hchecked, hels => by
    obtain ⟨htest, hbody, helifs⟩ := hchecked
    apply (evalExpr_safe htree henv test htest).bind
    intro v _
    split
    · exact renderStmts_safe htree body henv hbody
    · exact renderElifs_safe htree elifs henv helifs hels

end

end Statements

/-! ## Type soundness -/

/-- The columns of the variables have values of types against which the variables are validated. -/
def Validated (tree : VariableTree) (columns : List (String × Value)) : Prop :=
  ∀ name node, tree.lookup name = some node → ∃ t v, validateJinjaVariable tree name t = .ok () ∧
    columns.lookup name = some v ∧ ValueOf t v

theorem Validated.envTyped {tree : VariableTree} {columns : List (String × Value)} (h : Validated tree columns) :
    EnvTyped tree [] ⟨[], columns⟩ := by
  refine ⟨.nil, fun name node hnode => ?_⟩
  have hlookup : tree.lookup name = some node := by
    change (tree.lookup name).bind some = some node at hnode
    simpa using hnode
  obtain ⟨t, v, hvalid, hcolumn, hvalue⟩ := h name node hlookup
  rw [validateJinjaVariable, hlookup] at hvalid
  show Typed node ((columns.lookup name).getD .undefined)
  rw [hcolumn]
  exact Or.inr ⟨_, t, hvalid, hvalue⟩

/-- **A checked template is rendered well-typed**, on all columns of validated types. -/
theorem render_wellTyped [Minijinja] (ast : Template) (tree : VariableTree) (columns : List (String × Value))
    (haccepted : fromJinjaTemplate ast = .ok tree) (hvalidated : Validated tree columns) (hchecked : Checked ast) :
    ∀ access ∈ (render ast columns).log, access.WellTyped := by
  obtain ⟨_, -, haccepted⟩ := Except.bind_eq_ok.mp haccepted
  obtain ⟨accesses, haccesses, htree⟩ := Except.bind_eq_ok.mp haccepted
  exact (renderStmts_safe htree ast hvalidated.envTyped (hchecked accesses haccesses)).1

/-- A rendering that shows nothing, for templates whose accesses alone matter. -/
@[reducible] def blankMinijinja : Minijinja := ⟨fun _ => "", fun _ _ => .undefined⟩

/-- `{% for item in items %}{{ item.name }}{% endfor %}`. -/
def itemNames : Template :=
  [.loop (.name "item") (.name "items") [.output [.getattr (.name "item") "name"]] [] none]

def itemNamesTree : VariableTree :=
  [("items", .node (some .array) [("*", .node (some .struct) [("name", .node none [])])])]

def penAndInk : List (String × Value) :=
  [("items", .list [.map [("name", .str "pen")], .map [("name", .str "ink")]])]

theorem itemNames_checked : Checked itemNames := by
  intro accesses haccesses
  cases haccesses
  have hprinted : ∀ path, path <+: ["items", "*", "name"] → Recorded
      [⟨⟨["items"], .iteration⟩, []⟩, ⟨⟨["items", "*", "name"], .output⟩, [⟨["items"], .iteration⟩]⟩] path :=
    fun path hprefix => Or.inl ⟨_, List.mem_cons_of_mem _ List.mem_cons_self, rfl, hprefix⟩
  refine ⟨⟨trivial, ⟨"items", [], rfl, Or.inl (hprinted _ ⟨["name"], rfl⟩)⟩, nofun, ⟨?_, trivial⟩, trivial⟩, trivial⟩
  intro node hnode
  rw [List.mem_singleton] at hnode
  subst hnode
  exact ⟨trivial, by decide, hprinted _ ⟨[], rfl⟩⟩

theorem itemNames_validated : Validated itemNamesTree penAndInk := by
  intro name node hnode
  have hname : name = "items" := by
    by_contra hne
    rw [itemNamesTree, lookup_cons_of_ne hne] at hnode
    cases hnode
  subst hname
  refine ⟨.arrayType (.structType [("name", .stringType)]), _, by rfl, rfl, .list ?_⟩
  have hpen : ∀ s, ValueOf (.structType [("name", .stringType)]) (.map [("name", .str s)]) := by
    intro s
    refine .map (fun name t hfield => ?_) fun name t hfield => ?_
    all_goals
      obtain ⟨rfl, rfl⟩ : name = "name" ∧ t = .stringType := by
        simp only [Dtypes.mapGet] at hfield
        split at hfield
        next hname =>
            cases hfield
            exact ⟨hname.symm, rfl⟩
        next => cases hfield
    · exact List.mem_cons_self
    · exact .str rfl s
  intro item hitem
  rcases List.mem_cons.mp hitem with rfl | hitem
  · exact hpen "pen"
  · rw [List.mem_singleton] at hitem
    subst hitem
    exact hpen "ink"

theorem itemNames_wellTyped :
    fromJinjaTemplate itemNames = .ok itemNamesTree ∧
      ∀ access ∈ (@render blankMinijinja itemNames penAndInk).log, access.WellTyped :=
  ⟨rfl, @render_wellTyped blankMinijinja itemNames itemNamesTree penAndInk rfl itemNames_validated itemNames_checked⟩

/-- `{% for x in xs %}A{% endfor %}{% if xs %}B{% endif %}`. -/
def loopThenTest : Template :=
  [.loop (.name "x") (.name "xs") [.output [.templateData "A"]] [] none,
    .cond (.name "xs") [.output [.templateData "B"]] [] []]

/-- **The test takes the loop's place** among the dependencies, and the loop runs over the characters of a text. -/
theorem loopThenTest_iterates_text : ¬ ∀ (ast : Template) (tree : VariableTree) (columns : List (String × Value)),
    fromJinjaTemplate ast = .ok tree → Validated tree columns →
      ∀ access ∈ (@render blankMinijinja ast columns).log, access.WellTyped := by
  intro h
  have hvalidated : Validated [("xs", .node none [])] [("xs", .str "ab")] := by
    intro name node hnode
    have hname : name = "xs" := by
      by_contra hne
      rw [lookup_cons_of_ne hne] at hnode
      cases hnode
    subst hname
    exact ⟨.stringType, _, by cases hnode; rfl, rfl, .str rfl "ab"⟩
  have haccess : Access.WellTyped (.iterate (.str "ab")) :=
    h loopThenTest _ [("xs", .str "ab")] rfl hvalidated _ (List.mem_append_left _ List.mem_cons_self)
  rcases haccess with habsent | ⟨items, hitems⟩
  · cases habsent
  · cases hitems

end Jinja

end Fenic
