import Fenic.Lib.Except

/-!
# `Jinja.Render` — rendering a template

The syntax trees that the template parser returns, as far as `VariableTree` tells their nodes apart. A node of any other
class is an `other`. Line numbers, which only error messages show, are left out.

What minijinja does with a template of the allowed nodes. Besides its text, or the error with which it ends, a rendering
has a log of the accesses it made to values: fields, indices and loops. How a value is printed, and what an index into
anything but an array, a struct or a loop object gives, is left open.

A `loop` object stands for the loop it was made by. The loop variable is looked up before it, and both before those of
the loops around; the filter of a loop sees the loop variable alone.
-/

namespace Fenic

namespace Jinja

/-- The value of a `Const` node. The lexer has no negative numbers. -/
inductive Const where
  | none
  | bool (b : Bool)
  | int (n : Nat)
  | float (x : Float)
  | str (s : String)

/-- Expression nodes. -/
inductive Expr where
  | name (name : String)
  | getattr (node : Expr) (attr : String)
  | getitem (node : Expr) (arg : Expr)
  | const (value : Const)
  | not (node : Expr)
  | templateData (data : String)
  | other (typeName : String)

/-- Statement nodes. -/
inductive Stmt where
  | output (nodes : List Expr)
  /-- Every `elif` has a test and a body. -/
  | cond (test : Expr) (body : List Stmt) (elifs : List (Expr × List Stmt)) (els : List Stmt)
  /-- The test is the filter of the loop. -/
  | loop (target iter : Expr) (body els : List Stmt) (test : Option Expr)
  | other (typeName : String)

abbrev Template := List Stmt

/-- `VALID_LOOP_ATTRIBUTES`. -/
def validLoopAttributes : List String :=
  ["index", "index0", "revindex", "revindex0", "first", "last", "length", "depth", "depth0", "previtem", "nextitem"]

/-! ## Rendering a template -/

/-! ## Values -/

inductive Value where
  | undefined
  | none
  | bool (b : Bool)
  | int (n : Int)
  | float (x : Float)
  | str (s : String)
  | list (items : List Value)
  | map (entries : List (String × Value))
  | loop (index0 length : Nat) (previtem nextitem : Value)

namespace Value

def ofConst : Const → Value
  | .none => .none
  | .bool b => .bool b
  | .int n => .int n
  | .float x => .float x
  | .str s => .str s

/-- `is_true`. -/
def truthy : Value → Bool
  | .undefined => false
  | .none => false
  | .bool b => b
  | .int n => n != 0
  | .float x => x != 0
  | .str s => s != ""
  | .list items => !items.isEmpty
  | .map entries => !entries.isEmpty
  | .loop .. => true

/-- Neither a value nor a part of one: a null, or what is not there. -/
def isAbsent : Value → Bool
  | .undefined => true
  | .none => true
  | _ => false

/-- The field of a struct. -/
def field (name : String) : Value → Value
  | .map entries => (entries.lookup name).getD .undefined
  | _ => .undefined

end Value

/-- An attribute of a loop object. -/
def loopAttribute (index0 length : Nat) (previtem nextitem : Value) (attr : String) : Value :=
  match attr with
  | "index" => .int (index0 + 1)
  | "index0" => .int index0
  | "revindex" => .int (length - index0)
  | "revindex0" => .int (length - index0 - 1)
  | "first" => .bool (index0 == 0)
  | "last" => .bool (index0 + 1 == length)
  | "length" => .int length
  | "depth" => .int 1
  | "depth0" => .int 0
  | "previtem" => previtem
  | "nextitem" => nextitem
  | _ => .undefined

/-- What stays open about minijinja. -/
class Minijinja where
  display : Value → String
  itemOf : Value → Value → Value

/-! ## Renderings -/

inductive Access where
  | field (value : Value) (name : String)
  | index (value : Value)
  | iterate (value : Value)

inductive RenderError where
  /-- A part of a value that is not there. -/
  | undefinedError
  | notIterable
  | unsupported (typeName : String)
  deriving DecidableEq

/-- A computation with the accesses it made. -/
structure Rendering (α : Type) where
  log : List Access
  result : Except RenderError α

namespace Rendering

variable {α β : Type}

def pure (a : α) : Rendering α := ⟨[], .ok a⟩

def fail (error : RenderError) : Rendering α := ⟨[], .error error⟩

def bind (x : Rendering α) (f : α → Rendering β) : Rendering β :=
  match x.result with
  | .ok a => ⟨x.log ++ (f a).log, (f a).result⟩
  | .error e => ⟨x.log, .error e⟩

instance : Monad Rendering where
  pure := pure
  bind := bind

/-- Records an access. -/
def record (access : Access) (x : Rendering α) : Rendering α := ⟨access :: x.log, x.result⟩

@[simp] theorem bind_result (x : Rendering α) (f : α → Rendering β) :
    (x >>= f).result = x.result >>= fun a => (f a).result := by
  show (bind x f).result = _
  unfold bind
  cases x.result <;> rfl

/-- The accesses of a sequence are those of its parts. -/
theorem mem_bind_log {x : Rendering α} {f : α → Rendering β} {access : Access} (h : access ∈ (x >>= f).log) :
    access ∈ x.log ∨ ∃ a, x.result = .ok a ∧ access ∈ (f a).log := by
  change access ∈ (bind x f).log at h
  unfold bind at h
  cases hx : x.result with
  | error e =>
    rw [hx] at h
    exact Or.inl h
  | ok a =>
    rw [hx] at h
    rcases List.mem_append.mp h with h | h
    · exact Or.inl h
    · exact Or.inr ⟨a, rfl, h⟩

end Rendering

/-! ## Expressions -/

/-- The variables of one loop; the filter of a loop has no loop object. -/
structure Frame where
  target : String
  item : Value
  loopObject : Option Value

/-- The frames of the loops, innermost first, and the columns. -/
structure Env where
  frames : List Frame
  columns : List (String × Value)

def Env.push (frame : Frame) (env : Env) : Env := { env with frames := frame :: env.frames }

/-- The variable of a name in the frames. -/
def lookupFrames (name : String) : List Frame → Option Value
  | [] => none
  | frame :: frames =>
    if frame.target = name then some frame.item
    else
      match frame.loopObject with
      | some loopObject => if name = "loop" then some loopObject else lookupFrames name frames
      | none => lookupFrames name frames

def Env.lookup (env : Env) (name : String) : Value :=
  match lookupFrames name env.frames with
  | some v => v
  | none => (env.columns.lookup name).getD .undefined

/-- A field of a value. -/
def getAttr (v : Value) (attr : String) : Rendering Value :=
  .record (.field v attr) (match v with
    | .undefined => .fail .undefinedError
    | .loop index0 length previtem nextitem => pure (loopAttribute index0 length previtem nextitem attr)
    | v => pure (v.field attr))

variable [Minijinja]

/-- An item of a value. A text is the name of a field. -/
def getItem (v key : Value) : Rendering Value :=
  match key with
  | .str name => getAttr v name
  | .int i =>
    .record (.index v) (match v with
      | .undefined => .fail .undefinedError
      | .none => pure .undefined
      | .list items => pure (items.getD i.toNat .undefined)
      | v => pure (Minijinja.itemOf v key))
  | _ => pure (Minijinja.itemOf v key)

def evalExpr (env : Env) : Expr → Rendering Value
  | .name name => pure (env.lookup name)
  | .getattr node attr => do
    let v ← evalExpr env node
    getAttr v attr
  | .getitem node arg => do
    let v ← evalExpr env node
    let key ← evalExpr env arg
    getItem v key
  | .const c => pure (.ofConst c)
  | .not node => do
    let v ← evalExpr env node
    pure (.bool (!v.truthy))
  | .templateData data => pure (.str data)
  | .other typeName => .fail (.unsupported typeName)

/-- The items that a loop runs over: nothing for a null, the characters of a text, the names of a struct. -/
def iterate (v : Value) : Rendering (List Value) :=
  .record (.iterate v) (match v with
    | .undefined => pure []
    | .none => pure []
    | .list items => pure items
    | .str s => pure (s.toList.map fun c => .str (String.singleton c))
    | .map entries => pure (entries.map fun entry => .str entry.1)
    | _ => .fail .notIterable)

/-! ## Statements -/

def renderNode (env : Env) (node : Expr) : Rendering String :=
  match node with
  | .templateData data => pure data
  | node => do
    let v ← evalExpr env node
    pure (Minijinja.display v)

def renderOutput (env : Env) : List Expr → Rendering String
  | [] => pure ""
  | node :: nodes => do
    let text ← renderNode env node
    let rest ← renderOutput env nodes
    pure (text ++ rest)

/-- The items that the filter of a loop keeps. -/
def filterItems (env : Env) (target : String) (test : Expr) : List Value → Rendering (List Value)
  | [] => pure []
  | item :: items => do
    let keep ← evalExpr (env.push ⟨target, item, none⟩) test
    let rest ← filterItems env target test items
    pure (if keep.truthy then item :: rest else rest)

/-- The body for each item, of which there are `length`; the items before `index0` are done. -/
def renderItems (target : String) (body : Frame → Rendering String) (index0 length : Nat) (previtem : Value) :
    List Value → Rendering String
  | [] => pure ""
  | item :: items => do
    let text ← body ⟨target, item, some (.loop index0 length previtem (items.headD .undefined))⟩
    let rest ← renderItems target body (index0 + 1) length item items
    pure (text ++ rest)

/-- The items of a loop. -/
def loopItems (env : Env) (target : String) (iter : Expr) (test : Option Expr) : Rendering (List Value) := do
  let v ← evalExpr env iter
  let items ← iterate v
  match test with
  | none => pure items
  | some test => filterItems env target test items

mutual

def renderStmt (env : Env) : Stmt → Rendering String
  | .output nodes => renderOutput env nodes
  | .cond test body elifs els => do
    let v ← evalExpr env test
    if v.truthy then renderStmts env body else renderElifs env (renderStmts env els) elifs
  | .loop target iter body els test =>
    match target with
    | .name name => do
      let items ← loopItems env name iter test
      if items.isEmpty then renderStmts env els
      else renderItems name (fun frame => renderStmts (env.push frame) body) 0 items.length .undefined items
    | _ => .fail (.unsupported "target")
  | .other typeName => .fail (.unsupported typeName)

def renderStmts (env : Env) : List Stmt → Rendering String
  | [] => pure ""
  | stmt :: stmts => do
    let text ← renderStmt env stmt
    let rest ← renderStmts env stmts
    pure (text ++ rest)

/-- The first `elif` whose test holds, or what follows them. -/
def renderElifs (env : Env) (els : Rendering String) : List (Expr × List Stmt) → Rendering String
  | [] => els
  | (test, body) :: elifs => do
    let v ← evalExpr env test
    if v.truthy then renderStmts env body else renderElifs env els elifs

end

/-- `template.render(ctx)`. -/
def render (ast : Template) (columns : List (String × Value)) : Rendering String :=
  renderStmts ⟨[], columns⟩ ast

end Jinja

end Fenic
