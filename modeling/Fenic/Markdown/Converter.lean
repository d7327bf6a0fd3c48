

/-!
# `Markdown.Converter` — the conversion of a Markdown tree to a document

`Node` is the tree of the Markdown parser, with the node types that the converter looks at; all others are `unsupported`. A block and
an inline node of the document carry their `type` as the constructor.

The converter goes through the top-level blocks with a stack of open headings. A heading closes those that are not above it, a closed
heading becomes a child of the heading under it on the stack, and any other block is a child of the one on top. The stack has its top
first. Blocks in lists and blockquotes are converted without the stack.
-/

namespace Fenic

namespace Markdown

/-! ## The tree of the parser -/

inductive AlignKind where
  | left
  | right
  | center
  | none
  deriving DecidableEq

/-- `mdast::Node`. -/
inductive Node where
  | root (children : List Node)
  | heading (depth : Nat) (children : List Node)
  | paragraph (children : List Node)
  | list (ordered : Bool) (start : Option Nat) (spread : Bool) (children : List Node)
  | listItem (checked : Option Bool) (children : List Node)
  | blockquote (children : List Node)
  | code (lang info : Option String) (value : String)
  | thematicBreak
  | table (align : List AlignKind) (children : List Node)
  | tableRow (children : List Node)
  | tableCell (children : List Node)
  | html (value : String)
  | text (value : String)
  | strong (children : List Node)
  | emphasis (children : List Node)
  | inlineCode (value : String)
  | link (url : String) (title : Option String) (children : List Node)
  | image (url alt : String) (title : Option String)
  | delete (children : List Node)
  | lineBreak
  | unsupported (children : List Node)

/-! ## The document -/

inductive InlineNode where
  | text (text : String)
  | strong (content : List InlineNode)
  | emphasis (content : List InlineNode)
  | link (href : String) (title : Option String) (content : List InlineNode)
  | inlineCode (text : String)
  | image (src : String) (alt title : Option String)
  | strikethrough (content : List InlineNode)
  | htmlInline (text : String)
  | hardBreak

mutual

inductive BlockNode where
  | heading (level : Nat) (content : List InlineNode) (children : List BlockNode)
  | paragraph (content : List InlineNode)
  | list (ordered : Bool) (start : Option Nat) (tight : Bool) (items : List ListItem)
  | blockquote (children : List BlockNode)
  | codeBlock (info language : Option String) (text : String) (fenced : Bool) (fenceChar : Option String)
      (fenceLength : Option Nat)
  | table (alignments : List (Option String)) (header : List (List InlineNode)) (rows : List (List (List InlineNode)))
  | thematicBreak
  | htmlBlock (text : String)

inductive ListItem where
  | mk (checked : Option Bool) (children : List BlockNode)

end

/-- A heading that is still open, with the children it has so far. -/
structure Heading where
  level : Nat
  content : List InlineNode
  children : List BlockNode

def Heading.toBlock (heading : Heading) : BlockNode :=
  .heading heading.level heading.content heading.children

/-- A document without metadata, as all that are built. -/
structure Document where
  children : List BlockNode

inductive MarkdownToJsonError where
  | parseError (message : String)
  | structureError (message : String)
  deriving DecidableEq

/-! ## The conversion of a Markdown tree to a document -/

namespace MdAstConverter

/-! ## Inline content -/

mutual

/-- One child of `convert_inline_content`. -/
def convertInline : Node → Option InlineNode
  | .text value => some (.text value)
  | .strong children => some (.strong (convertInlineContent children))
  | .emphasis children => some (.emphasis (convertInlineContent children))
  | .inlineCode value => some (.inlineCode value)
  | .link url title children => some (.link url title (convertInlineContent children))
  | .image url alt title => some (.image url (some alt) title)
  | .delete children => some (.strikethrough (convertInlineContent children))
  | .html value => some (.htmlInline value)
  | .lineBreak => some .hardBreak
  | _ => none

def convertInlineContent : List Node → List InlineNode
  | [] => []
  | child :: children => (convertInline child).toList ++ convertInlineContent children

end

/-! ## Blocks -/

def convertParagraph (children : List Node) : BlockNode :=
  .paragraph (convertInlineContent children)

/-- A code block is taken to be fenced by three backticks. -/
def convertCodeBlock (lang info : Option String) (value : String) : BlockNode :=
  .codeBlock info lang value true (some (String.singleton (Char.ofNat 0x60))) (some 3)

mutual

/-- A block in a list item or a blockquote. -/
def convertContained : Node → Option BlockNode
  | .paragraph children => some (convertParagraph children)
  | .list ordered start spread children => some (.list ordered start (!spread) (convertItems children))
  | .code lang info value => some (convertCodeBlock lang info value)
  | .blockquote children => some (.blockquote (convertContents children))
  | _ => none

def convertContents : List Node → List BlockNode
  | [] => []
  | child :: children => (convertContained child).toList ++ convertContents children

/-- One child of `convert_list`. -/
def convertItem : Node → Option ListItem
  | .listItem checked children => some (.mk checked (convertContents children))
  | _ => none

def convertItems : List Node → List ListItem
  | [] => []
  | child :: children => (convertItem child).toList ++ convertItems children

end

def convertList (ordered : Bool) (start : Option Nat) (spread : Bool) (children : List Node) : BlockNode :=
  .list ordered start (!spread) (convertItems children)

def convertBlockquote (children : List Node) : BlockNode :=
  .blockquote (convertContents children)

def convertAlign : AlignKind → Option String
  | .left => some "left"
  | .center => some "center"
  | .right => some "right"
  | .none => none

/-- The cells of a row. -/
def convertRow : Node → Option (List (List InlineNode))
  | .tableRow cells => some (cells.filterMap fun
      | .tableCell children => some (convertInlineContent children)
      | _ => none)
  | _ => none

/-- The first child is the header, if it is a row. -/
def convertTable (align : List AlignKind) (children : List Node) : BlockNode :=
  .table (align.map convertAlign) ((children.head?.bind convertRow).getD []) (children.tail.filterMap convertRow)

/-! ## The stack of headings -/

/-- The open headings, and the blocks at the top level. -/
structure State where
  headingStack : List Heading
  output : List BlockNode

def addToCurrentHeadingOrOutput (block : BlockNode) (state : State) : State :=
  match state.headingStack with
  | currentHeading :: rest =>
    { state with headingStack := { currentHeading with children := currentHeading.children ++ [block] } :: rest }
  | [] => { state with output := state.output ++ [block] }

def addCompletedHeading (heading : Heading) (state : State) : State :=
  match state.headingStack with
  | parentHeading :: rest =>
    { state with headingStack := { parentHeading with children := parentHeading.children ++ [heading.toBlock] } :: rest }
  | [] => { state with output := state.output ++ [heading.toBlock] }

theorem length_addCompletedHeading (heading : Heading) (state : State) :
    (addCompletedHeading heading state).headingStack.length = state.headingStack.length := by
  unfold addCompletedHeading
  split
  next hstack => rw [hstack, List.length_cons, List.length_cons]
  next hstack => rfl

/-- The loop of `handle_heading` that pops the headings that are not above the level. -/
def popHeadings (level : Nat) (state : State) : State :=
  match hstack : state.headingStack with
  | [] => state
  | topHeading :: rest =>
    if level ≤ topHeading.level then popHeadings level (addCompletedHeading topHeading { state with headingStack := rest })
    else state
termination_by state.headingStack.length
decreasing_by
  rw [length_addCompletedHeading, hstack]
  exact Nat.lt_succ_self _

def handleHeading (depth : Nat) (children : List Node) (state : State) : State :=
  let popped := popHeadings depth state
  { popped with headingStack := ⟨depth, convertInlineContent children, []⟩ :: popped.headingStack }

def flushHeadings (state : State) : State :=
  match hstack : state.headingStack with
  | [] => state
  | heading :: rest => flushHeadings (addCompletedHeading heading { state with headingStack := rest })
termination_by state.headingStack.length
decreasing_by
  rw [length_addCompletedHeading, hstack]
  exact Nat.lt_succ_self _

def processBlockNode (node : Node) (state : State) : State :=
  match node with
  | .heading depth children => handleHeading depth children state
  | .paragraph children => addToCurrentHeadingOrOutput (convertParagraph children) state
  | .list ordered start spread children => addToCurrentHeadingOrOutput (convertList ordered start spread children) state
  | .blockquote children => addToCurrentHeadingOrOutput (convertBlockquote children) state
  | .code lang info value => addToCurrentHeadingOrOutput (convertCodeBlock lang info value) state
  | .thematicBreak => addToCurrentHeadingOrOutput .thematicBreak state
  | .table align children => addToCurrentHeadingOrOutput (convertTable align children) state
  | .html value => addToCurrentHeadingOrOutput (.htmlBlock value) state
  | _ => state

/-- `convert_root`, from an empty stack. -/
def convertRoot (root : Node) : Except MarkdownToJsonError Document :=
  match root with
  | .root children =>
    let processed := children.foldl (fun state child => processBlockNode child state) ⟨[], []⟩
    .ok ⟨(flushHeadings processed).output⟩
  | _ => .error (.structureError "Expected root node")

/-- `convert_markdown` up to the serialisation, with the parser of Markdown as a parameter. The stack is cleared first. -/
def convertMarkdown (toMdast : String → Except String Node) (markdown : String) : Except MarkdownToJsonError Document := do
  let ast ← (toMdast markdown).mapError .parseError
  convertRoot ast

end MdAstConverter

end Markdown

end Fenic
