import Fenic.Lib.Nesting
import Fenic.Markdown.Converter

/-!
# `Markdown.HeadingTree` — the tree of headings

The document has the supported blocks of the tree in their order, and each is a child of the nearest heading before it that is still
open (`convertRoot_tree`). What the blocks so far are, and which block is whose child, is read off the state as if the stack were
flushed (`State.blocks`, `State.parents`): closing a heading changes neither.
-/

namespace Fenic

namespace Markdown

/-! ## The document as a list of blocks -/

/-- The level of a heading. -/
def BlockNode.level : BlockNode → Option Nat
  | .heading level _ _ => some level
  | _ => none

mutual

/-- A block and the blocks in its section, in their order; a heading is listed without its children. -/
def BlockNode.preorder : BlockNode → List BlockNode
  | .heading level content children => .heading level content [] :: preorderAll children
  | .paragraph content => [.paragraph content]
  | .list ordered start tight items => [.list ordered start tight items]
  | .blockquote children => [.blockquote children]
  | .codeBlock info language text fenced fenceChar fenceLength => [.codeBlock info language text fenced fenceChar fenceLength]
  | .table alignments header rows => [.table alignments header rows]
  | .thematicBreak => [.thematicBreak]
  | .htmlBlock text => [.htmlBlock text]

def preorderAll : List BlockNode → List BlockNode
  | [] => []
  | block :: blocks => block.preorder ++ preorderAll blocks

end

mutual

/-- For each of these blocks the position of the heading whose child it is, given that of the block. -/
def BlockNode.parents (parent : Option Nat) (position : Nat) : BlockNode → List (Option Nat)
  | .heading _ _ children => parent :: parentsAll (some position) (position + 1) children
  | .paragraph _ => [parent]
  | .list _ _ _ _ => [parent]
  | .blockquote _ => [parent]
  | .codeBlock _ _ _ _ _ _ => [parent]
  | .table _ _ _ => [parent]
  | .thematicBreak => [parent]
  | .htmlBlock _ => [parent]

def parentsAll (parent : Option Nat) (position : Nat) : List BlockNode → List (Option Nat)
  | [] => []
  | block :: blocks => block.parents parent position ++ parentsAll parent (position + block.preorder.length) blocks

end

theorem preorderAll_append (blocks blocks' : List BlockNode) :
    preorderAll (blocks ++ blocks') = preorderAll blocks ++ preorderAll blocks' := by
  induction blocks with
  | nil => rfl
  | cons block blocks ih => rw [List.cons_append, preorderAll, preorderAll, ih, List.append_assoc]

theorem preorderAll_singleton (block : BlockNode) : preorderAll [block] = block.preorder := by
  rw [preorderAll, preorderAll, List.append_nil]

theorem parentsAll_append (parent : Option Nat) (position : Nat) (blocks blocks' : List BlockNode) :
    parentsAll parent position (blocks ++ blocks') =
      parentsAll parent position blocks ++ parentsAll parent (position + (preorderAll blocks).length) blocks' := by
  induction blocks generalizing position with
  | nil => rfl
  | cons block blocks ih =>
    rw [List.cons_append, parentsAll, parentsAll, ih, preorderAll, List.length_append, List.append_assoc, Nat.add_assoc]

theorem parentsAll_singleton (parent : Option Nat) (position : Nat) (block : BlockNode) :
    parentsAll parent position [block] = block.parents parent position := by
  rw [parentsAll, parentsAll, List.append_nil]

/-- A block that is no heading is alone. -/
theorem preorder_of_not_heading {block : BlockNode} (h : block.level = none) : block.preorder = [block] := by
  cases block with
  | heading level content children => cases h
  | _ => rfl

theorem parents_of_not_heading {block : BlockNode} (h : block.level = none) (parent : Option Nat) (position : Nat) :
    block.parents parent position = [parent] := by
  cases block with
  | heading level content children => cases h
  | _ => rfl

/-! ## The open headings -/

/-- The blocks of the open headings, the outermost first. -/
def stackPreorder : List Heading → List BlockNode
  | [] => []
  | heading :: stack => stackPreorder stack ++ heading.toBlock.preorder

/-- The positions of the open headings, if the first of them is at this one. -/
def positions (base : Nat) : List Heading → List Nat
  | [] => []
  | _ :: stack => (base + (stackPreorder stack).length) :: positions base stack

def stackParents (base : Nat) : List Heading → List (Option Nat)
  | [] => []
  | heading :: stack =>
    stackParents base stack ++
      heading.toBlock.parents (positions base stack).head? (base + (stackPreorder stack).length)

namespace MdAstConverter

namespace State

/-- The blocks so far. -/
def blocks (state : State) : List BlockNode :=
  preorderAll state.output ++ stackPreorder state.headingStack

/-- The parents of the blocks so far. -/
def parents (state : State) : List (Option Nat) :=
  parentsAll none 0 state.output ++ stackParents (preorderAll state.output).length state.headingStack

/-- The positions of the open headings, the innermost first. -/
def openHeadings (state : State) : List Nat :=
  positions (preorderAll state.output).length state.headingStack

end State

/-! ## The operations on the stack -/

/-- A heading with a child more. -/
def addChild (heading : Heading) (block : BlockNode) : Heading :=
  { heading with children := heading.children ++ [block] }

theorem addChild_preorder (heading : Heading) (block : BlockNode) :
    (addChild heading block).toBlock.preorder = heading.toBlock.preorder ++ block.preorder := by
  unfold addChild Heading.toBlock
  rw [BlockNode.preorder, BlockNode.preorder, preorderAll_append, preorderAll_singleton, List.cons_append]

theorem addChild_parents (heading : Heading) (block : BlockNode) (parent : Option Nat) (position : Nat) :
    (addChild heading block).toBlock.parents parent position =
      heading.toBlock.parents parent position ++ block.parents (some position) (position + heading.toBlock.preorder.length) := by
  unfold addChild Heading.toBlock
  rw [BlockNode.parents, BlockNode.parents, parentsAll_append, parentsAll_singleton, List.cons_append, BlockNode.preorder,
    List.length_cons, Nat.add_assoc, Nat.add_comm 1]

/-- A block that is added is the last one, and a child of the innermost open heading. -/
theorem add_spec (block : BlockNode) (state : State) :
    (addToCurrentHeadingOrOutput block state).blocks = state.blocks ++ block.preorder ∧
      (addToCurrentHeadingOrOutput block state).parents =
        state.parents ++ block.parents state.openHeadings.head? state.blocks.length ∧
      (addToCurrentHeadingOrOutput block state).openHeadings = state.openHeadings := by
  obtain ⟨stack, output⟩ := state
  cases stack with
  | nil =>
    refine ⟨?_, ?_, rfl⟩
    · show preorderAll (output ++ [block]) ++ [] = preorderAll output ++ [] ++ block.preorder
      rw [preorderAll_append, preorderAll_singleton, List.append_nil, List.append_nil]
    · show parentsAll none 0 (output ++ [block]) ++ [] =
        parentsAll none 0 output ++ [] ++ block.parents none (preorderAll output ++ []).length
      rw [parentsAll_append, parentsAll_singleton, List.append_nil, List.append_nil, List.append_nil, Nat.zero_add]
  | cons heading stack =>
    refine ⟨?_, ?_, rfl⟩
    · show preorderAll output ++ (stackPreorder stack ++ (addChild heading block).toBlock.preorder) =
        preorderAll output ++ (stackPreorder stack ++ heading.toBlock.preorder) ++ block.preorder
      rw [addChild_preorder, List.append_assoc, List.append_assoc]
    · show parentsAll none 0 output ++ (stackParents _ stack ++ (addChild heading block).toBlock.parents _ _) =
        parentsAll none 0 output ++ (stackParents _ stack ++ heading.toBlock.parents _ _) ++
          block.parents (some _) (preorderAll output ++ (stackPreorder stack ++ heading.toBlock.preorder)).length
      simp only [addChild_parents, List.append_assoc, List.length_append, Nat.add_assoc]
      rfl

theorem addCompletedHeading_eq (heading : Heading) (state : State) :
    addCompletedHeading heading state = addToCurrentHeadingOrOutput heading.toBlock state := rfl

/-- A heading that is closed stays where it was. -/
theorem addCompletedHeading_spec (heading : Heading) (stack : List Heading) (output : List BlockNode) :
    (addCompletedHeading heading ⟨stack, output⟩).blocks = State.blocks ⟨heading :: stack, output⟩ ∧
      (addCompletedHeading heading ⟨stack, output⟩).parents = State.parents ⟨heading :: stack, output⟩ ∧
      (addCompletedHeading heading ⟨stack, output⟩).openHeadings = State.openHeadings ⟨stack, output⟩ := by
  rw [addCompletedHeading_eq]
  obtain ⟨hblocks, hparents, hopen⟩ := add_spec heading.toBlock ⟨stack, output⟩
  refine ⟨?_, ?_, hopen⟩
  · rw [hblocks]
    exact List.append_assoc _ _ _
  · rw [hparents]
    show (parentsAll none 0 output ++ stackParents _ stack) ++ _ = parentsAll none 0 output ++ (stackParents _ stack ++ _)
    rw [List.append_assoc, State.blocks, List.length_append]
    rfl

theorem popHeadings_cons (level : Nat) (heading : Heading) (stack : List Heading) (output : List BlockNode) :
    popHeadings level ⟨heading :: stack, output⟩ =
      if level ≤ heading.level then popHeadings level (addCompletedHeading heading ⟨stack, output⟩)
      else ⟨heading :: stack, output⟩ := by
  rw [popHeadings.eq_def]

theorem popHeadings_nil (level : Nat) (output : List BlockNode) : popHeadings level ⟨[], output⟩ = ⟨[], output⟩ := by
  rw [popHeadings.eq_def]

theorem flushHeadings_cons (heading : Heading) (stack : List Heading) (output : List BlockNode) :
    flushHeadings ⟨heading :: stack, output⟩ = flushHeadings (addCompletedHeading heading ⟨stack, output⟩) := by
  rw [flushHeadings.eq_def]

theorem flushHeadings_nil (output : List BlockNode) : flushHeadings ⟨[], output⟩ = ⟨[], output⟩ := by
  rw [flushHeadings.eq_def]

/-- Flushing changes neither the blocks nor their parents, and leaves no heading open. -/
theorem flushHeadings_spec (state : State) :
    (flushHeadings state).headingStack = [] ∧ (flushHeadings state).blocks = state.blocks ∧
      (flushHeadings state).parents = state.parents := by
  induction hn : state.headingStack.length generalizing state with
  | zero =>
    obtain ⟨stack, output⟩ := state
    obtain rfl : stack = [] := List.length_eq_zero_iff.mp hn
    rw [flushHeadings_nil]
    exact ⟨rfl, rfl, rfl⟩
  | succ n ih =>
    obtain ⟨stack, output⟩ := state
    obtain ⟨heading, stack, rfl⟩ := List.exists_cons_of_length_eq_add_one hn
    obtain ⟨hblocks, hparents, -⟩ := addCompletedHeading_spec heading stack output
    have hlength : (addCompletedHeading heading ⟨stack, output⟩).headingStack.length = n := by
      rw [length_addCompletedHeading]
      exact Nat.succ.inj hn
    obtain ⟨hstack, hblocks', hparents'⟩ := ih _ hlength
    rw [flushHeadings_cons]
    exact ⟨hstack, hblocks'.trans hblocks, hparents'.trans hparents⟩

/-- The heading on top is at the position of its own. -/
theorem levelAt_top (heading : Heading) (stack : List Heading) (output : List BlockNode) :
    Nesting.levelAt BlockNode.level (State.blocks ⟨heading :: stack, output⟩)
      ((preorderAll output).length + (stackPreorder stack).length) = some heading.level := by
  have hblocks : State.blocks ⟨heading :: stack, output⟩ = (preorderAll output ++ stackPreorder stack) ++
      BlockNode.heading heading.level heading.content [] :: preorderAll heading.children := by
    rw [List.append_assoc]
    rfl
  rw [hblocks, ← List.length_append, Nesting.levelAt_length]
  rfl

/-- Popping changes neither the blocks nor their parents, and closes the headings that the level closes. -/
theorem popHeadings_spec (level : Nat) (state : State) :
    (popHeadings level state).blocks = state.blocks ∧ (popHeadings level state).parents = state.parents ∧
      (popHeadings level state).openHeadings =
        state.openHeadings.dropWhile (Nesting.closes BlockNode.level state.blocks level) := by
  induction hn : state.headingStack.length generalizing state with
  | zero =>
    obtain ⟨stack, output⟩ := state
    obtain rfl : stack = [] := List.length_eq_zero_iff.mp hn
    rw [popHeadings_nil]
    exact ⟨rfl, rfl, rfl⟩
  | succ n ih =>
    obtain ⟨stack, output⟩ := state
    obtain ⟨heading, stack, rfl⟩ := List.exists_cons_of_length_eq_add_one hn
    have hopen : State.openHeadings ⟨heading :: stack, output⟩ =
        ((preorderAll output).length + (stackPreorder stack).length) :: State.openHeadings ⟨stack, output⟩ := rfl
    have hcloses : Nesting.closes BlockNode.level (State.blocks ⟨heading :: stack, output⟩) level
        ((preorderAll output).length + (stackPreorder stack).length) = decide (level ≤ heading.level) := by
      unfold Nesting.closes
      rw [levelAt_top]
    rw [popHeadings_cons, hopen]
    by_cases hle : level ≤ heading.level
    · obtain ⟨hblocks, hparents, hopen'⟩ := addCompletedHeading_spec heading stack output
      have hlength : (addCompletedHeading heading ⟨stack, output⟩).headingStack.length = n := by
        rw [length_addCompletedHeading]
        exact Nat.succ.inj hn
      obtain ⟨hblocks', hparents', hkept⟩ := ih _ hlength
      rw [if_pos hle, List.dropWhile_cons_of_pos (by rw [hcloses]; exact decide_eq_true hle)]
      refine ⟨hblocks'.trans hblocks, hparents'.trans hparents, ?_⟩
      rw [hkept, hblocks, hopen']
    · rw [if_neg hle, List.dropWhile_cons_of_neg (by rw [hcloses]; exact fun h => hle (of_decide_eq_true h))]
      exact ⟨rfl, rfl, rfl⟩

/-! ## A run -/

/-- The block of a supported node; a heading has no children yet. -/
def blockOf : Node → Option BlockNode
  | .heading depth children => some (.heading depth (convertInlineContent children) [])
  | .paragraph children => some (convertParagraph children)
  | .list ordered start spread children => some (convertList ordered start spread children)
  | .blockquote children => some (convertBlockquote children)
  | .code lang info value => some (convertCodeBlock lang info value)
  | .thematicBreak => some .thematicBreak
  | .table align children => some (convertTable align children)
  | .html value => some (.htmlBlock value)
  | _ => none

/-- The state has these blocks, each is a child of the nearest heading that is open at it, and the stack has the open headings. -/
structure Holds (state : State) (blocks : List BlockNode) : Prop where
  blocks_eq : state.blocks = blocks
  length_parents : state.parents.length = blocks.length
  parents : ∀ i parent, state.parents[i]? = some parent → Nesting.IsParent BlockNode.level blocks i parent
  tracks : Nesting.Tracks BlockNode.level blocks state.openHeadings

theorem holds_nil : Holds ⟨[], []⟩ [] where
  blocks_eq := rfl
  length_parents := rfl
  parents i parent h := by cases h
  tracks := Nesting.tracks_nil

variable {state : State} {blocks : List BlockNode}

/-- The parents of the blocks stay when a block is put behind them. -/
theorem Holds.parents_concat (h : Holds state blocks) (block : BlockNode)
    {i : Nat} {parent : Option Nat}
    (hparent : (state.parents ++ [(Nesting.kept BlockNode.level blocks block state.openHeadings).head?])[i]? = some parent) :
    Nesting.IsParent BlockNode.level (blocks ++ [block]) i parent := by
  have hlength := h.length_parents
  by_cases hi : i < blocks.length
  · rw [List.getElem?_append_left (by omega)] at hparent
    exact (Nesting.isParent_append hi [block]).mpr (h.parents i parent hparent)
  · rw [List.getElem?_append_right (by omega)] at hparent
    have hlast : i = blocks.length := by
      have hbound := (List.getElem?_eq_some_iff.mp hparent).1
      rw [List.length_singleton] at hbound
      omega
    subst hlast
    rw [hlength, Nat.sub_self] at hparent
    obtain rfl := Option.some.inj hparent
    exact h.tracks.isParent block

theorem Holds.add (h : Holds state blocks) {block : BlockNode}
    (hblock : block.level = none) : Holds (addToCurrentHeadingOrOutput block state) (blocks ++ [block]) := by
  obtain ⟨hblocks, hparents, hopen⟩ := add_spec block state
  rw [preorder_of_not_heading hblock, h.blocks_eq] at hblocks
  rw [parents_of_not_heading hblock] at hparents
  have hkept : Nesting.kept BlockNode.level blocks block state.openHeadings = state.openHeadings := by
    unfold Nesting.kept
    rw [hblock]
  exact
    { blocks_eq := hblocks
      length_parents := by rw [hparents, List.length_append, List.length_append, h.length_parents]; rfl
      parents := fun i parent hparent => by
        rw [hparents, ← hkept] at hparent
        exact h.parents_concat block hparent
      tracks := by
        rw [hopen]
        exact h.tracks.plain hblock }

theorem Holds.handleHeading (h : Holds state blocks) (depth : Nat)
    (children : List Node) {block : BlockNode} (hblock : block = .heading depth (convertInlineContent children) []) :
    Holds (handleHeading depth children state) (blocks ++ [block]) := by
  obtain ⟨hblocks, hparents, hopen⟩ := popHeadings_spec depth state
  rw [h.blocks_eq] at hblocks hopen
  have hkept : (popHeadings depth state).openHeadings = Nesting.kept BlockNode.level blocks block state.openHeadings := by
    rw [hblock]
    exact hopen
  have hnew : (MdAstConverter.handleHeading depth children state).blocks = (popHeadings depth state).blocks ++ [block] := by
    rw [hblock]
    show preorderAll _ ++ (stackPreorder _ ++ [_]) = preorderAll _ ++ stackPreorder _ ++ [_]
    rw [List.append_assoc]
    rfl
  have hlength : (preorderAll (popHeadings depth state).output).length + (stackPreorder (popHeadings depth state).headingStack).length =
      blocks.length := by
    rw [← List.length_append, ← hblocks]
    rfl
  have hnewParents : (MdAstConverter.handleHeading depth children state).parents =
      (popHeadings depth state).parents ++ [(popHeadings depth state).openHeadings.head?] := by
    show parentsAll none 0 _ ++ (stackParents _ _ ++ [_]) = parentsAll none 0 _ ++ stackParents _ _ ++ [_]
    rw [List.append_assoc]
    rfl
  have hnewOpen : (MdAstConverter.handleHeading depth children state).openHeadings =
      blocks.length :: (popHeadings depth state).openHeadings := by
    rw [← hlength]
    rfl
  rw [hparents, hkept] at hnewParents
  exact
    { blocks_eq := by rw [hnew, hblocks]
      length_parents := by rw [hnewParents, List.length_append, List.length_append, h.length_parents]; rfl
      parents := fun i parent hparent => by
        rw [hnewParents] at hparent
        exact h.parents_concat block hparent
      tracks := by
        rw [hnewOpen, hkept]
        exact h.tracks.push (by rw [hblock]; rfl) }

/-- One node. -/
theorem Holds.processBlockNode (h : Holds state blocks) (node : Node) :
    Holds (processBlockNode node state) (blocks ++ (blockOf node).toList) := by
  cases node with
  | heading depth children => exact h.handleHeading depth children rfl
  | paragraph _ | list _ _ _ _ | blockquote _ | code _ _ _ | thematicBreak | table _ _ | html _ =>
    exact h.add rfl
  | _ =>
    -- the node is ignored
    show Holds state (blocks ++ [])
    rw [List.append_nil]
    exact h

/-- All nodes, by induction on their list. -/
theorem Holds.foldl (h : Holds state blocks) (nodes : List Node) :
    Holds (nodes.foldl (fun state node => MdAstConverter.processBlockNode node state) state)
      (blocks ++ nodes.filterMap blockOf) := by
  induction nodes generalizing state blocks with
  | nil => simpa using h
  | cons node nodes ih =>
    have hrest := ih (h.processBlockNode node)
    cases hblock : blockOf node with
    | none => simpa [hblock] using hrest
    | some block => simpa [hblock] using hrest

/-- **The document has the supported blocks in their order, each is a child of the nearest heading before it that is still open, or at
the top level if there is none, and a heading under a heading has the greater level.** -/
theorem convertRoot_tree (nodes : List Node) :
    ∃ document, convertRoot (.root nodes) = .ok document ∧
      preorderAll document.children = nodes.filterMap blockOf ∧
      (parentsAll none 0 document.children).length = (nodes.filterMap blockOf).length ∧
      (∀ i parent, (parentsAll none 0 document.children)[i]? = some parent →
        Nesting.IsParent BlockNode.level (nodes.filterMap blockOf) i parent) ∧
      ∀ i j l, (parentsAll none 0 document.children)[i]? = some (some j) →
        Nesting.levelAt BlockNode.level (nodes.filterMap blockOf) i = some l →
        ∃ l', Nesting.levelAt BlockNode.level (nodes.filterMap blockOf) j = some l' ∧ l' < l := by
  have hholds := holds_nil.foldl nodes
  rw [List.nil_append] at hholds
  have hdocument : convertRoot (.root nodes) =
      .ok ⟨(flushHeadings (nodes.foldl (fun state node => processBlockNode node state) ⟨[], []⟩)).output⟩ := rfl
  generalize nodes.foldl (fun state node => processBlockNode node state) (⟨[], []⟩ : State) = state at hholds hdocument
  obtain ⟨hstack, hblocks, hparents⟩ := flushHeadings_spec state
  have hpreorder : preorderAll (flushHeadings state).output = nodes.filterMap blockOf := by
    rw [← hholds.blocks_eq, ← hblocks, State.blocks, hstack]
    exact (List.append_nil _).symm
  have hall : parentsAll none 0 (flushHeadings state).output = state.parents := by
    rw [← hparents, State.parents, hstack]
    exact (List.append_nil _).symm
  refine ⟨⟨(flushHeadings state).output⟩, hdocument, hpreorder, ?_, ?_, ?_⟩
  · rw [hall, hholds.length_parents]
  · rw [hall]
    exact hholds.parents
  · intro i j l hparent hlevel
    rw [hall] at hparent
    obtain ⟨⟨hlt, l', hlevel', hbelow⟩, -⟩ := hholds.parents i (some j) hparent
    exact ⟨l', hlevel', hbelow i l hlt (Nat.le_refl i) hlevel⟩

end MdAstConverter

end Markdown

end Fenic
