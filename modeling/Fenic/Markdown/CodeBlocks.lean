import Fenic.Lib.Jq
import Fenic.Markdown.Converter

/-!
# `Markdown.CodeBlocks` — the code blocks of a document

`markdown.get_code_blocks` turns a document into JSON and runs a query on it. The language to look for is put into the text of
the query, with its quotes escaped and nothing else. A backslash in it is then the beginning of an escape, of a program, or of
the end of the literal.

`readQuery` is what jq reads in such a text, as far as the two forms of the query go. What it makes of any other text is up to the
parameter `other`.
-/

namespace Fenic

namespace Markdown

open Jq

/-! ## The document as JSON -/

/-- A field that is left out when there is no value (`skip_serializing_if`). -/
def optionalMember (name : String) (v : Option (Value Nat)) : List (String × Value Nat) :=
  v.toList.map fun v => (name, v)

mutual

def InlineNode.toJson : InlineNode → Value Nat
  | .text text => .object [("type", .string "text"), ("text", .string text)]
  | .strong content => .object [("type", .string "strong"), ("content", .array (inlinesToJson content))]
  | .emphasis content => .object [("type", .string "emphasis"), ("content", .array (inlinesToJson content))]
  | .link href title content =>
    .object ([("type", .string "link"), ("href", .string href)] ++ optionalMember "title" (title.map .string) ++
      [("content", .array (inlinesToJson content))])
  | .inlineCode text => .object [("type", .string "inline_code"), ("text", .string text)]
  | .image src alt title =>
    .object ([("type", .string "image"), ("src", .string src)] ++ optionalMember "alt" (alt.map .string) ++
      optionalMember "title" (title.map .string))
  | .strikethrough content => .object [("type", .string "strikethrough"), ("content", .array (inlinesToJson content))]
  | .htmlInline text => .object [("type", .string "html_inline"), ("text", .string text)]
  | .hardBreak => .object [("type", .string "hardbreak")]

def inlinesToJson : List InlineNode → List (Value Nat)
  | [] => []
  | node :: nodes => node.toJson :: inlinesToJson nodes

end

/-- A cell of a table. -/
def cellToJson (cell : List InlineNode) : Value Nat := .array (inlinesToJson cell)

def alignmentToJson : Option String → Value Nat
  | some alignment => .string alignment
  | none => .null

mutual

def BlockNode.toJson : BlockNode → Value Nat
  | .heading level content children =>
    .object [("type", .string "heading"), ("level", .number level), ("content", .array (inlinesToJson content)),
      ("children", .array (blocksToJson children))]
  | .paragraph content => .object [("type", .string "paragraph"), ("content", .array (inlinesToJson content))]
  | .list ordered start tight items =>
    .object ([("type", .string "list"), ("ordered", .bool ordered)] ++ optionalMember "start" (start.map .number) ++
      [("tight", .bool tight), ("items", .array (itemsToJson items))])
  | .blockquote children => .object [("type", .string "blockquote"), ("children", .array (blocksToJson children))]
  | .codeBlock info language text fenced fenceChar fenceLength =>
    .object ([("type", .string "code_block")] ++ optionalMember "info" (info.map .string) ++
      optionalMember "language" (language.map .string) ++ [("text", .string text), ("fenced", .bool fenced)] ++
      optionalMember "fence_char" (fenceChar.map .string) ++ optionalMember "fence_length" (fenceLength.map .number))
  | .table alignments header rows =>
    .object [("type", .string "table"), ("alignments", .array (alignments.map alignmentToJson)),
      ("header", .array (header.map cellToJson)), ("rows", .array (rows.map fun row => .array (row.map cellToJson)))]
  | .thematicBreak => .object [("type", .string "thematic_break")]
  | .htmlBlock text => .object [("type", .string "html_block"), ("text", .string text)]

def blocksToJson : List BlockNode → List (Value Nat)
  | [] => []
  | block :: blocks => block.toJson :: blocksToJson blocks

def ListItem.toJson : ListItem → Value Nat
  | .mk checked children =>
    .object (optionalMember "checked" (checked.map .bool) ++ [("children", .array (blocksToJson children))])

def itemsToJson : List ListItem → List (Value Nat)
  | [] => []
  | item :: items => item.toJson :: itemsToJson items

end

def Document.toJson (document : Document) : Value Nat :=
  .object [("type", .string "document"), ("children", .array (blocksToJson document.children))]

/-! ## The query -/

/-- `language_filter.replace`: a backslash before each quote. -/
def escapeQuotes : List Char → List Char
  | [] => []
  | '"' :: s => '\\' :: '"' :: escapeQuotes s
  | c :: s => c :: escapeQuotes s

def queryOpening : List Char := "\n    [.. | select(".toList

def queryClosing : List Char := ") |\n    \x7b\n    code: .text,\n    language: .language,\n    \x7d]".toList

/-- The beginning of a query with a language, up to the opening quote. -/
def languageOpening : List Char := queryOpening ++ ".type? == \"code_block\" and (.language == \"".toList

/-- What comes after the closing quote. -/
def languageClosing : List Char := ")".toList ++ queryClosing

def allQuery : List Char := queryOpening ++ ".type? == \"code_block\"".toList ++ queryClosing

/-- `_build_jq_query`. -/
def buildJqQuery (languageFilter : Option String) : List Char :=
  match languageFilter with
  | some filter =>
      if filter ≠ "" then languageOpening ++ escapeQuotes filter.toList ++ '"' :: languageClosing else allQuery
  | none => allQuery

/-- The program that a query is. -/
inductive CodeBlocksQuery where
  | all
  | inLanguage (language : String)
  /-- A literal with an escape that does not exist, or without an end. -/
  | invalid
  /-- Any other program. -/
  | other
  deriving DecidableEq

def readQuery (query : List Char) : CodeBlocksQuery :=
  if query = allQuery then .all
  else if languageOpening.isPrefixOf query then
    match readString (query.drop languageOpening.length) with
    | .text units rest =>
      if rest = languageClosing then .inLanguage (String.ofList (decodeUnits none units)) else .other
    | .embeds => .other
    | .invalid => .invalid
  else .other

/-- `.type? == "code_block"`. -/
def isCodeBlock : Jq.Filter Nat := equal (optionalField "type") (literal (.string "code_block"))

def isInLanguage (language : String) : Jq.Filter Nat :=
  conj isCodeBlock (equal (field "language") (literal (.string language)))

/-- The query around its selection. -/
def codeBlocksQuery (selection : Jq.Filter Nat) : Jq.Filter Nat :=
  collect (pipe recurse (pipe (select selection) (construct [("code", field "text"), ("language", field "language")])))

/-! ## The column -/

structure CodeBlock where
  language : Option String
  code : Option String
  deriving DecidableEq

/-- The cast of a value to text. -/
def castText : Value Nat → Option (Option String)
  | .null => some none
  | .string s => some (some s)
  | _ => none

/-- The cast of the objects that the query makes. -/
def castCodeBlock : Value Nat → Option CodeBlock
  | .object fields => do
    let language ← castText ((fields.lookup "language").getD .null)
    let code ← castText ((fields.lookup "code").getD .null)
    pure ⟨language, code⟩
  | _ => none

def castCodeBlocks : Value Nat → Option (List CodeBlock)
  | .array items => items.mapM castCodeBlock
  | _ => none

/-- The first output of a query, cast. -/
def firstCodeBlocks (selection : Jq.Filter Nat) (document : Value Nat) : Option (List CodeBlock) :=
  (codeBlocksQuery selection document).bind fun outputs => outputs.head?.bind castCodeBlocks

/-- `markdown.get_code_blocks` for a document. `none` is an error. -/
def getCodeBlocks (other : List Char → Value Nat → Option (List CodeBlock)) (languageFilter : Option String)
    (document : Document) : Option (List CodeBlock) :=
  match readQuery (buildJqQuery languageFilter) with
  | .all => firstCodeBlocks isCodeBlock document.toJson
  | .inLanguage language => firstCodeBlocks (isInLanguage language) document.toJson
  | .invalid => none
  | .other => other (buildJqQuery languageFilter) document.toJson

/-! ## The code blocks of a document -/

mutual

/-- The code blocks in a block, in the order of the document. -/
def BlockNode.codeBlocks : BlockNode → List CodeBlock
  | .heading _ _ children => codeBlocksOf children
  | .list _ _ _ items => codeBlocksOfItems items
  | .blockquote children => codeBlocksOf children
  | .codeBlock _ language text _ _ _ => [⟨language, some text⟩]
  | _ => []

def codeBlocksOf : List BlockNode → List CodeBlock
  | [] => []
  | block :: blocks => block.codeBlocks ++ codeBlocksOf blocks

def codeBlocksOfItems : List ListItem → List CodeBlock
  | [] => []
  | .mk _ children :: items => codeBlocksOf children ++ codeBlocksOfItems items

end

def Document.codeBlocks (document : Document) : List CodeBlock := codeBlocksOf document.children

end Markdown

end Fenic
