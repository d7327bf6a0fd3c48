import Fenic.Markdown.CodeBlocks

/-!
# `Markdown.CodeBlockSelection` — what the query selects

The query puts out one object for each object in the document with the type of a code block, and only code blocks have it
(`BlockNode.filter_recurse`). So with a language that is read as it was given, the column has exactly the code blocks in that
language (`firstCodeBlocks_inLanguage`).

The language is read as it was given exactly if there is no backslash in it: every escape stands for less than it is made of
(`length_units_lt`).
-/

namespace Fenic

namespace Markdown

open Jq

/-! ## What is selected -/

/-- An object with the type of a code block. -/
def isCodeBlockObject : Value Nat → Bool
  | .object fields => ((fields.lookup "type").getD .null).eq (.string "code_block")
  | _ => false

/-- A field of an object, or null. -/
def memberOf (name : String) : Value Nat → Value Nat
  | .object fields => (fields.lookup name).getD .null
  | _ => .null

/-- What the query makes of an object. -/
def record (v : Value Nat) : Value Nat := .object [("code", memberOf "text" v), ("language", memberOf "language" v)]

@[simp] theorem isCodeBlockObject_null : isCodeBlockObject .null = false := rfl

@[simp] theorem isCodeBlockObject_bool (b : Bool) : isCodeBlockObject (.bool b) = false := rfl

@[simp] theorem isCodeBlockObject_number (n : Nat) : isCodeBlockObject (.number n) = false := rfl

@[simp] theorem isCodeBlockObject_string (s : String) : isCodeBlockObject (.string s) = false := rfl

@[simp] theorem isCodeBlockObject_array (items : List (Value Nat)) : isCodeBlockObject (.array items) = false := rfl

@[simp] theorem isCodeBlockObject_typed (t : String) (fields : List (String × Value Nat)) :
    isCodeBlockObject (.object (("type", .string t) :: fields)) = (t == "code_block") := rfl

theorem isCodeBlockObject_item (checked : Option Bool) (children : Value Nat) :
    isCodeBlockObject (.object (optionalMember "checked" (checked.map .bool) ++ [("children", children)])) = false := by
  cases checked <;> rfl

theorem isCodeBlock_eq (v : Value Nat) :
    isCodeBlock v = some [] ∧ isCodeBlockObject v = false ∨ isCodeBlock v = some [.bool (isCodeBlockObject v)] := by
  cases v with
  | null => exact .inr rfl
  | object fields => exact .inr rfl
  | _ => exact .inl ⟨rfl, rfl⟩

variable {v : Value Nat}

theorem construct_record (h : isCodeBlockObject v = true) :
    construct [("code", field "text"), ("language", field "language")] v = some [record v] := by
  cases v with
  | object fields => rfl
  | _ => cases h

/-- The part of the query after the descent. -/
def selectRecord (selection : Jq.Filter Nat) : Jq.Filter Nat :=
  pipe (select selection) (construct [("code", field "text"), ("language", field "language")])

variable {selection : Jq.Filter Nat}

theorem selectRecord_of_empty (h : selection v = some []) :
    selectRecord selection v = some [] := pipe_of_empty (each_of_empty h)

theorem selectRecord_of_single {b : Bool} (h : selection v = some [.bool b])
    (hb : b = true → isCodeBlockObject v = true) : selectRecord selection v = some (if b then [record v] else []) := by
  cases b with
  | false =>
    have hselect : select selection v = some [] := each_of_single h
    exact pipe_of_empty hselect
  | true =>
    have hselect : select selection v = some [v] := each_of_single h
    exact (pipe_of_single hselect).trans (construct_record (hb rfl))

theorem selectRecord_all (v : Value Nat) :
    selectRecord isCodeBlock v = some (if isCodeBlockObject v then [record v] else []) := by
  rcases isCodeBlock_eq v with ⟨hempty, hnot⟩ | hsingle
  · rw [selectRecord_of_empty hempty, hnot]
    rfl
  · exact selectRecord_of_single hsingle id

theorem selectRecord_inLanguage (language : String) (v : Value Nat) :
    selectRecord (isInLanguage language) v =
      some (if isCodeBlockObject v && (memberOf "language" v).eq (.string language) then [record v] else []) := by
  rcases isCodeBlock_eq v with ⟨hempty, hnot⟩ | hsingle
  · have hselection : isInLanguage language v = some [] := each_of_empty hempty
    rw [selectRecord_of_empty hselection, hnot]
    rfl
  · have hselection : isInLanguage language v =
        some [.bool (isCodeBlockObject v && (memberOf "language" v).eq (.string language))] := by
      refine (each_of_single hsingle).trans ?_
      cases hblock : isCodeBlockObject v with
      | false => rfl
      | true =>
        cases v with
        | object fields => rfl
        | _ => cases hblock
    exact selectRecord_of_single hselection fun h => (Bool.and_eq_true_iff.mp h).1

/-- The query puts out an object for each value that is selected. -/
theorem codeBlocksQuery_eq {selected : Value Nat → Bool}
    (h : ∀ v, selectRecord selection v = some (if selected v then [record v] else [])) (v : Value Nat) :
    codeBlocksQuery selection v = some [.array ((v.recurse.filter selected).map record)] := by
  have hpipe : pipe recurse (selectRecord selection) v =
      some (v.recurse.flatMap fun w => if selected w then [record w] else []) :=
    each_of_some rfl fun w _ => h w
  have hflat : (v.recurse.flatMap fun w => if selected w then [record w] else []) = (v.recurse.filter selected).map record := by
    induction v.recurse with
    | nil => rfl
    | cons w ws ih =>
      rw [List.flatMap_cons, ih, List.filter_cons]
      cases selected w <;> rfl
  show (pipe recurse (selectRecord selection) v).map _ = _
  rw [hpipe, hflat, Option.map_some]

/-! ## Only code blocks have their type -/

mutual

theorem InlineNode.filter_recurse : ∀ node : InlineNode, node.toJson.recurse.filter isCodeBlockObject = []
  | .text text => by simp [InlineNode.toJson, Value.recurse, Value.recurseFields]
  | .strong content => by
    simp [InlineNode.toJson, Value.recurse, Value.recurseFields, filter_recurse_inlines content]
  | .emphasis content => by
    simp [InlineNode.toJson, Value.recurse, Value.recurseFields, filter_recurse_inlines content]
  | .link href title content => by
    cases title <;>
      simp [InlineNode.toJson, optionalMember, Value.recurse, Value.recurseFields, filter_recurse_inlines content]
  | .inlineCode text => by simp [InlineNode.toJson, Value.recurse, Value.recurseFields]
  | .image src alt title => by
    cases alt <;> cases title <;> simp [InlineNode.toJson, optionalMember, Value.recurse, Value.recurseFields]
  | .strikethrough content => by
    simp [InlineNode.toJson, Value.recurse, Value.recurseFields, filter_recurse_inlines content]
  | .htmlInline text => by simp [InlineNode.toJson, Value.recurse, Value.recurseFields]
  | .hardBreak => by simp [InlineNode.toJson, Value.recurse, Value.recurseFields]

theorem filter_recurse_inlines : ∀ nodes : List InlineNode,
    (Value.recurseItems (inlinesToJson nodes)).filter isCodeBlockObject = []
  | [] => rfl
  | node :: nodes => by
    rw [inlinesToJson, Value.recurseItems, List.filter_append, node.filter_recurse, filter_recurse_inlines nodes]
    rfl

end

theorem filter_recurse_cells (cells : List (List InlineNode)) :
    (Value.recurseItems (cells.map cellToJson)).filter isCodeBlockObject = [] := by
  induction cells with
  | nil => rfl
  | cons cell cells ih =>
    rw [List.map_cons, Value.recurseItems, List.filter_append, ih]
    simp [cellToJson, Value.recurse, filter_recurse_inlines cell]

theorem filter_recurse_rows (rows : List (List (List InlineNode))) :
    (Value.recurseItems (rows.map fun row => .array (row.map cellToJson))).filter isCodeBlockObject = [] := by
  induction rows with
  | nil => rfl
  | cons row rows ih =>
    rw [List.map_cons, Value.recurseItems, List.filter_append, ih]
    simp [Value.recurse, filter_recurse_cells row]

theorem filter_recurse_alignments (alignments : List (Option String)) :
    (Value.recurseItems (alignments.map alignmentToJson)).filter isCodeBlockObject = [] := by
  induction alignments with
  | nil => rfl
  | cons alignment alignments ih =>
    rw [List.map_cons, Value.recurseItems, List.filter_append, ih]
    cases alignment <;> rfl

/-- The object of a code block. -/
def CodeBlock.toRecord (block : CodeBlock) : Value Nat :=
  .object [("code", (block.code.map Value.string).getD .null), ("language", (block.language.map Value.string).getD .null)]

mutual

/-- **The objects with the type of a code block are the code blocks, in the order of the document.** -/
theorem BlockNode.filter_recurse : ∀ block : BlockNode,
    (block.toJson.recurse.filter isCodeBlockObject).map record = block.codeBlocks.map CodeBlock.toRecord
  | .heading level content children => by
    simp [BlockNode.toJson, Value.recurse, Value.recurseFields, BlockNode.codeBlocks, filter_recurse_inlines content,
      filter_recurse_blocks children]
  | .paragraph content => by
    simp [BlockNode.toJson, Value.recurse, Value.recurseFields, BlockNode.codeBlocks, filter_recurse_inlines content]
  | .list ordered start tight items => by
    cases start <;>
      simp [BlockNode.toJson, optionalMember, Value.recurse, Value.recurseFields, BlockNode.codeBlocks,
        filter_recurse_items items]
  | .blockquote children => by
    simp [BlockNode.toJson, Value.recurse, Value.recurseFields, BlockNode.codeBlocks, filter_recurse_blocks children]
  | .codeBlock info language text fenced fenceChar fenceLength => by
    cases info <;> cases language <;> cases fenceChar <;> cases fenceLength <;> rfl
  | .table alignments header rows => by
    simp [BlockNode.toJson, Value.recurse, Value.recurseFields, BlockNode.codeBlocks,
      filter_recurse_alignments alignments, filter_recurse_cells header, filter_recurse_rows rows]
  | .thematicBreak => by simp [BlockNode.toJson, Value.recurse, Value.recurseFields, BlockNode.codeBlocks]
  | .htmlBlock text => by simp [BlockNode.toJson, Value.recurse, Value.recurseFields, BlockNode.codeBlocks]

theorem filter_recurse_blocks : ∀ blocks : List BlockNode,
    ((Value.recurseItems (blocksToJson blocks)).filter isCodeBlockObject).map record =
      (codeBlocksOf blocks).map CodeBlock.toRecord
  | [] => rfl
  | block :: blocks => by
    rw [blocksToJson, Value.recurseItems, List.filter_append, List.map_append, block.filter_recurse,
      filter_recurse_blocks blocks, codeBlocksOf, List.map_append]

theorem filter_recurse_items : ∀ items : List ListItem,
    ((Value.recurseItems (itemsToJson items)).filter isCodeBlockObject).map record =
      (codeBlocksOfItems items).map CodeBlock.toRecord
  | [] => rfl
  | .mk checked children :: items => by
    have hitem : ((ListItem.mk checked children).toJson.recurse.filter isCodeBlockObject).map record =
        (codeBlocksOf children).map CodeBlock.toRecord := by
      have hnot := isCodeBlockObject_item checked (.array (blocksToJson children))
      rw [ListItem.toJson, Value.recurse, List.filter_cons_of_neg (Bool.not_eq_true _ ▸ hnot)]
      cases checked <;>
        simp [optionalMember, Value.recurse, Value.recurseFields, filter_recurse_blocks children]
    rw [itemsToJson, Value.recurseItems, List.filter_append, List.map_append, hitem, filter_recurse_items items,
      codeBlocksOfItems, List.map_append]

end

theorem CodeBlock.castCodeBlock_toRecord (block : CodeBlock) : castCodeBlock block.toRecord = some block := by
  obtain ⟨language, code⟩ := block
  cases language <;> cases code <;> rfl

theorem CodeBlock.mapM_castCodeBlock (blocks : List CodeBlock) : (blocks.map toRecord).mapM castCodeBlock = some blocks := by
  rw [Rows.mapM_eq_some, List.map_map]
  exact List.map_congr_left fun block _ => block.castCodeBlock_toRecord

theorem Document.filter_recurse (document : Document) :
    (document.toJson.recurse.filter isCodeBlockObject).map record = document.codeBlocks.map CodeBlock.toRecord := by
  simp [Document.toJson, Value.recurse, Value.recurseFields, Document.codeBlocks, filter_recurse_blocks document.children]

/-- Without a language, the column has all code blocks. -/
theorem firstCodeBlocks_all (document : Document) : firstCodeBlocks isCodeBlock document.toJson = some document.codeBlocks := by
  unfold firstCodeBlocks
  rw [codeBlocksQuery_eq selectRecord_all, document.filter_recurse]
  exact CodeBlock.mapM_castCodeBlock document.codeBlocks

/-- The code blocks in a language. -/
def Document.codeBlocksIn (language : String) (document : Document) : List CodeBlock :=
  document.codeBlocks.filter fun block => block.language = some language

/-- **With a language, the column has exactly the code blocks in that language, in the order of the document.** -/
theorem firstCodeBlocks_inLanguage (language : String) (document : Document) :
    firstCodeBlocks (isInLanguage language) document.toJson = some (document.codeBlocksIn language) := by
  have hrecords : (document.toJson.recurse.filter fun v =>
      isCodeBlockObject v && (memberOf "language" v).eq (.string language)).map record =
        (document.codeBlocksIn language).map CodeBlock.toRecord := by
    have hmember : ∀ v, (memberOf "language" v).eq (.string language) =
        (memberOf "language" (record v)).eq (.string language) := fun _ => rfl
    have hlanguage : ∀ block : CodeBlock, (memberOf "language" block.toRecord).eq (.string language) =
        decide (block.language = some language) := by
      intro block
      obtain ⟨_ | l, code⟩ := block
      · rfl
      · show (l == language) = decide (some l = some language)
        simp [beq_eq_decide]
    have hfilter : (document.toJson.recurse.filter fun v =>
        isCodeBlockObject v && (memberOf "language" v).eq (.string language)) =
        (document.toJson.recurse.filter isCodeBlockObject).filter fun v =>
          (memberOf "language" (record v)).eq (.string language) := by
      rw [List.filter_filter]
      apply List.filter_congr
      intro v _
      rw [hmember v, Bool.and_comm]
    have hmap := List.filter_map (f := record) (p := fun v => (memberOf "language" v).eq (.string language))
      (l := document.toJson.recurse.filter isCodeBlockObject)
    rw [hfilter]
    refine hmap.symm.trans ?_
    rw [document.filter_recurse, List.filter_map]
    congr 1
    exact List.filter_congr fun block _ => hlanguage block
  unfold firstCodeBlocks
  rw [codeBlocksQuery_eq (selectRecord_inLanguage language), hrecords]
  exact CodeBlock.mapM_castCodeBlock _

/-! ## What is read in the literal -/

theorem escapeQuotes_cons {c : Char} (h : c ≠ '"') (s : List Char) : escapeQuotes (c :: s) = c :: escapeQuotes s := by
  rw [escapeQuotes]
  exact h

variable {s : List Char}

/-- Without a backslash, the literal stands for what was put into it. -/
theorem readString_escapeQuotes (h : '\\' ∉ s) (rest : List Char) :
    readString (escapeQuotes s ++ '"' :: rest) = .text (s.map .char) rest := by
  induction s with
  | nil => rfl
  | cons c s ih =>
      obtain ⟨hc, hs⟩ := not_or.mp (fun hmem => h (List.mem_cons.mpr hmem))
      by_cases hquote : c = '"'
      · subst hquote
        show (readString (escapeQuotes s ++ '"' :: rest)).cons (.char '"') = _
        rw [ih hs]
        rfl
      · rw [escapeQuotes_cons hquote, List.cons_append, readString_cons hquote (Ne.symm hc), ih hs]
        rfl

variable {rest : List Char}

/-- A hexadecimal digit is one that was put in. -/
theorem exists_of_hexDigit {text : List Char} {a : Char} (h : escapeQuotes s ++ '"' :: rest = a :: text)
    (hdigit : hexDigit a ≠ none) : ∃ s', s = a :: s' ∧ text = escapeQuotes s' ++ '"' :: rest := by
  cases s with
  | nil =>
    obtain ⟨rfl, -⟩ := List.cons.inj h
    exact absurd rfl hdigit
  | cons c s =>
      by_cases hquote : c = '"'
      · subst hquote
        obtain ⟨rfl, -⟩ := List.cons.inj h
        exact absurd rfl hdigit
      · rw [escapeQuotes_cons hquote, List.cons_append] at h
        obtain ⟨rfl, rfl⟩ := List.cons.inj h
        exact ⟨s, rfl, rfl⟩

theorem hexDigit_ne_none {a b c d : Char} {unit : CodeUnit} (h : hexUnit a b c d = some unit) :
    hexDigit a ≠ none ∧ hexDigit b ≠ none ∧ hexDigit c ≠ none ∧ hexDigit d ≠ none := by
  unfold hexUnit at h
  split at h
  next ha hb hc hd =>
      rw [ha, hb, hc, hd]
      exact ⟨nofun, nofun, nofun, nofun⟩
  next => cases h

/-- What an escape takes is more than what it stands for. -/
theorem length_escape_le {units : List CodeUnit}
    (ih : ∀ s' units', s'.length < s.length + 1 → readString (escapeQuotes s' ++ '"' :: rest) = .text units' rest →
      units'.length ≤ s'.length)
    (h : readString ('\\' :: (escapeQuotes s ++ '"' :: rest)) = .text units rest) : units.length < s.length + 1 := by
  cases s with
  | nil =>
      -- the closing quote is escaped, and the literal goes on after it
      have hread : (readString rest).cons (.char '"') = .text units rest := h
      obtain ⟨units', h', -⟩ := StringLiteral.cons_eq_text.mp hread
      exact absurd (length_rest_lt h') (Nat.lt_irrefl _)
  | cons c s =>
      by_cases hquote : c = '"'
      · -- the backslash of the quote is escaped, and the quote ends the literal
        subst hquote
        have hread : StringLiteral.text [.char '\\'] (escapeQuotes s ++ '"' :: rest) = .text units rest := h
        have hlength := congrArg List.length (StringLiteral.text.inj hread).2
        simp only [List.length_append, List.length_cons] at hlength
        omega
      · rw [escapeQuotes_cons hquote, List.cons_append] at h
        rcases readString_backslash h with ⟨x, y, z, w, rest', unit, htext, hunit, h⟩ | ⟨_, d, rest', htext, -, h⟩
        · obtain ⟨-, hdigits⟩ := List.cons.inj htext
          obtain ⟨hx, hy, hz, hw⟩ := hexDigit_ne_none hunit
          obtain ⟨s₁, rfl, h₁⟩ := exists_of_hexDigit hdigits hx
          obtain ⟨s₂, rfl, h₂⟩ := exists_of_hexDigit h₁.symm hy
          obtain ⟨s₃, rfl, h₃⟩ := exists_of_hexDigit h₂.symm hz
          obtain ⟨s₄, rfl, rfl⟩ := exists_of_hexDigit h₃.symm hw
          obtain ⟨units', h', rfl⟩ := StringLiteral.cons_eq_text.mp h
          have hle := ih s₄ units' (by simp only [List.length_cons]; omega) h'
          simp only [List.length_cons]
          omega
        · obtain ⟨-, rfl⟩ := List.cons.inj htext
          obtain ⟨units', h', rfl⟩ := StringLiteral.cons_eq_text.mp h
          have hle := ih s units' (by simp only [List.length_cons]; omega) h'
          simp only [List.length_cons]
          omega

/-- **With a backslash, a literal that ends where it should stands for less than what was put into it.** -/
theorem length_units_le {units : List CodeUnit}
    (h : readString (escapeQuotes s ++ '"' :: rest) = .text units rest) :
    units.length ≤ s.length ∧ ('\\' ∈ s → units.length < s.length) := by
  induction hlength : s.length using Nat.strongRecOn generalizing s units with
  | ind length ih =>
      subst hlength
      cases s with
      | nil =>
        cases h
        exact ⟨Nat.le_refl _, nofun⟩
      | cons c s =>
          by_cases hquote : c = '"'
          · subst hquote
            have hread : (readString (escapeQuotes s ++ '"' :: rest)).cons (.char '"') = .text units rest := h
            obtain ⟨units', h', rfl⟩ := StringLiteral.cons_eq_text.mp hread
            obtain ⟨hle, hlt⟩ := ih s.length (Nat.lt_succ_self _) h' rfl
            refine ⟨Nat.succ_le_succ hle, fun hmem => Nat.succ_lt_succ (hlt ?_)⟩
            exact (List.mem_cons.mp hmem).resolve_left (by decide)
          · rw [escapeQuotes_cons hquote, List.cons_append] at h
            by_cases hbackslash : c = '\\'
            · subst hbackslash
              have hlt : units.length < s.length + 1 :=
                length_escape_le (fun s' units' hlt h' => (ih s'.length hlt h' rfl).1) h
              exact ⟨Nat.le_of_lt hlt, fun _ => hlt⟩
            · rw [readString_cons hquote hbackslash] at h
              obtain ⟨units', h', rfl⟩ := StringLiteral.cons_eq_text.mp h
              obtain ⟨hle, hlt⟩ := ih s.length (Nat.lt_succ_self _) h' rfl
              refine ⟨Nat.succ_le_succ hle, fun hmem => Nat.succ_lt_succ (hlt ?_)⟩
              exact (List.mem_cons.mp hmem).resolve_left (Ne.symm hbackslash)

/-! ## The query with a language -/

theorem languageOpening_not_isPrefixOf_allQuery : languageOpening.isPrefixOf allQuery = false := by decide

/-- The text of a query with a language is read from the literal on. -/
theorem readQuery_filtered {filter : String} (h : filter ≠ "") :
    readQuery (buildJqQuery (some filter)) =
      match readString (escapeQuotes filter.toList ++ '"' :: languageClosing) with
      | .text units rest =>
        if rest = languageClosing then .inLanguage (String.ofList (decodeUnits none units)) else .other
      | .embeds => .other
      | .invalid => .invalid := by
  have hbuild : buildJqQuery (some filter) = languageOpening ++ (escapeQuotes filter.toList ++ '"' :: languageClosing) := by
    dsimp only [buildJqQuery]
    rw [if_pos h, List.append_assoc]
  have hprefix : languageOpening.isPrefixOf (languageOpening ++ (escapeQuotes filter.toList ++ '"' :: languageClosing)) = true :=
    List.isPrefixOf_iff_prefix.mpr (List.prefix_append _ _)
  have hne : languageOpening ++ (escapeQuotes filter.toList ++ '"' :: languageClosing) ≠ allQuery := by
    intro heq
    rw [heq, languageOpening_not_isPrefixOf_allQuery] at hprefix
    cases hprefix
  unfold readQuery
  rewrite [hbuild, if_neg hne, if_pos hprefix, List.drop_left]
  rfl

/-- **The language in the query is the one that was given, exactly if that is not empty and has no backslash.** -/
theorem readQuery_eq_iff (filter : String) :
    readQuery (buildJqQuery (some filter)) = .inLanguage filter ↔ filter ≠ "" ∧ '\\' ∉ filter.toList := by
  by_cases hempty : filter = ""
  · subst hempty
    refine iff_of_false ?_ fun h => h.1 rfl
    show readQuery allQuery ≠ _
    exact nofun
  · rw [readQuery_filtered hempty, and_iff_right hempty]
    constructor
    · intro hread hmem
      split at hread
      next units rest hstring =>
          split at hread
          next hrest =>
              subst hrest
              have hlt := (length_units_le hstring).2 hmem
              have hle := length_decodeUnits_le none units
              have htext := congrArg String.toList (CodeBlocksQuery.inLanguage.inj hread)
              rw [String.toList_ofList] at htext
              rw [htext] at hle
              simp only [Option.toList_none, List.length_nil, Nat.zero_add] at hle
              omega
          next => cases hread
      next => cases hread
      next => cases hread
    · intro hmem
      rw [readString_escapeQuotes hmem]
      dsimp only
      rw [if_pos rfl, decodeUnits_map_char, String.ofList_toList]

/-- The text of the language runs as a part of the program. -/
def RunsCode (filter : String) : Prop := readQuery (buildJqQuery (some filter)) = .other

instance (filter : String) : Decidable (RunsCode filter) := inferInstanceAs (Decidable (_ = _))

/-- A document with one code block. -/
def singleCodeBlock (language : String) : Document := ⟨[.codeBlock none (some language) "" true none none]⟩

/-- A document with a code block that names no language. -/
def plainCodeBlock : Document := ⟨[.codeBlock none none "" true none none]⟩

theorem codeBlocksIn_singleCodeBlock (language : String) :
    (singleCodeBlock language).codeBlocksIn language = [⟨some language, some ""⟩] := by
  simp [Document.codeBlocksIn, Document.codeBlocks, singleCodeBlock, codeBlocksOf, BlockNode.codeBlocks]

/-- **The query is the one for the language that was given, and selects exactly its code blocks in every document, if and only
    if the language is not empty and has no backslash. With a backslash that runs no code of the language, some document gives
    others.** -/
theorem getCodeBlocks_iff (other : List Char → Value Nat → Option (List CodeBlock)) (filter : String) :
    ((readQuery (buildJqQuery (some filter)) = .inLanguage filter ∧
        ∀ document, getCodeBlocks other (some filter) document = some (document.codeBlocksIn filter)) ↔
      filter ≠ "" ∧ '\\' ∉ filter.toList) ∧
    (¬ RunsCode filter →
      ((∀ document, getCodeBlocks other (some filter) document = some (document.codeBlocksIn filter)) ↔
        filter ≠ "" ∧ '\\' ∉ filter.toList)) := by
  have hselects : readQuery (buildJqQuery (some filter)) = .inLanguage filter →
      ∀ document, getCodeBlocks other (some filter) document = some (document.codeBlocksIn filter) := by
    intro hread document
    unfold getCodeBlocks
    rw [hread]
    exact firstCodeBlocks_inLanguage filter document
  refine ⟨⟨fun h => (readQuery_eq_iff filter).mp h.1, fun h => ?_⟩, fun hcode => ⟨fun hall => ?_, fun h => ?_⟩⟩
  · have hread := (readQuery_eq_iff filter).mpr h
    exact ⟨hread, hselects hread⟩
  · apply (readQuery_eq_iff filter).mp
    cases hread : readQuery (buildJqQuery (some filter)) with
    | all =>
      -- a code block without a language is selected too
      have hplain := hall plainCodeBlock
      unfold getCodeBlocks at hplain
      rw [hread] at hplain
      have heq := (firstCodeBlocks_all plainCodeBlock).symm.trans hplain
      cases heq
    | inLanguage language =>
      have hsingle := hall (singleCodeBlock filter)
      unfold getCodeBlocks at hsingle
      rw [hread] at hsingle
      have heq := (firstCodeBlocks_inLanguage language (singleCodeBlock filter)).symm.trans hsingle
      rw [codeBlocksIn_singleCodeBlock] at heq
      have hmem : (⟨some filter, some ""⟩ : CodeBlock) ∈ (singleCodeBlock filter).codeBlocksIn language := by
        rw [Option.some.inj heq]
        exact List.mem_singleton_self _
      have hlanguage := of_decide_eq_true (List.mem_filter.mp hmem).2
      rw [Option.some.inj hlanguage]
    | invalid =>
      have hsingle := hall (singleCodeBlock filter)
      unfold getCodeBlocks at hsingle
      rw [hread] at hsingle
      cases hsingle
    | other => exact absurd hread hcode
  · exact hselects ((readQuery_eq_iff filter).mpr h)

theorem python_selected :
    getCodeBlocks (fun _ _ => none) (some "python") (singleCodeBlock "python") = some [⟨some "python", some ""⟩] := by
  have hplain : ¬ RunsCode "python" := by decide +kernel
  have hselects := ((getCodeBlocks_iff (fun _ _ => none) "python").2 hplain).mpr ⟨by decide, by decide⟩
  rw [hselects (singleCodeBlock "python"), codeBlocksIn_singleCodeBlock]

/-- The backslash is an escape, and code blocks in the language are not found. -/
theorem escaped_language_missed :
    ¬ ∀ (other : List Char → Value Nat → Option (List CodeBlock)) (filter : String) (document : Document),
      getCodeBlocks other (some filter) document = some (document.codeBlocksIn filter) := by
  intro hall
  have hmissed := hall (fun _ _ => none) "a\\b" (singleCodeBlock "a\\b")
  have heq := (firstCodeBlocks_inLanguage _ (singleCodeBlock "a\\b")).symm.trans hmissed
  rw [codeBlocksIn_singleCodeBlock] at heq
  have hnone : (singleCodeBlock "a\\b").codeBlocksIn (String.ofList ['a', Char.ofNat 8]) = [] := by decide +kernel
  cases heq

-- a language that is refused, one that selects every code block, and one that ends the literal
example : readQuery (buildJqQuery (some "c\\d")) = .invalid := by decide +kernel
example : RunsCode "\\(.language)" := by decide +kernel
example : RunsCode "\\\") or true) | #" := by decide +kernel

end Markdown

end Fenic
