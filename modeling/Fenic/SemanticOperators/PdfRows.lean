import Fenic.SemanticOperators.PdfChunks

/-!
# `SemanticOperators.PdfRows` — the responses of the chunks, put together again

The requests of all documents are sent in one list, and `ParsePDF.postprocess` takes the responses apart by the numbers of
chunks. Each row gets the responses of its own chunks, joined by the separators between them. A missing response is added
to a text like one that is there, which raises; so does the one that stands for a missing path.
-/

namespace Fenic

namespace SemanticOperators

namespace ParsePDF

/-- `not path`. -/
def PathMissing (path : Option String) : Prop := path = none ∨ path = some ""

instance (path : Option String) : Decidable (PathMissing path) :=
  inferInstanceAs (Decidable (path = none ∨ path = some ""))

/-! ## Requests -/

/-- `self.model`. -/
def model (operator : ParsePDF) : LanguageModel := operator.requestSender.model.languageModel

/-- `_get_file_chunks` of the operator. -/
def fileChunks (operator : ParsePDF) (files : String → PdfFile) (path : String) : List PdfChunk :=
  getFileChunks path (operator.model.document (files path)) operator.model.maxOutputTokens

section
variable (operator : ParsePDF) (files : String → PdfFile)

/-- The messages of a row and the page counts of its chunks. -/
def rowMessages (path : Option String) : List (Option RequestMessages) × List Nat :=
  match path with
  | none => ([none], [1])
  | some path =>
    if path = "" then ([none], [1])
    else
      let fileChunks := operator.fileChunks files path
      (fileChunks.map fun chunk => some (operator.buildRequestMessages chunk.file (1 < fileChunks.length)),
        fileChunks.map fun chunk => chunk.file.pageRange.2 - chunk.file.pageRange.1 + 1)

/-- `build_request_messages_batch`, with the page counts. -/
def buildRequestMessagesBatchAndCounts : List (Option RequestMessages) × List (List Nat) :=
  (operator.input.flatMap fun path => (operator.rowMessages files path).1,
    operator.input.map fun path => (operator.rowMessages files path).2)

end

/-! ## Responses -/

inductive PostprocessError where
  | indexError
  | typeError
  deriving DecidableEq

/-- `chunk_separator`. -/
def chunkSeparator (pageSeparator : Option String) : String :=
  match pageSeparator with
  | none => "\n"
  | some separator => if separator = "" then "\n" else "\n" ++ (separator ++ "\n")

/-- The separator after a page. -/
def separatorAfter (operator : ParsePDF) (lastPageNumber : Nat) : String :=
  (chunkSeparator operator.pageSeparator).replace "\x7bpage\x7d" (toString lastPageNumber)

/-- `responses[i]`, where it is added to a text. -/
def responseAt (responses : List (Option String)) (i : Nat) : Except PostprocessError String :=
  match responses[i]? with
  | none => .error .indexError
  | some none => .error .typeError
  | some (some response) => .ok response

section
variable (operator : ParsePDF) (responses : List (Option String))

/-- The loop over the chunks of a row, from a chunk on. -/
def combineChunks (pathFirstChunkIdx chunkCount : Nat) : Nat → String → Nat → List Nat → Except PostprocessError String
  | _, combinedResponse, _, [] => .ok combinedResponse
  | chunkIdx, combinedResponse, lastPageNumber, pageCount :: rest => do
    let response ← responseAt responses (pathFirstChunkIdx + chunkIdx)
    if chunkIdx < chunkCount - 1 then
      combineChunks pathFirstChunkIdx chunkCount (chunkIdx + 1)
        (combinedResponse ++ response ++ operator.separatorAfter (lastPageNumber + pageCount)) (lastPageNumber + pageCount) rest
    else combineChunks pathFirstChunkIdx chunkCount (chunkIdx + 1) (combinedResponse ++ response) lastPageNumber rest

/-- The loop over the rows. -/
def postprocessRows : Nat → List (List Nat) → Except PostprocessError (List (Option String))
  | _, [] => .ok []
  | pathFirstChunkIdx, pageCountsPerChunk :: rest => do
    let combinedResponse ← operator.combineChunks responses pathFirstChunkIdx pageCountsPerChunk.length 0 "" 0 pageCountsPerChunk
    let combinedResponses ← postprocessRows (pathFirstChunkIdx + pageCountsPerChunk.length) rest
    .ok (some combinedResponse :: combinedResponses)

/-- `postprocess`. -/
def postprocess (pageCountsPerChunkPerRow : List (List Nat)) : Except PostprocessError (List (Option String)) :=
  operator.postprocessRows responses 0 pageCountsPerChunkPerRow

end

/-! ## What a row is to be -/

/-- Texts in their order, with the separators between them. -/
def joinChunks (separator : Nat → String) : Nat → List Nat → List String → String
  | lastPageNumber, pageCount :: pageCounts, response :: responses =>
    if responses = [] then response
    else response ++ separator (lastPageNumber + pageCount) ++
      joinChunks separator (lastPageNumber + pageCount) pageCounts responses
  | _, _, _ => ""

/-- The row of a path: null for a missing path or with a missing response, and else the responses of its chunks. -/
def rowOf (operator : ParsePDF) (path : Option String) (pageCounts : List Nat) (own : List (Option String)) : Option String :=
  if PathMissing path then none
  else if none ∈ own then none
  else some (joinChunks operator.separatorAfter 0 pageCounts own.reduceOption)

/-- The responses, taken apart by rows. -/
def ownResponses (responses : List (Option String)) (pageCountsPerChunkPerRow : List (List Nat)) : List (List (Option String)) :=
  (pageCountsPerChunkPerRow.map List.length).splitLengths responses

/-- Every document is cut into proper chunks, and the rows are those of the paths. -/
structure ParsesPdfs (operator : ParsePDF) (files : String → PdfFile) (responses : List (Option String)) : Prop where
  chunks : ∀ path, some path ∈ operator.input → path ≠ "" →
    ChunksOf path (operator.model.document (files path)) operator.model.maxOutputTokens (operator.fileChunks files path)
  rows : operator.postprocess responses (operator.buildRequestMessagesBatchAndCounts files).2 =
    .ok ((operator.input.zip ((operator.buildRequestMessagesBatchAndCounts files).2.zip
      (ownResponses responses (operator.buildRequestMessagesBatchAndCounts files).2))).map fun row =>
        operator.rowOf row.1 row.2.1 row.2.2)

/-! ## Taking the responses apart -/

section
variable {operator : ParsePDF} {responses : List (Option String)}

theorem reduceOption_ne_nil {own : List (Option String)} (hne : own ≠ []) (h : none ∉ own) : own.reduceOption ≠ [] := by
  cases own with
  | nil => exact absurd rfl hne
  | cons response own =>
    cases response with
    | none => exact absurd List.mem_cons_self h
    | some text => simp

/-- The chunks of a row take the responses from its first on, and raise at the first that is missing. -/
theorem combineChunks_eq {pathFirstChunkIdx chunkCount chunkIdx : Nat} {pageCounts : List Nat}
    (hcount : chunkIdx + pageCounts.length = chunkCount) (hlength : pathFirstChunkIdx + chunkCount ≤ responses.length)
    (combinedResponse : String) (lastPageNumber : Nat) :
    operator.combineChunks responses pathFirstChunkIdx chunkCount chunkIdx combinedResponse lastPageNumber pageCounts =
      if none ∈ (responses.drop (pathFirstChunkIdx + chunkIdx)).take pageCounts.length then .error .typeError
      else .ok (combinedResponse ++ joinChunks operator.separatorAfter lastPageNumber pageCounts
        ((responses.drop (pathFirstChunkIdx + chunkIdx)).take pageCounts.length).reduceOption) := by
  induction pageCounts generalizing chunkIdx combinedResponse lastPageNumber with
  | nil => simp [combineChunks, joinChunks]
  | cons pageCount rest ih =>
    rw [List.length_cons] at hcount
    have hin : pathFirstChunkIdx + chunkIdx < responses.length := by omega
    have hcount' : chunkIdx + 1 + rest.length = chunkCount := by omega
    have ih' := fun combined last => ih hcount' combined last
    rw [combineChunks, List.drop_eq_getElem_cons hin, List.length_cons, List.take_succ_cons]
    unfold responseAt
    rw [List.getElem?_eq_getElem hin]
    cases responses[pathFirstChunkIdx + chunkIdx] with
    | none =>
      rfl
    | some response =>
      rw [Except.ok_bind, ih', ih', List.reduceOption_cons_of_some]
      simp only [← Nat.add_assoc, List.mem_cons, reduceCtorEq, false_or]
      by_cases hmissing : none ∈ (responses.drop (pathFirstChunkIdx + chunkIdx + 1)).take rest.length
      · simp only [if_pos hmissing, ite_self]
      · simp only [if_neg hmissing]
        -- there is a separator exactly if another chunk follows
        cases rest with
        | nil =>
          rw [if_neg (by rw [List.length_nil] at hcount; omega)]
          simp [joinChunks]
        | cons pageCount' rest =>
          rw [List.length_cons] at hcount
          have hne : ((responses.drop (pathFirstChunkIdx + chunkIdx + 1)).take (pageCount' :: rest).length).reduceOption ≠
              [] := by
            apply reduceOption_ne_nil _ hmissing
            rw [Ne, List.take_eq_nil_iff, List.drop_eq_nil_iff, List.length_cons]
            omega
          rw [if_pos (by omega), joinChunks.eq_1, if_neg hne, String.append_assoc, String.append_assoc, String.append_assoc]

/-- A row, with its page counts and its responses. -/
def combineRow (operator : ParsePDF) (row : List Nat × List (Option String)) : Except PostprocessError (Option String) :=
  if none ∈ row.2 then .error .typeError else .ok (some (joinChunks operator.separatorAfter 0 row.1 row.2.reduceOption))

theorem postprocessRows_eq {pathFirstChunkIdx : Nat} {rows : List (List Nat)}
    (hlength : pathFirstChunkIdx + (rows.map List.length).sum ≤ responses.length) :
    operator.postprocessRows responses pathFirstChunkIdx rows =
      (rows.zip ((rows.map List.length).splitLengths (responses.drop pathFirstChunkIdx))).mapM operator.combineRow := by
  induction rows generalizing pathFirstChunkIdx with
  | nil => rfl
  | cons pageCounts rows ih =>
    rw [List.map_cons, List.sum_cons] at hlength
    rw [postprocessRows, combineChunks_eq (Nat.zero_add _) (by omega), ih (by omega), List.map_cons,
      List.splitLengths_cons, List.zip_cons_cons, List.mapM_cons, List.drop_drop, Nat.add_zero, String.empty_append]
    unfold combineRow
    by_cases hmissing : none ∈ (responses.drop pathFirstChunkIdx).take pageCounts.length
    · rw [if_pos hmissing, if_pos hmissing]
      rfl
    · rw [if_neg hmissing, if_neg hmissing]
      rfl

theorem combineRow_eq_rowOf {path : Option String} {row : List Nat × List (Option String)} :
    operator.combineRow row = .ok (operator.rowOf path row.1 row.2) ↔ ¬ PathMissing path ∧ none ∉ row.2 := by
  unfold combineRow rowOf
  by_cases hmissing : none ∈ row.2
  · simp [hmissing]
  · by_cases hpath : PathMissing path
    · simp [hmissing, hpath]
    · simp [hmissing, hpath]

end

section
variable {operator : ParsePDF} {files : String → PdfFile} {responses : List (Option String)}

theorem rowMessages_length (path : Option String) :
    (operator.rowMessages files path).1.length = (operator.rowMessages files path).2.length := by
  unfold rowMessages
  cases path with
  | none => rfl
  | some path =>
    dsimp only
    split
    · rfl
    · rw [List.length_map, List.length_map]

/-- There is a message for each chunk. -/
theorem messages_length :
    (operator.buildRequestMessagesBatchAndCounts files).1.length =
      ((operator.buildRequestMessagesBatchAndCounts files).2.map List.length).sum := by
  unfold buildRequestMessagesBatchAndCounts
  rw [List.length_flatMap, List.map_map]
  congr 1
  apply List.map_congr_left
  intro path _
  exact rowMessages_length path

/-- The rows come out right exactly when no path and no response is missing. -/
theorem postprocess_iff
    (hlength : responses.length = (operator.buildRequestMessagesBatchAndCounts files).1.length) :
    operator.postprocess responses (operator.buildRequestMessagesBatchAndCounts files).2 =
        .ok ((operator.input.zip ((operator.buildRequestMessagesBatchAndCounts files).2.zip
          (ownResponses responses (operator.buildRequestMessagesBatchAndCounts files).2))).map fun row =>
            operator.rowOf row.1 row.2.1 row.2.2) ↔
      (∀ path ∈ operator.input, ¬ PathMissing path) ∧ none ∉ responses := by
  rw [messages_length] at hlength
  have hcounts : (operator.buildRequestMessagesBatchAndCounts files).2.length = operator.input.length :=
    List.length_map _
  generalize (operator.buildRequestMessagesBatchAndCounts files).2 = counts at *
  have hown : (ownResponses responses counts).length = counts.length := by
    rw [ownResponses, List.length_splitLengths, List.length_map]
  have hflatten : (ownResponses responses counts).flatten = responses := List.flatten_splitLengths _ _ hlength.le
  have hpost : operator.postprocess responses counts =
      (counts.zip (ownResponses responses counts)).mapM operator.combineRow := by
    rw [postprocess, postprocessRows_eq (by omega), List.drop_zero]
    rfl
  generalize ownResponses responses counts = own at *
  have hzip : (counts.zip own).length = operator.input.length := by
    rw [List.length_zip]
    omega
  have hrows : counts.zip own = (operator.input.zip (counts.zip own)).map Prod.snd := by
    rw [List.map_snd_zip]
    omega
  have hpairs : (counts.zip own).mapM operator.combineRow =
      .ok ((operator.input.zip (counts.zip own)).map fun row => operator.rowOf row.1 row.2.1 row.2.2) ↔
      ∀ row ∈ operator.input.zip (counts.zip own), ¬ PathMissing row.1 ∧ none ∉ row.2.2 := by
    rw [Except.mapM_eq_ok, List.forall₂_map_right_iff]
    conv_lhs =>
      arg 2
      rw [hrows]
    rw [List.forall₂_map_left_iff, List.forall₂_same]
    simp only [combineRow_eq_rowOf]
  rw [hpost, hpairs]
  have hpaths : (operator.input.zip (counts.zip own)).map Prod.fst = operator.input := by
    rw [List.map_fst_zip]
    omega
  have howns : (operator.input.zip (counts.zip own)).map (fun row => row.2.2) = own := by
    have hcomp : (operator.input.zip (counts.zip own)).map (fun row => row.2.2) =
        ((operator.input.zip (counts.zip own)).map Prod.snd).map Prod.snd := by
      rw [List.map_map]
      rfl
    rw [hcomp, ← hrows, List.map_snd_zip]
    omega
  constructor
  · intro h
    refine ⟨fun path hpath => ?_, fun hmissing => ?_⟩
    · rw [← hpaths] at hpath
      obtain ⟨row, hrow, rfl⟩ := List.mem_map.mp hpath
      exact (h row hrow).1
    · rw [← hflatten, List.mem_flatten] at hmissing
      obtain ⟨responses', hmem, hmissing⟩ := hmissing
      rw [← howns] at hmem
      obtain ⟨row, hrow, rfl⟩ := List.mem_map.mp hmem
      exact (h row hrow).2 hmissing
  · rintro ⟨hpresent, hresponses⟩ row hrow
    refine ⟨hpresent row.1 ?_, fun hmissing => hresponses ?_⟩
    · rw [← hpaths]
      exact List.mem_map_of_mem hrow
    · rw [← hflatten, List.mem_flatten]
      refine ⟨row.2.2, ?_, hmissing⟩
      rw [← howns]
      exact List.mem_map_of_mem hrow

end

/-! ## Two documents -/

/-- An operator over some paths. Its model counts characters and puts out 10 tokens. -/
def pdfOperator (input : List (Option String)) : ParsePDF :=
  .new input ⟨.openai, "tiny", ⟨fun tokenizable => match tokenizable with
    | .text s => s.length
    | .messages _ => 0, 100, 10⟩⟩ none false none none none

/-- Four pages of two characters, of which two fit together with a third. -/
def shortPages : PdfFile := ⟨["p1", "p2", "p3", "p4"], fun _ _ => []⟩

/-- A blank page and one of eight characters. -/
def blankPage : PdfFile := ⟨["", "too long"], fun _ _ => []⟩

end ParsePDF

end SemanticOperators

end Fenic
