import Fenic.SemanticOperators.Requests

/-!
# `SemanticOperators.PdfChunks` — the page ranges of a PDF

`ParsePDF._get_file_chunks` goes through the pages with one open range, and closes it before a page that does not fit:
because the range is full, or because the tokens, taken one and a half times, would exceed what the model can put out.
The ranges are a partition of the pages into runs of three at most (`chunks_cover`, `chunks_short`).

An open range without tokens is taken for an empty one. If it holds blank pages, a page that is too large by itself is put
to them, and the range exceeds the bound (`chunks_bounded_iff`).
-/

namespace Fenic

namespace SemanticOperators

/-- A PDF file, as far as it is read: the text of each page, and the file that some of its pages make. -/
structure PdfFile where
  pages : List String
  insertPdf : Nat → Nat → List UInt8

/-- A file, with the tokens of its pages. -/
structure PdfDocument where
  pageTokens : List Nat
  insertPdf : Nat → Nat → List UInt8

/-- `self.model.count_tokens(text)` for each page. -/
def LanguageModel.document (model : LanguageModel) (file : PdfFile) : PdfDocument where
  pageTokens := file.pages.map fun text => model.countTokens (.text text)
  insertPdf := file.insertPdf

/-- A file of a request. The bytes are missing for the whole file. -/
structure PdfChunk where
  file : LMRequestFile
  pdfChunkBytes : Option (List UInt8)

namespace ParsePDF

/-- `PDF_MAX_PAGES_CHUNK`. -/
def pdfMaxPagesChunk : Nat := 3

/-- The bound holds for some tokens, times `PDF_MARKDOWN_OUTPUT_TOKEN_MULTIPLIER`. The product is exact in a double. -/
def WithinOutput (maxOutputTokens tokens : Nat) : Prop := tokens * 3 ≤ maxOutputTokens * 2

instance (maxOutputTokens tokens : Nat) : Decidable (WithinOutput maxOutputTokens tokens) :=
  inferInstanceAs (Decidable (tokens * 3 ≤ maxOutputTokens * 2))

/-- The variables of the loop. -/
structure OpenRange where
  startPage : Nat
  tokens : Nat
  pageCount : Nat

namespace OpenRange

variable (maxOutputTokens : Nat) (range : OpenRange) (pageTokens : Nat)

def wouldExceedTokens : Bool := 0 < range.tokens ∧ ¬ WithinOutput maxOutputTokens (range.tokens + pageTokens)

def wouldExceedPageLimit : Bool := pdfMaxPagesChunk ≤ range.pageCount

def closes : Bool := range.wouldExceedTokens maxOutputTokens pageTokens || range.wouldExceedPageLimit

/-- The range after a page. -/
def next (pageNum : Nat) : OpenRange :=
  if range.closes maxOutputTokens pageTokens then ⟨pageNum, pageTokens, 1⟩
  else { range with tokens := range.tokens + pageTokens, pageCount := range.pageCount + 1 }

end OpenRange

section
variable (path : String) (doc : PdfDocument) (maxOutputTokens : Nat)

/-- A range with its pages as a file of their own. -/
def pagesChunk (firstPage lastPage : Nat) : PdfChunk :=
  ⟨⟨path, (firstPage, lastPage)⟩, some (doc.insertPdf firstPage lastPage)⟩

/-- The loop from a page on, and the last range. -/
def chunkLoop : Nat → OpenRange → List Nat → List PdfChunk
  | totalPages, range, [] =>
    if range.startPage < totalPages then
      if range.startPage = 0 then [⟨⟨path, (0, totalPages - 1)⟩, none⟩]
      else [pagesChunk path doc range.startPage (totalPages - 1)]
    else []
  | pageNum, range, pageTokens :: rest =>
    if range.closes maxOutputTokens pageTokens then
      pagesChunk path doc range.startPage (pageNum - 1) ::
        chunkLoop (pageNum + 1) (range.next maxOutputTokens pageTokens pageNum) rest
    else chunkLoop (pageNum + 1) (range.next maxOutputTokens pageTokens pageNum) rest

/-- `_get_file_chunks`. -/
def getFileChunks : List PdfChunk := chunkLoop path doc maxOutputTokens 0 ⟨0, 0, 0⟩ doc.pageTokens

end

/-! ## What a range is to be -/

/-- The pages of a chunk. -/
def chunkPages (chunk : PdfChunk) : List Nat :=
  List.range' chunk.file.pageRange.1 (chunk.file.pageRange.2 + 1 - chunk.file.pageRange.1)

def chunkTokens (doc : PdfDocument) (chunk : PdfChunk) : Nat :=
  ((doc.pageTokens.drop chunk.file.pageRange.1).take (chunk.file.pageRange.2 + 1 - chunk.file.pageRange.1)).sum

/-- Within the token bound, or one page. -/
def ChunkBounded (doc : PdfDocument) (maxOutputTokens : Nat) (chunk : PdfChunk) : Prop :=
  WithinOutput maxOutputTokens (chunkTokens doc chunk) ∨ chunk.file.pageRange.1 = chunk.file.pageRange.2

/-- The chunks are a partition of the pages into runs, none empty and none too long, and within the token bound. -/
structure ChunksOf (path : String) (doc : PdfDocument) (maxOutputTokens : Nat) (chunks : List PdfChunk) : Prop where
  samePath : ∀ chunk ∈ chunks, chunk.file.path = path
  cover : chunks.flatMap chunkPages = List.range doc.pageTokens.length
  ordered : ∀ chunk ∈ chunks, chunk.file.pageRange.1 ≤ chunk.file.pageRange.2
  short : ∀ chunk ∈ chunks, chunk.file.pageRange.2 + 1 - chunk.file.pageRange.1 ≤ pdfMaxPagesChunk
  content : ∀ chunk ∈ chunks, chunk.pdfChunkBytes = some (doc.insertPdf chunk.file.pageRange.1 chunk.file.pageRange.2) ∨
    chunk.pdfChunkBytes = none ∧ chunkPages chunk = List.range doc.pageTokens.length
  bounded : ∀ chunk ∈ chunks, ChunkBounded doc maxOutputTokens chunk

/-- A page that is put to blank pages alone is within the bound by itself. -/
def BlankRangesFit (maxOutputTokens : Nat) : Nat → OpenRange → List Nat → Prop
  | _, _, [] => True
  | pageNum, range, pageTokens :: rest =>
    (range.tokens = 0 → 0 < range.pageCount → range.pageCount < pdfMaxPagesChunk → WithinOutput maxOutputTokens pageTokens) ∧
      BlankRangesFit maxOutputTokens (pageNum + 1) (range.next maxOutputTokens pageTokens pageNum) rest

instance decidableBlankRangesFit (maxOutputTokens : Nat) :
    (pageNum : Nat) → (range : OpenRange) → (rest : List Nat) → Decidable (BlankRangesFit maxOutputTokens pageNum range rest)
  | _, _, [] => inferInstanceAs (Decidable True)
  | pageNum, range, pageTokens :: rest =>
    have := decidableBlankRangesFit maxOutputTokens (pageNum + 1) (range.next maxOutputTokens pageTokens pageNum) rest
    inferInstanceAs (Decidable (_ ∧ _))

/-! ## The loop -/

/-- The open range ends before the page, and its counters are those of its pages. -/
structure OpenRange.Counts (range : OpenRange) (before : List Nat) : Prop where
  start : range.startPage + range.pageCount = before.length
  tokens : range.tokens = (before.drop range.startPage).sum
  short : range.pageCount ≤ pdfMaxPagesChunk

theorem OpenRange.Counts.next {range : OpenRange} {before : List Nat} (h : range.Counts before) (maxOutputTokens pageTokens : Nat) :
    (range.next maxOutputTokens pageTokens before.length).Counts (before ++ [pageTokens]) := by
  unfold OpenRange.next
  split
  · refine ⟨by simp, ?_, show 1 ≤ pdfMaxPagesChunk by decide⟩
    simp
  next hopen =>
    have hlimit : ¬ pdfMaxPagesChunk ≤ range.pageCount := by
      intro hfull
      apply hopen
      simp [OpenRange.closes, OpenRange.wouldExceedPageLimit, hfull]
    refine ⟨?_, ?_, by dsimp only; omega⟩
    · rw [List.length_append, List.length_singleton, ← h.start]
      dsimp only
      omega
    · have hle : range.startPage ≤ before.length := by
        have hstart := h.start
        omega
      rw [List.drop_append_of_le_length hle, List.sum_append, ← h.tokens]
      simp

section
variable {path : String} {doc : PdfDocument} {maxOutputTokens : Nat} {range : OpenRange} {before rest : List Nat}

/-- The pages of the open range are those up to the page. -/
theorem open_pages (h : range.Counts before) (hpos : 0 < range.pageCount) (bytes : Option (List UInt8)) :
    chunkPages ⟨⟨path, (range.startPage, before.length - 1)⟩, bytes⟩ = List.range' range.startPage range.pageCount := by
  have hstart := h.start
  unfold chunkPages
  rw [show before.length - 1 + 1 - range.startPage = range.pageCount by omega]

theorem open_tokens (h : range.Counts before) (hpos : 0 < range.pageCount) (hpages : doc.pageTokens = before ++ rest)
    (bytes : Option (List UInt8)) :
    chunkTokens doc ⟨⟨path, (range.startPage, before.length - 1)⟩, bytes⟩ = range.tokens := by
  have hstart := h.start
  have hle : range.startPage ≤ before.length := by omega
  unfold chunkTokens
  dsimp only
  rw [hpages, h.tokens, List.drop_append_of_le_length hle, List.take_append_of_le_length, List.take_of_length_le]
  · rw [List.length_drop]
    omega
  · rw [List.length_drop]
    omega

/-- A page closes a range only if the range has pages. -/
theorem pageCount_pos_of_closes (h : range.Counts before) {pageTokens : Nat} (hcloses : range.closes maxOutputTokens pageTokens) :
    0 < range.pageCount := by
  by_contra hzero
  have hcount : range.pageCount = 0 := by omega
  have hstart := h.start
  have htokens : range.tokens = 0 := by
    rw [h.tokens, show range.startPage = before.length by omega, List.drop_length, List.sum_nil]
  simp [OpenRange.closes, OpenRange.wouldExceedTokens, OpenRange.wouldExceedPageLimit, htokens, hcount,
    pdfMaxPagesChunk] at hcloses

/-- The last range, whichever of the two files is made of it. -/
theorem chunkLoop_nil (h : range.Counts before) :
    chunkLoop path doc maxOutputTokens before.length range [] =
      if 0 < range.pageCount then
        [⟨⟨path, (range.startPage, before.length - 1)⟩,
          if range.startPage = 0 then none else some (doc.insertPdf range.startPage (before.length - 1))⟩]
      else [] := by
  have hstart := h.start
  have hiff : range.startPage < before.length ↔ 0 < range.pageCount := by omega
  rw [chunkLoop]
  simp only [hiff, pagesChunk]
  by_cases hzero : range.startPage = 0
  · simp [hzero]
  · simp [hzero]

/-- The range that a page closes, and the rest. -/
theorem chunkLoop_closes {pageTokens : Nat} (hcloses : range.closes maxOutputTokens pageTokens) :
    chunkLoop path doc maxOutputTokens before.length range (pageTokens :: rest) =
      ⟨⟨path, (range.startPage, before.length - 1)⟩, some (doc.insertPdf range.startPage (before.length - 1))⟩ ::
        chunkLoop path doc maxOutputTokens (before ++ [pageTokens]).length
          (range.next maxOutputTokens pageTokens before.length) rest := by
  rw [chunkLoop, if_pos hcloses, List.length_append]
  rfl

theorem chunkLoop_joins {pageTokens : Nat} (hjoins : ¬ range.closes maxOutputTokens pageTokens) :
    chunkLoop path doc maxOutputTokens before.length range (pageTokens :: rest) =
      chunkLoop path doc maxOutputTokens (before ++ [pageTokens]).length
        (range.next maxOutputTokens pageTokens before.length) rest := by
  rw [chunkLoop, if_neg hjoins, List.length_append]
  rfl

/-- Each chunk is an open range with pages, as it was when it was closed. -/
theorem mem_chunkLoop {chunk : PdfChunk} (h : range.Counts before) (hpages : doc.pageTokens = before ++ rest)
    (hmem : chunk ∈ chunkLoop path doc maxOutputTokens before.length range rest) :
    ∃ (range' : OpenRange) (before' : List Nat) (bytes : Option (List UInt8)), range'.Counts before' ∧ 0 < range'.pageCount ∧
      (bytes = some (doc.insertPdf range'.startPage (before'.length - 1)) ∨
        bytes = none ∧ range'.startPage = 0 ∧ before' = doc.pageTokens) ∧
      chunk = ⟨⟨path, (range'.startPage, before'.length - 1)⟩, bytes⟩ := by
  induction rest generalizing before range with
  | nil =>
    rw [chunkLoop_nil h] at hmem
    split at hmem
    next hpos =>
      rw [List.mem_singleton] at hmem
      refine ⟨range, before, _, h, hpos, ?_, hmem⟩
      by_cases hzero : range.startPage = 0
      · rw [if_pos hzero]
        exact Or.inr ⟨rfl, hzero, (hpages.trans (List.append_nil before)).symm⟩
      · rw [if_neg hzero]
        exact Or.inl rfl
    · exact absurd hmem List.not_mem_nil
  | cons pageTokens rest ih =>
    have hpages' : doc.pageTokens = (before ++ [pageTokens]) ++ rest := by
      rw [hpages, List.append_assoc]
      rfl
    by_cases hcloses : range.closes maxOutputTokens pageTokens
    · rw [chunkLoop_closes hcloses, List.mem_cons] at hmem
      rcases hmem with hmem | hmem
      · exact ⟨range, before, _, h, pageCount_pos_of_closes h hcloses, Or.inl rfl, hmem⟩
      · exact ih (h.next _ _) hpages' hmem
    · rw [chunkLoop_joins hcloses] at hmem
      exact ih (h.next _ _) hpages' hmem

/-- The chunks from a page on hold the pages of the open range and all that follow. -/
theorem chunkLoop_cover (h : range.Counts before) :
    (chunkLoop path doc maxOutputTokens before.length range rest).flatMap chunkPages =
      List.range' range.startPage (range.pageCount + rest.length) := by
  induction rest generalizing before range with
  | nil =>
    rw [chunkLoop_nil h]
    split
    next hpos => rw [List.flatMap_singleton, open_pages h hpos, List.length_nil, Nat.add_zero]
    next hzero =>
      rw [show range.pageCount = 0 by omega]
      rfl
  | cons pageTokens rest ih =>
    have hstart := h.start
    by_cases hcloses : range.closes maxOutputTokens pageTokens
    · have hnext : range.next maxOutputTokens pageTokens before.length = ⟨before.length, pageTokens, 1⟩ := if_pos hcloses
      rw [chunkLoop_closes hcloses, List.flatMap_cons, open_pages h (pageCount_pos_of_closes h hcloses), ih (h.next _ _), hnext]
      show _ ++ List.range' before.length (1 + rest.length) = _
      rw [← hstart, List.range'_append_1, List.length_cons, Nat.add_comm 1]
    · have hnext : range.next maxOutputTokens pageTokens before.length =
          { range with tokens := range.tokens + pageTokens, pageCount := range.pageCount + 1 } := if_neg hcloses
      rw [chunkLoop_joins hcloses, ih (h.next _ _), hnext, List.length_cons]
      show List.range' range.startPage (range.pageCount + 1 + rest.length) = _
      rw [Nat.add_assoc, Nat.add_comm 1]

/-- The open range is bounded as it stands. -/
def OpenRange.Bounded (maxOutputTokens : Nat) (range : OpenRange) : Prop :=
  WithinOutput maxOutputTokens range.tokens ∨ range.pageCount ≤ 1

theorem open_bounded_iff (h : range.Counts before) (hpos : 0 < range.pageCount) (hpages : doc.pageTokens = before ++ rest)
    (bytes : Option (List UInt8)) :
    ChunkBounded doc maxOutputTokens ⟨⟨path, (range.startPage, before.length - 1)⟩, bytes⟩ ↔ range.Bounded maxOutputTokens := by
  have hstart := h.start
  unfold ChunkBounded OpenRange.Bounded
  rw [open_tokens h hpos hpages]
  apply or_congr Iff.rfl
  dsimp only
  omega

/-- A page that joins keeps the bound, except for one that is too large next to blank pages alone. -/
theorem next_bounded_iff {pageTokens : Nat} (hjoins : ¬ range.closes maxOutputTokens pageTokens) :
    (range.next maxOutputTokens pageTokens before.length).Bounded maxOutputTokens ↔
      range.Bounded maxOutputTokens ∧ (range.tokens = 0 → 0 < range.pageCount → range.pageCount < pdfMaxPagesChunk →
        WithinOutput maxOutputTokens pageTokens) := by
  have hnext : range.next maxOutputTokens pageTokens before.length =
      { range with tokens := range.tokens + pageTokens, pageCount := range.pageCount + 1 } := if_neg hjoins
  have hopen : ¬ (0 < range.tokens ∧ ¬ WithinOutput maxOutputTokens (range.tokens + pageTokens)) ∧
      ¬ pdfMaxPagesChunk ≤ range.pageCount := by
    simpa [OpenRange.closes, OpenRange.wouldExceedTokens, OpenRange.wouldExceedPageLimit] using hjoins
  rw [hnext]
  unfold OpenRange.Bounded WithinOutput at *
  dsimp only
  omega

theorem chunkLoop_bounded_iff (h : range.Counts before) (hpages : doc.pageTokens = before ++ rest) :
    (∀ chunk ∈ chunkLoop path doc maxOutputTokens before.length range rest, ChunkBounded doc maxOutputTokens chunk) ↔
      range.Bounded maxOutputTokens ∧ BlankRangesFit maxOutputTokens before.length range rest := by
  induction rest generalizing before range with
  | nil =>
    rw [chunkLoop_nil h]
    split
    next hpos =>
      rw [List.forall_mem_singleton, open_bounded_iff h hpos hpages]
      exact ⟨fun hbounded => ⟨hbounded, trivial⟩, And.left⟩
    next hzero =>
      have hbounded : range.Bounded maxOutputTokens := Or.inr (by omega)
      exact iff_of_true (fun chunk hmem => absurd hmem List.not_mem_nil) ⟨hbounded, trivial⟩
  | cons pageTokens rest ih =>
    have hpages' : doc.pageTokens = (before ++ [pageTokens]) ++ rest := by
      rw [hpages, List.append_assoc]
      rfl
    by_cases hcloses : range.closes maxOutputTokens pageTokens
    · have hpos := pageCount_pos_of_closes h hcloses
      rw [chunkLoop_closes hcloses, List.forall_mem_cons, open_bounded_iff h hpos hpages, ih (h.next _ _) hpages',
        List.length_append]
      have hnext : (range.next maxOutputTokens pageTokens before.length).Bounded maxOutputTokens := by
        rw [show range.next maxOutputTokens pageTokens before.length = ⟨before.length, pageTokens, 1⟩ from if_pos hcloses]
        exact Or.inr (Nat.le_refl 1)
      -- a range that closes has tokens, or it is full
      have hfits : range.tokens = 0 → 0 < range.pageCount → range.pageCount < pdfMaxPagesChunk →
          WithinOutput maxOutputTokens pageTokens := by
        intro htokens _ hshort
        simp [OpenRange.closes, OpenRange.wouldExceedTokens, OpenRange.wouldExceedPageLimit, htokens] at hcloses
        omega
      constructor
      · rintro ⟨hbounded, -, hrest⟩
        exact ⟨hbounded, hfits, hrest⟩
      · rintro ⟨hbounded, -, hrest⟩
        exact ⟨hbounded, hnext, hrest⟩
    · rw [chunkLoop_joins hcloses, ih (h.next _ _) hpages', next_bounded_iff hcloses, List.length_append, and_assoc]
      rfl

end

theorem counts_empty : (⟨0, 0, 0⟩ : OpenRange).Counts [] := ⟨rfl, rfl, Nat.zero_le _⟩

section
variable {path : String} {doc : PdfDocument} {maxOutputTokens : Nat}

/-- Whatever the pages are, only the token bound can fail. -/
theorem chunksOf_iff :
    ChunksOf path doc maxOutputTokens (getFileChunks path doc maxOutputTokens) ↔
      BlankRangesFit maxOutputTokens 0 ⟨0, 0, 0⟩ doc.pageTokens := by
  have hbounded : (∀ chunk ∈ getFileChunks path doc maxOutputTokens, ChunkBounded doc maxOutputTokens chunk) ↔
      OpenRange.Bounded maxOutputTokens ⟨0, 0, 0⟩ ∧ BlankRangesFit maxOutputTokens 0 ⟨0, 0, 0⟩ doc.pageTokens :=
    chunkLoop_bounded_iff counts_empty (List.nil_append doc.pageTokens).symm
  constructor
  · intro h
    exact (hbounded.mp h.bounded).2
  · intro hfit
    have hcover : (getFileChunks path doc maxOutputTokens).flatMap chunkPages =
        List.range' 0 (0 + doc.pageTokens.length) := chunkLoop_cover counts_empty
    have hmem : ∀ chunk ∈ getFileChunks path doc maxOutputTokens, _ := fun chunk hchunk =>
      mem_chunkLoop counts_empty (List.nil_append doc.pageTokens).symm hchunk
    refine ⟨?_, ?_, ?_, ?_, ?_, hbounded.mpr ⟨Or.inr (Nat.zero_le 1), hfit⟩⟩
    · intro chunk hchunk
      obtain ⟨_, _, _, -, -, -, rfl⟩ := hmem chunk hchunk
      rfl
    · rw [hcover, Nat.zero_add, List.range_eq_range']
    · intro chunk hchunk
      obtain ⟨range, before, _, hcounts, hpos, -, rfl⟩ := hmem chunk hchunk
      have hstart := hcounts.start
      dsimp only
      omega
    · intro chunk hchunk
      obtain ⟨range, before, _, hcounts, hpos, -, rfl⟩ := hmem chunk hchunk
      have hstart := hcounts.start
      have hshort := hcounts.short
      dsimp only
      omega
    · intro chunk hchunk
      obtain ⟨range, before, bytes, hcounts, hpos, hbytes, rfl⟩ := hmem chunk hchunk
      rcases hbytes with rfl | ⟨rfl, hzero, rfl⟩
      · exact Or.inl rfl
      · right
        refine ⟨rfl, ?_⟩
        have hstart := hcounts.start
        rw [open_pages hcounts hpos, hzero, List.range_eq_range', ← hstart, hzero, Nat.zero_add]

end

end ParsePDF

end SemanticOperators

end Fenic
