import Fenic.Lib.Windows
import Fenic.Transcript.Rendering
import Mathlib.Data.List.Infix

/-!
# `Chunking.Splitter` — the recursive text splitter

The string functions that the chunker uses. A word is a maximal run of characters that are not blank; a text is split at the
occurrences of a separator from left to right, each behind the one before it.

A text is split at the first separator of the list that occurs in it. Pieces under the chunk size are buffered and merged into
chunks, with an overlap; a longer piece is split with the separators behind the one that was used, and if there are none it is a
chunk as it is.

A splitter for tokens has its tokenizer, so a length is always found, and the list of separators is not empty where the first one is
taken: the errors for these cases are left out. Lengths are of texts in memory, so a `usize` holds their sums. The length of a piece,
which the source keeps beside it, is the length of the piece.
-/

namespace Fenic

namespace Chunking

open Transcript (Str isWhitespace trim trim_isInfix trim_eq_nil_iff)
open Utf8

/-! ## Words -/

/-- `str::split_whitespace`. -/
def splitWhitespace (text : Str) : List Str :=
  (text.splitOnP isWhitespace).filter (· ≠ [])

def wordCount (text : Str) : Nat :=
  (splitWhitespace text).length

/-- The words of a text behind the one that it continues. -/
def wordsAfter (text : Str) : Nat :=
  ((text.splitOnP isWhitespace).tail.filter (· ≠ [])).length

@[simp] theorem wordCount_nil : wordCount [] = 0 := rfl

@[simp] theorem wordsAfter_nil : wordsAfter [] = 0 := rfl

theorem wordCount_cons (c : Char) (text : Str) :
    wordCount (c :: text) = if isWhitespace c then wordCount text else wordsAfter text + 1 := by
  unfold wordCount splitWhitespace wordsAfter
  rw [List.splitOnP_cons_eq_if_modifyHead]
  split
  next => simp
  next =>
      obtain ⟨word, words, hwords⟩ := List.exists_cons_of_ne_nil (List.splitOnP_ne_nil isWhitespace text)
      simp [hwords]

theorem wordsAfter_cons (c : Char) (text : Str) :
    wordsAfter (c :: text) = if isWhitespace c then wordCount text else wordsAfter text := by
  unfold wordCount splitWhitespace wordsAfter
  rw [List.splitOnP_cons_eq_if_modifyHead]
  split
  next => simp
  next =>
      obtain ⟨word, words, hwords⟩ := List.exists_cons_of_ne_nil (List.splitOnP_ne_nil isWhitespace text)
      simp [hwords]

theorem wordsAfter_le (text : Str) : wordsAfter text ≤ wordCount text := by
  cases text with
  | nil => exact Nat.le_refl 0
  | cons c text =>
    rw [wordCount_cons, wordsAfter_cons]
    split <;> omega

/-- Putting texts behind each other makes no new words. -/
theorem wordCount_append_le (text text' : Str) :
    wordCount (text ++ text') ≤ wordCount text + wordCount text' ∧
      wordsAfter (text ++ text') ≤ wordsAfter text + wordCount text' := by
  induction text with
  | nil => simpa using wordsAfter_le text'
  | cons c text ih =>
    rw [List.cons_append, wordCount_cons, wordsAfter_cons, wordCount_cons, wordsAfter_cons]
    split <;> omega

theorem wordCount_le_append (text text' : Str) :
    wordCount text ≤ wordCount (text ++ text') ∧ wordsAfter text ≤ wordsAfter (text ++ text') := by
  induction text with
  | nil => exact ⟨Nat.zero_le _, Nat.zero_le _⟩
  | cons c text ih =>
    rw [List.cons_append, wordCount_cons, wordsAfter_cons, wordCount_cons, wordsAfter_cons]
    split <;> omega

theorem wordCount_le_append_left (text text' : Str) : wordCount text' ≤ wordCount (text ++ text') := by
  induction text with
  | nil => exact Nat.le_refl _
  | cons c text ih =>
    have hafter : wordCount (text ++ text') ≤ wordsAfter (text ++ text') + 1 := by
      cases text ++ text' with
      | nil => exact Nat.zero_le _
      | cons c text =>
        rw [wordCount_cons, wordsAfter_cons]
        split <;> omega
    rw [List.cons_append, wordCount_cons]
    split <;> omega

theorem wordCount_trim_le (text : Str) : wordCount (trim text) ≤ wordCount text := by
  obtain ⟨before, after, htext⟩ := trim_isInfix text
  calc wordCount (trim text) ≤ wordCount (before ++ trim text) := wordCount_le_append_left before (trim text)
    _ ≤ wordCount (before ++ trim text ++ after) := (wordCount_le_append (before ++ trim text) after).1
    _ = wordCount text := by rw [htext]

theorem byteLen_trim_le (text : Str) : byteLen (trim text) ≤ byteLen text := by
  obtain ⟨before, after, htext⟩ := trim_isInfix text
  have hlen : byteLen before + byteLen (trim text) + byteLen after = byteLen text := by
    rw [← byteLen_append, ← byteLen_append, htext]
  omega

theorem wordCount_singleton_le (c : Char) : wordCount [c] ≤ 1 := by
  rw [wordCount_cons]
  split <;> simp

/-! ## Separators -/

/-- `str::split` at a separator that is not empty, from a place that many characters inside the text. -/
def splitFrom (separator : Str) : Nat → Str → List Str
  | _, [] => [[]]
  | 0, c :: text =>
    if separator <+: c :: text then [] :: splitFrom separator (separator.length - 1) text
    else (splitFrom separator 0 text).modifyHead (c :: ·)
  | skipped + 1, _ :: text => splitFrom separator skipped text

def split (separator text : Str) : List Str :=
  splitFrom separator 0 text

theorem splitFrom_ne_nil (separator : Str) (skipped : Nat) (text : Str) : splitFrom separator skipped text ≠ [] := by
  induction text generalizing skipped with
  | nil =>
    exact List.cons_ne_nil [] []
  | cons c text ih =>
    cases skipped with
    | zero =>
      rw [splitFrom]
      split
      next => exact List.cons_ne_nil [] _
      next =>
          intro hnil
          exact ih 0 (List.modifyHead_eq_nil_iff.mp hnil)
    | succ skipped => exact ih skipped

/-! ## What is kept -/

variable {keep : Char → Bool} {separator : Str}

/-- Splitting loses characters of the separator only. -/
theorem filter_splitFrom (hne : separator ≠ [])
    (hseparator : ∀ c ∈ separator, keep c = false) (skipped : Nat) (text : Str) :
    (splitFrom separator skipped text).flatten.filter keep = (text.drop skipped).filter keep := by
  induction text generalizing skipped with
  | nil =>
    rw [splitFrom, List.drop_nil]
    rfl
  | cons c text ih =>
    cases skipped with
    | zero =>
      rw [splitFrom, List.drop_zero]
      split
      next hprefix =>
          obtain ⟨rest, hrest⟩ := hprefix
          obtain ⟨head, tail, rfl⟩ := List.exists_cons_of_ne_nil hne
          obtain ⟨rfl, rfl⟩ := List.cons.inj hrest
          have htail : tail.filter keep = [] := by
            rw [List.filter_eq_nil_iff]
            intro c hmem
            simp [hseparator c (List.mem_cons_of_mem _ hmem)]
          rw [List.flatten_cons, List.nil_append, ih, List.filter_cons_of_neg (by simp [hseparator head List.mem_cons_self])]
          show ((tail ++ rest).drop tail.length).filter keep = (tail ++ rest).filter keep
          rw [List.drop_left, List.filter_append, htail, List.nil_append]
      next =>
          obtain ⟨piece, pieces, hpieces⟩ := List.exists_cons_of_ne_nil (splitFrom_ne_nil separator 0 text)
          have hrest := ih 0
          rw [hpieces, List.drop_zero] at hrest
          rw [hpieces, List.modifyHead_cons, List.flatten_cons, List.cons_append, List.filter_cons, List.filter_cons,
            ← List.flatten_cons, hrest]
    | succ skipped =>
      exact ih skipped

theorem filter_split (hne : separator ≠ [])
    (hseparator : ∀ c ∈ separator, keep c = false) (text : Str) :
    (split separator text).flatten.filter keep = text.filter keep :=
  filter_splitFrom hne hseparator 0 text

/-- Trimming loses blanks only. -/
theorem filter_trim (hkeep : ∀ c, isWhitespace c = true → keep c = false) (text : Str) :
    (trim text).filter keep = text.filter keep := by
  have hblank : ∀ blanks : Str, (∀ c ∈ blanks, isWhitespace c = true) → blanks.filter keep = [] := by
    intro blanks hblanks
    rw [List.filter_eq_nil_iff]
    intro c hmem
    simp [hkeep c (hblanks c hmem)]
  have hstart : (Transcript.trimStart text).filter keep = text.filter keep := by
    conv_rhs => rw [← List.takeWhile_append_dropWhile (p := isWhitespace) (l := text)]
    rw [List.filter_append, hblank _ (fun c hmem => List.mem_takeWhile_imp hmem), List.nil_append]
    rfl
  have hend : (trim text).filter keep = (Transcript.trimStart text).filter keep := by
    conv_rhs => rw [← List.rdropWhile_append_rtakeWhile (p := isWhitespace) (l := Transcript.trimStart text)]
    rw [List.filter_append, hblank _ (fun c hmem => List.mem_rtakeWhile_imp hmem), List.append_nil]
    rfl
  exact hend.trans hstart

/-- A joined text keeps what its pieces keep, if the separator keeps nothing. -/
theorem filter_intercalate (hseparator : ∀ c ∈ separator, keep c = false)
    (pieces : List Str) : (separator.intercalate pieces).filter keep = pieces.flatMap (·.filter keep) := by
  have hnone : separator.filter keep = [] := by
    rw [List.filter_eq_nil_iff]
    intro c hmem
    simp [hseparator c hmem]
  induction pieces with
  | nil => rfl
  | cons piece pieces ih =>
    cases pieces with
    | nil => simp
    | cons next pieces =>
      rw [List.intercalate_cons_cons, List.filter_append, List.filter_append, hnone, List.append_nil, ih]
      rfl

/-! ## The recursive text splitter -/

open Transcript (Str isWhitespace trim)

def recursiveAsciiOnlyChunkSplitStrings : List Str :=
  [['\n', '\n'], ['\n'], ['.'], [','], [';'], [':'], [' '], ['-'], []]

def recursiveUnicodeChunkSplitStrings : List Str :=
  [['\n', '\n'], ['\n'], ['.'], [','], ['\u200b'], ['\uff0c'], ['\u3001'], ['\uff0e'], ['\u3002'], [';'], [':'], [' '], ['-'], []]

inductive RecursiveChunkingCharacters where
  | ascii
  | unicode
  | custom (chars : List Str)
  deriving DecidableEq

inductive ChunkingError where
  | chunkOverlapTooLarge
  | tokenizerError (message : String)
  deriving DecidableEq

inductive RecursiveChunkLengthFunction where
  | characterCount
  | wordCount
  | tokenCount
  deriving DecidableEq

structure TextSplitter (Token : Type) where
  chunkingCharacters : RecursiveChunkingCharacters
  chunkLengthFunction : RecursiveChunkLengthFunction
  chunkSize : Nat
  chunkOverlap : Nat
  tokenizer : Option (Str → List Token)
  overlap_lt_size : chunkOverlap < chunkSize
  tokenizer_isSome : chunkLengthFunction = .tokenCount → tokenizer.isSome

variable {Token : Type}

namespace TextSplitter

/-- `TextSplitter::new`, with what loading the tokenizer gives. -/
def new (cl100kBase : Except String (Str → List Token)) (chunkingCharacters : RecursiveChunkingCharacters)
    (chunkLengthFunction : RecursiveChunkLengthFunction) (chunkSize chunkOverlap : Nat) :
    Except ChunkingError (TextSplitter Token) :=
  if hoverlap : chunkOverlap < chunkSize then
    match chunkLengthFunction with
    | .tokenCount =>
      match cl100kBase with
      | .ok tokenizer =>
        .ok ⟨chunkingCharacters, .tokenCount, chunkSize, chunkOverlap, some tokenizer, hoverlap, fun _ => rfl⟩
      | .error e => .error (.tokenizerError e)
    | .characterCount => .ok ⟨chunkingCharacters, .characterCount, chunkSize, chunkOverlap, none, hoverlap, nofun⟩
    | .wordCount => .ok ⟨chunkingCharacters, .wordCount, chunkSize, chunkOverlap, none, hoverlap, nofun⟩
  else .error .chunkOverlapTooLarge

variable (splitter : TextSplitter Token)

def chunkLength (chunk : Str) : Nat :=
  match hfunction : splitter.chunkLengthFunction with
  | .characterCount => byteLen chunk
  | .wordCount => (splitWhitespace chunk).length
  | .tokenCount => (splitter.tokenizer.get (splitter.tokenizer_isSome hfunction) chunk).length

def mergeChunk (chunkContents : List Str) (separator : Str) : Option Str :=
  let text := trim (separator.intercalate chunkContents)
  if text.isEmpty then none else some text

/-- The loop that takes pieces from the front of the chunk, for the overlap: what is left, and its length. -/
def overlapContents (splitLength separatorNeeded separatorLen : Nat) : List Str → Nat → List Str × Nat
  | [], currentChunkLength => ([], currentChunkLength)
  | first :: rest, currentChunkLength =>
    if splitter.chunkOverlap < currentChunkLength ∨
        (splitter.chunkSize < currentChunkLength + splitLength + separatorNeeded ∧ 0 < currentChunkLength) then
      let separatorLenForFirst := if rest.isEmpty then 0 else separatorLen
      overlapContents splitLength separatorNeeded separatorLen rest
        (currentChunkLength - (splitter.chunkLength first + separatorLenForFirst))
    else (first :: rest, currentChunkLength)

/-- The loop of `merge_splits` over the pieces, with the contents of the open chunk and their length. -/
def mergeLoop (separator : Str) (separatorLen : Nat) : List Str → List Str → Nat → List Str
  | [], currentChunkContents, _ =>
    if currentChunkContents.isEmpty then [] else (mergeChunk currentChunkContents separator).toList
  | s :: splits, currentChunkContents, currentChunkLength =>
    let splitLength := splitter.chunkLength s
    let separatorNeeded := if currentChunkContents.isEmpty then 0 else separatorLen
    if splitter.chunkSize < currentChunkLength + splitLength + separatorNeeded ∧ ¬ currentChunkContents.isEmpty then
      let kept := splitter.overlapContents splitLength separatorNeeded separatorLen currentChunkContents currentChunkLength
      let separatorLenForTotal := if kept.1.isEmpty then 0 else separatorLen
      (mergeChunk currentChunkContents separator).toList ++
        mergeLoop separator separatorLen splits (kept.1 ++ [s]) (kept.2 + (splitLength + separatorLenForTotal))
    else
      let separatorLenForTotal := if currentChunkContents.isEmpty then 0 else separatorLen
      mergeLoop separator separatorLen splits (currentChunkContents ++ [s])
        (currentChunkLength + (splitLength + separatorLenForTotal))

def mergeSplits (splits : List Str) (separator : Str) : List Str :=
  let separatorLen := if separator.isEmpty then 0 else splitter.chunkLength separator
  splitter.mergeLoop separator separatorLen splits [] 0

/-- The pieces of a text between the separators, or its characters, without the empty ones. -/
def pieces (separator text : Str) : List Str :=
  (if separator.isEmpty then text.map ([·]) else split separator text).filter (¬ ·.isEmpty)

/-- The buffered pieces are merged into chunks. -/
def flush (validSplits : List Str) (separator : Str) : List Str :=
  if validSplits.isEmpty then [] else splitter.mergeSplits validSplits separator

/-- The loop of `split_text_recursive` over the pieces, with the buffered ones and what is done with a piece that is too long. -/
def splitLoop (separator : Str) (oversized : Str → List Str) : List Str → List Str → List Str
  | [], validSplits => splitter.flush validSplits separator
  | s :: splits, validSplits =>
    if splitter.chunkLength s < splitter.chunkSize then splitLoop separator oversized splits (validSplits ++ [s])
    else splitter.flush validSplits separator ++ oversized s ++ splitLoop separator oversized splits []

/-- `split_text_recursive` with the separators from a place of the list on; the first one of the whole list is used if none of them
occurs. -/
def splitAtFirst (first : Str) : List Str → Str → List Str
  | [], text => splitter.splitLoop first ([·]) (pieces first text) []
  | s :: rest, text =>
    if s.isEmpty then splitter.splitLoop s ([·]) (pieces s text) []
    else if s <:+: text then
      splitter.splitLoop s
        (fun piece =>
          match rest with
          -- no separators are left: the piece is a chunk as it is
          | [] => [piece]
          | next :: _ => splitAtFirst next rest piece)
        (pieces s text) []
    else splitAtFirst first rest text

def splitTextRecursive (text : Str) : List Str → List Str
  | [] => [text]
  | first :: rest => splitter.splitAtFirst first (first :: rest) text

def separators : List Str :=
  match splitter.chunkingCharacters with
  | .ascii => recursiveAsciiOnlyChunkSplitStrings
  | .unicode => recursiveUnicodeChunkSplitStrings
  | .custom chars => chars

/-- `recursively_chunk_text`. -/
def recursivelyChunkText (text : Str) : List Str :=
  let trimmedText := trim text
  if trimmedText.isEmpty then []
  else
    let chunks := splitter.splitTextRecursive trimmedText splitter.separators
    (chunks.filter fun chunk => ¬ (trim chunk).isEmpty).map trim

/-! ## The chunks as windows -/

variable {splitter}

theorem chunkLength_characterCount (hfunction : splitter.chunkLengthFunction = .characterCount) (chunk : Str) :
    splitter.chunkLength chunk = byteLen chunk := by
  unfold chunkLength
  split <;> simp_all

theorem chunkLength_wordCount (hfunction : splitter.chunkLengthFunction = .wordCount) (chunk : Str) :
    splitter.chunkLength chunk = wordCount chunk := by
  unfold chunkLength
  split
  next hcharacter => cases hfunction.symm.trans hcharacter
  next => rfl
  next htoken => cases hfunction.symm.trans htoken

theorem separatorAfter_isEmpty (separatorLen : Nat) (contents : List Str) :
    (if contents.isEmpty then 0 else separatorLen) = Windows.separatorAfter separatorLen contents := by
  cases contents with
  | nil => rfl
  | cons first rest => rfl

/-- The loop for the overlap shrinks the window. -/
theorem overlapContents_eq (splitLength separatorNeeded separatorLen : Nat) (contents : List Str) (current : Nat) :
    splitter.overlapContents splitLength separatorNeeded separatorLen contents current =
      Windows.shrink splitter.chunkLength separatorLen splitter.chunkSize splitter.chunkOverlap
        (splitLength + separatorNeeded) contents current := by
  induction contents generalizing current with
  | nil => rfl
  | cons first rest ih =>
    rw [overlapContents, Windows.shrink, separatorAfter_isEmpty, ← Nat.add_assoc, ih]

/-- The merged chunks are the windows of the pieces, joined and trimmed. -/
theorem mergeLoop_eq (separator : Str) (separatorLen : Nat) (splits contents : List Str) (current : Nat) :
    splitter.mergeLoop separator separatorLen splits contents current =
      (Windows.pack splitter.chunkLength separatorLen splitter.chunkSize splitter.chunkOverlap contents splits current).filterMap
        (mergeChunk · separator) := by
  induction splits generalizing contents current with
  | nil =>
    rw [mergeLoop, Windows.pack]
    cases contents with
    | nil => rfl
    | cons first rest => cases hchunk : mergeChunk (first :: rest) separator <;> simp [hchunk]
  | cons s splits ih =>
    rw [mergeLoop, Windows.pack]
    simp only [separatorAfter_isEmpty, overlapContents_eq, ih]
    simp only [List.isEmpty_iff]
    split
    next => cases hchunk : mergeChunk contents separator <;> simp [hchunk]
    next => rfl

theorem mergeSplits_eq (splits : List Str) (separator : Str) :
    splitter.mergeSplits splits separator =
      (Windows.windows splitter.chunkLength (if separator.isEmpty then 0 else splitter.chunkLength separator)
        splitter.chunkSize splitter.chunkOverlap splits).filterMap (mergeChunk · separator) :=
  mergeLoop_eq separator _ splits [] 0

end TextSplitter

end Chunking

end Fenic
