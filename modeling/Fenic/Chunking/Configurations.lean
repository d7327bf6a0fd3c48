import Fenic.Chunking.Splitter
import Fenic.Lib.Rounding
import Fenic.Lib.SlidingWindow
import Fenic.TextExtract.Reader
import Mathlib.Data.Rat.Floor
import Mathlib.Tactic.IntervalCases
import Mathlib.Tactic.NormNum

/-!
# `Chunking.Configurations` — when a configuration is chunked at all

`text.chunk` cuts the tokens, words or characters of a text into windows, and `text.recursive_chunk` hands its configuration to
the recursive splitter. Either derives the overlap from a percentage of the size, in floats and in an order of its own, and rounds
it: half of a unit goes to the even number.

The overlap must be below the size: a window moves by their difference, and the splitter refuses anything else. A size of `n`
with `p` percent has an overlap of `n` after rounding when what is left, `n * (100 - p) / 100`, is under one half, and for an
even `n` when it is one half. The floats in between are near enough never to change this, in either order of the operations.
-/

namespace Fenic

namespace Chunking

open Transcript (Str)

/-! ## Configurations -/

/-- `TextChunkExprConfiguration`, as it is validated. -/
structure TextChunkExprConfiguration where
  desiredChunkSize : Nat
  chunkOverlapPercentage : Nat
  chunkLengthFunctionName : RecursiveChunkLengthFunction
  size_pos : 0 < desiredChunkSize
  percentage_lt : chunkOverlapPercentage < 100

inductive ChunkCharacterSet where
  | ascii
  | unicode
  | custom
  deriving DecidableEq

/-- `RecursiveTextChunkExprConfiguration`. -/
structure RecursiveTextChunkExprConfiguration extends TextChunkExprConfiguration where
  chunkingCharacterSetName : ChunkCharacterSet
  chunkingCharacterSetCustomCharacters : Option (List Str)

inductive ChunkError where
  /-- An integer that is too large for a float. -/
  | overflowError
  /-- `range` with a step of zero. -/
  | zeroStep
  /-- The text of a special token in what is encoded. -/
  | specialToken
  /-- Arguments that the plugin does not read. -/
  | invalidKwargs
  /-- `CustomCharactersRequired`. -/
  | customCharactersRequired
  | splitter (e : ChunkingError)

/-! ## The overlap -/

/-- An integer as a float. -/
def toFloat (n : Nat) : Except ChunkError Rat :=
  if Rounding.nearest 53 (n : Rat) < 2 ^ 1024 then .ok (Rounding.nearest 53 (n : Rat)) else .error .overflowError

/-- `round(chunk_overlap_percentage * (desired_chunk_size / 100.0))`. -/
def overlapOfSize (percentage size : Nat) : Except ChunkError Int := do
  let size ← toFloat size
  return Rounding.halfEven (Rounding.nearest 53 ((percentage : Rat) * Rounding.nearest 53 (size / 100)))

/-- `round(desired_chunk_size * (chunk_overlap_percentage / 100.0))`. -/
def overlapOfPercentage (percentage size : Nat) : Except ChunkError Int := do
  let size ← toFloat size
  return Rounding.halfEven (Rounding.nearest 53 (size * Rounding.nearest 53 ((percentage : Rat) / 100)))

/-! ## The tokenizer and the plugin -/

/-- `cl100k_base`: the tokens of a text have its bytes between them, and bytes are decoded with replacement characters where they
    are no text. -/
structure Tiktoken (Token : Type) where
  encodeOrdinary : Str → List Token
  tokenBytes : Token → List UInt8
  decodeUtf8 : List UInt8 → Str
  specialTokens : List Str
  decode_encode : ∀ text, decodeUtf8 (Utf8Bytes.encode text) = text
  bytes_encodeOrdinary : ∀ text, (encodeOrdinary text).flatMap tokenBytes = Utf8Bytes.encode text
  bytes_ne_nil : ∀ token, tokenBytes token ≠ []

/-- The numbers that the plugin reads as `usize`: whatever is below one that it reads, and none from 2^64 on. -/
structure PluginKwargs where
  reads : Nat → Bool
  reads_of_le : ∀ m n, m ≤ n → reads n → reads m
  lt_of_reads : ∀ n, reads n → n < 2 ^ 64

section
variable {Token : Type} (encoding : Tiktoken Token)

namespace Tiktoken

/-- A special token occurs in the text. -/
def Special (text : Str) : Prop := ∃ special ∈ encoding.specialTokens, special <:+: text

instance (text : Str) : Decidable (encoding.Special text) :=
  inferInstanceAs (Decidable (∃ special ∈ encoding.specialTokens, special <:+: text))

/-- `encode`, which refuses special tokens. -/
def encode (text : Str) : Except ChunkError (List Token) :=
  if encoding.Special text then .error .specialToken else .ok (encoding.encodeOrdinary text)

/-- `decode`. -/
def decode (tokens : List Token) : Str := encoding.decodeUtf8 (tokens.flatMap encoding.tokenBytes)

end Tiktoken

/-! ## Fixed windows -/

/-- `str.split()`. -/
def splitWords (text : Str) : List Str := (text.splitOnP TextExtract.isSpace).filter (· ≠ [])

/-- `units[i : i + size] for i in range(0, len(units), step)`. -/
def rangeWindows {α : Type} (size : Nat) (step : Int) (units : List α) : Except ChunkError (List (List α)) :=
  if step = 0 then .error .zeroStep else .ok (SlidingWindow.windows size step.toNat units)

section
variable (size : Nat) (step : Int) (text : Str)

/-- `token_chunk_udf`. -/
def tokenChunkUdf : Except ChunkError (List Str) := do
  let tokens ← encoding.encode text
  let chunks ← rangeWindows size step tokens
  return chunks.map encoding.decode

/-- `word_chunk_udf`. -/
def wordChunkUdf : Except ChunkError (List Str) := do
  let chunks ← rangeWindows size step (splitWords text)
  return chunks.map ([' '].intercalate ·)

/-- `character_chunk_udf`. -/
def characterChunkUdf : Except ChunkError (List Str) := rangeWindows size step text

/-- `chunk_udfs`. -/
def chunkUdfs : RecursiveChunkLengthFunction → Except ChunkError (List Str)
  | .tokenCount => tokenChunkUdf encoding size step text
  | .wordCount => wordChunkUdf size step text
  | .characterCount => characterChunkUdf size step text

end

/-- `_convert_token_chunk_expr`, on one text. -/
def textChunk (config : TextChunkExprConfiguration) (text : Str) : Except ChunkError (List Str) := do
  let chunkOverlap ← overlapOfSize config.chunkOverlapPercentage config.desiredChunkSize
  let windowSize := (config.desiredChunkSize : Int) - chunkOverlap
  chunkUdfs encoding config.desiredChunkSize windowSize text config.chunkLengthFunctionName

/-! ## The recursive operator -/

/-- The characters that the plugin splits at. -/
def chunkingCharacters (name : ChunkCharacterSet) : Option (List Str) → Except ChunkError RecursiveChunkingCharacters
  | some custom => .ok (.custom custom)
  | none =>
    match name with
    | .ascii => .ok .ascii
    | .unicode => .ok .unicode
    | .custom => .error .customCharactersRequired

/-- `_convert_text_chunk_expr` with `chunk_text` and the plugin, on one text. -/
def recursiveChunk (plugin : PluginKwargs) (config : RecursiveTextChunkExprConfiguration) (text : Str) :
    Except ChunkError (List Str) := do
  let chunkOverlap ← overlapOfPercentage config.chunkOverlapPercentage config.desiredChunkSize
  if plugin.reads config.desiredChunkSize ∧ 0 ≤ chunkOverlap ∧ plugin.reads chunkOverlap.toNat then
    let characters ← chunkingCharacters config.chunkingCharacterSetName config.chunkingCharacterSetCustomCharacters
    match TextSplitter.new (.ok encoding.encodeOrdinary) characters config.chunkLengthFunctionName config.desiredChunkSize
        chunkOverlap.toNat with
    | .ok chunker => return chunker.recursivelyChunkText text
    | .error e => .error (.splitter e)
  else .error .invalidKwargs

end

/-! ## When a configuration is chunked at all -/

open Rounding

/-- The overlap is rounded up to the size. -/
def RoundsUp (percentage size : Nat) : Prop :=
  size * (100 - percentage) < 50 ∨ (size * (100 - percentage) = 50 ∧ Even size)

instance (percentage size : Nat) : Decidable (RoundsUp percentage size) :=
  inferInstanceAs (Decidable (size * (100 - percentage) < 50 ∨ (size * (100 - percentage) = 50 ∧ Even size)))

/-! ## The floats -/

variable {percentage : Nat}

/-- The sizes and percentages that leave one half of a unit. -/
theorem tie_cases {size : Nat} (h : size * (100 - percentage) = 50) (hlt : percentage < 100) :
    (size, percentage) ∈ [(1, 50), (2, 75), (5, 90), (10, 95), (25, 98), (50, 99)] := by
  have hle : size ≤ 50 := by
    have hpos : 1 ≤ 100 - percentage := by omega
    calc size = size * 1 := (Nat.mul_one size).symm
      _ ≤ size * (100 - percentage) := Nat.mul_le_mul_left size hpos
      _ = 50 := h
  have hdvd : 50 % size = 0 := by
    rw [← h]
    exact Nat.mul_mod_right size _
  interval_cases size <;> simp at hdvd h ⊢ <;> omega

/-- The product in floats, by the size first. -/
def productOfSize (percentage size : Nat) : Rat :=
  nearest 53 ((percentage : Rat) * nearest 53 (nearest 53 (size : Rat) / 100))

/-- The product in floats, by the percentage first. -/
def productOfPercentage (percentage size : Nat) : Rat :=
  nearest 53 (nearest 53 (size : Rat) * nearest 53 ((percentage : Rat) / 100))

theorem near_productOfSize (percentage size : Nat) :
    Near 53 3 ((percentage : Rat) * (size / 100)) (productOfSize percentage size) := by
  have hsize : Near 53 1 (size : Rat) (nearest 53 (size : Rat)) := (near_self _).nearest (by positivity)
  have hquotient : Near 53 1 ((size : Rat) * (1 / 100)) (nearest 53 (size : Rat) * (1 / 100)) :=
    hsize.mul (near_self _) (by positivity) (by positivity)
  rw [← div_eq_mul_one_div, ← div_eq_mul_one_div] at hquotient
  have hrounded := hquotient.nearest (by positivity)
  have hproduct := (near_self (p := 53) (percentage : Rat)).mul hrounded (by positivity) (by positivity)
  exact hproduct.nearest (by positivity)

theorem near_productOfPercentage (percentage size : Nat) :
    Near 53 3 ((percentage : Rat) * (size / 100)) (productOfPercentage percentage size) := by
  have hsize : Near 53 1 (size : Rat) (nearest 53 (size : Rat)) := (near_self _).nearest (by positivity)
  have hquotient : Near 53 1 ((percentage : Rat) / 100) (nearest 53 ((percentage : Rat) / 100)) :=
    (near_self _).nearest (by positivity)
  have hproduct := (hsize.mul hquotient (by positivity) (by positivity)).nearest (by positivity)
  have hswap : (size : Rat) * (percentage / 100) = percentage * (size / 100) := by ring
  rwa [hswap] at hproduct

/-- A half is hit exactly. -/
theorem product_of_tie {size : Nat} (h : size * (100 - percentage) = 50) (hlt : percentage < 100) :
    productOfSize percentage size = size - 1 / 2 ∧ productOfPercentage percentage size = size - 1 / 2 := by
  have hcases := tie_cases h hlt
  simp only [List.mem_cons, Prod.mk.injEq, List.not_mem_nil, or_false] at hcases
  rcases hcases with ⟨rfl, rfl⟩ | ⟨rfl, rfl⟩ | ⟨rfl, rfl⟩ | ⟨rfl, rfl⟩ | ⟨rfl, rfl⟩ | ⟨rfl, rfl⟩ <;> decide +kernel

/-! ## The rounded overlap -/

variable {product : Rat}

/-- Three roundings change less than what separates the cases. -/
theorem near_bounds {size : Nat} (hlt : percentage < 100)
    (hnear : Near 53 3 ((percentage : Rat) * (size / 100)) product) :
    (size : Rat) - ((size * (100 - percentage) : Nat) : Rat) / 100 - size / 2 ^ 51 ≤ product ∧
      product ≤ (size : Rat) - ((size * (100 - percentage) : Nat) : Rat) / 100 + size / 2 ^ 51 := by
  have hexact : (percentage : Rat) * (size / 100) = size - ((size * (100 - percentage) : Nat) : Rat) / 100 := by
    rw [Nat.cast_mul, Nat.cast_sub hlt.le]
    push_cast
    ring
  have hle : (percentage : Rat) * (size / 100) ≤ size := by
    have hpos : (0 : Rat) ≤ ((size * (100 - percentage) : Nat) : Rat) := Nat.cast_nonneg _
    linarith
  obtain ⟨hlow, hhigh⟩ := hnear
  generalize (percentage : Rat) * (size / 100) = q at *
  constructor <;> linarith

theorem halfEven_product {size : Nat} (hpos : 0 < size) (hlt : percentage < 100)
    (hnear : Near 53 3 ((percentage : Rat) * (size / 100)) product)
    (htie : size * (100 - percentage) = 50 → product = size - 1 / 2) :
    if RoundsUp percentage size then halfEven product = size else 0 ≤ halfEven product ∧ halfEven product < size := by
  obtain ⟨hlow, hhigh⟩ := near_bounds hlt hnear
  have hnonneg : (0 : Rat) ≤ product := by
    have hq : (0 : Rat) ≤ (percentage : Rat) * (size / 100) * (1 - 1 / 2 ^ 53) ^ 3 := by
      apply mul_nonneg (by positivity)
      norm_num
    exact hq.trans hnear.1
  have hsize : size ≤ size * (100 - percentage) := Nat.le_mul_of_pos_right size (by omega)
  have hsizeRat : (size : Rat) ≤ ((size * (100 - percentage) : Nat) : Rat) := by exact_mod_cast hsize
  rcases Nat.lt_trichotomy (size * (100 - percentage)) 50 with hless | heq | hmore
  · -- under one half
    have hup : RoundsUp percentage size := Or.inl hless
    rw [if_pos hup]
    have hmost : ((size * (100 - percentage) : Nat) : Rat) ≤ 49 := by exact_mod_cast Nat.le_of_lt_succ hless
    apply halfEven_eq_of_abs_lt
    generalize ((size * (100 - percentage) : Nat) : Rat) = rest at *
    rw [abs_lt]
    push_cast
    constructor <;> linarith
  · have hproduct := htie heq
    by_cases heven : Even size
    · have hup : RoundsUp percentage size := Or.inr ⟨heq, heven⟩
      rw [if_pos hup, halfEven_eq_iff]
      right
      refine ⟨?_, by exact_mod_cast heven⟩
      rw [hproduct]
      push_cast
      norm_num
    · have hnot : ¬ RoundsUp percentage size := by
        rintro (hless | ⟨-, heven'⟩)
        · omega
        · exact heven heven'
      have hodd : Even ((size : Int) - 1) := by
        rw [Int.even_sub_one]
        exact_mod_cast heven
      have hhalf : halfEven product = (size : Int) - 1 := by
        rw [halfEven_eq_iff]
        right
        refine ⟨?_, hodd⟩
        rw [hproduct]
        push_cast
        norm_num
      rw [if_neg hnot, hhalf]
      omega
  · -- over one half
    have hnot : ¬ RoundsUp percentage size := by
      unfold RoundsUp
      omega
    rw [if_neg hnot]
    have hleast : (51 : Rat) ≤ ((size * (100 - percentage) : Nat) : Rat) := by exact_mod_cast hmore
    have hdist := abs_le.mp (abs_sub_halfEven product)
    constructor
    · have hgt : (-1 : Rat) < (halfEven product : Rat) := by linarith [hdist.2]
      have hgt' : (-1 : Int) < halfEven product := by exact_mod_cast hgt
      omega
    · have hbelow : (halfEven product : Rat) < (size : Rat) := by
        generalize ((size * (100 - percentage) : Nat) : Rat) = rest at *
        linarith [hdist.1]
      exact_mod_cast hbelow

/-- The overlap of either operator. -/
theorem rounded_overlap {size : Nat} (hpos : 0 < size) (hlt : percentage < 100)
    (h : product = productOfSize percentage size ∨ product = productOfPercentage percentage size) :
    if RoundsUp percentage size then halfEven product = size else 0 ≤ halfEven product ∧ halfEven product < size := by
  rcases h with rfl | rfl
  · exact halfEven_product hpos hlt (near_productOfSize percentage size) fun htie => (product_of_tie htie hlt).1
  · exact halfEven_product hpos hlt (near_productOfPercentage percentage size) fun htie => (product_of_tie htie hlt).2

/-! ## The operators -/

/-- What the plugin reads is no more than floats hold. -/
theorem toFloat_of_lt {size : Nat} (h : size < 2 ^ 64) : toFloat size = .ok (nearest 53 (size : Rat)) := by
  apply if_pos
  have hnear : Near 53 1 (size : Rat) (nearest 53 (size : Rat)) := (near_self _).nearest (by positivity)
  have hbound := hnear.2
  rw [pow_one] at hbound
  have hsize : (size : Rat) ≤ 2 ^ 64 := by exact_mod_cast h.le
  have htwice : (size : Rat) * (1 + 1 / 2 ^ 53) ≤ 2 ^ 64 * 2 := by
    apply mul_le_mul hsize _ (by norm_num) (by norm_num)
    norm_num
  calc nearest 53 (size : Rat) ≤ 2 ^ 64 * 2 := hbound.trans htwice
    _ = 2 ^ 65 := by norm_num
    _ < 2 ^ 1024 := pow_lt_pow_right₀ one_lt_two (by decide)

theorem overlapOfSize_eq {size : Nat} (h : size < 2 ^ 64) (percentage : Nat) :
    overlapOfSize percentage size = .ok (halfEven (productOfSize percentage size)) := by
  rw [overlapOfSize, toFloat_of_lt h]
  rfl

theorem overlapOfPercentage_eq {size : Nat} (h : size < 2 ^ 64) (percentage : Nat) :
    overlapOfPercentage percentage size = .ok (halfEven (productOfPercentage percentage size)) := by
  rw [overlapOfPercentage, toFloat_of_lt h]
  rfl

section
variable {Token : Type} {encoding : Tiktoken Token} {text : Str}

theorem rangeWindows_eq_ok {α : Type} {size : Nat} {step : Int} {units : List α} :
    (∃ windows, rangeWindows size step units = .ok windows) ↔ step ≠ 0 := by
  unfold rangeWindows
  split
  next hzero => simp [hzero]
  next hne => simp [hne]

theorem exists_map_eq_ok {α β : Type} {x : Except ChunkError α} {f : α → β} :
    (∃ b, (do let a ← x; return f a) = Except.ok b) ↔ ∃ a, x = .ok a := by
  cases x with
  | ok a => exact iff_of_true ⟨f a, rfl⟩ ⟨a, rfl⟩
  | error e => simp

/-- The windows are cut if the window moves, and the tokens are there. -/
theorem textChunk_returns {config : TextChunkExprConfiguration} (hfloat : config.desiredChunkSize < 2 ^ 64) :
    (∃ chunks, textChunk encoding config text = .ok chunks) ↔
      ¬ RoundsUp config.chunkOverlapPercentage config.desiredChunkSize ∧
        (config.chunkLengthFunctionName = .tokenCount → ¬ encoding.Special text) := by
  have hoverlap := rounded_overlap config.size_pos config.percentage_lt (Or.inl rfl)
  have hstep : (config.desiredChunkSize : Int) -
      halfEven (productOfSize config.chunkOverlapPercentage config.desiredChunkSize) ≠ 0 ↔
        ¬ RoundsUp config.chunkOverlapPercentage config.desiredChunkSize := by
    split at hoverlap
    next hup => simp [hup, hoverlap]
    next hnot =>
      simp only [hnot, not_false_eq_true, iff_true]
      omega
  unfold textChunk
  rw [overlapOfSize_eq hfloat, Except.ok_bind]
  cases hfunction : config.chunkLengthFunctionName with
  | tokenCount =>
    show (∃ chunks, tokenChunkUdf encoding config.desiredChunkSize _ text = .ok chunks) ↔ _
    unfold tokenChunkUdf Tiktoken.encode
    by_cases hspecial : encoding.Special text
    · rw [if_pos hspecial]
      simp [hspecial]
    · rw [if_neg hspecial, Except.ok_bind, exists_map_eq_ok, rangeWindows_eq_ok]
      exact hstep.trans (by simp [hspecial])
  | wordCount =>
    show (∃ chunks, wordChunkUdf config.desiredChunkSize _ text = .ok chunks) ↔ _
    unfold wordChunkUdf
    rw [exists_map_eq_ok, rangeWindows_eq_ok]
    exact hstep.trans (by simp)
  | characterCount =>
    show (∃ chunks, characterChunkUdf config.desiredChunkSize _ text = .ok chunks) ↔ _
    unfold characterChunkUdf
    rw [rangeWindows_eq_ok]
    exact hstep.trans (by simp)

theorem chunkingCharacters_returns {name : ChunkCharacterSet} {custom : Option (List Str)} :
    (∃ characters, chunkingCharacters name custom = .ok characters) ↔ (name = .custom → custom ≠ none) := by
  cases custom with
  | some chars => exact iff_of_true ⟨_, rfl⟩ fun _ => Option.some_ne_none chars
  | none => cases name <;> simp [chunkingCharacters]

/-- A splitter with its tokenizer is built when the overlap is under the size. -/
theorem new_returns {characters : RecursiveChunkingCharacters} {function : RecursiveChunkLengthFunction}
    {chunkSize chunkOverlap : Nat} {f : TextSplitter Token → List Str} :
    (∃ chunks, (match TextSplitter.new (.ok encoding.encodeOrdinary) characters function chunkSize chunkOverlap with
      | .ok chunker => .ok (f chunker)
      | .error e => .error (.splitter e) : Except ChunkError (List Str)) = .ok chunks) ↔ chunkOverlap < chunkSize := by
  unfold TextSplitter.new
  by_cases hlt : chunkOverlap < chunkSize
  · rw [dif_pos hlt]
    refine iff_of_true ?_ hlt
    cases function <;> exact ⟨_, rfl⟩
  · rw [dif_neg hlt]
    simp [hlt]

/-- The splitter is built if the overlap is under the size, and has characters to split at. -/
theorem recursiveChunk_returns {plugin : PluginKwargs} {config : RecursiveTextChunkExprConfiguration}
    (hreads : plugin.reads config.desiredChunkSize) :
    (∃ chunks, recursiveChunk encoding plugin config text = .ok chunks) ↔
      ¬ RoundsUp config.chunkOverlapPercentage config.desiredChunkSize ∧
        (config.chunkingCharacterSetName = .custom → config.chunkingCharacterSetCustomCharacters ≠ none) := by
  have hoverlap := rounded_overlap config.size_pos config.percentage_lt (Or.inr rfl)
  unfold recursiveChunk
  rw [overlapOfPercentage_eq (plugin.lt_of_reads _ hreads), Except.ok_bind]
  generalize halfEven (productOfPercentage config.chunkOverlapPercentage config.desiredChunkSize) = overlap at hoverlap ⊢
  have hbounds : 0 ≤ overlap ∧ overlap.toNat ≤ config.desiredChunkSize ∧
      (overlap.toNat < config.desiredChunkSize ↔ ¬ RoundsUp config.chunkOverlapPercentage config.desiredChunkSize) := by
    split at hoverlap
    next hup =>
      refine ⟨by omega, by omega, iff_of_false (by omega) ?_⟩
      exact fun hnot => hnot hup
    next hnot => exact ⟨hoverlap.1, by omega, iff_of_true (by omega) hnot⟩
  obtain ⟨hnonneg, hle, hlt⟩ := hbounds
  rw [if_pos ⟨hreads, hnonneg, plugin.reads_of_le _ _ hle hreads⟩, ← hlt, ← chunkingCharacters_returns]
  constructor
  · rintro ⟨chunks, h⟩
    obtain ⟨characters, hcharacters, hsplitter⟩ := Except.bind_eq_ok.mp h
    exact ⟨new_returns.mp ⟨chunks, hsplitter⟩, characters, hcharacters⟩
  · rintro ⟨hsize, characters, hcharacters⟩
    rw [hcharacters, Except.ok_bind]
    exact new_returns.mpr hsize

/-- Both operators return chunks exactly if the plugin reads the size, the overlap is not rounded up to it, no special token is
    encoded, and custom characters are there where they are asked for. -/
theorem chunksReturn_iff (encoding : Tiktoken Token) (plugin : PluginKwargs) (config : RecursiveTextChunkExprConfiguration)
    (text : Str) :
    ((∃ chunks, textChunk encoding config.toTextChunkExprConfiguration text = .ok chunks) ∧
        ∃ chunks, recursiveChunk encoding plugin config text = .ok chunks) ↔
      plugin.reads config.desiredChunkSize ∧ ¬ RoundsUp config.chunkOverlapPercentage config.desiredChunkSize ∧
        (config.chunkLengthFunctionName = .tokenCount → ¬ encoding.Special text) ∧
        (config.chunkingCharacterSetName = .custom → config.chunkingCharacterSetCustomCharacters ≠ none) := by
  by_cases hreads : plugin.reads config.desiredChunkSize
  · rw [textChunk_returns (plugin.lt_of_reads _ hreads), recursiveChunk_returns hreads]
    constructor
    · rintro ⟨⟨hup, hspecial⟩, -, hcustom⟩
      exact ⟨hreads, hup, hspecial, hcustom⟩
    · rintro ⟨-, hup, hspecial, hcustom⟩
      exact ⟨⟨hup, hspecial⟩, hup, hcustom⟩
  · refine iff_of_false ?_ fun h => hreads h.1
    rintro ⟨-, chunks, hchunks⟩
    obtain ⟨overlap, -, hread⟩ := Except.bind_eq_ok.mp hchunks
    split at hread
    next hall => exact hreads hall.1
    · cases hread

end

/-! ## Ten units with an overlap of 95 percent -/

/-- `bytes.decode("utf-8", errors="replace")`, with one replacement character for all of the bytes. -/
def decodeReplacing (bytes : List UInt8) : Str :=
  match bytes.toByteArray.utf8Decode? with
  | some characters => characters.toList
  | none => ['\ufffd']

/-- A tokenizer with a token for each byte. -/
def byteTokens : Tiktoken UInt8 where
  encodeOrdinary := Utf8Bytes.encode
  tokenBytes byte := [byte]
  decodeUtf8 := decodeReplacing
  specialTokens := ["<|endoftext|>".toList]
  decode_encode text := by
    rw [decodeReplacing, Utf8Bytes.toByteArray_encode, List.utf8Decode?_utf8Encode]
  bytes_encodeOrdinary _ := List.flatMap_singleton' _
  bytes_ne_nil _ := List.cons_ne_nil _ _

/-- Sixty-four bits. -/
def usize : PluginKwargs where
  reads n := n < 2 ^ 64
  reads_of_le m n hle h := by
    rw [decide_eq_true_eq] at h ⊢
    omega
  lt_of_reads n h := by rwa [decide_eq_true_eq] at h

def tenByNinetyFive : RecursiveTextChunkExprConfiguration where
  desiredChunkSize := 10
  chunkOverlapPercentage := 95
  chunkLengthFunctionName := .wordCount
  size_pos := by decide
  percentage_lt := by decide
  chunkingCharacterSetName := .ascii
  chunkingCharacterSetCustomCharacters := none

/-- The overlap is rounded up to ten, and nothing is returned for any text. -/
theorem chunks_not_returned : ¬ ∀ (encoding : Tiktoken UInt8) (plugin : PluginKwargs)
    (config : RecursiveTextChunkExprConfiguration) (text : Str),
    (∃ chunks, textChunk encoding config.toTextChunkExprConfiguration text = .ok chunks) ∧
      ∃ chunks, recursiveChunk encoding plugin config text = .ok chunks := by
  intro h
  obtain ⟨hchunks, -⟩ := h byteTokens usize tenByNinetyFive ['a']
  have hfloat : tenByNinetyFive.desiredChunkSize < 2 ^ 64 := by decide
  exact absurd ((textChunk_returns hfloat).mp hchunks).1 (by decide)

end Chunking

end Fenic
