import Fenic.Chunking.Splitter

/-!
# `Chunking.SizeBound` — no chunk is over the chunk size

A merged chunk is at most as long as the load of its window, since joining and trimming make a text no longer than its pieces and
separators. A piece that is not merged is split on, down to single characters: these are at most four bytes, or one word.
-/

namespace Fenic

namespace Chunking

open Transcript (Str trim)
open Utf8

/-- A length that joining and trimming do not raise, with at most four for a character. -/
structure Measure (length : Str → Nat) : Prop where
  nil : length [] = 0
  append_le (text text' : Str) : length (text ++ text') ≤ length text + length text'
  trim_le (text : Str) : length (trim text) ≤ length text
  singleton_le (c : Char) : length [c] ≤ 4

theorem measure_byteLen : Measure byteLen where
  nil := byteLen_nil
  append_le text text' := Nat.le_of_eq (byteLen_append text text')
  trim_le := byteLen_trim_le
  singleton_le c := by
    exact Char.utf8Size_le_four c

theorem measure_wordCount : Measure wordCount where
  nil := wordCount_nil
  append_le text text' := (wordCount_append_le text text').1
  trim_le := wordCount_trim_le
  singleton_le c := (wordCount_singleton_le c).trans (by decide)

variable {length : Str → Nat}

/-- A joined window is no longer than its load. -/
theorem Measure.intercalate_le (hmeasure : Measure length) (separator : Str) (window : List Str) :
    length (separator.intercalate window) ≤ Windows.load length (length separator) window := by
  induction window with
  | nil => exact Nat.le_of_eq hmeasure.nil
  | cons piece window ih =>
    cases window with
    | nil => simp [Windows.load]
    | cons next window =>
      rw [List.intercalate_cons_cons, Windows.load, Windows.separatorAfter_of_ne_nil (List.cons_ne_nil next window)]
      have hfront := hmeasure.append_le (piece ++ separator) (separator.intercalate (next :: window))
      have hpiece := hmeasure.append_le piece separator
      omega

namespace TextSplitter

variable {Token : Type} {splitter : TextSplitter Token}

/-- No separator is longer than one, or every text but the empty one has a length. -/
def SmallSeparator (splitter : TextSplitter Token) (separator : Str) : Prop :=
  splitter.chunkLength separator ≤ 1 ∨ ∀ piece : Str, piece ≠ [] → 0 < splitter.chunkLength piece

variable {separator : Str}

theorem mergeChunk_le (hmeasure : Measure splitter.chunkLength) {contents : List Str} {chunk : Str}
    (h : mergeChunk contents separator = some chunk) :
    splitter.chunkLength chunk ≤ Windows.load splitter.chunkLength (splitter.chunkLength separator) contents := by
  unfold mergeChunk at h
  dsimp only at h
  split at h
  next => cases h
  next =>
      obtain rfl := Option.some.inj h
      exact (hmeasure.trim_le _).trans (hmeasure.intercalate_le separator contents)

theorem mergeSplits_le (hmeasure : Measure splitter.chunkLength) {splits : List Str}
    (hsplits : ∀ s ∈ splits, s ≠ [] ∧ splitter.chunkLength s < splitter.chunkSize)
    (hseparator : splitter.SmallSeparator separator) :
    ∀ chunk ∈ splitter.mergeSplits splits separator, splitter.chunkLength chunk ≤ splitter.chunkSize := by
  have hlen : (if separator.isEmpty then 0 else splitter.chunkLength separator) = splitter.chunkLength separator := by
    split
    next hempty => rw [List.isEmpty_iff.mp hempty, hmeasure.nil]
    next => rfl
  intro chunk hmem
  rw [mergeSplits_eq, hlen] at hmem
  obtain ⟨window, hwindow, hchunk⟩ := List.mem_filterMap.mp hmem
  apply (mergeChunk_le hmeasure hchunk).trans
  apply Windows.load_windows_le (fun s hs => (hsplits s hs).2) ?_ window hwindow
  exact hseparator.imp_right fun hpositive s hs => hpositive s (hsplits s hs).1

theorem flush_le (hmeasure : Measure splitter.chunkLength) {validSplits : List Str}
    (hvalid : ∀ s ∈ validSplits, s ≠ [] ∧ splitter.chunkLength s < splitter.chunkSize)
    (hseparator : splitter.SmallSeparator separator) :
    ∀ chunk ∈ splitter.flush validSplits separator, splitter.chunkLength chunk ≤ splitter.chunkSize := by
  intro chunk hmem
  unfold flush at hmem
  split at hmem
  next => exact absurd hmem List.not_mem_nil
  next => exact mergeSplits_le hmeasure hvalid hseparator chunk hmem

/-- The loop gives chunks of the size if what is done with the oversized pieces does. -/
theorem splitLoop_le (hmeasure : Measure splitter.chunkLength) {oversized : Str → List Str}
    (hseparator : splitter.SmallSeparator separator) {splits validSplits : List Str} (hsplits : ∀ s ∈ splits, s ≠ [])
    (hvalid : ∀ s ∈ validSplits, s ≠ [] ∧ splitter.chunkLength s < splitter.chunkSize)
    (hoversized : ∀ s ∈ splits, ∀ chunk ∈ oversized s, splitter.chunkLength chunk ≤ splitter.chunkSize) :
    ∀ chunk ∈ splitter.splitLoop separator oversized splits validSplits,
      splitter.chunkLength chunk ≤ splitter.chunkSize := by
  induction splits generalizing validSplits with
  | nil => exact flush_le hmeasure hvalid hseparator
  | cons s splits ih =>
    have hsplits' : ∀ s ∈ splits, s ≠ [] := fun s hs => hsplits s (List.mem_cons_of_mem _ hs)
    have hoversized' : ∀ s ∈ splits, ∀ chunk ∈ oversized s, splitter.chunkLength chunk ≤ splitter.chunkSize :=
      fun s hs => hoversized s (List.mem_cons_of_mem _ hs)
    intro chunk hmem
    rw [splitLoop] at hmem
    split at hmem
    next hshort =>
        refine ih hsplits' ?_ hoversized' chunk hmem
        intro s' hs'
        rcases List.mem_append.mp hs' with hs' | hs'
        · exact hvalid s' hs'
        · rw [List.mem_singleton.mp hs']
          exact ⟨hsplits s List.mem_cons_self, hshort⟩
    next =>
        rcases List.mem_append.mp hmem with hmem | hmem
        · rcases List.mem_append.mp hmem with hmem | hmem
          · exact flush_le hmeasure hvalid hseparator chunk hmem
          · exact hoversized s List.mem_cons_self chunk hmem
        · exact ih hsplits' (fun s hs => absurd hs List.not_mem_nil) hoversized' chunk hmem

theorem pieces_ne_nil {text : Str} : ∀ s ∈ pieces separator text, s ≠ [] := by
  intro s hs hnil
  have hkept := (List.mem_filter.mp hs).2
  rw [hnil] at hkept
  cases hkept

/-- Split at nothing, a text comes apart into its characters. -/
theorem pieces_empty_singleton {text : Str} : ∀ s ∈ pieces [] text, ∃ c, s = [c] := by
  intro s hs
  obtain ⟨c, -, hc⟩ := List.mem_map.mp (List.mem_filter.mp hs).1
  exact ⟨c, hc.symm⟩

/-- With the empty separator in the list, the recursion comes down to characters before the list is used up. -/
theorem splitAtFirst_le (hmeasure : Measure splitter.chunkLength) (hsize : 4 ≤ splitter.chunkSize) {separators : List Str}
    (hempty : [] ∈ separators) (hsmall : ∀ separator ∈ separators, splitter.SmallSeparator separator) (first text : Str) :
    ∀ chunk ∈ splitter.splitAtFirst first separators text, splitter.chunkLength chunk ≤ splitter.chunkSize := by
  induction separators generalizing first text with
  | nil => exact absurd hempty List.not_mem_nil
  | cons separator rest ih =>
    rw [splitAtFirst]
    have hsmall' : ∀ separator ∈ rest, splitter.SmallSeparator separator :=
      fun separator hmem => hsmall separator (List.mem_cons_of_mem _ hmem)
    have hnone : ∀ s ∈ ([] : List Str), s ≠ [] ∧ splitter.chunkLength s < splitter.chunkSize := nofun
    split
    next hnil =>
        obtain rfl := List.isEmpty_iff.mp hnil
        refine splitLoop_le hmeasure (hsmall [] List.mem_cons_self) pieces_ne_nil hnone ?_
        intro s hs chunk hchunk
        obtain ⟨c, rfl⟩ := pieces_empty_singleton s hs
        rw [List.mem_singleton.mp hchunk]
        exact (hmeasure.singleton_le c).trans hsize
    next hseparator =>
        have hrest : [] ∈ rest := by
          apply (List.mem_cons.mp hempty).resolve_left
          intro hnil
          exact hseparator (List.isEmpty_iff.mpr hnil.symm)
        split
        next =>
            refine splitLoop_le hmeasure (hsmall separator List.mem_cons_self) pieces_ne_nil hnone ?_
            intro s hs
            cases rest with
            | nil => exact absurd hrest List.not_mem_nil
            | cons next rest => exact ih hrest hsmall' next s
        next => exact ih hrest hsmall' first text

theorem recursivelyChunkText_le (hmeasure : Measure splitter.chunkLength) (hsize : 4 ≤ splitter.chunkSize)
    (hempty : [] ∈ splitter.separators) (hsmall : ∀ separator ∈ splitter.separators, splitter.SmallSeparator separator)
    (text : Str) : ∀ chunk ∈ splitter.recursivelyChunkText text, splitter.chunkLength chunk ≤ splitter.chunkSize := by
  intro chunk hmem
  unfold recursivelyChunkText at hmem
  dsimp only at hmem
  split at hmem
  next => exact absurd hmem List.not_mem_nil
  next =>
      obtain ⟨untrimmed, huntrimmed, rfl⟩ := List.mem_map.mp hmem
      have hchunk := (List.mem_filter.mp huntrimmed).1
      apply (hmeasure.trim_le untrimmed).trans
      cases hseparators : splitter.separators with
      | nil =>
        rw [hseparators] at hempty
        exact absurd hempty List.not_mem_nil
      | cons first rest =>
        rw [hseparators] at hchunk hempty hsmall
        exact splitAtFirst_le hmeasure hsize hempty hsmall first (trim text) untrimmed hchunk

/-! ## The separators of the source -/

def BuiltIn (characters : RecursiveChunkingCharacters) : Prop :=
  characters = .ascii ∨ characters = .unicode

theorem empty_mem_separators (hbuiltIn : BuiltIn splitter.chunkingCharacters) : [] ∈ splitter.separators := by
  unfold separators
  rcases hbuiltIn with hascii | hunicode
  · rw [hascii]
    decide
  · rw [hunicode]
    decide

theorem wordCount_separator_le (hbuiltIn : BuiltIn splitter.chunkingCharacters) :
    ∀ separator ∈ splitter.separators, wordCount separator ≤ 1 := by
  unfold separators
  rcases hbuiltIn with hascii | hunicode
  · rw [hascii]
    decide
  · rw [hunicode]
    decide

/-- **No chunk is over the chunk size**: for texts measured in bytes, and for texts measured in words. -/
theorem chunks_le_size (cl100kBase : Except String (Str → List Token)) {characters : RecursiveChunkingCharacters}
    (hbuiltIn : BuiltIn characters) {chunkSize chunkOverlap : Nat} (hsize : 4 ≤ chunkSize) (hoverlap : chunkOverlap < chunkSize)
    (text : Str) :
    (∃ splitter, TextSplitter.new cl100kBase characters .characterCount chunkSize chunkOverlap = .ok splitter ∧
      ∀ chunk ∈ splitter.recursivelyChunkText text, byteLen chunk ≤ chunkSize) ∧
    (∃ splitter, TextSplitter.new cl100kBase characters .wordCount chunkSize chunkOverlap = .ok splitter ∧
      ∀ chunk ∈ splitter.recursivelyChunkText text, (splitWhitespace chunk).length ≤ chunkSize) := by
  constructor
  · let splitter : TextSplitter Token := ⟨characters, .characterCount, chunkSize, chunkOverlap, none, hoverlap, by rintro ⟨⟩⟩
    refine ⟨splitter, dif_pos hoverlap, ?_⟩
    have hlength : splitter.chunkLength = byteLen := funext (chunkLength_characterCount rfl)
    intro chunk hmem
    have hmeasure : Measure splitter.chunkLength := hlength ▸ measure_byteLen
    have hbound := recursivelyChunkText_le hmeasure hsize (empty_mem_separators hbuiltIn) ?_ text chunk hmem
    · rwa [hlength] at hbound
    · intro separator _
      refine .inr fun piece hne => ?_
      exact Nat.pos_of_ne_zero fun hzero => hne (byteLen_eq_zero.mp hzero)
  · let splitter : TextSplitter Token := ⟨characters, .wordCount, chunkSize, chunkOverlap, none, hoverlap, by rintro ⟨⟩⟩
    refine ⟨splitter, dif_pos hoverlap, ?_⟩
    have hlength : splitter.chunkLength = wordCount := funext (chunkLength_wordCount rfl)
    intro chunk hmem
    have hmeasure : Measure splitter.chunkLength := hlength ▸ measure_wordCount
    have hbound := recursivelyChunkText_le hmeasure hsize (empty_mem_separators hbuiltIn) ?_ text chunk hmem
    · rwa [hlength] at hbound
    · intro separator hseparator
      refine .inl ?_
      exact wordCount_separator_le hbuiltIn separator hseparator

theorem chunks_le_size_four :
    ∃ splitter : TextSplitter Nat, TextSplitter.new (.error "no tokenizer") .ascii .characterCount 4 1 = .ok splitter ∧
      ∀ chunk ∈ splitter.recursivelyChunkText ['a', 'b', ' ', 'c', 'd', 'e', '.', 'f'], byteLen chunk ≤ 4 :=
  (chunks_le_size (.error "no tokenizer") (.inl rfl) (by decide) (by decide) _).1

end TextSplitter

end Chunking

end Fenic
