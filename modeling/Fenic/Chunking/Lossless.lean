import Fenic.Chunking.Splitter

/-!
# `Chunking.Lossless` — without an overlap, the chunks have what the text has

A character counts if it is neither a blank nor in one of the separators. Splitting loses characters of the separator, trimming loses
blanks, and without an overlap a piece is in one window only, unless it has no length; such a piece has no character that counts.
-/

namespace Fenic

namespace Chunking

open Transcript (Str isWhitespace trim trim_eq_nil_iff)
open Utf8

theorem wordCount_eq_zero {text : Str} (h : wordCount text = 0) : ∀ c ∈ text, isWhitespace c = true := by
  induction text with
  | nil => exact fun c hmem => absurd hmem List.not_mem_nil
  | cons head text ih =>
    rw [wordCount_cons] at h
    split at h
    next hblank =>
        intro c hmem
        rcases List.mem_cons.mp hmem with rfl | hmem
        · exact hblank
        · exact ih h c hmem
    next => cases h

variable {keep : Char → Bool}

theorem filter_flatten (texts : List Str) : texts.flatten.filter keep = texts.flatMap (·.filter keep) := by
  rw [List.filter_flatten, List.flatMap_def]

/-- A text of blanks has nothing that is kept. -/
theorem filter_blank (hblank : ∀ c, isWhitespace c = true → keep c = false) {text : Str}
    (h : ∀ c ∈ text, isWhitespace c = true) : text.filter keep = [] := by
  rw [List.filter_eq_nil_iff]
  intro c hmem
  simp [hblank c (h c hmem)]

namespace TextSplitter

variable {Token : Type} {splitter : TextSplitter Token}

/-- Blanks are dropped, and so are texts without a length. -/
structure Drops (splitter : TextSplitter Token) (keep : Char → Bool) : Prop where
  blank : ∀ c, isWhitespace c = true → keep c = false
  unmeasured : ∀ text : Str, splitter.chunkLength text = 0 → text.filter keep = []

variable {separator : Str}

theorem mergeChunk_kept (hblank : ∀ c, isWhitespace c = true → keep c = false)
    (hseparator : ∀ c ∈ separator, keep c = false) (contents : List Str) :
    (mergeChunk contents separator).toList.flatten.filter keep = contents.flatMap (·.filter keep) := by
  have hjoined : (trim (separator.intercalate contents)).filter keep = contents.flatMap (·.filter keep) :=
    (filter_trim hblank _).trans (filter_intercalate hseparator contents)
  unfold mergeChunk
  dsimp only
  split
  next hempty =>
      rw [List.isEmpty_iff.mp hempty] at hjoined
      exact hjoined
  next =>
      rw [← hjoined]
      simp

theorem mergeSplits_kept (hdrops : splitter.Drops keep) (hoverlap : splitter.chunkOverlap = 0)
    (hseparator : ∀ c ∈ separator, keep c = false) (splits : List Str) :
    (splitter.mergeSplits splits separator).flatten.filter keep = splits.flatMap (·.filter keep) := by
  rw [mergeSplits_eq, hoverlap, List.filterMap_eq_flatMap_toList, filter_flatten, List.flatMap_assoc, ← Windows.flatMap_windows (fun s hs => hdrops.unmeasured s hs) splits, List.flatten_eq_flatMap,
    List.flatMap_assoc]
  apply List.flatMap_congr
  intro window _
  rw [← filter_flatten]
  exact mergeChunk_kept hdrops.blank hseparator window

theorem flush_kept (hdrops : splitter.Drops keep) (hoverlap : splitter.chunkOverlap = 0)
    (hseparator : ∀ c ∈ separator, keep c = false) (validSplits : List Str) :
    (splitter.flush validSplits separator).flatten.filter keep = validSplits.flatMap (·.filter keep) := by
  unfold flush
  split
  next hempty =>
      rw [List.isEmpty_iff.mp hempty]
      rfl
  next => exact mergeSplits_kept hdrops hoverlap hseparator validSplits

theorem splitLoop_kept (hdrops : splitter.Drops keep) (hoverlap : splitter.chunkOverlap = 0)
    (hseparator : ∀ c ∈ separator, keep c = false) {oversized : Str → List Str}
    (hoversized : ∀ s, (oversized s).flatten.filter keep = s.filter keep) (splits validSplits : List Str) :
    (splitter.splitLoop separator oversized splits validSplits).flatten.filter keep =
      validSplits.flatMap (·.filter keep) ++ splits.flatMap (·.filter keep) := by
  induction splits generalizing validSplits with
  | nil => simpa [splitLoop] using flush_kept hdrops hoverlap hseparator validSplits
  | cons s splits ih =>
    rw [splitLoop, List.flatMap_cons]
    split
    next =>
        rw [ih, List.flatMap_append, List.append_assoc]
        simp
    next =>
        rw [List.flatten_append, List.flatten_append, List.filter_append, List.filter_append,
          flush_kept hdrops hoverlap hseparator, hoversized, ih]
        simp

theorem pieces_kept (hseparator : ∀ c ∈ separator, keep c = false) (text : Str) :
    (pieces separator text).flatMap (·.filter keep) = text.filter keep := by
  have hempty : ∀ texts : List Str, (texts.filter (¬ ·.isEmpty)).flatMap (·.filter keep) = texts.flatten.filter keep := by
    intro texts
    induction texts with
    | nil => rfl
    | cons piece texts ih =>
      cases piece with
      | nil => simpa using ih
      | cons c piece =>
        rw [List.filter_cons_of_pos (by simp), List.flatMap_cons, ih, List.flatten_cons, List.filter_append]
  unfold pieces
  rw [hempty]
  split
  next =>
      -- the characters one by one
      induction text with
      | nil => rfl
      | cons c text ih =>
        rw [List.map_cons, List.flatten_cons, List.filter_append, ih, ← List.filter_append, List.singleton_append]
  next hne =>
      apply filter_split ?_ hseparator
      intro hnil
      exact hne (List.isEmpty_iff.mpr hnil)

theorem splitAtFirst_kept (hdrops : splitter.Drops keep) (hoverlap : splitter.chunkOverlap = 0) {separators : List Str}
    (hseparators : ∀ separator ∈ separators, ∀ c ∈ separator, keep c = false) {first : Str}
    (hfirst : ∀ c ∈ first, keep c = false) (text : Str) :
    (splitter.splitAtFirst first separators text).flatten.filter keep = text.filter keep := by
  have hasIs : ∀ s : Str, [s].flatten.filter keep = s.filter keep := fun s => by simp
  induction separators generalizing first text with
  | nil =>
    rw [splitAtFirst, splitLoop_kept hdrops hoverlap hfirst hasIs]
    exact pieces_kept hfirst text
  | cons separator rest ih =>
    have hseparator : ∀ c ∈ separator, keep c = false := hseparators separator List.mem_cons_self
    have hrest : ∀ separator ∈ rest, ∀ c ∈ separator, keep c = false :=
      fun separator hmem => hseparators separator (List.mem_cons_of_mem _ hmem)
    rw [splitAtFirst]
    split
    next =>
        rw [splitLoop_kept hdrops hoverlap hseparator hasIs]
        exact pieces_kept hseparator text
    next =>
        split
        next =>
            rw [splitLoop_kept hdrops hoverlap hseparator]
            · exact pieces_kept hseparator text
            · intro s
              cases rest with
              | nil => exact hasIs s
              | cons next rest => exact ih hrest (hrest next List.mem_cons_self) s
        next => exact ih hrest hfirst text

theorem recursivelyChunkText_kept (hdrops : splitter.Drops keep) (hoverlap : splitter.chunkOverlap = 0)
    (hseparators : ∀ separator ∈ splitter.separators, ∀ c ∈ separator, keep c = false) (text : Str) :
    (splitter.recursivelyChunkText text).flatten.filter keep = text.filter keep := by
  rw [← filter_trim hdrops.blank text]
  unfold recursivelyChunkText
  dsimp only
  split
  next hempty =>
      rw [List.isEmpty_iff.mp hempty]
      rfl
  next =>
      -- a chunk that is left out has nothing that is kept
      have hpost : ∀ chunks : List Str, ((chunks.filter fun chunk => ¬ (trim chunk).isEmpty).map trim).flatten.filter keep =
          chunks.flatten.filter keep := by
        intro chunks
        induction chunks with
        | nil => rfl
        | cons chunk chunks ih =>
          rw [List.flatten_cons, List.filter_append, ← ih]
          by_cases hblank : trim chunk = []
          · rw [filter_blank hdrops.blank (trim_eq_nil_iff.mp hblank), List.filter_cons_of_neg (by simp [hblank]),
              List.nil_append]
          · rw [List.filter_cons_of_pos (by simp [hblank]), List.map_cons, List.flatten_cons, List.filter_append,
              filter_trim hdrops.blank]
      rw [hpost]
      cases hlist : splitter.separators with
      | nil => simp [splitTextRecursive]
      | cons first rest =>
        rw [hlist] at hseparators
        exact splitAtFirst_kept hdrops hoverlap hseparators (hseparators first List.mem_cons_self) (trim text)

/-! ## What counts -/

/-- Not a blank, and not in a separator. -/
def counts (splitter : TextSplitter Token) (c : Char) : Bool :=
  ¬ (isWhitespace c ∨ ∃ separator ∈ splitter.separators, c ∈ separator)

theorem drops_counts (htokens : ∀ tokenizer, splitter.tokenizer = some tokenizer → ∀ text : Str, text ≠ [] → tokenizer text ≠ []) :
    splitter.Drops splitter.counts where
  blank c hblank := by simp [counts, hblank]
  unmeasured text hzero := by
    unfold chunkLength at hzero
    split at hzero
    next => rw [byteLen_eq_zero.mp hzero, List.filter_nil]
    next => exact filter_blank (fun c hblank => by simp [counts, hblank]) (wordCount_eq_zero hzero)
    next hfunction =>
        by_cases hne : text = []
        · rw [hne, List.filter_nil]
        · have hsome := splitter.tokenizer_isSome hfunction
          exact absurd (List.length_eq_zero_iff.mp hzero) (htokens _ (Option.some_get hsome).symm text hne)

/-- What `new` builds has the values it was given. -/
theorem new_ok {cl100kBase : Except String (Str → List Token)} {characters : RecursiveChunkingCharacters}
    {function : RecursiveChunkLengthFunction} {chunkSize chunkOverlap : Nat}
    (h : TextSplitter.new cl100kBase characters function chunkSize chunkOverlap = .ok splitter) :
    splitter.chunkOverlap = chunkOverlap ∧ ∀ tokenizer, splitter.tokenizer = some tokenizer → cl100kBase = .ok tokenizer := by
  unfold TextSplitter.new at h
  split at h
  next =>
      cases function with
      | tokenCount =>
        cases cl100kBase with
        | error e => cases h
        | ok tokenizer =>
          cases h
          exact ⟨rfl, fun tokenizer' htokenizer => congrArg Except.ok (Option.some.inj htokenizer)⟩
      | characterCount | wordCount =>
        cases h
        exact ⟨rfl, nofun⟩
  next => cases h

/-- **Nothing is lost, given twice or moved**: without an overlap, the chunks and the text agree on the characters that count, if a
tokenizer gives tokens for every text that is not empty. -/
theorem chunks_lossless {cl100kBase : Except String (Str → List Token)}
    (htokens : ∀ tokenizer, cl100kBase = .ok tokenizer → ∀ text : Str, text ≠ [] → tokenizer text ≠ [])
    {characters : RecursiveChunkingCharacters} {function : RecursiveChunkLengthFunction} {chunkSize : Nat}
    (hnew : TextSplitter.new cl100kBase characters function chunkSize 0 = .ok splitter) (text : Str) :
    (splitter.recursivelyChunkText text).flatten.filter splitter.counts = text.filter splitter.counts := by
  obtain ⟨hoverlap, htokenizer⟩ := new_ok hnew
  apply recursivelyChunkText_kept (drops_counts fun tokenizer h => htokens tokenizer (htokenizer tokenizer h)) hoverlap
  intro separator hseparator c hmem
  rw [counts, decide_eq_false_iff_not, not_not]
  exact .inr ⟨separator, hseparator, hmem⟩

theorem chunks_lossless_tokens :
    ∃ splitter, TextSplitter.new (.ok fun text : Str => text.map Char.toNat) (.custom [['-', '-'], [], ['.']]) .tokenCount 2 0 =
        .ok splitter ∧
      (splitter.recursivelyChunkText ['a', '-', '-', 'b', ' ', 'c', '-']).flatten.filter splitter.counts =
        ['a', '-', '-', 'b', ' ', 'c', '-'].filter splitter.counts := by
  have hnew : ∃ splitter, TextSplitter.new (.ok fun text : Str => text.map Char.toNat) (.custom [['-', '-'], [], ['.']])
      .tokenCount 2 0 = .ok splitter := ⟨_, rfl⟩
  obtain ⟨splitter, hsplitter⟩ := hnew
  refine ⟨splitter, hsplitter, chunks_lossless ?_ hsplitter _⟩
  intro tokenizer htokenizer text hne
  rw [← Except.ok.inj htokenizer]
  exact List.map_eq_nil_iff.not.mpr hne

end TextSplitter

end Chunking

end Fenic
