import Fenic.Chunking.Configurations

/-!
# `Chunking.WindowsLossless` — what windows keep of a text

The windows of the units of a text overlap as they should, and make up the units. Words and characters are put together again as
they are. A window of tokens is decoded by itself, and its text has the bytes of its tokens only if it begins and ends between
two characters.
-/

namespace Fenic

namespace Chunking

open Transcript (Str)

/-- Chunks that are windows of the units: each is the text of its window, none has more than `size` units, two that follow each
    other have `overlap` units in common unless the first is at the end, and without these the units are made up by the windows. -/
structure Windowed {α : Type} (size overlap : Nat) (denotes : List α → Str → Prop) (units : List α) (chunks : List Str) :
    Prop where
  texts : List.Forall₂ denotes (SlidingWindow.windows size (size - overlap) units) chunks
  size_le : ∀ w ∈ SlidingWindow.windows size (size - overlap) units, w.length ≤ size
  shared : ∀ i w w', (SlidingWindow.windows size (size - overlap) units)[i]? = some w →
    (SlidingWindow.windows size (size - overlap) units)[i + 1]? = some w' →
    ∃ before common after, w = before ++ common ∧ w' = common ++ after ∧ (common.length = overlap ∨ w <:+ units)
  joined : (SlidingWindow.windows size (size - overlap) units).head?.getD [] ++
    (SlidingWindow.windows size (size - overlap) units).tail.flatMap (·.drop overlap) = units

section
variable {Token : Type} (encoding : Tiktoken Token) (size overlap : Nat) (text : Str)

/-- A text is returned in chunks that lose nothing of it. -/
def LosesNothing (function : RecursiveChunkLengthFunction) : Prop :=
  ∃ chunks, chunkUdfs encoding size ((size : Int) - overlap) text function = .ok chunks ∧
    match function with
    | .tokenCount =>
      Windowed size overlap (fun tokens chunk => Utf8Bytes.encode chunk = tokens.flatMap encoding.tokenBytes)
        (encoding.encodeOrdinary text) chunks ∧
        (encoding.encodeOrdinary text).flatMap encoding.tokenBytes = Utf8Bytes.encode text
    | .wordCount => Windowed size overlap (fun words chunk => chunk = [' '].intercalate words) (splitWords text) chunks
    | .characterCount => Windowed size overlap (fun characters chunk => chunk = characters) text chunks

/-- No window of tokens begins or ends within a character. -/
def BetweenCharacters (tokens : List Token) : Prop :=
  ∀ i, i * (size - overlap) < tokens.length →
    Utf8Bytes.OnBoundary text ((tokens.take (i * (size - overlap))).flatMap encoding.tokenBytes) ∧
      Utf8Bytes.OnBoundary text ((tokens.take (i * (size - overlap) + size)).flatMap encoding.tokenBytes)

end

/-! ## Windows -/

theorem forall₂_map_self {α β : Type} {f : α → β} (xs : List α) : List.Forall₂ (fun x y => y = f x) xs (xs.map f) := by
  rw [List.forall₂_map_right_iff, List.forall₂_same]
  exact fun _ _ => rfl

section
variable {α : Type} {size overlap : Nat}

/-- All but the texts of the chunks holds of any units. -/
theorem windowed_of_texts (hlt : overlap < size) {denotes : List α → Str → Prop} {units : List α} {chunks : List Str}
    (h : List.Forall₂ denotes (SlidingWindow.windows size (size - overlap) units) chunks) :
    Windowed size overlap denotes units chunks where
  texts := h
  size_le w hw := by
    obtain ⟨i, -, rfl⟩ := (SlidingWindow.mem_windows (by omega)).mp hw
    exact SlidingWindow.length_window_le size _ units i
  shared i w w' hw hw' := by
    have hcommon : size - (size - overlap) = overlap := by omega
    have heq := SlidingWindow.drop_window_eq size (size - overlap) units i
    rw [SlidingWindow.window_of_getElem? hw, SlidingWindow.window_of_getElem? hw', hcommon] at heq
    refine ⟨w.take (size - overlap), w.drop (size - overlap), w'.drop overlap, (List.take_append_drop _ _).symm, ?_, ?_⟩
    · rw [heq, List.take_append_drop]
    · by_cases hend : i * (size - overlap) + size ≤ units.length
      · left
        rw [← SlidingWindow.window_of_getElem? hw, SlidingWindow.length_drop_window (by omega) hend, hcommon]
      · right
        rw [← SlidingWindow.window_of_getElem? hw, SlidingWindow.window, List.take_of_length_le (by rw [List.length_drop]; omega)]
        exact List.drop_suffix _ _
  joined := by
    have hstep : 0 < size - overlap := by omega
    have hjoined := SlidingWindow.joined_windows hstep (Nat.sub_le size overlap) units
    rwa [Nat.sub_sub_self hlt.le] at hjoined

end

/-! ## Tokens -/

section
variable {Token : Type} {encoding : Tiktoken Token} {size overlap : Nat} {text : Str}

/-- The text of some tokens has their bytes exactly if these are the bytes of a text. -/
theorem encode_decode_iff (tokens : List Token) :
    Utf8Bytes.encode (encoding.decode tokens) = tokens.flatMap encoding.tokenBytes ↔
      ∃ part, Utf8Bytes.encode part = tokens.flatMap encoding.tokenBytes := by
  constructor
  · intro h
    exact ⟨_, h⟩
  · rintro ⟨part, hpart⟩
    rw [Tiktoken.decode, ← hpart, encoding.decode_encode]

/-- A window of the tokens of a text, by what is before it and what is in it and before it. -/
theorem window_boundaries {step i : Nat} (hi : i * step < (encoding.encodeOrdinary text).length) (hsize : 0 < size) :
    (∃ part, Utf8Bytes.encode part =
        (SlidingWindow.window size step (encoding.encodeOrdinary text) i).flatMap encoding.tokenBytes) ↔
      Utf8Bytes.OnBoundary text (((encoding.encodeOrdinary text).take (i * step)).flatMap encoding.tokenBytes) ∧
        Utf8Bytes.OnBoundary text (((encoding.encodeOrdinary text).take (i * step + size)).flatMap encoding.tokenBytes) := by
  have hbytes := encoding.bytes_encodeOrdinary text
  generalize encoding.encodeOrdinary text = tokens at hi hbytes ⊢
  have htake : tokens.take (i * step + size) = tokens.take (i * step) ++ SlidingWindow.window size step tokens i := List.take_add
  have hne : (SlidingWindow.window size step tokens i).flatMap encoding.tokenBytes ≠ [] := by
    unfold SlidingWindow.window
    obtain ⟨size, rfl⟩ : ∃ n, size = n + 1 := ⟨size - 1, by omega⟩
    rw [List.drop_eq_getElem_cons hi, List.take_succ_cons, List.flatMap_cons]
    exact List.append_ne_nil_of_left_ne_nil (encoding.bytes_ne_nil _) _
  have hsplit : Utf8Bytes.encode text = (tokens.take (i * step)).flatMap encoding.tokenBytes ++
      (SlidingWindow.window size step tokens i).flatMap encoding.tokenBytes ++
        (tokens.drop (i * step + size)).flatMap encoding.tokenBytes := by
    rw [← hbytes, ← List.flatMap_append, ← htake, ← List.flatMap_append, List.take_append_drop]
  rw [htake, List.flatMap_append]
  exact Utf8Bytes.encode_infix_iff hsplit hne

/-- The windows of the tokens of a text are decoded to their bytes exactly if they lie between characters. -/
theorem windows_decoded_iff (hlt : overlap < size) :
    List.Forall₂ (fun tokens chunk => Utf8Bytes.encode chunk = tokens.flatMap encoding.tokenBytes)
        (SlidingWindow.windows size (size - overlap) (encoding.encodeOrdinary text))
        ((SlidingWindow.windows size (size - overlap) (encoding.encodeOrdinary text)).map encoding.decode) ↔
      BetweenCharacters encoding size overlap text (encoding.encodeOrdinary text) := by
  have hstep : 0 < size - overlap := by omega
  rw [List.forall₂_map_right_iff, List.forall₂_same]
  constructor
  · intro h i hi
    exact (window_boundaries hi (by omega)).mp ((encode_decode_iff _).mp (h _ ((SlidingWindow.mem_windows hstep).mpr ⟨i, hi, rfl⟩)))
  · intro h w hw
    obtain ⟨i, hi, rfl⟩ := (SlidingWindow.mem_windows hstep).mp hw
    exact (encode_decode_iff _).mpr ((window_boundaries hi (by omega)).mpr (h i hi))

theorem rangeWindows_eq (hlt : overlap < size) {α : Type} (units : List α) :
    rangeWindows size ((size : Int) - overlap) units = .ok (SlidingWindow.windows size (size - overlap) units) := by
  have hstep : ((size : Int) - overlap).toNat = size - overlap := by omega
  rw [rangeWindows, if_neg (by omega), hstep]

theorem losesNothing_tokens (hlt : overlap < size) : LosesNothing encoding size overlap text .tokenCount ↔
    ¬ encoding.Special text ∧ BetweenCharacters encoding size overlap text (encoding.encodeOrdinary text) := by
  have htokens : chunkUdfs encoding size ((size : Int) - overlap) text .tokenCount =
      if encoding.Special text then .error .specialToken
      else .ok ((SlidingWindow.windows size (size - overlap) (encoding.encodeOrdinary text)).map encoding.decode) := by
    show tokenChunkUdf encoding size _ text = _
    unfold tokenChunkUdf Tiktoken.encode
    split
    · rfl
    · rw [Except.ok_bind, rangeWindows_eq hlt]
      rfl
  unfold LosesNothing
  rw [htokens]
  constructor
  · rintro ⟨chunks, hchunks, hwindowed, -⟩
    split at hchunks
    · cases hchunks
    next hspecial =>
      cases hchunks
      exact ⟨hspecial, (windows_decoded_iff hlt).mp hwindowed.texts⟩
  · rintro ⟨hspecial, hbetween⟩
    refine ⟨_, if_neg hspecial, ?_, encoding.bytes_encodeOrdinary text⟩
    exact windowed_of_texts hlt ((windows_decoded_iff hlt).mpr hbetween)

/-- A text loses nothing in windows of words or characters; in windows of tokens exactly if no special token is in it, and no
    window begins or ends within a character. -/
theorem losesNothing_iff (encoding : Tiktoken Token) (hlt : overlap < size) (text : Str) (function : RecursiveChunkLengthFunction) :
    LosesNothing encoding size overlap text function ↔ (function = .tokenCount →
      ¬ encoding.Special text ∧ BetweenCharacters encoding size overlap text (encoding.encodeOrdinary text)) := by
  cases function with
  | tokenCount =>
    rw [losesNothing_tokens hlt]
    exact ⟨fun h _ => h, fun h => h rfl⟩
  | wordCount =>
    refine iff_of_true ⟨_, ?_, windowed_of_texts hlt (forall₂_map_self _)⟩ (by rintro ⟨⟩)
    show wordChunkUdf size _ text = _
    unfold wordChunkUdf
    rw [rangeWindows_eq hlt]
    rfl
  | characterCount =>
    refine iff_of_true ⟨_, rangeWindows_eq hlt text, windowed_of_texts hlt ?_⟩ (by rintro ⟨⟩)
    rw [List.forall₂_same]
    exact fun _ _ => rfl

theorem losesNothing_words : LosesNothing byteTokens 2 1 "to be or".toList .wordCount :=
  (losesNothing_iff byteTokens (by decide) "to be or".toList .wordCount).mpr (by rintro ⟨⟩)

end

/-- A letter of two bytes that is cut in two. -/
theorem letter_lost : ¬ ∀ (encoding : Tiktoken UInt8) (size overlap : Nat) (text : Str) (function : RecursiveChunkLengthFunction),
    overlap < size → LosesNothing encoding size overlap text function := by
  intro h
  have hbetween := ((losesNothing_tokens (by decide)).mp (h byteTokens 1 0 ['é'] .tokenCount (by decide))).2
  obtain ⟨⟨part, hprefix, hpart⟩, -⟩ := hbetween 1 (by decide)
  have hbytes : Utf8Bytes.encode part = [0xc3] := hpart
  have hcases : part = [] ∨ part = ['é'] := by
    rcases List.prefix_cons_iff.mp hprefix with rfl | ⟨rest, rfl, hrest⟩
    · exact Or.inl rfl
    · right
      rw [List.prefix_nil.mp hrest]
  rcases hcases with rfl | rfl
  · cases hbytes
  · exact absurd hbytes (by decide)

end Chunking

end Fenic
