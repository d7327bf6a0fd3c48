import Fenic.Lib.Words
import Fenic.Transcript.Types
import Mathlib.Algebra.Order.Ring.Unbundled.Rat
import Mathlib.Data.Char
import Mathlib.Data.List.Dedup
import Mathlib.Data.List.Lex
import Mathlib.Data.List.Sort
import Mathlib.Order.MinMax

/-!
# `TextFunctions.TokenRatios` — similarities of the words of two strings

The token-sort and the token-set ratio over any base similarity. The tokens of a string are its words, but a string without words has one
empty token (`tokenize_eq`); the set of a blank string is therefore joined to the same text as an empty intersection.
-/

namespace Fenic

namespace TokenRatios

open Transcript (isWhitespace)

abbrev Text := List Char

/-- One of the methods of `_convert_fuzzy_similarity_method_to_expr`. -/
structure Similarity where
  ratio : Text → Text → Rat
  symm : ∀ s t, ratio s t = ratio t s
  nonneg : ∀ s t, 0 ≤ ratio s t
  le_full : ∀ s t, ratio s t ≤ 100
  eq_full_iff : ∀ s t, ratio s t = 100 ↔ s = t

/-! ## What the code computes -/

/-- `_tokenize_for_fuzzy_similarity`. -/
def tokenize (text : Text) : List Text := (Words.squeeze isWhitespace ' ' text).splitOn ' '

def sort (tokens : List Text) : List Text := tokens.insertionSort (· ≤ ·)

def join (tokens : List Text) : Text := [' '].intercalate tokens

variable (method : Similarity)

/-- `_convert_fuzzy_token_sort_ratio_expr`. -/
def tokenSortRatio (left right : Text) : Rat :=
  method.ratio (join (sort (tokenize left))) (join (sort (tokenize right)))

/-- The three comparisons of two sorted lists of unique tokens. -/
def compareSets (leftSet rightSet : List Text) : Rat :=
  let intersection := leftSet.filter (· ∈ rightSet)
  let diffLeft := leftSet.filter (· ∉ rightSet)
  let diffRight := rightSet.filter (· ∉ leftSet)
  let ratio1 := method.ratio (join (sort diffLeft)) (join (sort diffRight))
  let ratio2 := method.ratio (join (sort intersection)) (join leftSet)
  let ratio3 := method.ratio (join (sort intersection)) (join rightSet)
  max (max ratio1 ratio2) ratio3

/-- `_convert_fuzzy_token_set_ratio_expr`. -/
def tokenSetRatio (left right : Text) : Rat :=
  compareSets method (sort (tokenize left).dedup) (sort (tokenize right).dedup)

/-! ## Tokens -/

def words (text : Text) : List Text := Words.words isWhitespace text

theorem tokenize_eq (text : Text) : tokenize text = if words text = [] then [[]] else words text := by
  rw [tokenize, Words.squeeze_eq (by decide)]
  split
  next h => rw [show Words.words isWhitespace text = [] from h]; rfl
  next h => exact Words.splitOn_join (by decide) h

theorem tokenize_ne_nil (text : Text) : tokenize text ≠ [] := by
  rw [tokenize_eq]
  split
  · exact List.cons_ne_nil _ _
  next h => exact h

theorem nil_mem_tokenize {text : Text} : [] ∈ tokenize text ↔ words text = [] := by
  rw [tokenize_eq]
  split
  next h => exact iff_of_true List.mem_cons_self h
  next h => exact iff_of_false (fun hmem => Words.ne_nil_of_mem_words hmem rfl) h

theorem blank_not_mem {text token : Text} (h : token ∈ tokenize text) : ' ' ∉ token := by
  intro hblank
  rw [tokenize_eq] at h
  split at h
  · rw [List.mem_singleton.mp h] at hblank
    cases hblank
  · exact absurd (Words.not_isBlank_of_mem_words h ' ' hblank) (by decide)

theorem tokenize_perm {s t : Text} : (tokenize s).Perm (tokenize t) ↔ (words s).Perm (words t) := by
  by_cases hs : words s = []
  · by_cases ht : words t = []
    · rw [tokenize_eq, tokenize_eq, if_pos hs, if_pos ht, hs, ht]
      exact iff_of_true (.refl _) (.refl _)
    · refine iff_of_false (fun h => ht (nil_mem_tokenize.mp (h.subset (nil_mem_tokenize.mpr hs)))) fun h => ?_
      rw [hs] at h
      exact ht h.symm.eq_nil
  · by_cases ht : words t = []
    · refine iff_of_false (fun h => hs (nil_mem_tokenize.mp (h.symm.subset (nil_mem_tokenize.mpr ht)))) fun h => ?_
      rw [ht] at h
      exact hs h.eq_nil
    · rw [tokenize_eq, tokenize_eq, if_neg hs, if_neg ht]

/-- The same tokens, when the words are the same. -/
theorem mem_tokenize_congr {s t : Text} (h : ∀ word, word ∈ words s ↔ word ∈ words t) (token : Text) :
    token ∈ tokenize s ↔ token ∈ tokenize t := by
  have hnil : words s = [] ↔ words t = [] := by
    rw [List.eq_nil_iff_forall_not_mem, List.eq_nil_iff_forall_not_mem]
    exact forall_congr' fun word => not_congr (h word)
  rw [tokenize_eq, tokenize_eq]
  by_cases hs : words s = []
  · rw [if_pos hs, if_pos (hnil.mp hs)]
  · rw [if_neg hs, if_neg (fun ht => hs (hnil.mpr ht))]
    exact h token

/-! ## Joined tokens -/

theorem perm_sort (tokens : List Text) : (sort tokens).Perm tokens := List.perm_insertionSort _ tokens

theorem sort_eq_iff {tokens tokens' : List Text} : sort tokens = sort tokens' ↔ tokens.Perm tokens' := by
  constructor
  · intro h
    exact (perm_sort tokens).symm.trans (h ▸ perm_sort tokens')
  · intro h
    exact (((perm_sort tokens).trans h).trans (perm_sort tokens').symm).eq_of_sortedLE List.sortedLE_insertionSort
      List.sortedLE_insertionSort

theorem join_inj {tokens tokens' : List Text} (hblank : ∀ token ∈ tokens, ' ' ∉ token) (hblank' : ∀ token ∈ tokens', ' ' ∉ token)
    (hne : tokens ≠ []) (hne' : tokens' ≠ []) : join tokens = join tokens' ↔ tokens = tokens' := by
  refine ⟨fun h => ?_, fun h => congrArg join h⟩
  rw [← List.splitOn_intercalate ' ' hblank hne, ← List.splitOn_intercalate ' ' hblank' hne']
  exact congrArg (·.splitOn ' ') h

/-- Lists of words, which are not empty, are told apart also when one of the lists is empty. -/
theorem join_words_inj {tokens tokens' : List Text} (h : ∀ token ∈ tokens, token ≠ [] ∧ ' ' ∉ token)
    (h' : ∀ token ∈ tokens', token ≠ [] ∧ ' ' ∉ token) : join tokens = join tokens' ↔ tokens = tokens' := by
  have hnil : ∀ {tokens : List Text}, (∀ token ∈ tokens, token ≠ [] ∧ ' ' ∉ token) → (join tokens = [] ↔ tokens = []) :=
    fun h => Words.join_eq_nil_iff fun token htoken => (h token htoken).1
  by_cases hne : tokens = []
  · rw [hne]
    exact eq_comm.trans ((hnil h').trans eq_comm)
  · by_cases hne' : tokens' = []
    · rw [hne']
      exact hnil h
    · exact join_inj (fun token htoken => (h token htoken).2) (fun token htoken => (h' token htoken).2) hne hne'

/-! ## The token-sort ratio -/

theorem sortedTokens_blank {text token : Text} (h : token ∈ sort (tokenize text)) : ' ' ∉ token :=
  blank_not_mem ((perm_sort _).subset h)

theorem sortedTokens_ne_nil (text : Text) : sort (tokenize text) ≠ [] := fun h =>
  tokenize_ne_nil text ((perm_sort (tokenize text)).symm.trans (h ▸ .refl _)).eq_nil

theorem tokenSortRatio_full_iff (s t : Text) : tokenSortRatio method s t = 100 ↔ (words s).Perm (words t) := by
  rw [tokenSortRatio, method.eq_full_iff,
    join_inj (fun _ => sortedTokens_blank) (fun _ => sortedTokens_blank) (sortedTokens_ne_nil s) (sortedTokens_ne_nil t),
    sort_eq_iff, tokenize_perm]

theorem sort_tokenize_congr {s t : Text} (h : (words s).Perm (words t)) : sort (tokenize s) = sort (tokenize t) :=
  sort_eq_iff.mpr (tokenize_perm.mpr h)

/-! ## The token-set ratio -/

def tokenSet (text : Text) : List Text := sort (tokenize text).dedup

theorem mem_tokenSet {text token : Text} : token ∈ tokenSet text ↔ token ∈ tokenize text :=
  (perm_sort _).mem_iff.trans List.mem_dedup

theorem tokenSet_congr {s t : Text} (h : ∀ word, word ∈ words s ↔ word ∈ words t) : tokenSet s = tokenSet t :=
  sort_eq_iff.mpr ((List.perm_ext_iff_of_nodup (List.nodup_dedup _) (List.nodup_dedup _)).mpr fun token => by
    rw [List.mem_dedup, List.mem_dedup]
    exact mem_tokenize_congr h token)

theorem nodup_tokenSet (text : Text) : (tokenSet text).Nodup := (perm_sort _).symm.nodup (List.nodup_dedup _)

theorem sort_eq_tokenSet_iff {tokens : List Text} (h : tokens.Nodup) (text : Text) :
    sort tokens = tokenSet text ↔ ∀ token, token ∈ tokens ↔ token ∈ tokenSet text := by
  rw [tokenSet, sort_eq_iff, List.perm_ext_iff_of_nodup h (List.nodup_dedup _)]
  exact forall_congr' fun token => iff_congr Iff.rfl (perm_sort _).mem_iff.symm

theorem max_full_iff (x y z : Rat) (hx : x ≤ 100) (hy : y ≤ 100) (hz : z ≤ 100) :
    max (max x y) z = 100 ↔ x = 100 ∨ y = 100 ∨ z = 100 := by
  rcases max_choice (max x y) z with h | h <;> rcases max_choice x y with h' | h' <;> rw [h] <;> grind

/-- The ratio is full when one of the three comparisons is of equal texts. -/
theorem compareSets_full_iff (leftSet rightSet : List Text) :
    compareSets method leftSet rightSet = 100 ↔
      join (sort (leftSet.filter (· ∉ rightSet))) = join (sort (rightSet.filter (· ∉ leftSet))) ∨
      join (sort (leftSet.filter (· ∈ rightSet))) = join leftSet ∨ join (sort (leftSet.filter (· ∈ rightSet))) = join rightSet := by
  rw [compareSets, max_full_iff _ _ _ (method.le_full _ _) (method.le_full _ _) (method.le_full _ _), method.eq_full_iff,
    method.eq_full_iff, method.eq_full_iff]

variable {method} {s t : Text}

theorem word_of_mem (hs : words s ≠ []) : ∀ token ∈ tokenSet s, token ≠ [] ∧ ' ' ∉ token := by
  intro token htoken
  have hmem := mem_tokenSet.mp htoken
  refine ⟨?_, blank_not_mem hmem⟩
  rintro rfl
  exact hs (nil_mem_tokenize.mp hmem)

theorem mem_tokenSet_of_words (hs : words s ≠ []) {token : Text} : token ∈ tokenSet s ↔ token ∈ words s := by
  rw [mem_tokenSet, tokenize_eq, if_neg hs]

theorem tokenSetRatio_full_iff (hs : words s ≠ []) (ht : words t ≠ []) :
    tokenSetRatio method s t = 100 ↔ words s ⊆ words t ∨ words t ⊆ words s := by
  have hleft : ∀ p : Text → Bool, ∀ token ∈ sort ((tokenSet s).filter p), token ≠ [] ∧ ' ' ∉ token :=
    fun p token h => word_of_mem hs token (List.mem_filter.mp ((perm_sort _).subset h)).1
  have hright : ∀ p : Text → Bool, ∀ token ∈ sort ((tokenSet t).filter p), token ≠ [] ∧ ' ' ∉ token :=
    fun p token h => word_of_mem ht token (List.mem_filter.mp ((perm_sort _).subset h)).1
  have hfilter : ∀ p : Text → Bool, ((tokenSet s).filter p).Nodup := fun p => (nodup_tokenSet s).filter p
  rw [tokenSetRatio, ← tokenSet, ← tokenSet, compareSets_full_iff, join_words_inj (hleft _) (hright _),
    join_words_inj (hleft _) (word_of_mem hs), join_words_inj (hleft _) (word_of_mem ht),
    sort_eq_tokenSet_iff (hfilter _), sort_eq_tokenSet_iff (hfilter _), sort_eq_iff]
  simp only [List.mem_filter, decide_eq_true_eq, mem_tokenSet_of_words hs, mem_tokenSet_of_words ht, and_iff_left_iff_imp,
    and_iff_right_iff_imp]
  refine or_iff_right_of_imp fun hperm => Or.inl fun token htoken => ?_
  -- the two differences have nothing in common
  by_contra hnot
  have hmem : token ∈ (tokenSet s).filter (· ∉ words t) :=
    List.mem_filter.mpr ⟨(mem_tokenSet_of_words hs).mpr htoken, decide_eq_true hnot⟩
  exact hnot ((mem_tokenSet_of_words ht).mp (List.mem_filter.mp (hperm.subset hmem)).1)

/-- The one empty token of a blank string is joined to what an empty intersection is joined to. -/
theorem tokenSetRatio_blank (hs : words s = []) (ht : words t ≠ []) : tokenSetRatio method s t = 100 := by
  have hset : tokenSet s = [[]] := by
    rw [tokenSet, tokenize_eq, if_pos hs]
    rfl
  have hnot : [] ∉ tokenSet t := fun h => (word_of_mem ht [] h).1 rfl
  rw [tokenSetRatio, ← tokenSet, ← tokenSet, compareSets_full_iff, hset]
  refine Or.inr (Or.inl ?_)
  rw [List.filter_cons_of_neg (by simpa using hnot)]
  rfl

theorem compareSets_comm (leftSet rightSet : List Text) (h : leftSet.Nodup) (h' : rightSet.Nodup) :
    compareSets method leftSet rightSet = compareSets method rightSet leftSet := by
  have hinter : sort (leftSet.filter (· ∈ rightSet)) = sort (rightSet.filter (· ∈ leftSet)) :=
    sort_eq_iff.mpr ((List.perm_ext_iff_of_nodup (h.filter _) (h'.filter _)).mpr fun token => by
      simp only [List.mem_filter, decide_eq_true_eq, and_comm])
  simp only [compareSets, hinter]
  rw [method.symm (join (sort (leftSet.filter (· ∉ rightSet)))), max_right_comm]

/-- **What is said of the two ratios of two strings.** -/
structure Documented (method : Similarity) (s t : Text) : Prop where
  sort_words : ∀ s' t', (words s).Perm (words s') → (words t).Perm (words t') →
    tokenSortRatio method s t = tokenSortRatio method s' t'
  set_words : ∀ s' t', (∀ word, word ∈ words s ↔ word ∈ words s') → (∀ word, word ∈ words t ↔ word ∈ words t') →
    tokenSetRatio method s t = tokenSetRatio method s' t'
  sort_symm : tokenSortRatio method s t = tokenSortRatio method t s
  set_symm : tokenSetRatio method s t = tokenSetRatio method t s
  sort_full : tokenSortRatio method s t = 100 ↔ (words s).Perm (words t)
  set_full : words s ≠ [] ∨ words t ≠ [] →
    (tokenSetRatio method s t = 100 ↔ words s ≠ [] ∧ words t ≠ [] ∧ (words s ⊆ words t ∨ words t ⊆ words s))

theorem tokenSetRatio_comm (method : Similarity) (s t : Text) : tokenSetRatio method s t = tokenSetRatio method t s :=
  compareSets_comm _ _ (nodup_tokenSet s) (nodup_tokenSet t)

/-- **The ratios are as documented** when both strings have a word, or neither. -/
theorem ratios_documented_iff (method : Similarity) (s t : Text) : Documented method s t ↔ (words s = [] ↔ words t = []) := by
  constructor
  · intro h
    constructor
    · intro hs
      by_contra ht
      exact ((h.set_full (Or.inr ht)).mp (tokenSetRatio_blank hs ht)).1 hs
    · intro ht
      by_contra hs
      exact ((h.set_full (Or.inl hs)).mp ((tokenSetRatio_comm method s t).trans (tokenSetRatio_blank ht hs))).2.1 ht
  · intro hblank
    refine ⟨fun s' t' hs ht => ?_, fun s' t' hs ht => ?_, method.symm _ _, tokenSetRatio_comm method s t,
      tokenSortRatio_full_iff method s t, fun hword => ?_⟩
    · rw [tokenSortRatio, tokenSortRatio, sort_tokenize_congr hs, sort_tokenize_congr ht]
    · show compareSets method (tokenSet s) (tokenSet t) = compareSets method (tokenSet s') (tokenSet t')
      rw [tokenSet_congr hs, tokenSet_congr ht]
    · have hs : words s ≠ [] := fun hs => hword.elim (· hs) (· (hblank.mp hs))
      have ht : words t ≠ [] := fun ht => hs (hblank.mpr ht)
      rw [tokenSetRatio_full_iff hs ht, and_iff_right hs, and_iff_right ht]

/-- Full for equal texts, nothing for all others. -/
def equality : Similarity where
  ratio s t := if s = t then 100 else 0
  symm s t := by simp only [eq_comm]
  nonneg s t := by split <;> decide
  le_full s t := by split <;> decide
  eq_full_iff s t := by by_cases h : s = t <;> simp [h]

/-- No word, and a word. -/
theorem blank_not_documented : ¬ Documented equality [] ['a'] := fun h =>
  absurd ((h.set_full (Or.inr (by decide))).mp (by decide)).1 (by decide)

end TokenRatios

end Fenic
