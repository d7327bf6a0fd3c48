import Fenic.Regexp.LikeSearch

/-!
# `Regexp.LikeAgreement` — which LIKE patterns are matched as LIKE says

Blocks that follow each other in a text also do so within lines if all but one of them are a single newline: before and behind this one the
nearest newlines will do (`follows_inLine`). If two of them are something else, many newlines between these two cannot be crossed
(`exists_crossed`): what the engine finds has as many newlines as the blocks, so it lies on one side, where one of the two is missing.

The rewriting is wrong for escaped characters, for stars and question marks, for the wildcard of one character, for patterns that are not
between percent signs, and for percent signs between two texts that are not single newlines. For all other patterns, and on every text,
`like` and `ilike` give what LIKE means (`like_iff`).
-/

namespace Fenic

namespace Regexp

variable {wild : Char → Bool} {folding : CaseFolding}

def newlineBlock : Str :=
  ['\n']

theorem count_gap {gap : Str} (h : ∀ d ∈ gap, inLine d = true) : gap.count '\n' = 0 := by
  refine List.count_eq_zero.mpr fun hmem => ?_
  exact absurd (h '\n' hmem) (by decide)

/-! ## All but one are newlines -/

variable {blocks : List Str}

/-- All blocks but one at most are a single newline. -/
theorem newlines_around (h : (blocks.filter fun block => block ≠ newlineBlock).length ≤ 1) :
    (∃ k, blocks = List.replicate k newlineBlock) ∨
      ∃ k block m, blocks = List.replicate k newlineBlock ++ block :: List.replicate m newlineBlock := by
  induction blocks with
  | nil => exact .inl ⟨0, rfl⟩
  | cons block rest ih =>
    by_cases hblock : block = newlineBlock
    · rw [List.filter_cons_of_neg (by simpa using hblock)] at h
      rw [hblock]
      rcases ih h with ⟨k, rfl⟩ | ⟨k, other, m, rfl⟩
      · exact .inl ⟨k + 1, rfl⟩
      · exact .inr ⟨k + 1, other, m, rfl⟩
    · rw [List.filter_cons_of_pos (by simpa using hblock), List.length_cons] at h
      have hnone : (rest.filter fun block => block ≠ newlineBlock) = [] := List.length_eq_zero_iff.mp (by omega)
      rw [List.filter_eq_nil_iff] at hnone
      refine .inr ⟨0, block, rest.length, congrArg (block :: ·) (List.eq_replicate_iff.mpr ⟨rfl, ?_⟩)⟩
      intro other hother
      simpa using hnone other hother

variable {text : Str}

theorem count_of_follows {n : Nat} (h : Follows wild folding (List.replicate n newlineBlock) text) :
    n ≤ text.count '\n' := by
  induction n generalizing text with
  | zero => exact Nat.zero_le _
  | succ n ih =>
    obtain ⟨gap, word, later, rfl, -, hword, hlater⟩ := h
    have hcount := ih hlater
    rw [same_newline.mp hword, List.count_append, List.count_append, List.count_singleton_self]
    omega

/-- Within lines, the next newlines will do. -/
theorem follows_of_count {n : Nat} (h : n ≤ text.count '\n') :
    Follows inLine folding (List.replicate n newlineBlock) text := by
  induction n generalizing text with
  | zero => trivial
  | succ n ih =>
    have hmem : '\n' ∈ text := List.count_pos_iff.mp (by omega)
    obtain ⟨gap, later, rfl, hgap⟩ := List.eq_append_cons_of_mem hmem
    rw [List.count_append, List.count_cons_self, List.count_eq_zero.mpr hgap] at h
    refine ⟨gap, ['\n'], later, rfl, ?_, same_self _, ih (by omega)⟩
    intro d hd
    refine decide_eq_true ?_
    rintro rfl
    exact hgap hd

/-- Within lines, the last newlines before a place will do. -/
theorem follows_behind {k : Nat} {front : Str} (hcount : k ≤ front.count '\n')
    (h : ∀ gap, (∀ d ∈ gap, inLine d = true) → Follows inLine folding blocks (gap ++ text)) :
    ∃ before rest, front = before ++ rest ∧ Follows inLine folding (List.replicate k newlineBlock ++ blocks) (rest ++ text) := by
  induction k generalizing front blocks text with
  | zero => exact ⟨front, [], (List.append_nil _).symm, h [] nofun⟩
  | succ k ih =>
    have hmem : '\n' ∈ front.reverse := List.mem_reverse.mpr (List.count_pos_iff.mp (by omega))
    obtain ⟨gap, more, hsplit, hgap⟩ := List.eq_append_cons_of_mem hmem
    have hfront : front = more.reverse ++ '\n' :: gap.reverse := by
      rw [← List.reverse_reverse front, hsplit]
      simp
    have hline : ∀ d ∈ gap.reverse, inLine d = true := by
      intro d hd
      refine decide_eq_true ?_
      rintro rfl
      exact hgap (List.mem_reverse.mp hd)
    rw [hfront, List.count_append, List.count_cons_self, count_gap hline] at hcount
    have hnext : ∀ gap', (∀ d ∈ gap', inLine d = true) →
        Follows inLine folding (newlineBlock :: blocks) (gap' ++ '\n' :: (gap.reverse ++ text)) := by
      intro gap' hgap'
      exact ⟨gap', ['\n'], gap.reverse ++ text, rfl, hgap', same_self _, h _ hline⟩
    have hfewer : k ≤ more.reverse.count '\n' := by omega
    obtain ⟨before, rest, hmore, hfollows⟩ := ih hfewer hnext
    refine ⟨before, rest ++ '\n' :: gap.reverse, ?_, ?_⟩
    · rw [hfront, hmore, List.append_assoc]
    · rw [List.replicate_succ', List.append_assoc, List.append_assoc]
      exact hfollows

/-- Where the blocks at the start end, those at the end follow. -/
theorem follows_append {first second : List Str} (h : Follows wild folding (first ++ second) text) :
    ∃ u v, text = u ++ v ∧ Follows wild folding first u ∧ Follows wild folding second v := by
  induction first generalizing text with
  | nil => exact ⟨[], text, rfl, trivial, h⟩
  | cons block first ih =>
    obtain ⟨gap, word, later, rfl, hgap, hword, hlater⟩ := h
    obtain ⟨u, v, rfl, hu, hv⟩ := ih hlater
    exact ⟨gap ++ (word ++ u), v, by simp [List.append_assoc], ⟨gap, word, u, rfl, hgap, hword, hu⟩, hv⟩

/-- Blocks that follow each other also do so within lines, somewhere, if all but one are single newlines. -/
theorem follows_inLine (hblocks : (blocks.filter fun block => block ≠ newlineBlock).length ≤ 1)
    (h : Follows anyChar folding blocks text) : ∃ before rest, text = before ++ rest ∧ Follows inLine folding blocks rest := by
  rcases newlines_around hblocks with ⟨k, rfl⟩ | ⟨k, block, m, rfl⟩
  · exact ⟨[], text, rfl, follows_of_count (count_of_follows h)⟩
  · obtain ⟨u, v, rfl, hu, gap, word, later, rfl, -, hword, hlater⟩ := follows_append h
    have hcount : k ≤ (u ++ gap).count '\n' := by
      have hk := count_of_follows hu
      rw [List.count_append]
      omega
    have hrest : ∀ gap', (∀ d ∈ gap', inLine d = true) →
        Follows inLine folding (block :: List.replicate m newlineBlock) (gap' ++ (word ++ later)) := by
      intro gap' hgap'
      exact ⟨gap', word, later, rfl, hgap', hword, follows_of_count (count_of_follows hlater)⟩
    obtain ⟨before, rest, hfront, hfollows⟩ := follows_behind hcount hrest
    refine ⟨before, rest ++ (word ++ later), ?_, hfollows⟩
    rw [← List.append_assoc u, hfront, List.append_assoc]

/-- Within lines is within the text. -/
theorem Follows.anyChar (h : Follows inLine folding blocks text) (before : Str) :
    Follows anyChar folding blocks (before ++ text) := by
  induction blocks generalizing text before with
  | nil => trivial
  | cons block rest ih =>
    obtain ⟨gap, word, later, rfl, -, hword, hlater⟩ := h
    exact ⟨before ++ gap, word, later, (List.append_assoc _ _ _).symm, fun _ _ => rfl, hword, ih hlater []⟩

/-! ## Weights of blocks -/

/-- A weight of texts that is at least that of their pieces, does not depend on letter case, and for which newlines and filler have no
weight. -/
structure Measure (folding : CaseFolding) (filler : Char) where
  weight : Str → Nat
  append_le : ∀ u v, weight u + weight v ≤ weight (u ++ v)
  same : ∀ {block word}, Same folding block word → weight word = weight block
  newline : weight newlineBlock = 0
  filled : ∀ block rest, weight (block ++ filler :: rest) = weight block + weight rest

namespace Measure

variable {filler : Char} (measure : Measure folding filler)

theorem nil : measure.weight [] = 0 := by
  have h := measure.append_le [] []
  rw [List.append_nil] at h
  omega

/-- The number of letters of one kind. -/
def letter {d : Char} (hd : d ≠ '\n') (hfiller : folding.fold filler ≠ folding.fold d) : Measure folding filler where
  weight text := text.countP fun c => folding.fold c = folding.fold d
  append_le u v := (List.countP_append).ge
  same {block word} h := by
    induction h with
    | nil => rfl
    | cons hfold _ ih => rw [List.countP_cons, List.countP_cons, ih, hfold]
  newline := by
    rw [newlineBlock, List.countP_singleton, if_neg]
    rw [decide_eq_true_eq]
    exact fun h => hd (fold_newline h.symm)
  filled block rest := by
    rw [List.countP_append, List.countP_cons_of_neg (by simpa using hfiller)]

/-- The number of newlines right behind another one. -/
def doubled : Str → Nat
  | [] => 0
  | [_] => 0
  | c :: d :: rest => (if c = '\n' ∧ d = '\n' then 1 else 0) + doubled (d :: rest)

theorem doubled_cons_le (c : Char) (text : Str) : doubled text ≤ doubled (c :: text) := by
  cases text with
  | nil => exact Nat.zero_le _
  | cons d rest => exact Nat.le_add_left _ _

theorem doubled_cons_of_ne {c : Char} (hc : c ≠ '\n') (text : Str) : doubled (c :: text) = doubled text := by
  cases text with
  | nil => rfl
  | cons d rest =>
    rw [doubled, if_neg (fun h => hc h.1), Nat.zero_add]

theorem fold_newline_iff {c d : Char} (h : folding.fold d = folding.fold c) : d = '\n' ↔ c = '\n' := by
  constructor
  · rintro rfl
    exact fold_newline h.symm
  · rintro rfl
    exact fold_newline h

def newlines (hfiller : filler ≠ '\n') : Measure folding filler where
  weight := doubled
  append_le u v := by
    induction u using doubled.induct with
    | case1 => exact (Nat.zero_add _).le
    | case2 c => exact (Nat.zero_add _).le.trans (doubled_cons_le c v)
    | case3 c d rest ih =>
      rw [List.cons_append, List.cons_append, doubled, doubled, Nat.add_assoc]
      exact Nat.add_le_add_left ih _
  same {block word} h := by
    induction block using doubled.induct generalizing word with
    | case1 =>
      rw [same_nil.mp h]
    | case2 c =>
      obtain ⟨d, rest, rfl, -, hrest⟩ := same_cons.mp h
      rw [same_nil.mp hrest]
      rfl
    | case3 c d rest ih =>
      obtain ⟨c', rest', rfl, hc, hrest⟩ := same_cons.mp h
      obtain ⟨d', rest', rfl, hd, -⟩ := same_cons.mp hrest
      rw [doubled, doubled, ih hrest]
      simp only [fold_newline_iff hc, fold_newline_iff hd]
  newline := rfl
  filled block rest := by
    induction block using doubled.induct with
    | case1 =>
      rw [List.nil_append, doubled_cons_of_ne hfiller]
      exact (Nat.zero_add _).symm
    | case2 c =>
      show (if c = '\n' ∧ filler = '\n' then 1 else 0) + doubled (filler :: rest) = 0 + doubled rest
      rw [if_neg (fun h => hfiller h.2), doubled_cons_of_ne hfiller]
    | case3 c d more ih =>
      rw [List.cons_append, List.cons_append, doubled, doubled, Nat.add_assoc]
      exact congrArg _ ih

/-- A block that is not empty and not a single newline has weight, for a filler that is not the first of its letters. -/
theorem exists_positive (hfiller : filler ≠ '\n') {block : Str} (hne : block ≠ []) (hblock : block ≠ newlineBlock)
    (hother : folding.fold filler ≠ folding.fold ((block.find? (· ≠ '\n')).getD '\n')) :
    ∃ measure : Measure folding filler, 0 < measure.weight block := by
  cases hfind : block.find? (· ≠ '\n') with
  | some d =>
    rw [hfind, Option.getD_some] at hother
    have hd : d ≠ '\n' := by simpa using List.find?_some hfind
    exact ⟨letter hd hother, List.countP_pos_iff.mpr ⟨d, List.mem_of_find?_eq_some hfind, decide_eq_true rfl⟩⟩
  | none =>
    -- nothing but newlines, two at least
    refine ⟨newlines hfiller, ?_⟩
    rw [List.find?_eq_none] at hfind
    obtain ⟨c, rest, rfl⟩ := List.exists_cons_of_ne_nil hne
    have hc : c = '\n' := by simpa using hfind c List.mem_cons_self
    subst hc
    cases rest with
    | nil => exact absurd rfl hblock
    | cons d rest =>
      have hd : d = '\n' := by simpa using hfind d (List.mem_cons_of_mem _ List.mem_cons_self)
      subst hd
      show 0 < doubled _
      rw [doubled, if_pos ⟨rfl, rfl⟩]
      omega

end Measure

/-! ## Two others -/

/-- The blocks, each with filler behind it. -/
def filledText (filler : Char) (blocks : List Str) : Str :=
  blocks.flatMap fun block => block ++ [filler]

theorem filledText_append (filler : Char) (blocks blocks' : List Str) :
    filledText filler (blocks ++ blocks') = filledText filler blocks ++ filledText filler blocks' :=
  List.flatMap_append

theorem weight_filledText {filler : Char} (measure : Measure folding filler) (blocks : List Str) :
    measure.weight (filledText filler blocks) = (blocks.map measure.weight).sum := by
  induction blocks with
  | nil => exact measure.nil
  | cons block rest ih =>
    have htext : filledText filler (block :: rest) = block ++ filler :: filledText filler rest := by
      unfold filledText
      rw [List.flatMap_cons, List.append_assoc, List.singleton_append]
    rw [htext, measure.filled, ih, List.map_cons, List.sum_cons]

theorem weight_filledText_append {filler : Char} (measure : Measure folding filler) (blocks blocks' : List Str) :
    measure.weight (filledText filler blocks ++ filledText filler blocks') =
      (blocks.map measure.weight).sum + (blocks'.map measure.weight).sum := by
  rw [← filledText_append, weight_filledText, List.map_append, List.sum_append]

theorem count_filledText {filler : Char} (hfiller : filler ≠ '\n') (n : Nat) :
    (filledText filler (List.replicate n newlineBlock)).count '\n' = n := by
  induction n with
  | zero => rfl
  | succ n ih =>
    have htext : filledText filler (List.replicate (n + 1) newlineBlock) =
        '\n' :: filler :: filledText filler (List.replicate n newlineBlock) := rfl
    rw [htext, List.count_cons_self, List.count_cons_of_ne hfiller, ih]

theorem weight_newlines {filler : Char} (measure : Measure folding filler) (n : Nat) :
    ((List.replicate n newlineBlock).map measure.weight).sum = 0 := by
  rw [List.map_replicate, measure.newline, List.sum_replicate]
  exact Nat.mul_zero n

/-- What is found of the blocks has their newlines, and at least their weight. -/
theorem follows_consumes (h : Follows inLine folding blocks text) :
    ∃ word after, text = word ++ after ∧ word.count '\n' = (blocks.map (List.count '\n')).sum ∧
      ∀ {filler : Char} (measure : Measure folding filler), (blocks.map measure.weight).sum ≤ measure.weight word := by
  induction blocks generalizing text with
  | nil => exact ⟨[], text, rfl, rfl, fun _ => Nat.zero_le _⟩
  | cons block rest ih =>
    obtain ⟨gap, found, later, rfl, hgap, hfound, hlater⟩ := h
    obtain ⟨word, after, rfl, hcount, hweight⟩ := ih hlater
    refine ⟨gap ++ (found ++ word), after, by simp [List.append_assoc], ?_, ?_⟩
    · have hsame : found.count '\n' = block.count '\n' := by
        induction hfound with
        | nil => rfl
        | cons hfold _ ih =>
          simp only [List.count_cons, ih, beq_iff_eq, Measure.fold_newline_iff hfold]
      rw [List.count_append, List.count_append, count_gap hgap, hsame, hcount, List.map_cons, List.sum_cons, Nat.zero_add]
    · intro filler measure
      have hgapWeight := measure.append_le gap (found ++ word)
      have hfoundWeight := measure.append_le found word
      have hrest := hweight measure
      rw [List.map_cons, List.sum_cons, ← measure.same hfound]
      omega

theorem weight_le_of_part {filler : Char} (measure : Measure folding filler) (before word after : Str) :
    measure.weight word ≤ measure.weight (before ++ (word ++ after)) := by
  have hbefore := measure.append_le before (word ++ after)
  have hafter := measure.append_le word after
  omega

theorem weight_pos {filler : Char} {measure : Measure folding filler} {block : Str} (hmem : block ∈ blocks)
    (h : 0 < measure.weight block) : 0 < (blocks.map measure.weight).sum := by
  induction blocks with
  | nil => cases hmem
  | cons first rest ih =>
    rcases List.mem_cons.mp hmem with rfl | hmem
    · exact Nat.lt_of_lt_of_le h (Nat.le_add_right _ _)
    · exact Nat.lt_of_lt_of_le (ih hmem) (Nat.le_add_left _ _)

/-- Anything can be between blocks. -/
theorem follows_filledText {filler : Char} {blocks' : List Str}
    (h : ∀ gap, Follows anyChar folding blocks' (gap ++ text)) (gap : Str) :
    Follows anyChar folding (blocks ++ blocks') (gap ++ (filledText filler blocks ++ text)) := by
  induction blocks generalizing gap with
  | nil => exact h gap
  | cons block rest ih =>
    refine ⟨gap, block, [filler] ++ (filledText filler rest ++ text), ?_, fun _ _ => rfl, same_self _, ih [filler]⟩
    unfold filledText
    rw [List.flatMap_cons]
    simp only [List.append_assoc]

/-- A digit that is none of two letters. -/
theorem exists_filler (folding : CaseFolding) (c d : Char) :
    ∃ filler, filler ≠ '\n' ∧ folding.fold filler ≠ folding.fold c ∧ folding.fold filler ≠ folding.fold d := by
  have hdigits : folding.fold '0' ≠ folding.fold '1' ∧ folding.fold '0' ≠ folding.fold '2' ∧ folding.fold '1' ≠ folding.fold '2' :=
    ⟨fun h => absurd (folding.caseless '1' (by decide) '0' h) (by decide),
      fun h => absurd (folding.caseless '2' (by decide) '0' h) (by decide),
      fun h => absurd (folding.caseless '2' (by decide) '1' h) (by decide)⟩
  by_cases h0 : folding.fold '0' ≠ folding.fold c ∧ folding.fold '0' ≠ folding.fold d
  · exact ⟨'0', by decide, h0⟩
  · by_cases h1 : folding.fold '1' ≠ folding.fold c ∧ folding.fold '1' ≠ folding.fold d
    · exact ⟨'1', by decide, h1⟩
    · refine ⟨'2', by decide, ?_⟩
      rw [not_and_or, not_not, not_not] at h0 h1
      obtain ⟨h01, h02, h12⟩ := hdigits
      constructor
      · intro h2
        rcases h0 with h0 | h0
        · exact h02 (h0.trans h2.symm)
        · rcases h1 with h1 | h1
          · exact h12 (h1.trans h2.symm)
          · exact h01 (h0.trans h1.symm)
      · intro h2
        rcases h0 with h0 | h0
        · rcases h1 with h1 | h1
          · exact h01 (h0.trans h1.symm)
          · exact h12 (h1.trans h2.symm)
        · exact h02 (h0.trans h2.symm)

/-- Newlines between two blocks that are something else cannot be crossed. -/
theorem exists_crossed {blocks' : List Str} {block block' : Str} (hmem : block ∈ blocks) (hmem' : block' ∈ blocks')
    (hne : block ≠ [] ∧ block ≠ newlineBlock) (hne' : block' ≠ [] ∧ block' ≠ newlineBlock) :
    ∃ text, Follows anyChar folding (blocks ++ blocks') text ∧
      ¬ ∃ before rest, text = before ++ rest ∧ Follows inLine folding (blocks ++ blocks') rest := by
  obtain ⟨filler, hfiller, hother, hother'⟩ := exists_filler folding ((block.find? (· ≠ '\n')).getD '\n')
    ((block'.find? (· ≠ '\n')).getD '\n')
  obtain ⟨measure, hpositive⟩ := Measure.exists_positive hfiller hne.1 hne.2 hother
  obtain ⟨measure', hpositive'⟩ := Measure.exists_positive hfiller hne'.1 hne'.2 hother'
  let n := ((blocks ++ blocks').map (List.count '\n')).sum + 1
  let left := filledText filler blocks
  let wall := filledText filler (List.replicate n newlineBlock)
  let right := filledText filler blocks'
  have hwall : wall.count '\n' = n := count_filledText hfiller n
  refine ⟨left ++ (wall ++ right), ?_, ?_⟩
  · have hright : ∀ gap, Follows anyChar folding blocks' (gap ++ (wall ++ right)) := by
      intro gap
      have hnothing : ∀ gap, Follows anyChar folding [] (gap ++ []) := fun _ => trivial
      have hfollows : Follows anyChar folding (blocks' ++ []) ((gap ++ wall) ++ (right ++ [])) :=
        follows_filledText hnothing (gap ++ wall)
      rw [List.append_nil, List.append_nil, List.append_assoc] at hfollows
      exact hfollows
    exact follows_filledText hright []
  · rintro ⟨before, rest, htext, hfollows⟩
    obtain ⟨word, after, rfl, hcount, hweight⟩ := follows_consumes hfollows
    have hfew : word.count '\n' < n := by
      rw [hcount]
      exact Nat.lt_succ_self _
    have hsuffix : right <:+ left ++ (wall ++ right) := ⟨left ++ wall, List.append_assoc _ _ _⟩
    have hsuffix' : after <:+ left ++ (wall ++ right) := ⟨before ++ word, by rw [htext, List.append_assoc]⟩
    by_cases hbefore : left.length ≤ before.length
    · -- behind the blocks on the left, the first of the two is missing
      obtain ⟨front, rfl⟩ : left <+: before :=
        List.prefix_of_prefix_length_le ⟨_, rfl⟩ ⟨_, htext.symm⟩ hbefore
      rw [List.append_assoc] at htext
      have hpart := weight_le_of_part measure front word after
      rw [← List.append_cancel_left htext, weight_filledText_append, weight_newlines] at hpart
      have htotal := hweight measure
      have hmissing := weight_pos hmem hpositive
      rw [List.map_append, List.sum_append] at htotal
      omega
    · by_cases hafter : right.length ≤ after.length
      · -- before the blocks on the right, the second of the two is missing
        obtain ⟨back, rfl⟩ : right <:+ after := List.suffix_of_suffix_length_le hsuffix hsuffix' hafter
        rw [← List.append_assoc, ← List.append_assoc word, ← List.append_assoc before] at htext
        have hpart := weight_le_of_part measure' before word back
        rw [← List.append_cancel_right htext, weight_filledText_append, weight_newlines] at hpart
        have htotal := hweight measure'
        have hmissing := weight_pos hmem' hpositive'
        rw [List.map_append, List.sum_append] at htotal
        omega
      · -- what is found crosses all the newlines
        obtain ⟨middle, hmiddle⟩ : before <+: left :=
          List.prefix_of_prefix_length_le ⟨_, htext.symm⟩ ⟨_, rfl⟩ (by omega)
        obtain ⟨middle', hmiddle'⟩ : after <:+ right := List.suffix_of_suffix_length_le hsuffix' hsuffix (by omega)
        rw [← hmiddle, ← hmiddle', List.append_assoc] at htext
        have hword := List.append_cancel_left htext
        rw [← List.append_assoc wall, ← List.append_assoc middle] at hword
        rw [← List.append_cancel_right hword, List.count_append, List.count_append, hwall] at hfew
        omega

/-! ## Which LIKE patterns are matched as LIKE says -/

open Regular

variable {folding : CaseFolding}

/-! ## Patterns without operators of the engine -/

/-- Two blocks that are not single newlines lie in two parts of the blocks. -/
theorem exists_two {blocks : List Str} (h : 1 < (blocks.filter fun block => block ≠ newlineBlock).length) :
    ∃ first second block block', blocks = first ++ second ∧ (block ∈ first ∧ block ≠ newlineBlock) ∧
      block' ∈ second ∧ block' ≠ newlineBlock := by
  induction blocks with
  | nil => cases h
  | cons block rest ih =>
    by_cases hblock : block = newlineBlock
    · rw [List.filter_cons_of_neg (by simpa using hblock)] at h
      obtain ⟨first, second, other, other', rfl, ⟨hother, hne⟩, hother'⟩ := ih h
      exact ⟨block :: first, second, other, other', rfl, ⟨List.mem_cons_of_mem _ hother, hne⟩, hother'⟩
    · rw [List.filter_cons_of_pos (by simpa using hblock), List.length_cons] at h
      obtain ⟨other, hother⟩ := List.exists_mem_of_length_pos (l := rest.filter fun block => block ≠ newlineBlock) (by omega)
      obtain ⟨hmem, hne⟩ := List.mem_filter.mp hother
      exact ⟨[block], rest, block, other, rfl, ⟨List.mem_cons_self, hblock⟩, hmem, of_decide_eq_true hne⟩

/-- The search within lines finds what LIKE means exactly for patterns between percent signs that look for one text, with newlines
around it at most. -/
theorem search_iff_blocks {pattern : Str} : (∀ text, Finds folding pattern text ↔ Fits anyChar folding pattern text) ↔
    '_' ∉ pattern ∧ pattern.head? = some '%' ∧ pattern.getLast? = some '%' ∧
      ((pattern.splitOn '%').filter fun block => block ≠ [] ∧ block ≠ ['\n']).length ≤ 1 := by
  have hblocks : (pattern.splitOn '%').filter (fun block => block ≠ [] ∧ block ≠ ['\n']) =
      (blocksOf pattern).filter fun block => block ≠ newlineBlock := by
    unfold blocksOf nonEmpty newlineBlock
    rw [List.filter_filter]
    congr 1
    funext block
    rw [Bool.decide_and, Bool.and_comm]
  rw [hblocks]
  constructor
  · intro h
    have hany := no_underscore h
    have hhead := head_percent h
    have hlast := last_percent h
    refine ⟨hany, hhead, hlast, ?_⟩
    by_contra hmore
    obtain ⟨first, second, block, block', hsplit, ⟨hmem, hne⟩, hmem', hne'⟩ := exists_two (Nat.lt_of_not_le hmore)
    have hnonEmpty : ∀ block ∈ first ++ second, block ≠ [] := by
      intro block hblock
      rw [← hsplit] at hblock
      exact of_decide_eq_true (List.mem_filter.mp hblock).2
    obtain ⟨text, hfollows, hcrossed⟩ := @exists_crossed folding _ _ _ _ hmem hmem'
      ⟨hnonEmpty block (List.mem_append_left _ hmem), hne⟩ ⟨hnonEmpty block' (List.mem_append_right _ hmem'), hne'⟩
    apply hcrossed
    rw [← hsplit] at hfollows ⊢
    rw [← finds_iff_found hany hhead hlast, h, fits_iff_follows hany hhead hlast]
    exact hfollows
  · rintro ⟨hany, hhead, hlast, hone⟩ text
    rw [finds_iff_found hany hhead hlast, fits_iff_follows hany hhead hlast]
    constructor
    · rintro ⟨before, rest, rfl, hfollows⟩
      exact hfollows.anyChar before
    · exact follows_inLine hone

/-! ## The expression -/

theorem needed_lt {pattern : Str} {c : Char} (hmem : c ∈ pattern) (hc : c = '*' ∨ c = '?') :
    needed pattern < (letters pattern).length := by
  induction pattern with
  | nil => cases hmem
  | cons d pattern ih =>
    have hle : needed pattern ≤ (letters pattern).length := by
      unfold needed letters
      rw [← List.countP_eq_length_filter]
      refine List.countP_mono_left fun e _ he => ?_
      rw [decide_eq_true_eq] at he ⊢
      exact he.1
    have hneeded : needed (d :: pattern) = needed pattern + if d ≠ '%' ∧ d ≠ '*' ∧ d ≠ '?' then 1 else 0 := by
      unfold needed
      rw [List.countP_cons]
      simp only [decide_eq_true_eq]
    by_cases hpercent : d = '%'
    · have hmem : c ∈ pattern := by
        rcases List.mem_cons.mp hmem with rfl | hmem
        · rw [hpercent] at hc
          exact absurd hc (by decide)
        · exact hmem
      have hrest := ih hmem
      rw [hneeded, if_neg (fun h => h.1 hpercent), hpercent, letters_percent]
      exact hrest
    · rw [hneeded, letters_cons hpercent, List.length_cons]
      rcases List.mem_cons.mp hmem with rfl | hmem
      · rw [if_neg]
        · omega
        · rintro ⟨-, hstar, hopt⟩
          exact hc.elim hstar hopt
      · have hrest := ih hmem
        split
        · omega
        · omega

/-- What the expression gives for a pattern that the engine reads, and for one it does not read. -/
theorem handle_eq (engine : RegexEngine folding) (caseInsensitive patternIsLiteral : Bool) (pattern text : Str) :
    (∃ e, parseConcat (caseOf folding caseInsensitive) .item [] (pattern.flatMap rewritten) = .error e ∧
      ∀ value, handleRegexLikeExpr engine caseInsensitive patternIsLiteral (some text) (some pattern) ≠ .ok (some value)) ∨
    ∃ asts, parseConcat (caseOf folding caseInsensitive) .item [] (pattern.flatMap rewritten) = .ok asts ∧
      handleRegexLikeExpr engine caseInsensitive patternIsLiteral (some text) (some pattern) =
        .ok (some ((concat asts).search text)) := by
  have hparse := parseRegex_like folding pattern caseInsensitive
  cases hresult : parseConcat (caseOf folding caseInsensitive) .item [] (pattern.flatMap rewritten) with
  | error e =>
    rw [hresult] at hparse
    refine .inl ⟨e, rfl, ?_⟩
    have hcovered : e ≠ .notCovered := by
      rintro rfl
      exact (parse_covered (by decide) []).1 hresult
    obtain ⟨message, hmessage⟩ : ∃ message, engine.isMatch (likeToRegex pattern caseInsensitive) text = .error message :=
      engine.rejects_covered hparse hcovered
    intro value
    unfold handleRegexLikeExpr strContains
    simp only [Option.map_some, hmessage]
    cases patternIsLiteral with
    | true => simp
    | false => simp
  | ok asts =>
    rw [hresult] at hparse
    refine .inr ⟨asts, rfl, ?_⟩
    unfold handleRegexLikeExpr strContains
    simp only [Option.map_some, engine.matches_covered hparse]

/-- **`like` and `ilike` give what LIKE means on every text exactly for the patterns that look for a text.** -/
theorem like_iff (engine : RegexEngine folding) (caseInsensitive patternIsLiteral : Bool) (pattern : Str) :
    (∀ text, handleRegexLikeExpr engine caseInsensitive patternIsLiteral (some text) (some pattern) =
        .ok (some (likeMatches (caseOf folding caseInsensitive) pattern text))) ↔ LooksFor pattern := by
  have hplainParse : (∀ c ∈ pattern, isMeta c = false ∧ c ≠ '*' ∧ c ≠ '?') →
      parseConcat (caseOf folding caseInsensitive) .item [] (pattern.flatMap rewritten) =
        .ok (pattern.map (item (caseOf folding caseInsensitive))) :=
    fun hplain => parse_plain hplain (by decide) []
  have hlooks : LooksFor pattern → ∀ c ∈ pattern, isMeta c = false ∧ c ≠ '*' ∧ c ≠ '?' :=
    fun h c hc => ⟨(h.1 c hc).1, (h.1 c hc).2.1, (h.1 c hc).2.2.1⟩
  rcases handle_eq engine caseInsensitive patternIsLiteral pattern [] with ⟨e, herror, hfails⟩ | ⟨asts, hasts, -⟩
  · refine iff_of_false (fun h => hfails _ (h [])) fun h => ?_
    rw [hplainParse (hlooks h)] at herror
    cases herror
  · have hvalue : ∀ text, handleRegexLikeExpr engine caseInsensitive patternIsLiteral (some text) (some pattern) =
        .ok (some ((concat asts).search text)) := by
      intro text
      rcases handle_eq engine caseInsensitive patternIsLiteral pattern text with ⟨e, herror, -⟩ | ⟨asts', hasts', hvalue⟩
      · rw [hasts] at herror
        cases herror
      · rw [hasts] at hasts'
        cases hasts'
        exact hvalue
    have hagree : ∀ text, (handleRegexLikeExpr engine caseInsensitive patternIsLiteral (some text) (some pattern) =
          .ok (some (likeMatches (caseOf folding caseInsensitive) pattern text))) ↔
        ((∃ before word after, text = before ++ (word ++ after) ∧ (concat asts).Matches word) ↔
          Fits anyChar (caseOf folding caseInsensitive) pattern text) := by
      intro text
      rw [hvalue, Except.ok.injEq, Option.some_inj, Bool.eq_iff_iff, search_iff, likeMatches_iff]
    simp only [hagree]
    by_cases hplain : ∀ c ∈ pattern, isMeta c = false ∧ c ≠ '*' ∧ c ≠ '?'
    · rw [hplainParse hplain] at hasts
      cases hasts
      simp only [concat_item_iff]
      show (∀ text, Finds _ pattern text ↔ _) ↔ _
      rw [search_iff_blocks]
      constructor
      · rintro ⟨hany, hrest⟩
        refine ⟨fun c hc => ?_, hrest⟩
        obtain ⟨hmeta, hstar, hopt⟩ := hplain c hc
        exact ⟨hmeta, hstar, hopt, fun h => hany (h ▸ hc)⟩
      · rintro ⟨hletters, hrest⟩
        exact ⟨fun hmem => (hletters '_' hmem).2.2.2 rfl, hrest⟩
    · refine iff_of_false (fun h => ?_) fun h => hplain (hlooks h)
      -- a repetition makes the shortest match too short
      obtain ⟨c, hc⟩ := not_forall.mp hplain
      obtain ⟨hmem, hc⟩ := Classical.not_imp.mp hc
      have hmeta : isMeta c = false := by
        by_contra hmeta
        exact (parse_covered (by decide) []).2 ⟨c, hmem, by simpa using hmeta⟩ asts hasts
      have hoperator : c = '*' ∨ c = '?' := by
        by_contra hnone
        rw [not_or] at hnone
        exact hc ⟨hmeta, hnone⟩
      have hempty : (concat ([] : List (Regular Char)).reverse).Matches [] := rfl
      obtain ⟨word, hword, hlength⟩ := parse_short (by decide) hasts hempty
      have hfits := (h word).mp ⟨[], word, [], by simp, hword⟩
      have hle := hfits.length_le
      have hlt := needed_lt hmem hoperator
      rw [List.length_nil, Nat.zero_add] at hlength
      omega

/-! ## An engine -/

/-- An engine that reads the covered syntax only. -/
def coveredEngine (folding : CaseFolding) : RegexEngine folding where
  isMatch pattern text :=
    match parseRegex folding pattern with
    | .ok asts => .ok ((concat asts).search text)
    | .error _ => .error "regex parse error"
  matches_covered h := by
    rw [h]
  rejects_covered h _ := by
    rw [h]
    exact ⟨_, rfl⟩

/-- **A text is found where the pattern is a part of it, an escaped character is an error, a percent sign does not cross a newline, and a
star repeats the letter before it.** -/
theorem like_deviates :
    handleRegexLikeExpr (coveredEngine .sensitive) false true (some "xabc".toList) (some "abc".toList) ≠
        .ok (some (likeMatches .sensitive "abc".toList "xabc".toList)) ∧
      handleRegexLikeExpr (coveredEngine .sensitive) false true (some "a.b".toList) (some "a.b".toList) ≠
        .ok (some (likeMatches .sensitive "a.b".toList "a.b".toList)) ∧
      handleRegexLikeExpr (coveredEngine .sensitive) false true (some "a\nb".toList) (some "%a%b%".toList) ≠
        .ok (some (likeMatches .sensitive "%a%b%".toList "a\nb".toList)) ∧
      handleRegexLikeExpr (coveredEngine .sensitive) false true (some "b".toList) (some "%a*%".toList) ≠
        .ok (some (likeMatches .sensitive "%a*%".toList "b".toList)) := by
  decide +kernel

end Regexp

end Fenic
