import Fenic.Regexp.LikeSyntax

/-!
# `Regexp.LikeSearch` — searching for a LIKE pattern

A LIKE pattern is compared with a whole text, and a percent sign stands for anything. The engine searches for a piece of the text, and a
percent sign stays within a line. For patterns that begin and end with a percent sign both are a matter of the texts between the percent
signs, one behind the other (`finds_iff_found`, `fits_iff_follows`).

A pattern that begins and ends with a percent sign asks for the texts between its percent signs, one behind the other. Within lines this is
more than in the whole text as soon as two of them are something else than a single newline: a text that has many newlines between these two
tells the difference (`search_iff_blocks`).
-/

namespace Fenic

namespace Regexp

open Regular

variable {wild : Char → Bool} {folding : CaseFolding}

/-- The text fits the pattern as a whole, where the wildcards stand for some characters only. -/
def Fits (wild : Char → Bool) (folding : CaseFolding) : Str → Str → Prop
  | [], text => text = []
  | c :: pattern, text =>
    if c = '%' then ∃ gap rest, text = gap ++ rest ∧ (∀ d ∈ gap, wild d = true) ∧ Fits wild folding pattern rest
    else ∃ d rest, text = d :: rest ∧ (if c = '_' then wild d = true else folding.fold d = folding.fold c) ∧
      Fits wild folding pattern rest

def anyChar (_ : Char) : Bool :=
  true

def inLine (c : Char) : Bool :=
  decide (c ≠ '\n')

/-- Some piece of the text fits the pattern, within lines. -/
def Finds (folding : CaseFolding) (pattern text : Str) : Prop :=
  ∃ before word after, text = before ++ (word ++ after) ∧ Fits inLine folding pattern word

variable {text : Str}

theorem fits_percent {pattern : Str} : Fits wild folding ('%' :: pattern) text ↔
    ∃ gap rest, text = gap ++ rest ∧ (∀ d ∈ gap, wild d = true) ∧ Fits wild folding pattern rest := by
  rw [Fits, if_pos rfl]

theorem fits_cons {c : Char} (hpercent : c ≠ '%') {pattern : Str} : Fits wild folding (c :: pattern) text ↔
    ∃ d rest, text = d :: rest ∧ (if c = '_' then wild d = true else folding.fold d = folding.fold c) ∧
      Fits wild folding pattern rest := by
  rw [Fits, if_neg hpercent]

/-- What LIKE means is a fit with wildcards for all characters. -/
theorem likeMatches_iff {pattern : Str} : likeMatches folding pattern text = true ↔ Fits anyChar folding pattern text := by
  induction pattern generalizing text with
  | nil =>
    rw [likeMatches, Fits, List.isEmpty_iff]
  | cons c pattern ih =>
    rw [likeMatches.eq_def]
    dsimp only
    by_cases hpercent : c = '%'
    · rw [if_pos hpercent, hpercent, fits_percent, List.any_eq_true]
      constructor
      · rintro ⟨rest, hrest, hmatches⟩
        obtain ⟨gap, rfl⟩ := (List.mem_tails _ _).mp hrest
        exact ⟨gap, rest, rfl, fun _ _ => rfl, ih.mp hmatches⟩
      · rintro ⟨gap, rest, rfl, -, hfits⟩
        exact ⟨rest, (List.mem_tails _ _).mpr (List.suffix_append gap rest), ih.mpr hfits⟩
    · rw [if_neg hpercent, fits_cons hpercent]
      cases text with
      | nil =>
        refine iff_of_false Bool.false_ne_true ?_
        rintro ⟨d, rest, h, -⟩
        cases h
      | cons d text =>
        have hletter : (decide (c = '_') || decide (folding.fold d = folding.fold c)) = true ↔
            if c = '_' then anyChar d = true else folding.fold d = folding.fold c := by
          rw [Bool.or_eq_true, decide_eq_true_eq, decide_eq_true_eq]
          by_cases hany : c = '_'
          · rw [if_pos hany]
            exact iff_of_true (.inl hany) rfl
          · rw [if_neg hany]
            exact or_iff_right hany
        show (_ && _) = true ↔ _
        rw [Bool.and_eq_true, hletter, ih]
        constructor
        · rintro ⟨hd, hrest⟩
          exact ⟨d, text, rfl, hd, hrest⟩
        · rintro ⟨d', rest, heq, hd, hrest⟩
          obtain ⟨rfl, rfl⟩ := List.cons.inj heq
          exact ⟨hd, hrest⟩

/-- What the engine reads of the pattern is a fit with wildcards within a line. -/
theorem concat_item_iff {pattern word : Str} :
    (concat (pattern.map (item folding))).Matches word ↔ Fits inLine folding pattern word := by
  induction pattern generalizing word with
  | nil => exact Iff.rfl
  | cons c pattern ih =>
    rw [List.map_cons, matches_concat_cons]
    unfold item
    by_cases hpercent : c = '%'
    · rw [if_pos hpercent, hpercent, fits_percent]
      constructor
      · rintro ⟨gap, rest, rfl, hgap, hrest⟩
        exact ⟨gap, rest, rfl, matches_star_letter.mp hgap, ih.mp hrest⟩
      · rintro ⟨gap, rest, rfl, hgap, hrest⟩
        exact ⟨gap, rest, rfl, matches_star_letter.mpr hgap, ih.mpr hrest⟩
    · rw [if_neg hpercent, fits_cons hpercent]
      constructor
      · rintro ⟨u, rest, rfl, hu, hrest⟩
        by_cases hany : c = '_'
        · rw [if_pos hany] at hu
          obtain ⟨d, rfl, hd⟩ := hu
          exact ⟨d, rest, rfl, by rw [if_pos hany]; exact hd, ih.mp hrest⟩
        · rw [if_neg hany] at hu
          obtain ⟨d, rfl, hd⟩ := hu
          exact ⟨d, rest, rfl, by rw [if_neg hany]; exact of_decide_eq_true hd, ih.mp hrest⟩
      · rintro ⟨d, rest, rfl, hd, hrest⟩
        refine ⟨[d], rest, rfl, ?_, ih.mpr hrest⟩
        by_cases hany : c = '_'
        · rw [if_pos hany] at hd ⊢
          exact ⟨d, rfl, hd⟩
        · rw [if_neg hany] at hd ⊢
          exact ⟨d, rfl, decide_eq_true hd⟩

/-! ## Lengths -/

/-- The characters of a pattern that need one in the text. -/
def letters (pattern : Str) : Str :=
  pattern.filter fun c => c ≠ '%'

theorem letters_percent (pattern : Str) : letters ('%' :: pattern) = letters pattern :=
  List.filter_cons_of_neg (by decide)

theorem letters_cons {c : Char} (hpercent : c ≠ '%') (pattern : Str) : letters (c :: pattern) = c :: letters pattern :=
  List.filter_cons_of_pos (decide_eq_true hpercent)

theorem Fits.length_le {pattern : Str} (h : Fits wild folding pattern text) : (letters pattern).length ≤ text.length := by
  induction pattern generalizing text with
  | nil => exact Nat.zero_le _
  | cons c pattern ih =>
    by_cases hpercent : c = '%'
    · subst hpercent
      obtain ⟨gap, rest, rfl, -, hrest⟩ := fits_percent.mp h
      have hle := ih hrest
      rw [letters_percent, List.length_append]
      omega
    · obtain ⟨d, rest, rfl, -, hrest⟩ := (fits_cons hpercent).mp h
      rw [letters_cons hpercent, List.length_cons, List.length_cons]
      exact Nat.succ_le_succ (ih hrest)

/-- A text that is no longer than it must be has nothing for the percent signs. -/
theorem Fits.aligned {pattern : Str} (h : Fits wild folding pattern text) (hlength : text.length ≤ (letters pattern).length) :
    List.Forall₂ (fun c d => if c = '_' then wild d = true else folding.fold d = folding.fold c) (letters pattern) text := by
  induction pattern generalizing text with
  | nil =>
    rw [show text = [] from h]
    exact .nil
  | cons c pattern ih =>
    by_cases hpercent : c = '%'
    · subst hpercent
      obtain ⟨gap, rest, rfl, -, hrest⟩ := fits_percent.mp h
      have hle := hrest.length_le
      rw [letters_percent, List.length_append] at hlength
      have hgap : gap = [] := List.length_eq_zero_iff.mp (by omega)
      rw [hgap, letters_percent, List.nil_append]
      exact ih hrest (by omega)
    · obtain ⟨d, rest, rfl, hd, hrest⟩ := (fits_cons hpercent).mp h
      rw [letters_cons hpercent, List.length_cons, List.length_cons] at hlength
      rw [letters_cons hpercent]
      exact .cons hd (ih hrest (by omega))

/-- Letters that stand for themselves fit the pattern. -/
theorem fits_of_aligned {pattern : Str}
    (h : List.Forall₂ (fun c d => if c = '_' then wild d = true else folding.fold d = folding.fold c) (letters pattern) text) :
    Fits wild folding pattern text := by
  induction pattern generalizing text with
  | nil =>
    cases h
    rfl
  | cons c pattern ih =>
    by_cases hpercent : c = '%'
    · subst hpercent
      exact fits_percent.mpr ⟨[], text, rfl, nofun, ih h⟩
    · rw [letters_cons hpercent] at h
      cases h with
      | cons hd hrest => exact (fits_cons hpercent).mpr ⟨_, _, rfl, hd, ih hrest⟩

/-- A piece of a text that fits a pattern with as many letters is the text. -/
theorem Finds.aligned {pattern : Str} (h : Finds folding pattern text) (hlength : text.length ≤ (letters pattern).length) :
    List.Forall₂ (fun c d => if c = '_' then inLine d = true else folding.fold d = folding.fold c) (letters pattern) text := by
  obtain ⟨before, word, after, rfl, hword⟩ := h
  have hle := hword.length_le
  rw [List.length_append, List.length_append] at hlength
  have hbefore : before = [] := List.length_eq_zero_iff.mp (by omega)
  have hafter : after = [] := List.length_eq_zero_iff.mp (by omega)
  rw [hbefore, hafter, List.nil_append, List.append_nil]
  exact hword.aligned (by omega)

/-! ## Parts of a pattern -/

theorem fits_append {first second : Str} : Fits wild folding (first ++ second) text ↔
    ∃ u v, text = u ++ v ∧ Fits wild folding first u ∧ Fits wild folding second v := by
  induction first generalizing text with
  | nil =>
    constructor
    · intro h
      exact ⟨[], text, rfl, rfl, h⟩
    · rintro ⟨u, v, rfl, hu, hv⟩
      rw [show u = [] from hu]
      exact hv
  | cons c first ih =>
    rw [List.cons_append]
    by_cases hpercent : c = '%'
    · subst hpercent
      constructor
      · rintro ⟨gap, rest, rfl, hgap, hrest⟩
        obtain ⟨u, v, rfl, hu, hv⟩ := ih.mp hrest
        exact ⟨gap ++ u, v, (List.append_assoc gap u v).symm, fits_percent.mpr ⟨gap, u, rfl, hgap, hu⟩, hv⟩
      · rintro ⟨w, v, rfl, hw, hv⟩
        obtain ⟨gap, u, rfl, hgap, hu⟩ := fits_percent.mp hw
        exact ⟨gap, u ++ v, List.append_assoc gap u v, hgap, ih.mpr ⟨u, v, rfl, hu, hv⟩⟩
    · rw [fits_cons hpercent]
      constructor
      · rintro ⟨d, rest, rfl, hd, hrest⟩
        obtain ⟨u, v, rfl, hu, hv⟩ := ih.mp hrest
        exact ⟨d :: u, v, rfl, (fits_cons hpercent).mpr ⟨d, u, rfl, hd, hu⟩, hv⟩
      · rintro ⟨w, v, rfl, hw, hv⟩
        obtain ⟨d, u, rfl, hd, hu⟩ := (fits_cons hpercent).mp hw
        exact ⟨d, u ++ v, rfl, hd, ih.mpr ⟨u, v, rfl, hu, hv⟩⟩

/-! ## What has to be at the ends -/

/-- A piece of the letters of a pattern fits it, if it has no wildcard for one character. -/
theorem finds_letters {pattern : Str} (hany : '_' ∉ pattern) (before after : Str) :
    Finds folding pattern (before ++ (letters pattern ++ after)) := by
  refine ⟨before, letters pattern, after, rfl, fits_of_aligned ?_⟩
  rw [List.forall₂_same]
  intro c hc
  rw [if_neg]
  rintro rfl
  exact hany (List.mem_filter.mp hc).1

/-- Two of the digits cannot both be the same letter. -/
theorem exists_other (folding : CaseFolding) (c : Char) : ∃ d, folding.fold d ≠ folding.fold c := by
  by_cases h : folding.fold '0' = folding.fold c
  · refine ⟨'1', fun h' => ?_⟩
    exact absurd (folding.caseless '1' (by decide) '0' (h.trans h'.symm)) (by decide)
  · exact ⟨'0', h⟩

theorem no_underscore {pattern : Str} (h : ∀ text, Finds folding pattern text ↔ Fits anyChar folding pattern text) :
    '_' ∉ pattern := by
  intro hmem
  -- a text with newlines for the wildcards
  let text := (letters pattern).map fun c => if c = '_' then '\n' else c
  have hfits : Fits anyChar folding pattern text := by
    refine fits_of_aligned ?_
    rw [List.forall₂_map_right_iff, List.forall₂_same]
    intro c _
    by_cases hc : c = '_'
    · rw [if_pos hc]
      rfl
    · rw [if_neg hc, if_neg hc]
  have haligned := ((h text).mpr hfits).aligned (List.length_map _).le
  rw [List.forall₂_map_right_iff, List.forall₂_same] at haligned
  have hnewline := haligned '_' (List.mem_filter.mpr ⟨hmem, by decide⟩)
  rw [if_pos rfl, if_pos rfl] at hnewline
  exact absurd hnewline (by decide)

theorem head_percent {pattern : Str} (h : ∀ text, Finds folding pattern text ↔ Fits anyChar folding pattern text) :
    pattern.head? = some '%' := by
  have hany := no_underscore h
  cases pattern with
  | nil =>
    -- the empty pattern is found anywhere
    have hfits := (h ['0']).mp (finds_letters hany [] ['0'])
    cases hfits
  | cons c pattern =>
    by_contra hhead
    have hpercent : c ≠ '%' := fun heq => hhead (congrArg some heq)
    have hc : c ≠ '_' := fun heq => hany (heq ▸ List.mem_cons_self)
    obtain ⟨d, hd⟩ := exists_other folding c
    have hfits := (h _).mp (finds_letters hany [d] [])
    obtain ⟨d', rest, heq, hd', -⟩ := (fits_cons hpercent).mp hfits
    rw [if_neg hc] at hd'
    obtain ⟨rfl, -⟩ := List.cons.inj heq
    exact hd hd'

theorem last_percent {pattern : Str} (h : ∀ text, Finds folding pattern text ↔ Fits anyChar folding pattern text) :
    pattern.getLast? = some '%' := by
  have hany := no_underscore h
  rcases List.eq_nil_or_concat pattern with rfl | ⟨front, c, rfl⟩
  · have hhead := head_percent h
    cases hhead
  · rw [List.concat_eq_append] at h hany ⊢
    by_contra hlast
    have hpercent : c ≠ '%' := fun heq => hlast (by rw [List.getLast?_concat, heq])
    have hc : c ≠ '_' := fun heq => hany (heq ▸ List.mem_append_right front List.mem_cons_self)
    obtain ⟨d, hd⟩ := exists_other folding c
    have hfits := (h _).mp (finds_letters hany [] [d])
    obtain ⟨u, v, heq, -, hv⟩ := fits_append.mp hfits
    obtain ⟨d', rest, rfl, hd', hrest⟩ := (fits_cons hpercent).mp hv
    rw [if_neg hc] at hd'
    rw [show rest = [] from hrest, List.nil_append] at heq
    obtain ⟨-, hsame⟩ := List.append_inj' heq rfl
    rw [List.cons.inj hsame |>.1] at hd
    exact hd hd'

/-! ## The texts between the percent signs -/

/-- The letters of the text are those of the block. -/
def Same (folding : CaseFolding) (block word : Str) : Prop :=
  List.Forall₂ (fun c d => folding.fold d = folding.fold c) block word

variable {word : Str}

theorem same_nil : Same folding [] word ↔ word = [] :=
  List.forall₂_nil_left_iff

theorem same_cons {c : Char} {block : Str} :
    Same folding (c :: block) word ↔ ∃ d rest, word = d :: rest ∧ folding.fold d = folding.fold c ∧ Same folding block rest := by
  constructor
  · intro h
    cases h with
    | cons hd hrest => exact ⟨_, _, rfl, hd, hrest⟩
  · rintro ⟨d, rest, rfl, hd, hrest⟩
    exact .cons hd hrest

theorem same_self (block : Str) : Same folding block block :=
  List.forall₂_same.mpr fun _ _ => rfl

/-- A newline is like a newline only. -/
theorem fold_newline {c : Char} (h : folding.fold c = folding.fold '\n') : c = '\n' :=
  folding.caseless '\n' (by decide) c h

theorem same_newline : Same folding ['\n'] word ↔ word = ['\n'] := by
  constructor
  · intro h
    obtain ⟨d, rest, rfl, hd, hrest⟩ := same_cons.mp h
    rw [same_nil.mp hrest, fold_newline hd]
  · rintro rfl
    exact same_self _

/-! ## Blocks one behind the other -/

/-- The text is the blocks with gaps between them. -/
def Spread (wild : Char → Bool) (folding : CaseFolding) : List Str → Str → Prop
  | [], _ => False
  | [block], text => Same folding block text
  | block :: rest, text => ∃ word gap later, text = word ++ (gap ++ later) ∧ Same folding block word ∧
      (∀ d ∈ gap, wild d = true) ∧ Spread wild folding rest later

variable {text : Str}

theorem spread_cons {block : Str} {rest : List Str} (hrest : rest ≠ []) : Spread wild folding (block :: rest) text ↔
    ∃ word gap later, text = word ++ (gap ++ later) ∧ Same folding block word ∧ (∀ d ∈ gap, wild d = true) ∧
      Spread wild folding rest later := by
  cases rest with
  | nil => exact absurd rfl hrest
  | cons next rest => exact Iff.rfl

theorem spread_nil_cons {rest : List Str} (hrest : rest ≠ []) : Spread wild folding ([] :: rest) text ↔
    ∃ gap later, text = gap ++ later ∧ (∀ d ∈ gap, wild d = true) ∧ Spread wild folding rest later := by
  rw [spread_cons hrest]
  constructor
  · rintro ⟨word, gap, later, rfl, hword, hgap, hlater⟩
    rw [same_nil.mp hword]
    exact ⟨gap, later, rfl, hgap, hlater⟩
  · rintro ⟨gap, later, rfl, hgap, hlater⟩
    exact ⟨[], gap, later, rfl, same_nil.mpr rfl, hgap, hlater⟩

/-- A pattern without wildcards for one character is its blocks. -/
theorem fits_iff_spread {pattern : Str} (hany : '_' ∉ pattern) :
    Fits wild folding pattern text ↔ Spread wild folding (pattern.splitOn '%') text := by
  induction pattern generalizing text with
  | nil => exact same_nil.symm
  | cons c pattern ih =>
    have hc : c ≠ '_' := fun h => hany (h ▸ List.mem_cons_self)
    have hrest : ∀ {text : Str}, Fits wild folding pattern text ↔ Spread wild folding (pattern.splitOn '%') text :=
      ih fun h => hany (List.mem_cons_of_mem c h)
    have hne := List.splitOn_ne_nil '%' pattern
    rw [List.splitOn_cons_eq_if_modifyHead]
    by_cases hpercent : c = '%'
    · subst hpercent
      rw [if_pos (beq_self_eq_true _), spread_nil_cons hne, fits_percent]
      simp only [hrest]
    · rw [if_neg (by simpa using hpercent), fits_cons hpercent]
      simp only [if_neg hc, hrest]
      obtain ⟨block, blocks, hsplit⟩ := List.exists_cons_of_ne_nil hne
      rw [hsplit, List.modifyHead_cons]
      by_cases hblocks : blocks = []
      · subst hblocks
        exact same_cons.symm
      · simp only [spread_cons hblocks]
        constructor
        · rintro ⟨d, rest, rfl, hd, word, gap, later, rfl, hword, hgap, hlater⟩
          exact ⟨d :: word, gap, later, rfl, same_cons.mpr ⟨d, word, rfl, hd, hword⟩, hgap, hlater⟩
        · rintro ⟨word, gap, later, rfl, hword, hgap, hlater⟩
          obtain ⟨d, word, rfl, hd, hword⟩ := same_cons.mp hword
          exact ⟨d, word ++ (gap ++ later), rfl, hd, word, gap, later, rfl, hword, hgap, hlater⟩

/-- From here on the text has the blocks one behind the other, each behind a gap. -/
def Follows (wild : Char → Bool) (folding : CaseFolding) : List Str → Str → Prop
  | [], _ => True
  | block :: rest, text => ∃ gap word later, text = gap ++ (word ++ later) ∧ (∀ d ∈ gap, wild d = true) ∧
      Same folding block word ∧ Follows wild folding rest later

/-- The blocks that are not empty. -/
def nonEmpty (blocks : List Str) : List Str :=
  blocks.filter fun block => block ≠ []

/-- Behind a last percent sign anything may follow. -/
theorem follows_iff_spread {blocks : List Str} (hlast : blocks.getLast? = some []) :
    (∃ gap word after, text = gap ++ (word ++ after) ∧ (∀ d ∈ gap, wild d = true) ∧ Spread wild folding blocks word) ↔
      Follows wild folding (nonEmpty blocks) text := by
  unfold nonEmpty
  induction blocks generalizing text with
  | nil => cases hlast
  | cons block rest ih =>
    by_cases hrest : rest = []
    · subst hrest
      rw [show block = [] from Option.some.inj hlast]
      exact iff_of_true ⟨[], [], text, rfl, nofun, same_nil.mpr rfl⟩ trivial
    · rw [List.getLast?_cons_of_ne_nil hrest] at hlast
      simp only [spread_cons hrest]
      by_cases hblock : block = []
      · rw [List.filter_cons_of_neg (by simpa using hblock), ← ih hlast, hblock]
        constructor
        · rintro ⟨gap, word, after, rfl, hgap, empty, gap', later, rfl, hempty, hgap', hlater⟩
          rw [same_nil.mp hempty]
          refine ⟨gap ++ gap', later, after, by simp [List.append_assoc], ?_, hlater⟩
          exact List.forall_mem_append.mpr ⟨hgap, hgap'⟩
        · rintro ⟨gap, word, after, rfl, hgap, hword⟩
          exact ⟨gap, word, after, rfl, hgap, [], [], word, rfl, same_nil.mpr rfl, nofun, hword⟩
      · rw [List.filter_cons_of_pos (by simpa using hblock)]
        constructor
        · rintro ⟨gap, word, after, rfl, hgap, found, gap', later, rfl, hfound, hgap', hlater⟩
          refine ⟨gap, found, gap' ++ (later ++ after), by simp [List.append_assoc], hgap, hfound, ?_⟩
          exact (ih hlast).mp ⟨gap', later, after, rfl, hgap', hlater⟩
        · rintro ⟨gap, found, later, rfl, hgap, hfound, hfollows⟩
          obtain ⟨gap', word, after, rfl, hgap', hword⟩ := (ih hlast).mpr hfollows
          exact ⟨gap, found ++ (gap' ++ word), after, by simp [List.append_assoc], hgap, found, gap', word, rfl, hfound, hgap', hword⟩

/-- The text can go on behind a last percent sign that stands for anything. -/
theorem spread_more {blocks : List Str} (hlast : blocks.getLast? = some []) (hmore : 2 ≤ blocks.length)
    (h : Spread anyChar folding blocks word) (after : Str) : Spread anyChar folding blocks (word ++ after) := by
  induction blocks generalizing word with
  | nil => cases hlast
  | cons block rest ih =>
    have hrest : rest ≠ [] := by
      rintro rfl
      exact absurd hmore (by simp)
    rw [List.getLast?_cons_of_ne_nil hrest] at hlast
    obtain ⟨found, gap, later, rfl, hfound, hgap, hlater⟩ := (spread_cons hrest).mp h
    rw [spread_cons hrest]
    by_cases hend : 2 ≤ rest.length
    · exact ⟨found, gap, later ++ after, by simp [List.append_assoc], hfound, hgap, ih hlast hend hlater⟩
    · obtain ⟨last, rfl⟩ : ∃ last, rest = [last] := by
        refine List.length_eq_one_iff.mp ?_
        have hpositive := List.length_pos_of_ne_nil hrest
        omega
      have hnil : last = [] := Option.some.inj hlast
      subst hnil
      rw [show later = [] from same_nil.mp hlater]
      exact ⟨found, gap ++ after, [], by simp [List.append_assoc], hfound, fun _ _ => rfl, same_nil.mpr rfl⟩

/-! ## Patterns between percent signs -/

section Between

variable {pattern : Str} (hany : '_' ∉ pattern) (hhead : pattern.head? = some '%') (hlast : pattern.getLast? = some '%')

/-- The texts between the percent signs. -/
def blocksOf (pattern : Str) : List Str :=
  nonEmpty (pattern.splitOn '%')

include hhead hlast in
/-- A pattern between percent signs has an empty block at its start and at its end. -/
theorem splitOn_between : ∃ rest, pattern.splitOn '%' = [] :: rest ∧ rest ≠ [] ∧ rest.getLast? = some [] := by
  cases pattern with
  | nil => cases hhead
  | cons c rest =>
    rw [show c = '%' from Option.some.inj hhead] at hlast ⊢
    refine ⟨rest.splitOn '%', ?_, List.splitOn_ne_nil _ _, ?_⟩
    · rw [List.splitOn_cons_eq_if_modifyHead, if_pos (beq_self_eq_true _)]
    · rcases List.eq_nil_or_concat rest with rfl | ⟨front, d, rfl⟩
      · rfl
      · rw [List.concat_eq_append] at hlast ⊢
        rw [List.getLast?_cons_of_ne_nil (List.append_ne_nil_of_right_ne_nil front (List.cons_ne_nil d [])),
          List.getLast?_concat] at hlast
        rw [show d = '%' from Option.some.inj hlast, List.splitOn_append_cons_self]
        exact List.getLast?_concat

theorem blocksOf_eq {rest : List Str} (h : pattern.splitOn '%' = [] :: rest) : blocksOf pattern = nonEmpty rest := by
  unfold blocksOf nonEmpty
  rw [h]
  exact List.filter_cons_of_neg (by simp)

include hany hhead hlast

/-- The engine finds the pattern where the blocks follow each other within lines. -/
theorem finds_iff_found {text : Str} :
    Finds folding pattern text ↔ ∃ before rest, text = before ++ rest ∧ Follows inLine folding (blocksOf pattern) rest := by
  obtain ⟨blocks, hsplit, hne, hend⟩ := splitOn_between hhead hlast
  unfold Finds
  simp only [fits_iff_spread hany, hsplit, spread_nil_cons hne, blocksOf_eq hsplit, ← follows_iff_spread hend]
  constructor
  · rintro ⟨before, word, after, rfl, gap, later, rfl, hgap, hlater⟩
    exact ⟨before, gap ++ (later ++ after), by rw [List.append_assoc], gap, later, after, rfl, hgap, hlater⟩
  · rintro ⟨before, rest, rfl, gap, word, after, rfl, hgap, hword⟩
    exact ⟨before, gap ++ word, after, by rw [List.append_assoc], gap, word, rfl, hgap, hword⟩

/-- The whole text fits the pattern if the blocks follow each other anywhere in it. -/
theorem fits_iff_follows {text : Str} :
    Fits anyChar folding pattern text ↔ Follows anyChar folding (blocksOf pattern) text := by
  obtain ⟨blocks, hsplit, hne, hend⟩ := splitOn_between hhead hlast
  rw [fits_iff_spread hany, hsplit, spread_nil_cons hne, blocksOf_eq hsplit, ← follows_iff_spread hend]
  constructor
  · rintro ⟨gap, later, rfl, hgap, hlater⟩
    exact ⟨gap, later, [], by rw [List.append_nil], hgap, hlater⟩
  · rintro ⟨gap, word, after, rfl, hgap, hword⟩
    by_cases hmore : 2 ≤ blocks.length
    · exact ⟨gap, word ++ after, rfl, hgap, spread_more hend hmore hword after⟩
    · obtain ⟨last, rfl⟩ : ∃ last, blocks = [last] := by
        refine List.length_eq_one_iff.mp ?_
        have hpositive := List.length_pos_of_ne_nil hne
        omega
      have hnil : last = [] := Option.some.inj hend
      subst hnil
      exact ⟨gap ++ (word ++ after), [], by rw [List.append_nil], fun _ _ => rfl, same_nil.mpr rfl⟩

end Between

end Regexp

end Fenic
