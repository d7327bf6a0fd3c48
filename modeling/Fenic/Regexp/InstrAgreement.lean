import Fenic.Regexp.Instr

/-!
# `Regexp.InstrAgreement` — both paths of `regexp_instr`

The two implementations give the same positions exactly when the text is a column, or the frame has one row, and every match can be
located: it starts behind characters of one byte each, and the matched text does not occur earlier (`paths_agree_iff`).
-/

namespace Fenic

namespace Regexp

open Utf8

variable {engine : Engine} {idx height : Nat}

/-! ## Rows -/

/-- A group that has a span is a piece of the text; the match is the text before it and the piece. -/
theorem groupMatch_cases {regex : engine.Regex} {pattern : Str} (hnew : engine.new pattern = .ok regex) (idx : Nat) (text : Str) :
    (groupSpan engine regex idx text = none ∧ groupMatch engine idx pattern text = none) ∨
    ∃ before matched after, text = before ++ (matched ++ after) ∧
      groupSpan engine regex idx text = some (byteLen before, byteLen before + byteLen matched) ∧
      slice (byteLen before) (byteLen before + byteLen matched) text = some matched ∧
      groupMatch engine idx pattern text = some (before, matched) := by
  unfold groupMatch
  rw [hnew]
  dsimp only
  cases hspan : groupSpan engine regex idx text with
  | none => exact .inl ⟨rfl, rfl⟩
  | some span =>
    right
    obtain ⟨start, stop⟩ := span
    have hbounds : ∃ before matched after, text = before ++ (matched ++ after) ∧ start = byteLen before ∧
        stop = byteLen before + byteLen matched := by
      unfold groupSpan at hspan
      split at hspan
      next captures hcaptures =>
          rw [Option.join_eq_some_iff] at hspan
          exact engine.captures_bounds hcaptures hspan
      next => cases hspan
    obtain ⟨before, matched, after, rfl, rfl, rfl⟩ := hbounds
    have hslice := slice_eq (dropBytes_append before (matched ++ after))
    refine ⟨before, matched, after, rfl, rfl, hslice, ?_⟩
    show (takeBytes (byteLen before) _).bind _ = _
    rw [takeBytes_append]
    show (slice _ _ _).map _ = _
    rw [hslice]
    rfl

/-- The match is a piece of the text. -/
theorem groupMatch_text {pattern text before matched : Str} (h : groupMatch engine idx pattern text = some (before, matched)) :
    ∃ after, text = before ++ (matched ++ after) := by
  cases hnew : engine.new pattern with
  | error e =>
    unfold groupMatch at h
    rw [hnew] at h
    cases h
  | ok regex =>
    rcases groupMatch_cases hnew idx text with ⟨-, hmatch⟩ | ⟨before', matched', after, htext, -, -, hmatch⟩
    · rw [h] at hmatch
      cases hmatch
    · rw [h] at hmatch
      cases hmatch
      exact ⟨after, htext⟩

/-- What the native expression gives for a row. -/
def nativeValue (engine : Engine) (idx : Nat) (text pattern : Option Str) : Option Int :=
  text.bind fun text =>
    match pattern.bind fun pattern => groupMatch engine idx pattern text with
    | some (_, matched) => (strFind text matched).map fun offset : Nat => (offset : Int) + 1
    | none => some 0

/-- What the plugin gives for a row. -/
def pluginValue (engine : Engine) (idx : Nat) (text pattern : Option Str) : Option Int :=
  text.bind fun text => pattern.map fun pattern =>
    match groupMatch engine idx pattern text with
    | some (before, _) => oneBased (byteLen before)
    | none => 0

theorem nativeRow_eq (text : Option Str) {pattern : Option Str} (haccepts : ∀ p, pattern = some p → Accepts engine idx p) :
    nativeRow engine idx text pattern = .ok (nativeValue engine idx text pattern) := by
  cases text with
  | none =>
    cases pattern with
    | none => rfl
    | some pattern => rfl
  | some text =>
    cases pattern with
    | none => rfl
    | some pattern =>
      obtain ⟨regex, hnew, -⟩ := haccepts pattern rfl
      unfold nativeRow nativeValue strExtract
      simp only [hnew, Option.bind_some]
      rcases groupMatch_cases hnew idx text with ⟨hspan, hmatch⟩ | ⟨before, matched, after, -, hspan, hslice, hmatch⟩
      · rw [hspan, hmatch]
        rfl
      · rw [hspan, hmatch]
        simp only [Option.bind_some, hslice]
        rfl

/-- The cache has what the patterns compile to. -/
def CacheSound (regexCache : Cache engine) : Prop :=
  ∀ pattern regex, regexCache.lookup pattern = some regex → engine.new pattern = .ok regex

variable {regexCache : Cache engine}

theorem getOrCompileRegex_sound (hsound : CacheSound regexCache) {pattern : Str} {regex : engine.Regex}
    (hnew : engine.new pattern = .ok regex) :
    ∃ regexCache', CacheSound regexCache' ∧ getOrCompileRegex engine regexCache pattern = .ok (regex, regexCache') := by
  unfold getOrCompileRegex
  cases hlookup : regexCache.lookup pattern with
  | some cached =>
    have hcached := hsound pattern cached hlookup
    rw [hnew] at hcached
    cases hcached
    exact ⟨regexCache, hsound, rfl⟩
  | none =>
    simp only [hnew]
    refine ⟨(pattern, regex) :: regexCache, ?_, rfl⟩
    intro pattern' regex' h
    rw [List.lookup_cons] at h
    split at h
    next heq =>
        cases h
        rw [beq_iff_eq.mp heq]
        exact hnew
    next => exact hsound pattern' regex' h

theorem instrValue_eq (hsound : CacheSound regexCache) (text : Option Str) {pattern : Option Str}
    (haccepts : ∀ p, pattern = some p → Accepts engine idx p) :
    ∃ regexCache', CacheSound regexCache' ∧
      instrValue engine regexCache text pattern (some idx) = .ok (pluginValue engine idx text pattern, regexCache') := by
  cases text with
  | none => exact ⟨regexCache, hsound, rfl⟩
  | some text =>
    cases pattern with
    | none => exact ⟨regexCache, hsound, rfl⟩
    | some pattern =>
      obtain ⟨regex, hnew, -⟩ := haccepts pattern rfl
      obtain ⟨regexCache', hsound', hcompile⟩ := getOrCompileRegex_sound hsound hnew
      refine ⟨regexCache', hsound', ?_⟩
      unfold instrValue pluginValue
      simp only [hcompile, Option.bind_some, Option.map_some, Int.toNat_natCast, Except.ok_bind]
      rcases groupMatch_cases hnew idx text with ⟨hspan, hmatch⟩ | ⟨before, matched, after, -, hspan, -, hmatch⟩
      · rw [hspan, hmatch]
        rfl
      · rw [hspan, hmatch]
        rfl

/-- The offset, as a position, is the number of characters exactly if these are one byte each and the number fits. -/
theorem oneBased_iff {offset count : Nat} (hle : count ≤ offset) (hsize : offset < 2 ^ 32) :
    oneBased offset = (count : Int) + 1 ↔ offset = count ∧ count + 1 < 2 ^ 31 := by
  unfold oneBased
  rw [Int.bmod_def, Int.bmod_def]
  constructor
  · intro h
    split at h <;> split at h <;> omega
  · rintro ⟨rfl, hfits⟩
    split <;> split <;> omega

/-- Both values of a row are its position exactly if the match can be located. -/
theorem value_iff {text : Option Str} (hsize : ∀ t, text = some t → byteLen t < 2 ^ 32) (pattern : Option Str) :
    (nativeValue engine idx text pattern = position engine idx text pattern ∧
      pluginValue engine idx text pattern = position engine idx text pattern) ↔ Located engine idx text pattern := by
  cases text with
  | none => exact iff_of_true ⟨rfl, rfl⟩ nofun
  | some t =>
    cases pattern with
    | none =>
      refine iff_of_false (fun h => nomatch h.2) ?_
      intro h
      obtain ⟨p, hp, -⟩ := h t rfl
      cases hp
    | some p =>
      cases hmatch : groupMatch engine idx p t with
      | none =>
        refine iff_of_true ?_ ?_
        · unfold nativeValue pluginValue position
          simp [hmatch]
        · intro t' ht
          cases ht
          refine ⟨p, rfl, fun before matched h => ?_⟩
          rw [hmatch] at h
          cases h
      | some parts =>
        obtain ⟨before, matched⟩ := parts
        obtain ⟨after, htext⟩ := groupMatch_text hmatch
        have hnative : nativeValue engine idx (some t) (some p) =
            (strFind t matched).map fun offset : Nat => (offset : Int) + 1 := by
          unfold nativeValue
          simp [hmatch]
        have hplugin : pluginValue engine idx (some t) (some p) = some (oneBased (byteLen before)) := by
          unfold pluginValue
          simp [hmatch]
        have hposition : position engine idx (some t) (some p) = some ((before.length : Int) + 1) := by
          unfold position
          simp [hmatch]
        have hlocated : Located engine idx (some t) (some p) ↔
            (∀ c ∈ before, c.utf8Size = 1) ∧ before.length + 1 < 2 ^ 31 ∧
              ∀ before' after, t = before' ++ (matched ++ after) → before.length ≤ before'.length := by
          constructor
          · intro h
            obtain ⟨p', hp, h⟩ := h t rfl
            cases hp
            exact h before matched hmatch
          · intro h t' ht
            cases ht
            refine ⟨p, rfl, fun before' matched' hmatch' => ?_⟩
            rw [hmatch] at hmatch'
            cases hmatch'
            exact h
        have hbytes : byteLen before < 2 ^ 32 := by
          have htotal := hsize t rfl
          rw [htext, byteLen_append] at htotal
          omega
        rw [hnative, hplugin, hposition, hlocated, Option.some_inj, oneBased_iff (length_le_byteLen before) hbytes,
          byteLen_eq_length_iff]
        constructor
        · rintro ⟨hfind, hascii, hfits⟩
          refine ⟨hascii, hfits, ?_⟩
          obtain ⟨offset, hoffset, heq⟩ := Option.map_eq_some_iff.mp hfind
          obtain ⟨parts, hparts, rfl⟩ := Option.map_eq_some_iff.mp hoffset
          obtain ⟨htext', hfirst⟩ := Occurrence.splitFirst_first hparts
          -- the first copy of the matched text starts at the same byte as the match, so it is the match
          have hlength := byteLen_eq_length_iff.mpr hascii
          have hsame : parts.1.length = before.length := by
            have hmin := hfirst before after htext
            obtain ⟨more, rfl⟩ : parts.1 <+: before :=
              List.prefix_of_prefix_length_le ⟨_, htext'.symm⟩ ⟨_, htext.symm⟩ hmin
            have hmore : byteLen more = 0 := by
              rw [byteLen_append] at hlength
              omega
            rw [byteLen_eq_zero.mp hmore, List.append_nil]
          rw [← hsame]
          exact hfirst
        · rintro ⟨hascii, hfits, hfirst⟩
          refine ⟨?_, hascii, hfits⟩
          unfold strFind
          rw [Occurrence.splitFirst_eq_some.mpr ⟨htext, hfirst⟩]
          show some ((byteLen before : Int) + 1) = _
          rw [byteLen_eq_length_iff.mpr hascii]

/-! ## The native path -/

/-- The native expression gives its value for each row. -/
theorem nativeInstr_rows {text pattern : Column Str} (htext : text.Fits height) (hpattern : pattern.Fits height)
    (haccepts : ∀ p, some p ∈ pattern.series → Accepts engine idx p) :
    (nativeInstr engine idx text pattern).map (Column.rows height) =
      .ok (List.zipWith (nativeValue engine idx) (text.rows height) (pattern.rows height)) := by
  have hrow : ∀ text pattern', pattern' ∈ pattern.series →
      nativeRow engine idx text pattern' = .ok (nativeValue engine idx text pattern') := by
    intro text pattern' hmem
    refine nativeRow_eq text fun p hp => haccepts p ?_
    rw [← hp]
    exact hmem
  cases text with
  | literal t =>
    cases pattern with
    | literal p =>
      show ((nativeRow engine idx t p).map Column.literal).map _ = _
      rw [hrow t p List.mem_cons_self]
      show Except.ok (List.replicate height _) = _
      rw [Column.rows, Column.rows, List.zipWith_replicate, Nat.min_self]
    | values ps =>
      show ((ps.mapM fun p => nativeRow engine idx t p).map Column.values).map _ = _
      have hrows : (ps.mapM fun p => nativeRow engine idx t p) = .ok (ps.map fun p => nativeValue engine idx t p) :=
        Except.mapM_eq_ok_map fun p hmem => hrow t p hmem
      rw [hrows]
      have hlength : ps.length = height := hpattern
      show Except.ok (ps.map fun p => nativeValue engine idx t p) = Except.ok (List.zipWith _ (List.replicate height t) ps)
      rw [← hlength, ← List.map_const', List.zipWith_map_left, List.zipWith_self]
  | values ts =>
    cases pattern with
    | literal p =>
      show ((ts.mapM fun t => nativeRow engine idx t p).map Column.values).map _ = _
      have hrows : (ts.mapM fun t => nativeRow engine idx t p) = .ok (ts.map fun t => nativeValue engine idx t p) :=
        Except.mapM_eq_ok_map fun t _ => hrow t p List.mem_cons_self
      rw [hrows]
      have hlength : ts.length = height := htext
      show Except.ok (ts.map fun t => nativeValue engine idx t p) = Except.ok (List.zipWith _ ts (List.replicate height p))
      rw [← hlength, ← List.map_const', List.zipWith_map_right, List.zipWith_self]
    | values ps =>
      show (((ts.zip ps).mapM fun row => nativeRow engine idx row.1 row.2).map Column.values).map _ = _
      have hrows : ((ts.zip ps).mapM fun row => nativeRow engine idx row.1 row.2) =
          .ok ((ts.zip ps).map fun row => nativeValue engine idx row.1 row.2) :=
        Except.mapM_eq_ok_map fun row hmem => hrow row.1 row.2 (List.of_mem_zip hmem).2
      rw [hrows]
      show Except.ok ((ts.zip ps).map _) = Except.ok (List.zipWith _ ts ps)
      rw [List.zip, List.map_zipWith]

/-! ## The plugin -/

/-- The loop gives the value of each row it can read. -/
theorem instrLoop_eq {textSeries patternSeries : Series Str} {idxSeries : Series Int} {indices : List Nat} {t p : Nat → Option Str}
    (hrow : ∀ i ∈ indices, textSeries.get i = .ok (t i) ∧
      patternSeries.get (if patternSeries.length = 1 then 0 else i) = .ok (p i) ∧
      idxSeries.get (if idxSeries.length = 1 then 0 else i) = .ok (some (idx : Int)))
    (haccepts : ∀ i ∈ indices, ∀ pattern, p i = some pattern → Accepts engine idx pattern)
    (hsound : CacheSound regexCache) :
    instrLoop engine textSeries patternSeries idxSeries indices regexCache =
      .ok (indices.map fun i => pluginValue engine idx (t i) (p i)) := by
  induction indices generalizing regexCache with
  | nil => rfl
  | cons i rest ih =>
    obtain ⟨⟨htext, hpattern, hidx⟩, hrow⟩ := List.forall_mem_cons.mp hrow
    obtain ⟨haccept, haccepts⟩ := List.forall_mem_cons.mp haccepts
    obtain ⟨regexCache', hsound', hvalue⟩ := instrValue_eq hsound (t i) haccept
    rw [instrLoop, htext, hpattern, hidx]
    simp only [Except.ok_bind, hvalue, ih hrow haccepts hsound']
    rfl

theorem instrLoop_length {textSeries patternSeries : Series Str} {idxSeries : Series Int} {indices : List Nat}
    {resultVec : List (Option Int)}
    (h : instrLoop engine textSeries patternSeries idxSeries indices regexCache = .ok resultVec) :
    resultVec.length = indices.length := by
  induction indices generalizing regexCache resultVec with
  | nil =>
    cases h
    rfl
  | cons i rest ih =>
    obtain ⟨textOpt, -, h⟩ := Except.bind_eq_ok.mp h
    obtain ⟨patternOpt, -, h⟩ := Except.bind_eq_ok.mp h
    obtain ⟨idxOpt, -, h⟩ := Except.bind_eq_ok.mp h
    obtain ⟨value, -, h⟩ := Except.bind_eq_ok.mp h
    obtain ⟨later, hlater, h⟩ := Except.bind_eq_ok.mp h
    cases h
    rw [List.length_cons, List.length_cons, ih hlater]

variable {α : Type} {column : Column α}

/-- Broadcasting reads the rows of a column. -/
theorem get_broadcast (hfits : column.Fits height) {i : Nat} (hi : i < height) :
    column.series.get (if column.series.length = 1 then 0 else i) = .ok ((column.rows height)[i]?.getD none) := by
  cases column with
  | literal value =>
    show Series.get [value] 0 = _
    rw [Column.rows, List.getElem?_replicate, if_pos hi]
    rfl
  | values rows =>
    have hlength : rows.length = height := hfits
    have hindex : (if rows.length = 1 then 0 else i) = i := by
      split
      · omega
      · rfl
    show Series.get rows (if rows.length = 1 then 0 else i) = .ok (rows[i]?.getD none)
    rw [hindex]
    unfold Series.get
    rw [List.getElem?_eq_getElem (by omega)]
    rfl

theorem Column.rows_length (hfits : column.Fits height) : (column.rows height).length = height := by
  cases column with
  | literal value => exact List.length_replicate
  | values rows => exact hfits

theorem Column.mem_series (hfits : column.Fits height) {i : Nat} (hi : i < height) :
    (column.rows height)[i]?.getD none ∈ column.series := by
  cases column with
  | literal value =>
    rw [Column.rows, List.getElem?_replicate, if_pos hi]
    exact List.mem_cons_self
  | values rows =>
    have hlength : rows.length = height := hfits
    show rows[i]?.getD none ∈ rows
    rw [List.getElem?_eq_getElem (by omega)]
    exact List.getElem_mem _

/-- The plugin gives its value for each row of a text column, and for the only row of a frame. -/
theorem regexpInstr_rows {text pattern : Column Str} (htext : text.Fits height) (hpattern : pattern.Fits height)
    (hrows : text.IsLiteral → height = 1) (haccepts : ∀ p, some p ∈ pattern.series → Accepts engine idx p) :
    regexpInstr engine text.series pattern.series (List.replicate height (some (idx : Int))) =
      .ok (List.zipWith (pluginValue engine idx) (text.rows height) (pattern.rows height)) := by
  have hseries : text.series = text.rows height := by
    cases text with
    | literal t =>
      rw [hrows trivial]
      rfl
    | values ts => rfl
  have hlength := Column.rows_length htext
  unfold regexpInstr
  rw [Rows.zipWith_eq_map_range hlength (Column.rows_length hpattern), hseries, hlength]
  refine instrLoop_eq ?_ ?_ nofun
  · intro i hi
    rw [List.mem_range] at hi
    refine ⟨?_, get_broadcast hpattern hi, ?_⟩
    · unfold Series.get
      rw [List.getElem?_eq_getElem (by omega)]
      rfl
    · have hfits : (Column.values (List.replicate height (some (idx : Int)))).Fits height := List.length_replicate
      have hget := get_broadcast hfits hi
      rw [Column.rows, List.getElem?_replicate, if_pos hi] at hget
      exact hget
  · intro i hi p hp
    apply haccepts p
    rw [← hp]
    exact Column.mem_series hpattern (List.mem_range.mp hi)

/-! ## Agreement -/

/-- **Both paths give the position of the match in every row exactly if the text is a column, or the frame has one row, and the match
in each row can be located.** -/
theorem paths_agree_iff {text pattern : Column Str} (htext : text.Fits height) (hpattern : pattern.Fits height)
    (haccepts : ∀ p, some p ∈ pattern.series → Accepts engine idx p) (hsize : ∀ t, some t ∈ text.series → byteLen t < 2 ^ 32) :
    PathsAgree engine height idx text pattern ↔
      (text.IsLiteral → height = 1) ∧
        ∀ row ∈ (text.rows height).zip (pattern.rows height), Located engine idx row.1 row.2 := by
  have hnative : (convertRegexpInstrExpr engine text pattern (.literal (some idx))).map (Column.rows height) =
      .ok (List.zipWith (nativeValue engine idx) (text.rows height) (pattern.rows height)) := by
    rw [← nativeInstr_rows htext hpattern haccepts]
    show (if (idx : Int) < 0 then Except.error Failure.overflowError else nativeInstr engine (idx : Int).toNat text pattern).map _ = _
    rw [if_neg (by omega), Int.toNat_natCast]
  have hplugin : (convertRegexpInstrExpr engine text pattern (.values (List.replicate height (some idx)))).map (Column.rows height) =
      regexpInstr engine text.series pattern.series (List.replicate height (some (idx : Int))) := by
    have hcolumn : convertRegexpInstrExpr engine text pattern (.values (List.replicate height (some idx))) =
        (regexpInstr engine text.series pattern.series (List.replicate height (some (idx : Int)))).map .values := rfl
    rw [hcolumn]
    cases regexpInstr engine text.series pattern.series (List.replicate height (some (idx : Int))) with
    | error failure => rfl
    | ok rows => rfl
  have hvalues : ∀ row ∈ (text.rows height).zip (pattern.rows height),
      (nativeValue engine idx row.1 row.2 = position engine idx row.1 row.2 ∧
        pluginValue engine idx row.1 row.2 = position engine idx row.1 row.2) ↔ Located engine idx row.1 row.2 := by
    intro row hmem
    refine value_iff (fun t ht => hsize t ?_) row.2
    obtain ⟨i, hi, hget⟩ := List.mem_iff_getElem.mp (List.of_mem_zip hmem).1
    have hseries := Column.mem_series htext (i := i) (by rw [← Column.rows_length htext]; exact hi)
    rw [List.getElem?_eq_getElem hi, hget, ht] at hseries
    exact hseries
  unfold PathsAgree
  dsimp only
  rw [hnative, hplugin, Except.ok.injEq, Rows.zipWith_eq_iff]
  constructor
  · rintro ⟨hsame, hsame'⟩
    have hrows : text.IsLiteral → height = 1 := by
      intro hliteral
      cases text with
      | values ts => exact hliteral.elim
      | literal t =>
        have hlength := instrLoop_length hsame'
        rw [List.length_zipWith, Column.rows_length htext, Column.rows_length hpattern, Nat.min_self] at hlength
        exact hlength
    refine ⟨hrows, fun row hmem => (hvalues row hmem).mp ⟨hsame row hmem, ?_⟩⟩
    rw [regexpInstr_rows htext hpattern hrows haccepts, Except.ok.injEq, Rows.zipWith_eq_iff] at hsame'
    exact hsame' row hmem
  · rintro ⟨hrows, hlocated⟩
    rw [regexpInstr_rows htext hpattern hrows haccepts, Except.ok.injEq, Rows.zipWith_eq_iff]
    exact ⟨fun row hmem => ((hvalues row hmem).mpr (hlocated row hmem)).1,
      fun row hmem => ((hvalues row hmem).mpr (hlocated row hmem)).2⟩

/-! ## Patterns without operators -/

/-- The characters that mean something else than themselves in a pattern. -/
def isOperator (c : Char) : Bool :=
  "\\.+*?()|[]\x7b\x7d^$".toList.contains c

/-- The engine on patterns without operators: such a pattern matches itself. -/
def literalEngine : Engine where
  Regex := Str
  new pattern := if pattern.any isOperator then .error "unsupported" else .ok pattern
  captures regex text := (Occurrence.splitFirst regex text).map fun parts => [some (byteLen parts.1, byteLen parts.1 + byteLen regex)]
  captures_bounds := by
    intro regex text groups idx start stop hcaptures hgroup
    obtain ⟨parts, hparts, rfl⟩ := Option.map_eq_some_iff.mp hcaptures
    obtain ⟨htext, -⟩ := Occurrence.splitFirst_first hparts
    cases idx with
    | zero =>
      cases hgroup
      exact ⟨parts.1, regex, parts.2, htext, rfl, rfl⟩
    | succ idx => cases hgroup

section Literal

variable {text pattern before after : Str}

theorem literalEngine_new (h : pattern.any isOperator = false) : literalEngine.new pattern = .ok pattern :=
  if_neg (Bool.eq_false_iff.mp h)

/-- The pattern is its only group. -/
theorem accepts_literal (h : pattern.any isOperator = false) : Accepts literalEngine 0 pattern := by
  refine ⟨pattern, literalEngine_new h, fun text groups hcaptures => ?_⟩
  obtain ⟨parts, -, rfl⟩ := Option.map_eq_some_iff.mp hcaptures
  exact Nat.zero_lt_one

/-- Such a pattern is located where it occurs first. -/
theorem located_literal (h : pattern.any isOperator = false) (hfound : Occurrence.splitFirst pattern text = some (before, after))
    (hascii : ∀ c ∈ before, c.utf8Size = 1) (hfits : before.length + 1 < 2 ^ 31) :
    Located literalEngine 0 (some text) (some pattern) := by
  intro t ht
  cases ht
  refine ⟨pattern, rfl, ?_⟩
  intro before' matched hmatch
  obtain ⟨htext, hfirst⟩ := Occurrence.splitFirst_first hfound
  have hcaptures : literalEngine.captures pattern text = some [some (byteLen before, byteLen before + byteLen pattern)] :=
    congrArg (Option.map _) hfound
  have hspan : groupSpan literalEngine pattern 0 text = some (byteLen before, byteLen before + byteLen pattern) := by
    unfold groupSpan
    rw [hcaptures]
    rfl
  have hgroup : groupMatch literalEngine 0 pattern text = some (before, pattern) := by
    unfold groupMatch
    rw [literalEngine_new h]
    simp only [hspan, Option.bind_some]
    rw [htext, takeBytes_append, slice_eq (dropBytes_append before (pattern ++ after))]
    rfl
  rw [hgroup] at hmatch
  cases hmatch
  exact ⟨hascii, hfits, hfirst⟩

end Literal

/-- A text with the pattern in it, and a missing one. -/
theorem paths_agree_ascii :
    PathsAgree literalEngine 2 0 (.values [some "cab".toList, none]) (.literal (some "ab".toList)) := by
  have hplain : "ab".toList.any isOperator = false := by decide
  have htext : (Column.values [some "cab".toList, none]).Fits 2 := rfl
  have hpattern : (Column.literal (some "ab".toList)).Fits 2 := trivial
  refine (paths_agree_iff htext hpattern ?_ ?_).mpr ⟨nofun, ?_⟩
  · intro p hp
    cases List.mem_singleton.mp hp
    exact accepts_literal hplain
  · intro t ht
    rcases List.mem_cons.mp ht with ht | ht
    · cases ht
      decide
    · cases List.mem_singleton.mp ht
  · intro row hrow
    rcases List.mem_cons.mp hrow with rfl | hrow
    · have hfound : Occurrence.splitFirst "ab".toList "cab".toList = some (['c'], []) := by decide
      exact located_literal hplain hfound (List.forall_mem_singleton.mpr rfl) (by decide)
    · rw [List.mem_singleton.mp hrow]
      exact nofun

/-- **The position behind a letter of two bytes counts bytes; a literal text is read for one row only; and a missing pattern is no match
for the one path and missing for the other.** -/
theorem paths_disagree :
    ¬ PathsAgree literalEngine 1 0 (.values [some "éa".toList]) (.literal (some ['a'])) ∧
    ¬ PathsAgree literalEngine 2 0 (.literal (some ['a'])) (.values [some ['a'], some ['b']]) ∧
    ¬ PathsAgree literalEngine 1 0 (.values [some ['a']]) (.values [none]) := by
  unfold PathsAgree
  decide +kernel

end Regexp

end Fenic
