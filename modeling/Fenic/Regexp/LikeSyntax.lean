import Fenic.Lib.Regular
import Fenic.Regexp.Instr

/-!
# `Regexp.LikeSyntax` — what the engine makes of a LIKE pattern

`like` and `ilike` rewrite a LIKE pattern to a regular one and search for it. The engine is only assumed to read the syntax that comes out of
the rewriting as it is documented (`parseRegex`).

The rewriting gives each character a text of its own, which the engine reads as one item (`parse_plain`), except that an escaped character
is an error (`parse_meta`) and that a star or a question mark repeats the item before it (`parse_short`).
-/

namespace Fenic

namespace Regexp

/-- Letter case. The newline and some of the digits have none. -/
structure CaseFolding where
  fold : Char → Char
  caseless : ∀ c ∈ ['\n', '0', '1', '2'], ∀ d, fold d = fold c → d = c

/-- Every character has its own case. -/
def CaseFolding.sensitive : CaseFolding where
  fold := id
  caseless _ _ _ h := h

/-- The characters that the rewriting escapes. -/
def isMeta (c : Char) : Bool :=
  "\\[]()\x7b\x7d^$.|+".toList.contains c

/-! ## The syntax of the engine -/

inductive SyntaxError where
  | repetitionMissing
  | unsupportedBackreference
  | escapeUnexpectedEof
  /-- Syntax that is not described here. -/
  | notCovered
  deriving DecidableEq, Repr

/-- Any character but a newline. -/
def dot : Regular Char :=
  .letter fun c => decide (c ≠ '\n')

def literal (folding : CaseFolding) (c : Char) : Regular Char :=
  .letter fun d => decide (folding.fold d = folding.fold c)

/-- What was read last: an item, a repetition, which a question mark makes lazy, or the beginning of an escape. -/
inductive Reading where
  | item
  | repetition
  | escape
  deriving DecidableEq, Repr

/-- A repetition takes the item before it. -/
def repeatLast (repetition : Regular Char → Regular Char) : List (Regular Char) → Except SyntaxError (List (Regular Char))
  | [] => .error .repetitionMissing
  | ast :: asts => .ok (repetition ast :: asts)

/-- The items of a pattern, with those before, the last one first. -/
def parseConcat (folding : CaseFolding) : Reading → List (Regular Char) → Str → Except SyntaxError (List (Regular Char))
  | reading, asts, [] => if reading = .escape then .error .escapeUnexpectedEof else .ok asts.reverse
  | reading, asts, c :: rest =>
    if reading = .escape then
      if c.isDigit then .error .unsupportedBackreference
      else if isMeta c then parseConcat folding .item (literal folding c :: asts) rest
      else .error .notCovered
    else if c = '?' then
      if reading = .repetition then parseConcat folding .item asts rest
      else (repeatLast .opt asts).bind fun asts => parseConcat folding .repetition asts rest
    else if c = '*' then (repeatLast .star asts).bind fun asts => parseConcat folding .repetition asts rest
    else if c = '.' then parseConcat folding .item (dot :: asts) rest
    else if c = '\\' then parseConcat folding .escape asts rest
    else if isMeta c then .error .notCovered
    else parseConcat folding .item (literal folding c :: asts) rest

/-- The items of a pattern, which may begin with the flag for letter case. -/
def parseRegex (folding : CaseFolding) (pattern : Str) : Except SyntaxError (List (Regular Char)) :=
  if "(?i)".toList <+: pattern then parseConcat folding .item [] (pattern.drop 4)
  else parseConcat .sensitive .item [] pattern

/-- The regex engine: whether a pattern matches somewhere in a text. It finds what the covered syntax matches, and rejects what is an
error in it. -/
structure RegexEngine (folding : CaseFolding) where
  isMatch : Str → Str → Except String Bool
  matches_covered : ∀ {pattern text asts}, parseRegex folding pattern = .ok asts →
    isMatch pattern text = .ok ((Regular.concat asts).search text)
  rejects_covered : ∀ {pattern text e}, parseRegex folding pattern = .error e → e ≠ .notCovered →
    ∃ message, isMatch pattern text = .error message

/-! ## The expression -/

/-- `_like_to_regex`. In the value of the first replacement polars expands `$` only, so that these four characters stand for each of the
characters it replaces. -/
def likeToRegex (patternExpr : Str) (caseInsensitive : Bool) : Str :=
  let escaped := patternExpr.flatMap fun c => if isMeta c then "\\\\\\1".toList else [c]
  let anySequence := escaped.flatMap fun c => if c = '%' then ".*".toList else [c]
  let regexExpr := anySequence.flatMap fun c => if c = '_' then ".".toList else [c]
  if caseInsensitive then "(?i)".toList ++ regexExpr else regexExpr

variable {folding : CaseFolding} (engine : RegexEngine folding)

/-- `str.contains` of a pattern, for a row. -/
def strContains (strict : Bool) (expr pattern : Option Str) : Except Failure (Option Bool) :=
  match expr, pattern with
  | some text, some pattern =>
    match engine.isMatch pattern text with
    | .ok found => .ok (some found)
    | .error e => if strict then .error (.computeError e) else .ok none
  | _, _ => .ok none

/-- `_handle_regex_like_expr`, for `LikeExpr` and `ILikeExpr`. -/
def handleRegexLikeExpr (caseInsensitive patternIsLiteral : Bool) (expr pattern : Option Str) : Except Failure (Option Bool) :=
  strContains engine patternIsLiteral expr (pattern.map fun pattern => likeToRegex pattern caseInsensitive)

/-! ## What LIKE means -/

/-- The whole text matches the LIKE pattern. -/
def likeMatches (folding : CaseFolding) : Str → Str → Bool
  | [], text => text.isEmpty
  | c :: pattern, text =>
    if c = '%' then text.tails.any (likeMatches folding pattern)
    else match text with
      | [] => false
      | d :: text => (decide (c = '_') || decide (folding.fold d = folding.fold c)) && likeMatches folding pattern text

/-- How letters are compared. -/
def caseOf (folding : CaseFolding) (caseInsensitive : Bool) : CaseFolding :=
  if caseInsensitive then folding else .sensitive

/-- The pattern looks for a text: between the percent signs at its start and at its end there are no other operators, and all texts between
two percent signs but one are a single newline. -/
def LooksFor (pattern : Str) : Prop :=
  (∀ c ∈ pattern, isMeta c = false ∧ c ≠ '*' ∧ c ≠ '?' ∧ c ≠ '_') ∧ pattern.head? = some '%' ∧ pattern.getLast? = some '%' ∧
    ((pattern.splitOn '%').filter fun block => block ≠ [] ∧ block ≠ ['\n']).length ≤ 1

/-! ## What the engine makes of a LIKE pattern -/

open Regular

/-! ## The text for each character -/

/-- What a character is rewritten to. -/
def rewritten (c : Char) : Str :=
  if isMeta c then "\\\\\\1".toList else if c = '%' then ".*".toList else if c = '_' then ".".toList else [c]

theorem rewritten_eq (c : Char) :
    (((if isMeta c then "\\\\\\1".toList else [c]).flatMap fun c => if c = '%' then ".*".toList else [c]).flatMap
      fun c => if c = '_' then ".".toList else [c]) = rewritten c := by
  unfold rewritten
  by_cases hmeta : isMeta c = true
  · rw [if_pos hmeta, if_pos hmeta]
    decide
  · rw [if_neg hmeta, if_neg hmeta, List.flatMap_singleton]
    by_cases hpercent : c = '%'
    · rw [if_pos hpercent, if_pos hpercent]
      decide
    · rw [if_neg hpercent, if_neg hpercent, List.flatMap_singleton]

theorem likeToRegex_eq (pattern : Str) (caseInsensitive : Bool) :
    likeToRegex pattern caseInsensitive =
      (if caseInsensitive then "(?i)".toList else []) ++ pattern.flatMap rewritten := by
  have hregex : pattern.flatMap rewritten = ((pattern.flatMap fun c => if isMeta c then "\\\\\\1".toList else [c]).flatMap
      fun c => if c = '%' then ".*".toList else [c]).flatMap fun c => if c = '_' then ".".toList else [c] := by
    rw [List.flatMap_assoc, List.flatMap_assoc]
    congr 1
    funext c
    rw [← List.flatMap_assoc]
    exact (rewritten_eq c).symm
  unfold likeToRegex
  dsimp only
  rw [← hregex]
  cases caseInsensitive with
  | true => rfl
  | false => rfl

/-- A rewritten pattern does not begin with a flag. -/
theorem head_rewritten (pattern : Str) : (pattern.flatMap rewritten).head? ≠ some '(' := by
  cases pattern with
  | nil => exact nofun
  | cons c pattern =>
    rw [List.flatMap_cons]
    unfold rewritten
    split
    next => exact nofun
    next hmeta =>
        split
        next => exact nofun
        next =>
            split
            next => exact nofun
            next =>
                intro h
                rw [show c = '(' from Option.some.inj h] at hmeta
                exact hmeta (by decide)

theorem parseRegex_like (folding : CaseFolding) (pattern : Str) (caseInsensitive : Bool) :
    parseRegex folding (likeToRegex pattern caseInsensitive) =
      parseConcat (caseOf folding caseInsensitive) .item [] (pattern.flatMap rewritten) := by
  rw [likeToRegex_eq]
  cases caseInsensitive with
  | true =>
    show (if "(?i)".toList <+: "(?i)".toList ++ pattern.flatMap rewritten then _ else _) = _
    rfl
  | false =>
    show (if "(?i)".toList <+: pattern.flatMap rewritten then _ else _) = _
    rw [if_neg]
    · rfl
    · rintro ⟨rest, hrest⟩
      apply head_rewritten pattern
      rw [show pattern.flatMap rewritten = _ from hrest.symm]
      rfl

/-! ## Reading one character -/

/-- The item of a character that is no operator of the engine. -/
def item (folding : CaseFolding) (c : Char) : Regular Char :=
  if c = '%' then .star dot else if c = '_' then dot else literal folding c

/-- A percent sign is a repetition. -/
def readingOf (c : Char) : Reading :=
  if c = '%' then .repetition else .item

theorem readingOf_ne_escape (c : Char) : readingOf c ≠ .escape := by
  unfold readingOf
  split
  · exact nofun
  · exact nofun

section OneCharacter

variable {folding : CaseFolding} {reading : Reading} (hreading : reading ≠ .escape) (asts : List (Regular Char)) (rest : Str)

include hreading

theorem parse_rewritten_meta {c : Char} (h : isMeta c = true) :
    parseConcat folding reading asts (rewritten c ++ rest) = .error .unsupportedBackreference := by
  unfold rewritten
  rw [if_pos h]
  show parseConcat folding reading asts ('\\' :: '\\' :: '\\' :: '1' :: rest) = _
  rw [parseConcat, if_neg hreading]
  rfl

/-- A character that is no operator is one item. -/
theorem parse_rewritten_item {c : Char} (hmeta : isMeta c = false) (hstar : c ≠ '*') (hopt : c ≠ '?') :
    parseConcat folding reading asts (rewritten c ++ rest) = parseConcat folding (readingOf c) (item folding c :: asts) rest := by
  unfold rewritten item readingOf
  rw [if_neg (Bool.eq_false_iff.mp hmeta)]
  by_cases hpercent : c = '%'
  · rw [if_pos hpercent, if_pos hpercent, if_pos hpercent]
    show parseConcat folding reading asts ('.' :: '*' :: rest) = _
    rw [parseConcat, if_neg hreading]
    rfl
  · rw [if_neg hpercent, if_neg hpercent, if_neg hpercent]
    by_cases hany : c = '_'
    · rw [if_pos hany, if_pos hany]
      show parseConcat folding reading asts ('.' :: rest) = _
      rw [parseConcat, if_neg hreading]
      rfl
    · have hdot : c ≠ '.' := by
        rintro rfl
        exact absurd hmeta (by decide)
      have hbackslash : c ≠ '\\' := by
        rintro rfl
        exact absurd hmeta (by decide)
      rw [if_neg hany, if_neg hany, List.singleton_append, parseConcat, if_neg hreading, if_neg hopt, if_neg hstar, if_neg hdot,
        if_neg hbackslash, if_neg (Bool.eq_false_iff.mp hmeta)]

/-- A star repeats the item before it. -/
theorem parse_rewritten_star : parseConcat folding reading asts (rewritten '*' ++ rest) =
    (repeatLast .star asts).bind fun asts => parseConcat folding .repetition asts rest := by
  show parseConcat folding reading asts ('*' :: rest) = _
  rw [parseConcat, if_neg hreading]
  rfl

/-- A question mark makes the item before it optional, or the repetition before it lazy. -/
theorem parse_rewritten_opt : parseConcat folding reading asts (rewritten '?' ++ rest) =
    if reading = .repetition then parseConcat folding .item asts rest
    else (repeatLast .opt asts).bind fun asts => parseConcat folding .repetition asts rest := by
  show parseConcat folding reading asts ('?' :: rest) = _
  rw [parseConcat, if_neg hreading]
  rfl

end OneCharacter

/-! ## Reading a pattern -/

section Pattern

variable {folding : CaseFolding} {pattern : Str} {reading : Reading}

/-- A pattern without operators of the engine is its items. -/
theorem parse_plain (hplain : ∀ c ∈ pattern, isMeta c = false ∧ c ≠ '*' ∧ c ≠ '?') (hreading : reading ≠ .escape)
    (asts : List (Regular Char)) :
    parseConcat folding reading asts (pattern.flatMap rewritten) = .ok (asts.reverse ++ pattern.map (item folding)) := by
  induction pattern generalizing reading asts with
  | nil =>
    rw [List.flatMap_nil, parseConcat, if_neg hreading, List.map_nil, List.append_nil]
  | cons c pattern ih =>
    obtain ⟨⟨hmeta, hstar, hopt⟩, hplain⟩ := List.forall_mem_cons.mp hplain
    rw [List.flatMap_cons, parse_rewritten_item hreading asts _ hmeta hstar hopt, ih hplain (readingOf_ne_escape c),
      List.reverse_cons, List.append_assoc]
    rfl

/-- The rewriting leaves nothing that is not covered, and reads no pattern with an escaped character. -/
theorem parse_covered (hreading : reading ≠ .escape) (asts : List (Regular Char)) :
    parseConcat folding reading asts (pattern.flatMap rewritten) ≠ .error .notCovered ∧
      ((∃ c ∈ pattern, isMeta c = true) → ∀ asts', parseConcat folding reading asts (pattern.flatMap rewritten) ≠ .ok asts') := by
  induction pattern generalizing reading asts with
  | nil =>
    rw [List.flatMap_nil, parseConcat, if_neg hreading]
    refine ⟨nofun, ?_⟩
    rintro ⟨c, hmem, -⟩
    cases hmem
  | cons c pattern ih =>
    rw [List.flatMap_cons]
    by_cases hmeta : isMeta c = true
    · rw [parse_rewritten_meta hreading asts _ hmeta]
      exact ⟨nofun, fun _ => nofun⟩
    · -- the escaped character is further on
      have hlater : (∃ d ∈ c :: pattern, isMeta d = true) → ∃ d ∈ pattern, isMeta d = true := by
        rintro ⟨d, hmem, hd⟩
        rcases List.mem_cons.mp hmem with rfl | hmem
        · exact absurd hd hmeta
        · exact ⟨d, hmem, hd⟩
      have hnext : ∀ {reading : Reading} (asts : List (Regular Char)), reading ≠ .escape →
          parseConcat folding reading asts (pattern.flatMap rewritten) ≠ .error .notCovered ∧
            ((∃ d ∈ c :: pattern, isMeta d = true) →
              ∀ asts', parseConcat folding reading asts (pattern.flatMap rewritten) ≠ .ok asts') := by
        intro reading asts hreading
        exact ⟨(ih hreading asts).1, fun h => (ih hreading asts).2 (hlater h)⟩
      by_cases hstar : c = '*'
      · rw [hstar, parse_rewritten_star hreading, ← hstar]
        cases asts with
        | nil => exact ⟨nofun, fun _ => nofun⟩
        | cons ast asts => exact hnext _ (by decide)
      · by_cases hopt : c = '?'
        · rw [hopt, parse_rewritten_opt hreading, ← hopt]
          by_cases hlazy : reading = .repetition
          · rw [if_pos hlazy]
            exact hnext _ (by decide)
          · rw [if_neg hlazy]
            cases asts with
            | nil => exact ⟨nofun, fun _ => nofun⟩
            | cons ast asts => exact hnext _ (by decide)
        · rw [parse_rewritten_item hreading asts _ (Bool.eq_false_iff.mpr hmeta) hstar hopt]
          exact hnext _ (readingOf_ne_escape c)

/-- The number of characters for which a LIKE pattern without operators of the engine needs one in the text. -/
def needed (pattern : Str) : Nat :=
  pattern.countP fun c => c ≠ '%' ∧ c ≠ '*' ∧ c ≠ '?'

theorem item_short (folding : CaseFolding) (c : Char) :
    ∃ word, (item folding c).Matches word ∧ word.length ≤ if c = '%' then 0 else 1 := by
  unfold item
  by_cases hpercent : c = '%'
  · rw [if_pos hpercent]
    exact ⟨[], ⟨[], rfl, nofun⟩, Nat.zero_le _⟩
  · rw [if_neg hpercent, if_neg hpercent]
    by_cases hany : c = '_'
    · rw [if_pos hany]
      exact ⟨['0'], ⟨'0', rfl, by decide⟩, Nat.le_refl 1⟩
    · rw [if_neg hany]
      exact ⟨[c], ⟨c, rfl, decide_eq_true rfl⟩, Nat.le_refl 1⟩

/-- The last item can be left out of a match when it is made optional. -/
theorem short_without_last {ast ast' : Regular Char} {asts : List (Regular Char)} (hempty : ast'.Matches []) {word : Str}
    (hword : (concat (ast :: asts).reverse).Matches word) :
    ∃ word', (concat (ast' :: asts).reverse).Matches word' ∧ word'.length ≤ word.length := by
  rw [List.reverse_cons, matches_concat_append] at hword
  obtain ⟨u, v, rfl, hu, -⟩ := hword
  refine ⟨u ++ [], ?_, ?_⟩
  · rw [List.reverse_cons, matches_concat_append]
    exact ⟨u, [], rfl, hu, [], [], rfl, hempty, rfl⟩
  · rw [List.append_nil, List.length_append]
    exact Nat.le_add_right _ _

/-- A pattern that the engine reads matches a text that is no longer than its needed characters. -/
theorem parse_short (hreading : reading ≠ .escape) {asts asts' : List (Regular Char)}
    (h : parseConcat folding reading asts (pattern.flatMap rewritten) = .ok asts') {word : Str}
    (hword : (concat asts.reverse).Matches word) :
    ∃ word', (concat asts').Matches word' ∧ word'.length ≤ word.length + needed pattern := by
  induction pattern generalizing reading asts word with
  | nil =>
    rw [List.flatMap_nil, parseConcat, if_neg hreading] at h
    cases h
    exact ⟨word, hword, Nat.le_add_right _ _⟩
  | cons c pattern ih =>
    have hcount : needed (c :: pattern) = needed pattern + if c ≠ '%' ∧ c ≠ '*' ∧ c ≠ '?' then 1 else 0 := by
      unfold needed
      rw [List.countP_cons]
      simp only [decide_eq_true_eq]
    rw [List.flatMap_cons] at h
    by_cases hmeta : isMeta c = true
    · rw [parse_rewritten_meta hreading asts _ hmeta] at h
      cases h
    · by_cases hstar : c = '*'
      · rw [hstar, parse_rewritten_star hreading] at h
        cases asts with
        | nil => cases h
        | cons ast asts =>
          have hempty : (Regular.star ast).Matches [] := ⟨[], rfl, nofun⟩
          obtain ⟨u, hu, hle⟩ := short_without_last hempty hword
          obtain ⟨word', hword', hle'⟩ := ih (by decide) h hu
          exact ⟨word', hword', by omega⟩
      · by_cases hopt : c = '?'
        · rw [hopt, parse_rewritten_opt hreading] at h
          by_cases hlazy : reading = .repetition
          · rw [if_pos hlazy] at h
            obtain ⟨word', hword', hle'⟩ := ih (by decide) h hword
            exact ⟨word', hword', by omega⟩
          · rw [if_neg hlazy] at h
            cases asts with
            | nil => cases h
            | cons ast asts =>
              have hempty : (Regular.opt ast).Matches [] := .inl rfl
              obtain ⟨u, hu, hle⟩ := short_without_last hempty hword
              obtain ⟨word', hword', hle'⟩ := ih (by decide) h hu
              exact ⟨word', hword', by omega⟩
        · rw [parse_rewritten_item hreading asts _ (Bool.eq_false_iff.mpr hmeta) hstar hopt] at h
          obtain ⟨u, hu, hle⟩ := item_short folding c
          have hmore : (concat (item folding c :: asts).reverse).Matches (word ++ u) := by
            rw [List.reverse_cons, matches_concat_append]
            exact ⟨word, u, rfl, hword, u, [], (List.append_nil u).symm, hu, rfl⟩
          obtain ⟨word', hword', hle'⟩ := ih (readingOf_ne_escape c) h hmore
          refine ⟨word', hword', ?_⟩
          rw [List.length_append] at hle'
          by_cases hpercent : c = '%'
          · rw [if_pos hpercent] at hle
            omega
          · rw [if_neg hpercent] at hle
            rw [if_pos ⟨hpercent, hstar, hopt⟩] at hcount
            omega

end Pattern

end Regexp

end Fenic
