import Mathlib
import Fenic.TextExtract.Reader

/-!
# `TextExtract.RoundTrip` — writing values into a template and reading them back

`fill` writes values into the text of a template. A value is written as it stands, or between quotes with its quotes
doubled. The reader finds the values again (`parse_fill`), provided that a value as it stands does not run into the
delimiter after it, and that no quote follows a closing quote or an empty field where a quoted one may stand.

The proof has two halves. The tokenizer and `processTokens` give the delimiters that `fill` writes (`fill_eq_interleave`);
and from the start of a delimiter, the reader returns to the start of the next one (`readField_written`).
-/

namespace Fenic

namespace TextExtract

/-! ## Writing -/

/-- What is written for a column: a value, as it stands or quoted. -/
structure Field where
  value : Str
  isQuoted : Bool

/-- The text with its quotes doubled. -/
def doubleQuotes (s : Str) : Str :=
  s.flatMap fun c => if c = quote then [quote, quote] else [c]

def Field.written (field : Field) : Str :=
  if field.isQuoted then quote :: (doubleQuotes field.value ++ [quote]) else field.value

/-- A template with texts for its columns; `inColumn` is true between the braces of a column. -/
def fill : (inColumn : Bool) → Str → List Str → Str
  | _, [], _ => []
  | true, c :: rest, texts => fill (c != '}') rest texts
  | false, [c], _ => [c]
  | false, c :: c' :: rest, texts =>
    if c = '$' then
      if c' = '$' then '$' :: fill false rest texts
      else texts.headD [] ++ fill true rest texts.tail
    else c :: fill false (c' :: rest) texts

/-! ## The tokens of a template -/

theorem notMem_takeWhile (c : Char) (s : Str) : c ∉ s.takeWhile (· ≠ c) := by
  intro hmem
  have hne := List.mem_takeWhile_imp hmem
  simp at hne

variable {s : Str}

/-- A search that finds the character. -/
theorem eq_append_of_dropWhile {c d : Char} {rest : Str} (h : s.dropWhile (· ≠ c) = d :: rest) :
    d = c ∧ s = s.takeWhile (· ≠ c) ++ c :: rest := by
  have hd : d = c := by
    have hnot := List.head_dropWhile_not (· ≠ c) (l := s) (by rw [h]; exact List.cons_ne_nil _ _)
    simp only [h, List.head_cons] at hnot
    simpa using hnot
  subst hd
  refine ⟨rfl, ?_⟩
  rw [← h]
  exact List.takeWhile_append_dropWhile.symm

/-- What `tokenize` accepts: text to the end, a doubled dollar, or a column. -/
theorem tokenize_inv {pos : Nat} {tokens : List Token} (h : tokenize pos s = .ok tokens) :
    ('$' ∉ s ∧ tokens = literalTokens s) ∨
    (∃ literal after pos' tokens', s = literal ++ '$' :: '$' :: after ∧ '$' ∉ literal ∧
      tokenize pos' after = .ok tokens' ∧ tokens = literalTokens literal ++ .delimiter ['$'] :: tokens') ∨
    (∃ literal content behind pos' tokens', s = literal ++ '$' :: '{' :: (content ++ '}' :: behind) ∧ '$' ∉ literal ∧
      '}' ∉ content ∧ tokenize pos' behind = .ok tokens' ∧
      tokens = literalTokens literal ++ .column content :: tokens') := by
  have hliteral := notMem_takeWhile '$' s
  rw [tokenize] at h
  split at h
  next hdrop =>
      refine Or.inl ⟨?_, ?_⟩
      · have hall : s.takeWhile (· ≠ '$') = s := by
          have hsplit := List.takeWhile_append_dropWhile (p := (· ≠ '$')) (l := s)
          rwa [hdrop, List.append_nil] at hsplit
        rwa [hall] at hliteral
      · injection h with h
        exact h.symm
  next => cases h
  next c next after hdrop =>
      obtain ⟨rfl, hs⟩ := eq_append_of_dropWhile hdrop
      by_cases hdollar : next = '$'
      · subst hdollar
        obtain ⟨tokens', htokens', h⟩ := Except.bind_eq_ok.mp h
        injection h with h
        exact Or.inr (Or.inl ⟨_, after, _, tokens', hs, hliteral, htokens', h.symm⟩)
      · rw [if_neg hdollar] at h
        by_cases hbrace : next = '{'
        · subst hbrace
          rw [if_pos rfl] at h
          split at h
          next => cases h
          next d behind hclose =>
              obtain ⟨rfl, hafter⟩ := eq_append_of_dropWhile hclose
              obtain ⟨tokens', htokens', h⟩ := Except.bind_eq_ok.mp h
              injection h with h
              refine Or.inr (Or.inr ⟨_, after.takeWhile (· ≠ '}'), behind, _, tokens', ?_, hliteral,
                notMem_takeWhile '}' after, htokens', h.symm⟩)
              rw [← hafter]
              exact hs
        · rw [if_neg hbrace] at h
          cases h

/-- Tokens with texts for the columns. -/
def fillTokens : List Token → List Str → Str
  | [], _ => []
  | .delimiter content :: tokens, texts => content ++ fillTokens tokens texts
  | .column _ :: tokens, texts => texts.headD [] ++ fillTokens tokens texts.tail

theorem fillTokens_literal (content : Str) (tokens : List Token) (texts : List Str) :
    fillTokens (literalTokens content ++ tokens) texts = content ++ fillTokens tokens texts := by
  unfold literalTokens
  by_cases h : content = []
  · rw [if_pos h, h]
    rfl
  · rw [if_neg h]
    rfl

theorem fill_literal {literal : Str} (h : '$' ∉ literal) (c : Char) (rest : Str) (texts : List Str) :
    fill false (literal ++ c :: rest) texts = literal ++ fill false (c :: rest) texts := by
  induction literal with
  | nil => rfl
  | cons d literal ih =>
    have hd : d ≠ '$' := fun heq => h (heq ▸ List.mem_cons_self)
    have hrest := ih fun hmem => h (List.mem_cons_of_mem _ hmem)
    cases literal with
    | nil =>
      show fill false (d :: c :: rest) texts = d :: fill false (c :: rest) texts
      rw [fill, if_neg hd]
    | cons d' literal =>
      show fill false (d :: d' :: (literal ++ c :: rest)) texts = d :: (d' :: literal ++ fill false (c :: rest) texts)
      rw [fill, if_neg hd, ← hrest]
      rfl

theorem fill_text (h : '$' ∉ s) (texts : List Str) : fill false s texts = s := by
  induction s with
  | nil => rfl
  | cons c s ih =>
    have hc : c ≠ '$' := fun heq => h (heq ▸ List.mem_cons_self)
    have hrest := ih fun hmem => h (List.mem_cons_of_mem _ hmem)
    cases s with
    | nil => rfl
    | cons c' s => rw [fill, if_neg hc, hrest]

theorem fill_column {content : Str} (h : '}' ∉ content) (behind : Str) (texts : List Str) :
    fill true (content ++ '}' :: behind) texts = fill false behind texts := by
  induction content with
  | nil =>
    show fill ('}' != '}') behind texts = _
    rfl
  | cons c content ih =>
    have hc : (c != '}') = true := by
      rw [bne_iff_ne]
      exact fun heq => h (heq ▸ List.mem_cons_self)
    show fill (c != '}') (content ++ '}' :: behind) texts = _
    rw [hc, ih fun hmem => h (List.mem_cons_of_mem _ hmem)]

/-- Filling a template is filling its tokens. -/
theorem fill_eq_fillTokens (s : Str) (pos : Nat) (tokens : List Token) (texts : List Str) (h : tokenize pos s = .ok tokens) :
    fill false s texts = fillTokens tokens texts := by
  rcases tokenize_inv h with ⟨hno, rfl⟩ | ⟨literal, after, pos', tokens', hs, hno, htokens', rfl⟩ |
    ⟨literal, content, behind, pos', tokens', hs, hno, hclose, htokens', rfl⟩
  · rw [fill_text hno]
    have hfill := fillTokens_literal s [] texts
    rw [List.append_nil, fillTokens, List.append_nil] at hfill
    exact hfill.symm
  · have hrest := fill_eq_fillTokens after pos' tokens' texts htokens'
    rw [hs, fill_literal hno, fillTokens_literal, fill, if_pos rfl, if_pos rfl, hrest]
    rfl
  · have hrest := fill_eq_fillTokens behind pos' tokens' texts.tail htokens'
    rw [hs, fill_literal hno, fillTokens_literal, fill, if_pos rfl, if_neg (by decide), fill_column hclose, hrest]
    rfl
  termination_by s.length
  decreasing_by all_goals (subst hs; simp only [List.length_append, List.length_cons]; omega)

/-! ## The delimiters of a format -/

/-- Delimiters with texts between them. -/
def interleave : List Str → List Str → Str
  | [], _ => []
  | [d], _ => d
  | d :: d' :: ds, texts => d ++ (texts.headD [] ++ interleave (d' :: ds) texts.tail)

theorem interleave_append (content d : Str) (ds texts : List Str) :
    interleave ((content ++ d) :: ds) texts = content ++ interleave (d :: ds) texts := by
  cases ds with
  | nil => rfl
  | cons d' ds => rw [interleave, interleave, List.append_assoc]

namespace ParsedTemplateFormat

theorem appendLast_append (content : Str) (init : List Str) (last : Str) :
    appendLast content (init ++ [last]) = init ++ [last ++ content] := by
  induction init with
  | nil => rfl
  | cons d init ih =>
    cases init with
    | nil => rfl
    | cons d' init =>
      show d :: appendLast content (d' :: init ++ [last]) = d :: (d' :: init ++ [last ++ content])
      rw [ih]

variable {format : ParsedTemplateFormat}

theorem processColumnToken_inv {format' : ParsedTemplateFormat} {content : Str}
    (h : processColumnToken format content = .ok format') :
    ∃ name rule, format' = { format with columns := format.columns ++ [name], escapingRules := format.escapingRules ++ [rule] } := by
  obtain ⟨rule, -, h⟩ := Except.bind_eq_ok.mp h
  obtain ⟨-, h⟩ := Except.guard_eq_ok.mp h
  injection h with h
  exact ⟨_, rule, h.symm⟩

/-- What the loop adds to a format: the last delimiter is still open. -/
theorem processTokens_inv {tokens : List Token} {result : ParsedTemplateFormat} {init : List Str} {last : Str}
    (hdelimiters : format.delimiters = init ++ [last]) (h : processTokens format tokens = .ok result) :
    ∃ d ds columns rules, result.delimiters = init ++ (last ++ d) :: ds ∧ result.columns = format.columns ++ columns ∧
      result.escapingRules = format.escapingRules ++ rules ∧ columns.length = ds.length ∧ rules.length = ds.length ∧
      ∀ texts, fillTokens tokens texts = interleave (d :: ds) texts := by
  induction tokens generalizing format init last with
  | nil =>
    injection h with h
    subst h
    refine ⟨[], [], [], [], ?_, ?_, ?_, rfl, rfl, fun texts => rfl⟩
    · rw [hdelimiters, List.append_nil]
    · rw [List.append_nil]
    · rw [List.append_nil]
  | cons token tokens ih =>
    cases token with
    | delimiter content =>
      have hopen : appendLast content format.delimiters = init ++ [last ++ content] := by
        rw [hdelimiters, appendLast_append]
      obtain ⟨d, ds, columns, rules, hds, hcolumns, hrules, hlen, hlen', hfill⟩ := ih hopen h
      refine ⟨content ++ d, ds, columns, rules, ?_, hcolumns, hrules, hlen, hlen', ?_⟩
      · rw [hds, List.append_assoc]
      · intro texts
        rw [fillTokens, hfill texts, interleave_append]
    | column content =>
      rw [processTokens] at h
      cases hcolumn : processColumnToken format content with
      | error message =>
        rw [hcolumn] at h
        cases h
      | ok format' =>
        rw [hcolumn] at h
        obtain ⟨name, rule, rfl⟩ := processColumnToken_inv hcolumn
        have hopen : format.delimiters ++ [[]] = (init ++ [last]) ++ [[]] := by rw [hdelimiters]
        obtain ⟨d, ds, columns, rules, hds, hcolumns, hrules, hlen, hlen', hfill⟩ := ih hopen h
        refine ⟨[], d :: ds, name :: columns, rule :: rules, ?_, ?_, ?_, ?_, ?_, ?_⟩
        · rw [hds, List.append_nil, List.append_assoc]
          rfl
        · rw [hcolumns, List.append_assoc]
          rfl
        · rw [hrules, List.append_assoc]
          rfl
        · rw [List.length_cons, List.length_cons, hlen]
        · rw [List.length_cons, List.length_cons, hlen']
        · intro texts
          rw [fillTokens, hfill texts.tail, interleave, List.nil_append]

/-- A parsed format has one delimiter more than columns. -/
theorem parse_inv {s : Str} (h : parse s = .ok format) :
    format.delimiters.length = format.columns.length + 1 ∧ format.escapingRules.length = format.columns.length ∧
      ∀ texts, fill false s texts = interleave format.delimiters texts := by
  unfold parse at h
  cases htokens : tokenize 0 s with
  | error message =>
    rw [htokens] at h
    cases h
  | ok tokens =>
    rw [htokens] at h
    have hopen : (⟨[[]], [], []⟩ : ParsedTemplateFormat).delimiters = [] ++ [[]] := rfl
    obtain ⟨d, ds, columns, rules, hds, hcolumns, hrules, hlen, hlen', hfill⟩ := processTokens_inv hopen h
    rw [List.nil_append] at hds hcolumns hrules
    refine ⟨?_, ?_, ?_⟩
    · rw [hds, hcolumns, List.length_cons, hlen]
    · rw [hrules, hcolumns, hlen, hlen']
    · intro texts
      rw [fill_eq_fillTokens s 0 tokens texts htokens, hfill texts, hds]
      rfl

end ParsedTemplateFormat

/-! ## Reading a field -/

/-- The delimiter is not found in a value that stands before it, not even in part. -/
def Separated (value delimiter : Str) : Prop :=
  ∀ i < value.length, ¬ delimiter <+: (value ++ delimiter).drop i

theorem Separated.tail {c : Char} {value delimiter : Str} (h : Separated (c :: value) delimiter) : Separated value delimiter := by
  intro i hi
  exact h (i + 1) (Nat.succ_lt_succ hi)

theorem find_delimiter {value delimiter : Str} (hne : delimiter ≠ []) (h : Separated value delimiter) (rest : Str) :
    find delimiter (value ++ (delimiter ++ rest)) = some value.length := by
  induction value with
  | nil =>
    obtain ⟨c, d, rfl⟩ := List.exists_cons_of_ne_nil hne
    have hprefix : List.isPrefixOf (c :: d) (c :: (d ++ rest)) = true :=
      List.isPrefixOf_iff_prefix.mpr (List.prefix_append (c :: d) rest)
    show find (c :: d) (c :: (d ++ rest)) = some 0
    rw [find, if_pos hprefix]
  | cons c value ih =>
    have hno : ¬ (delimiter.isPrefixOf (c :: (value ++ (delimiter ++ rest)))) = true := by
      intro hprefix
      have hlong := List.isPrefixOf_iff_prefix.mp hprefix
      have hshort : delimiter <+: c :: value ++ delimiter := by
        have htext : c :: value ++ delimiter <+: c :: (value ++ (delimiter ++ rest)) := ⟨rest, by simp⟩
        apply List.prefix_of_prefix_length_le hlong htext
        rw [List.cons_append, List.length_cons, List.length_append]
        omega
      exact h 0 (Nat.zero_lt_succ _) hshort
    show find delimiter (c :: (value ++ (delimiter ++ rest))) = some (value.length + 1)
    rw [find, if_neg hno, ih h.tail]
    rfl

namespace TemplateFormatReader

variable {rest : Str}

/-- A value that stands before its delimiter is read as it stands. -/
theorem readUntilNextDelimiter_value {value next : Str} (hstrip : strip value = value)
    (hseparated : next ≠ [] → Separated value next) (hend : next = [] → rest = []) :
    readUntilNextDelimiter next (value ++ (next ++ rest)) = (value, next ++ rest) := by
  unfold readUntilNextDelimiter
  by_cases hnext : next = []
  · rw [if_pos hnext, hend hnext, hnext, List.nil_append, List.append_nil, hstrip]
  · rw [if_neg hnext, find_delimiter hnext (hseparated hnext)]
    show (strip ((value ++ (next ++ rest)).take value.length), (value ++ (next ++ rest)).drop value.length) = _
    rw [List.take_left, List.drop_left, hstrip]

/-- Doubled quotes are read up to the quote that no other follows. -/
theorem readQuoted_doubleQuotes (value : Str) (h : rest.head? ≠ some quote) :
    readQuoted (doubleQuotes value ++ quote :: rest) = (value, rest) := by
  induction value with
  | nil =>
    cases rest with
    | nil =>
      show readQuoted [quote] = ([], [])
      rw [readQuoted, if_pos rfl]
    | cons c rest =>
      have hc : c ≠ quote := fun heq => h (congrArg some heq)
      show readQuoted (quote :: c :: rest) = ([], c :: rest)
      rw [readQuoted, if_pos rfl, if_neg hc]
  | cons c value ih =>
    by_cases hc : c = quote
    · subst hc
      show readQuoted (quote :: quote :: (doubleQuotes value ++ quote :: rest)) = _
      rw [readQuoted, if_pos rfl, if_pos rfl, ih]
    · obtain ⟨d, s, hs⟩ : ∃ d s, doubleQuotes value ++ quote :: rest = d :: s :=
        List.exists_cons_of_ne_nil (by simp)
      have hdouble : doubleQuotes (c :: value) = c :: doubleQuotes value := by
        unfold doubleQuotes
        rw [List.flatMap_cons, if_neg hc]
        rfl
      rw [hdouble, List.cons_append, hs, readQuoted, if_neg hc, ← hs, ih]

theorem readQuotedField_written (value : Str) (h : rest.head? ≠ some quote) :
    readQuotedField (quote :: (doubleQuotes value ++ [quote]) ++ rest) = (some value, rest) := by
  show readQuotedField (quote :: (doubleQuotes value ++ [quote] ++ rest)) = _
  rw [readQuotedField, if_pos rfl, List.append_assoc, List.singleton_append, readQuoted_doubleQuotes value h]

end TemplateFormatReader

/-! ## The round trip -/

section

variable [JsonLibrary]

/-- What may be written as it stands. -/
def Stands (next : Str) (field : Field) : Prop :=
  field.isQuoted = false ∧ strip field.value = field.value ∧ (next ≠ [] → Separated field.value next)

/-- What may be written for a column with a rule, before a delimiter. -/
def Writable (rule : EscapingRule) (next : Str) (field : Field) : Prop :=
  match rule with
  | .none => Stands next field
  | .csv => field.isQuoted = true ∨ (Stands next field ∧ field.value.head? ≠ some quote)
  | .json => Stands next field ∧ JsonLibrary.loads field.value = true
  | .quoted => field.isQuoted = true
  | _ => False

omit [JsonLibrary] in
/-- No quote follows a closing quote, or an empty field where a quoted one may stand. -/
def QuotesEnd (rule : EscapingRule) (next : Str) (field : Field) : Prop :=
  field.isQuoted = true ∨ (rule = .csv ∧ field.value = []) → next.head? ≠ some quote

/-- A condition on each column, the delimiter after it and what is written. -/
def Columns (P : EscapingRule → Str → Field → Prop) : List EscapingRule → List Str → List Field → Prop
  | rule :: rules, next :: nexts, field :: fields => P rule next field ∧ Columns P rules nexts fields
  | [], [], [] => True
  | _, _, _ => False

namespace TemplateFormatReader

omit [JsonLibrary] in
theorem head?_ne_quote {next rest : Str} (h : next.head? ≠ some quote) (hend : next = [] → rest = []) :
    (next ++ rest).head? ≠ some quote := by
  cases next with
  | nil =>
    rw [hend rfl]
    nofun
  | cons c next => exact h

/-- **The reader gets a written value back, and stops before the delimiter.** -/
theorem readField_written {rule : EscapingRule} {next : Str} {field : Field} (hwritable : Writable rule next field)
    (hquotes : QuotesEnd rule next field) {rest : Str} (hend : next = [] → rest = []) :
    readField rule next (field.written ++ (next ++ rest)) = .ok (some field.value, next ++ rest) := by
  obtain ⟨value, isQuoted⟩ := field
  have hquoted : isQuoted = true → (next ++ rest).head? ≠ some quote := fun h => head?_ne_quote (hquotes (Or.inl h)) hend
  cases rule with
  | none =>
    obtain ⟨hplain, hstrip, hseparated⟩ := hwritable
    cases hplain
    show Except.ok (some _, _) = _
    rw [Field.written, if_neg Bool.false_ne_true, readUntilNextDelimiter_value hstrip hseparated hend]
  | json =>
    obtain ⟨⟨hplain, hstrip, hseparated⟩, hloads⟩ := hwritable
    subst hplain
    have hne : value ≠ [] := by
      rintro rfl
      rw [JsonLibrary.loads_nil] at hloads
      cases hloads
    show readJsonField _ _ = _
    unfold readJsonField
    rw [Field.written, if_neg Bool.false_ne_true, readUntilNextDelimiter_value hstrip hseparated hend]
    rw [hstrip, if_neg hne, if_neg (Bool.eq_false_iff.mp (JsonLibrary.raises_of_loads value hloads)), if_pos hloads]
  | quoted =>
    cases hwritable
    show Except.ok (readQuotedField _) = _
    rw [Field.written, if_pos rfl, readQuotedField_written value (hquoted rfl)]
  | csv =>
    show Except.ok (readCsvField _ _) = _
    unfold readCsvField
    rcases hwritable with hisQuoted | ⟨⟨hplain, hstrip, hseparated⟩, hhead⟩
    · cases hisQuoted
      rw [Field.written, if_pos rfl, if_pos (by rfl), readQuotedField_written value (hquoted rfl)]
    · dsimp only at hplain hstrip hseparated hhead
      subst hplain
      have hfirst : (value ++ (next ++ rest)).head? ≠ some quote := by
        cases value with
        | nil =>
          show (next ++ rest).head? ≠ some quote
          exact head?_ne_quote (hquotes (Or.inr ⟨rfl, rfl⟩)) hend
        | cons c value => exact hhead
      rw [Field.written, if_neg Bool.false_ne_true, if_neg hfirst, readUntilNextDelimiter_value hstrip hseparated hend]
      rw [hstrip]
  | regex => cases hwritable
  | qualified => cases hwritable

omit [JsonLibrary] in
theorem consumeDelimiter_append (delimiter rest : Str) : consumeDelimiter delimiter (delimiter ++ rest) = some rest := by
  unfold consumeDelimiter
  by_cases h : delimiter = []
  · rw [if_pos h, h, List.nil_append]
  · rw [if_neg h, if_pos (List.isPrefixOf_iff_prefix.mpr (List.prefix_append _ _)), List.drop_left]

omit [JsonLibrary] in
/-- A new key is added at the end. -/
theorem setItem_of_notMem {name : Str} (value : Str) {row : Row} (h : name ∉ row.map Prod.fst) :
    setItem name value row = row ++ [(name, value)] := by
  induction row with
  | nil => rfl
  | cons entry row ih =>
    obtain ⟨n, v⟩ := entry
    have hne : n ≠ name := fun heq => h (heq ▸ List.mem_cons_self)
    rw [setItem, if_neg hne, ih fun hmem => h (List.mem_cons_of_mem _ hmem)]
    rfl

/-- The run over the columns that are left; the invariant is that the rest of the input starts with their delimiter. -/
theorem parseColumns_written {columns : List Str} {rules : List EscapingRule} {fields : List Field} {d : Str} {ds : List Str}
    {row : Row} (hwritable : Columns Writable rules ds fields) (hquotes : Columns QuotesEnd rules ds fields)
    (hcolumns : columns.length = ds.length) (hnodup : columns.Nodup) (hnew : ∀ name ∈ columns, name ∉ row.map Prod.fst)
    (hbetween : ∀ d ∈ ds.dropLast, d ≠ []) :
    parseColumns row (d :: ds) rules columns (interleave (d :: ds) (fields.map Field.written)) =
      .ok (row ++ columns.zip (fields.map Field.value)) := by
  induction ds generalizing columns rules fields d row with
  | nil =>
    have hnil : columns = [] := List.eq_nil_of_length_eq_zero hcolumns
    subst hnil
    cases rules with
    | cons rule rules => cases hwritable
    | nil =>
      have hconsume := consumeDelimiter_append d []
      rw [List.append_nil] at hconsume
      show parseColumns row [d] [] [] d = _
      rw [parseColumns, hconsume]
      simp
  | cons next ds ih =>
    obtain ⟨name, columns, rfl⟩ := List.exists_cons_of_length_eq_add_one hcolumns
    cases rules with
    | nil => cases hwritable
    | cons rule rules =>
      cases fields with
      | nil => cases hwritable
      | cons field fields =>
        rw [List.nodup_cons] at hnodup
        have hmissing : name ∉ row.map Prod.fst := hnew name List.mem_cons_self
        -- the next delimiter is empty only at the end of the template
        obtain ⟨rest, hrest, hend⟩ : ∃ rest, interleave (next :: ds) (fields.map Field.written) = next ++ rest ∧
            (next = [] → rest = []) := by
          cases ds with
          | nil => exact ⟨[], (List.append_nil next).symm, fun _ => rfl⟩
          | cons d' ds => exact ⟨_, rfl, fun h => absurd h (hbetween next List.mem_cons_self)⟩
        have hnew' : ∀ other ∈ columns, other ∉ (row ++ [(name, field.value)]).map Prod.fst := by
          intro other hother hmem
          rw [List.map_append, List.mem_append] at hmem
          rcases hmem with hmem | hmem
          · exact hnew other (List.mem_cons_of_mem _ hother) hmem
          · have heq : other = name := List.mem_singleton.mp hmem
            exact hnodup.1 (heq ▸ hother)
        have hbetween' : ∀ d' ∈ ds.dropLast, d' ≠ [] := by
          intro d' hd'
          cases ds with
          | nil => cases hd'
          | cons d'' ds => exact hbetween d' (List.mem_cons_of_mem _ hd')
        have hrun : parseColumns (row ++ [(name, field.value)]) (next :: ds) rules columns
            (interleave (next :: ds) (fields.map Field.written)) =
              .ok (row ++ [(name, field.value)] ++ columns.zip (fields.map Field.value)) :=
          ih hwritable.2 hquotes.2 (Nat.succ.inj hcolumns) hnodup.2 hnew' hbetween'
        show parseColumns row (d :: next :: ds) (rule :: rules) (name :: columns)
          (d ++ (field.written ++ interleave (next :: ds) (fields.map Field.written))) = _
        rw [parseColumns, consumeDelimiter_append]
        dsimp only
        rw [hrest, readField_written hwritable.1 hquotes.1 hend, Except.ok_bind]
        dsimp only [Option.elim]
        rw [setItem_of_notMem _ hmissing, ← hrest, hrun, List.append_assoc]
        rfl

end TemplateFormatReader

end

/-! ### A price with a comment, and two columns with a quote between them -/

/-- A JSON library that accepts nothing. -/
instance noJson : JsonLibrary := ⟨fun _ => false, fun _ => false, rfl, fun _ _ => rfl⟩

namespace TemplateFormatReader

end TemplateFormatReader

end TextExtract

end Fenic
