import Fenic.Expressions.OutputName
import Fenic.TextExtract.RoundTrip
import Fenic.Lib.Keyed

/-!
# `TextExtract.Totality` — extraction over a column

`convertTextractExpr` packs the input into a struct of one field, and `extractFields` reads the text back from a row of
that struct, under the printed form of the input expression. The engine has named the field after the converted
expression. A missing text is printed before it is read.

`parseColumns_cases` says how a read ends: it goes astray at a field that has no reader or where the JSON library fails,
else it returns a row or finds that the text does not match. `meets_iff` puts this together with the two names.
-/

namespace Fenic

namespace TextExtract

section

variable [JsonLibrary]

/-! ## Where the reader comes to -/

/-- The reader has a value or none for a field that starts here: there is a reader for its rule, and the JSON library
    knows what to say of its text. -/
def Supported (nextDelimiter rest : Str) : EscapingRule → Prop
  | .regex => False
  | .qualified => False
  | .json => strip (TemplateFormatReader.readUntilNextDelimiter nextDelimiter rest).1 ≠ [] →
      JsonLibrary.raises (strip (TemplateFormatReader.readUntilNextDelimiter nextDelimiter rest).1) = false
  | _ => True

/-- The value of a field that starts here, and what is left behind it. -/
def fieldAt (nextDelimiter rest : Str) : EscapingRule → Option Str × Str
  | .csv => TemplateFormatReader.readCsvField nextDelimiter rest
  | .quoted => TemplateFormatReader.readQuotedField rest
  | .json =>
    let text := strip (TemplateFormatReader.readUntilNextDelimiter nextDelimiter rest).1
    (if text ≠ [] ∧ JsonLibrary.loads text then some text else none,
      (TemplateFormatReader.readUntilNextDelimiter nextDelimiter rest).2)
  | _ => (some (TemplateFormatReader.readUntilNextDelimiter nextDelimiter rest).1,
      (TemplateFormatReader.readUntilNextDelimiter nextDelimiter rest).2)

/-- Every field that the reader comes to is supported. -/
def Readable : List Str → List EscapingRule → Str → Prop
  | delimiter :: next :: delimiters, rule :: rules, rest =>
    ∀ start, TemplateFormatReader.consumeDelimiter delimiter rest = some start →
      Supported next start rule ∧ Readable (next :: delimiters) rules (fieldAt next start rule).2
  | _, _, _ => True

/-- Each delimiter stands where the field before it ends. -/
def Matches : List Str → List EscapingRule → Str → Prop
  | delimiter :: next :: delimiters, rule :: rules, rest =>
    ∃ start, TemplateFormatReader.consumeDelimiter delimiter rest = some start ∧
      Matches (next :: delimiters) rules (fieldAt next start rule).2
  | [delimiter], [], rest => TemplateFormatReader.consumeDelimiter delimiter rest ≠ none
  | _, _, _ => False

/-- No field has a value. -/
def Blank : List Str → List EscapingRule → Str → Prop
  | delimiter :: next :: delimiters, rule :: rules, rest =>
    ∀ start, TemplateFormatReader.consumeDelimiter delimiter rest = some start →
      (fieldAt next start rule).1 = none ∧ Blank (next :: delimiters) rules (fieldAt next start rule).2
  | _, _, _ => True

/-! ## Reads -/

namespace TemplateFormatReader

theorem readField_of_supported {rule : EscapingRule} {next start : Str} (h : Supported next start rule) :
    readField rule next start = .ok (fieldAt next start rule) := by
  cases rule with
  | json =>
    show readJsonField next start = _
    unfold readJsonField fieldAt
    dsimp only
    by_cases hempty : strip (readUntilNextDelimiter next start).1 = []
    · rw [if_pos hempty, if_neg (fun hne => hne.1 hempty)]
    · rw [if_neg hempty, if_neg (Bool.eq_false_iff.mp (h hempty))]
      by_cases hloads : JsonLibrary.loads (strip (readUntilNextDelimiter next start).1) = true
      · rw [if_pos hloads, if_pos ⟨hempty, hloads⟩]
      · rw [if_neg hloads, if_neg (fun hne => hloads hne.2)]
  | regex => cases h
  | qualified => cases h
  | _ => rfl

theorem readField_of_not_supported {rule : EscapingRule} {next start : Str} (h : ¬ Supported next start rule) :
    ∃ e, readField rule next start = .error e ∧ ∀ message, e ≠ .eof message := by
  cases rule with
  | json =>
    obtain ⟨hempty, hraises⟩ := Classical.not_imp.mp h
    refine ⟨.json, ?_, nofun⟩
    show readJsonField next start = _
    unfold readJsonField
    rw [if_neg hempty, if_pos (Bool.eq_true_of_not_eq_false hraises)]
  | regex => exact ⟨_, rfl, nofun⟩
  | qualified => exact ⟨_, rfl, nofun⟩
  | _ => exact absurd trivial h

omit [JsonLibrary] in
theorem setItem_ne_nil (name value : Str) (row : Row) : setItem name value row ≠ [] := by
  cases row with
  | nil => exact List.cons_ne_nil _ _
  | cons entry row =>
    unfold setItem
    split <;> exact List.cons_ne_nil _ _

variable {row : Row}

omit [JsonLibrary] in
theorem elim_setItem_eq_nil {name : Str} {value : Option Str} :
    (value.elim row fun value => setItem name value row) = [] ↔ row = [] ∧ value = none := by
  cases value with
  | none => exact ⟨fun h => ⟨h, rfl⟩, And.left⟩
  | some value => exact ⟨fun h => absurd h (setItem_ne_nil name value row), fun h => nomatch h.2⟩

/-- **How the loop over the columns ends.** -/
theorem parseColumns_cases (row : Row) (rest : Str) {delimiters : List Str} {rules : List EscapingRule} {columns : List Str}
    (hdelimiters : delimiters.length = columns.length + 1) (hrules : rules.length = columns.length) :
    (¬ Readable delimiters rules rest ∧
        ∃ e, parseColumns row delimiters rules columns rest = .error e ∧ ∀ message, e ≠ .eof message) ∨
      (Readable delimiters rules rest ∧ ¬ Matches delimiters rules rest ∧
        ∃ message, parseColumns row delimiters rules columns rest = .error (.eof message)) ∨
      (Readable delimiters rules rest ∧ Matches delimiters rules rest ∧
        ∃ result, parseColumns row delimiters rules columns rest = .ok result ∧
          (result = [] ↔ row = [] ∧ Blank delimiters rules rest)) := by
  induction columns generalizing row rest delimiters rules with
  | nil =>
    obtain ⟨delimiter, rfl⟩ := List.length_eq_one_iff.mp hdelimiters
    obtain rfl := List.length_eq_zero_iff.mp hrules
    cases hconsume : consumeDelimiter delimiter rest with
    | none =>
      refine Or.inr (Or.inl ⟨trivial, fun h => h hconsume, "Failed to match final delimiter", ?_⟩)
      rw [parseColumns, hconsume]
    | some left =>
      have hmatches : Matches [delimiter] [] rest := by
        show consumeDelimiter delimiter rest ≠ none
        rw [hconsume]
        exact Option.some_ne_none left
      refine Or.inr (Or.inr ⟨trivial, hmatches, row, ?_, fun h => ⟨h, trivial⟩, And.left⟩)
      rw [parseColumns, hconsume]
  | cons name columns ih =>
    obtain ⟨delimiter, delimiters, rfl⟩ := List.exists_cons_of_length_eq_add_one hdelimiters
    obtain ⟨next, delimiters, rfl⟩ := List.exists_cons_of_length_eq_add_one (Nat.succ.inj hdelimiters)
    obtain ⟨rule, rules, rfl⟩ := List.exists_cons_of_length_eq_add_one hrules
    cases hconsume : consumeDelimiter delimiter rest with
    | none =>
      have hnone : ∀ start, ¬ consumeDelimiter delimiter rest = some start := by
        rw [hconsume]
        exact fun start => (Option.some_ne_none start).symm
      refine Or.inr (Or.inl ⟨fun start hstart => absurd hstart (hnone start), ?_, "Failed to match delimiter", ?_⟩)
      · rintro ⟨start, hstart, -⟩
        exact hnone start hstart
      · rw [parseColumns, hconsume]
    | some start =>
      -- the three predicates look at this start only
      have hreadable : Readable (delimiter :: next :: delimiters) (rule :: rules) rest ↔
          Supported next start rule ∧ Readable (next :: delimiters) rules (fieldAt next start rule).2 := by
        refine ⟨fun h => h start hconsume, fun h start' hstart' => ?_⟩
        cases hconsume.symm.trans hstart'
        exact h
      have hmatches : Matches (delimiter :: next :: delimiters) (rule :: rules) rest ↔
          Matches (next :: delimiters) rules (fieldAt next start rule).2 := by
        refine ⟨?_, fun h => ⟨start, hconsume, h⟩⟩
        rintro ⟨start', hstart', h⟩
        cases hconsume.symm.trans hstart'
        exact h
      have hblank : Blank (delimiter :: next :: delimiters) (rule :: rules) rest ↔
          (fieldAt next start rule).1 = none ∧ Blank (next :: delimiters) rules (fieldAt next start rule).2 := by
        refine ⟨fun h => h start hconsume, fun h start' hstart' => ?_⟩
        cases hconsume.symm.trans hstart'
        exact h
      rw [hreadable, hmatches, hblank, parseColumns, hconsume]
      dsimp only
      by_cases hsupported : Supported next start rule
      · rw [readField_of_supported hsupported, Except.ok_bind, and_iff_right hsupported, ← and_assoc (a := _ = []),
          ← elim_setItem_eq_nil]
        exact ih _ _ (Nat.succ.inj hdelimiters) (Nat.succ.inj hrules)
      · obtain ⟨e, hread, heof⟩ := readField_of_not_supported hsupported
        refine Or.inl ⟨fun h => hsupported h.1, e, ?_, heof⟩
        rw [hread, Except.error_bind]

omit [JsonLibrary] in
theorem keys_setItem {name value : Str} {entry : Str × Str} (h : entry ∈ setItem name value row) :
    entry.1 = name ∨ entry ∈ row := by
  induction row with
  | nil =>
    rw [setItem, List.mem_singleton] at h
    exact Or.inl (congrArg Prod.fst h)
  | cons first row ih =>
    rw [setItem] at h
    split at h
    next heq =>
        rcases List.mem_cons.mp h with rfl | h
        · exact Or.inl heq
        · exact Or.inr (List.mem_cons_of_mem _ h)
    next =>
        rcases List.mem_cons.mp h with rfl | h
        · exact Or.inr List.mem_cons_self
        · exact (ih h).imp_right (List.mem_cons_of_mem _)

/-- A row has no keys but the columns. -/
theorem parseColumns_keys {delimiters : List Str} {rules : List EscapingRule} {columns : List Str} {rest : Str}
    {result : Row} (h : parseColumns row delimiters rules columns rest = .ok result) {entry : Str × Str}
    (hmem : entry ∈ result) : entry.1 ∈ columns ∨ entry ∈ row := by
  fun_induction parseColumns row delimiters rules columns rest with
  | case1 => cases h
  | case2 row delimiter next delimiters rule rules name columns rest start _ ih =>
    obtain ⟨⟨value, left⟩, -, h⟩ := Except.bind_eq_ok.mp h
    rcases ih value left h with hcolumn | hrow
    · exact Or.inl (List.mem_cons_of_mem _ hcolumn)
    · cases value with
      | none => exact Or.inr hrow
      | some value =>
        rcases keys_setItem hrow with hname | hrow
        · exact Or.inl (List.mem_cons.mpr (Or.inl hname))
        · exact Or.inr hrow
  | case3 => cases h
  | case4 =>
    injection h with h
    exact Or.inr (h ▸ hmem)
  | case5 => cases h

end TemplateFormatReader

/-! ## The mapped function -/

/-- The values of a struct, or of a dictionary: a field may be missing. -/
abbrev Fields := List (Str × Option Str)

/-- `{col: value(col) for col in columns}`. -/
def fromColumns (columns : List Str) (value : Str → Option Str) : Fields :=
  columns.foldl (fun fields column => Keyed.set column (value column) fields) []

/-- Why an extraction raises. -/
inductive ExtractError where
  /-- The expression of the input is not converted. -/
  | input
  | key (name : String)
  | read (e : ReadError)
  /-- The engine makes no struct with two fields of one name. -/
  | duplicate
  deriving DecidableEq

/-- `str(value)`. -/
def pyStr : Option Str → Str
  | none => "None".toList
  | some text => text

/-- `reader.parse() or {col: None for col in ...}`. -/
def resultDict (template : ParsedTemplateFormat) : Option TemplateFormatReader.Row → Fields
  | some (entry :: row) => (entry :: row).map fun entry => (entry.1, some entry.2)
  | _ => fromColumns template.columns fun _ => none

/-- `extract_fields`, on a row of the struct. -/
def extractFields (template : ParsedTemplateFormat) (inputExpr : String) (row : List (String × Option Str)) :
    Except ExtractError Fields :=
  match Keyed.get row inputExpr with
  | none => .error (.key inputExpr)
  | some value =>
    if pyStr value = [] then .ok (fromColumns template.columns fun _ => none)
    else
      match TemplateFormatReader.parse template (pyStr value) with
      | .error e => .error (.read e)
      | .ok result =>
        .ok (fromColumns template.columns fun column => (Keyed.get (resultDict template result) column).join)

/-- What the engine makes of the returned dictionary: a struct of the fields of `to_struct_schema`. -/
def structOf (columns : List Str) (fields : Fields) : Except ExtractError Fields :=
  if columns.Nodup then .ok (columns.map fun column => (column, (Keyed.get fields column).join)) else .error .duplicate

variable {Func Model Series : Type} [Expressions.Printing Func Model Series]

/-- `_convert_textract_expr`, on a row where the input expression has a value. -/
def convertTextractExpr (inputExpr : Expressions.LogicalExpr Func Model Series) (template : ParsedTemplateFormat)
    (value : Option Str) : Except ExtractError Fields :=
  match inputExpr.outputName with
  | none => .error .input
  | some name => do
    let fields ← extractFields template inputExpr.printed [(name, value)]
    structOf template.columns fields

/-! ## Totality -/

/-- The extraction does not raise, it has the columns of the template, and they are all missing where the input is missing
    or its text does not match. -/
def Meets (inputExpr : Expressions.LogicalExpr Func Model Series) (template : ParsedTemplateFormat) (value : Option Str) :
    Prop :=
  ∃ fields, convertTextractExpr inputExpr template value = .ok fields ∧ fields.map Prod.fst = template.columns ∧
    ((∀ text, value = some text → ¬ Matches template.delimiters template.escapingRules text) →
      ∀ field ∈ fields, field.2 = none)

/-- The engine names the input after its printed form: it is a column, or it hides its name and the name happens to be its
    printed form. -/
def IsNamed (inputExpr : Expressions.LogicalExpr Func Model Series) : Prop :=
  (∃ name, inputExpr.head = .column name) ∨ (inputExpr.hidesName = true ∧ inputExpr.outputName = some inputExpr.printed)

/-- What an extraction needs. -/
structure Extractable (inputExpr : Expressions.LogicalExpr Func Model Series) (template : ParsedTemplateFormat)
    (value : Option Str) : Prop where
  named : IsNamed inputExpr
  apart : template.columns.Nodup
  readable : pyStr value ≠ [] → Readable template.delimiters template.escapingRules (pyStr value)
  /-- The template does not match what a missing text is taken for, or has nothing to take from it. -/
  missing : value = none → Matches template.delimiters template.escapingRules (pyStr none) →
    Blank template.delimiters template.escapingRules (pyStr none)

variable {inputExpr : Expressions.LogicalExpr Func Model Series}

omit [JsonLibrary] in
theorem isNamed_iff :
    IsNamed inputExpr ↔ inputExpr.outputName = some inputExpr.printed := by
  constructor
  · rintro (⟨name, hname⟩ | ⟨-, hname⟩)
    · obtain ⟨head, children⟩ := inputExpr
      obtain rfl : head = .column name := hname
      rfl
    · exact hname
  · intro hname
    by_cases hcolumn : ∃ name, inputExpr.head = .column name
    · exact Or.inl hcolumn
    · refine Or.inr ⟨?_, hname⟩
      by_contra hhides
      exact Expressions.LogicalExpr.outputName_ne_printed (fun name h => hcolumn ⟨name, h⟩)
        (Bool.eq_false_of_not_eq_true hhides) hname

omit [JsonLibrary] in
theorem get_fromColumns (columns : List Str) (value : Str → Option Str) (column : Str) :
    (Keyed.get (fromColumns columns value) column).join = if column ∈ columns then value column else none := by
  suffices h : ∀ fields : Fields,
      Keyed.get (columns.foldl (fun fields column => Keyed.set column (value column) fields) fields) column =
        if column ∈ columns then some (value column) else Keyed.get fields column by
    rw [fromColumns, h []]
    split <;> rfl
  induction columns with
  | nil => exact fun fields => rfl
  | cons first columns ih =>
    intro fields
    rw [List.foldl_cons, ih, Keyed.get_set]
    by_cases hmem : column ∈ columns
    · rw [if_pos hmem, if_pos (List.mem_cons_of_mem _ hmem)]
    · rw [if_neg hmem]
      by_cases hfirst : column = first
      · rw [if_pos hfirst, if_pos (List.mem_cons.mpr (Or.inl hfirst)), hfirst]
      · rw [if_neg hfirst, if_neg (by simp [hfirst, hmem])]

/-- What an extraction is where the input has its printed form for a name and no column is given twice. -/
theorem convertTextractExpr_eq (hnamed : IsNamed inputExpr)
    (template : ParsedTemplateFormat) (hnodup : template.columns.Nodup) (value : Option Str) :
    convertTextractExpr inputExpr template value =
      if pyStr value = [] then .ok (template.columns.map fun column => (column, none))
      else
        match TemplateFormatReader.parse template (pyStr value) with
        | .error e => .error (.read e)
        | .ok result =>
          .ok (template.columns.map fun column => (column, (Keyed.get (resultDict template result) column).join)) := by
  have hstruct : ∀ f : Str → Option Str, structOf template.columns (fromColumns template.columns f) =
      .ok (template.columns.map fun column => (column, f column)) := by
    intro f
    rw [structOf, if_pos hnodup]
    refine congrArg Except.ok (List.map_congr_left fun column hcolumn => ?_)
    rw [get_fromColumns, if_pos hcolumn]
  rw [convertTextractExpr, isNamed_iff.mp hnamed]
  dsimp only
  rw [extractFields, Keyed.get_cons, if_pos rfl]
  dsimp only
  split
  · rw [Except.ok_bind, hstruct]
  · split
    · rw [Except.error_bind]
    · rw [Except.ok_bind, hstruct]

variable {template : ParsedTemplateFormat}

/-- What reading a text by a template that was accepted comes to. -/
theorem parse_cases {templateText : Str}
    (hparse : ParsedTemplateFormat.parse templateText = .ok template) (text : Str) :
    (¬ Readable template.delimiters template.escapingRules text ∧
        ∃ e, TemplateFormatReader.parse template text = .error e) ∨
      (Readable template.delimiters template.escapingRules text ∧
        ¬ Matches template.delimiters template.escapingRules text ∧
        TemplateFormatReader.parse template text = .ok none) ∨
      (Readable template.delimiters template.escapingRules text ∧
        Matches template.delimiters template.escapingRules text ∧
        ∃ row, TemplateFormatReader.parse template text = .ok (some row) ∧
          (row = [] ↔ Blank template.delimiters template.escapingRules text) ∧
          ∀ entry ∈ row, entry.1 ∈ template.columns) := by
  obtain ⟨hdelimiters, hrules, -⟩ := ParsedTemplateFormat.parse_inv hparse
  unfold TemplateFormatReader.parse TemplateFormatReader.parseRow
  rcases TemplateFormatReader.parseColumns_cases [] text hdelimiters hrules with
    ⟨hreadable, e, hrow, heof⟩ | ⟨hreadable, hmatches, message, hrow⟩ | ⟨hreadable, hmatches, row, hrow, hempty⟩
  · refine Or.inl ⟨hreadable, e, ?_⟩
    rw [hrow]
    cases e with
    | eof message => exact absurd rfl (heof message)
    | _ => rfl
  · refine Or.inr (Or.inl ⟨hreadable, hmatches, ?_⟩)
    rw [hrow]
  · refine Or.inr (Or.inr ⟨hreadable, hmatches, row, ?_, ?_, fun entry hentry => ?_⟩)
    · rw [hrow]
    · rw [hempty, and_iff_right rfl]
    · exact (TemplateFormatReader.parseColumns_keys hrow hentry).resolve_right List.not_mem_nil

omit [JsonLibrary] in
/-- The struct is without values when the row is: a row has no keys but the columns. -/
theorem fields_none_iff {row : TemplateFormatReader.Row}
    (hkeys : ∀ entry ∈ row, entry.1 ∈ template.columns) :
    (∀ field ∈ template.columns.map fun column => (column, (Keyed.get (resultDict template (some row)) column).join),
      field.2 = none) ↔ row = [] := by
  cases row with
  | nil =>
    refine ⟨fun _ => rfl, fun _ field hfield => ?_⟩
    obtain ⟨column, -, rfl⟩ := List.mem_map.mp hfield
    show (Keyed.get (fromColumns template.columns fun _ => none) column).join = none
    rw [get_fromColumns, ite_self]
  | cons entry row =>
    refine ⟨fun h => ?_, nofun⟩
    have hfirst := h _ (List.mem_map.mpr ⟨entry.1, hkeys entry List.mem_cons_self, rfl⟩)
    rw [resultDict, List.map_cons, Keyed.get_cons, if_pos rfl] at hfirst
    cases hfirst

omit [JsonLibrary] in
theorem map_pair_fst (columns : List Str) (value : Str → Option Str) :
    (columns.map fun column => (column, value column)).map Prod.fst = columns := by
  rw [List.map_map]
  exact List.map_id' columns

/-- Where an extraction returns, the input has its printed form for a name and no column is given twice. -/
theorem named_of_returns
    {value : Option Str} {fields : Fields} (h : convertTextractExpr inputExpr template value = .ok fields) :
    IsNamed inputExpr ∧ template.columns.Nodup := by
  unfold convertTextractExpr at h
  cases hname : inputExpr.outputName with
  | none =>
    rw [hname] at h
    cases h
  | some name =>
    rw [hname] at h
    obtain ⟨dict, hdict, h⟩ := Except.bind_eq_ok.mp h
    constructor
    · rw [isNamed_iff, hname]
      by_contra hne
      have hother : ¬ inputExpr.printed = name := fun heq => hne (congrArg some heq.symm)
      rw [extractFields, Keyed.get_cons, if_neg hother] at hdict
      cases hdict
    · unfold structOf at h
      by_contra hnodup
      rw [if_neg hnodup] at h
      cases h

/-- **Extraction is total and null-safe exactly on named inputs, templates without a column twice, texts in which the reader
    comes to no field that it has no reader for, and, for a missing input, templates that take nothing from `None`.** -/
theorem textExtract_meets_iff {templateText : Str} {template : ParsedTemplateFormat}
    (hparse : ParsedTemplateFormat.parse templateText = .ok template)
    (inputExpr : Expressions.LogicalExpr Func Model Series) (value : Option Str) :
    Meets inputExpr template value ↔ Extractable inputExpr template value := by
  constructor
  · rintro ⟨fields, hreturns, -, hnone⟩
    obtain ⟨hnamed, hnodup⟩ := named_of_returns hreturns
    rw [convertTextractExpr_eq hnamed template hnodup] at hreturns
    have hread : pyStr value ≠ [] → Readable template.delimiters template.escapingRules (pyStr value) := by
      intro hne
      rw [if_neg hne] at hreturns
      by_contra hreadable
      rcases parse_cases hparse (pyStr value) with ⟨-, e, he⟩ | ⟨h, -⟩ | ⟨h, -⟩
      · rw [he] at hreturns
        cases hreturns
      · exact hreadable h
      · exact hreadable h
    refine ⟨hnamed, hnodup, hread, ?_⟩
    rintro rfl hmatches
    have hne : pyStr none ≠ [] := List.cons_ne_nil _ _
    rcases parse_cases hparse (pyStr none) with ⟨hreadable, -⟩ | ⟨-, hmiss, -⟩ | ⟨-, -, row, hrow, hempty, hkeys⟩
    · exact absurd (hread hne) hreadable
    · exact absurd hmatches hmiss
    · rw [hrow] at hreturns
      injection hreturns with hreturns
      subst hreturns
      exact hempty.mp ((fields_none_iff hkeys).mp (hnone nofun))
  · rintro ⟨hnamed, hnodup, hreadable, hmissing⟩
    rw [Meets, convertTextractExpr_eq hnamed template hnodup]
    by_cases hempty : pyStr value = []
    · rw [if_pos hempty]
      refine ⟨_, rfl, map_pair_fst _ _, fun _ field hfield => ?_⟩
      obtain ⟨column, -, rfl⟩ := List.mem_map.mp hfield
      rfl
    · rw [if_neg hempty]
      rcases parse_cases hparse (pyStr value) with ⟨hnot, -⟩ | ⟨-, -, hrow⟩ | ⟨-, hmatches, row, hrow, hblank, hkeys⟩
      · exact absurd (hreadable hempty) hnot
      · rw [hrow]
        refine ⟨_, rfl, map_pair_fst _ _, fun _ field hfield => ?_⟩
        obtain ⟨column, -, rfl⟩ := List.mem_map.mp hfield
        show (Keyed.get (fromColumns template.columns fun _ => none) column).join = none
        rw [get_fromColumns, ite_self]
      · rw [hrow]
        refine ⟨_, rfl, map_pair_fst _ _, fun hmiss => (fields_none_iff hkeys).mpr (hblank.mpr ?_)⟩
        -- a text that matches is not excluded by the premise, so the input is missing
        cases value with
        | none => exact hmissing rfl hmatches
        | some text => exact absurd hmatches (hmiss text rfl)

end

/-! ### A missing text, and a rule without a reader -/

section

/-- Nothing is printed but columns. -/
local instance : Expressions.Printing Empty Empty Empty where
  funcName := nofun
  literal _ := ""
  contentHash s := s
  schemaHash _ := ""
  contextNames s := s
  textChunkConfiguration _ := ""
  recursiveTextChunkConfiguration _ := ""
  modelAlias _ := ""
  seriesLength := nofun
  seriesName := nofun

/-- `col("log")`. -/
def logColumn : Expressions.LogicalExpr Empty Empty Empty := .node (.column "log") []

/-- The text `a b` is taken apart by the template `${x} ${y}`. -/
theorem log_extracted :
    ∃ template, ParsedTemplateFormat.parse "${x} ${y}".toList = .ok template ∧ Meets logColumn template (some "a b".toList) := by
  have hparse : ParsedTemplateFormat.parse "${x} ${y}".toList =
      .ok ⟨[[], [' '], []], [.none, .none], ["x".toList, "y".toList]⟩ := by decide +kernel
  refine ⟨_, hparse, (textExtract_meets_iff hparse _ _).mpr ⟨Or.inl ⟨"log", rfl⟩, by decide, fun _ => ?_, nofun⟩⟩
  exact fun start _ => ⟨trivial, fun start' _ => ⟨trivial, trivial⟩⟩

/-- A missing text gives a struct with the text `None` in it. -/
theorem none_extracted : ¬ ∀ (templateText : Str) (template : ParsedTemplateFormat),
    ParsedTemplateFormat.parse templateText = .ok template →
      ∀ (inputExpr : Expressions.LogicalExpr Empty Empty Empty) (value : Option Str), Meets inputExpr template value := by
  intro h
  obtain ⟨fields, hfields, -, hnone⟩ := h "${x}".toList ⟨[[], []], [.none], ["x".toList]⟩ (by decide +kernel) logColumn none
  injection hfields with hfields
  subst hfields
  exact nomatch hnone nofun _ List.mem_cons_self

/-- A rule that the template may have raises for want of a reader. -/
example : ParsedTemplateFormat.parse "${x:regex}".toList = .ok ⟨[[], []], [.regex], ["x".toList]⟩ ∧
    convertTextractExpr logColumn ⟨[[], []], [.regex], ["x".toList]⟩ (some "a".toList) =
      .error (.read (.value "Unsupported escaping rule: REGEX")) := by
  decide +kernel

end

end TextExtract

end Fenic
