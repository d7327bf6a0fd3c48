import Fenic.Lib.Keyed
import Fenic.SemanticOperators.StructuredOutput

/-!
# `SemanticOperators.ClassifyLabels` — the labels of a classification

`semantic.classify` makes an enumeration of its labels, whose members are named by the labels in upper case. The schema
of the response lists its values, and an example is rendered by validating its label against it. What `json.loads` then
reads in the text is the label again (`loads_dumpOutput`).

A name that two labels share belongs to the last of them. A name with a line at both ends is reserved, and with two lines
it makes no member at all.
-/

namespace Fenic

namespace SemanticOperators

/-! ## The enumeration -/

/-- `str.upper`. No lower-case letter is left, so that none of the names is one that `Enum` knows itself, as `mro`. -/
structure CaseMapping where
  upper : String → String
  noLower : ∀ s, ∀ c ∈ (upper s).toList, ¬ c.isLower

/-- `_sunder_`. -/
def isSunder (name : List Char) : Bool :=
  2 < name.length ∧ name.head? = some '_' ∧ name.getLast? = some '_' ∧ name[1]? ≠ some '_' ∧
    name[name.length - 2]? ≠ some '_'

/-- `__dunder__`. -/
def isDunder (name : List Char) : Bool :=
  4 < name.length ∧ name.take 2 = ['_', '_'] ∧ name.drop (name.length - 2) = ['_', '_'] ∧ name[2]? ≠ some '_' ∧
    name[name.length - 3]? ≠ some '_'

/-- `Enum(enum_name, enum_members)`: the members, in their order. A reserved name raises, and a name with two lines at both
    ends is an attribute, but no member. -/
def createEnum (enumMembers : List (String × String)) : Option (List (String × String)) :=
  if enumMembers.any fun member => member.1 = "" || isSunder member.1.toList then none
  else some (enumMembers.filter fun member => !isDunder member.1.toList)

/-- The model of a response: the values that its field `output` takes. -/
structure EnumModel where
  values : List String

/-- `{value.upper(): value for value in allowed_values}`. -/
def enumMembers (mapping : CaseMapping) (allowedValues : List String) : List (String × String) :=
  allowedValues.foldl (fun members value => Keyed.set (mapping.upper value) value members) []

/-- `create_classification_pydantic_model`. -/
def createClassificationPydanticModel (mapping : CaseMapping) (allowedValues : List String) : Option EnumModel :=
  (createEnum (enumMembers mapping allowedValues)).map fun members => ⟨members.map Prod.snd⟩

/-- A value is valid for the JSON schema of the model: an object with a field `output` that is one of the values. -/
def EnumModel.Accepts (model : EnumModel) (v : PyValue) : Prop :=
  ∃ label ∈ model.values, v.subscript (pyString "output") = some (.str (pyString label))

/-! ## Examples as text -/

namespace JsonText

def hexChar (d : Nat) : Nat := if d < 10 then '0'.toNat + d else 'a'.toNat + (d - 10)

/-- The letter that a character is escaped by. -/
def escapeLetter (c : Nat) : Option Nat :=
  [(quote, quote), (backslash, backslash), (8, 'b'.toNat), (12, 'f'.toNat), (10, 'n'.toNat), (13, 'r'.toNat),
    (9, 't'.toNat)].lookup c

/-- A character of a JSON string as `model_dump_json` writes it. -/
def escapeChar (c : Nat) : PyString :=
  match escapeLetter c with
  | some letter => [backslash, letter]
  | none => if c < 32 then [backslash, 'u'.toNat, '0'.toNat, '0'.toNat, hexChar (c / 16), hexChar (c % 16)] else [c]

def dumpString (s : PyString) : PyString := quote :: (s.flatMap escapeChar ++ [quote])

end JsonText

/-- `model_dump_json` of a model with the one field `output`. -/
def dumpOutput (label : PyString) : PyString :=
  '\x7b'.toNat :: (JsonText.dumpString (pyString "output") ++ ':'.toNat :: (JsonText.dumpString label ++ ['\x7d'.toNat]))

/-- `convert_example_to_assistant_message`. A label that is no value raises. -/
def EnumModel.convertExample (model : EnumModel) (label : String) : Option PyString :=
  if label ∈ model.values then some (dumpOutput (pyString label)) else none

/-- What is to hold of the labels: the schema accepts exactly them, and the text of an example with one of them, taken for a
    response, is that label. -/
def LabelsKept (mapping : CaseMapping) (depth : Nat) (labels : List String) : Prop :=
  ∃ model, createClassificationPydanticModel mapping labels = some model ∧
    (∀ v, model.Accepts v ↔ ∃ label ∈ labels, v.subscript (pyString "output") = some (.str (pyString label))) ∧
    ∀ label ∈ labels, ∃ text, model.convertExample label = some text ∧
      classifyPrediction depth (labels.map pyString) (some text) = .str (pyString label)

/-! ## Reading what was written -/

namespace JsonText

theorem hexDigit_hexChar {d : Nat} (h : d < 16) : hexDigit (hexChar d) = some d := by
  have hall : ∀ d < 16, hexDigit (hexChar d) = some d := by decide
  exact hall d h

variable {c : Nat}

/-- The letters that are written are read as what they stand for. -/
theorem readEscape_letter {letter : Nat} (h : escapeLetter c = some letter) (rest : PyString) :
    readEscape (letter :: rest) = some (c, rest) := by
  obtain ⟨l₁, l₂, heq, -⟩ := List.lookup_eq_some_iff.mp h
  have hmem : (c, letter) ∈ [(quote, quote), (backslash, backslash), (8, 'b'.toNat), (12, 'f'.toNat), (10, 'n'.toNat),
      (13, 'r'.toNat), (9, 't'.toNat)] := heq ▸ List.mem_append_right _ List.mem_cons_self
  simp only [List.mem_cons, Prod.mk.injEq, List.not_mem_nil, or_false] at hmem
  rcases hmem with ⟨rfl, rfl⟩ | ⟨rfl, rfl⟩ | ⟨rfl, rfl⟩ | ⟨rfl, rfl⟩ | ⟨rfl, rfl⟩ | ⟨rfl, rfl⟩ | ⟨rfl, rfl⟩ <;> rfl

/-- The four digits of a control character. -/
theorem readUnit_control (h : c < 32) (rest : PyString) :
    readUnit ('0'.toNat :: '0'.toNat :: hexChar (c / 16) :: hexChar (c % 16) :: rest) = some (c, rest) := by
  have hhex : readHex ('0'.toNat :: '0'.toNat :: hexChar (c / 16) :: hexChar (c % 16) :: rest) = some (c, rest) := by
    have hzero : hexDigit '0'.toNat = some 0 := by decide
    have hvalue : ((0 * 16 + 0) * 16 + c / 16) * 16 + c % 16 = c := by omega
    rw [readHex, hzero, hexDigit_hexChar (by omega : c / 16 < 16), hexDigit_hexChar (by omega : c % 16 < 16)]
    simp only [Option.bind_eq_bind, Option.bind_some, Option.pure_def, hvalue]
  have hlow : ¬ 0xd800 ≤ c := by omega
  rw [readUnit, hhex]
  simp only [Option.bind_eq_bind, Option.bind_some, hlow, false_and, if_false]
  split <;> rfl

/-- One character, however it is written. -/
theorem readChars_escapeChar (n c : Nat) (rest : PyString) :
    readChars (n + 1) (escapeChar c ++ rest) = (readChars n rest).map fun p => (c :: p.1, p.2) := by
  have hescaped : ∀ text, readEscape text = some (c, rest) →
      readChars (n + 1) (backslash :: text) = (readChars n rest).map fun p => (c :: p.1, p.2) := by
    intro text htext
    have hne : backslash ≠ quote := by decide
    rw [readChars, if_neg hne, if_pos rfl, htext]
    simp only [Option.bind_eq_bind, Option.bind_some]
    cases readChars n rest <;> rfl
  unfold escapeChar
  cases hletter : escapeLetter c with
  | some letter => exact hescaped _ (readEscape_letter hletter rest)
  | none =>
    dsimp only
    split
    next hcontrol =>
      apply hescaped
      show readUnit _ = _
      exact readUnit_control hcontrol rest
    next hplain =>
      have hquote : c ≠ quote := by
        rintro rfl
        exact absurd hletter (by decide)
      have hbackslash : c ≠ backslash := by
        rintro rfl
        exact absurd hletter (by decide)
      show readChars (n + 1) (c :: rest) = _
      rw [readChars, if_neg hquote, if_neg hbackslash, if_neg hplain]
      cases readChars n rest <;> rfl

theorem readChars_escaped (s rest : PyString) {n : Nat} (h : s.length < n) :
    readChars n (s.flatMap escapeChar ++ quote :: rest) = some (s, rest) := by
  induction s generalizing n with
  | nil =>
    obtain ⟨n, rfl⟩ : ∃ m, n = m + 1 := ⟨n - 1, by simp at h; omega⟩
    simp [readChars]
  | cons c s ih =>
    rw [List.length_cons] at h
    obtain ⟨n, rfl⟩ : ∃ m, n = m + 1 := ⟨n - 1, by omega⟩
    rw [List.flatMap_cons, List.append_assoc, readChars_escapeChar, ih (by omega)]
    rfl

theorem readString_dumped (s rest : PyString) : readString (s.flatMap escapeChar ++ quote :: rest) = some (s, rest) := by
  apply readChars_escaped
  rw [List.length_append, List.length_cons]
  have hle : s.length ≤ (s.flatMap escapeChar).length := by
    induction s with
    | nil => exact Nat.le_refl 0
    | cons c s ih =>
      have hpos : 0 < (escapeChar c).length := by
        unfold escapeChar
        split
        · exact Nat.succ_pos _
        · split <;> exact Nat.succ_pos _
      rw [List.flatMap_cons, List.length_append, List.length_cons]
      omega
  omega

theorem skipBlanks_cons (h : isBlank c = false) (rest : PyString) : skipBlanks (c :: rest) = c :: rest := by
  unfold skipBlanks
  rw [List.dropWhile_cons, h]
  rfl

theorem dumpOutput_eq (label : PyString) :
    dumpOutput label = '\x7b'.toNat :: quote :: ((pyString "output").flatMap escapeChar ++ quote :: ':'.toNat :: quote ::
      (label.flatMap escapeChar ++ quote :: ['\x7d'.toNat])) := by
  simp [dumpOutput, dumpString]

theorem readEntries_output (n depth : Nat) (label : PyString) :
    readEntries (n + 2) depth [] (quote :: ((pyString "output").flatMap escapeChar ++ quote :: ':'.toNat :: quote ::
      (label.flatMap escapeChar ++ quote :: ['\x7d'.toNat]))) = some ([(pyString "output", .str label)], []) := by
  have hvalue : readValue (n + 1) depth (quote :: (label.flatMap escapeChar ++ quote :: ['\x7d'.toNat])) =
      some (.str label, ['\x7d'.toNat]) := by
    cases depth <;> rw [readValue, if_pos rfl, readString_dumped] <;> rfl
  rw [readEntries, if_pos rfl, readString_dumped]
  simp only [Option.bind_eq_bind, Option.bind_some]
  rw [skipBlanks_cons (by decide)]
  dsimp only
  rw [if_pos rfl, skipBlanks_cons (by decide), hvalue, Option.bind_some]
  rfl

/-- The text of an example is the object with the one field. -/
theorem loads_dumpOutput {depth : Nat} (hdepth : 0 < depth) (label : PyString) :
    loads depth (dumpOutput label) = some (.dict [(pyString "output", .str label)]) := by
  obtain ⟨depth, rfl⟩ : ∃ d, depth = d + 1 := ⟨depth - 1, by omega⟩
  have hvalue : ∀ n, readValue (n + 3) (depth + 1) (dumpOutput label) =
      some (.dict [(pyString "output", .str label)], []) := by
    intro n
    rw [dumpOutput_eq, readValue, if_neg (by decide), if_neg (by decide), if_pos rfl, skipBlanks_cons (by decide)]
    rw [List.head?_cons, if_neg (by decide), readEntries_output]
    rfl
  obtain ⟨m, hm⟩ : ∃ m, 2 * (dumpOutput label).length + 1 = m + 3 := by
    refine ⟨2 * (dumpOutput label).length - 2, ?_⟩
    rw [dumpOutput_eq, List.length_cons]
    omega
  have hskip : skipBlanks (dumpOutput label) = dumpOutput label := by
    rw [dumpOutput_eq, skipBlanks_cons (by decide)]
  have hmark : (dumpOutput label).head? ≠ some byteOrderMark := by
    rw [dumpOutput_eq, List.head?_cons]
    decide
  rw [loads, if_neg hmark, hskip, hm, hvalue]
  rfl

end JsonText

variable {depth : Nat}

/-- What the operator makes of the text of an example. -/
theorem classifyPrediction_dumpOutput (hdepth : 0 < depth) {labels : List PyString} {label : PyString}
    (h : label ∈ labels) : classifyPrediction depth labels (some (dumpOutput label)) = .str label := by
  have hne : dumpOutput label ≠ [] := List.cons_ne_nil _ _
  have houtput : outputOf depth (some (dumpOutput label)) = some (.str label) := by
    rw [outputOf, Option.bind_some, if_neg hne, JsonText.loads_dumpOutput hdepth, Option.bind_some]
    simp [PyValue.subscript]
  rw [classifyPrediction, houtput]
  simp [PyValue.isLabel, h]

/-! ## The members -/

section
variable (mapping : CaseMapping)

/-- No name twice, and each label under its own name. -/
theorem foldl_set (labels : List String) {members : List (String × String)} (hnodup : (members.map Prod.fst).Nodup)
    (hnames : ∀ member ∈ members, member.1 = mapping.upper member.2) :
    ((labels.foldl (fun members value => Keyed.set (mapping.upper value) value members) members).map Prod.fst).Nodup ∧
      ∀ member ∈ labels.foldl (fun members value => Keyed.set (mapping.upper value) value members) members,
        member.1 = mapping.upper member.2 := by
  induction labels generalizing members with
  | nil => exact ⟨hnodup, hnames⟩
  | cons label labels ih =>
    apply ih
    · exact Keyed.nodup_keys_set hnodup
    · intro member hmember
      rcases Keyed.mem_of_mem_set hmember with rfl | hmember
      · rfl
      · exact hnames member hmember

theorem enumMembers_names (labels : List String) :
    ((enumMembers mapping labels).map Prod.fst).Nodup ∧
      ∀ member ∈ enumMembers mapping labels, member.1 = mapping.upper member.2 :=
  foldl_set mapping labels List.nodup_nil fun _ hmember => absurd hmember List.not_mem_nil

theorem foldl_set_of_nodup (labels : List String) (members : List (String × String))
    (h : (members.map Prod.fst ++ labels.map mapping.upper).Nodup) :
    labels.foldl (fun members value => Keyed.set (mapping.upper value) value members) members =
      members ++ labels.map fun label => (mapping.upper label, label) := by
  induction labels generalizing members with
  | nil => exact (List.append_nil members).symm
  | cons label labels ih =>
    have hfresh : mapping.upper label ∉ members.map Prod.fst := by
      intro hmem
      exact List.disjoint_of_nodup_append h hmem List.mem_cons_self
    rw [List.foldl_cons, Keyed.set_of_not_mem hfresh, ih _ (by simpa using h), List.append_assoc]
    rfl

end

/-- The name of a label makes a member of its own. -/
def NamesMember (name : String) : Prop := name ≠ "" ∧ ¬ isSunder name.toList ∧ ¬ isDunder name.toList

instance : DecidablePred NamesMember := fun name =>
  inferInstanceAs (Decidable (name ≠ "" ∧ ¬ isSunder name.toList ∧ ¬ isDunder name.toList))

variable {labels : List String}

theorem createClassificationPydanticModel_of_names {mapping : CaseMapping}
    (hnodup : (labels.map mapping.upper).Nodup) (hnames : ∀ label ∈ labels, NamesMember (mapping.upper label)) :
    createClassificationPydanticModel mapping labels = some ⟨labels⟩ := by
  have hmembers : enumMembers mapping labels = labels.map fun label => (mapping.upper label, label) :=
    foldl_set_of_nodup mapping labels [] hnodup
  have hreserved : ((labels.map fun label => (mapping.upper label, label)).any fun member =>
      member.1 = "" || isSunder member.1.toList) = false := by
    rw [List.any_eq_false]
    intro member hmember
    obtain ⟨label, hlabel, rfl⟩ := List.mem_map.mp hmember
    obtain ⟨hempty, hsunder, -⟩ := hnames label hlabel
    simp [hempty, hsunder]
  have hkept : (labels.map fun label => (mapping.upper label, label)).filter (fun member => !isDunder member.1.toList) =
      labels.map fun label => (mapping.upper label, label) := by
    rw [List.filter_eq_self]
    intro member hmember
    obtain ⟨label, hlabel, rfl⟩ := List.mem_map.mp hmember
    simp [(hnames label hlabel).2.2]
  unfold createClassificationPydanticModel createEnum
  rw [hmembers, hreserved, hkept]
  simp [Function.comp_def]

/-- A value of the model is the value of a member, whose name is that of the label. -/
theorem member_of_value {mapping : CaseMapping} {model : EnumModel}
    (h : createClassificationPydanticModel mapping labels = some model) {label : String} (hlabel : label ∈ model.values) :
    (mapping.upper label, label) ∈ enumMembers mapping labels ∧ NamesMember (mapping.upper label) := by
  obtain ⟨-, hnames⟩ := enumMembers_names mapping labels
  unfold createClassificationPydanticModel createEnum at h
  split at h
  · cases h
  next hreserved =>
    cases h
    obtain ⟨member, hmember, rfl⟩ := List.mem_map.mp hlabel
    obtain ⟨hmem, hdunder⟩ := List.mem_filter.mp hmember
    have hname := hnames member hmem
    rw [← hname]
    rw [Bool.not_eq_true, List.any_eq_false] at hreserved
    have hplain := hreserved member hmem
    simp only [Bool.or_eq_true, decide_eq_true_eq, not_or] at hplain
    exact ⟨hmem, hplain.1, hplain.2, by simpa using hdunder⟩

/-- Labels that are kept have a member each. -/
theorem LabelsKept.members {mapping : CaseMapping}
    (h : LabelsKept mapping depth labels) :
    ∀ label ∈ labels, (mapping.upper label, label) ∈ enumMembers mapping labels ∧ NamesMember (mapping.upper label) := by
  obtain ⟨model, hmodel, -, hexamples⟩ := h
  intro label hlabel
  obtain ⟨text, htext, -⟩ := hexamples label hlabel
  have hvalue : label ∈ model.values := by
    unfold EnumModel.convertExample at htext
    split at htext
    next hmem => exact hmem
    · cases htext
  exact member_of_value hmodel hvalue

/-- Two labels of one name would be two members of one name. -/
theorem LabelsKept.eq_of_upper_eq {mapping : CaseMapping}
    (h : LabelsKept mapping depth labels) {label label' : String} (hlabel : label ∈ labels) (hlabel' : label' ∈ labels)
    (heq : mapping.upper label = mapping.upper label') : label = label' := by
  obtain ⟨hunique, -⟩ := enumMembers_names mapping labels
  have hsame := List.inj_on_of_nodup_map hunique (h.members label hlabel).1 (h.members label' hlabel').1 heq
  exact congrArg Prod.snd hsame

/-- The labels are kept exactly when they have different names in upper case, each of which makes a member. -/
theorem labelsKept_iff (mapping : CaseMapping) {depth : Nat} (hdepth : 0 < depth) {labels : List String} (hnodup : labels.Nodup) :
    LabelsKept mapping depth labels ↔
      (labels.map mapping.upper).Nodup ∧ ∀ label ∈ labels, NamesMember (mapping.upper label) := by
  constructor
  · intro h
    refine ⟨hnodup.map_on fun label hlabel label' hlabel' heq => ?_, fun label hlabel => (h.members label hlabel).2⟩
    exact h.eq_of_upper_eq hlabel hlabel' heq
  · rintro ⟨hnames, hmembers⟩
    refine ⟨⟨labels⟩, createClassificationPydanticModel_of_names hnames hmembers, fun v => Iff.rfl, fun label hlabel => ?_⟩
    exact ⟨dumpOutput (pyString label), if_pos hlabel, classifyPrediction_dumpOutput hdepth (List.mem_map_of_mem hlabel)⟩

/-! ## Two runs -/

theorem not_isLower_toUpper (c : Char) : ¬ c.toUpper.isLower := by
  unfold Char.toUpper Char.isLower
  split
  next h =>
    obtain ⟨hlow, hhigh⟩ := h
    have ha : 97 ≤ c.val.toNat := UInt32.le_iff_toNat_le.mp hlow
    have hz : c.val.toNat ≤ 122 := UInt32.le_iff_toNat_le.mp hhigh
    have hdifference : ('A'.val - 'a'.val).toNat = 4294967264 := rfl
    simp only [Bool.and_eq_true, decide_eq_true_eq, not_and, ge_iff_le, UInt32.le_iff_toNat_le, UInt32.toNat_add,
      hdifference]
    intro hup
    have hup' : 97 ≤ (c.val.toNat + 4294967264) % 2 ^ 32 := hup
    omega
  next h => simpa using h

/-- The upper case of the basic letters. -/
def asciiUpper : CaseMapping where
  upper s := String.ofList (s.toList.map Char.toUpper)
  noLower s c hc := by
    rw [String.toList_ofList] at hc
    obtain ⟨d, -, rfl⟩ := List.mem_map.mp hc
    exact not_isLower_toUpper d

/-- Two labels that differ in more than their case. -/
theorem labelsKept_spam : LabelsKept asciiUpper 100 ["spam", "not_spam"] :=
  (labelsKept_iff asciiUpper (by decide) (by decide)).mpr ⟨by decide, by decide⟩

/-- Of two labels that differ in their case alone the first is lost. -/
theorem label_lost : ¬ ∀ (mapping : CaseMapping) (depth : Nat) (labels : List String), 0 < depth → labels ≠ [] →
    labels.Nodup → LabelsKept mapping depth labels := by
  intro h
  have hkept := h asciiUpper 100 ["Yes", "YES"] (by decide) (by decide) (by decide)
  have heq : "Yes" = "YES" := hkept.eq_of_upper_eq List.mem_cons_self (by decide) (by decide)
  exact absurd heq (by decide)

end SemanticOperators

end Fenic
