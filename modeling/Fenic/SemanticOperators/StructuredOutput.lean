import Mathlib
import Fenic.SemanticOperators.JsonText
import Fenic.Lib.Rows
import Fenic.Types.DataType

/-!
# `SemanticOperators.StructuredOutput` — operators with structured output

`semantic.predicate`, `semantic.classify`, `semantic.analyze_sentiment`, `semantic.extract`, and `semantic.map` with a
response format: each reads the completions of the model in its `postprocess` and makes a series of what it finds.

`Operator.MeetsContract` says that a series comes back, with one item a row, each of them null or the output of its own
completion, of the declared type. `execute_meetsContract_iff` tells which completions let an operator keep to it. Only
`Classify` checks a label before it takes it.
-/

namespace Fenic

namespace SemanticOperators

/-! ## Values of a type -/

namespace PyValue

def isNone : PyValue → Bool
  | .none => true
  | _ => false

def isBool : PyValue → Bool
  | .bool _ => true
  | _ => false

/-- One of the labels: a Python string is in a list or a set when it is equal to an item. -/
def isLabel (labels : List PyString) : PyValue → Bool
  | .str s => s ∈ labels
  | _ => false

/-- `value[key]`. Nothing but a dict has an item under a string. -/
def subscript (key : PyString) : PyValue → Option PyValue
  | .dict entries => entries.lookup key
  | _ => Option.none

mutual

/-- The value matches the Polars type of a data type of response formats, in which every item and field may be null. -/
def fits : DataType → PyValue → Bool
  | .booleanType, .bool _ => true
  | .integerType, .int n => -2 ^ 63 ≤ n ∧ n < 2 ^ 63
  | .doubleType, .float _ => true
  | .stringType, .str _ => true
  | .arrayType elementType, .list items => items.all fun item => item.isNone || fits elementType item
  | .structType fields, .dict entries => fitsFields fields entries
  | _, _ => false

def fitsFields : List (String × DataType) → List (PyString × PyValue) → Bool
  | [], [] => true
  | (name, fieldType) :: fields, (key, value) :: entries =>
    key = pyString name && (value.isNone || fits fieldType value) && fitsFields fields entries
  | _, _ => false

end

theorem isNone_of_eq {v : PyValue} (h : v.isNone = true) : v = .none := by
  cases v with
  | none => rfl
  | _ => cases h

end PyValue

/-! ## Polars -/

/-- The constructor of series in its strict mode: what does not match the given or the inferred type raises. -/
structure Polars where
  /-- `pl.Series(values)`. -/
  series : List PyValue → Option (List PyValue)
  /-- `pl.Series(values, dtype)`. -/
  seriesOf : DataType → List PyValue → Option (List PyValue)
  series_of_fits : ∀ (t : DataType) (values : List PyValue), t = .booleanType ∨ t = .stringType →
    (∀ v ∈ values, v.isNone ∨ v.fits t) → series values = some values
  /-- A null or a boolean of a series is one in the values, and the other way round. -/
  series_keeps : ∀ values cells : List PyValue, series values = some cells →
    List.Forall₂ (fun v cell => cell.isNone = v.isNone ∧ cell.isBool = v.isBool) values cells
  seriesOf_eq_some : ∀ (t : DataType) (values cells : List PyValue),
    seriesOf t values = some cells ↔ cells = values ∧ ∀ v ∈ values, v.isNone ∨ v.fits t

/-! ## Operators -/

/-- `ResolvedResponseFormat`, with the model as what `model_validate(...).model_dump()` makes of a value. -/
structure ResolvedResponseFormat where
  modelValidate : PyValue → Option PyValue
  structType : DataType

inductive Operator where
  | predicate
  | classify (labels : List PyString)
  | analyzeSentiment
  | extract (responseFormat : ResolvedResponseFormat)
  | map (responseFormat : ResolvedResponseFormat)

def sentiments : List PyString := [pyString "positive", pyString "negative", pyString "neutral"]

section

variable (depth : Nat)

/-- `json.loads(response)["output"]`, where the response is neither missing nor empty. -/
def outputOf (response : Option PyString) : Option PyValue :=
  response.bind fun text =>
    if text = [] then none else (JsonText.loads depth text).bind (PyValue.subscript (pyString "output"))

/-- `parse_structured_response`. -/
def ResolvedResponseFormat.parseStructuredResponse (responseFormat : ResolvedResponseFormat)
    (response : Option PyString) : Option PyValue :=
  response.bind fun text => (JsonText.loads depth text).bind responseFormat.modelValidate

/-- `Predicate.postprocess`, for one response. -/
def predicatePrediction (response : Option PyString) : PyValue := (outputOf depth response).getD .none

/-- `Classify.postprocess`, for one response. -/
def classifyPrediction (labels : List PyString) (response : Option PyString) : PyValue :=
  match outputOf depth response with
  | none => .none
  | some data => if data.isLabel labels then data else .none

/-- `AnalyzeSentiment.postprocess`, for one response. -/
def sentimentPredictions (response : Option PyString) : List PyValue :=
  match outputOf depth response with
  | none => [.none]
  -- the output is appended before it is checked
  | some data => if data.isLabel sentiments then [data] else [data, .none]

namespace Operator

/-- `postprocess`. -/
def postprocess (responses : List (Option PyString)) : Operator → List PyValue
  | .predicate => responses.map (predicatePrediction depth)
  | .classify labels => responses.map (classifyPrediction depth labels)
  | .analyzeSentiment => responses.flatMap (sentimentPredictions depth)
  | .extract responseFormat => responses.map fun r => (responseFormat.parseStructuredResponse depth r).getD .none
  | .map responseFormat => responses.map fun r => (responseFormat.parseStructuredResponse depth r).getD .none

/-- The type that is passed to `pl.Series`. -/
def outputType : Operator → Option DataType
  | .extract responseFormat => some responseFormat.structType
  | .map responseFormat => some responseFormat.structType
  | _ => none

/-- The series at the end of `execute`. -/
def finish (polars : Polars) (op : Operator) (responses : List (Option PyString)) : Option (List PyValue) :=
  match op.outputType with
  | some t => polars.seriesOf t (op.postprocess depth responses)
  | none => polars.series (op.postprocess depth responses)

end Operator

end

/-! ## Execution -/

/-- A client that answers every message in its place. A message that is not sent has no answer, and others may have none. -/
structure CompletionClient (Message : Type) where
  getCompletions : List (Option Message) → List (Option PyString)
  length_getCompletions : ∀ messages, (getCompletions messages).length = messages.length

/-- `build_request_messages_batch`. -/
def requestBatch {Message : Type} (buildRequestMessages : PyString → Message)
    (input : List (Option PyString)) : List (Option Message) :=
  input.map fun document => document.bind fun text => if text = [] then none else some (buildRequestMessages text)

namespace Operator

section

variable {Message : Type} (depth : Nat) (polars : Polars) (client : CompletionClient Message)
  (buildRequestMessages : PyString → Message) (op : Operator) (input : List (Option PyString))

/-- `send_requests`. -/
def responses : List (Option PyString) := client.getCompletions (requestBatch buildRequestMessages input)

/-- `execute`. -/
def execute : Option (List PyValue) := op.finish depth polars (responses client buildRequestMessages input)

end

/-! ## The contract -/

/-- The value has the type that the operator declares. -/
def IsOutput : Operator → PyValue → Prop
  | .predicate, v => v.isBool
  | .classify labels, v => v.isLabel labels
  | .analyzeSentiment, v => v.isLabel sentiments
  | .extract responseFormat, v => v.fits responseFormat.structType
  | .map responseFormat, v => v.fits responseFormat.structType

/-- The response is valid for the schema of the operator and says this value. -/
def Says (depth : Nat) : Operator → Option PyString → PyValue → Prop
  | .predicate, response, v => outputOf depth response = some v ∧ v.isBool
  | .classify labels, response, v => outputOf depth response = some v ∧ v.isLabel labels
  | .analyzeSentiment, response, v => outputOf depth response = some v ∧ v.isLabel sentiments
  | .extract responseFormat, response, v => responseFormat.parseStructuredResponse depth response = some v
  | .map responseFormat, response, v => responseFormat.parseStructuredResponse depth response = some v

/-- A result is null or a value of the declared type that its response says. -/
def Returns (depth : Nat) (op : Operator) (response : Option PyString) (result : PyValue) : Prop :=
  result = .none ∨ (op.IsOutput result ∧ op.Says depth response result)

/-- A series comes back, with one result a row. -/
def MeetsContract (depth : Nat) (op : Operator) (input responses : List (Option PyString))
    (outcome : Option (List PyValue)) : Prop :=
  ∃ results, outcome = some results ∧ results.length = input.length ∧
    List.Forall₂ (op.Returns depth) responses results

/-- What the operator does not check in a response. -/
def Handles (depth : Nat) : Operator → Option PyString → Prop
  | .predicate, response => ∀ v, outputOf depth response = some v → v.isNone ∨ v.isBool
  | .classify _, _ => True
  | .analyzeSentiment, response => ∀ v, outputOf depth response = some v → v.isLabel sentiments
  | .extract responseFormat, response =>
    ∀ v, responseFormat.parseStructuredResponse depth response = some v → v.isNone ∨ v.fits responseFormat.structType
  | .map responseFormat, response =>
    ∀ v, responseFormat.parseStructuredResponse depth response = some v → v.isNone ∨ v.fits responseFormat.structType

/-! ## Predictions -/

theorem fits_booleanType (v : PyValue) : v.fits .booleanType = v.isBool := by
  cases v <;> simp [PyValue.fits, PyValue.isBool]

variable {v : PyValue}

theorem fits_of_isLabel {labels : List PyString} (h : v.isLabel labels) : v.fits .stringType := by
  cases v with
  | str s => simp [PyValue.fits]
  | _ => cases h

variable {response : Option PyString}

theorem predicatePrediction_of_output {depth : Nat}
    (h : outputOf depth response = some v) : predicatePrediction depth response = v := by
  rw [predicatePrediction, h, Option.getD_some]

theorem classifyPrediction_cases (depth : Nat) (labels : List PyString) (response : Option PyString) :
    classifyPrediction depth labels response = .none ∨
      ∃ v, outputOf depth response = some v ∧ v.isLabel labels ∧ classifyPrediction depth labels response = v := by
  unfold classifyPrediction
  cases houtput : outputOf depth response with
  | none => exact Or.inl rfl
  | some v =>
    cases hlabel : v.isLabel labels with
    | true => exact Or.inr ⟨v, rfl, hlabel, by simp [hlabel]⟩
    | false => exact Or.inl (by simp [hlabel])

/-- An output that is no sentiment takes the place of two. -/
theorem length_sentimentPredictions (depth : Nat) (response : Option PyString) :
    0 < (sentimentPredictions depth response).length := by
  unfold sentimentPredictions
  cases outputOf depth response with
  | none => simp
  | some v => by_cases hlabel : v.isLabel sentiments <;> simp [hlabel]

theorem isLabel_of_single {depth : Nat}
    (houtput : outputOf depth response = some v) (hlength : (sentimentPredictions depth response).length = 1) :
    v.isLabel sentiments := by
  by_contra hlabel
  simp [sentimentPredictions, houtput, hlabel] at hlength

theorem sentimentPredictions_of_handles {depth : Nat}
    (h : analyzeSentiment.Handles depth response) :
    sentimentPredictions depth response = [predicatePrediction depth response] := by
  unfold sentimentPredictions predicatePrediction
  cases houtput : outputOf depth response with
  | none => rfl
  | some v => simp [h v houtput]

/-! ## Operators one by one -/

section

variable {depth : Nat} {polars : Polars} {op : Operator} {input responses : List (Option PyString)}

theorem meetsContract_of_map {f : Option PyString → PyValue} (hlength : responses.length = input.length)
    (h : ∀ r ∈ responses, op.Returns depth r (f r)) :
    op.MeetsContract depth input responses (some (responses.map f)) := by
  refine ⟨responses.map f, rfl, ?_, ?_⟩
  · rw [List.length_map, hlength]
  · rw [List.forall₂_map_right_iff]
    exact List.forall₂_same.mpr h

theorem predicate_meetsContract_iff (hlength : responses.length = input.length) :
    predicate.MeetsContract depth input responses (predicate.finish depth polars responses) ↔
      ∀ r ∈ responses, predicate.Handles depth r := by
  constructor
  · rintro ⟨results, hseries, -, hreturns⟩ r hr v hv
    have hkeeps := polars.series_keeps _ _ hseries
    rw [postprocess, List.forall₂_map_left_iff] at hkeeps
    obtain ⟨cell, -, ⟨hnone, hbool⟩, hcell⟩ :=
      Rows.exists_right_of_forall₂ (List.Forall₂.mp (fun _ _ hk hr => And.intro hk hr) hkeeps hreturns) hr
    rw [predicatePrediction_of_output hv] at hnone hbool
    rcases hcell with rfl | ⟨houtput, -⟩
    · exact Or.inl hnone.symm
    · exact Or.inr (hbool ▸ houtput)
  · intro h
    have hpredictions : ∀ r ∈ responses, predicate.Returns depth r (predicatePrediction depth r) := by
      intro r hr
      cases houtput : outputOf depth r with
      | none => exact Or.inl (by rw [predicatePrediction, houtput, Option.getD_none])
      | some v =>
        rw [predicatePrediction_of_output houtput]
        rcases h r hr v houtput with hnone | hbool
        · exact Or.inl (PyValue.isNone_of_eq hnone)
        · exact Or.inr ⟨hbool, houtput, hbool⟩
    have hseries : predicate.finish depth polars responses = some (responses.map (predicatePrediction depth)) := by
      apply polars.series_of_fits .booleanType _ (Or.inl rfl)
      intro v hv
      obtain ⟨r, hr, rfl⟩ := List.mem_map.mp hv
      rw [fits_booleanType]
      rcases hpredictions r hr with hnone | ⟨hbool, -⟩
      · exact Or.inl (by rw [hnone]; rfl)
      · exact Or.inr hbool
    rw [hseries]
    exact meetsContract_of_map hlength hpredictions

theorem classify_meetsContract (labels : List PyString) (hlength : responses.length = input.length) :
    (classify labels).MeetsContract depth input responses ((classify labels).finish depth polars responses) := by
  have hseries : (classify labels).finish depth polars responses =
      some (responses.map (classifyPrediction depth labels)) := by
    apply polars.series_of_fits .stringType _ (Or.inr rfl)
    intro v hv
    obtain ⟨r, -, rfl⟩ := List.mem_map.mp hv
    rcases classifyPrediction_cases depth labels r with hnone | ⟨v, -, hlabel, hv⟩
    · exact Or.inl (by rw [hnone]; rfl)
    · exact Or.inr (by rw [hv]; exact fits_of_isLabel hlabel)
  rw [hseries]
  refine meetsContract_of_map hlength fun r _ => ?_
  rcases classifyPrediction_cases depth labels r with hnone | ⟨v, houtput, hlabel, hv⟩
  · exact Or.inl hnone
  · rw [hv]
    exact Or.inr ⟨hlabel, houtput, hlabel⟩

theorem analyzeSentiment_meetsContract_iff (hlength : responses.length = input.length) :
    analyzeSentiment.MeetsContract depth input responses (analyzeSentiment.finish depth polars responses) ↔
      ∀ r ∈ responses, analyzeSentiment.Handles depth r := by
  constructor
  · rintro ⟨results, hseries, hresults, -⟩ r hr v hv
    have hcount : (responses.flatMap (sentimentPredictions depth)).length = responses.length := by
      rw [hlength, ← hresults]
      exact (polars.series_keeps _ _ hseries).length_eq
    exact isLabel_of_single hv (Rows.length_eq_one_of_flatMap (length_sentimentPredictions depth) hcount r hr)
  · intro h
    have hpost : analyzeSentiment.postprocess depth responses = responses.map (predicatePrediction depth) := by
      show responses.flatMap _ = _
      rw [List.flatMap_congr fun r hr => sentimentPredictions_of_handles (h r hr), ← List.map_eq_flatMap]
    have hpredictions : ∀ r ∈ responses, analyzeSentiment.Returns depth r (predicatePrediction depth r) := by
      intro r hr
      cases houtput : outputOf depth r with
      | none => exact Or.inl (by rw [predicatePrediction, houtput, Option.getD_none])
      | some v =>
        rw [predicatePrediction_of_output houtput]
        exact Or.inr ⟨h r hr v houtput, houtput, h r hr v houtput⟩
    have hseries : analyzeSentiment.finish depth polars responses =
        some (responses.map (predicatePrediction depth)) := by
      show polars.series _ = _
      rw [hpost]
      apply polars.series_of_fits .stringType _ (Or.inr rfl)
      intro v hv
      obtain ⟨r, hr, rfl⟩ := List.mem_map.mp hv
      rcases hpredictions r hr with hnone | ⟨hlabel, -⟩
      · exact Or.inl (by rw [hnone]; rfl)
      · exact Or.inr (fits_of_isLabel hlabel)
    rw [hseries]
    exact meetsContract_of_map hlength hpredictions

/-- The operators that build their series with the type of the response format. -/
theorem parsed_meetsContract_iff {responseFormat : ResolvedResponseFormat}
    (hop : op = extract responseFormat ∨ op = map responseFormat) (hlength : responses.length = input.length) :
    op.MeetsContract depth input responses (op.finish depth polars responses) ↔ ∀ r ∈ responses, op.Handles depth r := by
  have hfinish : op.finish depth polars responses = polars.seriesOf responseFormat.structType
      (responses.map fun r => (responseFormat.parseStructuredResponse depth r).getD .none) := by
    rcases hop with rfl | rfl <;> rfl
  have hhandles : ∀ r, op.Handles depth r ↔ ∀ v, responseFormat.parseStructuredResponse depth r = some v →
      v.isNone ∨ v.fits responseFormat.structType := by
    rcases hop with rfl | rfl <;> exact fun _ => Iff.rfl
  have hreturns : ∀ r v, v.isNone ∨ v.fits responseFormat.structType →
      responseFormat.parseStructuredResponse depth r = some v → op.Returns depth r v := by
    intro r v hfits hv
    rcases hfits with hnone | hfits
    · exact Or.inl (PyValue.isNone_of_eq hnone)
    · rcases hop with rfl | rfl <;> exact Or.inr ⟨hfits, hv⟩
  rw [hfinish]
  constructor
  · rintro ⟨results, hseries, -, -⟩ r hr
    refine (hhandles r).mpr fun v hv => ?_
    obtain ⟨-, hfits⟩ := (polars.seriesOf_eq_some _ _ _).mp hseries
    refine hfits v (List.mem_map.mpr ⟨r, hr, ?_⟩)
    rw [hv, Option.getD_some]
  · intro h
    have hall : ∀ r ∈ responses,
        op.Returns depth r ((responseFormat.parseStructuredResponse depth r).getD .none) ∧
        (((responseFormat.parseStructuredResponse depth r).getD .none).isNone ∨
          ((responseFormat.parseStructuredResponse depth r).getD .none).fits responseFormat.structType) := by
      intro r hr
      cases hparse : responseFormat.parseStructuredResponse depth r with
      | none => exact ⟨Or.inl rfl, Or.inl rfl⟩
      | some v =>
        have hfits := (hhandles r).mp (h r hr) v hparse
        exact ⟨hreturns r v hfits hparse, hfits⟩
    rw [(polars.seriesOf_eq_some _ _ _).mpr ⟨rfl, ?_⟩]
    · exact meetsContract_of_map hlength fun r hr => (hall r hr).1
    · intro v hv
      obtain ⟨r, hr, rfl⟩ := List.mem_map.mp hv
      exact (hall r hr).2

end

/-! ## All operators -/

section

variable {Message : Type} (depth : Nat) (polars : Polars) (client : CompletionClient Message)
  (buildRequestMessages : PyString → Message)

theorem length_responses (input : List (Option PyString)) :
    (responses client buildRequestMessages input).length = input.length := by
  rw [responses, client.length_getCompletions, requestBatch, List.length_map]

/-- **An operator keeps its contract exactly over the responses that it handles.** -/
theorem execute_meetsContract_iff (op : Operator) (input : List (Option PyString)) :
    op.MeetsContract depth input (responses client buildRequestMessages input)
        (op.execute depth polars client buildRequestMessages input) ↔
      ∀ r ∈ responses client buildRequestMessages input, op.Handles depth r := by
  have hlength := length_responses client buildRequestMessages input
  cases op with
  | predicate => exact predicate_meetsContract_iff hlength
  | classify labels => exact iff_of_true (classify_meetsContract labels hlength) fun _ _ => trivial
  | analyzeSentiment => exact analyzeSentiment_meetsContract_iff hlength
  | extract responseFormat => exact parsed_meetsContract_iff (Or.inl rfl) hlength
  | map responseFormat => exact parsed_meetsContract_iff (Or.inr rfl) hlength

end

end Operator

/-! ## Examples -/

namespace StructuredOutputExamples

/-- Values of one type, or nulls. -/
def strictSeries (values : List PyValue) : Option (List PyValue) :=
  if values.all (fun v => v.isNone || v.fits .booleanType) || values.all (fun v => v.isNone || v.fits .stringType) then
    some values
  else none

def strictSeriesOf (t : DataType) (values : List PyValue) : Option (List PyValue) :=
  if values.all (fun v => v.isNone || v.fits t) then some values else none

def strictPolars : Polars where
  series := strictSeries
  seriesOf := strictSeriesOf
  series_of_fits t values ht h := by
    have hall : values.all (fun v => v.isNone || v.fits t) = true := by simpa using h
    rcases ht with rfl | rfl <;> simp [strictSeries, hall]
  series_keeps values cells h := by
    obtain ⟨-, heq⟩ := Option.ite_none_right_eq_some.mp h
    cases heq
    exact List.forall₂_same.mpr fun _ _ => ⟨rfl, rfl⟩
  seriesOf_eq_some t values cells := by
    rw [strictSeriesOf, Option.ite_none_right_eq_some, and_comm, Option.some_inj, eq_comm]
    simp

/-- A client of one answer. -/
def answering (response : String) : CompletionClient PyString where
  getCompletions messages := messages.map fun message => message.map fun _ => pyString response
  length_getCompletions _ := List.length_map ..

def review : List (Option PyString) := [some (pyString "a"), none]

def happy : CompletionClient PyString := answering "\x7b\"output\":\"happy\"\x7d"

def yes : CompletionClient PyString := answering "\x7b\"output\":\"yes\"\x7d"

def manyStars : CompletionClient PyString := answering "\x7b\"stars\":9223372036854775808\x7d"

/-- A model of one integer, which pydantic does not bound. -/
def starsFormat : ResolvedResponseFormat where
  modelValidate v :=
    match v.subscript (pyString "stars") with
    | some (.int n) => some (.dict [(pyString "stars", .int n)])
    | _ => none
  structType := .structType [("stars", .integerType)]

/-- A label that is no sentiment makes three items for two rows; a truth value may be a text; an integer may be too large
    for its column. -/
theorem happy_yes_manyStars_not_meetsContract :
    (¬ Operator.analyzeSentiment.MeetsContract 1 review (Operator.responses happy id review)
        (Operator.analyzeSentiment.execute 1 strictPolars happy id review)) ∧
      (¬ Operator.predicate.MeetsContract 1 review (Operator.responses yes id review)
        (Operator.predicate.execute 1 strictPolars yes id review)) ∧
      ¬ (Operator.extract starsFormat).MeetsContract 1 review (Operator.responses manyStars id review)
        ((Operator.extract starsFormat).execute 1 strictPolars manyStars id review) := by
  refine ⟨?_, ?_, ?_⟩
  · rintro ⟨results, hresults, hlength, -⟩
    have hthree : (Operator.analyzeSentiment.execute 1 strictPolars happy id review).map List.length = some 3 := by
      decide +kernel
    rw [hresults, Option.map_some, Option.some_inj] at hthree
    rw [hthree] at hlength
    exact absurd hlength (by decide)
  · intro h
    have hmem : some (pyString "\x7b\"output\":\"yes\"\x7d") ∈ Operator.responses yes id review := by decide +kernel
    have htext : (outputOf 1 (some (pyString "\x7b\"output\":\"yes\"\x7d"))).any
        (fun v => !(v.isNone || v.isBool)) = true := by decide +kernel
    obtain ⟨v, hv, hneither⟩ := (Option.any_eq_true _ _).mp htext
    have hhandles := (Operator.predicate_meetsContract_iff (Operator.length_responses yes id review)).mp h _ hmem v hv
    rcases hhandles with hnone | hbool
    · simp [hnone] at hneither
    · simp [hbool] at hneither
  · rintro ⟨results, hresults, -⟩
    have hraises : ((Operator.extract starsFormat).execute 1 strictPolars manyStars id review).isNone = true := by
      decide +kernel
    rw [hresults] at hraises
    cases hraises

/-- A label of the class is returned. -/
theorem happy_classify_meetsContract :
    (Operator.classify [pyString "happy"]).MeetsContract 1 review (Operator.responses happy id review)
      ((Operator.classify [pyString "happy"]).execute 1 strictPolars happy id review) :=
  (Operator.execute_meetsContract_iff 1 strictPolars happy id (.classify [pyString "happy"]) review).mpr
    fun _ _ => trivial

end StructuredOutputExamples

end SemanticOperators

end Fenic
