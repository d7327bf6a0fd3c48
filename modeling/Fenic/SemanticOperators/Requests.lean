import Fenic.SemanticOperators.Reduce

/-!
# `SemanticOperators.Requests` — from semantic expressions to requests

`ExprConverter` makes an operator of each semantic expression, the operator sets up its request sender, and the sender hands the
messages of a batch to the language model, with the parameters of its configuration. `semantic.reduce` has no sender: it calls
the model itself, once a level.

What is handed over are the requests of a `SemanticOperation`, an expression over its input. A system message stands as the data
that its template is rendered with. Templates, the JSON of examples and the pages of files are those of `Externals`.
-/

namespace Fenic

namespace SemanticOperators

/-! ## Models -/

inductive ModelProvider where
  | openai
  | anthropic
  | googleDeveloper
  | googleVertex
  | openrouter
  deriving DecidableEq

/-- A language model of the session. -/
structure RegisteredModel where
  provider : ModelProvider
  name : String
  languageModel : LanguageModel

structure ResolvedModelAlias where
  name : String
  profile : Option String
  deriving DecidableEq

/-- The language models of a session, under their aliases. -/
structure LanguageModelRegistry where
  models : List (String × RegisteredModel)
  defaultModel : RegisteredModel

/-- `get_language_model`. No model under the alias is an error. -/
def LanguageModelRegistry.getLanguageModel (registry : LanguageModelRegistry) :
    Option ResolvedModelAlias → Option RegisteredModel
  | none => some registry.defaultModel
  | some modelAlias => registry.models.lookup modelAlias.name

/-! ## Messages -/

structure FewShotExample where
  user : String
  assistant : String
  deriving DecidableEq

structure LMRequestFile where
  path : String
  pageRange : Nat × Nat
  deriving DecidableEq

structure ResolvedClassDefinition where
  label : String
  description : Option String
  deriving DecidableEq

/-- `KeyPoints`, with its number of points, or `Paragraph`, with its number of words. -/
inductive SummaryFormat where
  | keyPoints (maxPoints : Nat)
  | paragraph (maxWords : Nat)
  deriving DecidableEq

def SummaryFormat.maxTokens : SummaryFormat → Nat
  | .keyPoints maxPoints => maxPoints * 75
  | .paragraph maxWords => maxWords * 3 / 2

structure ResponseFormatDefinition where
  jsonSchema : String
  promptSchemaDefinition : String
  deriving DecidableEq

/-- The response format of an expression, `PREDICATE_FORMAT`, or that of a classification model. -/
inductive ResponseFormat where
  | resolved (definition : ResponseFormatDefinition)
  | boolean
  | classification (labels : List String)
  deriving DecidableEq

/-- What the system message of an operator is rendered with. -/
inductive SystemMessage where
  | simpleInstruction
  | mapSchema (schemaDefinition : String)
  | extractSchema (schemaDefinition : String)
  | predicate
  | classify (classes : List ResolvedClassDefinition)
  | analyzeSentiment
  | summarize (format : SummaryFormat)
  | parsePDF (pageSeparator : Option String) (describeImages multiplePages : Bool)
  deriving DecidableEq

structure RequestMessages where
  system : SystemMessage
  examples : List FewShotExample
  user : Option String
  userFile : Option LMRequestFile
  deriving DecidableEq

/-! ## Request senders -/

structure InferenceConfiguration where
  maxOutputTokens : Option Nat
  temperature : Rat
  topLogprobs : Option Nat
  responseFormat : Option ResponseFormat
  modelProfile : Option String
  requestTimeout : Option Rat

/-- A request, as `get_completions` takes it: the messages and the parameters of its batch. -/
structure CompletionRequest where
  model : RegisteredModel
  messages : RequestMessages
  maxTokens : Option Nat
  temperature : Rat
  responseFormat : Option ResponseFormat
  topLogprobs : Option Nat
  modelProfile : Option String
  requestTimeout : Option Rat

structure CompletionOnlyRequestSender where
  model : RegisteredModel
  inferenceConfig : InferenceConfiguration

/-- `send_requests`. No request is made of missing messages. -/
def CompletionOnlyRequestSender.sendRequests (sender : CompletionOnlyRequestSender)
    (messageBatch : List (Option RequestMessages)) : List CompletionRequest :=
  messageBatch.reduceOption.map fun messages =>
    { model := sender.model
      messages := messages
      maxTokens := sender.inferenceConfig.maxOutputTokens
      temperature := sender.inferenceConfig.temperature
      responseFormat := sender.inferenceConfig.responseFormat
      topLogprobs := sender.inferenceConfig.topLogprobs
      modelProfile := sender.inferenceConfig.modelProfile
      requestTimeout := sender.inferenceConfig.requestTimeout }

/-! ## Expressions -/

/-- The output of an example of `semantic.map`: a text, or a model as JSON. -/
inductive MapOutput where
  | text (output : String)
  | model (json : String)
  deriving DecidableEq

/-- The output as a message. -/
def MapOutput.message : MapOutput → String
  | .text output => output
  | .model json => json

structure SemanticMapExpr where
  template : String
  maxTokens : Nat
  temperature : Rat
  modelAlias : Option ResolvedModelAlias
  responseFormat : Option ResponseFormatDefinition
  examples : Option (List (List (String × String) × MapOutput))
  requestTimeout : Option Rat

structure SemanticExtractExpr where
  maxTokens : Nat
  temperature : Rat
  responseFormat : ResponseFormatDefinition
  modelAlias : Option ResolvedModelAlias
  requestTimeout : Option Rat

structure SemanticPredExpr where
  template : String
  temperature : Rat
  modelAlias : Option ResolvedModelAlias
  examples : Option (List (List (String × String) × Bool))
  requestTimeout : Option Rat

structure SemanticReduceExpr where
  maxTokens : Nat
  temperature : Rat
  modelAlias : Option ResolvedModelAlias
  requestTimeout : Option Rat

structure SemanticClassifyExpr where
  classes : List ResolvedClassDefinition
  temperature : Rat
  examples : Option (List (String × String))
  modelAlias : Option ResolvedModelAlias
  requestTimeout : Option Rat

structure AnalyzeSentimentExpr where
  temperature : Rat
  modelAlias : Option ResolvedModelAlias
  requestTimeout : Option Rat

structure SemanticSummarizeExpr where
  format : SummaryFormat
  temperature : Rat
  modelAlias : Option ResolvedModelAlias
  requestTimeout : Option Rat

structure SemanticParsePDFExpr where
  modelAlias : Option ResolvedModelAlias
  pageSeparator : Option String
  describeImages : Bool
  maxOutputTokens : Option Nat
  requestTimeout : Option Rat

/-! ## Operators -/

/-- What comes from outside: templates, the JSON of an example of `semantic.classify`, the examples of
    `semantic.analyze_sentiment`, and the chunks of a file. -/
structure Externals where
  render : String → List (String × String) → String
  dumpLabel : List String → String → String
  sentimentExamples : List (String × String)
  fileChunks : String → List LMRequestFile

/-- An operator over one column: its sender, its examples as messages and its system message. -/
structure BaseOperator where
  input : List (Option String)
  requestSender : CompletionOnlyRequestSender
  examples : Option (List FewShotExample)
  system : SystemMessage

/-- `build_request_messages`. -/
def BaseOperator.buildRequestMessages (operator : BaseOperator) (input : String) : RequestMessages where
  system := operator.system
  examples := operator.examples.getD []
  user := some input
  userFile := none

/-- `build_request_messages_batch`. -/
def BaseOperator.buildRequestMessagesBatch (operator : BaseOperator) : List (Option RequestMessages) :=
  operator.input.map fun document =>
    document.bind fun text => if text = "" then none else some (operator.buildRequestMessages text)

/-- The requests of `execute`. -/
def BaseOperator.requests (operator : BaseOperator) : List CompletionRequest :=
  operator.requestSender.sendRequests operator.buildRequestMessagesBatch

/-- `MAX_TOKENS_DETERMINISTIC_OUTPUT_SIZE`. -/
def maxTokensDeterministicOutputSize : Nat := 64

/-- `TOKEN_OVERHEAD_JSON`. -/
def tokenOverheadJson : Nat := 5

/-- `TOKEN_OVERHEAD_MISC`. -/
def tokenOverheadMisc : Nat := 5

/-- `model_alias.profile if model_alias else None`. -/
def profileOf (modelAlias : Option ResolvedModelAlias) : Option String := modelAlias.bind ResolvedModelAlias.profile

section

variable (externals : Externals)

namespace Map

/-- `Map.__init__`. -/
def new (input : List (Option String)) (jinjaTemplate : String) (model : RegisteredModel) (maxTokens : Nat) (temperature : Rat)
    (modelAlias : Option ResolvedModelAlias) (responseFormat : Option ResponseFormatDefinition)
    (examples : Option (List (List (String × String) × MapOutput))) (requestTimeout : Option Rat) : BaseOperator where
  input := input
  requestSender :=
    { model := model
      inferenceConfig :=
        { maxOutputTokens := some maxTokens
          temperature := temperature
          topLogprobs := none
          responseFormat := responseFormat.map .resolved
          modelProfile := profileOf modelAlias
          requestTimeout := requestTimeout } }
  examples := examples.map fun collection =>
    collection.map fun entry => ⟨externals.render jinjaTemplate entry.1, entry.2.message⟩
  system := match responseFormat with
    | some format => .mapSchema format.promptSchemaDefinition
    | none => .simpleInstruction

end Map

namespace Extract

/-- `Extract.__init__`. -/
def new (input : List (Option String)) (responseFormat : ResponseFormatDefinition) (model : RegisteredModel)
    (maxOutputTokens : Nat) (temperature : Rat) (modelAlias : Option ResolvedModelAlias) (requestTimeout : Option Rat) :
    BaseOperator where
  input := input
  requestSender :=
    { model := model
      inferenceConfig :=
        { maxOutputTokens := some maxOutputTokens
          temperature := temperature
          topLogprobs := none
          responseFormat := some (.resolved responseFormat)
          modelProfile := profileOf modelAlias
          requestTimeout := requestTimeout } }
  examples := none
  system := .extractSchema responseFormat.promptSchemaDefinition

end Extract

namespace Predicate

/-- `SimpleBooleanOutputModelResponse(output=output).model_dump_json()`. -/
def dumpBoolean (output : Bool) : String := if output then "\x7b\"output\":true\x7d" else "\x7b\"output\":false\x7d"

/-- `Predicate.__init__`. -/
def new (input : List (Option String)) (jinjaTemplate : String) (model : RegisteredModel) (temperature : Rat)
    (examples : Option (List (List (String × String) × Bool))) (modelAlias : Option ResolvedModelAlias)
    (requestTimeout : Option Rat) : BaseOperator where
  input := input
  requestSender :=
    { model := model
      inferenceConfig :=
        { maxOutputTokens := some maxTokensDeterministicOutputSize
          temperature := temperature
          topLogprobs := none
          responseFormat := some .boolean
          modelProfile := profileOf modelAlias
          requestTimeout := requestTimeout } }
  examples := examples.map fun collection =>
    collection.map fun entry => ⟨externals.render jinjaTemplate entry.1, dumpBoolean entry.2⟩
  system := .predicate

end Predicate

namespace Classify

def labels (classes : List ResolvedClassDefinition) : List String := classes.map ResolvedClassDefinition.label

/-- `get_max_tokens`. -/
def getMaxTokens (classes : List ResolvedClassDefinition) : Nat :=
  let maxLabelLength := ((labels classes).map String.length).foldl max 0
  max maxTokensDeterministicOutputSize (tokenOverheadJson + tokenOverheadMisc + maxLabelLength)

/-- `Classify.__init__`. -/
def new (input : List (Option String)) (classes : List ResolvedClassDefinition) (model : RegisteredModel) (temperature : Rat)
    (examples : Option (List (String × String))) (modelAlias : Option ResolvedModelAlias) (requestTimeout : Option Rat) :
    BaseOperator where
  input := input
  requestSender :=
    { model := model
      inferenceConfig :=
        { maxOutputTokens := some (getMaxTokens classes)
          temperature := temperature
          topLogprobs := none
          responseFormat := some (.classification (labels classes))
          modelProfile := profileOf modelAlias
          requestTimeout := requestTimeout } }
  examples := examples.map fun collection =>
    collection.map fun entry => ⟨entry.1, externals.dumpLabel (labels classes) entry.2⟩
  system := .classify classes

end Classify

namespace AnalyzeSentiment

def labels : List String := ["positive", "negative", "neutral"]

/-- The examples of the operator, as messages. -/
def examples : List FewShotExample :=
  externals.sentimentExamples.map fun entry => ⟨entry.1, externals.dumpLabel labels entry.2⟩

/-- `AnalyzeSentiment.__init__`. -/
def new (input : List (Option String)) (model : RegisteredModel) (temperature : Rat) (modelAlias : Option ResolvedModelAlias)
    (requestTimeout : Option Rat) : BaseOperator where
  input := input
  requestSender :=
    { model := model
      inferenceConfig :=
        { maxOutputTokens := some maxTokensDeterministicOutputSize
          temperature := temperature
          topLogprobs := none
          responseFormat := some (.classification labels)
          modelProfile := profileOf modelAlias
          requestTimeout := requestTimeout } }
  examples := some (examples externals)
  system := .analyzeSentiment

end AnalyzeSentiment

namespace Summarize

/-- `Summarize.__init__`. -/
def new (input : List (Option String)) (format : SummaryFormat) (temperature : Rat) (model : RegisteredModel)
    (modelAlias : Option ResolvedModelAlias) (requestTimeout : Option Rat) : BaseOperator where
  input := input
  requestSender :=
    { model := model
      inferenceConfig :=
        { maxOutputTokens := some format.maxTokens
          temperature := temperature
          topLogprobs := none
          responseFormat := none
          modelProfile := profileOf modelAlias
          requestTimeout := requestTimeout } }
  examples := none
  system := .summarize format

end Summarize

/-- `ParsePDF`. -/
structure ParsePDF where
  input : List (Option String)
  requestSender : CompletionOnlyRequestSender
  pageSeparator : Option String
  describeImages : Bool

namespace ParsePDF

/-- The temperature of a model. The models of Google get a higher one. -/
def temperature (model : RegisteredModel) : Rat :=
  if model.provider = .googleDeveloper ∨ model.provider = .googleVertex ∨
      (model.provider = .openrouter ∧ (model.name.splitOn "/").head? = some "google") then 1
  else 0

/-- `ParsePDF.__init__`, for files with the extension `pdf`. -/
def new (input : List (Option String)) (model : RegisteredModel) (pageSeparator : Option String) (describeImages : Bool)
    (modelAlias : Option ResolvedModelAlias) (maxOutputTokens : Option Nat) (requestTimeout : Option Rat) : ParsePDF where
  input := input
  requestSender :=
    { model := model
      inferenceConfig :=
        { maxOutputTokens := maxOutputTokens
          temperature := temperature model
          topLogprobs := none
          responseFormat := none
          modelProfile := profileOf modelAlias
          requestTimeout := requestTimeout } }
  pageSeparator := pageSeparator
  describeImages := describeImages

/-- `build_request_messages`. -/
def buildRequestMessages (operator : ParsePDF) (file : LMRequestFile) (multiplePages : Bool) : RequestMessages where
  system := .parsePDF operator.pageSeparator operator.describeImages multiplePages
  examples := []
  user := none
  userFile := some file

/-- The messages of `build_request_messages_batch`: one for each chunk of a file. -/
def buildRequestMessagesBatch (operator : ParsePDF) : List (Option RequestMessages) :=
  operator.input.flatMap fun path =>
    match path with
    | none => [none]
    | some path =>
      if path = "" then [none]
      else
        let fileChunks := externals.fileChunks path
        fileChunks.map fun file => some (operator.buildRequestMessages file (1 < fileChunks.length))

/-- The requests of `execute`. -/
def requests (operator : ParsePDF) : List CompletionRequest :=
  operator.requestSender.sendRequests (operator.buildRequestMessagesBatch externals)

end ParsePDF

/-- The attributes of `Reduce` that its requests carry. -/
structure ReduceOperator where
  model : RegisteredModel
  maxTokens : Nat
  temperature : Rat
  modelProfile : Option String

namespace ReduceOperator

/-- `Reduce.__init__`. -/
def new (model : RegisteredModel) (maxTokens : Nat) (temperature : Rat) (modelAlias : Option ResolvedModelAlias) :
    ReduceOperator where
  model := model
  maxTokens := maxTokens
  temperature := temperature
  modelProfile := profileOf modelAlias

def packing (operator : ReduceOperator) : Reduce := ⟨operator.model.languageModel, operator.maxTokens⟩

/-- The call of `get_completions`. What it does not pass has its default. -/
def getCompletions (operator : ReduceOperator) (messagesBatch : List LMRequestMessages) : List CompletionRequest :=
  messagesBatch.map fun messages =>
    { model := operator.model
      messages := ⟨.simpleInstruction, [], some messages.user, none⟩
      maxTokens := some operator.maxTokens
      temperature := operator.temperature
      responseFormat := none
      topLogprobs := none
      modelProfile := operator.modelProfile
      requestTimeout := none }

/-- The requests of the loop of `_reduce_group`, for a number of levels. -/
def loopRequests (operator : ReduceOperator) (userInstruction : String) (responses : Reduce.Responses) :
    Nat → Nat → List (Option String) → List CompletionRequest
  | 0, _, _ => []
  | levels + 1, treeLevel, docs =>
    if 1 < docs.length ∨ treeLevel = 0 then
      match operator.packing.buildRequestMessagesBatch userInstruction docs with
      | .error _ => []
      | .ok [] => []
      | .ok messagesBatch =>
        operator.getCompletions messagesBatch ++
          match (messagesBatch.mapIdx (responses treeLevel)).mapM id with
          | none => []
          | some completions => loopRequests operator userInstruction responses levels (treeLevel + 1) (completions.map some)
    else []

end ReduceOperator

/-! ## The converter -/

/-- A group of `semantic.reduce`, as `_preprocess_group` leaves it, and what the model answers for it. -/
structure ReduceGroup where
  userInstruction : String
  docs : List (Option String)
  responses : Reduce.Responses

/-- A semantic expression over its input: the values of a column, or one group. The converter makes an operator for each group. -/
inductive SemanticOperation where
  | map (logical : SemanticMapExpr) (input : List (Option String))
  | extract (logical : SemanticExtractExpr) (input : List (Option String))
  | predicate (logical : SemanticPredExpr) (input : List (Option String))
  | reduce (logical : SemanticReduceExpr) (group : ReduceGroup)
  | classify (logical : SemanticClassifyExpr) (input : List (Option String))
  | analyzeSentiment (logical : AnalyzeSentimentExpr) (input : List (Option String))
  | summarize (logical : SemanticSummarizeExpr) (input : List (Option String))
  | parsePDF (logical : SemanticParsePDFExpr) (input : List (Option String))

namespace SemanticOperation

def modelAlias : SemanticOperation → Option ResolvedModelAlias
  | .map logical _ => logical.modelAlias
  | .extract logical _ => logical.modelAlias
  | .predicate logical _ => logical.modelAlias
  | .reduce logical _ => logical.modelAlias
  | .classify logical _ => logical.modelAlias
  | .analyzeSentiment logical _ => logical.modelAlias
  | .summarize logical _ => logical.modelAlias
  | .parsePDF logical _ => logical.modelAlias

/-- What the functions of the converter pass to the operators, with the model that they get. -/
def requestsWith (levels : Nat) (model : RegisteredModel) : SemanticOperation → List CompletionRequest
  | .map logical input =>
    (Map.new externals input logical.template model logical.maxTokens logical.temperature logical.modelAlias
      logical.responseFormat logical.examples logical.requestTimeout).requests
  | .extract logical input =>
    (Extract.new input logical.responseFormat model logical.maxTokens logical.temperature logical.modelAlias
      logical.requestTimeout).requests
  | .predicate logical input =>
    (Predicate.new externals input logical.template model logical.temperature logical.examples logical.modelAlias
      logical.requestTimeout).requests
  | .reduce logical group =>
    (ReduceOperator.new model logical.maxTokens logical.temperature logical.modelAlias).loopRequests group.userInstruction
      group.responses levels 0 group.docs
  | .classify logical input =>
    (Classify.new externals input logical.classes model logical.temperature logical.examples logical.modelAlias
      logical.requestTimeout).requests
  | .analyzeSentiment logical input =>
    (AnalyzeSentiment.new externals input model logical.temperature logical.modelAlias logical.requestTimeout).requests
  -- the alias is not passed
  | .summarize logical input =>
    (Summarize.new input logical.format logical.temperature model none logical.requestTimeout).requests
  | .parsePDF logical input =>
    (ParsePDF.new input model logical.pageSeparator logical.describeImages logical.modelAlias logical.maxOutputTokens
      logical.requestTimeout).requests externals

/-- The requests that are handed over, with up to a number of levels of a reduction. -/
def requests (registry : LanguageModelRegistry) (levels : Nat) (operation : SemanticOperation) : List CompletionRequest :=
  match registry.getLanguageModel operation.modelAlias with
  | none => []
  | some model => operation.requestsWith externals levels model

end SemanticOperation

end

end SemanticOperators

end Fenic
