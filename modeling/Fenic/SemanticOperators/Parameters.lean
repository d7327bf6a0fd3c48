import Fenic.SemanticOperators.Requests

/-!
# `SemanticOperators.Parameters` — the parameters of the requests

The parameters of an expression are its model and profile, temperature, token budget, timeout, response format and examples. The
converter copies them into the operator one by one, and the sender copies them into the requests.

All of them arrive for six of the eight expressions. `semantic.summarize` loses its profile in the converter, and `semantic.reduce`
its timeout, which it never takes. Neither loss is seen where nothing is sent (`carries_iff`).
-/

namespace Fenic

namespace SemanticOperators

/-! ## Parameters -/

structure RequestParameters where
  model : RegisteredModel
  profile : Option String
  temperature : Rat
  maxTokens : Option Nat
  requestTimeout : Option Rat
  responseFormat : Option ResponseFormat
  examples : List FewShotExample

/-- What a request carries. -/
def CompletionRequest.parameters (request : CompletionRequest) : RequestParameters where
  model := request.model
  profile := request.modelProfile
  temperature := request.temperature
  maxTokens := request.maxTokens
  requestTimeout := request.requestTimeout
  responseFormat := request.responseFormat
  examples := request.messages.examples

section

variable (externals : Externals)

/-- What an expression asks for. Where it has no budget or format of its own, its operator has a fixed one. -/
def SemanticOperation.parameters (model : RegisteredModel) : SemanticOperation → RequestParameters
  | .map logical _ =>
    { model := model
      profile := profileOf logical.modelAlias
      temperature := logical.temperature
      maxTokens := some logical.maxTokens
      requestTimeout := logical.requestTimeout
      responseFormat := logical.responseFormat.map .resolved
      examples := (logical.examples.getD []).map fun entry =>
        ⟨externals.render logical.template entry.1, entry.2.message⟩ }
  | .extract logical _ =>
    { model := model
      profile := profileOf logical.modelAlias
      temperature := logical.temperature
      maxTokens := some logical.maxTokens
      requestTimeout := logical.requestTimeout
      responseFormat := some (.resolved logical.responseFormat)
      examples := [] }
  | .predicate logical _ =>
    { model := model
      profile := profileOf logical.modelAlias
      temperature := logical.temperature
      maxTokens := some maxTokensDeterministicOutputSize
      requestTimeout := logical.requestTimeout
      responseFormat := some .boolean
      examples := (logical.examples.getD []).map fun entry =>
        ⟨externals.render logical.template entry.1, Predicate.dumpBoolean entry.2⟩ }
  | .reduce logical _ =>
    { model := model
      profile := profileOf logical.modelAlias
      temperature := logical.temperature
      maxTokens := some logical.maxTokens
      requestTimeout := logical.requestTimeout
      responseFormat := none
      examples := [] }
  | .classify logical _ =>
    { model := model
      profile := profileOf logical.modelAlias
      temperature := logical.temperature
      maxTokens := some (Classify.getMaxTokens logical.classes)
      requestTimeout := logical.requestTimeout
      responseFormat := some (.classification (Classify.labels logical.classes))
      examples := (logical.examples.getD []).map fun entry =>
        ⟨entry.1, externals.dumpLabel (Classify.labels logical.classes) entry.2⟩ }
  | .analyzeSentiment logical _ =>
    { model := model
      profile := profileOf logical.modelAlias
      temperature := logical.temperature
      maxTokens := some maxTokensDeterministicOutputSize
      requestTimeout := logical.requestTimeout
      responseFormat := some (.classification AnalyzeSentiment.labels)
      examples := AnalyzeSentiment.examples externals }
  | .summarize logical _ =>
    { model := model
      profile := profileOf logical.modelAlias
      temperature := logical.temperature
      maxTokens := some logical.format.maxTokens
      requestTimeout := logical.requestTimeout
      responseFormat := none
      examples := [] }
  | .parsePDF logical _ =>
    { model := model
      profile := profileOf logical.modelAlias
      temperature := ParsePDF.temperature model
      maxTokens := logical.maxOutputTokens
      requestTimeout := logical.requestTimeout
      responseFormat := none
      examples := [] }

/-- Every request carries the parameters of the expression, with the model of its alias. -/
def SemanticOperation.Carries (registry : LanguageModelRegistry) (operation : SemanticOperation) : Prop :=
  ∀ levels, ∀ request ∈ operation.requests externals registry levels, ∃ model,
    registry.getLanguageModel operation.modelAlias = some model ∧ request.parameters = operation.parameters externals model

end

/-! ## Senders -/

theorem CompletionOnlyRequestSender.mem_sendRequests {sender : CompletionOnlyRequestSender}
    {messageBatch : List (Option RequestMessages)} {request : CompletionRequest} :
    request ∈ sender.sendRequests messageBatch ↔ ∃ messages, some messages ∈ messageBatch ∧
      { model := sender.model
        messages := messages
        maxTokens := sender.inferenceConfig.maxOutputTokens
        temperature := sender.inferenceConfig.temperature
        responseFormat := sender.inferenceConfig.responseFormat
        topLogprobs := sender.inferenceConfig.topLogprobs
        modelProfile := sender.inferenceConfig.modelProfile
        requestTimeout := sender.inferenceConfig.requestTimeout } = request := by
  unfold sendRequests
  rw [List.mem_map]
  simp only [List.reduceOption_mem_iff]

/-- What a sender puts into the requests for messages with some examples. -/
def CompletionOnlyRequestSender.parameters (sender : CompletionOnlyRequestSender) (examples : List FewShotExample) :
    RequestParameters where
  model := sender.model
  profile := sender.inferenceConfig.modelProfile
  temperature := sender.inferenceConfig.temperature
  maxTokens := sender.inferenceConfig.maxOutputTokens
  requestTimeout := sender.inferenceConfig.requestTimeout
  responseFormat := sender.inferenceConfig.responseFormat
  examples := examples

namespace BaseOperator

variable {operator : BaseOperator}

theorem mem_buildRequestMessagesBatch {messages : RequestMessages} :
    some messages ∈ operator.buildRequestMessagesBatch ↔
      ∃ text ∈ Reduce.nonEmptyDocs operator.input, operator.buildRequestMessages text = messages := by
  unfold buildRequestMessagesBatch
  simp only [List.mem_map, Reduce.mem_nonEmptyDocs]
  constructor
  · rintro ⟨document, hdocument, hmessages⟩
    cases document with
    | none => cases hmessages
    | some text =>
      rw [Option.bind_some] at hmessages
      split at hmessages
      · cases hmessages
      next htext => exact ⟨text, ⟨hdocument, htext⟩, Option.some.inj hmessages⟩
  · rintro ⟨text, ⟨hdocument, htext⟩, rfl⟩
    exact ⟨some text, hdocument, if_neg htext⟩

theorem parameters_of_mem_requests {request : CompletionRequest} (h : request ∈ operator.requests) :
    request.parameters = operator.requestSender.parameters (operator.examples.getD []) := by
  obtain ⟨messages, hmessages, rfl⟩ := CompletionOnlyRequestSender.mem_sendRequests.mp h
  obtain ⟨text, -, rfl⟩ := mem_buildRequestMessagesBatch.mp hmessages
  rfl

/-- A text that is not empty is sent. -/
theorem exists_mem_requests (operator : BaseOperator) (h : Reduce.nonEmptyDocs operator.input ≠ []) :
    ∃ request, request ∈ operator.requests := by
  obtain ⟨text, htext⟩ := List.exists_mem_of_ne_nil _ h
  have hmessages : some (operator.buildRequestMessages text) ∈ operator.buildRequestMessagesBatch :=
    mem_buildRequestMessagesBatch.mpr ⟨text, htext, rfl⟩
  exact ⟨_, CompletionOnlyRequestSender.mem_sendRequests.mpr ⟨_, hmessages, rfl⟩⟩

theorem nonEmptyDocs_of_mem_requests {request : CompletionRequest} (h : request ∈ operator.requests) :
    Reduce.nonEmptyDocs operator.input ≠ [] := by
  obtain ⟨messages, hmessages, -⟩ := CompletionOnlyRequestSender.mem_sendRequests.mp h
  obtain ⟨text, htext, -⟩ := mem_buildRequestMessagesBatch.mp hmessages
  exact List.ne_nil_of_mem htext

end BaseOperator

theorem ParsePDF.parameters_of_mem_requests {externals : Externals} {operator : ParsePDF} {request : CompletionRequest}
    (h : request ∈ operator.requests externals) : request.parameters = operator.requestSender.parameters [] := by
  obtain ⟨messages, hmessages, rfl⟩ := CompletionOnlyRequestSender.mem_sendRequests.mp h
  obtain ⟨path, -, hpath⟩ := List.mem_flatMap.mp hmessages
  have hexamples : messages.examples = [] := by
    split at hpath
    · simp at hpath
    · split at hpath
      · simp at hpath
      · obtain ⟨file, -, hfile⟩ := List.mem_map.mp hpath
        cases hfile
        rfl
  show CompletionOnlyRequestSender.parameters operator.requestSender messages.examples = _
  rw [hexamples]

/-! ## The levels of a reduction -/

namespace ReduceOperator

variable {operator : ReduceOperator} {userInstruction : String} {responses : Reduce.Responses}

/-- What the operator puts into its requests, at every level. -/
def parameters (operator : ReduceOperator) : RequestParameters where
  model := operator.model
  profile := operator.modelProfile
  temperature := operator.temperature
  maxTokens := some operator.maxTokens
  requestTimeout := none
  responseFormat := none
  examples := []

variable {request : CompletionRequest}

theorem parameters_of_mem_getCompletions {messagesBatch : List LMRequestMessages}
    (h : request ∈ operator.getCompletions messagesBatch) : request.parameters = operator.parameters := by
  obtain ⟨messages, -, rfl⟩ := List.mem_map.mp h
  rfl

theorem parameters_of_mem_loopRequests {levels treeLevel : Nat} {docs : List (Option String)}
    (h : request ∈ operator.loopRequests userInstruction responses levels treeLevel docs) :
    request.parameters = operator.parameters := by
  induction levels generalizing treeLevel docs with
  | zero => cases h
  | succ levels ih =>
    rw [loopRequests] at h
    split at h
    · split at h
      · cases h
      · cases h
      · rcases List.mem_append.mp h with hlevel | hdeeper
        · exact parameters_of_mem_getCompletions hlevel
        · split at hdeeper
          · cases hdeeper
          · exact ih hdeeper
    · cases h

variable (operator userInstruction)

/-- The first level has something to send: a document that is not empty, and none that no request can hold. -/
def Sends (docs : List (Option String)) : Prop :=
  Reduce.nonEmptyDocs docs ≠ [] ∧ ∀ doc ∈ Reduce.nonEmptyDocs docs, operator.packing.FitsRequest userInstruction doc

variable {operator userInstruction} {docs : List (Option String)}

/-- The requests of the first level are those of next-fit. -/
theorem buildRequestMessagesBatch_ne_nil (hsends : operator.Sends userInstruction docs) :
    ∃ messages messagesBatch,
      operator.packing.buildRequestMessagesBatch userInstruction docs = .ok (messages :: messagesBatch) := by
  have hbatch := Reduce.buildRequestMessagesBatch_ok hsends.2
  rcases hpacked : NextFit.nextFit operator.packing.docTokens (operator.packing.requestCapacity userInstruction)
      (Reduce.nonEmptyDocs docs) with _ | ⟨batch, batches⟩
  · exact absurd hpacked (NextFit.nextFit_ne_nil hsends.1)
  · rw [hpacked] at hbatch
    exact ⟨_, _, hbatch⟩

theorem exists_mem_loopRequests (responses : Reduce.Responses) (hsends : operator.Sends userInstruction docs) (levels : Nat) :
    ∃ request, request ∈ operator.loopRequests userInstruction responses (levels + 1) 0 docs := by
  obtain ⟨messages, messagesBatch, hbatch⟩ := buildRequestMessagesBatch_ne_nil hsends
  rw [loopRequests, if_pos (Or.inr rfl), hbatch]
  exact ⟨_, List.mem_append_left _ List.mem_cons_self⟩

theorem sends_of_mem_loopRequests {levels : Nat}
    (h : request ∈ operator.loopRequests userInstruction responses levels 0 docs) : operator.Sends userInstruction docs := by
  cases levels with
  | zero => cases h
  | succ levels =>
    rw [loopRequests, if_pos (Or.inr rfl)] at h
    by_cases hfits : ∀ doc ∈ Reduce.nonEmptyDocs docs, operator.packing.FitsRequest userInstruction doc
    · refine ⟨?_, hfits⟩
      intro hempty
      rw [Reduce.buildRequestMessagesBatch_ok hfits, hempty] at h
      cases h
    · obtain ⟨message, herror⟩ := Reduce.buildRequestMessagesBatch_error hfits
      rw [herror] at h
      cases h

end ReduceOperator

/-! ## The main theorem -/

section

variable (externals : Externals) (registry : LanguageModelRegistry)

/-- Nothing that an operator drops is set, or nothing is sent. -/
def SemanticOperation.KeepsParameters : SemanticOperation → Prop
  | .summarize logical input =>
    profileOf logical.modelAlias = none ∨ registry.getLanguageModel logical.modelAlias = none ∨
      Reduce.nonEmptyDocs input = []
  | .reduce logical group =>
    logical.requestTimeout = none ∨ ∀ model, registry.getLanguageModel logical.modelAlias = some model →
      ¬ (ReduceOperator.new model logical.maxTokens logical.temperature logical.modelAlias).Sends group.userInstruction
        group.docs
  | _ => True

variable {externals registry}

variable {operation : SemanticOperation}

theorem SemanticOperation.requests_eq {model : RegisteredModel}
    (hmodel : registry.getLanguageModel operation.modelAlias = some model) (levels : Nat) :
    operation.requests externals registry levels = operation.requestsWith externals levels model := by
  unfold requests
  rw [hmodel]

theorem SemanticOperation.exists_model_of_mem_requests {levels : Nat}
    {request : CompletionRequest} (h : request ∈ operation.requests externals registry levels) :
    ∃ model, registry.getLanguageModel operation.modelAlias = some model ∧
      request ∈ operation.requestsWith externals levels model := by
  unfold requests at h
  split at h
  · cases h
  next model hmodel => exact ⟨model, hmodel, h⟩

/-- A summary carries the parameters when it has no profile to lose. -/
theorem carries_summarize_iff (logical : SemanticSummarizeExpr) (input : List (Option String)) :
    (SemanticOperation.summarize logical input).Carries externals registry ↔
      (SemanticOperation.summarize logical input).KeepsParameters registry := by
  constructor
  · intro hcarries
    by_cases hempty : Reduce.nonEmptyDocs input = []
    · exact Or.inr (Or.inr hempty)
    · cases hmodel : registry.getLanguageModel logical.modelAlias with
      | none => exact Or.inr (Or.inl hmodel)
      | some model =>
        obtain ⟨request, hrequest⟩ :=
          (Summarize.new input logical.format logical.temperature model none logical.requestTimeout).exists_mem_requests hempty
        have hmem : request ∈ (SemanticOperation.summarize logical input).requests externals registry 0 := by
          rw [SemanticOperation.requests_eq hmodel]
          exact hrequest
        obtain ⟨_, -, hparameters⟩ := hcarries 0 request hmem
        rw [BaseOperator.parameters_of_mem_requests hrequest] at hparameters
        exact Or.inl (congrArg RequestParameters.profile hparameters).symm
  · intro hkeeps levels request hrequest
    obtain ⟨model, hmodel, hmem⟩ := SemanticOperation.exists_model_of_mem_requests hrequest
    refine ⟨model, hmodel, ?_⟩
    rw [BaseOperator.parameters_of_mem_requests hmem]
    rcases hkeeps with hprofile | hnone | hempty
    · show RequestParameters.mk model none _ _ _ _ _ = RequestParameters.mk model (profileOf logical.modelAlias) _ _ _ _ _
      rw [hprofile]
      rfl
    · exact absurd (hmodel.symm.trans hnone) (Option.some_ne_none model)
    · exact absurd hempty (BaseOperator.nonEmptyDocs_of_mem_requests hmem)

/-- A reduction carries the parameters when it has no timeout to lose. -/
theorem carries_reduce_iff (logical : SemanticReduceExpr) (group : ReduceGroup) :
    (SemanticOperation.reduce logical group).Carries externals registry ↔
      (SemanticOperation.reduce logical group).KeepsParameters registry := by
  constructor
  · intro hcarries
    by_cases htimeout : logical.requestTimeout = none
    · exact Or.inl htimeout
    · refine Or.inr fun model hmodel hsends => htimeout ?_
      obtain ⟨request, hrequest⟩ := ReduceOperator.exists_mem_loopRequests group.responses hsends 0
      have hmem : request ∈ (SemanticOperation.reduce logical group).requests externals registry 1 := by
        rw [SemanticOperation.requests_eq hmodel]
        exact hrequest
      obtain ⟨_, -, hparameters⟩ := hcarries 1 request hmem
      rw [ReduceOperator.parameters_of_mem_loopRequests hrequest] at hparameters
      exact (congrArg RequestParameters.requestTimeout hparameters).symm
  · intro hkeeps levels request hrequest
    obtain ⟨model, hmodel, hmem⟩ := SemanticOperation.exists_model_of_mem_requests hrequest
    refine ⟨model, hmodel, ?_⟩
    rw [ReduceOperator.parameters_of_mem_loopRequests hmem]
    rcases hkeeps with htimeout | hsilent
    · show RequestParameters.mk model _ _ _ none _ _ = RequestParameters.mk model _ _ _ logical.requestTimeout _ _
      rw [htimeout]
      rfl
    · exact absurd (ReduceOperator.sends_of_mem_loopRequests hmem) (hsilent model hmodel)

/-- Where every request of an operator carries the parameters, whatever the model, the expression does. -/
theorem carries_of_parameters
    (h : ∀ levels model, ∀ request ∈ operation.requestsWith externals levels model,
      request.parameters = operation.parameters externals model) : operation.Carries externals registry := by
  intro levels request hrequest
  obtain ⟨model, hmodel, hmem⟩ := SemanticOperation.exists_model_of_mem_requests hrequest
  exact ⟨model, hmodel, h levels model request hmem⟩

variable (externals registry)

/-- **Parameters reach the requests.** They do except for the profile of a summary and the timeout of a reduction, where something
    is sent. -/
theorem carries_iff (operation : SemanticOperation) :
    operation.Carries externals registry ↔ operation.KeepsParameters registry := by
  cases operation with
  | summarize logical input => exact carries_summarize_iff logical input
  | reduce logical group => exact carries_reduce_iff logical group
  | map logical input =>
    refine iff_of_true (carries_of_parameters fun levels model request hrequest => ?_) trivial
    rw [BaseOperator.parameters_of_mem_requests hrequest]
    show CompletionOnlyRequestSender.parameters _ ((logical.examples.map _).getD []) = _
    cases hexamples : logical.examples <;> simp [SemanticOperation.parameters, hexamples,
      CompletionOnlyRequestSender.parameters, Map.new]
  | extract logical input =>
    refine iff_of_true (carries_of_parameters fun levels model request hrequest => ?_) trivial
    exact BaseOperator.parameters_of_mem_requests hrequest
  | predicate logical input =>
    refine iff_of_true (carries_of_parameters fun levels model request hrequest => ?_) trivial
    rw [BaseOperator.parameters_of_mem_requests hrequest]
    cases hexamples : logical.examples <;> simp [SemanticOperation.parameters, hexamples,
      CompletionOnlyRequestSender.parameters, Predicate.new]
  | classify logical input =>
    refine iff_of_true (carries_of_parameters fun levels model request hrequest => ?_) trivial
    rw [BaseOperator.parameters_of_mem_requests hrequest]
    cases hexamples : logical.examples <;> simp [SemanticOperation.parameters, hexamples,
      CompletionOnlyRequestSender.parameters, Classify.new]
  | analyzeSentiment logical input =>
    refine iff_of_true (carries_of_parameters fun levels model request hrequest => ?_) trivial
    exact BaseOperator.parameters_of_mem_requests hrequest
  | parsePDF logical input =>
    refine iff_of_true (carries_of_parameters fun levels model request hrequest => ?_) trivial
    exact ParsePDF.parameters_of_mem_requests hrequest

/-- A model whose documents and prompts have one token each. -/
def tinyModel : RegisteredModel := ⟨.openai, "tiny", ⟨fun _ => 1, 100, 10⟩⟩

def tinyRegistry : LanguageModelRegistry := ⟨[("fast", tinyModel)], tinyModel⟩

def tinyExternals : Externals := ⟨fun template _ => template, fun _ label => label, [], fun _ => []⟩

/-- A summary under the profile `low`, and a reduction with a timeout of five seconds, send requests without them. -/
theorem not_carries :
    ¬ (SemanticOperation.summarize ⟨.keyPoints 1, 0, some ⟨"fast", some "low"⟩, none⟩ [some "text"]).Carries tinyExternals
        tinyRegistry ∧
      ¬ (SemanticOperation.reduce ⟨10, 0, some ⟨"fast", none⟩, some 5⟩
          ⟨"Sum", [some "a"], fun _ _ _ => some "b"⟩).Carries tinyExternals tinyRegistry := by
  constructor
  · rw [carries_summarize_iff]
    rintro (hprofile | hmodel | hempty)
    · cases hprofile
    · cases hmodel
    · exact absurd hempty (by decide)
  · rw [carries_reduce_iff]
    rintro (htimeout | hsilent)
    · cases htimeout
    · refine hsilent tinyModel rfl ⟨by decide, ?_⟩
      intro doc _
      -- the counts are constant
      show 1 + (1 + 4) + 1 ≤ reducedWindow (if 100 ≤ 10 then 100 else 100 - 10)
      decide

end

end SemanticOperators

end Fenic
