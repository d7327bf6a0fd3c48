import Fenic.ModelClient.Batches
import Mathlib.Data.List.Sort
import Mathlib.Data.Rat.Init

/-!
# `ModelClient.RequestKey` — what a request is told apart by

`compute_request_fingerprint` digests a record of the request's data; here the key is the record itself, so
two requests have one key exactly when the code digests the same text. The record leaves out two parts of a
request that the provider sees: the annotations of a response schema, and the bytes of a PDF chunk.
-/

namespace Fenic

namespace ModelClient

/-! ## Requests -/

structure FewShotExample where
  user : String
  assistant : String
  deriving DecidableEq

structure LMRequestFile where
  path : String
  pageRange : Nat × Nat
  pdfChunkBytes : Option (List UInt8)
  deriving DecidableEq

structure LMRequestMessages where
  system : String
  examples : List FewShotExample
  user : Option String
  userFile : Option LMRequestFile
  deriving DecidableEq

/-- A JSON schema. A scalar is given by its JSON text. -/
inductive JsonSchema where
  | scalar (text : String)
  | list (items : List JsonSchema)
  | dict (entries : List (String × JsonSchema))

/-- A number of a request is finite, so it is the rational it stands for. -/
structure FenicCompletionsRequest where
  messages : LMRequestMessages
  maxCompletionTokens : Option Nat
  topLogprobs : Option Nat
  structuredOutput : Option JsonSchema
  temperature : Option Rat
  modelProfile : Option String

structure FenicEmbeddingsRequest where
  doc : String
  modelProfile : Option String

inductive Request where
  | completions (request : FenicCompletionsRequest)
  | embeddings (request : FenicEmbeddingsRequest)

/-! ## `schema_fingerprint` -/

mutual

/-- `_drop_non_structural_keys`. -/
def JsonSchema.dropNonStructuralKeys : JsonSchema → JsonSchema
  | .scalar text => .scalar text
  | .list items => .list (dropItems items)
  | .dict entries => .dict (dropEntries entries)

def JsonSchema.dropItems : List JsonSchema → List JsonSchema
  | [] => []
  | item :: items => item.dropNonStructuralKeys :: dropItems items

def JsonSchema.dropEntries : List (String × JsonSchema) → List (String × JsonSchema)
  | [] => []
  | (key, value) :: entries =>
    if key ∈ ["title", "description", "$id"] then dropEntries entries
    else (key, value.dropNonStructuralKeys) :: dropEntries entries

end

/-- A token of a JSON text. -/
inductive JsonToken where
  | scalar (text : String)
  | key (name : String)
  | openList
  | openDict
  | close
  deriving DecidableEq

mutual

/-- `json.dumps` with sorted keys, token by token. -/
def JsonSchema.tokens : JsonSchema → List JsonToken
  | .scalar text => [.scalar text]
  | .list items => .openList :: (itemTokens items ++ [.close])
  | .dict entries =>
    let sorted := (entryTokens entries).insertionSort (fun e e' => e.1 ≤ e'.1)
    .openDict :: (sorted.flatMap (fun e => .key e.1 :: e.2) ++ [.close])

def JsonSchema.itemTokens : List JsonSchema → List JsonToken
  | [] => []
  | item :: items => item.tokens ++ itemTokens items

def JsonSchema.entryTokens : List (String × JsonSchema) → List (String × List JsonToken)
  | [] => []
  | (key, value) :: entries => (key, value.tokens) :: entryTokens entries

end

/-- `ResolvedResponseFormat.schema_fingerprint`. -/
def JsonSchema.schemaFingerprint (schema : JsonSchema) : List JsonToken :=
  schema.dropNonStructuralKeys.tokens

/-! ## The key -/

/-- What `LMRequestMessages.encode` keeps. -/
structure EncodedMessages where
  system : String
  examples : List FewShotExample
  user : Option String
  userFile : Option (String × (Nat × Nat))
  deriving DecidableEq

def LMRequestMessages.encode (messages : LMRequestMessages) : EncodedMessages where
  system := messages.system
  examples := messages.examples
  user := messages.user
  userFile := messages.userFile.map (fun file => (file.path, file.pageRange))

/-- `key_data` of `compute_request_fingerprint`, for the two kinds of requests. -/
inductive KeyData where
  | completions (model : String) (baseUrl : Option String) (messages : EncodedMessages)
      (maxTokens : Option Nat) (temperature : Option Rat) (modelProfile profileHash : Option String)
      (topLogprobs : Option Nat) (structuredOutput : Option (List JsonToken))
  | embeddings (model : String) (baseUrl : Option String) (doc : String)
      (modelProfile profileHash : Option String)
  deriving DecidableEq

/-- `compute_request_fingerprint`. -/
def computeRequestFingerprint (model : String) (profileHash baseUrl : Option String) : Request → KeyData
  | .completions request =>
    .completions model baseUrl request.messages.encode request.maxCompletionTokens request.temperature
      request.modelProfile profileHash request.topLogprobs
      (request.structuredOutput.map JsonSchema.schemaFingerprint)
  | .embeddings request => .embeddings model baseUrl request.doc request.modelProfile profileHash

/-- A model client for a model; `getProfileHash` is the client's own. -/
def completionClient {Resp : Type} (model : String) (getProfileHash : Option String → Option String)
    (baseUrl : Option String) (respond : Request → Option Resp) : Client Request Resp KeyData where
  requestKey := fun request =>
    let modelProfile := match request with
      | .completions request => request.modelProfile
      | .embeddings request => request.modelProfile
    some (computeRequestFingerprint model (getProfileHash modelProfile) baseUrl request)
  caches := false
  respond := respond
  reload := id
  queueSize := 100
  maxBackoffs := 10

/-! ### A shared key -/

/-- An extraction into a schema that says what its object is. -/
def extraction (description : String) : Request :=
  .completions
    { messages := ⟨"extract the date", [], some "the invoice of May 3rd", none⟩
      maxCompletionTokens := some 1024
      topLogprobs := none
      structuredOutput := some (.dict [("type", .scalar "object"), ("description", .scalar description)])
      temperature := some 0
      modelProfile := none }

/-- A provider that does what the schema says. -/
def followDescription : Request → Option String
  | .completions ⟨_, _, _, some (.dict [_, (_, .scalar description)]), _, _⟩ => some description
  | _ => none

/-- Two extractions that differ only in what their schemas say. -/
def describedBatch : Batch Request :=
  ⟨1, [some 0, some 1], fun ref => if ref = 0 then extraction "in ISO format" else extraction "as written"⟩

/-- The batch runs through; the second position copies the future of the first. -/
def describedRun : List (Action Request KeyData String) :=
  [.start 0 describedBatch (fun _ => false), .check 0, .submit 0, .enqueue 0, .check 0, .submit 0, .submitted 0,
    .getQueued false true, .dispatch 0, .succeed 0 false, .callback 1, .collect 0, .collect 0, .finish 0]

/-- **Both positions hold the response to the first extraction.** -/
theorem describedBatch_shares_response :
    ∃ s sub responses,
      Transition.run (step (completionClient "m" (fun _ => none) none followDescription)) (init []) describedRun
          = some s ∧
        Outcome.returned 0 sub responses ∈ s.outcomes ∧ sub.batch = describedBatch ∧
          responses = [some "in ISO format", some "in ISO format"] ∧
            responses ≠ describedBatch.requests.map
              (fun request => request.bind (fun ref => followDescription (describedBatch.object ref))) := by
  refine ⟨_, _, _, rfl, List.mem_singleton.mpr rfl, rfl, rfl, by decide⟩

end ModelClient

end Fenic
