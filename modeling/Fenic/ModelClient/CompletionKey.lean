import Fenic.ModelClient.SchemaFingerprint
import Mathlib.Data.Option.Defs

/-!
# `ModelClient.CompletionKey` — when a key tells two completion requests apart

The key of a completion request has the fingerprint of its schema, and of its file the path and the pages. Of two
requests that agree in all that the key keeps, the client may still send different things: the content of the
file is not in the key, nor is a property of the schema that is called like an annotation. Nothing else is
missing (`completionKey_separates_iff`).
-/

namespace Fenic

namespace ModelClient

/-! ## What is sent, and what the key keeps -/

/-- What the client sends of a file: the chunk, or the file as it is on the disk. -/
def LMRequestFile.content (disk : String → List UInt8) (file : LMRequestFile) : List UInt8 :=
  file.pdfChunkBytes.getD (disk file.path)

/-- Everything the client sends is equal, the schemas up to annotations. Each request is sent with the disk as it
is at that time. -/
structure SentEqual (disk disk' : String → List UInt8) (request request' : FenicCompletionsRequest) : Prop where
  system : request.messages.system = request'.messages.system
  examples : request.messages.examples = request'.messages.examples
  user : request.messages.user = request'.messages.user
  content : request.messages.userFile.map (LMRequestFile.content disk) =
    request'.messages.userFile.map (LMRequestFile.content disk')
  structuredOutput : Option.Rel JsonSchema.DifferInAnnotations request.structuredOutput request'.structuredOutput
  temperature : request.temperature = request'.temperature
  maxCompletionTokens : request.maxCompletionTokens = request'.maxCompletionTokens
  topLogprobs : request.topLogprobs = request'.topLogprobs
  modelProfile : request.modelProfile = request'.modelProfile

/-- The requests agree in all but the content of their files and the keys of their schemas that are named like
annotations. -/
structure AgreeApartFromContent (request request' : FenicCompletionsRequest) : Prop where
  system : request.messages.system = request'.messages.system
  examples : request.messages.examples = request'.messages.examples
  user : request.messages.user = request'.messages.user
  file : request.messages.userFile.map (fun file => (file.path, file.pageRange)) =
    request'.messages.userFile.map (fun file => (file.path, file.pageRange))
  structuredOutput : Option.Rel JsonSchema.AgreeOutsideNames request.structuredOutput request'.structuredOutput
  temperature : request.temperature = request'.temperature
  maxCompletionTokens : request.maxCompletionTokens = request'.maxCompletionTokens
  topLogprobs : request.topLogprobs = request'.topLogprobs
  modelProfile : request.modelProfile = request'.modelProfile

/-- The dicts of a request's schema have distinct keys. -/
def FenicCompletionsRequest.WellFormed (request : FenicCompletionsRequest) : Prop :=
  ∀ schema, request.structuredOutput = some schema → schema.WellFormed

/-! ## The key -/

/-- `get_request_key` of a client for one model. -/
def completionKey (model : String) (getProfileHash : Option String → Option String) (baseUrl : Option String)
    (request : FenicCompletionsRequest) : KeyData :=
  computeRequestFingerprint model (getProfileHash request.modelProfile) baseUrl (.completions request)

variable {disk disk' : String → List UInt8} {request request' : FenicCompletionsRequest}

theorem map_fingerprint_eq_iff (hrequest : request.WellFormed) (hrequest' : request'.WellFormed) :
    request.structuredOutput.map JsonSchema.schemaFingerprint = request'.structuredOutput.map JsonSchema.schemaFingerprint ↔
      Option.Rel JsonSchema.AgreeOutsideNames request.structuredOutput request'.structuredOutput := by
  cases hschema : request.structuredOutput with
  | none =>
    cases hschema' : request'.structuredOutput with
    | none => exact ⟨fun _ => Option.Rel.none, fun _ => rfl⟩
    | some schema' => exact ⟨fun h => absurd h (by simp), fun h => by cases h⟩
  | some schema =>
    cases hschema' : request'.structuredOutput with
    | none => exact ⟨fun h => absurd h (by simp), fun h => by cases h⟩
    | some schema' =>
      have hfingerprint := JsonSchema.fingerprint_eq_iff (hrequest schema hschema) (hrequest' schema' hschema')
      rw [Option.map_some, Option.map_some, Option.some.injEq, hfingerprint, Option.rel_some_some]

/-- Two requests have one key exactly when they agree in all that the key keeps. -/
theorem completionKey_eq_iff (model : String) (getProfileHash : Option String → Option String) (baseUrl : Option String)
    (hrequest : request.WellFormed) (hrequest' : request'.WellFormed) :
    completionKey model getProfileHash baseUrl request = completionKey model getProfileHash baseUrl request' ↔
      AgreeApartFromContent request request' := by
  unfold completionKey computeRequestFingerprint LMRequestMessages.encode
  rw [KeyData.completions.injEq, EncodedMessages.mk.injEq, map_fingerprint_eq_iff hrequest hrequest']
  constructor
  · rintro ⟨-, -, ⟨hsystem, hexamples, huser, hfile⟩, htokens, htemperature, hprofile, -, hlogprobs, hschema⟩
    exact ⟨hsystem, hexamples, huser, hfile, hschema, htemperature, htokens, hlogprobs, hprofile⟩
  · intro h
    exact ⟨rfl, rfl, ⟨h.system, h.examples, h.user, h.file⟩, h.maxCompletionTokens, h.temperature, h.modelProfile,
      by rw [h.modelProfile], h.topLogprobs, h.structuredOutput⟩

theorem rel_differInAnnotations_iff {schema schema' : Option JsonSchema}
    (h : Option.Rel JsonSchema.AgreeOutsideNames schema schema') :
    Option.Rel JsonSchema.DifferInAnnotations schema schema' ↔ Option.Rel JsonSchema.AgreeOnLookalikes schema schema' := by
  cases h with
  | none => exact ⟨fun _ => Option.Rel.none, fun _ => Option.Rel.none⟩
  | some hschema =>
    rw [Option.rel_some_some, Option.rel_some_some, JsonSchema.differInAnnotations_iff]
    exact and_iff_right hschema

/-- The key tells two requests apart whenever something different is sent for them, exactly when they differ in
what the key keeps, or agree in the content of their files and in the keys of their schemas that only look like
annotations. -/
theorem completionKey_separates_iff (model : String) (getProfileHash : Option String → Option String)
    (baseUrl : Option String) (disk disk' : String → List UInt8) (request request' : FenicCompletionsRequest)
    (hrequest : request.WellFormed) (hrequest' : request'.WellFormed) :
    (completionKey model getProfileHash baseUrl request = completionKey model getProfileHash baseUrl request' →
      SentEqual disk disk' request request') ↔
    (AgreeApartFromContent request request' →
      request.messages.userFile.map (LMRequestFile.content disk) =
          request'.messages.userFile.map (LMRequestFile.content disk') ∧
        Option.Rel JsonSchema.AgreeOnLookalikes request.structuredOutput request'.structuredOutput) := by
  rw [completionKey_eq_iff model getProfileHash baseUrl hrequest hrequest']
  constructor
  · intro h hagree
    have hsent := h hagree
    exact ⟨hsent.content, (rel_differInAnnotations_iff hagree.structuredOutput).mp hsent.structuredOutput⟩
  · intro h hagree
    obtain ⟨hcontent, hlookalikes⟩ := h hagree
    exact ⟨hagree.system, hagree.examples, hagree.user, hcontent,
      (rel_differInAnnotations_iff hagree.structuredOutput).mpr hlookalikes, hagree.temperature,
      hagree.maxCompletionTokens, hagree.topLogprobs, hagree.modelProfile⟩

/-! ### A file that changed -/

/-- The request to transcribe a chunk of two pages. -/
def chunkRequest (chunk : List UInt8) : FenicCompletionsRequest where
  messages := ⟨"Transcribe the pages", [], none, some ⟨"report.pdf", (4, 5), some chunk⟩⟩
  maxCompletionTokens := some 2048
  topLogprobs := none
  structuredOutput := none
  temperature := some 0
  modelProfile := none

theorem chunkRequest_wellFormed (chunk : List UInt8) : (chunkRequest chunk).WellFormed := by
  intro schema h
  cases h

/-- A chunk in memory is sent alike, whatever happens to the file. -/
theorem chunkRequest_sent :
    SentEqual (fun _ => [1]) (fun _ => [2]) (chunkRequest [37, 80]) (chunkRequest [37, 80]) :=
  (completionKey_separates_iff "gpt-4o" (fun _ => none) none (fun _ => [1]) (fun _ => [2]) (chunkRequest [37, 80])
    (chunkRequest [37, 80]) (chunkRequest_wellFormed _) (chunkRequest_wellFormed _)).mpr
    (fun _ => ⟨rfl, Option.Rel.none⟩) rfl

/-- The same pages of a file that was written anew have the same key. -/
theorem chunkRequest_collision :
    (chunkRequest [37, 80]).WellFormed ∧ (chunkRequest [37, 81]).WellFormed ∧
    completionKey "gpt-4o" (fun _ => none) none (chunkRequest [37, 80]) =
      completionKey "gpt-4o" (fun _ => none) none (chunkRequest [37, 81]) ∧
    ¬ SentEqual (fun _ => []) (fun _ => []) (chunkRequest [37, 80]) (chunkRequest [37, 81]) := by
  refine ⟨chunkRequest_wellFormed _, chunkRequest_wellFormed _, rfl, fun h => ?_⟩
  exact absurd h.content (by decide)

end ModelClient

end Fenic
