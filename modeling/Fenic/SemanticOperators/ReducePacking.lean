import Fenic.SemanticOperators.Reduce

/-!
# `SemanticOperators.ReducePacking` — the size of the requests

The packing keeps the documents: the batches are the non-empty documents in their order, and none of them is empty. It counts
the instruction and the documents against a share of the window of the model. The tags that the template puts around each
document are not counted, so that a request of many short documents does not fit the window (`packs_iff`).
-/

namespace Fenic

namespace SemanticOperators

/-- A counter that adds up: along a text, and over a request, besides what a request without a text of the user costs. -/
structure LanguageModel.Additive (model : LanguageModel) (overhead : Nat) : Prop where
  text_append : ∀ s t, model.countTokens (.text (s ++ t)) = model.countTokens (.text s) + model.countTokens (.text t)
  messages : ∀ user, user ≠ "" →
    model.countTokens (.messages ⟨simpleInstructionSystemPrompt, user⟩) = overhead + model.countTokens (.text user)

/-! ## The tokens of a message -/

/-- A document of the message, in its tags. -/
def taggedDocument (i : Nat) (doc : String) : String :=
  "\n<document" ++ toString (i + 1) ++ ">\n" ++ doc ++ "\n</document" ++ toString (i + 1) ++ ">"

theorem userMessage_eq (userInstruction : String) (docs : List String) :
    userMessage userInstruction docs = userInstruction ++ "\n" ++ "\n".intercalate (docs.mapIdx taggedDocument) := rfl

theorem userMessage_ne_empty (userInstruction : String) (docs : List String) : userMessage userInstruction docs ≠ "" := by
  intro h
  have hlist := congrArg String.toList h
  rw [userMessage_eq, String.toList_append, String.toList_append] at hlist
  simp at hlist

section Counting

variable {count : String → Nat} (hcount : ∀ s t, count (s ++ t) = count s + count t)

include hcount

/-- The tags cost the same around any document. -/
theorem count_taggedDocument (i : Nat) (doc : String) :
    count (taggedDocument i doc) = count doc + count (taggedDocument i "") := by
  have hempty : count "" = 0 := by
    have hself := hcount "" ""
    rw [String.append_empty] at hself
    omega
  unfold taggedDocument
  simp only [hcount, hempty]
  omega

theorem count_taggedDocuments (docs : List String) (k : Nat) :
    count ("\n".intercalate (docs.mapIdx fun i doc => taggedDocument (i + k) doc)) =
      (docs.map count).sum +
        count ("\n".intercalate ((List.replicate docs.length "").mapIdx fun i doc => taggedDocument (i + k) doc)) := by
  induction docs generalizing k with
  | nil => simp
  | cons doc docs ih =>
    have hshift : (fun i doc => taggedDocument (i + 1 + k) doc) = fun i doc => taggedDocument (i + (k + 1)) doc := by
      funext i doc
      rw [Nat.add_assoc, Nat.add_comm 1 k]
    rw [List.length_cons, List.replicate_succ, List.mapIdx_cons, List.mapIdx_cons, hshift, List.map_cons, List.sum_cons,
      Nat.zero_add]
    cases docs with
    | nil =>
      rw [List.mapIdx_nil, List.length_nil, List.replicate_zero, List.mapIdx_nil, String.intercalate_singleton,
        String.intercalate_singleton, count_taggedDocument hcount]
      simp
    | cons doc' docs =>
      have hne : (List.mapIdx (fun i doc => taggedDocument (i + (k + 1)) doc) (doc' :: docs)) ≠ [] := by simp
      have hne' : (List.mapIdx (fun i doc => taggedDocument (i + (k + 1)) doc)
          (List.replicate (doc' :: docs).length "")) ≠ [] := by simp
      rw [String.intercalate_cons_of_ne_nil hne, String.intercalate_cons_of_ne_nil hne', hcount, hcount, hcount, hcount,
        ih (k + 1), count_taggedDocument hcount]
      omega

/-- A message costs its instruction, its documents, and the tags of as many documents. -/
theorem count_userMessage (userInstruction : String) (docs : List String) :
    count (userMessage userInstruction docs) =
      count userInstruction + (docs.map count).sum + count (userMessage "" (List.replicate docs.length "")) := by
  have hempty : count "" = 0 := by
    have hself := hcount "" ""
    rw [String.append_empty] at hself
    omega
  have hdocs := count_taggedDocuments hcount docs 0
  rw [userMessage_eq, userMessage_eq, hcount, hcount, hcount, hcount, hempty]
  have heq : (fun i doc => taggedDocument (i + 0) doc) = taggedDocument := rfl
  rw [heq] at hdocs
  omega

end Counting

/-! ## The packing -/

namespace Reduce

variable (reduce : Reduce)

/-- The tokens of the template around a number of documents. -/
def tagTokens (count : Nat) : Nat := reduce.model.countTokens (.text (userMessage "" (List.replicate count "")))

/-- The request leaves room for the output in the window. -/
def FitsWindow (messages : LMRequestMessages) : Prop :=
  reduce.model.countTokens (.messages messages) + reduce.model.maxOutputTokens ≤ reduce.model.maxContextWindowLength

/-- One document alone is too large, or the batches are the documents in their order, and the requests fit the window. -/
def Packs (userInstruction : String) (docs : List (Option String)) : Prop :=
  (∃ doc ∈ nonEmptyDocs docs, ¬ reduce.FitsRequest userInstruction doc ∧
    reduce.buildRequestMessagesBatch userInstruction docs =
      .error (reduce.documentTooLarge (reduce.userMessageTokens userInstruction + reduce.docTokens doc))) ∨
  ∃ batches : List (List String), reduce.buildRequestMessagesBatch userInstruction docs = .ok (batches.map (buildRequestMessages userInstruction)) ∧
    batches.flatten = nonEmptyDocs docs ∧ (∀ batch ∈ batches, batch ≠ []) ∧
      ∀ batch ∈ batches, reduce.FitsWindow (buildRequestMessages userInstruction batch)

/-- The documents, grouped by their own tokens. -/
def documentGroups (userInstruction : String) (docs : List (Option String)) : List (List String) :=
  NextFit.nextFit reduce.docTokens (reduce.requestCapacity userInstruction) (nonEmptyDocs docs)

variable {reduce} {userInstruction : String} {docs : List (Option String)}

/-- What a request costs: its overhead, the instruction, the documents and their tags. -/
theorem fitsWindow_iff {overhead : Nat} (hcounter : reduce.model.Additive overhead) (batch : List String) :
    reduce.FitsWindow (buildRequestMessages userInstruction batch) ↔
      overhead + reduce.docTokens userInstruction + (batch.map reduce.docTokens).sum + reduce.tagTokens batch.length +
        reduce.model.maxOutputTokens ≤ reduce.model.maxContextWindowLength := by
  have hadd : ∀ s t, reduce.docTokens (s ++ t) = reduce.docTokens s + reduce.docTokens t := hcounter.text_append
  have hmessage := count_userMessage hadd userInstruction batch
  have htags : reduce.tagTokens batch.length = reduce.docTokens (userMessage "" (List.replicate batch.length "")) := rfl
  have hrequest : reduce.model.countTokens (.messages (buildRequestMessages userInstruction batch)) =
      overhead + reduce.docTokens (userMessage userInstruction batch) :=
    hcounter.messages _ (userMessage_ne_empty userInstruction batch)
  unfold FitsWindow
  rw [hrequest, hmessage, htags]
  simp only [Nat.add_assoc]

/-- Where each document fits a request of its own, only the window is left to check. -/
theorem packs_iff_of_fits (hfits : ∀ doc ∈ nonEmptyDocs docs, reduce.FitsRequest userInstruction doc) :
    reduce.Packs userInstruction docs ↔
      ∀ batch ∈ reduce.documentGroups userInstruction docs, reduce.FitsWindow (buildRequestMessages userInstruction batch) := by
  have hok := buildRequestMessagesBatch_ok hfits
  constructor
  · rintro (⟨doc, hmem, hdoc, -⟩ | ⟨batches, hok', -, -, hwindow⟩)
    · exact absurd (hfits doc hmem) hdoc
    · intro batch hbatch
      -- the batches may be others, but the requests are the same
      have hmessages : (reduce.documentGroups userInstruction docs).map (buildRequestMessages userInstruction) =
          batches.map (buildRequestMessages userInstruction) := Except.ok.inj (hok.symm.trans hok')
      have hmem : buildRequestMessages userInstruction batch ∈ batches.map (buildRequestMessages userInstruction) :=
        hmessages ▸ List.mem_map_of_mem hbatch
      obtain ⟨batch', hbatch', heq⟩ := List.mem_map.mp hmem
      exact heq ▸ hwindow batch' hbatch'
  · intro hgroups
    exact .inr ⟨reduce.documentGroups userInstruction docs, hok, NextFit.flatten_nextFit _,
      fun batch hbatch => NextFit.ne_nil_of_mem_nextFit hbatch, hgroups⟩

/-- **A list of documents is packed as it should be exactly when a document alone is too large, or each group of documents
    still fits with its tags.** -/
theorem packs_iff {overhead : Nat} (hcounter : reduce.model.Additive overhead) :
    reduce.Packs userInstruction docs ↔
      (∃ doc ∈ nonEmptyDocs docs, ¬ reduce.FitsRequest userInstruction doc) ∨
      ∀ batch ∈ reduce.documentGroups userInstruction docs,
        overhead + reduce.docTokens userInstruction + (batch.map reduce.docTokens).sum + reduce.tagTokens batch.length +
          reduce.model.maxOutputTokens ≤ reduce.model.maxContextWindowLength := by
  by_cases hfits : ∀ doc ∈ nonEmptyDocs docs, reduce.FitsRequest userInstruction doc
  · have hnone : ¬ ∃ doc ∈ nonEmptyDocs docs, ¬ reduce.FitsRequest userInstruction doc := by
      rintro ⟨doc, hmem, hdoc⟩
      exact hdoc (hfits doc hmem)
    rw [or_iff_right hnone, packs_iff_of_fits hfits]
    exact forall₂_congr fun batch _ => fitsWindow_iff hcounter batch
  · push Not at hfits
    exact iff_of_true (.inl (buildRequests_tooLarge hfits [] 0)) (.inl hfits)

/-- A counter of characters, with ten tokens for each request, over a window of 120 tokens. -/
def characterModel : LanguageModel where
  countTokens := fun
    | .text s => s.length
    | .messages messages => 10 + messages.user.length
  maxContextWindowLength := 120
  maxOutputTokens := 0

theorem characterModel_additive : characterModel.Additive 10 := ⟨String.length_append, fun _ _ => rfl⟩

/-- Two documents of a letter fit. -/
theorem characterModel_packs : Packs ⟨characterModel, 10⟩ "Sum" [some "a", none, some "b"] := by
  have hcounter : (Reduce.mk characterModel 10).model.Additive 10 := characterModel_additive
  apply (packs_iff hcounter).mpr
  right
  decide +kernel

/-- Four documents of a letter do not, with their tags. -/
theorem characterModel_not_packs :
    characterModel.Additive 10 ∧ ¬ Packs ⟨characterModel, 10⟩ "Sum" (List.replicate 4 (some "a")) := by
  refine ⟨characterModel_additive, ?_⟩
  have hfits : ∀ doc ∈ nonEmptyDocs (List.replicate 4 (some "a")), FitsRequest ⟨characterModel, 10⟩ "Sum" doc := by
    unfold FitsRequest
    decide +kernel
  rw [packs_iff_of_fits hfits]
  unfold FitsWindow
  decide +kernel

end Reduce

end SemanticOperators

end Fenic
