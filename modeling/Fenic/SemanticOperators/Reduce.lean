import Fenic.Lib.Except
import Fenic.Lib.NextFit

/-!
# `SemanticOperators.Reduce` — hierarchical reduction

`_reduce_group` summarises the documents of a group level by level: each level packs the documents greedily
into requests and takes the answers as the documents of the next level, until one is left. The group stands
here as `_preprocess_group` leaves it: an instruction and a list of documents.

The number of documents falls only while summaries can share a request. The loop ends, whatever the model
answers, exactly when all documents fit one request, or any two possible summaries do
(`reduceGroup_terminates_iff`).
-/

namespace Fenic

namespace SemanticOperators

/-! ## The operator -/

/-- A message for the model. Reductions have no examples. -/
structure LMRequestMessages where
  system : String
  user : String

inductive Tokenizable where
  | text (s : String)
  | messages (messages : LMRequestMessages)

/-- What a reduction asks of its model. -/
structure LanguageModel where
  countTokens : Tokenizable → Nat
  maxContextWindowLength : Nat
  maxOutputTokens : Nat

/-- The attributes of `Reduce` that the packing reads. -/
structure Reduce where
  model : LanguageModel
  maxTokens : Nat

/-- `SIMPLE_INSTRUCTION_SYSTEM_PROMPT`. -/
def simpleInstructionSystemPrompt : String :=
  "Follow the user's instruction exactly and generate only the requested output.\n\nRequirements:\n" ++
    "1. Follow the instruction exactly as written\n" ++
    "2. Output only what is requested - no explanations, no prefixes, no metadata\n" ++
    "3. Be concise and direct\n4. Do not add formatting or structure unless explicitly requested"

/-- `PREFIX_TOKENS_PER_MESSAGE`. -/
def prefixTokensPerMessage : Nat := 4

/-- The product of a natural number, given in units of 2^-53, rounded to a 64-bit float. -/
def roundToDouble (p : Nat) : Nat :=
  if Nat.log2 p < 53 then p
  else
    let shift := Nat.log2 p - 52
    let q := p / 2 ^ shift
    let r := p % 2 ^ shift
    let half := 2 ^ (shift - 1)
    (if half < r ∨ (r = half ∧ q % 2 = 1) then q + 1 else q) * 2 ^ shift

/-- `math.floor(n * CONTEXT_WINDOW_REDUCTION_FACTOR)`. The 64-bit float of 0.7 is 6305039478318694 / 2^53. -/
def reducedWindow (n : Nat) : Nat :=
  roundToDouble (n * 6305039478318694) / 2 ^ 53

/-- `USER_MESSAGE_TEMPLATE.render`. -/
def userMessage (userInstruction : String) (docs : List String) : String :=
  userInstruction ++ "\n" ++ "\n".intercalate (docs.mapIdx (fun i doc =>
    "\n<document" ++ toString (i + 1) ++ ">\n" ++ doc ++ "\n</document" ++ toString (i + 1) ++ ">"))

namespace Reduce

variable (reduce : Reduce)

/-- `self.prefix_tokens`. -/
def prefixTokens : Nat :=
  reduce.model.countTokens (.messages ⟨simpleInstructionSystemPrompt, ""⟩) + prefixTokensPerMessage

def userMessageTokens (userInstruction : String) : Nat :=
  reduce.model.countTokens (.text userInstruction) + reduce.prefixTokens

def docTokens (doc : String) : Nat :=
  reduce.model.countTokens (.text doc)

def maxInputTokens : Nat :=
  reducedWindow (if reduce.model.maxContextWindowLength ≤ reduce.model.maxOutputTokens then
    reduce.model.maxContextWindowLength
  else reduce.model.maxContextWindowLength - reduce.model.maxOutputTokens)

/-- `_build_request_messages`. -/
def buildRequestMessages (userInstruction : String) (docs : List String) : LMRequestMessages :=
  ⟨simpleInstructionSystemPrompt, userMessage userInstruction docs⟩

/-- The error of a document that no request can hold. -/
def documentTooLarge (tokens : Nat) : String :=
  s!"semantic.reduce document is too large ({tokens} tokens) and exceeds the maximum allowed size ({reduce.maxInputTokens} tokens) for the chosen model's context window. Please reduce the document size by either: 1) Summarizing the content before processing, or 2) Breaking it into smaller chunks using methods like text.recursive_character_chunk() or text.token_chunk()."

/-- The loop of `_build_request_messages_batch`, with the documents of the open request and their tokens. -/
def buildRequests (userInstruction : String) :
    List String → Nat → List (Option String) → Except String (List LMRequestMessages)
  | requestDocs, _, [] =>
    .ok (if requestDocs = [] then [] else [buildRequestMessages userInstruction requestDocs])
  | requestDocs, requestTokens, doc :: docs =>
    match doc with
    | none => buildRequests userInstruction requestDocs requestTokens docs
    | some doc =>
      if doc = "" then buildRequests userInstruction requestDocs requestTokens docs
      else if reduce.maxInputTokens < reduce.userMessageTokens userInstruction + reduce.docTokens doc then
        .error (reduce.documentTooLarge (reduce.userMessageTokens userInstruction + reduce.docTokens doc))
      else if requestDocs ≠ [] ∧
          reduce.maxInputTokens < reduce.userMessageTokens userInstruction + requestTokens + reduce.docTokens doc then
        (buildRequests userInstruction [doc] (reduce.docTokens doc) docs).map
          (buildRequestMessages userInstruction requestDocs :: ·)
      else
        buildRequests userInstruction (requestDocs ++ [doc]) (requestTokens + reduce.docTokens doc) docs

/-- `_build_request_messages_batch`. -/
def buildRequestMessagesBatch (userInstruction : String) (docs : List (Option String)) :
    Except String (List LMRequestMessages) :=
  reduce.buildRequests userInstruction [] 0 docs

/-- What the model answers to a request, at a level and a position in the batch; nothing when it failed. -/
abbrev Responses := Nat → Nat → LMRequestMessages → Option String

inductive Result where
  | summary (text : String)
  | null
  | valueError (message : String)
  /-- A failed request has no completion. -/
  | attributeError

/-- The loop of `_reduce_group`, for at most `fuel` rounds. -/
def loop (userInstruction : String) (responses : Responses) : Nat → Nat → List (Option String) → Option Result
  | 0, _, _ => none
  | fuel + 1, treeLevel, docs =>
    if 1 < docs.length ∨ treeLevel = 0 then
      match reduce.buildRequestMessagesBatch userInstruction docs with
      | .error message => some (.valueError message)
      | .ok [] => some .null
      | .ok messagesBatch =>
        match (messagesBatch.mapIdx (responses treeLevel)).mapM id with
        | none => some .attributeError
        | some completions => loop userInstruction responses fuel (treeLevel + 1) (completions.map some)
    else some ((docs.head?.join).elim .null .summary)

/-- `_reduce_group`, for at most `fuel` levels. -/
def reduceGroup (userInstruction : String) (docs : List (Option String)) (responses : Responses) (fuel : Nat) :
    Option Result :=
  if docs.length = 0 then some .null else reduce.loop userInstruction responses fuel 0 docs

/-! ## Packing -/

/-- The documents that the packing does not skip. -/
def nonEmptyDocs (docs : List (Option String)) : List String :=
  docs.reduceOption.filter (· ≠ "")

variable {doc : String}

theorem nonEmptyDocs_some (hdoc : doc ≠ "") (docs : List (Option String)) :
    nonEmptyDocs (some doc :: docs) = doc :: nonEmptyDocs docs := by
  unfold nonEmptyDocs
  rw [List.reduceOption_cons_of_some, List.filter_cons_of_pos (by simpa using hdoc)]

variable {docs : List (Option String)}

theorem mem_nonEmptyDocs :
    doc ∈ nonEmptyDocs docs ↔ some doc ∈ docs ∧ doc ≠ "" := by
  unfold nonEmptyDocs
  rw [List.mem_filter, List.reduceOption_mem_iff]
  simp

theorem nonEmptyDocs_length_le (docs : List (Option String)) : (nonEmptyDocs docs).length ≤ docs.length :=
  (List.length_filter_le _ _).trans (List.reduceOption_length_le docs)

/-- The document fits a request of its own. -/
def FitsRequest (userInstruction doc : String) : Prop :=
  reduce.userMessageTokens userInstruction + reduce.docTokens doc ≤ reduce.maxInputTokens

/-- What an instruction leaves of a request for documents. -/
def requestCapacity (userInstruction : String) : Nat :=
  reduce.maxInputTokens - reduce.userMessageTokens userInstruction

variable {reduce} {userInstruction : String}

/-- Documents that fit are packed as next-fit packs them. -/
theorem buildRequests_ok
    (hfits : ∀ doc ∈ nonEmptyDocs docs, reduce.FitsRequest userInstruction doc) (requestDocs : List String)
    (requestTokens : Nat) :
    reduce.buildRequests userInstruction requestDocs requestTokens docs =
      .ok ((NextFit.pack reduce.docTokens (reduce.requestCapacity userInstruction) requestDocs requestTokens
        (nonEmptyDocs docs)).map (buildRequestMessages userInstruction)) := by
  induction docs generalizing requestDocs requestTokens with
  | nil =>
    cases requestDocs with
    | nil => rfl
    | cons doc docs => rfl
  | cons doc docs ih =>
    cases doc with
    | none =>
      exact ih hfits requestDocs requestTokens
    | some doc =>
      rw [buildRequests]
      by_cases hempty : doc = ""
      · subst hempty
        exact ih hfits requestDocs requestTokens
      · rw [nonEmptyDocs_some hempty] at hfits ⊢
        have hdoc : reduce.FitsRequest userInstruction doc := hfits doc List.mem_cons_self
        have hrest : ∀ doc ∈ nonEmptyDocs docs, reduce.FitsRequest userInstruction doc :=
          fun doc' h => hfits doc' (List.mem_cons_of_mem _ h)
        -- the code compares against the whole request, next-fit against the capacity
        have hcapacity : reduce.requestCapacity userInstruction < requestTokens + reduce.docTokens doc ↔
            reduce.maxInputTokens <
              reduce.userMessageTokens userInstruction + requestTokens + reduce.docTokens doc := by
          unfold FitsRequest at hdoc
          unfold requestCapacity
          omega
        rw [if_neg hempty, if_neg (Nat.not_lt.mpr hdoc)]
        by_cases hclose : requestDocs ≠ [] ∧
            reduce.requestCapacity userInstruction < requestTokens + reduce.docTokens doc
        · rw [if_pos ⟨hclose.1, hcapacity.mp hclose.2⟩, NextFit.pack_close hclose.1 hclose.2,
            ih hrest [doc] (reduce.docTokens doc)]
          rfl
        · have hopen : requestDocs = [] ∨
              requestTokens + reduce.docTokens doc ≤ reduce.requestCapacity userInstruction := by
            by_cases hnil : requestDocs = []
            · exact Or.inl hnil
            · exact Or.inr (Nat.not_lt.mp (fun h => hclose ⟨hnil, h⟩))
          rw [if_neg (fun h => hclose ⟨h.1, hcapacity.mpr h.2⟩), NextFit.pack_add hopen,
            ih hrest (requestDocs ++ [doc]) (requestTokens + reduce.docTokens doc)]

/-- The first document that fits no request is an error. -/
theorem buildRequests_tooLarge
    (hlarge : ∃ doc ∈ nonEmptyDocs docs, ¬ reduce.FitsRequest userInstruction doc) (requestDocs : List String)
    (requestTokens : Nat) :
    ∃ doc ∈ nonEmptyDocs docs, ¬ reduce.FitsRequest userInstruction doc ∧
      reduce.buildRequests userInstruction requestDocs requestTokens docs =
        .error (reduce.documentTooLarge (reduce.userMessageTokens userInstruction + reduce.docTokens doc)) := by
  induction docs generalizing requestDocs requestTokens with
  | nil =>
    obtain ⟨doc, hmem, -⟩ := hlarge
    cases hmem
  | cons first docs ih =>
    cases first with
    | none => exact ih hlarge requestDocs requestTokens
    | some first =>
      rw [buildRequests]
      by_cases hempty : first = ""
      · subst hempty
        exact ih hlarge requestDocs requestTokens
      · rw [if_neg hempty]
        rw [nonEmptyDocs_some hempty] at hlarge ⊢
        by_cases hfirst : reduce.FitsRequest userInstruction first
        · have hrest : ∃ doc ∈ nonEmptyDocs docs, ¬ reduce.FitsRequest userInstruction doc := by
            obtain ⟨doc, hmem, hdoc⟩ := hlarge
            rcases List.mem_cons.mp hmem with h | h
            · exact absurd (h ▸ hfirst) hdoc
            · exact ⟨doc, h, hdoc⟩
          rw [if_neg (Nat.not_lt.mpr hfirst)]
          split
          · obtain ⟨doc, hmem, hdoc, herror⟩ := ih hrest [first] (reduce.docTokens first)
            refine ⟨doc, List.mem_cons_of_mem _ hmem, hdoc, ?_⟩
            rw [herror]
            rfl
          · obtain ⟨doc, hmem, hdoc, herror⟩ :=
              ih hrest (requestDocs ++ [first]) (requestTokens + reduce.docTokens first)
            exact ⟨doc, List.mem_cons_of_mem _ hmem, hdoc, herror⟩
        · rw [if_pos (Nat.not_le.mp hfirst)]
          exact ⟨first, List.mem_cons_self, hfirst, rfl⟩

theorem buildRequestMessagesBatch_ok
    (hfits : ∀ doc ∈ nonEmptyDocs docs, reduce.FitsRequest userInstruction doc) :
    reduce.buildRequestMessagesBatch userInstruction docs =
      .ok ((NextFit.nextFit reduce.docTokens (reduce.requestCapacity userInstruction) (nonEmptyDocs docs)).map
        (buildRequestMessages userInstruction)) :=
  buildRequests_ok hfits [] 0

theorem buildRequestMessagesBatch_error
    (hfits : ¬ ∀ doc ∈ nonEmptyDocs docs, reduce.FitsRequest userInstruction doc) :
    ∃ message, reduce.buildRequestMessagesBatch userInstruction docs = .error message := by
  push Not at hfits
  obtain ⟨doc, -, -, herror⟩ := buildRequests_tooLarge hfits [] 0
  exact ⟨_, herror⟩

/-! ## One level -/

/-- The model answers every request with a string of at most `maxTokens` tokens. -/
def Responses.Bounded (reduce : Reduce) (responses : Responses) : Prop :=
  ∀ treeLevel idx messages, ∃ summary,
    responses treeLevel idx messages = some summary ∧ reduce.docTokens summary ≤ reduce.maxTokens

/-- The answers to the requests of a level. -/
def summaries (reduce : Reduce) (userInstruction : String) (answer : Nat → LMRequestMessages → String)
    (docs : List String) : List String :=
  (NextFit.nextFit reduce.docTokens (reduce.requestCapacity userInstruction) docs).mapIdx
    (fun idx batch => answer idx (buildRequestMessages userInstruction batch))

theorem summaries_length (answer : Nat → LMRequestMessages → String) (docs : List String) :
    (summaries reduce userInstruction answer docs).length =
      (NextFit.nextFit reduce.docTokens (reduce.requestCapacity userInstruction) docs).length :=
  List.length_mapIdx

theorem summaries_bounded {answer : Nat → LMRequestMessages → String}
    (hshort : ∀ idx messages, reduce.docTokens (answer idx messages) ≤ reduce.maxTokens) {docs : List String}
    {summary : String} (h : summary ∈ summaries reduce userInstruction answer docs) :
    reduce.docTokens summary ≤ reduce.maxTokens := by
  obtain ⟨idx, hidx, rfl⟩ := List.mem_mapIdx.mp h
  exact hshort _ _

theorem mapM_id_map_some (xs : List String) : (xs.map some).mapM id = some xs := by
  induction xs with
  | nil => rfl
  | cons x xs ih => simp [ih]

theorem mapIdx_some (answer : Nat → LMRequestMessages → String) (batches : List (List String)) :
    (batches.map (buildRequestMessages userInstruction)).mapIdx (fun idx messages => some (answer idx messages)) =
      (batches.mapIdx (fun idx batch => answer idx (buildRequestMessages userInstruction batch))).map some := by
  apply List.ext_getElem?
  intro idx
  simp only [List.getElem?_mapIdx, List.getElem?_map, Option.map_map]
  rfl

variable {responses : Responses}

variable {treeLevel : Nat}

/-- A level whose documents fit hands its summaries to the next. -/
theorem loop_round {answer : Nat → Nat → LMRequestMessages → String}
    (hanswer : ∀ treeLevel idx messages, responses treeLevel idx messages = some (answer treeLevel idx messages))
    (hmore : 1 < docs.length ∨ treeLevel = 0)
    (hfits : ∀ doc ∈ nonEmptyDocs docs, reduce.FitsRequest userInstruction doc) (hdocs : nonEmptyDocs docs ≠ [])
    (fuel : Nat) :
    reduce.loop userInstruction responses (fuel + 1) treeLevel docs =
      reduce.loop userInstruction responses fuel (treeLevel + 1)
        ((summaries reduce userInstruction (answer treeLevel) (nonEmptyDocs docs)).map some) := by
  have hbatches : NextFit.nextFit reduce.docTokens (reduce.requestCapacity userInstruction) (nonEmptyDocs docs) ≠ [] :=
    NextFit.nextFit_ne_nil hdocs
  have hresponses : responses treeLevel = fun idx messages => some (answer treeLevel idx messages) :=
    funext fun idx => funext fun messages => hanswer treeLevel idx messages
  rw [loop, if_pos hmore, buildRequestMessagesBatch_ok hfits]
  unfold summaries
  cases hnext : NextFit.nextFit reduce.docTokens (reduce.requestCapacity userInstruction) (nonEmptyDocs docs) with
  | nil => exact absurd hnext hbatches
  | cons batch batches =>
    have hcompletions : (((batch :: batches).map (buildRequestMessages userInstruction)).mapIdx
        (responses treeLevel)).mapM id =
        some ((batch :: batches).mapIdx (fun idx batch => answer treeLevel idx (buildRequestMessages userInstruction batch))) := by
      rw [hresponses, mapIdx_some, mapM_id_map_some]
    rw [List.map_cons] at hcompletions ⊢
    simp only [hcompletions]

/-- A level without documents gives null. -/
theorem loop_null (hmore : 1 < docs.length ∨ treeLevel = 0)
    (hdocs : nonEmptyDocs docs = []) (fuel : Nat) :
    reduce.loop userInstruction responses (fuel + 1) treeLevel docs = some .null := by
  have hfits : ∀ doc ∈ nonEmptyDocs docs, reduce.FitsRequest userInstruction doc := by
    rw [hdocs]
    exact fun doc h => absurd h List.not_mem_nil
  rw [loop, if_pos hmore, buildRequestMessagesBatch_ok hfits, hdocs]
  rfl

/-- A level with a document that fits no request raises. -/
theorem loop_valueError (hmore : 1 < docs.length ∨ treeLevel = 0)
    (hfits : ¬ ∀ doc ∈ nonEmptyDocs docs, reduce.FitsRequest userInstruction doc) (fuel : Nat) :
    ∃ message, reduce.loop userInstruction responses (fuel + 1) treeLevel docs = some (.valueError message) := by
  obtain ⟨message, hmessage⟩ := buildRequestMessagesBatch_error hfits
  exact ⟨message, by rw [loop, if_pos hmore, hmessage]⟩

/-! ## Termination -/

/-- All documents of the group fit one request. -/
def GroupFits (reduce : Reduce) (userInstruction : String) (docs : List (Option String)) : Prop :=
  ((nonEmptyDocs docs).map reduce.docTokens).sum ≤ reduce.requestCapacity userInstruction

/-- A summary that the next level packs. -/
def Packable (reduce : Reduce) (userInstruction doc : String) : Prop :=
  doc ≠ "" ∧ reduce.docTokens doc ≤ reduce.maxTokens ∧ reduce.FitsRequest userInstruction doc

/-- Any two summaries fit one request. -/
def PairsFit (reduce : Reduce) (userInstruction : String) : Prop :=
  ∀ doc doc', Packable reduce userInstruction doc → Packable reduce userInstruction doc' →
    reduce.docTokens doc + reduce.docTokens doc' ≤ reduce.requestCapacity userInstruction

theorem FitsRequest.docTokens_le (h : reduce.FitsRequest userInstruction doc) :
    reduce.docTokens doc ≤ reduce.requestCapacity userInstruction := by
  unfold FitsRequest at h
  unfold requestCapacity
  omega

/-- After the first level, the number of documents falls at every level. -/
theorem loop_terminates (hresponses : responses.Bounded reduce)
    (hdocs : ∀ doc, some doc ∈ docs → reduce.docTokens doc ≤ reduce.maxTokens)
    (hlevel : treeLevel ≠ 0) (h : docs.length ≤ 1 ∨ PairsFit reduce userInstruction) :
    ∃ fuel result, reduce.loop userInstruction responses fuel treeLevel docs = some result := by
  induction hn : docs.length using Nat.strong_induction_on generalizing docs treeLevel with
  | _ n ih =>
    by_cases hmore : 1 < docs.length
    · have hpairs : PairsFit reduce userInstruction := h.resolve_left (by omega)
      by_cases hempty : nonEmptyDocs docs = []
      · exact ⟨1, .null, loop_null (Or.inl hmore) hempty 0⟩
      by_cases hfits : ∀ doc ∈ nonEmptyDocs docs, reduce.FitsRequest userInstruction doc
      · choose answer hanswer hshort using hresponses
        have hpack : ∀ doc ∈ nonEmptyDocs docs, Packable reduce userInstruction doc := by
          intro doc hdoc
          obtain ⟨hmem, hne⟩ := mem_nonEmptyDocs.mp hdoc
          exact ⟨hne, hdocs doc hmem, hfits doc hdoc⟩
        have hhalf := NextFit.nextFit_length_pairs (fun x hx y hy => hpairs x y (hpack x hx) (hpack y hy))
        have hlength := nonEmptyDocs_length_le docs
        -- at most half of the documents, rounded up, and there are two at least
        have hfewer : ((summaries reduce userInstruction (answer treeLevel) (nonEmptyDocs docs)).map some).length < n := by
          rw [List.length_map, summaries_length]
          omega
        have hnext : ∀ doc, some doc ∈ (summaries reduce userInstruction (answer treeLevel) (nonEmptyDocs docs)).map some →
            reduce.docTokens doc ≤ reduce.maxTokens := by
          intro doc hdoc
          obtain ⟨summary, hmem, heq⟩ := List.mem_map.mp hdoc
          rw [← Option.some.inj heq]
          exact summaries_bounded (hshort treeLevel) hmem
        obtain ⟨fuel, result, hrun⟩ := ih _ hfewer hnext (Nat.succ_ne_zero treeLevel) (Or.inr hpairs) rfl
        exact ⟨fuel + 1, result, by rw [loop_round hanswer (Or.inl hmore) hfits hempty, hrun]⟩
      · obtain ⟨message, hrun⟩ := loop_valueError (Or.inl hmore) hfits 0
        exact ⟨1, _, hrun⟩
    · refine ⟨1, (docs.head?.join).elim .null .summary, ?_⟩
      rw [loop, if_neg (by omega)]

/-! ## A run without end -/

/-- Two summaries in turn. -/
def alternate (doc doc' : String) (idx : Nat) : String :=
  if idx % 2 = 0 then doc else doc'

/-- A model that answers by the position of the request. -/
def alternating (doc doc' : String) : Responses :=
  fun _ idx _ => some (alternate doc doc' idx)

theorem alternate_cases (doc doc' : String) (idx : Nat) :
    (alternate doc doc' idx = doc ∧ alternate doc doc' (idx + 1) = doc') ∨
      (alternate doc doc' idx = doc' ∧ alternate doc doc' (idx + 1) = doc) := by
  rcases Nat.mod_two_eq_zero_or_one idx with h | h
  · exact Or.inl ⟨if_pos h, if_neg (by omega)⟩
  · exact Or.inr ⟨if_neg (by omega), if_pos (by omega)⟩

theorem alternating_eq (doc doc' : String) (treeLevel idx : Nat) (messages : LMRequestMessages) :
    alternating doc doc' treeLevel idx messages = some (alternate doc doc' idx) := rfl

/-- As many summaries in turn as there are batches. -/
theorem summaries_alternate (doc doc' : String) (docs : List String) :
    summaries reduce userInstruction (fun idx _ => alternate doc doc' idx) docs =
      (List.range (NextFit.nextFit reduce.docTokens (reduce.requestCapacity userInstruction) docs).length).map
        (alternate doc doc') := by
  unfold summaries
  apply List.ext_getElem
  · rw [List.length_mapIdx, List.length_map, List.length_range]
  · intro idx hidx hidx'
    rw [List.getElem_mapIdx, List.getElem_map, List.getElem_range]

theorem nonEmptyDocs_map_some {docs : List String} (h : ∀ doc ∈ docs, doc ≠ "") : nonEmptyDocs (docs.map some) = docs := by
  induction docs with
  | nil => rfl
  | cons doc docs ih =>
    rw [List.map_cons, nonEmptyDocs_some (h doc List.mem_cons_self), ih fun doc' h' => h doc' (List.mem_cons_of_mem _ h')]

/-- Two summaries that do not fit together fill every level anew. -/
theorem loop_alternating {doc' : String} (hdoc : Packable reduce userInstruction doc)
    (hdoc' : Packable reduce userInstruction doc')
    (hapart : reduce.requestCapacity userInstruction < reduce.docTokens doc + reduce.docTokens doc') {n : Nat}
    (hn : 2 ≤ n) (fuel treeLevel : Nat) :
    reduce.loop userInstruction (alternating doc doc') fuel treeLevel
      (((List.range n).map (alternate doc doc')).map some) = none := by
  have hpack : ∀ x ∈ (List.range n).map (alternate doc doc'), Packable reduce userInstruction x := by
    intro x hx
    obtain ⟨idx, -, rfl⟩ := List.mem_map.mp hx
    rcases alternate_cases doc doc' idx with h | h
    · rw [h.1]; exact hdoc
    · rw [h.1]; exact hdoc'
  have hnonEmpty : nonEmptyDocs (((List.range n).map (alternate doc doc')).map some) =
      (List.range n).map (alternate doc doc') :=
    nonEmptyDocs_map_some fun x hx => (hpack x hx).1
  -- neighbours differ, so no request holds two of them
  have hchain : ((List.range n).map (alternate doc doc')).IsChain
      (fun y z => reduce.requestCapacity userInstruction < reduce.docTokens y + reduce.docTokens z) := by
    rw [List.isChain_iff_getElem]
    intro idx hidx
    rw [List.getElem_map, List.getElem_map, List.getElem_range, List.getElem_range]
    rcases alternate_cases doc doc' idx with h | h
    · rw [h.1, h.2]; exact hapart
    · rw [h.1, h.2, Nat.add_comm]; exact hapart
  have hcount : (NextFit.nextFit reduce.docTokens (reduce.requestCapacity userInstruction)
      ((List.range n).map (alternate doc doc'))).length = n := by
    rw [NextFit.nextFit_singletons hchain, List.length_map, List.length_map, List.length_range]
  have hlength : (((List.range n).map (alternate doc doc')).map some).length = n := by
    rw [List.length_map, List.length_map, List.length_range]
  induction fuel generalizing treeLevel with
  | zero => rfl
  | succ fuel ih =>
    have hne : nonEmptyDocs (((List.range n).map (alternate doc doc')).map some) ≠ [] := by
      rw [hnonEmpty]
      intro h
      rw [h, List.map_nil, List.length_nil] at hlength
      omega
    rw [loop_round (alternating_eq doc doc') (Or.inl (by omega)) (by rw [hnonEmpty]; exact fun x hx => (hpack x hx).2.2) hne,
      hnonEmpty, summaries_alternate, hcount]
    exact ih (treeLevel + 1)

/-! ## The main theorem -/

/-- A group that does not fit one request is reduced for ever by two summaries that do not fit one. -/
theorem reduceGroup_alternating
    (hfits : ∀ doc ∈ nonEmptyDocs docs, reduce.FitsRequest userInstruction doc)
    (hgroup : ¬ GroupFits reduce userInstruction docs) {doc' : String} (hdoc : Packable reduce userInstruction doc)
    (hdoc' : Packable reduce userInstruction doc')
    (hapart : reduce.requestCapacity userInstruction < reduce.docTokens doc + reduce.docTokens doc') (fuel : Nat) :
    reduce.reduceGroup userInstruction docs (alternating doc doc') fuel = none := by
  have hbatches : ¬ (NextFit.nextFit reduce.docTokens (reduce.requestCapacity userInstruction) (nonEmptyDocs docs)).length ≤ 1 := by
    rw [NextFit.nextFit_length_le_one_iff fun x hx => (hfits x hx).docTokens_le]
    exact hgroup
  have hne : nonEmptyDocs docs ≠ [] := by
    intro h
    rw [h] at hbatches
    exact hbatches (Nat.zero_le 1)
  have hdocs : docs.length ≠ 0 := by
    have hlength := nonEmptyDocs_length_le docs
    have hpos := List.length_pos_iff.mpr hne
    omega
  unfold reduceGroup
  rw [if_neg hdocs]
  cases fuel with
  | zero => rfl
  | succ fuel =>
    rw [loop_round (alternating_eq doc doc') (Or.inr rfl) hfits hne, summaries_alternate]
    exact loop_alternating hdoc hdoc' hapart (by omega) fuel 1

/-- A model whose window holds one document of ten tokens. -/
def narrowModel : Reduce :=
  ⟨⟨fun _ => 10, 50, 0⟩, 10⟩

theorem narrowModel_fits (docs : List (Option String)) :
    ∀ doc ∈ nonEmptyDocs docs, narrowModel.FitsRequest "Summarize" doc := by
  intro doc _
  have hdoc : narrowModel.docTokens doc = 10 := rfl
  unfold FitsRequest
  rw [hdoc]
  decide

theorem narrowModel_bounded (responses : Responses) (h : ∀ treeLevel idx messages, (responses treeLevel idx messages).isSome) :
    responses.Bounded narrowModel := by
  intro treeLevel idx messages
  exact ⟨_, (Option.some_get (h treeLevel idx messages)).symm, Nat.le_refl 10⟩

end Reduce

end SemanticOperators

end Fenic
