import Mathlib
import Fenic.SemanticExamples.Collections
import Fenic.TypeInference.Widening

/-!
# `SemanticExamples.Atomicity` — calls that fail leave no trace

The first example writes the type of each field as soon as it is inferred. When a later field of it has no type, the call raises with
the types before it written and the collection still waiting for its first example: a later example then finds fields that no example
has. In every other case a call that raises leaves the collection as it was, and the recorded types are those of every example
(`atomic_iff`).
-/

namespace Fenic

namespace SemanticExamples

open Mcp TypeInference

/-! ## Fields by name -/

section

variable {α : Type} {entries : List (String × α)}

theorem mem_of_lookup {name : String} {value : α} (h : entries.lookup name = some value) :
    (name, value) ∈ entries := by
  obtain ⟨l₁, l₂, rfl, -⟩ := List.lookup_eq_some_iff.mp h
  exact List.mem_append_right _ List.mem_cons_self

theorem lookup_of_mem (hnodup : (entries.map Prod.fst).Nodup) {entry : String × α}
    (h : entry ∈ entries) : entries.lookup entry.1 = some entry.2 := by
  induction entries with
  | nil => cases h
  | cons first entries ih =>
    obtain ⟨hfresh, hrest⟩ := List.nodup_cons.mp hnodup
    rw [List.lookup_cons]
    rcases List.mem_cons.mp h with rfl | hmem
    · simp
    · have hne : entry.1 ≠ first.1 := fun heq => hfresh (heq ▸ List.mem_map_of_mem hmem)
      rw [beq_false_of_ne hne]
      exact ih hrest hmem

theorem lookup_isSome {name : String} :
    (entries.lookup name).isSome = true ↔ name ∈ entries.map Prod.fst := by
  induction entries with
  | nil => simp
  | cons entry entries ih =>
    rw [List.lookup_cons, List.map_cons, List.mem_cons]
    by_cases heq : name = entry.1
    · simp [heq]
    · rw [beq_false_of_ne heq, ih]
      simp [heq]

end

variable {E M : Type}

/-! ## What is to hold -/

/-- The recorded fields are those of every example, with their types. -/
def Records (kind : ExampleKind E) (collection : ExampleCollection E) : Prop :=
  ∀ value ∈ collection.examples, ∀ key,
    (collection.typeValidator.fieldTypes.lookup key).map some = ((kind.exampleDict value).lookup key).map typeOf

/-- Each call that raises might as well not have been made, and the types are right all the way. -/
structure Atomic (kind : ExampleKind E) (calls : List (Argument E)) : Prop where
  forgotten : ∀ before argument after, calls = before ++ argument :: after →
    (createExample kind argument (run kind before)).1 ≠ .ok () → ∀ later, run kind (before ++ argument :: later) = run kind (before ++ later)
  records : ∀ before after, calls = before ++ after → Records kind (run kind before)

/-- An example that is the first one, and has a field without a type behind one that has a type. -/
def StopsHalfway (kind : ExampleKind E) (argument : Argument E) (collection : ExampleCollection E) : Prop :=
  ∃ value first rest, argument = .given value ∧ collection.typeValidator.isFirstExample = true ∧
    kind.validateOutput collection.examples value = .ok () ∧ kind.exampleDict value = first :: rest ∧
    (∀ entry ∈ first :: rest, isNone entry.2 = false) ∧ typeOf first.2 ≠ none ∧ ∃ entry ∈ rest, typeOf entry.2 = none

/-! ## The validator -/

theorem inferField_eq_ok {key : String} {value : PyObj} {t : DataType} : inferField key value = .ok t ↔ typeOf value = some t :=
  Except.mapError_eq_ok.trans inferDtypeFromPyobj_eq_ok

theorem set_ne_nil (key : String) (t : DataType) (fieldTypes : List (String × DataType)) : Keyed.set key t fieldTypes ≠ [] := by
  intro h
  have hget := Keyed.get_set key key t fieldTypes
  rw [h, if_pos rfl] at hget
  cases hget

theorem establish_ne_nil (entries : List (String × PyObj)) {fieldTypes : List (String × DataType)} (h : fieldTypes ≠ []) :
    (establish entries fieldTypes).2 ≠ [] := by
  induction entries generalizing fieldTypes with
  | nil => exact h
  | cons entry entries ih =>
    rw [establish]
    split
    · exact h
    · exact ih (set_ne_nil _ _ _)

variable {entries : List (String × PyObj)}

/-- The loop ends when every field has a type, and has then written them over what was there. -/
theorem establish_returns (fieldTypes : List (String × DataType))
    (hnodup : (entries.map Prod.fst).Nodup) (h : ∀ entry ∈ entries, typeOf entry.2 ≠ none) :
    ∃ fieldTypes', establish entries fieldTypes = (.ok (), fieldTypes') ∧
      ∀ key, (fieldTypes'.lookup key).map some =
        ((entries.lookup key).map typeOf).or ((fieldTypes.lookup key).map some) := by
  induction entries generalizing fieldTypes with
  | nil => exact ⟨fieldTypes, rfl, fun _ => rfl⟩
  | cons entry entries ih =>
    obtain ⟨name, value⟩ := entry
    obtain ⟨hfresh, hrest⟩ := List.nodup_cons.mp hnodup
    obtain ⟨t, ht⟩ := Option.ne_none_iff_exists'.mp (h _ List.mem_cons_self)
    obtain ⟨fieldTypes', hestablish, hlookup⟩ :=
      ih (Keyed.set name t fieldTypes) hrest fun entry hentry => h entry (List.mem_cons_of_mem _ hentry)
    refine ⟨fieldTypes', ?_, fun key => ?_⟩
    · rw [establish, inferField_eq_ok.mpr ht]
      exact hestablish
    · have hset : (Keyed.set name t fieldTypes).lookup key = if key = name then some t else fieldTypes.lookup key :=
        Keyed.get_set key name t fieldTypes
      rw [hlookup key, hset, List.lookup_cons]
      by_cases hkey : key = name
      · subst hkey
        have hnone : entries.lookup key = none := List.lookup_eq_none_iff.mpr fun entry hentry =>
          bne_iff_ne.mpr fun heq => hfresh (List.mem_map.mpr ⟨entry, hentry, heq.symm⟩)
        simp [hnone, ht]
      · simp [hkey, beq_false_of_ne hkey]

theorem establish_fails (fieldTypes : List (String × DataType))
    (h : ∃ entry ∈ entries, typeOf entry.2 = none) : ∃ e fieldTypes', establish entries fieldTypes = (.error e, fieldTypes') := by
  induction entries generalizing fieldTypes with
  | nil =>
    obtain ⟨entry, hentry, -⟩ := h
    cases hentry
  | cons entry entries ih =>
    rw [establish]
    cases hinfer : inferField entry.1 entry.2 with
    | error e => exact ⟨e, fieldTypes, rfl⟩
    | ok t =>
      apply ih
      obtain ⟨entry', hentry', hnone⟩ := h
      rcases List.mem_cons.mp hentry' with rfl | hmem
      · rw [inferField_eq_ok.mp hinfer] at hnone
        cases hnone
      · exact ⟨entry', hmem, hnone⟩

/-- A later example has the recorded fields, of the recorded types. -/
theorem lookup_of_valid {exampleDict : List (String × PyObj)} {fieldTypes : List (String × DataType)} {exampleNum : Nat}
    (hkeys : sameKeys (fieldTypes.map Prod.fst) (exampleDict.map Prod.fst) = true)
    (hvalid : exampleDict.forM (validateField exampleNum fieldTypes) = .ok ()) (key : String) :
    (fieldTypes.lookup key).map some = (exampleDict.lookup key).map typeOf := by
  obtain ⟨hexpected, -⟩ := Bool.and_eq_true_iff.mp hkeys
  cases hlookup : exampleDict.lookup key with
  | none =>
    have hmissing : fieldTypes.lookup key = none := by
      refine List.lookup_eq_none_iff.mpr fun entry hentry => bne_iff_ne.mpr ?_
      rintro rfl
      have hmem : entry.1 ∈ exampleDict.map Prod.fst := by
        simpa using List.all_eq_true.mp hexpected entry.1 (List.mem_map_of_mem hentry)
      obtain ⟨entry', hentry', hname⟩ := List.mem_map.mp hmem
      exact absurd (List.lookup_eq_none_iff.mp hlookup entry' hentry') (by simp [hname])
    rw [hmissing]
    rfl
  | some value =>
    have hfield := Except.forM_eq_ok.mp hvalid _ (mem_of_lookup hlookup)
    rw [validateField, Except.bind_eq_ok] at hfield
    obtain ⟨t, ht, hfield⟩ := hfield
    have htype : typeOf value = some t := inferField_eq_ok.mp ht
    show (fieldTypes.lookup key).map some = some (typeOf value)
    split at hfield
    next => cases hfield
    next expected hrecorded =>
      have heq : expected = t := by
        by_contra hne
        rw [if_pos hne] at hfield
        cases hfield
      rw [hrecorded, htype, heq]
      rfl

/-! ## One call -/

variable {kind : ExampleKind E} {argument : Argument E} {collection : ExampleCollection E}

/-- The types before the field that fails stay behind. -/
theorem createExample_of_stopsHalfway
    (h : StopsHalfway kind argument collection) :
    ∃ e fieldTypes, fieldTypes ≠ [] ∧
      createExample kind argument collection = (.error e, ⟨collection.examples, ⟨fieldTypes, true⟩⟩) := by
  obtain ⟨value, first, rest, rfl, hfirst, houtput, hdict, hnone, htyped, entry, hentry, huntyped⟩ := h
  obtain ⟨examples, fieldTypes, isFirstExample⟩ := collection
  subst hfirst
  obtain ⟨t, ht⟩ := Option.ne_none_iff_exists'.mp htyped
  obtain ⟨e, fieldTypes', hestablish⟩ :=
    establish_fails (Keyed.set first.1 t fieldTypes) ⟨entry, hentry, huntyped⟩
  have hne := establish_ne_nil rest (set_ne_nil first.1 t fieldTypes)
  rw [hestablish] at hne
  refine ⟨e, fieldTypes', hne, ?_⟩
  have hfind : (first :: rest).find? (fun entry => isNone entry.2) = none := by simpa using hnone
  have hloop : establish (first :: rest) fieldTypes = (.error e, fieldTypes') := by
    rw [establish, inferField_eq_ok.mpr ht]
    exact hestablish
  rw [createExample, houtput]
  rw [ExampleTypeValidator.processExample, hdict, hfind]
  rw [if_pos rfl, hloop]

theorem not_none_of_typed (h : ∀ entry ∈ entries, typeOf entry.2 ≠ none) :
    entries.find? (fun entry => isNone entry.2) = none := by
  refine List.find?_eq_none.mpr fun entry hentry hnone => h entry hentry ?_
  cases hvalue : entry.2 <;> rw [hvalue] at hnone <;> first | rfl | cases hnone

/-- A first example whose fields have types is taken. -/
theorem createExample_first {value : E}
    (hfirst : collection.typeValidator.isFirstExample = true) (houtput : kind.validateOutput collection.examples value = .ok ())
    (htyped : ∀ entry ∈ kind.exampleDict value, typeOf entry.2 ≠ none) :
    ∃ fieldTypes, createExample kind (.given value) collection = (.ok (), ⟨collection.examples ++ [value], ⟨fieldTypes, false⟩⟩) ∧
      ∀ key, (fieldTypes.lookup key).map some =
        (((kind.exampleDict value).lookup key).map typeOf).or ((collection.typeValidator.fieldTypes.lookup key).map some) := by
  obtain ⟨fieldTypes, hestablish, hlookup⟩ := establish_returns collection.typeValidator.fieldTypes (kind.distinct value) htyped
  refine ⟨fieldTypes, ?_, hlookup⟩
  rw [createExample, houtput]
  rw [ExampleTypeValidator.processExample, not_none_of_typed htyped]
  rw [if_pos hfirst, hestablish]

/-- A later example with the recorded fields and types is taken. -/
theorem createExample_later {value : E}
    (hlater : collection.typeValidator.isFirstExample = false) (houtput : kind.validateOutput collection.examples value = .ok ())
    (hlookup : ∀ key, (collection.typeValidator.fieldTypes.lookup key).map some = ((kind.exampleDict value).lookup key).map typeOf) :
    createExample kind (.given value) collection = (.ok (), ⟨collection.examples ++ [value], collection.typeValidator⟩) := by
  have hrecorded : ∀ entry ∈ kind.exampleDict value, ∃ t,
      collection.typeValidator.fieldTypes.lookup entry.1 = some t ∧ typeOf entry.2 = some t := by
    intro entry hentry
    have hkey := hlookup entry.1
    rw [lookup_of_mem (kind.distinct value) hentry] at hkey
    obtain ⟨t, ht, htype⟩ := Option.map_eq_some_iff.mp hkey
    exact ⟨t, ht, htype.symm⟩
  have hkeys : sameKeys (collection.typeValidator.fieldTypes.map Prod.fst) ((kind.exampleDict value).map Prod.fst) = true := by
    have hsame : ∀ key, key ∈ collection.typeValidator.fieldTypes.map Prod.fst ↔ key ∈ (kind.exampleDict value).map Prod.fst := by
      intro key
      have hsome := congrArg Option.isSome (hlookup key)
      rw [Option.isSome_map, Option.isSome_map] at hsome
      rw [← lookup_isSome, ← lookup_isSome, hsome]
    exact Bool.and_eq_true_iff.mpr ⟨List.all_eq_true.mpr fun key hkey => decide_eq_true ((hsame key).mp hkey),
      List.all_eq_true.mpr fun key hkey => decide_eq_true ((hsame key).mpr hkey)⟩
  have hvalid : (kind.exampleDict value).forM
      (validateField (collection.examples.length + 1) collection.typeValidator.fieldTypes) = .ok () := by
    refine Except.forM_eq_ok.mpr fun entry hentry => ?_
    obtain ⟨t, ht, htype⟩ := hrecorded entry hentry
    rw [validateField, Except.bind_eq_ok]
    refine ⟨t, inferField_eq_ok.mpr htype, ?_⟩
    rw [ht]
    exact if_neg (not_not_intro rfl)
  have htyped : ∀ entry ∈ kind.exampleDict value, typeOf entry.2 ≠ none := by
    intro entry hentry
    obtain ⟨t, -, htype⟩ := hrecorded entry hentry
    rw [htype]
    exact Option.some_ne_none t
  rw [createExample, houtput]
  rw [ExampleTypeValidator.processExample, not_none_of_typed htyped]
  rw [hlater, if_neg Bool.false_ne_true, if_pos hkeys, hvalid]

/-- What a call does: nothing, stop halfway, take the first example, or take another one. -/
theorem createExample_cases (kind : ExampleKind E) (argument : Argument E) (collection : ExampleCollection E) :
    (∃ e, createExample kind argument collection = (.error e, collection)) ∨
    StopsHalfway kind argument collection ∨
    (∃ value fieldTypes, argument = .given value ∧ collection.typeValidator.isFirstExample = true ∧
      (∀ entry ∈ kind.exampleDict value, typeOf entry.2 ≠ none) ∧
      (∀ key, (fieldTypes.lookup key).map some =
        (((kind.exampleDict value).lookup key).map typeOf).or ((collection.typeValidator.fieldTypes.lookup key).map some)) ∧
      createExample kind argument collection = (.ok (), ⟨collection.examples ++ [value], ⟨fieldTypes, false⟩⟩)) ∨
    ∃ value, argument = .given value ∧ collection.typeValidator.isFirstExample = false ∧
      (∀ key, (collection.typeValidator.fieldTypes.lookup key).map some = ((kind.exampleDict value).lookup key).map typeOf) ∧
      createExample kind argument collection = (.ok (), ⟨collection.examples ++ [value], collection.typeValidator⟩) := by
  cases argument with
  | other typeName => exact Or.inl ⟨_, rfl⟩
  | given value =>
    cases houtput : kind.validateOutput collection.examples value with
    | error e =>
      refine Or.inl ⟨e, ?_⟩
      rw [createExample, houtput]
    | ok _ =>
      cases hfind : (kind.exampleDict value).find? (fun entry => isNone entry.2) with
      | some entry =>
        refine Or.inl ⟨.noneValue (collection.examples.length + 1) entry.1, ?_⟩
        rw [createExample, houtput]
        rw [ExampleTypeValidator.processExample, hfind]
      | none =>
        cases hfirst : collection.typeValidator.isFirstExample with
        | true =>
          by_cases htyped : ∀ entry ∈ kind.exampleDict value, typeOf entry.2 ≠ none
          · obtain ⟨fieldTypes, hcall, hlookup⟩ := createExample_first hfirst houtput htyped
            exact Or.inr (Or.inr (Or.inl ⟨value, fieldTypes, rfl, rfl, htyped, hlookup, hcall⟩))
          · have huntyped : ∃ entry ∈ kind.exampleDict value, typeOf entry.2 = none := by simpa using htyped
            obtain ⟨entry, hentry, hentryNone⟩ := huntyped
            cases hdict : kind.exampleDict value with
            | nil =>
              rw [hdict] at hentry
              cases hentry
            | cons first rest =>
              rw [hdict] at hentry hfind
              cases hinfer : inferField first.1 first.2 with
              | error e =>
                -- nothing was written before the first field
                have hloop : establish (first :: rest) collection.typeValidator.fieldTypes =
                    (.error e, collection.typeValidator.fieldTypes) := by
                  rw [establish, hinfer]
                refine Or.inl ⟨e, ?_⟩
                rw [createExample, houtput]
                rw [ExampleTypeValidator.processExample, hdict, hfind]
                rw [if_pos hfirst, hloop]
              | ok t =>
                have hfirstType : typeOf first.2 = some t := inferField_eq_ok.mp hinfer
                have hrest : entry ∈ rest := by
                  rcases List.mem_cons.mp hentry with rfl | hrest
                  · rw [hfirstType] at hentryNone
                    cases hentryNone
                  · exact hrest
                exact Or.inr (Or.inl ⟨value, first, rest, rfl, hfirst, houtput, hdict, by simpa using hfind,
                  by simp [hfirstType], entry, hrest, hentryNone⟩)
        | false =>
          by_cases hlookup : ∀ key, (collection.typeValidator.fieldTypes.lookup key).map some =
              ((kind.exampleDict value).lookup key).map typeOf
          · exact Or.inr (Or.inr (Or.inr ⟨value, rfl, rfl, hlookup, createExample_later hfirst houtput hlookup⟩))
          · refine Or.inl ?_
            rw [createExample, houtput]
            rw [ExampleTypeValidator.processExample, hfind]
            rw [hfirst, if_neg Bool.false_ne_true]
            by_cases hkeys : sameKeys (collection.typeValidator.fieldTypes.map Prod.fst)
                ((kind.exampleDict value).map Prod.fst) = true
            · rw [if_pos hkeys]
              cases hvalid : (kind.exampleDict value).forM
                  (validateField (collection.examples.length + 1) collection.typeValidator.fieldTypes) with
              | error e => exact ⟨e, rfl⟩
              | ok _ => exact absurd (lookup_of_valid hkeys hvalid) hlookup
            · rw [if_neg hkeys]
              exact ⟨_, rfl⟩

/-! ## Sequences of calls -/

/-- What holds as long as no call stops halfway. -/
structure Sound (kind : ExampleKind E) (collection : ExampleCollection E) : Prop where
  untouched : collection.typeValidator.isFirstExample = true → collection.examples = [] ∧ collection.typeValidator.fieldTypes = []
  records : Records kind collection

theorem sound_new (kind : ExampleKind E) : Sound kind .new where
  untouched _ := ⟨rfl, rfl⟩
  records _ hvalue := absurd hvalue List.not_mem_nil

/-- A call that leaves no trace when it raises keeps the collection sound. -/
theorem sound_createExample
    (h : Sound kind collection)
    (hforgotten : (createExample kind argument collection).1 ≠ .ok () → (createExample kind argument collection).2 = collection) :
    Sound kind (createExample kind argument collection).2 := by
  rcases createExample_cases kind argument collection with ⟨e, hcall⟩ | hhalfway |
      ⟨value, fieldTypes, -, hfirst, -, hlookup, hcall⟩ | ⟨value, -, hlater, hlookup, hcall⟩
  · rw [hcall]
    exact h
  · obtain ⟨e, fieldTypes, -, hcall⟩ := createExample_of_stopsHalfway hhalfway
    rw [hforgotten (by rw [hcall]; nofun)]
    exact h
  · rw [hcall]
    obtain ⟨hexamples, hfieldTypes⟩ := h.untouched hfirst
    refine ⟨nofun, fun value' hvalue' key => ?_⟩
    rw [hexamples] at hvalue'
    rw [List.mem_singleton.mp hvalue']
    refine (hlookup key).trans ?_
    rw [hfieldTypes]
    exact Option.or_none
  · rw [hcall]
    refine ⟨fun hfirst => ?_, fun value' hvalue' key => ?_⟩
    · rw [show collection.typeValidator.isFirstExample = true from hfirst] at hlater
      cases hlater
    · rcases List.mem_append.mp hvalue' with hmem | hmem
      · exact h.records value' hmem key
      · rw [List.mem_singleton.mp hmem]
        exact hlookup key

/-- A call that raises leaves no trace in a sound collection, unless it stops halfway. -/
theorem forgotten_iff
    (h : Sound kind collection) :
    ((createExample kind argument collection).1 ≠ .ok () → (createExample kind argument collection).2 = collection) ↔
      ¬ StopsHalfway kind argument collection := by
  constructor
  · intro hforgotten hhalfway
    obtain ⟨e, fieldTypes, hne, hcall⟩ := createExample_of_stopsHalfway hhalfway
    have hkept := hforgotten (by rw [hcall]; nofun)
    rw [hcall] at hkept
    have hwritten : fieldTypes = collection.typeValidator.fieldTypes := by rw [← hkept]
    obtain ⟨-, -, -, -, hfirst, -⟩ := hhalfway
    exact hne (hwritten.trans (h.untouched hfirst).2)
  · intro hhalfway hraised
    rcases createExample_cases kind argument collection with ⟨e, hcall⟩ | hstopped |
        ⟨value, fieldTypes, -, -, -, -, hcall⟩ | ⟨value, -, -, -, hcall⟩
    · rw [hcall]
    · exact absurd hstopped hhalfway
    · exact absurd (congrArg Prod.fst hcall) hraised
    · exact absurd (congrArg Prod.fst hcall) hraised

theorem run_append (kind : ExampleKind E) (calls calls' : List (Argument E)) :
    run kind (calls ++ calls') =
      calls'.foldl (fun collection argument => (createExample kind argument collection).2) (run kind calls) :=
  List.foldl_append

theorem run_concat (kind : ExampleKind E) (calls : List (Argument E)) (argument : Argument E) :
    run kind (calls ++ [argument]) = (createExample kind argument (run kind calls)).2 :=
  run_append kind calls [argument]

/-- If no call that raises has left a trace, the collection is sound. -/
theorem sound_run {calls : List (Argument E)}
    (h : ∀ before argument after, calls = before ++ argument :: after →
      (createExample kind argument (run kind before)).1 ≠ .ok () →
        (createExample kind argument (run kind before)).2 = run kind before) : Sound kind (run kind calls) := by
  induction calls using List.reverseRecOn with
  | nil => exact sound_new kind
  | append_singleton calls argument ih =>
    rw [run_concat]
    refine sound_createExample (ih fun before argument' after hcalls => ?_) (h calls argument [] rfl)
    refine h before argument' (after ++ [argument]) ?_
    rw [hcalls, List.append_assoc]
    rfl

/-- **Calls are atomic exactly when none stops halfway.** -/
theorem atomic_iff_stopsHalfway (kind : ExampleKind E) (calls : List (Argument E)) :
    Atomic kind calls ↔
      ∀ before argument after, calls = before ++ argument :: after → ¬ StopsHalfway kind argument (run kind before) := by
  -- a prefix of the calls is sound as soon as no call before its end leaves a trace
  have hsound : ∀ {before after : List (Argument E)}, calls = before ++ after →
      (∀ before' argument after', before = before' ++ argument :: after' →
        (createExample kind argument (run kind before')).1 ≠ .ok () →
          (createExample kind argument (run kind before')).2 = run kind before') → Sound kind (run kind before) :=
    fun _ h => sound_run h
  constructor
  · intro hatomic before argument after hcalls
    have hkept : ∀ before argument after, calls = before ++ argument :: after →
        (createExample kind argument (run kind before)).1 ≠ .ok () →
          (createExample kind argument (run kind before)).2 = run kind before := by
      intro before argument after hcalls hraised
      have hforgotten := hatomic.forgotten before argument after hcalls hraised []
      rw [run_concat, List.append_nil] at hforgotten
      exact hforgotten
    refine (forgotten_iff (hsound hcalls fun before' argument' after' hbefore => ?_)).mp (hkept before argument after hcalls)
    refine hkept before' argument' (after' ++ argument :: after) ?_
    rw [hcalls, hbefore, List.append_assoc]
    rfl
  · intro hhalfway
    have hall : ∀ before after, calls = before ++ after → Sound kind (run kind before) := by
      intro before
      induction before using List.reverseRecOn with
      | nil => exact fun _ _ => sound_new kind
      | append_singleton before argument ih =>
        intro after hcalls
        have hcalls : calls = before ++ argument :: after := by rw [hcalls, List.append_assoc]; rfl
        rw [run_concat]
        have hbefore := ih (argument :: after) hcalls
        exact sound_createExample hbefore ((forgotten_iff hbefore).mpr (hhalfway before argument after hcalls))
    refine ⟨fun before argument after hcalls hraised later => ?_, fun before after hcalls => (hall before after hcalls).records⟩
    have hkept := (forgotten_iff (hall before _ hcalls)).mpr (hhalfway before argument after hcalls) hraised
    rw [run_append, run_append, List.foldl_cons, hkept]

/-- **Example collections are atomic** exactly as long as no first example stops halfway through its fields. -/
theorem createExample_atomic_iff (classes : ModelClasses M) (mapCalls : List (Argument (MapExample M)))
    (predicateCalls : List (Argument PredicateExample)) (joinCalls : List (Argument JoinExample)) :
    (Atomic (mapExamples classes) mapCalls ↔ ∀ before argument after, mapCalls = before ++ argument :: after →
      ¬ StopsHalfway (mapExamples classes) argument (run (mapExamples classes) before)) ∧
    (Atomic predicateExamples predicateCalls ↔ ∀ before argument after, predicateCalls = before ++ argument :: after →
      ¬ StopsHalfway predicateExamples argument (run predicateExamples before)) ∧
    (Atomic joinExamples joinCalls ↔ ∀ before argument after, joinCalls = before ++ argument :: after →
      ¬ StopsHalfway joinExamples argument (run joinExamples before)) :=
  ⟨atomic_iff_stopsHalfway _ mapCalls, atomic_iff_stopsHalfway _ predicateCalls, atomic_iff_stopsHalfway _ joinCalls⟩

/-- A list without elements has no type. -/
def untagged : Argument PredicateExample := .given ⟨⟨[("title", .str "Song"), ("tags", .list [])], rfl⟩, true⟩

def good : Argument PredicateExample := .given ⟨⟨[("text", .str "good")], rfl⟩, true⟩

def hasTitle (calls : List (Argument PredicateExample)) : Bool :=
  ((run predicateExamples calls).typeValidator.validateAgainstColumnTypes [("title", .stringType)]).toOption.isSome

/-- The title of an example that was refused passes a type check, and keeps a second example from being taken. -/
theorem untagged_not_forgotten : ¬ Atomic predicateExamples [untagged] ∧
    hasTitle [untagged] = true ∧ hasTitle [] = false ∧
    (run predicateExamples [untagged, good, good]).examples.length = 1 ∧
    (run predicateExamples [good, good]).examples.length = 2 := by
  refine ⟨fun hatomic => ?_, by decide +kernel, by decide +kernel, by decide +kernel, by decide +kernel⟩
  have hforgotten := hatomic.forgotten [] untagged [] rfl nofun []
  have hwritten : hasTitle [untagged] = true := by decide +kernel
  rw [hasTitle, show run predicateExamples [untagged] = run predicateExamples [] from hforgotten] at hwritten
  exact absurd hwritten (by decide +kernel)

end SemanticExamples

end Fenic
