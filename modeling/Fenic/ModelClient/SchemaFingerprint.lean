import Fenic.ModelClient.RequestKey

/-!
# `ModelClient.SchemaFingerprint` — which schemas have one fingerprint

Two JSON values are compared path by path. `schema_fingerprint` sees every path but those through a key named
like an annotation (`fingerprint_eq_iff`). Such a key is an annotation only at a schema position: under
`properties` it names a property, under `default` or `enum` it is data. So the fingerprint tells two schemas
apart exactly when they differ on the rest, or agree on the keys that only look like annotations
(`fingerprint_faithful_iff`).
-/

namespace Fenic

namespace ModelClient

/-! ## JSON values by path -/

inductive PathStep where
  | key (name : String)
  | index (i : Nat)
  deriving DecidableEq

/-- What a JSON value shows without its parts. -/
inductive Head where
  | scalar (text : String)
  | list
  | dict
  deriving DecidableEq

namespace JsonSchema

def head : JsonSchema → Head
  | .scalar text => .scalar text
  | .list _ => .list
  | .dict _ => .dict

def child? : JsonSchema → PathStep → Option JsonSchema
  | .list items, .index i => items[i]?
  | .dict entries, .key name => entries.lookup name
  | _, _ => none

/-- What is seen at the end of a path, if the path leads anywhere. -/
def headAt : JsonSchema → List PathStep → Option Head
  | schema, [] => some schema.head
  | schema, step :: path => (schema.child? step).bind (fun child => child.headAt path)

theorem headAt_nil (schema : JsonSchema) : schema.headAt [] = some schema.head := rfl

theorem headAt_cons (schema : JsonSchema) (step : PathStep) (path : List PathStep) :
    schema.headAt (step :: path) = (schema.child? step).bind (fun child => child.headAt path) := rfl

mutual

/-- The keys of a dict are distinct. -/
def WellFormed : JsonSchema → Prop
  | .scalar _ => True
  | .list items => ItemsWellFormed items
  | .dict entries => (entries.map Prod.fst).Nodup ∧ EntriesWellFormed entries

def ItemsWellFormed : List JsonSchema → Prop
  | [] => True
  | item :: items => item.WellFormed ∧ ItemsWellFormed items

def EntriesWellFormed : List (String × JsonSchema) → Prop
  | [] => True
  | (_, value) :: entries => value.WellFormed ∧ EntriesWellFormed entries

end

theorem ItemsWellFormed.mem {items : List JsonSchema} (h : ItemsWellFormed items) {item : JsonSchema}
    (hitem : item ∈ items) : item.WellFormed := by
  induction items with
  | nil => cases hitem
  | cons first items ih =>
    rcases List.mem_cons.mp hitem with rfl | hitem
    · exact h.1
    · exact ih h.2 hitem

variable {entries : List (String × JsonSchema)} {key : String} {value : JsonSchema}

theorem EntriesWellFormed.mem (h : EntriesWellFormed entries)
    (hmem : (key, value) ∈ entries) : value.WellFormed := by
  induction entries with
  | nil => cases hmem
  | cons first entries ih =>
    rcases List.mem_cons.mp hmem with rfl | hmem
    · exact h.1
    · exact ih h.2 hmem

theorem lookup_cons_ne {name : String} (h : key ≠ name) (value : JsonSchema)
    (entries : List (String × JsonSchema)) : ((name, value) :: entries).lookup key = entries.lookup key := by
  rw [List.lookup_cons, beq_eq_false_iff_ne.mpr h]

theorem mem_of_lookup
    (h : entries.lookup key = some value) : (key, value) ∈ entries := by
  induction entries with
  | nil => cases h
  | cons entry entries ih =>
    obtain ⟨name, first⟩ := entry
    by_cases hname : key = name
    · subst hname
      rw [List.lookup_cons_self] at h
      rw [← Option.some.inj h]
      exact List.mem_cons_self
    · rw [lookup_cons_ne hname] at h
      exact List.mem_cons_of_mem _ (ih h)

theorem lookup_of_mem (hkeys : (entries.map Prod.fst).Nodup)
    (h : (key, value) ∈ entries) : entries.lookup key = some value := by
  induction entries with
  | nil => cases h
  | cons entry entries ih =>
    obtain ⟨name, first⟩ := entry
    obtain ⟨hname, hrest⟩ := List.nodup_cons.mp hkeys
    rcases List.mem_cons.mp h with heq | h
    · rw [Prod.mk.injEq] at heq
      rw [heq.1, heq.2, List.lookup_cons_self]
    · have hne : key ≠ name := fun heq => hname (List.mem_map.mpr ⟨(key, value), h, heq⟩)
      rw [lookup_cons_ne hne]
      exact ih hrest h

variable {schema : JsonSchema}

theorem WellFormed.child {child : JsonSchema} {step : PathStep} (h : schema.WellFormed)
    (hchild : schema.child? step = some child) : child.WellFormed := by
  cases schema with
  | scalar text => cases step <;> cases hchild
  | list items =>
    cases step with
    | key name => cases hchild
    | index i => exact ItemsWellFormed.mem h (List.mem_of_getElem? hchild)
  | dict entries =>
    cases step with
    | index i => cases hchild
    | key name => exact EntriesWellFormed.mem h.2 (mem_of_lookup hchild)

/-- A child is smaller. -/
theorem sizeOf_child {child : JsonSchema} {step : PathStep} (hchild : schema.child? step = some child) :
    sizeOf child < sizeOf schema := by
  cases schema with
  | scalar text => cases step <;> cases hchild
  | list items =>
    cases step with
    | key name => cases hchild
    | index i =>
      have hlt := List.sizeOf_lt_of_mem (List.mem_of_getElem? hchild)
      rw [list.sizeOf_spec]
      omega
  | dict entries =>
    cases step with
    | index i => cases hchild
    | key name =>
      have hlt := List.sizeOf_lt_of_mem (mem_of_lookup hchild)
      rw [Prod.mk.sizeOf_spec] at hlt
      rw [dict.sizeOf_spec]
      omega

/-! ## The text of a value -/

mutual

/-- The value with its keys in order. -/
def sortKeys : JsonSchema → JsonSchema
  | .scalar text => .scalar text
  | .list items => .list (sortItems items)
  | .dict entries => .dict ((sortEntries entries).insertionSort (fun e e' => e.1 ≤ e'.1))

def sortItems : List JsonSchema → List JsonSchema
  | [] => []
  | item :: items => item.sortKeys :: sortItems items

def sortEntries : List (String × JsonSchema) → List (String × JsonSchema)
  | [] => []
  | (key, value) :: entries => (key, value.sortKeys) :: sortEntries entries

end

mutual

/-- The text of a value with the keys as they stand. -/
def plainTokens : JsonSchema → List JsonToken
  | .scalar text => [.scalar text]
  | .list items => .openList :: (plainItems items ++ [.close])
  | .dict entries => .openDict :: (plainEntries entries ++ [.close])

def plainItems : List JsonSchema → List JsonToken
  | [] => []
  | item :: items => item.plainTokens ++ plainItems items

def plainEntries : List (String × JsonSchema) → List JsonToken
  | [] => []
  | (key, value) :: entries => .key key :: (value.plainTokens ++ plainEntries entries)

end

theorem plainEntries_eq (entries : List (String × JsonSchema)) :
    plainEntries entries = (entries.map (fun e => (e.1, e.2.plainTokens))).flatMap (fun e => .key e.1 :: e.2) := by
  induction entries with
  | nil => rfl
  | cons entry entries ih =>
    rw [plainEntries, ih]
    rfl

theorem map_sort_values {α β : Type} (f : α → β) (entries : List (String × α)) :
    (entries.insertionSort (fun e e' => e.1 ≤ e'.1)).map (fun e => (e.1, f e.2)) =
      (entries.map (fun e => (e.1, f e.2))).insertionSort (fun e e' => e.1 ≤ e'.1) :=
  List.map_insertionSort _ _ _ _ fun _ _ _ _ => Iff.rfl

mutual

theorem tokens_eq (schema : JsonSchema) : schema.tokens = schema.sortKeys.plainTokens := by
  cases schema with
  | scalar text => rfl
  | list items => rw [tokens, sortKeys, plainTokens, itemTokens_eq items]
  | dict entries =>
    rw [tokens, sortKeys, plainTokens, plainEntries_eq, entryTokens_eq entries]
    -- sorting looks at the keys only
    rw [map_sort_values]

theorem itemTokens_eq (items : List JsonSchema) : itemTokens items = plainItems (sortItems items) := by
  cases items with
  | nil => rfl
  | cons item items => rw [itemTokens, sortItems, plainItems, tokens_eq item, itemTokens_eq items]

theorem entryTokens_eq (entries : List (String × JsonSchema)) :
    entryTokens entries = (sortEntries entries).map (fun e => (e.1, e.2.plainTokens)) := by
  cases entries with
  | nil => rfl
  | cons entry entries =>
    obtain ⟨key, value⟩ := entry
    rw [entryTokens, sortEntries, List.map_cons, tokens_eq value, entryTokens_eq entries]

end

/-- The text of a value does not begin with a closing bracket or a key. -/
theorem plainTokens_head (schema : JsonSchema) {token : JsonToken} {rest : List JsonToken}
    (h : schema.plainTokens = token :: rest) : token ≠ .close ∧ ∀ name, token ≠ .key name := by
  cases schema with
  | scalar _ | list _ | dict _ =>
    obtain ⟨rfl, -⟩ := List.cons.inj h
    exact ⟨nofun, nofun⟩

theorem plainTokens_ne_close (schema : JsonSchema) {rest rest' : List JsonToken} :
    schema.plainTokens ++ rest ≠ .close :: rest' := by
  intro h
  cases htokens : schema.plainTokens with
  | nil => cases schema <;> cases htokens
  | cons token tokens =>
    rw [htokens, List.cons_append] at h
    exact (plainTokens_head schema htokens).1 (List.cons.inj h).1

mutual

/-- The text of a value tells where the value ends. -/
theorem plainTokens_inj (schema schema' : JsonSchema) {rest rest' : List JsonToken}
    (h : schema.plainTokens ++ rest = schema'.plainTokens ++ rest') : schema = schema' ∧ rest = rest' := by
  cases schema with
  | scalar text =>
    cases schema' with
    | scalar text' =>
      obtain ⟨htext, hrest⟩ := List.cons.inj h
      exact ⟨by rw [JsonToken.scalar.inj htext], hrest⟩
    | list items' => cases (List.cons.inj h).1
    | dict entries' => cases (List.cons.inj h).1
  | list items =>
    cases schema' with
    | scalar text' => cases (List.cons.inj h).1
    | list items' =>
      rw [plainTokens, plainTokens, List.cons_append, List.cons_append, List.append_assoc, List.append_assoc] at h
      obtain ⟨hitems, hrest⟩ := plainItems_inj items items' (List.cons.inj h).2
      exact ⟨by rw [hitems], hrest⟩
    | dict entries' => cases (List.cons.inj h).1
  | dict entries =>
    cases schema' with
    | scalar text' => cases (List.cons.inj h).1
    | list items' => cases (List.cons.inj h).1
    | dict entries' =>
      rw [plainTokens, plainTokens, List.cons_append, List.cons_append, List.append_assoc, List.append_assoc] at h
      obtain ⟨hentries, hrest⟩ := plainEntries_inj entries entries' (List.cons.inj h).2
      exact ⟨by rw [hentries], hrest⟩

theorem plainItems_inj (items items' : List JsonSchema) {rest rest' : List JsonToken}
    (h : plainItems items ++ (.close :: rest) = plainItems items' ++ (.close :: rest')) :
    items = items' ∧ rest = rest' := by
  cases items with
  | nil =>
    cases items' with
    | nil => exact ⟨rfl, (List.cons.inj h).2⟩
    | cons item' items' =>
      rw [plainItems.eq_def (item' :: items')] at h
      simp only [List.append_assoc] at h
      exact absurd h.symm (plainTokens_ne_close item')
  | cons item items =>
    cases items' with
    | nil =>
      rw [plainItems.eq_def (item :: items)] at h
      simp only [List.append_assoc] at h
      exact absurd h (plainTokens_ne_close item)
    | cons item' items' =>
      rw [plainItems, plainItems, List.append_assoc, List.append_assoc] at h
      obtain ⟨hitem, hitems⟩ := plainTokens_inj item item' h
      obtain ⟨hitems, hrest⟩ := plainItems_inj items items' hitems
      exact ⟨by rw [hitem, hitems], hrest⟩

theorem plainEntries_inj (entries entries' : List (String × JsonSchema)) {rest rest' : List JsonToken}
    (h : plainEntries entries ++ (.close :: rest) = plainEntries entries' ++ (.close :: rest')) :
    entries = entries' ∧ rest = rest' := by
  cases entries with
  | nil =>
    cases entries' with
    | nil => exact ⟨rfl, (List.cons.inj h).2⟩
    | cons entry' entries' => cases (List.cons.inj h).1
  | cons entry entries =>
    cases entries' with
    | nil => cases (List.cons.inj h).1
    | cons entry' entries' =>
      obtain ⟨key, value⟩ := entry
      obtain ⟨key', value'⟩ := entry'
      rw [plainEntries, plainEntries, List.cons_append, List.cons_append, List.append_assoc, List.append_assoc] at h
      obtain ⟨hkey, hvalues⟩ := List.cons.inj h
      obtain ⟨hvalue, hentries⟩ := plainTokens_inj value value' hvalues
      obtain ⟨hentries, hrest⟩ := plainEntries_inj entries entries' hentries
      exact ⟨by rw [JsonToken.key.inj hkey, hvalue, hentries], hrest⟩

end

/-- Two values have one text exactly when they are equal up to the order of their keys. -/
theorem tokens_eq_iff (schema schema' : JsonSchema) :
    schema.tokens = schema'.tokens ↔ schema.sortKeys = schema'.sortKeys := by
  rw [tokens_eq, tokens_eq]
  constructor
  · intro h
    have happend : schema.sortKeys.plainTokens ++ [] = schema'.sortKeys.plainTokens ++ [] := by rw [h]
    exact (plainTokens_inj schema.sortKeys schema'.sortKeys happend).1
  · intro h
    rw [h]

/-! ## Equal up to the order of keys, path by path -/

theorem lookup_eq_some_iff (hkeys : (entries.map Prod.fst).Nodup)
    : entries.lookup key = some value ↔ (key, value) ∈ entries :=
  ⟨mem_of_lookup, lookup_of_mem hkeys⟩

theorem sortItems_eq (items : List JsonSchema) : sortItems items = items.map sortKeys := by
  induction items with
  | nil => rfl
  | cons item items ih => rw [sortItems, ih, List.map_cons]

theorem sortEntries_eq (entries : List (String × JsonSchema)) :
    sortEntries entries = entries.map (fun e => (e.1, e.2.sortKeys)) := by
  induction entries with
  | nil => rfl
  | cons entry entries ih => rw [sortEntries, ih, List.map_cons]

theorem sortEntries_keys (entries : List (String × JsonSchema)) :
    (sortEntries entries).map Prod.fst = entries.map Prod.fst := by
  rw [sortEntries_eq, List.map_map]
  rfl

theorem sorted_perm (entries : List (String × JsonSchema)) :
    ((sortEntries entries).insertionSort (fun e e' => e.1 ≤ e'.1)).Perm (sortEntries entries) :=
  List.perm_insertionSort _ _

theorem sorted_keys_nodup (hkeys : (entries.map Prod.fst).Nodup) :
    (((sortEntries entries).insertionSort (fun e e' => e.1 ≤ e'.1)).map Prod.fst).Nodup := by
  rw [((sorted_perm entries).map Prod.fst).nodup_iff, sortEntries_keys]
  exact hkeys

theorem lookup_sortEntries (entries : List (String × JsonSchema)) (key : String) :
    (sortEntries entries).lookup key = (entries.lookup key).map sortKeys := by
  induction entries with
  | nil => rfl
  | cons entry entries ih =>
    obtain ⟨name, value⟩ := entry
    rw [sortEntries]
    by_cases hname : key = name
    · subst hname
      rw [List.lookup_cons_self, List.lookup_cons_self, Option.map_some]
    · rw [lookup_cons_ne hname, lookup_cons_ne hname, ih]

theorem head_sortKeys (schema : JsonSchema) : schema.sortKeys.head = schema.head := by
  cases schema <;> rfl

theorem child_sortKeys (hschema : schema.WellFormed) (step : PathStep) :
    schema.sortKeys.child? step = (schema.child? step).map sortKeys := by
  cases schema with
  | scalar text => cases step <;> rfl
  | list items =>
    cases step with
    | key name => rfl
    | index i =>
      have hitems : (sortItems items)[i]? = items[i]?.map sortKeys := by
        rw [sortItems_eq, List.getElem?_map]
      exact hitems
  | dict entries =>
    cases step with
    | index i => rfl
    | key name =>
      have hkeys : (entries.map Prod.fst).Nodup := hschema.1
      have hsorted : ((sortEntries entries).insertionSort (fun e e' => e.1 ≤ e'.1)).lookup name =
          (sortEntries entries).lookup name := by
        apply Option.ext
        intro value
        rw [lookup_eq_some_iff (sorted_keys_nodup hkeys), lookup_eq_some_iff (by rw [sortEntries_keys]; exact hkeys)]
        exact (sorted_perm entries).mem_iff
      exact hsorted.trans (lookup_sortEntries entries name)

/-- The order of the keys is not seen along paths. -/
theorem headAt_sortKeys (hschema : schema.WellFormed) (path : List PathStep) :
    schema.sortKeys.headAt path = schema.headAt path := by
  induction path generalizing schema with
  | nil => rw [headAt_nil, headAt_nil, head_sortKeys]
  | cons step path ih =>
    rw [headAt_cons, headAt_cons, child_sortKeys hschema]
    cases hchild : schema.child? step with
    | none => rfl
    | some child => exact ih (hschema.child hchild)

/-- Distinct keys have one order only. -/
theorem sort_eq_of_perm {entries' : List (String × JsonSchema)} (hkeys : (entries.map Prod.fst).Nodup)
    (hperm : entries.Perm entries') :
    entries.insertionSort (fun e e' => e.1 ≤ e'.1) = entries'.insertionSort (fun e e' => e.1 ≤ e'.1) := by
  have hsorted : ∀ es : List (String × JsonSchema),
      (es.insertionSort (fun e e' => e.1 ≤ e'.1)).Pairwise (fun e e' => e.1 ≤ e'.1) :=
    fun es => List.pairwise_insertionSort _ es
  have hboth : (entries.insertionSort (fun e e' => e.1 ≤ e'.1)).Perm (entries'.insertionSort (fun e e' => e.1 ≤ e'.1)) :=
    (List.perm_insertionSort _ _).trans (hperm.trans (List.perm_insertionSort _ _).symm)
  refine List.Perm.eq_of_pairwise (fun e e' he he' hle hle' => ?_) (hsorted entries) (hsorted entries') hboth
  have hmem : e ∈ entries := (List.mem_insertionSort _).mp he
  have hmem' : e' ∈ entries := hperm.mem_iff.mpr ((List.mem_insertionSort _).mp he')
  exact List.inj_on_of_nodup_map hkeys hmem hmem' (String.le_antisymm hle hle')

/-- Values with equal heads and equal children are equal up to the order of their keys. -/
theorem sortKeys_eq_of_children {schema' : JsonSchema} (hschema : schema.WellFormed)
    (hschema' : schema'.WellFormed) (hhead : schema.head = schema'.head)
    (hchildren : ∀ step, (schema.child? step).map sortKeys = (schema'.child? step).map sortKeys) :
    schema.sortKeys = schema'.sortKeys := by
  cases schema with
  | scalar text =>
    cases schema' with
    | scalar text' => rw [Head.scalar.inj hhead]
    | list items' => cases hhead
    | dict entries' => cases hhead
  | list items =>
    cases schema' with
    | scalar text' => cases hhead
    | dict entries' => cases hhead
    | list items' =>
      have hitems : items.map sortKeys = items'.map sortKeys := by
        apply List.ext_getElem?
        intro i
        rw [List.getElem?_map, List.getElem?_map]
        exact hchildren (.index i)
      rw [sortKeys, sortKeys, sortItems_eq, sortItems_eq, hitems]
  | dict entries =>
    cases schema' with
    | scalar text' => cases hhead
    | list items' => cases hhead
    | dict entries' =>
      have hkeys : ((sortEntries entries).map Prod.fst).Nodup := by
        rw [sortEntries_keys]
        exact hschema.1
      have hkeys' : ((sortEntries entries').map Prod.fst).Nodup := by
        rw [sortEntries_keys]
        exact hschema'.1
      have hmem : ∀ e, e ∈ sortEntries entries ↔ e ∈ sortEntries entries' := by
        rintro ⟨key, value⟩
        rw [← lookup_eq_some_iff hkeys, ← lookup_eq_some_iff hkeys', lookup_sortEntries, lookup_sortEntries]
        have hvalue : (entries.lookup key).map sortKeys = (entries'.lookup key).map sortKeys := hchildren (.key key)
        rw [hvalue]
      have hperm : (sortEntries entries).Perm (sortEntries entries') :=
        (List.perm_ext_iff_of_nodup (List.Nodup.of_map _ hkeys) (List.Nodup.of_map _ hkeys')).mpr hmem
      rw [sortKeys, sortKeys, sort_eq_of_perm hkeys hperm]

/-- Values that no path tells apart are equal up to the order of their keys. -/
theorem sortKeys_eq_of_headAt {schema schema' : JsonSchema} (hschema : schema.WellFormed)
    (hschema' : schema'.WellFormed) (h : ∀ path, schema.headAt path = schema'.headAt path) :
    schema.sortKeys = schema'.sortKeys := by
  have hhead : schema.head = schema'.head := Option.some.inj (h [])
  refine sortKeys_eq_of_children hschema hschema' hhead fun step => ?_
  have hstep := fun path => h (step :: path)
  simp only [headAt_cons] at hstep
  cases hchild : schema.child? step with
  | none =>
    cases hchild' : schema'.child? step with
    | none => rfl
    | some child' =>
      rw [hchild, hchild'] at hstep
      cases hstep []
  | some child =>
    cases hchild' : schema'.child? step with
    | none =>
      rw [hchild, hchild'] at hstep
      cases hstep []
    | some child' =>
      rw [hchild, hchild'] at hstep
      have hsmaller := sizeOf_child hchild
      rw [Option.map_some, Option.map_some,
        sortKeys_eq_of_headAt (hschema.child hchild) (hschema'.child hchild') hstep]
termination_by sizeOf schema

/-- Two values have one text exactly when no path tells them apart. -/
theorem tokens_eq_iff_headAt {schema' : JsonSchema} (hschema : schema.WellFormed)
    (hschema' : schema'.WellFormed) :
    schema.tokens = schema'.tokens ↔ ∀ path, schema.headAt path = schema'.headAt path := by
  rw [tokens_eq_iff]
  constructor
  · intro h path
    rw [← headAt_sortKeys hschema, ← headAt_sortKeys hschema', h]
  · exact sortKeys_eq_of_headAt hschema hschema'

/-! ## Positions -/

end JsonSchema

/-- What a place in a JSON schema holds: a schema (or a list of them), schemas by name, or data. -/
inductive Position where
  | schema
  | named
  | data
  deriving DecidableEq

/-- The keywords of JSON Schema that hold a schema or a list of schemas. -/
def schemaKeywords : List String :=
  ["items", "prefixItems", "additionalItems", "unevaluatedItems", "contains", "additionalProperties",
    "unevaluatedProperties", "propertyNames", "not", "if", "then", "else", "allOf", "anyOf", "oneOf", "contentSchema"]

/-- The keywords of JSON Schema that hold schemas by name. -/
def namedKeywords : List String :=
  ["properties", "patternProperties", "$defs", "definitions", "dependentSchemas", "dependencies"]

def Position.next : Position → PathStep → Position
  | .schema, .key name =>
    if name ∈ schemaKeywords then .schema else if name ∈ namedKeywords then .named else .data
  | .schema, .index _ => .schema
  | .named, .key _ => .schema
  | .named, .index _ => .data
  | .data, _ => .data

/-- The key is named like an annotation. -/
def PathStep.AnnotationName : PathStep → Prop
  | .key name => name ∈ ["title", "description", "$id"]
  | .index _ => False

instance (step : PathStep) : Decidable step.AnnotationName :=
  match step with
  | .key name => inferInstanceAs (Decidable (name ∈ ["title", "description", "$id"]))
  | .index _ => inferInstanceAs (Decidable False)

theorem PathStep.index_not_annotationName (i : Nat) : ¬ (PathStep.index i).AnnotationName :=
  fun h => h

/-- The path goes through a key named like an annotation. -/
def ThroughName (path : List PathStep) : Prop :=
  ∃ step ∈ path, step.AnnotationName

/-- The path goes through an annotation: a key of that name at a schema position. -/
def ThroughAnnotation : Position → List PathStep → Prop
  | _, [] => False
  | position, step :: path =>
    (position = .schema ∧ step.AnnotationName) ∨ ThroughAnnotation (position.next step) path

theorem ThroughAnnotation.throughName {position : Position} {path : List PathStep}
    (h : ThroughAnnotation position path) : ThroughName path := by
  induction path generalizing position with
  | nil => exact h.elim
  | cons step path ih =>
    rcases h with h | h
    · exact ⟨step, List.mem_cons_self, h.2⟩
    · obtain ⟨step', hmem, hname⟩ := ih h
      exact ⟨step', List.mem_cons_of_mem _ hmem, hname⟩

namespace JsonSchema

/-- The schemas differ in annotations only. -/
def DifferInAnnotations (schema schema' : JsonSchema) : Prop :=
  ∀ path, ¬ ThroughAnnotation .schema path → schema.headAt path = schema'.headAt path

/-- The schemas agree on every path without a key named like an annotation. -/
def AgreeOutsideNames (schema schema' : JsonSchema) : Prop :=
  ∀ path, ¬ ThroughName path → schema.headAt path = schema'.headAt path

/-- The schemas agree on the keys that are named like annotations and are none. -/
def AgreeOnLookalikes (schema schema' : JsonSchema) : Prop :=
  ∀ path, ThroughName path → ¬ ThroughAnnotation .schema path → schema.headAt path = schema'.headAt path

theorem differInAnnotations_iff (schema schema' : JsonSchema) :
    DifferInAnnotations schema schema' ↔ AgreeOutsideNames schema schema' ∧ AgreeOnLookalikes schema schema' := by
  constructor
  · intro h
    exact ⟨fun path hpath => h path (fun hannotation => hpath hannotation.throughName), fun path _ hpath => h path hpath⟩
  · rintro ⟨houtside, hlookalikes⟩ path hpath
    by_cases hname : ThroughName path
    · exact hlookalikes path hname hpath
    · exact houtside path hname

/-! ## What the normaliser drops -/

theorem dropItems_eq (items : List JsonSchema) : dropItems items = items.map dropNonStructuralKeys := by
  induction items with
  | nil => rfl
  | cons item items ih => rw [dropItems, ih, List.map_cons]

theorem dropEntries_keys_sublist (entries : List (String × JsonSchema)) :
    ((dropEntries entries).map Prod.fst).Sublist (entries.map Prod.fst) := by
  induction entries with
  | nil => exact List.Sublist.slnil
  | cons entry entries ih =>
    obtain ⟨key, value⟩ := entry
    rw [dropEntries]
    by_cases hkey : key ∈ ["title", "description", "$id"]
    · rw [if_pos hkey]
      exact ih.cons key
    · rw [if_neg hkey]
      exact ih.cons_cons key

theorem lookup_dropEntries (entries : List (String × JsonSchema)) (name : String) :
    (dropEntries entries).lookup name =
      if name ∈ ["title", "description", "$id"] then none else (entries.lookup name).map dropNonStructuralKeys := by
  induction entries with
  | nil => split <;> rfl
  | cons entry entries ih =>
    obtain ⟨key, value⟩ := entry
    rw [dropEntries]
    by_cases hname : name = key
    · subst hname
      by_cases hkey : name ∈ ["title", "description", "$id"]
      · rw [if_pos hkey, ih]
        rw [if_pos hkey, if_pos hkey]
      · rw [if_neg hkey, if_neg hkey, List.lookup_cons_self, List.lookup_cons_self, Option.map_some]
    · rw [lookup_cons_ne hname, ← ih]
      by_cases hkey : key ∈ ["title", "description", "$id"]
      · rw [if_pos hkey]
      · rw [if_neg hkey, lookup_cons_ne hname]

mutual

theorem WellFormed.drop {schema : JsonSchema} (h : schema.WellFormed) : schema.dropNonStructuralKeys.WellFormed := by
  cases schema with
  | scalar text => exact trivial
  | list items => exact ItemsWellFormed.drop h
  | dict entries => exact ⟨h.1.sublist (dropEntries_keys_sublist entries), EntriesWellFormed.drop h.2⟩

theorem ItemsWellFormed.drop {items : List JsonSchema} (h : ItemsWellFormed items) :
    ItemsWellFormed (dropItems items) := by
  cases items with
  | nil => exact trivial
  | cons item items => exact ⟨WellFormed.drop h.1, ItemsWellFormed.drop h.2⟩

theorem EntriesWellFormed.drop {entries : List (String × JsonSchema)} (h : EntriesWellFormed entries) :
    EntriesWellFormed (dropEntries entries) := by
  cases entries with
  | nil => exact trivial
  | cons entry entries =>
    rw [dropEntries]
    split
    · exact EntriesWellFormed.drop h.2
    · exact ⟨WellFormed.drop h.1, EntriesWellFormed.drop h.2⟩

end

theorem head_drop (schema : JsonSchema) : schema.dropNonStructuralKeys.head = schema.head := by
  cases schema <;> rfl

theorem child_drop (schema : JsonSchema) (step : PathStep) :
    schema.dropNonStructuralKeys.child? step =
      if step.AnnotationName then none else (schema.child? step).map dropNonStructuralKeys := by
  cases schema with
  | scalar text => cases step <;> (split <;> rfl)
  | list items =>
    cases step with
    | key name => split <;> rfl
    | index i =>
      have hitems : (dropItems items)[i]? = items[i]?.map dropNonStructuralKeys := by
        rw [dropItems_eq, List.getElem?_map]
      exact hitems
  | dict entries =>
    cases step with
    | key name => exact lookup_dropEntries entries name
    | index i => rw [if_neg (PathStep.index_not_annotationName i)]; rfl

/-- The normaliser cuts the paths through a key named like an annotation, and no other. -/
theorem headAt_drop (schema : JsonSchema) (path : List PathStep) :
    (ThroughName path → schema.dropNonStructuralKeys.headAt path = none) ∧
      (¬ ThroughName path → schema.dropNonStructuralKeys.headAt path = schema.headAt path) := by
  induction path generalizing schema with
  | nil =>
    refine ⟨fun h => ?_, fun _ => ?_⟩
    · obtain ⟨step, hstep, -⟩ := h
      cases hstep
    · rw [headAt_nil, headAt_nil, head_drop]
  | cons step path ih =>
    rw [headAt_cons, headAt_cons, child_drop]
    by_cases hstep : step.AnnotationName
    · rw [if_pos hstep]
      exact ⟨fun _ => rfl, fun h => absurd ⟨step, List.mem_cons_self, hstep⟩ h⟩
    · have hpath : ThroughName (step :: path) ↔ ThroughName path := by
        unfold ThroughName
        rw [List.exists_mem_cons_iff]
        exact or_iff_right hstep
      rw [if_neg hstep, hpath]
      cases hchild : schema.child? step with
      | none => exact ⟨fun _ => rfl, fun _ => rfl⟩
      | some child => exact ih child

/-! ## The fingerprint -/

/-- The fingerprint sees all paths but those through a key named like an annotation. -/
theorem fingerprint_eq_iff {schema schema' : JsonSchema} (hschema : schema.WellFormed) (hschema' : schema'.WellFormed) :
    schema.schemaFingerprint = schema'.schemaFingerprint ↔ AgreeOutsideNames schema schema' := by
  unfold schemaFingerprint
  rw [tokens_eq_iff_headAt hschema.drop hschema'.drop]
  constructor
  · intro h path hpath
    rw [← (headAt_drop schema path).2 hpath, ← (headAt_drop schema' path).2 hpath]
    exact h path
  · intro h path
    by_cases hpath : ThroughName path
    · rw [(headAt_drop schema path).1 hpath, (headAt_drop schema' path).1 hpath]
    · rw [(headAt_drop schema path).2 hpath, (headAt_drop schema' path).2 hpath]
      exact h path hpath

/-- The fingerprint tells two schemas apart as it should exactly when they differ elsewhere or agree on the keys
that only look like annotations. -/
theorem fingerprint_faithful_iff (schema schema' : JsonSchema) (hschema : schema.WellFormed)
    (hschema' : schema'.WellFormed) :
    (schema.schemaFingerprint = schema'.schemaFingerprint ↔ DifferInAnnotations schema schema') ↔
      (¬ AgreeOutsideNames schema schema' ∨ AgreeOnLookalikes schema schema') := by
  rw [fingerprint_eq_iff hschema hschema', differInAnnotations_iff]
  tauto

/-! ### A property called title -/

/-- The schema of an object with one property. -/
def onePropertySchema (name type : String) : JsonSchema :=
  .dict [("type", .scalar "object"), ("properties", .dict [(name, .dict [("type", .scalar type)])])]

theorem onePropertySchema_wellFormed (name type : String) : (onePropertySchema name type).WellFormed := by
  simp [onePropertySchema, WellFormed, EntriesWellFormed]

/-- A property that is called otherwise is told apart by its type. -/
theorem onePropertySchema_faithful :
    ((onePropertySchema "name" "string").schemaFingerprint = (onePropertySchema "name" "integer").schemaFingerprint ↔
      DifferInAnnotations (onePropertySchema "name" "string") (onePropertySchema "name" "integer")) := by
  refine (fingerprint_faithful_iff _ _ (onePropertySchema_wellFormed _ _) (onePropertySchema_wellFormed _ _)).mpr
    (Or.inl fun hagree => ?_)
  have htype := hagree [.key "properties", .key "name", .key "type"] (by unfold ThroughName; decide)
  exact absurd htype (by decide)

/-- A property called title is not told apart by its type. -/
theorem onePropertySchema_collision :
    (onePropertySchema "title" "string").WellFormed ∧ (onePropertySchema "title" "integer").WellFormed ∧
    (onePropertySchema "title" "string").schemaFingerprint = (onePropertySchema "title" "integer").schemaFingerprint ∧
    ¬ DifferInAnnotations (onePropertySchema "title" "string") (onePropertySchema "title" "integer") := by
  refine ⟨onePropertySchema_wellFormed _ _, onePropertySchema_wellFormed _ _, rfl, fun h => ?_⟩
  have hproperty : ¬ ThroughAnnotation .schema [.key "properties", .key "title", .key "type"] := by
    unfold ThroughAnnotation ThroughAnnotation ThroughAnnotation ThroughAnnotation
    decide
  have htype := h _ hproperty
  exact absurd htype (by decide)

end JsonSchema

end ModelClient

end Fenic
