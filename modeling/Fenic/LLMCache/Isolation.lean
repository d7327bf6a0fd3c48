import Fenic.Lib.Unwinding
import Mathlib.Data.List.Sort

/-!
# `LLMCache.Isolation` — what one namespace sees of the others

Several `SQLiteLLMCache` instances share one file; each has its own namespace. Their table is a list of rows in the
order of insertion, with one row for a key and a namespace. Times are microseconds. How the file grows is left to
SQLite: the file is a parameter, of which only the size is read.

The rows of a namespace are all that its own calls read and write. So a foreign call is invisible unless it
touches rows of the namespace, and only an eviction can: it selects keys in its own namespace and deletes them in
every one. The other channel is the size of the file, which decides when a namespace evicts. Without these two, a
namespace sees the results of its own calls alone (`isolated_results`).
-/

namespace Fenic

namespace LLMCache

/-! ## Responses -/

structure ResponseUsage where
  promptTokens : Nat
  completionTokens : Nat
  totalTokens : Nat
  cachedTokens : Nat
  thinkingTokens : Nat
  deriving DecidableEq

/-- What `set` stores of a response. `logprobs` is the outcome of `json.dumps`, which raises on values that are no
JSON. -/
structure FenicCompletionsResponse where
  completion : String
  logprobs : Except String (Option String)
  usage : Option ResponseUsage

structure CachedResponse where
  completion : String
  model : String
  cachedAt : Int
  promptTokens : Option Nat
  completionTokens : Option Nat
  totalTokens : Option Nat
  cachedTokens : Nat
  thinkingTokens : Nat
  logprobs : Option String
  accessCount : Nat
  deriving DecidableEq

/-- A row of `llm_responses`. -/
structure Row where
  cacheKey : String
  inNamespace : String
  model : String
  completion : String
  cachedAt : Int
  lastAccessed : Int
  accessCount : Nat
  promptTokens : Option Nat
  completionTokens : Option Nat
  totalTokens : Option Nat
  cachedTokens : Nat
  thinkingTokens : Nat
  logprobsData : Option String
  deriving DecidableEq

abbrev Table := List Row

def Row.toCachedResponse (row : Row) : CachedResponse where
  completion := row.completion
  model := row.model
  cachedAt := row.cachedAt
  promptTokens := row.promptTokens
  completionTokens := row.completionTokens
  totalTokens := row.totalTokens
  cachedTokens := row.cachedTokens
  thinkingTokens := row.thinkingTokens
  logprobs := row.logprobsData
  accessCount := row.accessCount + 1

/-! ## The statements -/

/-- The attributes of a `SQLiteLLMCache` that its statements read. -/
structure SQLiteLLMCache where
  inNamespace : String
  ttlSeconds : Nat
  maxSizeMb : Nat
  deriving DecidableEq

namespace SQLiteLLMCache

variable (cache : SQLiteLLMCache)

/-- `datetime.now() - timedelta(seconds=self.ttl_seconds)`. -/
def cutoff (now : Int) : Int :=
  now - cache.ttlSeconds * 1000000

/-- The condition of the look-ups. -/
def Fresh (now : Int) (cacheKeys : List String) (row : Row) : Prop :=
  row.cacheKey ∈ cacheKeys ∧ row.inNamespace = cache.inNamespace ∧ cache.cutoff now < row.cachedAt

instance (now : Int) (cacheKeys : List String) (row : Row) : Decidable (cache.Fresh now cacheKeys row) :=
  inferInstanceAs (Decidable (_ ∧ _ ∧ _))

/-- The update of the access statistics. -/
def touch (now : Int) (cacheKeys : List String) (table : Table) : Table :=
  table.map (fun row =>
    if row.cacheKey ∈ cacheKeys ∧ row.inNamespace = cache.inNamespace then
      { row with accessCount := row.accessCount + 1, lastAccessed := now }
    else row)

/-- The clock is read for the look-up and again for the update. -/
def get (cacheKey : String) (now now' : Int) (table : Table) : Table × Option CachedResponse :=
  match table.find? (fun row => cache.Fresh now [cacheKey] row) with
  | none => (table, none)
  | some row => (cache.touch now' [cacheKey] table, some row.toCachedResponse)

def getBatch (cacheKeys : List String) (now now' : Int) (table : Table) :
    Table × List (String × CachedResponse) :=
  if cacheKeys = [] then (table, [])
  else
    let rows := table.filter (fun row => cache.Fresh now cacheKeys row)
    let foundKeys := rows.map Row.cacheKey
    (cache.touch now' foundKeys table, rows.map (fun row => (row.cacheKey, row.toCachedResponse)))

/-- The values that are inserted. -/
def newRow (cacheKey : String) (response : FenicCompletionsResponse) (model : String) (now : Int)
    (logprobsData : Option String) : Row where
  cacheKey := cacheKey
  inNamespace := cache.inNamespace
  model := model
  completion := response.completion
  cachedAt := now
  lastAccessed := now
  accessCount := 0
  promptTokens := response.usage.map ResponseUsage.promptTokens
  completionTokens := response.usage.map ResponseUsage.completionTokens
  totalTokens := response.usage.map ResponseUsage.totalTokens
  cachedTokens := response.usage.elim 0 ResponseUsage.cachedTokens
  thinkingTokens := response.usage.elim 0 ResponseUsage.thinkingTokens
  logprobsData := logprobsData

/-- `INSERT OR REPLACE`. -/
def insertOrReplace (cacheKey : String) (response : FenicCompletionsResponse) (model : String) (now : Int)
    (logprobsData : Option String) (table : Table) : Table :=
  table.filter (fun row => ¬ (row.cacheKey = cacheKey ∧ row.inNamespace = cache.inNamespace)) ++
    [cache.newRow cacheKey response model now logprobsData]

/-- The rows of the namespace. -/
def ownRows (table : Table) : Table :=
  table.filter (fun row => row.inNamespace = cache.inNamespace)

/-- The keys of the least recently used tenth of the namespace, of one row at least. -/
def evictedKeys (table : Table) : List String :=
  let totalCount := (cache.ownRows table).length
  let evictCount := max 1 (totalCount / 10)
  (((cache.ownRows table).insertionSort (fun row row' => row.lastAccessed ≤ row'.lastAccessed)).take evictCount).map
    Row.cacheKey

/-- The `DELETE` of `_maybe_evict`. It selects the keys in the namespace, and deletes their rows in all. -/
def evict (table : Table) : Table :=
  table.filter (fun row => row.cacheKey ∉ cache.evictedKeys table)

/-- The size check of `_maybe_evict`, for the size of the file in bytes. -/
def Oversized (sizeBytes : Nat) : Prop :=
  cache.maxSizeMb * (1024 * 1024) < sizeBytes

instance (sizeBytes : Nat) : Decidable (cache.Oversized sizeBytes) :=
  inferInstanceAs (Decidable (_ < _))

/-- `_maybe_evict`. -/
def maybeEvict (sizeBytes : Nat) (table : Table) : Table :=
  if cache.Oversized sizeBytes then cache.evict table else table

def set (cacheKey : String) (response : FenicCompletionsResponse) (model : String) (now : Int) (sizeBytes : Nat)
    (table : Table) : Table × Bool :=
  match response.logprobs with
  | .error _ => (table, false)
  | .ok logprobsData =>
    (cache.maybeEvict sizeBytes (cache.insertOrReplace cacheKey response model now logprobsData table), true)

/-- One entry of `set_batch`, with the number of entries stored so far. -/
def setEntry (now : Int) (stored : Table × Nat) (entry : String × FenicCompletionsResponse × String) : Table × Nat :=
  match entry with
  | (cacheKey, response, model) =>
    if cacheKey = "" then stored
    else match response.logprobs with
      | .error _ => stored
      | .ok logprobsData =>
        (cache.insertOrReplace cacheKey response model now logprobsData stored.1, stored.2 + 1)

/-- `set_batch` calls `_maybe_evict` without its connection; the error is caught, so it never evicts. -/
def setBatch (entries : List (String × FenicCompletionsResponse × String)) (now : Int) (table : Table) : Table × Nat :=
  entries.foldl (cache.setEntry now) (table, 0)

def clear (table : Table) : Table × Nat :=
  (table.filter (fun row => row.inNamespace ≠ cache.inNamespace), (cache.ownRows table).length)

end SQLiteLLMCache

/-! ## The shared file -/

inductive Operation where
  | get (cacheKey : String) (now now' : Int)
  | getBatch (cacheKeys : List String) (now now' : Int)
  | set (cacheKey : String) (response : FenicCompletionsResponse) (model : String) (now : Int)
  | setBatch (entries : List (String × FenicCompletionsResponse × String)) (now : Int)
  | clear

/-- An operation of one of the instances. -/
structure Call where
  cache : SQLiteLLMCache
  operation : Operation

inductive Result where
  | response (response : Option CachedResponse)
  | responses (responses : List (String × CachedResponse))
  | stored (stored : Bool)
  | count (count : Nat)
  deriving DecidableEq

/-- What SQLite makes of the file: how a call changes it up to the size check, and its size in bytes. What an
eviction changes is known from the file and the call, and is part of the next change. -/
structure Storage (File : Type) where
  write : File → Call → File
  sizeBytes : File → Nat

structure Database (File : Type) where
  table : Table
  file : File

variable {File : Type}

/-- The size that the check of a call reads. -/
def Database.sizeAt (storage : Storage File) (database : Database File) (call : Call) : Nat :=
  storage.sizeBytes (storage.write database.file call)

/-- The table after a call, and its result. -/
def Call.exec (call : Call) (sizeBytes : Nat) (table : Table) : Table × Result :=
  match call.operation with
  | .get cacheKey now now' => (call.cache.get cacheKey now now' table).map id .response
  | .getBatch cacheKeys now now' => (call.cache.getBatch cacheKeys now now' table).map id .responses
  | .set cacheKey response model now => (call.cache.set cacheKey response model now sizeBytes table).map id .stored
  | .setBatch entries now => (call.cache.setBatch entries now table).map id .count
  | .clear => (call.cache.clear table).map id .count

def step (storage : Storage File) (database : Database File) (call : Call) : Database File × Result :=
  let outcome := call.exec (database.sizeAt storage call) database.table
  (⟨outcome.1, storage.write database.file call⟩, outcome.2)

/-- The namespace of a call. -/
def Call.owner (call : Call) : String :=
  call.cache.inNamespace

/-! ## What one namespace sees of the others -/

/-- The rows of a namespace. -/
def Table.project (table : Table) (name : String) : Table :=
  table.filter (fun row => row.inNamespace = name)

variable {cache : SQLiteLLMCache} {name : String} {table : Table}

theorem mem_project {row : Row} : row ∈ table.project name ↔ row ∈ table ∧ row.inNamespace = name := by
  unfold Table.project
  rw [List.mem_filter, decide_eq_true_eq]

theorem project_project : (table.project name).project name = table.project name := by
  unfold Table.project
  rw [List.filter_filter]
  simp only [Bool.and_self]

theorem ownRows_eq : cache.ownRows table = table.project cache.inNamespace := rfl

/-! ## Own calls read and write the rows of the namespace -/

theorem find_project {p : Row → Bool} (hp : ∀ row, p row = true → row.inNamespace = name) :
    (table.project name).find? p = table.find? p := by
  unfold Table.project
  rw [List.find?_filter]
  congr 1
  funext row
  cases hrow : p row with
  | false => simp
  | true => simp [hp row hrow]

theorem filter_project {p : Row → Bool} (hp : ∀ row, p row = true → row.inNamespace = name) :
    (table.project name).filter p = table.filter p := by
  unfold Table.project
  rw [List.filter_filter]
  congr 1
  funext row
  cases hrow : p row with
  | false => rw [Bool.false_and]
  | true => simp [hp row hrow]

theorem fresh_own {now : Int} {cacheKeys : List String} (row : Row)
    (h : decide (cache.Fresh now cacheKeys row) = true) : row.inNamespace = cache.inNamespace :=
  (of_decide_eq_true h).2.1

/-- Touching does not move rows between namespaces. -/
theorem project_touch (now : Int) (cacheKeys : List String) :
    (cache.touch now cacheKeys table).project name = cache.touch now cacheKeys (table.project name) := by
  unfold Table.project SQLiteLLMCache.touch
  rw [List.filter_map]
  congr 1
  apply List.filter_congr
  intro row _
  rw [Function.comp_apply]
  split <;> rfl

theorem get_project (cacheKey : String) (now now' : Int) :
    ((cache.get cacheKey now now' table).1.project cache.inNamespace, (cache.get cacheKey now now' table).2) =
      cache.get cacheKey now now' (table.project cache.inNamespace) := by
  unfold SQLiteLLMCache.get
  rw [find_project fresh_own]
  cases table.find? (fun row => cache.Fresh now [cacheKey] row) with
  | none => rfl
  | some row => rw [← project_touch]

theorem getBatch_project (cacheKeys : List String) (now now' : Int) :
    ((cache.getBatch cacheKeys now now' table).1.project cache.inNamespace, (cache.getBatch cacheKeys now now' table).2) =
      cache.getBatch cacheKeys now now' (table.project cache.inNamespace) := by
  unfold SQLiteLLMCache.getBatch
  by_cases hkeys : cacheKeys = []
  · rw [if_pos hkeys, if_pos hkeys]
  · rw [if_neg hkeys, if_neg hkeys, filter_project fresh_own]
    simp only [project_touch]

theorem insertOrReplace_project (cacheKey : String) (response : FenicCompletionsResponse) (model : String) (now : Int)
    (logprobsData : Option String) :
    (cache.insertOrReplace cacheKey response model now logprobsData table).project cache.inNamespace =
      cache.insertOrReplace cacheKey response model now logprobsData (table.project cache.inNamespace) := by
  have hnew : Table.project [cache.newRow cacheKey response model now logprobsData] cache.inNamespace =
      [cache.newRow cacheKey response model now logprobsData] := List.filter_cons_of_pos (decide_eq_true rfl)
  unfold SQLiteLLMCache.insertOrReplace
  unfold Table.project at hnew ⊢
  rw [List.filter_append, hnew, List.filter_filter, List.filter_filter]
  simp only [Bool.and_comm]

theorem evictedKeys_project : cache.evictedKeys (table.project cache.inNamespace) = cache.evictedKeys table := by
  unfold SQLiteLLMCache.evictedKeys
  rw [ownRows_eq, ownRows_eq, project_project]

theorem maybeEvict_project (sizeBytes : Nat) :
    (cache.maybeEvict sizeBytes table).project cache.inNamespace =
      cache.maybeEvict sizeBytes (table.project cache.inNamespace) := by
  unfold SQLiteLLMCache.maybeEvict SQLiteLLMCache.evict
  by_cases hsize : cache.Oversized sizeBytes
  · rw [if_pos hsize, if_pos hsize, evictedKeys_project]
    unfold Table.project
    rw [List.filter_filter, List.filter_filter]
    congr 1
    funext row
    rw [Bool.and_comm]
  · rw [if_neg hsize, if_neg hsize]

theorem set_project (cacheKey : String) (response : FenicCompletionsResponse) (model : String) (now : Int)
    (sizeBytes : Nat) :
    ((cache.set cacheKey response model now sizeBytes table).1.project cache.inNamespace,
        (cache.set cacheKey response model now sizeBytes table).2) =
      cache.set cacheKey response model now sizeBytes (table.project cache.inNamespace) := by
  unfold SQLiteLLMCache.set
  cases response.logprobs with
  | error message => rfl
  | ok logprobsData => simp only [← insertOrReplace_project, ← maybeEvict_project]

theorem setEntry_project (now : Int) (stored : Table × Nat) (entry : String × FenicCompletionsResponse × String) :
    ((cache.setEntry now stored entry).1.project cache.inNamespace, (cache.setEntry now stored entry).2) =
      cache.setEntry now (stored.1.project cache.inNamespace, stored.2) entry := by
  obtain ⟨cacheKey, response, model⟩ := entry
  unfold SQLiteLLMCache.setEntry
  by_cases hkey : cacheKey = ""
  · simp only [if_pos hkey]
  · simp only [if_neg hkey]
    cases response.logprobs with
    | error message => rfl
    | ok logprobsData => simp only [insertOrReplace_project]

theorem setEntries_project (now : Int) (stored : Table × Nat)
    (entries : List (String × FenicCompletionsResponse × String)) :
    ((entries.foldl (cache.setEntry now) stored).1.project cache.inNamespace,
        (entries.foldl (cache.setEntry now) stored).2) =
      entries.foldl (cache.setEntry now) (stored.1.project cache.inNamespace, stored.2) := by
  induction entries generalizing stored with
  | nil => rfl
  | cons entry entries ih =>
    rw [List.foldl_cons, List.foldl_cons, ← setEntry_project]
    exact ih (cache.setEntry now stored entry)

theorem setBatch_project (entries : List (String × FenicCompletionsResponse × String)) (now : Int) :
    ((cache.setBatch entries now table).1.project cache.inNamespace, (cache.setBatch entries now table).2) =
      cache.setBatch entries now (table.project cache.inNamespace) :=
  setEntries_project now (table, 0) entries

theorem clear_project :
    ((cache.clear table).1.project cache.inNamespace, (cache.clear table).2) =
      cache.clear (table.project cache.inNamespace) := by
  unfold SQLiteLLMCache.clear
  rw [ownRows_eq, ownRows_eq, project_project]
  unfold Table.project
  rw [List.filter_filter, List.filter_filter]
  simp only [Bool.and_comm]

/-- A call of a namespace sees and changes the rows of the namespace only. -/
theorem exec_project (call : Call) (sizeBytes : Nat) (table : Table) :
    ((call.exec sizeBytes table).1.project call.owner, (call.exec sizeBytes table).2) =
      call.exec sizeBytes (table.project call.owner) := by
  obtain ⟨cache, operation⟩ := call
  unfold Call.exec Call.owner
  cases operation with
  | get cacheKey now now' => simp only [← get_project, Prod.map, id]
  | getBatch cacheKeys now now' => simp only [← getBatch_project, Prod.map, id]
  | set cacheKey response model now => simp only [← set_project, Prod.map, id]
  | setBatch entries now => simp only [← setBatch_project, Prod.map, id]
  | clear => simp only [← clear_project, Prod.map, id]

/-! ## Foreign calls -/

theorem touch_foreign (hother : cache.inNamespace ≠ name) (now : Int) (cacheKeys : List String) :
    (cache.touch now cacheKeys table).project name = table.project name := by
  rw [project_touch]
  unfold SQLiteLLMCache.touch
  have hsame : ∀ row ∈ table.project name,
      (if row.cacheKey ∈ cacheKeys ∧ row.inNamespace = cache.inNamespace then
        { row with accessCount := row.accessCount + 1, lastAccessed := now } else row) = row := by
    intro row hrow
    have hname := (mem_project.mp hrow).2
    rw [if_neg fun h => hother (h.2.symm.trans hname)]
  rw [List.map_congr_left hsame, List.map_id']

theorem insertOrReplace_foreign (table : Table) (hother : cache.inNamespace ≠ name) (cacheKey : String)
    (response : FenicCompletionsResponse) (model : String) (now : Int) (logprobsData : Option String) :
    (cache.insertOrReplace cacheKey response model now logprobsData table).project name = table.project name := by
  have hnew : Table.project [cache.newRow cacheKey response model now logprobsData] name = [] :=
    List.filter_cons_of_neg (by rw [decide_eq_true_eq]; exact hother)
  unfold SQLiteLLMCache.insertOrReplace
  unfold Table.project at hnew ⊢
  rw [List.filter_append, hnew, List.append_nil, List.filter_filter]
  apply List.filter_congr
  intro row _
  by_cases hrow : row.inNamespace = name
  · have hkept : ¬ (row.cacheKey = cacheKey ∧ row.inNamespace = cache.inNamespace) :=
      fun h => hother (h.2.symm.trans hrow)
    rw [decide_eq_true hrow, decide_eq_true hkept]
    rfl
  · rw [decide_eq_false hrow, Bool.false_and]

theorem get_foreign (hother : cache.inNamespace ≠ name) (cacheKey : String) (now now' : Int) :
    (cache.get cacheKey now now' table).1.project name = table.project name := by
  unfold SQLiteLLMCache.get
  cases table.find? (fun row => cache.Fresh now [cacheKey] row) with
  | none => rfl
  | some row => exact touch_foreign hother now' [cacheKey]

theorem getBatch_foreign (hother : cache.inNamespace ≠ name) (cacheKeys : List String) (now now' : Int) :
    (cache.getBatch cacheKeys now now' table).1.project name = table.project name := by
  unfold SQLiteLLMCache.getBatch
  by_cases hkeys : cacheKeys = []
  · rw [if_pos hkeys]
  · rw [if_neg hkeys]
    exact touch_foreign hother now' _

theorem setEntry_foreign (hother : cache.inNamespace ≠ name) (now : Int) (stored : Table × Nat)
    (entry : String × FenicCompletionsResponse × String) :
    (cache.setEntry now stored entry).1.project name = stored.1.project name := by
  obtain ⟨cacheKey, response, model⟩ := entry
  unfold SQLiteLLMCache.setEntry
  by_cases hkey : cacheKey = ""
  · simp only [if_pos hkey]
  · simp only [if_neg hkey]
    cases response.logprobs with
    | error message => rfl
    | ok logprobsData => exact insertOrReplace_foreign stored.1 hother cacheKey response model now logprobsData

theorem setEntries_foreign (hother : cache.inNamespace ≠ name) (now : Int) (stored : Table × Nat)
    (entries : List (String × FenicCompletionsResponse × String)) :
    (entries.foldl (cache.setEntry now) stored).1.project name = stored.1.project name := by
  induction entries generalizing stored with
  | nil => rfl
  | cons entry entries ih => rw [List.foldl_cons, ih, setEntry_foreign hother]

theorem clear_foreign (hother : cache.inNamespace ≠ name) : (cache.clear table).1.project name = table.project name := by
  unfold SQLiteLLMCache.clear Table.project
  rw [List.filter_filter]
  apply List.filter_congr
  intro row _
  by_cases hrow : row.inNamespace = name
  · have hkept : row.inNamespace ≠ cache.inNamespace := fun h => hother (h.symm.trans hrow)
    rw [decide_eq_true hrow, decide_eq_true hkept]
    rfl
  · rw [decide_eq_false hrow, Bool.false_and]

/-- The keys that a call evicts. -/
def Call.evictedKeys (call : Call) (sizeBytes : Nat) (table : Table) : List String :=
  match call.operation with
  | .set cacheKey response model now =>
    match response.logprobs with
    | .error _ => []
    | .ok logprobsData =>
      if call.cache.Oversized sizeBytes then
        call.cache.evictedKeys (call.cache.insertOrReplace cacheKey response model now logprobsData table)
      else []
  | _ => []

variable {sizeBytes : Nat}

/-- An eviction of other keys is not seen. -/
theorem maybeEvict_foreign
    (hkeys : cache.Oversized sizeBytes → ∀ row ∈ table.project name, row.cacheKey ∉ cache.evictedKeys table) :
    (cache.maybeEvict sizeBytes table).project name = table.project name := by
  unfold SQLiteLLMCache.maybeEvict
  by_cases hsize : cache.Oversized sizeBytes
  · rw [if_pos hsize]
    unfold SQLiteLLMCache.evict Table.project
    rw [List.filter_filter]
    apply List.filter_congr
    intro row hrow
    by_cases hname : row.inNamespace = name
    · have hkept := hkeys hsize row (mem_project.mpr ⟨hrow, hname⟩)
      rw [decide_eq_true hname, decide_eq_true hkept]
      rfl
    · rw [decide_eq_false hname, Bool.false_and]
  · rw [if_neg hsize]

/-- A foreign call that evicts no key of the namespace is not seen. -/
theorem exec_foreign {call : Call} (hother : call.owner ≠ name)
    (hkeys : ∀ row ∈ table.project name, row.cacheKey ∉ call.evictedKeys sizeBytes table) :
    (call.exec sizeBytes table).1.project name = table.project name := by
  obtain ⟨cache, operation⟩ := call
  unfold Call.exec
  cases operation with
  | get cacheKey now now' => exact get_foreign hother cacheKey now now'
  | getBatch cacheKeys now now' => exact getBatch_foreign hother cacheKeys now now'
  | setBatch entries now => exact setEntries_foreign hother now (table, 0) entries
  | clear => exact clear_foreign hother
  | set cacheKey response model now =>
    unfold Call.evictedKeys at hkeys
    simp only [SQLiteLLMCache.set, Prod.map, id]
    cases hlogprobs : response.logprobs with
    | error message => rfl
    | ok logprobsData =>
      have hinserted := insertOrReplace_foreign table hother cacheKey response model now logprobsData
      rw [← hinserted]
      refine maybeEvict_foreign fun hsize row hrow => ?_
      rw [hinserted] at hrow
      have hkept := hkeys row hrow
      simp only [hlogprobs, if_pos hsize] at hkept
      exact hkept

/-! ## The main theorem -/

/-- The calls that look at the size of the file. -/
def Operation.checksSize : Operation → Bool
  | .set _ _ _ _ => true
  | _ => false

variable {File : Type}

/-- A call that leaves the namespace alone: a foreign call evicts no key that has a row in the namespace, and an own
call that looks at the size of the file finds it over the limit exactly when it would without the foreign calls. -/
structure Undisturbed (storage : Storage File) (name : String) (database reduced : Database File) (call : Call) : Prop where
  keys : call.owner ≠ name → ∀ row ∈ database.table.project name,
    row.cacheKey ∉ call.evictedKeys (database.sizeAt storage call) database.table
  size : call.owner = name → call.operation.checksSize = true →
    (call.cache.Oversized (database.sizeAt storage call) ↔ call.cache.Oversized (reduced.sizeAt storage call))

/-- Only whether the file is over the limit matters of its size. -/
theorem exec_size (table : Table) {call : Call} {sizeBytes' : Nat}
    (h : call.operation.checksSize = true → (call.cache.Oversized sizeBytes ↔ call.cache.Oversized sizeBytes')) :
    call.exec sizeBytes table = call.exec sizeBytes' table := by
  obtain ⟨cache, operation⟩ := call
  cases operation with
  | set cacheKey response model now =>
    have hsize : cache.Oversized sizeBytes ↔ cache.Oversized sizeBytes' := h rfl
    unfold Call.exec SQLiteLLMCache.set SQLiteLLMCache.maybeEvict
    simp only [hsize]
  | get _ _ _ | getBatch _ _ _ | setBatch _ _ | clear => rfl

/-- **If every call leaves the namespace alone, the results of its own calls are those of a run of its calls only,
and so are its rows.** -/
theorem isolated_results (storage : Storage File) (name : String) (database : Database File) (calls : List Call)
    (h : Unwinding.Along (step storage) Call.owner name (Undisturbed storage name) database database calls) :
    Unwinding.seen Call.owner name (Unwinding.results (step storage) database calls) =
        Unwinding.results (step storage) database (Unwinding.own Call.owner name calls) ∧
      (Unwinding.run (step storage) database calls).table.project name =
        (Unwinding.run (step storage) database (Unwinding.own Call.owner name calls)).table.project name := by
  -- both runs see the rows of the namespace, and agree on the size check
  have hown : ∀ (s t : Database File) (call : Call), call.owner = name → Undisturbed storage name s t call →
      s.table.project name = t.table.project name →
      (step storage s call).1.table.project name = (step storage t call).1.table.project name ∧
        (step storage s call).2 = (step storage t call).2 := by
    rintro s t call rfl hcall hrows
    have hfull := exec_project call (s.sizeAt storage call) s.table
    have hreduced := exec_project call (t.sizeAt storage call) t.table
    rw [hrows, exec_size (t.table.project call.owner) (hcall.size rfl), ← hreduced] at hfull
    exact Prod.mk.inj hfull
  have hforeign : ∀ (s t : Database File) (call : Call), call.owner ≠ name → Undisturbed storage name s t call →
      s.table.project name = t.table.project name →
      (step storage s call).1.table.project name = t.table.project name :=
    fun s t call hother hcall hrows => (exec_foreign hother (hcall.keys hother)).trans hrows
  have hunwinding := Unwinding.run_own (fun s t : Database File => s.table.project name = t.table.project name)
    hown hforeign rfl h
  exact ⟨hunwinding.2, hunwinding.1⟩

/-! ### Two namespaces with one key -/

/-- A file of two megabytes. -/
def fullFile : Storage Unit :=
  ⟨fun _ _ => (), fun _ => 2097152⟩

def largeCache : SQLiteLLMCache := ⟨"reports", 3600, 1000⟩

def smallCache : SQLiteLLMCache := ⟨"drafts", 3600, 1⟩

/-- The large cache stores a response, the small one stores another and evicts, and the large one asks for its own. -/
def sharedFileCalls (cacheKey cacheKey' : String) : List Call :=
  [⟨largeCache, .set cacheKey ⟨"final", .ok none, none⟩ "gpt-4o" 0⟩,
    ⟨smallCache, .set cacheKey' ⟨"draft", .ok none, none⟩ "gpt-4o" 1⟩,
    ⟨largeCache, .get cacheKey 2 2⟩]

/-- Different keys do not meet. -/
theorem differentKeys_isolated :
    Unwinding.seen Call.owner "reports" (Unwinding.results (step fullFile) ⟨[], ()⟩ (sharedFileCalls "k" "j")) =
      Unwinding.results (step fullFile) ⟨[], ()⟩ (Unwinding.own Call.owner "reports" (sharedFileCalls "k" "j")) := by
  have halone : Unwinding.Along (step fullFile) Call.owner "reports" (Undisturbed fullFile "reports") ⟨[], ()⟩ ⟨[], ()⟩
      (sharedFileCalls "k" "j") :=
    ⟨⟨fun h => absurd rfl h, fun _ _ => Iff.rfl⟩, ⟨fun _ => by decide, fun h => absurd h (by decide)⟩,
      ⟨fun h => absurd rfl h, fun _ h => absurd h (by decide)⟩, trivial⟩
  exact (isolated_results fullFile "reports" ⟨[], ()⟩ (sharedFileCalls "k" "j") halone).1

/-- An eviction in one namespace deletes the row of the same key in another. -/
theorem sameKey_evicted :
    (Unwinding.seen Call.owner "reports"
        (Unwinding.results (step fullFile) ⟨[], ()⟩ (sharedFileCalls "k" "k"))).map Prod.snd =
      [.stored true, .response none] ∧
    (Unwinding.results (step fullFile) ⟨[], ()⟩
        (Unwinding.own Call.owner "reports" (sharedFileCalls "k" "k"))).map Prod.snd =
      [.stored true, .response (some ⟨"final", "gpt-4o", 0, none, none, none, 0, 0, none, 1⟩)] := by
  decide

end LLMCache

end Fenic
