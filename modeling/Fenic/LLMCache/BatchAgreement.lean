import Fenic.LLMCache.Isolation

/-!
# `LLMCache.BatchAgreement` — the batch operations and the single ones

`set_batch` and `get_batch` are written apart from `set` and `get`, with their own statements, counters and error handling. Where
they agree with one call for each entry or key is `batch_agrees_iff`.

`set_batch` calls `_maybe_evict` without its argument, so each batch ends in an error that is counted and never evicts; it passes
over an entry without a key, and over one that cannot be serialised without counting it. `get_batch` has one SQL variable for each
key, of which SQLite allows only so many.
-/

namespace Fenic

namespace LLMCache

variable {File : Type}

/-! ## The counters -/

/-- The statistics that an instance keeps. -/
structure CacheCounters where
  hits : Nat
  misses : Nat
  stores : Nat
  errors : Nat
  deriving DecidableEq

/-- The shared file and the counters of an instance. -/
structure CacheState (File : Type) where
  database : Database File
  counters : CacheCounters

abbrev Entry := String × FenicCompletionsResponse × String

/-- `json.dumps` does not raise. -/
def Entry.serializes (entry : Entry) : Bool :=
  match entry.2.1.logprobs with
  | .ok _ => true
  | .error _ => false

/-- The entry is one that `set_batch` stores. -/
def Entry.batched (entry : Entry) : Bool :=
  entry.serializes && decide (entry.1 ≠ "")

/-- The keys under which the entries are stored. -/
def storedKeys (entries : List Entry) : List String :=
  (entries.filter Entry.serializes).map Prod.fst

namespace SQLiteLLMCache

variable (cache : SQLiteLLMCache) (storage : Storage File) (now : Int)

/-- `set`, as a call. -/
def setCall (entry : Entry) : Call :=
  ⟨cache, .set entry.1 entry.2.1 entry.2.2 now⟩

/-- `set`, with the counters. -/
def setCounted (state : CacheState File) (entry : Entry) : CacheState File where
  database := (step storage state.database (cache.setCall now entry)).1
  counters :=
    if entry.serializes then { state.counters with stores := state.counters.stores + 1 }
    else { state.counters with errors := state.counters.errors + 1 }

/-- `set_batch`, with the counters. The call of `_maybe_evict` raises a `TypeError`, which counts as an error. -/
def setBatchCounted (state : CacheState File) (entries : List Entry) : CacheState File :=
  if entries = [] then state
  else
    { database := (step storage state.database ⟨cache, .setBatch entries now⟩).1
      counters :=
        { state.counters with
          stores := state.counters.stores + (cache.setBatch entries now state.database.table).2
          errors := state.counters.errors + 1 } }

/-- `get_batch`, of which SQLite accepts only so many variables; the two others are the namespace and the time. -/
def getBatchWithin (maxVariables : Nat) (cacheKeys : List String) (now now' : Int) (table : Table) :
    Table × List (String × CachedResponse) :=
  if cacheKeys ≠ [] ∧ maxVariables < cacheKeys.length + 2 then (table, []) else cache.getBatch cacheKeys now now' table

/-! ## Agreement -/

/-- The batch leaves the entries and the counters that one call for each entry leaves. -/
def SetBatchAgrees (state : CacheState File) (entries : List Entry) : Prop :=
  let batch := cache.setBatchCounted storage now state entries
  let single := entries.foldl (cache.setCounted storage now) state
  batch.database.table = single.database.table ∧ batch.counters = single.counters

/-- The batch returns for each of its keys what one call for the key returns, and nothing else. -/
def GetBatchAgrees (maxVariables : Nat) (cacheKeys : List String) (now now' : Int) (table : Table) : Prop :=
  ∀ key, (cache.getBatchWithin maxVariables cacheKeys now now' table).2.lookup key =
    if key ∈ cacheKeys then (cache.get key now now' table).2 else none

/-- The table after the insertion of an entry. -/
def insertEntry (table : Table) (entry : Entry) : Table :=
  match entry.2.1.logprobs with
  | .error _ => table
  | .ok logprobsData => cache.insertOrReplace entry.1 entry.2.1 entry.2.2 now logprobsData table

/-- The rows that the eviction of a single call deletes. -/
def evictedRows (state : CacheState File) (entry : Entry) : Table :=
  let table := cache.insertEntry now state.database.table entry
  if entry.serializes ∧ cache.Oversized (state.database.sizeAt storage (cache.setCall now entry)) then
    table.filter (fun row => row.cacheKey ∈ cache.evictedKeys table)
  else []

/-- What the single calls evict, later entries store again. -/
def EvictsInVain : CacheState File → List Entry → Prop
  | _, [] => True
  | state, entry :: rest =>
    (∀ row ∈ cache.evictedRows storage now state entry,
      row.inNamespace = cache.inNamespace ∧ row.cacheKey ∈ storedKeys rest) ∧
    EvictsInVain (cache.setCounted storage now state entry) rest

/-! ## The single calls -/

section

variable {cache storage now}

variable {entry : Entry}

theorem insertEntry_of_not_serializes (h : entry.serializes = false) (table : Table) :
    cache.insertEntry now table entry = table := by
  unfold Entry.serializes at h
  unfold insertEntry
  split at h
  · cases h
  · rename_i heq
    rw [heq]

theorem set_table (entry : Entry) (sizeBytes : Nat) (table : Table) :
    (cache.set entry.1 entry.2.1 entry.2.2 now sizeBytes table).1 =
      if entry.serializes then cache.maybeEvict sizeBytes (cache.insertEntry now table entry) else table := by
  unfold SQLiteLLMCache.set insertEntry Entry.serializes
  cases entry.2.1.logprobs with
  | error message => exact (if_neg Bool.false_ne_true).symm
  | ok logprobsData => exact (if_pos rfl).symm

/-- A single call inserts, and evicts from what it inserted into. -/
theorem setCounted_table (state : CacheState File) (entry : Entry) :
    (cache.setCounted storage now state entry).database.table =
      if entry.serializes then
        cache.maybeEvict (state.database.sizeAt storage (cache.setCall now entry))
          (cache.insertEntry now state.database.table entry)
      else state.database.table :=
  set_table entry (state.database.sizeAt storage (cache.setCall now entry)) state.database.table

variable {state : CacheState File} {row : Row}

theorem mem_setCounted
    (h : row ∈ (cache.setCounted storage now state entry).database.table) :
    row ∈ cache.insertEntry now state.database.table entry ∧ row ∉ cache.evictedRows storage now state entry := by
  rw [setCounted_table] at h
  unfold evictedRows
  cases hserializes : entry.serializes with
  | false =>
    rw [hserializes, if_neg Bool.false_ne_true] at h
    rw [insertEntry_of_not_serializes hserializes]
    exact ⟨h, by simp⟩
  | true =>
    rw [hserializes, if_pos rfl] at h
    unfold maybeEvict at h
    split at h
    next hoversized =>
        obtain ⟨hmem, hkept⟩ := List.mem_filter.mp h
        refine ⟨hmem, ?_⟩
        rw [if_pos ⟨rfl, hoversized⟩]
        intro hevicted
        exact absurd (of_decide_eq_true (List.mem_filter.mp hevicted).2) (of_decide_eq_true hkept)
    next hoversized =>
        refine ⟨h, ?_⟩
        rw [if_neg (fun hboth => hoversized hboth.2)]
        exact List.not_mem_nil

variable {table : Table}

/-- A row that is inserted has the key of the entry. -/
theorem mem_insertEntry (h : row ∈ cache.insertEntry now table entry) :
    row ∈ table ∨ (entry.serializes = true ∧ row.inNamespace = cache.inNamespace ∧ row.cacheKey = entry.1) := by
  obtain ⟨cacheKey, ⟨completion, logprobs, usage⟩, model⟩ := entry
  cases logprobs with
  | error _ => exact .inl h
  | ok logprobsData =>
    rcases List.mem_append.mp h with hold | hnew
    · exact .inl (List.mem_filter.mp hold).1
    · rw [List.mem_singleton.mp hnew]
      exact .inr ⟨rfl, rfl, rfl⟩

/-- A row stays unless the entry has its key. -/
theorem mem_insertEntry_of_mem (h : row ∈ table)
    (hother : ¬ (entry.serializes = true ∧ row.inNamespace = cache.inNamespace ∧ row.cacheKey = entry.1)) :
    row ∈ cache.insertEntry now table entry := by
  obtain ⟨cacheKey, ⟨completion, logprobs, usage⟩, model⟩ := entry
  cases logprobs with
  | error _ => exact h
  | ok logprobsData =>
    refine List.mem_append_left _ (List.mem_filter.mpr ⟨h, ?_⟩)
    rw [decide_eq_true_eq]
    exact fun hkey => hother ⟨rfl, hkey.2, hkey.1⟩

variable {rest : List Entry}

theorem mem_storedKeys_cons {key : String} :
    key ∈ storedKeys (entry :: rest) ↔ (entry.serializes = true ∧ key = entry.1) ∨ key ∈ storedKeys rest := by
  unfold storedKeys
  cases h : entry.serializes with
  | true => simp [h]
  | false => simp [h]

/-- The row is one of the namespace, under a key that the entries store. -/
def Restored (cache : SQLiteLLMCache) (entries : List Entry) (row : Row) : Prop :=
  row.inNamespace = cache.inNamespace ∧ row.cacheKey ∈ storedKeys entries

theorem Restored.cons (h : Restored cache rest row) :
    Restored cache (entry :: rest) row :=
  ⟨h.1, mem_storedKeys_cons.mpr (.inr h.2)⟩

theorem restored_cons_of_key
    (h : entry.serializes = true ∧ row.inNamespace = cache.inNamespace ∧ row.cacheKey = entry.1) :
    Restored cache (entry :: rest) row :=
  ⟨h.2.1, mem_storedKeys_cons.mpr (.inl ⟨h.1, h.2.2⟩)⟩

theorem restored_of_cons (h : Restored cache (entry :: rest) row)
    (hother : ¬ (entry.serializes = true ∧ row.inNamespace = cache.inNamespace ∧ row.cacheKey = entry.1)) :
    Restored cache rest row := by
  refine ⟨h.1, ?_⟩
  rcases mem_storedKeys_cons.mp h.2 with hkey | hrest
  · exact absurd ⟨hkey.1, h.1, hkey.2⟩ hother
  · exact hrest

variable {entries : List Entry}

/-- What is left in the end was there, or is stored. -/
theorem mem_single
    (h : row ∈ (entries.foldl (cache.setCounted storage now) state).database.table) :
    row ∈ state.database.table ∨ Restored cache entries row := by
  induction entries generalizing state with
  | nil => exact .inl h
  | cons entry rest ih =>
    rcases ih h with hmem | hrestored
    · exact (mem_insertEntry (mem_setCounted hmem).1).imp id restored_cons_of_key
    · exact .inr hrestored.cons

/-- What no entry stores again stays, when nothing is evicted. -/
theorem mem_insertAll (h : row ∈ table)
    (hother : ¬ Restored cache entries row) : row ∈ entries.foldl (cache.insertEntry now) table := by
  induction entries generalizing table with
  | nil => exact h
  | cons entry rest ih =>
    exact ih (mem_insertEntry_of_mem h fun hkey => hother (restored_cons_of_key hkey)) fun hrest => hother hrest.cons

/-- A deletion before an insertion is one after it, but for the row that is inserted. -/
theorem insertOrReplace_filter (table : Table) (p : Row → Bool) (cacheKey : String) (response : FenicCompletionsResponse)
    (model : String) (logprobsData : Option String) :
    cache.insertOrReplace cacheKey response model now logprobsData (table.filter p) =
      (cache.insertOrReplace cacheKey response model now logprobsData table).filter
        (fun row => p row || decide (row.cacheKey = cacheKey ∧ row.inNamespace = cache.inNamespace)) := by
  have hnew : [cache.newRow cacheKey response model now logprobsData].filter
      (fun row => p row || decide (row.cacheKey = cacheKey ∧ row.inNamespace = cache.inNamespace)) =
      [cache.newRow cacheKey response model now logprobsData] := by
    simp [newRow]
  unfold insertOrReplace
  rw [List.filter_append, hnew, List.filter_filter, List.filter_filter]
  congr 1
  apply List.filter_congr
  intro row _
  by_cases hkey : row.cacheKey = cacheKey ∧ row.inNamespace = cache.inNamespace
  · simp [hkey]
  · simp [hkey, Bool.and_comm]

/-- Rows that the entries store again may as well be deleted before. -/
theorem insertAll_filter {p : Row → Bool}
    (h : ∀ row ∈ table, p row = false → Restored cache entries row) :
    entries.foldl (cache.insertEntry now) (table.filter p) = entries.foldl (cache.insertEntry now) table := by
  induction entries generalizing table p with
  | nil =>
    have hall : ∀ row ∈ table, p row = true := by
      intro row hmem
      cases hp : p row with
      | true => rfl
      | false => exact absurd (h row hmem hp).2 List.not_mem_nil
    rw [List.filter_eq_self.mpr hall]
  | cons entry rest ih =>
    obtain ⟨cacheKey, ⟨completion, logprobs, usage⟩, model⟩ := entry
    cases logprobs with
    | error message =>
      refine ih fun row hmem hp => restored_of_cons (h row hmem hp) ?_
      exact fun hkey => Bool.false_ne_true hkey.1
    | ok logprobsData =>
      show rest.foldl _ (cache.insertOrReplace cacheKey _ model now logprobsData (table.filter p)) = _
      rw [insertOrReplace_filter]
      refine ih fun row hmem hp => ?_
      obtain ⟨hp, hother⟩ := Bool.or_eq_false_iff.mp hp
      have hother := of_decide_eq_false hother
      rcases List.mem_append.mp hmem with hold | hnew
      · exact restored_of_cons (h row (List.mem_filter.mp hold).1 hp) fun hkey => hother ⟨hkey.2.2, hkey.2.1⟩
      · rw [List.mem_singleton.mp hnew] at hother
        exact absurd ⟨rfl, rfl⟩ hother

/-- One call evicts what the later ones store again exactly when they cannot tell. -/
theorem insertAll_setCounted
    (h : ∀ row ∈ cache.evictedRows storage now state entry, Restored cache rest row) :
    rest.foldl (cache.insertEntry now) (cache.setCounted storage now state entry).database.table =
      rest.foldl (cache.insertEntry now) (cache.insertEntry now state.database.table entry) := by
  rw [setCounted_table]
  unfold evictedRows at h
  cases hserializes : entry.serializes with
  | false => rw [if_neg Bool.false_ne_true, insertEntry_of_not_serializes hserializes]
  | true =>
    rw [if_pos rfl]
    unfold maybeEvict
    split
    next hoversized =>
        rw [if_pos ⟨hserializes, hoversized⟩] at h
        refine insertAll_filter fun row hmem hp => h row (List.mem_filter.mpr ⟨hmem, ?_⟩)
        rw [decide_eq_true_eq]
        exact not_not.mp (of_decide_eq_false hp)
    next => rfl

/-- **The single calls leave what they would leave without evictions exactly when they evict in vain.** -/
theorem single_table_iff (entries : List Entry) (state : CacheState File) :
    (entries.foldl (cache.setCounted storage now) state).database.table =
        entries.foldl (cache.insertEntry now) state.database.table ↔
      cache.EvictsInVain storage now state entries := by
  induction entries generalizing state with
  | nil => exact ⟨fun _ => trivial, fun _ => rfl⟩
  | cons entry rest ih =>
    show (rest.foldl (cache.setCounted storage now) (cache.setCounted storage now state entry)).database.table =
      rest.foldl (cache.insertEntry now) (cache.insertEntry now state.database.table entry) ↔ _
    constructor
    · intro heq
      -- an evicted row that is not stored again would be left without the eviction
      have hvain : ∀ row ∈ cache.evictedRows storage now state entry, Restored cache rest row := by
        intro row hevicted
        by_contra hother
        have hinserted : row ∈ cache.insertEntry now state.database.table entry := by
          unfold evictedRows at hevicted
          split at hevicted
          · exact (List.mem_filter.mp hevicted).1
          · exact absurd hevicted List.not_mem_nil
        have hleft : row ∈ rest.foldl (cache.insertEntry now) _ := mem_insertAll hinserted hother
        rw [← heq] at hleft
        rcases mem_single hleft with hkept | hrestored
        · exact (mem_setCounted hkept).2 hevicted
        · exact hother hrestored
      refine ⟨hvain, (ih _).mp ?_⟩
      rw [heq, insertAll_setCounted hvain]
    · rintro ⟨hvain, hrest⟩
      rw [(ih _).mpr hrest, insertAll_setCounted hvain]

/-- The single calls count each entry. -/
theorem single_counters (entries : List Entry) (state : CacheState File) :
    (entries.foldl (cache.setCounted storage now) state).counters =
      { state.counters with
        stores := state.counters.stores + entries.countP Entry.serializes
        errors := state.counters.errors + entries.countP (fun entry => !entry.serializes) } := by
  induction entries generalizing state with
  | nil => rfl
  | cons entry rest ih =>
    show (rest.foldl _ (cache.setCounted storage now state entry)).counters = _
    rw [ih, List.countP_cons, List.countP_cons]
    unfold setCounted
    cases hserializes : entry.serializes with
    | true => simp [Nat.add_comm, Nat.add_left_comm]
    | false => simp [Nat.add_comm, Nat.add_assoc]

/-! ## The batch -/

theorem setEntry_eq (stored : Table × Nat) (entry : Entry) :
    cache.setEntry now stored entry =
      if entry.batched then (cache.insertEntry now stored.1 entry, stored.2 + 1) else stored := by
  obtain ⟨cacheKey, ⟨completion, logprobs, usage⟩, model⟩ := entry
  unfold SQLiteLLMCache.setEntry Entry.batched
  by_cases hkey : cacheKey = ""
  · simp [hkey]
  · cases logprobs with
    | error message => simp [hkey, Entry.serializes]
    | ok logprobsData =>
      simp [hkey, Entry.serializes]
      rfl

theorem batch_count (entries : List Entry) (stored : Table × Nat) :
    (entries.foldl (cache.setEntry now) stored).2 = stored.2 + entries.countP Entry.batched := by
  induction entries generalizing stored with
  | nil => rfl
  | cons entry rest ih =>
    rw [List.foldl_cons, ih, setEntry_eq, List.countP_cons]
    split
    · dsimp only
      omega
    · omega

/-- Where every entry that can be stored has a key, the batch inserts them all. -/
theorem batch_table (entries : List Entry) (hkeys : ∀ entry ∈ entries, entry.serializes = true → entry.1 ≠ "")
    (stored : Table × Nat) :
    (entries.foldl (cache.setEntry now) stored).1 = entries.foldl (cache.insertEntry now) stored.1 := by
  induction entries generalizing stored with
  | nil => rfl
  | cons entry rest ih =>
    rw [List.foldl_cons, List.foldl_cons, ih (fun entry hmem => hkeys entry (List.mem_cons_of_mem _ hmem)), setEntry_eq]
    have hkey := hkeys entry List.mem_cons_self
    cases hserializes : entry.serializes with
    | true =>
      have hbatched : entry.batched = true := by
        unfold Entry.batched
        simp [hserializes, hkey hserializes]
      rw [if_pos hbatched]
    | false =>
      have hbatched : entry.batched = false := by
        unfold Entry.batched
        simp [hserializes]
      rw [hbatched, if_neg Bool.false_ne_true, insertEntry_of_not_serializes hserializes]

/-- The batch counts as many stores as the single calls exactly when every entry that can be stored has a key. -/
theorem countP_batched_eq_iff (entries : List Entry) :
    entries.countP Entry.batched = entries.countP Entry.serializes ↔
      ∀ entry ∈ entries, entry.serializes = true → entry.1 ≠ "" := by
  have hle (rest : List Entry) : rest.countP Entry.batched ≤ rest.countP Entry.serializes :=
    List.countP_mono_left fun entry _ hbatched => (Bool.and_eq_true_iff.mp hbatched).1
  induction entries with
  | nil => simp
  | cons entry rest ih =>
    rw [List.countP_cons, List.countP_cons, List.forall_mem_cons]
    have hrest := hle rest
    have hbatched : entry.batched = (entry.serializes && decide (entry.1 ≠ "")) := rfl
    rw [hbatched]
    cases hserializes : entry.serializes with
    | false => simpa using ih
    | true =>
      by_cases hkey : entry.1 = ""
      · constructor
        · intro heq
          simp only [hkey] at heq
          simp at heq
          omega
        · rintro ⟨hnonempty, _⟩
          exact absurd hkey (hnonempty rfl)
      · simpa [hkey] using ih

/-- **When `set_batch` agrees with the single calls.** -/
theorem setBatchAgrees_iff (state : CacheState File) (entries : List Entry) :
    cache.SetBatchAgrees storage now state entries ↔
      entries = [] ∨
        (entries.countP (fun entry => !entry.serializes) = 1 ∧
          (∀ entry ∈ entries, entry.serializes = true → entry.1 ≠ "") ∧ cache.EvictsInVain storage now state entries) := by
  unfold SetBatchAgrees setBatchCounted
  by_cases hempty : entries = []
  · subst hempty
    simp
  · dsimp only
    rw [if_neg hempty, single_counters]
    have hcounters : (cache.setBatch entries now state.database.table).2 = entries.countP Entry.batched := by
      unfold SQLiteLLMCache.setBatch
      rw [batch_count, Nat.zero_add]
    have htable (hkeys : ∀ entry ∈ entries, entry.serializes = true → entry.1 ≠ "") :
        (step storage state.database ⟨cache, .setBatch entries now⟩).1.table =
          entries.foldl (cache.insertEntry now) state.database.table := batch_table entries hkeys _
    constructor
    · rintro ⟨hsame, hcounts⟩
      right
      rw [hcounters] at hcounts
      injection hcounts with _ _ hstores herrors
      have hkeys := (countP_batched_eq_iff entries).mp (Nat.add_left_cancel hstores)
      refine ⟨(Nat.add_left_cancel herrors).symm, hkeys, ?_⟩
      rw [htable hkeys] at hsame
      exact (single_table_iff entries state).mp hsame.symm
    · rintro (hnone | ⟨hone, hkeys, hvain⟩)
      · exact absurd hnone hempty
      · dsimp only
        rw [htable hkeys, hcounters, hone, (countP_batched_eq_iff entries).mpr hkeys]
        exact ⟨((single_table_iff entries state).mpr hvain).symm, rfl⟩

/-! ## Reading -/

omit File storage in
theorem lookup_map_key (rows : Table) (key : String) :
    (rows.map fun row => (row.cacheKey, row.toCachedResponse)).lookup key =
      (rows.find? fun row => decide (row.cacheKey = key)).map Row.toCachedResponse := by
  induction rows with
  | nil => rfl
  | cons row rows ih =>
    rw [List.map_cons, List.lookup_cons, List.find?_cons]
    by_cases hkey : row.cacheKey = key
    · simp [hkey]
    · have hne : (key == row.cacheKey) = false := by simpa using fun h => hkey h.symm
      rw [hne, decide_eq_false hkey]
      exact ih

theorem get_response (cacheKey : String) (now now' : Int) (table : Table) :
    (cache.get cacheKey now now' table).2 =
      (table.find? fun row => decide (cache.Fresh now [cacheKey] row)).map Row.toCachedResponse := by
  unfold SQLiteLLMCache.get
  split
  next hnone => rw [hnone]; rfl
  next row hsome => rw [hsome]; rfl

/-- `get_batch` finds the row that `get` finds. -/
theorem getBatch_lookup (cacheKeys : List String) (now now' : Int) (table : Table) (key : String) :
    (cache.getBatch cacheKeys now now' table).2.lookup key =
      if key ∈ cacheKeys then (cache.get key now now' table).2 else none := by
  have hrows : (cache.getBatch cacheKeys now now' table).2 =
      (table.filter fun row => decide (cache.Fresh now cacheKeys row)).map
        fun row => (row.cacheKey, row.toCachedResponse) := by
    unfold SQLiteLLMCache.getBatch
    split
    next hnil =>
        subst hnil
        have hnone : (table.filter fun row => decide (cache.Fresh now [] row)) = [] :=
          List.filter_eq_nil_iff.mpr fun row _ hfresh => absurd (of_decide_eq_true hfresh).1 List.not_mem_nil
        rw [hnone]
        rfl
    next => rfl
  rw [hrows, lookup_map_key, List.find?_filter, get_response]
  split
  next hmem =>
      congr 2
      funext row
      unfold Fresh
      by_cases hkey : row.cacheKey = key
      · simp [hkey, hmem]
      · simp [hkey]
  next hmem =>
      rw [Option.map_eq_none_iff, List.find?_eq_none]
      intro row _ hboth
      obtain ⟨hfresh, hkey⟩ := of_decide_eq_true hboth
      exact hmem (of_decide_eq_true hkey ▸ (of_decide_eq_true hfresh).1)

/-- A look-up changes nothing for another key, so that single calls one after another find what each finds alone. -/
theorem get_after_get {key key' : String} (hne : key ≠ key') (now now' : Int) (table : Table) :
    (cache.get key now now' (cache.get key' now now' table).1).2 = (cache.get key now now' table).2 := by
  have htouch (rows : Table) : (cache.touch now' [key'] rows).find? (fun row => decide (cache.Fresh now [key] row)) =
      rows.find? (fun row => decide (cache.Fresh now [key] row)) := by
    unfold SQLiteLLMCache.touch
    induction rows with
    | nil => rfl
    | cons row rows ih =>
      rw [List.map_cons, List.find?_cons, List.find?_cons, ih]
      by_cases htouched : row.cacheKey ∈ [key'] ∧ row.inNamespace = cache.inNamespace
      · rw [if_pos htouched]
        have hkey : row.cacheKey ≠ key := by
          rw [List.mem_singleton.mp htouched.1]
          exact hne.symm
        have hother (row' : Row) (hsame : row'.cacheKey = row.cacheKey) : ¬ cache.Fresh now [key] row' := by
          intro hfresh
          rw [← hsame] at hkey
          exact hkey (List.mem_singleton.mp hfresh.1)
        rw [decide_eq_false (hother row rfl),
          decide_eq_false (hother { row with accessCount := row.accessCount + 1, lastAccessed := now' } rfl)]
      · rw [if_neg htouched]
  rw [get_response, get_response]
  unfold SQLiteLLMCache.get
  split
  · rfl
  · rw [htouch]

/-- **When `get_batch` agrees with the single calls.** -/
theorem getBatchAgrees_iff (maxVariables : Nat) (cacheKeys : List String) (now now' : Int) (table : Table) :
    cache.GetBatchAgrees maxVariables cacheKeys now now' table ↔
      cacheKeys.length + 2 ≤ maxVariables ∨ ∀ row ∈ table, ¬ cache.Fresh now cacheKeys row := by
  unfold GetBatchAgrees getBatchWithin
  by_cases hlimit : cacheKeys ≠ [] ∧ maxVariables < cacheKeys.length + 2
  · rw [if_pos hlimit]
    constructor
    · intro hagrees
      right
      intro row hrow hfresh
      have hnone := hagrees row.cacheKey
      rw [if_pos hfresh.1, get_response] at hnone
      have hfound := List.find?_eq_none.mp (Option.map_eq_none_iff.mp hnone.symm) row hrow
      exact hfound (decide_eq_true ⟨List.mem_singleton_self _, hfresh.2⟩)
    · rintro (hle | hnone) key
      · omega
      · show none = _
        split
        next hmem =>
            rw [get_response, eq_comm, Option.map_eq_none_iff, List.find?_eq_none]
            intro row hrow hfresh
            obtain ⟨hkey, hrest⟩ := of_decide_eq_true hfresh
            exact hnone row hrow ⟨List.mem_singleton.mp hkey ▸ hmem, hrest⟩
        next => rfl
  · rw [if_neg hlimit]
    constructor
    · intro _
      by_cases hnil : cacheKeys = []
      · right
        intro row _ hfresh
        rw [hnil] at hfresh
        exact absurd hfresh.1 List.not_mem_nil
      · left
        exact not_lt.mp fun hlt => hlimit ⟨hnil, hlt⟩
    · intro _ key
      exact getBatch_lookup cacheKeys now now' table key

end

end SQLiteLLMCache

/-! ## The main theorem -/

open SQLiteLLMCache

/-- **`set_batch` agrees with the single calls exactly when it is empty, or its one spurious error is the error of an entry and what
the single calls evict is stored again; `get_batch` agrees with them exactly when SQLite accepts its keys or none of them is found.** -/
theorem batch_agrees_iff (cache : SQLiteLLMCache) (storage : Storage File) (state : CacheState File) (entries : List Entry)
    (cacheKeys : List String) (maxVariables : Nat) (now now' : Int) :
    (cache.SetBatchAgrees storage now state entries ↔
      entries = [] ∨
        (entries.countP (fun entry => !entry.serializes) = 1 ∧
          (∀ entry ∈ entries, entry.serializes = true → entry.1 ≠ "") ∧ cache.EvictsInVain storage now state entries)) ∧
    (cache.GetBatchAgrees maxVariables cacheKeys now now' state.database.table ↔
      cacheKeys.length + 2 ≤ maxVariables ∨ ∀ row ∈ state.database.table, ¬ cache.Fresh now cacheKeys row) :=
  ⟨setBatchAgrees_iff state entries, getBatchAgrees_iff maxVariables cacheKeys now now' state.database.table⟩

/-- A cache that nobody has used. -/
def unusedCache : CacheState Unit := ⟨⟨[], ()⟩, ⟨0, 0, 0, 0⟩⟩

/-- Two responses, under keys of their own. -/
def twoEntries : List Entry :=
  [("k", ⟨"first", .ok none, none⟩, "gpt-4o"), ("j", ⟨"second", .ok none, none⟩, "gpt-4o")]

/-- **A batch counts an error, and leaves in a file that is too large what the single calls evict. More keys than SQLite has variables
are all missed.** -/
theorem setBatch_counts_error :
    (largeCache.setBatchCounted fullFile 0 unusedCache twoEntries).counters = ⟨0, 0, 2, 1⟩ ∧
    (twoEntries.foldl (largeCache.setCounted fullFile 0) unusedCache).counters = ⟨0, 0, 2, 0⟩ ∧
    (smallCache.setBatchCounted fullFile 0 unusedCache twoEntries).database.table.map Row.cacheKey = ["k", "j"] ∧
    (twoEntries.foldl (smallCache.setCounted fullFile 0) unusedCache).database.table.map Row.cacheKey = [] ∧
    ¬ largeCache.SetBatchAgrees fullFile 0 unusedCache twoEntries ∧
    ¬ largeCache.GetBatchAgrees 32766 ("k" :: List.replicate 32766 "j") 1 1
      (largeCache.setBatchCounted fullFile 0 unusedCache twoEntries).database.table := by
  refine ⟨by decide, by decide, by decide, by decide, ?_, ?_⟩
  · rintro ⟨-, hcounters⟩
    exact absurd hcounters (by decide)
  · rw [getBatchAgrees_iff, List.length_cons, List.length_replicate]
    rintro (hle | hnone)
    · exact absurd hle (by decide)
    · refine hnone _ List.mem_cons_self ⟨List.mem_cons_self, rfl, ?_⟩
      decide

end LLMCache

end Fenic
