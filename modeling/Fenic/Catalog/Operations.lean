import Fenic.Catalog.LocalCatalog

/-!
# `Catalog.Operations` — what an operation can do

For every transaction of the catalog there is one lemma that says what each table is after it: `table` of the new database, key by
key. The rows of the schemas stand under folded names, and so do all tables that an operation reaches.

`Effect` says for every operation what it commits when it changes the catalog at all: which transaction, and what it has found out
before. `changes_program` proves it of the programs, whatever fails on the way. Nothing else about the programs is needed for what
holds over runs of operations, one after the other.
-/

namespace Fenic

namespace Catalog

open SystemTableClient

section

variable [Casefold]

/-! ## Folded names -/

theorem folded_ascii {name : String} (h : name.toList.all (fun c => c.toNat < 128 && c.toLower == c) = true) : Folded name := by
  have hascii : ∀ c ∈ name.toList, c.toNat < 128 ∧ c.toLower = c := by simpa using h
  have hlower : name.toList.map Char.toLower = name.toList :=
    (List.map_congr_left fun c hc => (hascii c hc).2).trans (List.map_id _)
  unfold Folded
  rw [Casefold.casefold_ascii name fun c hc => (hascii c hc).1, hlower, String.ofList_toList]

theorem folded_defaultDatabaseName : Folded defaultDatabaseName := folded_ascii rfl

theorem folded_readOnlySystemSchemaName : Folded readOnlySystemSchemaName := folded_ascii rfl

structure TableKey.Folded (key : TableKey) : Prop where
  db : Catalog.Folded key.db
  table : Catalog.Folded key.table

theorem TableKey.Folded.normalize {key : TableKey} (h : key.Folded) :
    (⟨normalizeObjectName key.db, normalizeObjectName key.table⟩ : TableKey) = key := by
  exact congrArg₂ TableKey.mk h.db h.table

/-- The parts of an identifier are folded. -/
theorem TableIdentifier.folded_of_fromString {fullName : String} {identifier : TableIdentifier}
    (h : fromString fullName = .ok identifier) :
    Folded identifier.table ∧ ∀ db, identifier.db = some db → Folded db := by
  obtain ⟨parts, -, h⟩ := Except.bind_eq_ok.mp h
  split at h
  · cases h
    exact ⟨folded_normalize _, nofun⟩
  · cases h
    refine ⟨folded_normalize _, ?_⟩
    rintro db ⟨⟩
    exact folded_normalize _
  · cases h
    refine ⟨folded_normalize _, ?_⟩
    rintro db ⟨⟩
    exact folded_normalize _
  · cases h

/-- The table that a name stands for, in a current database. -/
def resolveName (currentDatabase tableName : String) : Except CatalogException TableKey := do
  let identifier ← TableIdentifier.fromString tableName
  identifier.resolve currentDatabase

theorem folded_of_resolveName {currentDatabase tableName : String} {key : TableKey} (hcurrent : Folded currentDatabase)
    (h : resolveName currentDatabase tableName = .ok key) : key.Folded := by
  obtain ⟨identifier, hidentifier, h⟩ := Except.bind_eq_ok.mp h
  obtain ⟨htable, hdb⟩ := TableIdentifier.folded_of_fromString hidentifier
  obtain ⟨-, h⟩ := Except.require_eq_ok.mp h
  cases h
  refine ⟨?_, htable⟩
  cases hsome : identifier.db with
  | none => exact hcurrent
  | some db => exact hdb db hsome

theorem folded_of_resolveDatabase {fullName db : String} (h : resolveDatabase fullName = .ok db) : Folded db := by
  obtain ⟨parts, -, h⟩ := Except.bind_eq_ok.mp h
  split at h
  · cases h
    exact folded_normalize _
  · obtain ⟨-, h⟩ := Except.require_eq_ok.mp h
    cases h
    exact folded_normalize _
  · cases h

/-- A folded name is read-only when it is the name of the read-only schema. -/
theorem isReadOnly_iff {db : String} (h : Folded db) : isReadOnly db = true ↔ db = readOnlySystemSchemaName := by
  unfold isReadOnly compareObjectNames
  rw [beq_iff_eq, show casefold db = db from h, show casefold readOnlySystemSchemaName = _ from folded_readOnlySystemSchemaName]

end

/-! ## Statements -/

section

variable {Plan Tool : Type} {database database' : Database Plan Tool} {u : Unit} {key key' : TableKey}

theorem Statement.bind_eq_ok {α β : Type} {m : Statement Plan Tool α} {f : α → Statement Plan Tool β} {b : β} :
    (m >>= f) database = .ok (b, database') ↔ ∃ a between, m database = .ok (a, between) ∧ f a between = .ok (b, database') := by
  show (m database >>= fun answer => f answer.1 answer.2) = _ ↔ _
  rw [Except.bind_eq_ok]
  exact ⟨fun ⟨answer, h⟩ => ⟨answer.1, answer.2, h⟩, fun ⟨a, between, h⟩ => ⟨(a, between), h⟩⟩

theorem Statement.select_eq_ok {α : Type} {question : Database Plan Tool → Except CatalogException α} {a : α}
    (h : Statement.select question database = .ok (a, database')) : question database = .ok a ∧ database' = database := by
  obtain ⟨answer, hanswer, h⟩ := Except.map_eq_ok.mp h
  cases h
  exact ⟨hanswer, rfl⟩

/-- The table of a key after another one was deleted, or some were. -/
theorem table_deleted (schemas : List String) (database : Database Plan Tool) (p : TableKey → Prop) [DecidablePred p]
    (key : TableKey) :
    (⟨schemas, Keyed.delete p database.tables⟩ : Database Plan Tool).table key = if p key then none else database.table key :=
  Keyed.get_delete p database.tables key

variable [DuckDB]

variable {df : DataFrame}

theorem createTableAs_effect (h : createTableAs key df database = .ok (u, database')) :
    database' = if (database.table key).isSome then database
      else database.put key (.user (DuckDB.createdColumns df.columns) df.rows) := by
  unfold createTableAs at h
  split at h
  · cases h
  · cases h
    rfl

theorem createOrReplaceTableAs_effect (h : createOrReplaceTableAs key df database = .ok (u, database')) :
    database' = database.put key (.user (DuckDB.createdColumns df.columns) df.rows) := by
  unfold createOrReplaceTableAs at h
  split at h
  · cases h
  · cases h
    rfl

/-- A frame goes into a table that a user made, and leaves its columns. -/
theorem insertInto_effect (h : insertInto key df database = .ok (u, database')) :
    ∃ columns rows newRows, database.table key = some (.user columns rows) ∧
      database' = database.put key (.user columns (rows ++ newRows)) := by
  unfold insertInto at h
  split at h
  · cases h
  next columns rows htable =>
    split at h
    · cases h
    next newRows hrows =>
      cases h
      exact ⟨columns, rows, newRows, htable, rfl⟩
  · cases h

/-- A schema that is dropped takes its tables along, where there may be any. -/
theorem dropSchema_effect {db : String} {cascade : Bool} (hschema : db ∈ database.schemas)
    (h : dropSchema db cascade database = .ok (u, database')) :
    database' = ⟨database.schemas.filter (· ≠ db), Keyed.delete (fun key => key.db = db) database.tables⟩ ∧
      (cascade = false → ∀ entry ∈ database.tables, entry.1.db ≠ db) := by
  unfold dropSchema at h
  split at h
  · cases h
  · split at h
    · cases h
    next hempty =>
      cases h
      refine ⟨rfl, ?_⟩
      intro hcascade entry hentry hdb
      exact hempty ⟨hcascade, entry, hentry, hdb⟩

/-! ## The client -/

variable {description : Option String}

omit [DuckDB] in
theorem keepDescription_effect {description' : Option String}
    {stored : Database Plan Tool → Except CatalogException (Option String)}
    (h : keepDescription description stored database = .ok (description', database')) : database' = database := by
  cases description with
  | some description =>
    cases h
    rfl
  | none => exact (Statement.select_eq_ok h).2

/-- A system table gets other rows. -/
theorem updateViews_effect {f : List (TableKey × ViewRow Plan) → List (TableKey × ViewRow Plan)}
    {g : CatalogException → CatalogException}
    (h : Statement.mapError g ((tableViews Plan Tool).update f) database = .ok (u, database')) :
    ∃ rows, database' = database.put viewsMetadataTable (.tableViews (f rows)) := by
  obtain ⟨rows, -, hdatabase⟩ := (tableViews Plan Tool).update_eq_ok.mp (Except.mapError_eq_ok.mp h)
  exact ⟨rows, hdatabase⟩

theorem updateTools_effect {f : List (String × Tool) → List (String × Tool)} {g : CatalogException → CatalogException}
    (h : Statement.mapError g ((mcpTools Plan Tool).update f) database = .ok (u, database')) :
    ∃ rows, database' = database.put toolsMetadataTable (.mcpTools (f rows)) := by
  obtain ⟨rows, -, hdatabase⟩ := (mcpTools Plan Tool).update_eq_ok.mp (Except.mapError_eq_ok.mp h)
  exact ⟨rows, hdatabase⟩

variable [Casefold]

theorem saveTable_effect {schema : Schema} (hkey : key.Folded)
    (h : saveTable key schema description database = .ok (u, database')) :
    ∃ rows description', database.table schemaMetadataTable = some (.tableSchemas rows) ∧
      database' = database.put schemaMetadataTable
        (.tableSchemas (Keyed.upsert key ⟨serializeSchema schema, description'⟩ rows)) := by
  unfold saveTable at h
  rw [hkey.normalize] at h
  obtain ⟨description', between, hdescription, h⟩ := Statement.bind_eq_ok.mp (Except.mapError_eq_ok.mp h)
  cases keepDescription_effect hdescription
  obtain ⟨rows, hrows, rfl⟩ := (tableSchemas Plan Tool).update_eq_ok.mp h
  exact ⟨rows, description', hrows, rfl⟩

theorem deleteSchema_effect (hkey : key.Folded) (h : deleteSchema key database = .ok (u, database')) :
    ∃ rows, database.table schemaMetadataTable = some (.tableSchemas rows) ∧
      database' = database.put schemaMetadataTable (.tableSchemas (Keyed.delete (· = key) rows)) := by
  unfold deleteSchema at h
  rw [hkey.normalize] at h
  exact (tableSchemas Plan Tool).update_eq_ok.mp (Except.mapError_eq_ok.mp h)

theorem deleteDatabaseSchemas_effect {db : String} (hdb : Folded db)
    (h : deleteDatabaseSchemas db database = .ok (u, database')) :
    ∃ rows, database.table schemaMetadataTable = some (.tableSchemas rows) ∧
      database' = database.put schemaMetadataTable (.tableSchemas (Keyed.delete (fun key => key.db = db) rows)) := by
  unfold deleteDatabaseSchemas normalizeObjectName at h
  rw [show casefold db = db from hdb] at h
  exact (tableSchemas Plan Tool).update_eq_ok.mp (Except.mapError_eq_ok.mp h)

theorem saveView_effect {plan : Plan}
    (h : saveView key plan description database = .ok (u, database')) :
    ∃ rows, database' = database.put viewsMetadataTable (.tableViews rows) := by
  obtain ⟨description', between, hdescription, h⟩ := Statement.bind_eq_ok.mp (Except.mapError_eq_ok.mp h)
  cases keepDescription_effect hdescription
  obtain ⟨rows, -, rfl⟩ := (tableViews Plan Tool).update_eq_ok.mp h
  exact ⟨_, rfl⟩

end

/-! ## What an operation can do -/

open StoreProgram SystemTableClient

section

variable {Plan Tool : Type} {catalog catalog' : LocalCatalog Plan Tool}

/-- The statement takes the database of one catalog to that of the other. -/
def Transacts {α : Type} (statement : Statement Plan Tool α) (catalog catalog' : LocalCatalog Plan Tool) : Prop :=
  (∃ a, statement catalog.database = .ok (a, catalog'.database)) ∧ catalog'.currentDatabase = catalog.currentDatabase

variable {α : Type}

theorem changes_commitDatabase (statement : Statement Plan Tool α) :
    Changes (commitDatabase statement) (Transacts statement catalog) catalog := by
  apply Changes.commit
  intro a catalog' h
  obtain ⟨answer, hanswer, h⟩ := Except.map_eq_ok.mp h
  cases h
  exact ⟨⟨answer.1, hanswer⟩, rfl⟩

theorem changes_transaction {β : Type} (statement : Statement Plan Tool Unit) (h : CatalogException → CatalogException) (b : β) :
    Changes (do (commitDatabase statement).mapError h; return b) (Transacts statement catalog) catalog :=
  ((changes_commitDatabase statement).mapError h).bind_pure fun _ => b

theorem returns_askDatabase (question : Database Plan Tool → Except CatalogException α) :
    Returns (askDatabase question) (fun a => question catalog.database = .ok a) catalog := Returns.ask fun _ h => h

theorem returns_getCurrentDatabase :
    Returns getCurrentDatabase (fun currentDatabase => currentDatabase = catalog.currentDatabase) catalog :=
  Returns.askGuarded fun _ h => (Except.ok.inj h).symm

theorem returns_doesTableExist (key : TableKey) :
    Returns (doesTableExist key) (fun found => found = (catalog.database.table key).isSome) catalog :=
  ((returns_askDatabase _).mapError _).mono fun _ h => (Except.ok.inj h).symm

theorem returns_doesDatabaseExist (db : String) :
    Returns (doesDatabaseExist db) (fun found => found = decide (db ∈ catalog.database.schemas)) catalog :=
  ((returns_askDatabase _).mapError _).mono fun _ h => (Except.ok.inj h).symm

/-- An object that is there, or is not, is ignored or an error. -/
theorem changes_ignore {ignore : Bool} {b : Bool} {e : CatalogException} {effect : LocalCatalog Plan Tool → Prop} :
    Changes (if ignore then return b else raise e) effect catalog :=
  Changes.ite (fun _ => Changes.pure b) fun _ => Changes.raise e

variable [Casefold]

theorem returns_resolveTable (tableName : String) :
    Returns (resolveTable tableName) (fun key => resolveName catalog.currentDatabase tableName = .ok key) catalog := by
  apply Returns.bind (Returns.lift fun _ h => h)
  intro identifier hidentifier
  apply Returns.bind returns_getCurrentDatabase
  rintro _ rfl
  apply Returns.lift
  intro key hkey
  exact Except.bind_eq_ok.mpr ⟨identifier, hidentifier, hkey⟩

theorem returns_resolveDatabase (databaseName : String) :
    Returns (lift (resolveDatabase databaseName) : Program Plan Tool String)
      (fun db => resolveDatabase databaseName = .ok db) catalog := Returns.lift fun _ h => h

/-- A name is resolved, and tables of the read-only schema are refused. -/
theorem changes_resolved {tableName : String} {e : TableKey → CatalogException} {p : TableKey → Program Plan Tool α}
    {effect : LocalCatalog Plan Tool → Prop}
    (h : ∀ key, resolveName catalog.currentDatabase tableName = .ok key → isReadOnly key.db = false →
      Changes (p key) effect catalog) :
    Changes (resolveTable tableName >>= fun key => if isReadOnly key.db then raise (e key) else p key) effect catalog := by
  apply Changes.bind (returns_resolveTable tableName)
  intro key hkey
  apply Changes.ite
  · intro _
    exact Changes.raise _
  · intro hwritable
    exact h key hkey (Bool.eq_false_iff.mpr hwritable)

variable [DuckDB]

omit [Casefold] in
theorem returns_doesViewExist (key : TableKey) : Returns (doesViewExist key) (fun _ => True) catalog :=
  ((returns_askDatabase _).mapError _).mono fun _ _ => trivial

/-! ## Effects -/

/-- What an operation commits. -/
def Operation.Effect (operation : Operation Plan Tool) (catalog catalog' : LocalCatalog Plan Tool) : Prop :=
  match operation with
  | .createDatabase _ _ => ∃ db, Transacts (createSchema db) catalog catalog'
  | .dropDatabase databaseName cascade _ =>
    ∃ db, resolveDatabase databaseName = .ok db ∧ isReadOnly db = false ∧ db ∈ catalog.database.schemas ∧
      Transacts (dropDatabaseTransaction databaseName db cascade) catalog catalog'
  | .setCurrentDatabase databaseName =>
    ∃ db, resolveDatabase databaseName = .ok db ∧ catalog' = { catalog with currentDatabase := db }
  | .createTable tableName schema _ description =>
    ∃ key, resolveName catalog.currentDatabase tableName = .ok key ∧ isReadOnly key.db = false ∧
      catalog.database.table key = none ∧
      Transacts (createTableTransaction key ⟨convertCustomSchemaToPolarsSchema schema, []⟩ schema description) catalog catalog'
  | .dropTable tableName _ =>
    ∃ key, resolveName catalog.currentDatabase tableName = .ok key ∧ isReadOnly key.db = false ∧
      Transacts (dropTableTransaction key) catalog catalog'
  | .setTableDescription _ description =>
    ∃ key, Transacts (SystemTableClient.setTableDescription key description) catalog catalog'
  | .writeDfToTable df tableName schema =>
    ∃ key, resolveName catalog.currentDatabase tableName = .ok key ∧ isReadOnly key.db = false ∧
      Transacts (writeTransaction key df schema) catalog catalog'
  | .insertDfToTable df _ _ => ∃ key, Transacts (insertInto key df) catalog catalog'
  | .replaceTableWithDf df tableName schema =>
    ∃ key, resolveName catalog.currentDatabase tableName = .ok key ∧ isReadOnly key.db = false ∧
      Transacts (replaceTransaction key df schema) catalog catalog'
  | .saveAsTable df tableName mode schema =>
    ∃ key, resolveName catalog.currentDatabase tableName = .ok key ∧
      (mode = .append ∧ Transacts (insertInto key df) catalog catalog' ∨
        isReadOnly key.db = false ∧
          (mode = .overwrite ∧ (catalog.database.table key).isSome ∧ Transacts (replaceTransaction key df schema) catalog catalog' ∨
            catalog.database.table key = none ∧ Transacts (writeTransaction key df schema) catalog catalog'))
  | .createView _ logicalPlan _ description => ∃ key, Transacts (saveView key logicalPlan description) catalog catalog'
  | .dropView _ _ => ∃ key, Transacts (deleteView key) catalog catalog'
  | .setViewDescription _ description =>
    ∃ key, Transacts (SystemTableClient.setViewDescription key description) catalog catalog'
  | .createTool toolName _ _ => ∃ tool, Transacts (saveTool toolName tool) catalog catalog'
  | .dropTool toolName _ => Transacts (deleteTool toolName) catalog catalog'
  | .insertQueryMetrics executionId metrics =>
    Transacts (SystemTableClient.insertQueryMetrics executionId metrics) catalog catalog'
  | _ => False

theorem changes_createDatabase (databaseName : String) (ignoreIfExists : Bool) :
    Changes (createDatabase databaseName ignoreIfExists)
      ((Operation.createDatabase databaseName ignoreIfExists).Effect catalog) catalog := by
  apply Changes.bind (returns_resolveDatabase databaseName)
  intro db _
  apply Changes.bind (returns_doesDatabaseExist db)
  intro found _
  apply Changes.ite
  · intro _
    exact changes_ignore
  · intro _
    exact (changes_transaction _ _ true).mono fun _ h => ⟨db, h⟩

theorem changes_dropDatabase (databaseName : String) (cascade ignoreIfNotExists : Bool) :
    Changes (dropDatabase databaseName cascade ignoreIfNotExists)
      ((Operation.dropDatabase databaseName cascade ignoreIfNotExists).Effect catalog) catalog := by
  apply Changes.bind (returns_resolveDatabase databaseName)
  intro db hdb
  apply Changes.ite
  · intro _
    exact Changes.raise _
  · intro hwritable
    apply Changes.bind returns_getCurrentDatabase
    intro currentDatabase _
    apply Changes.ite
    · intro _
      exact Changes.raise _
    · intro _
      apply Changes.bind (returns_doesDatabaseExist db)
      rintro _ rfl
      apply Changes.ite
      · intro hfound
        exact (changes_transaction _ _ true).mono fun _ h =>
          ⟨db, hdb, Bool.eq_false_iff.mpr hwritable, of_decide_eq_true hfound, h⟩
      · intro _
        exact changes_ignore

theorem changes_setCurrentDatabase (databaseName : String) :
    Changes (setCurrentDatabase databaseName)
      ((Operation.setCurrentDatabase databaseName : Operation Plan Tool).Effect catalog) catalog := by
  apply Changes.bind (returns_resolveDatabase databaseName)
  intro db hdb
  apply Changes.bind (returns_doesDatabaseExist db)
  intro found _
  apply Changes.ite
  · intro _
    apply Changes.commit
    rintro a catalog' ⟨⟩
    exact ⟨db, hdb, rfl⟩
  · intro _
    exact Changes.raise _

theorem changes_createTable (tableName : String) (schema : Schema) (ignoreIfExists : Bool) (description : Option String) :
    Changes (createTable tableName schema ignoreIfExists description)
      ((Operation.createTable tableName schema ignoreIfExists description).Effect catalog) catalog := by
  apply changes_resolved
  intro key hkey hwritable
  apply Changes.bind (returns_doesTableExist key)
  rintro _ rfl
  apply Changes.ite
  · intro _
    exact changes_ignore
  · intro habsent
    exact (changes_transaction _ _ true).mono fun _ h =>
      ⟨key, hkey, hwritable, Option.not_isSome_iff_eq_none.mp habsent, h⟩

theorem changes_dropTable (tableName : String) (ignoreIfNotExists : Bool) :
    Changes (dropTable tableName ignoreIfNotExists)
      ((Operation.dropTable tableName ignoreIfNotExists).Effect catalog) catalog := by
  apply changes_resolved
  intro key hkey hwritable
  apply Changes.bind (returns_doesTableExist key)
  intro found _
  apply Changes.ite
  · intro _
    exact (changes_transaction _ _ true).mono fun _ h => ⟨key, hkey, hwritable, h⟩
  · intro _
    exact changes_ignore

theorem changes_setTableDescription (tableName : String) (description : Option String) :
    Changes (setTableDescription tableName description)
      ((Operation.setTableDescription tableName description : Operation Plan Tool).Effect catalog) catalog := by
  apply Changes.bind (returns_resolveTable tableName)
  intro key _
  apply Changes.bind (returns_doesTableExist key)
  intro found _
  apply Changes.ite
  · intro _
    exact ((changes_commitDatabase _).mapError _).mono fun _ h => ⟨key, h⟩
  · intro _
    exact Changes.raise _

theorem changes_writeDfToTable (df : DataFrame) (tableName : String) (schema : Schema) :
    Changes (writeDfToTable df tableName schema)
      ((Operation.writeDfToTable df tableName schema : Operation Plan Tool).Effect catalog) catalog := by
  apply changes_resolved
  intro key hkey hwritable
  exact ((changes_commitDatabase _).mapError _).mono fun _ h => ⟨key, hkey, hwritable, h⟩

theorem changes_replaceTableWithDf (df : DataFrame) (tableName : String) (schema : Schema) :
    Changes (replaceTableWithDf df tableName schema)
      ((Operation.replaceTableWithDf df tableName schema : Operation Plan Tool).Effect catalog) catalog := by
  apply changes_resolved
  intro key hkey hwritable
  exact ((changes_commitDatabase _).mapError _).mono fun _ h => ⟨key, hkey, hwritable, h⟩

omit [Casefold] in
theorem changes_insertRows (key : TableKey) (df : DataFrame) :
    Changes (insertRows key df) (Transacts (insertInto key df) catalog) catalog := (changes_commitDatabase _).mapError _

/-- An insertion goes into the table of its name. -/
theorem changes_insertDfToTable_into [SchemaText] (df : DataFrame) (tableName : String) (schema : Schema) :
    Changes (insertDfToTable df tableName schema)
      (fun catalog' => ∃ key, resolveName catalog.currentDatabase tableName = .ok key ∧
        Transacts (insertInto key df) catalog catalog') catalog := by
  apply changes_resolved
  intro key hkey _
  have hinsert : Changes (insertRows key df) (fun catalog' => ∃ key, resolveName catalog.currentDatabase tableName = .ok key ∧
      Transacts (insertInto key df) catalog catalog') catalog :=
    (changes_insertRows key df).mono fun _ h => ⟨key, hkey, h⟩
  apply Changes.bind (returns_doesTableExist key)
  intro found _
  apply Changes.ite
  · intro _
    apply Changes.bind (returns_askDatabase _)
    intro existing _
    cases existing with
    | none => exact Changes.raise _
    | some existing => exact Changes.ite (fun _ => Changes.raise _) fun _ => hinsert
  · intro _
    exact hinsert

/-- What the sink commits is what the one of three operations commits that it calls. -/
theorem changes_saveAsTable [SchemaText] (df : DataFrame) (tableName : String) (mode : SaveMode) (schema : Schema) :
    Changes (saveAsTable df tableName mode schema)
      ((Operation.saveAsTable df tableName mode schema : Operation Plan Tool).Effect catalog) catalog := by
  apply Changes.bind (returns_resolveTable tableName)
  intro key hkey
  apply Changes.bind (returns_doesTableExist key)
  rintro _ rfl
  apply Changes.ite
  · intro hfound
    cases mode with
    | error => exact Changes.raise _
    | ignore => exact Changes.pure ()
    | append =>
      apply (changes_insertDfToTable_into df tableName schema).mono
      rintro catalog' ⟨key, hkey, h⟩
      exact ⟨key, hkey, Or.inl ⟨rfl, h⟩⟩
    | overwrite =>
      apply (changes_replaceTableWithDf df tableName schema).mono
      rintro catalog' ⟨key', hkey', hwritable, h⟩
      cases hkey.symm.trans hkey'
      exact ⟨key, hkey, Or.inr ⟨hwritable, Or.inl ⟨rfl, hfound, h⟩⟩⟩
  · intro habsent
    apply (changes_writeDfToTable df tableName schema).mono
    rintro catalog' ⟨key', hkey', hwritable, h⟩
    cases hkey.symm.trans hkey'
    exact ⟨key, hkey, Or.inr ⟨hwritable, Or.inr ⟨Option.not_isSome_iff_eq_none.mp habsent, h⟩⟩⟩

theorem changes_createView (viewName : String) (logicalPlan : Plan) (ignoreIfExists : Bool) (description : Option String) :
    Changes (createView viewName logicalPlan ignoreIfExists description)
      ((Operation.createView viewName logicalPlan ignoreIfExists description : Operation Plan Tool).Effect catalog) catalog := by
  apply changes_resolved
  intro key _ _
  apply Changes.mapError
  apply Changes.bind (returns_doesViewExist key)
  intro found _
  apply Changes.ite
  · intro _
    exact changes_ignore
  · intro _
    exact ((changes_commitDatabase _).bind_pure fun _ => true).mono fun _ h => ⟨key, h⟩

theorem changes_dropView (viewName : String) (ignoreIfNotExists : Bool) :
    Changes (dropView viewName ignoreIfNotExists)
      ((Operation.dropView viewName ignoreIfNotExists : Operation Plan Tool).Effect catalog) catalog := by
  apply changes_resolved
  intro key _ _
  apply Changes.bind (returns_doesViewExist key)
  intro found _
  apply Changes.ite
  · intro _
    exact (changes_transaction _ _ true).mono fun _ h => ⟨key, h⟩
  · intro _
    exact changes_ignore

theorem changes_setViewDescription (viewName : String) (description : Option String) :
    Changes (setViewDescription viewName description)
      ((Operation.setViewDescription viewName description : Operation Plan Tool).Effect catalog) catalog := by
  apply Changes.bind (returns_resolveTable viewName)
  intro key _
  apply Changes.bind (returns_doesViewExist key)
  intro found _
  apply Changes.ite
  · intro _
    exact (changes_transaction _ _ true).mono fun _ h => ⟨key, h⟩
  · intro _
    exact Changes.raise _

theorem changes_createTool (toolName : String) (bindTool : Except CatalogException Tool) (ignoreIfExists : Bool) :
    Changes (createTool toolName bindTool ignoreIfExists)
      ((Operation.createTool toolName bindTool ignoreIfExists : Operation Plan Tool).Effect catalog) catalog := by
  apply Changes.bind (Returns.lift fun _ h => h)
  intro toolDefinition _
  apply Changes.bind (returns_askDatabase _)
  intro existing _
  apply Changes.ite
  · intro _
    exact changes_ignore
  · intro _
    exact ((changes_commitDatabase _).bind_pure fun _ => true).mono fun _ h => ⟨toolDefinition, h⟩

theorem changes_dropTool (toolName : String) (ignoreIfNotExists : Bool) :
    Changes (dropTool toolName ignoreIfNotExists)
      ((Operation.dropTool toolName ignoreIfNotExists : Operation Plan Tool).Effect catalog) catalog := by
  apply Changes.bind (returns_askDatabase _)
  intro existing _
  apply Changes.ite
  · intro _
    exact (changes_commitDatabase _).bind_pure fun _ => true
  · intro _
    exact changes_ignore

variable [PlanSchema Plan] [SchemaText]

/-- **An operation changes nothing, or returns after it has committed its effect.** -/
theorem changes_program (operation : Operation Plan Tool) (catalog : LocalCatalog Plan Tool) :
    Changes operation.program (operation.Effect catalog) catalog := by
  cases operation with
  | createDatabase databaseName ignoreIfExists => exact (changes_createDatabase databaseName ignoreIfExists).map _
  | dropDatabase databaseName cascade ignoreIfNotExists =>
    exact (changes_dropDatabase databaseName cascade ignoreIfNotExists).map _
  | setCurrentDatabase databaseName => exact (changes_setCurrentDatabase databaseName).map _
  | createTable tableName schema ignoreIfExists description =>
    exact (changes_createTable tableName schema ignoreIfExists description).map _
  | dropTable tableName ignoreIfNotExists => exact (changes_dropTable tableName ignoreIfNotExists).map _
  | setTableDescription tableName description => exact (changes_setTableDescription tableName description).map _
  | writeDfToTable df tableName schema => exact (changes_writeDfToTable df tableName schema).map _
  | insertDfToTable df tableName schema =>
    exact ((changes_insertDfToTable_into df tableName schema).mono fun _ ⟨key, _, h⟩ => ⟨key, h⟩).map _
  | replaceTableWithDf df tableName schema => exact (changes_replaceTableWithDf df tableName schema).map _
  | saveAsTable df tableName mode schema => exact (changes_saveAsTable df tableName mode schema).map _
  | createView viewName logicalPlan ignoreIfExists description =>
    exact (changes_createView viewName logicalPlan ignoreIfExists description).map _
  | dropView viewName ignoreIfNotExists => exact (changes_dropView viewName ignoreIfNotExists).map _
  | setViewDescription viewName description => exact (changes_setViewDescription viewName description).map _
  | createTool toolName bindTool ignoreIfExists => exact (changes_createTool toolName bindTool ignoreIfExists).map _
  | dropTool toolName ignoreIfNotExists => exact (changes_dropTool toolName ignoreIfNotExists).map _
  | insertQueryMetrics executionId metrics => exact (changes_commitDatabase _).map _
  -- the others only read
  | getCurrentDatabase => exact (Changes.askGuarded _).map _
  | getTableDescription tableName => exact (Changes.bind (returns_resolveTable tableName) fun key _ => Changes.ask _).map _
  | describeTable tableName =>
    apply Changes.map
    apply Changes.bind (returns_resolveTable tableName)
    intro key _
    apply Changes.bind (returns_askDatabase _)
    intro metadata _
    cases metadata with
    | none => exact Changes.raise _
    | some metadata => exact Changes.pure metadata
  | doesTableExist tableName =>
    exact (Changes.bind (returns_resolveTable tableName) fun key _ => (Changes.ask _).mapError _).map _
  | listTables => exact (Changes.bind returns_getCurrentDatabase fun _ _ => (Changes.ask _).mapError _).map _
  | describeView viewName => exact (Changes.bind (returns_resolveTable viewName) fun key _ => Changes.ask _).map _
  | listViews =>
    apply Changes.map
    apply Changes.bind returns_getCurrentDatabase
    intro currentDatabase _
    apply (Changes.ask _).onError
    intro _
    exact Changes.bind returns_getCurrentDatabase fun _ _ => Changes.raise _
  | describeTool toolName =>
    apply Changes.map
    apply Changes.bind (returns_askDatabase _)
    intro tool _
    cases tool with
    | none => exact Changes.raise _
    | some tool => exact Changes.pure tool
  | listTools => exact (Changes.ask _).map _

end

end Catalog

end Fenic
