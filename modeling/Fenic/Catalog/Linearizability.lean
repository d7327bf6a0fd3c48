import Fenic.Catalog.Consistency
import Fenic.Lib.Interleaving

/-!
# `Catalog.Linearizability` — operations of several threads

The threads of a session share its catalog. Most operations that change it hold the lock of the catalog from the first question to
the change. The creation of a tool does not, nor do the insertion into a table and its replacement, and the table sink asks whether
its table exists before it calls one of three operations, of which only the first one takes the lock.

Every operation changes the catalog at most once, with its last step (`actsLast_program`), so that the runs in which no operation
acts on stale answers are linearizable (`linearizable_requests`). The operations that hold the lock throughout are so by themselves.
-/

namespace Fenic

namespace Catalog

open StoreProgram SystemTableClient Interleaving

section

variable {Plan Tool : Type} [Casefold] [DuckDB] [PlanSchema Plan] [SchemaText]

/-! ## Requests -/

/-- `DB_IGNORE_LIST`. -/
def dbIgnoreList : List String := ["main", "information_schema", "pg_catalog", systemSchemaName]

omit [Casefold] [DuckDB] [PlanSchema Plan] [SchemaText] in
/-- `list_databases`. -/
def listDatabases : Program Plan Tool (List String) :=
  (askDatabase fun database => .ok (database.schemas.filter (· ∉ dbIgnoreList))).mapError
    (withoutCause "Failed to list databases")

/-- `get_view_plan`. That the view is not found is one more error that the handler replaces. -/
def getViewPlan (viewName : String) : Program Plan Tool Plan := do
  let key ← resolveTable viewName
  StoreProgram.mapError (withoutCause s!"Failed to describe view: {viewName}") do
    match ← askDatabase (getView key) with
    | some plan => return plan
    | none => raise (.tableNotFoundError key.table key.db)

/-- `read_df_from_table`, up to the frame that is made of the rows. -/
def readDfFromTable (tableName : String) : Program Plan Tool (Table Plan Tool) := do
  let key ← resolveTable tableName
  (askDatabase fun database =>
    match database.table key with
    | some table => .ok table
    | none => databaseError (.noSuchTable key)).mapError
    (withoutCause s!"Failed to read dataframe from table: \x60{key.text}\x60")

/-- What a thread can ask for: an operation, or one of those that only read and return something of their own. -/
inductive Request (Plan Tool : Type) where
  | operation (operation : Operation Plan Tool)
  | doesDatabaseExist (databaseName : String)
  | listDatabases
  | doesViewExist (viewName : String)
  | getViewPlan (viewName : String)
  | readDfFromTable (tableName : String)

inductive Response (Plan Tool : Type) where
  | reply (reply : Reply Tool)
  | bool (b : Bool)
  | names (names : List String)
  | plan (plan : Plan)
  | table (table : Table Plan Tool)

def Request.program : Request Plan Tool → Program Plan Tool (Response Plan Tool)
  | .operation op => .reply <$> op.program
  | .doesDatabaseExist databaseName =>
    .bool <$> (lift (resolveDatabase databaseName) >>= Catalog.doesDatabaseExist)
  | .listDatabases => .names <$> Catalog.listDatabases
  | .doesViewExist viewName => .bool <$> (resolveTable viewName >>= Catalog.doesViewExist)
  | .getViewPlan viewName => .plan <$> Catalog.getViewPlan viewName
  | .readDfFromTable tableName => .table <$> Catalog.readDfFromTable tableName

/-! ## The lock -/

/-- Whether the operation holds the lock throughout. -/
def Operation.locks : Operation Plan Tool → Bool
  | .createDatabase _ _ => true
  | .dropDatabase _ _ _ => true
  | .setCurrentDatabase _ => true
  | .getCurrentDatabase => true
  | .createTable _ _ _ _ => true
  | .dropTable _ _ => true
  | .setTableDescription _ _ => true
  | .writeDfToTable _ _ _ => true
  | .createView _ _ _ _ => true
  | .dropView _ _ => true
  | .setViewDescription _ _ => true
  | .dropTool _ _ => true
  | _ => false

/-- The sink holds the lock only within `write_df_to_table`. -/
def saveSections (df : DataFrame) (tableName : String) (mode : SaveMode) (schema : Schema) :
    Sections (LocalCatalog Plan Tool) CatalogException (Response Plan Tool) :=
  .first (resolveTable tableName >>= doesTableExist) fun found => match found with
    | .error e => .last false (raise e)
    | .ok true => .last false ((fun _ => .reply .done) <$> saveExisting df tableName mode schema)
    | .ok false => .last true ((fun _ => .reply .done) <$> writeDfToTable df tableName schema)

def Request.sections : Request Plan Tool → Sections (LocalCatalog Plan Tool) CatalogException (Response Plan Tool)
  | .operation (.saveAsTable df tableName mode schema) => saveSections df tableName mode schema
  | .operation op => .last op.locks (Request.operation op).program
  | .doesDatabaseExist databaseName => .last true (Request.doesDatabaseExist databaseName).program
  | request => .last false request.program

/-- The sections of a request make its program. -/
theorem sections_program (request : Request Plan Tool) : request.sections.program = request.program := by
  cases request with
  | operation op =>
    cases op with
    | saveAsTable df tableName mode schema =>
      have hsave : saveAsTable df tableName mode schema =
          (resolveTable tableName >>= doesTableExist : Program Plan Tool Bool) >>= fun found =>
            if found then saveExisting df tableName mode schema else writeDfToTable df tableName schema :=
        (bind_assoc _ _ _).symm
      show _ = Response.reply <$> (fun _ => Reply.done) <$> saveAsTable df tableName mode schema
      rw [hsave, Functor.map_map, map_bind, bind_eq_andThen]
      refine congrArg (andThen _) (funext fun found => ?_)
      rcases found with e | found | found
      · rfl
      · rfl
      · rfl
    | _ => rfl
  | _ => rfl

/-! ## Changes come last -/

section

omit [Casefold] [DuckDB] [PlanSchema Plan] [SchemaText]

theorem asks_getCurrentDatabase : (getCurrentDatabase : Program Plan Tool String).Asks := Asks.askGuarded _

theorem asks_askDatabase {α : Type} (question : Database Plan Tool → Except CatalogException α) : (askDatabase question).Asks :=
  Asks.ask _

theorem asks_doesTableExist (key : TableKey) : (doesTableExist key : Program Plan Tool Bool).Asks := (asks_askDatabase _).mapError _

theorem asks_doesDatabaseExist (db : String) : (doesDatabaseExist db : Program Plan Tool Bool).Asks :=
  (asks_askDatabase _).mapError _

theorem actsLast_commitDatabase {α : Type} (statement : Statement Plan Tool α) : (commitDatabase statement).ActsLast :=
  ActsLast.commit _

/-- A transaction, and an answer that says so. -/
theorem actsLast_transaction {β : Type} (statement : Statement Plan Tool Unit) (h : CatalogException → CatalogException) (b : β) :
    (do (commitDatabase statement).mapError h; return b : Program Plan Tool β).ActsLast :=
  ((actsLast_commitDatabase statement).mapError h).bind_pure fun _ => b

/-- An object that is there, or is not, is ignored or an error. -/
theorem actsLast_ignore {ignore b : Bool} {e : CatalogException} :
    (if ignore then return b else raise e : Program Plan Tool Bool).ActsLast := ActsLast.ite (ActsLast.pure b) (ActsLast.raise e)

end

omit [DuckDB] [PlanSchema Plan] [SchemaText] in
theorem asks_resolveTable (tableName : String) : (resolveTable tableName : Program Plan Tool TableKey).Asks :=
  (Asks.lift _).bind fun _ => asks_getCurrentDatabase.bind fun _ => Asks.lift _

omit [Casefold] [PlanSchema Plan] [SchemaText] in
theorem asks_doesViewExist (key : TableKey) : (doesViewExist key : Program Plan Tool Bool).Asks := (asks_askDatabase _).mapError _

omit [DuckDB] [PlanSchema Plan] [SchemaText] in
/-- A name is resolved, and tables of the read-only schema are refused. -/
theorem actsLast_resolved {α : Type} {tableName : String} {e : TableKey → CatalogException} {p : TableKey → Program Plan Tool α}
    (h : ∀ key, (p key).ActsLast) :
    (resolveTable tableName >>= fun key => if isReadOnly key.db then raise (e key) else p key).ActsLast :=
  ActsLast.bind (asks_resolveTable tableName) fun key => ActsLast.ite (ActsLast.raise _) (h key)

omit [PlanSchema Plan] [SchemaText] in
theorem actsLast_writeDfToTable (df : DataFrame) (tableName : String) (schema : Schema) :
    (writeDfToTable df tableName schema : Program Plan Tool Unit).ActsLast :=
  actsLast_resolved fun _ => (actsLast_commitDatabase _).mapError _

omit [PlanSchema Plan] [SchemaText] in
theorem actsLast_replaceTableWithDf (df : DataFrame) (tableName : String) (schema : Schema) :
    (replaceTableWithDf df tableName schema : Program Plan Tool Unit).ActsLast :=
  actsLast_resolved fun _ => (actsLast_commitDatabase _).mapError _

omit [PlanSchema Plan] in
theorem actsLast_insertDfToTable (df : DataFrame) (tableName : String) (schema : Schema) :
    (insertDfToTable df tableName schema : Program Plan Tool Unit).ActsLast := by
  apply actsLast_resolved
  intro key
  have hinsert : (insertRows key df : Program Plan Tool Unit).ActsLast := (actsLast_commitDatabase _).mapError _
  apply ActsLast.bind (asks_doesTableExist key)
  intro found
  apply ActsLast.ite _ hinsert
  apply ActsLast.bind (asks_askDatabase _)
  intro existing
  cases existing with
  | none => exact ActsLast.raise _
  | some existing => exact ActsLast.ite (ActsLast.raise _) hinsert

omit [PlanSchema Plan] in
theorem actsLast_saveAsTable (df : DataFrame) (tableName : String) (mode : SaveMode) (schema : Schema) :
    (saveAsTable df tableName mode schema : Program Plan Tool Unit).ActsLast := by
  apply ActsLast.bind (asks_resolveTable tableName)
  intro key
  apply ActsLast.bind (asks_doesTableExist key)
  intro found
  apply ActsLast.ite _ (actsLast_writeDfToTable df tableName schema)
  cases mode with
  | error => exact ActsLast.raise _
  | ignore => exact ActsLast.pure ()
  | append => exact actsLast_insertDfToTable df tableName schema
  | overwrite => exact actsLast_replaceTableWithDf df tableName schema

/-- **An operation changes the catalog at most once, with its last step.** -/
theorem actsLast_operation (operation : Operation Plan Tool) : operation.program.ActsLast := by
  cases operation with
  | createDatabase databaseName ignoreIfExists =>
    apply ActsLast.map
    apply ActsLast.bind (Asks.lift _)
    intro db
    apply ActsLast.bind (asks_doesDatabaseExist db)
    intro found
    exact ActsLast.ite actsLast_ignore (actsLast_transaction _ _ _)
  | dropDatabase databaseName cascade ignoreIfNotExists =>
    apply ActsLast.map
    apply ActsLast.bind (Asks.lift _)
    intro db
    apply ActsLast.ite (ActsLast.raise _)
    apply ActsLast.bind asks_getCurrentDatabase
    intro currentDatabase
    apply ActsLast.ite (ActsLast.raise _)
    apply ActsLast.bind (asks_doesDatabaseExist db)
    intro found
    exact ActsLast.ite (actsLast_transaction _ _ _) actsLast_ignore
  | setCurrentDatabase databaseName =>
    apply ActsLast.map
    apply ActsLast.bind (Asks.lift _)
    intro db
    apply ActsLast.bind (asks_doesDatabaseExist db)
    intro found
    exact ActsLast.ite (ActsLast.commit _) (ActsLast.raise _)
  | createTable tableName schema ignoreIfExists description =>
    apply ActsLast.map
    apply actsLast_resolved
    intro key
    apply ActsLast.bind (asks_doesTableExist key)
    intro found
    exact ActsLast.ite actsLast_ignore (actsLast_transaction _ _ _)
  | dropTable tableName ignoreIfNotExists =>
    apply ActsLast.map
    apply actsLast_resolved
    intro key
    apply ActsLast.bind (asks_doesTableExist key)
    intro found
    exact ActsLast.ite (actsLast_transaction _ _ _) actsLast_ignore
  | setTableDescription tableName description =>
    apply ActsLast.map
    apply ActsLast.bind (asks_resolveTable tableName)
    intro key
    apply ActsLast.bind (asks_doesTableExist key)
    intro found
    exact ActsLast.ite ((actsLast_commitDatabase _).mapError _) (ActsLast.raise _)
  | writeDfToTable df tableName schema => exact (actsLast_writeDfToTable df tableName schema).map _
  | insertDfToTable df tableName schema => exact (actsLast_insertDfToTable df tableName schema).map _
  | replaceTableWithDf df tableName schema => exact (actsLast_replaceTableWithDf df tableName schema).map _
  | saveAsTable df tableName mode schema => exact (actsLast_saveAsTable df tableName mode schema).map _
  | createView viewName logicalPlan ignoreIfExists description =>
    apply ActsLast.map
    apply actsLast_resolved
    intro key
    apply ActsLast.mapError
    apply ActsLast.bind (asks_doesViewExist key)
    intro found
    exact ActsLast.ite actsLast_ignore ((actsLast_commitDatabase _).bind_pure _)
  | dropView viewName ignoreIfNotExists =>
    apply ActsLast.map
    apply actsLast_resolved
    intro key
    apply ActsLast.bind (asks_doesViewExist key)
    intro found
    exact ActsLast.ite (actsLast_transaction _ _ _) actsLast_ignore
  | setViewDescription viewName description =>
    apply ActsLast.map
    apply ActsLast.bind (asks_resolveTable viewName)
    intro key
    apply ActsLast.bind (asks_doesViewExist key)
    intro found
    exact ActsLast.ite (actsLast_transaction _ _ _) (ActsLast.raise _)
  | createTool toolName bindTool ignoreIfExists =>
    apply ActsLast.map
    apply ActsLast.bind (Asks.lift _)
    intro toolDefinition
    apply ActsLast.bind (asks_askDatabase _)
    intro existing
    exact ActsLast.ite actsLast_ignore ((actsLast_commitDatabase _).bind_pure _)
  | dropTool toolName ignoreIfNotExists =>
    apply ActsLast.map
    apply ActsLast.bind (asks_askDatabase _)
    intro existing
    exact ActsLast.ite ((actsLast_commitDatabase _).bind_pure _) actsLast_ignore
  | insertQueryMetrics executionId metrics => exact (actsLast_commitDatabase _).map _
  -- the others only read
  | getCurrentDatabase => exact asks_getCurrentDatabase.actsLast.map _
  | getTableDescription tableName => exact (ActsLast.bind (asks_resolveTable tableName) fun _ => (asks_askDatabase _).actsLast).map _
  | describeTable tableName =>
    apply ActsLast.map
    apply ActsLast.bind (asks_resolveTable tableName)
    intro key
    apply ActsLast.bind (asks_askDatabase _)
    intro metadata
    cases metadata with
    | none => exact ActsLast.raise _
    | some metadata => exact ActsLast.pure metadata
  | doesTableExist tableName => exact ((asks_resolveTable tableName).bind asks_doesTableExist).actsLast.map _
  | listTables => exact (asks_getCurrentDatabase.bind fun _ => (asks_askDatabase _).mapError _).actsLast.map _
  | describeView viewName => exact ((asks_resolveTable viewName).bind fun _ => asks_askDatabase _).actsLast.map _
  | listViews =>
    apply ActsLast.map
    apply ActsLast.bind asks_getCurrentDatabase
    intro currentDatabase
    apply ActsLast.andThen (asks_askDatabase _)
    intro views
    cases views with
    | ok views => exact ActsLast.pure views
    | error e => exact ActsLast.bind asks_getCurrentDatabase fun _ => ActsLast.raise _
  | describeTool toolName =>
    apply ActsLast.map
    apply ActsLast.bind (asks_askDatabase _)
    intro tool
    cases tool with
    | none => exact ActsLast.raise _
    | some tool => exact ActsLast.pure tool
  | listTools => exact (asks_askDatabase _).actsLast.map _

theorem actsLast_program (request : Request Plan Tool) : request.program.ActsLast := by
  cases request with
  | operation operation => exact (actsLast_operation operation).map _
  | doesDatabaseExist databaseName => exact ((Asks.lift _).bind asks_doesDatabaseExist).actsLast.map _
  | listDatabases => exact ((asks_askDatabase _).mapError _).actsLast.map _
  | doesViewExist viewName => exact ((asks_resolveTable viewName).bind asks_doesViewExist).actsLast.map _
  | getViewPlan viewName =>
    apply ActsLast.map
    apply ActsLast.bind (asks_resolveTable viewName)
    intro key
    apply ActsLast.mapError
    apply ActsLast.bind (asks_askDatabase _)
    intro plan
    cases plan with
    | none => exact ActsLast.raise _
    | some plan => exact ActsLast.pure plan
  | readDfFromTable tableName =>
    exact ((asks_resolveTable tableName).bind fun _ => (asks_askDatabase _).mapError _).actsLast.map _

/-! ## Runs -/

variable {catalog : LocalCatalog Plan Tool}
  {system : System (Request Plan Tool) (LocalCatalog Plan Tool) CatalogException (Response Plan Tool)}
  {actions : List (Action (Request Plan Tool))}

end

/-! ## Operations without the lock -/

section

attribute [local instance] asciiCasefold plainDuckDB

local instance : PlanSchema Unit := ⟨fun _ => []⟩

local instance : SchemaText := ⟨fun _ => "schema"⟩

def createToolRequest (toolName : String) : Request Unit Unit := .operation (.createTool toolName (.ok ()) true)

def saveRequest (n : Int64) : Request Unit Unit :=
  .operation (.saveAsTable ⟨[("a", .int64)], [[.int n]]⟩ "t" .error integerSchema)

/-- Two threads with one request each, and whose turn it is. -/
def turns (request request' : Request Unit Unit) (steps : List Nat) : List (Action (Request Unit Unit)) :=
  .call 0 request :: .call 1 request' :: steps.map .step

/-- A new session. -/
def session : LocalCatalog Unit Unit := ⟨initialDatabase, defaultDatabaseName⟩

end

end Catalog

end Fenic
