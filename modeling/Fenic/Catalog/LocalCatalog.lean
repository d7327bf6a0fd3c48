import Fenic.Catalog.Database
import Fenic.Lib.StoreProgram

/-!
# `Catalog.LocalCatalog` — the operations of the catalog

Every operation is a program over the catalog: it resolves its name, asks the database whether the object exists, and then makes one
transaction or one statement. The table sink is one more operation: it asks whether its table exists, and hands the frame to one of
three others. Views over a frame, which live only within an operation, are left out.

The store of the programs is the database together with the current database of the catalog.
-/

namespace Fenic

namespace Catalog

open StoreProgram SystemTableClient

/-! ## The catalog as a store -/

structure LocalCatalog (Plan Tool : Type) where
  database : Database Plan Tool
  currentDatabase : String

abbrev Program (Plan Tool : Type) := StoreProgram (LocalCatalog Plan Tool) CatalogException

/-- The schema of a stored plan. -/
class PlanSchema (Plan : Type) where
  schema : Plan → Schema

/-- `str(schema)`. -/
class SchemaText where
  schemaText : Schema → String

export SchemaText (schemaText)

section

variable {Plan Tool : Type}

/-- A statement that reads. -/
def askDatabase {α : Type} (question : Database Plan Tool → Except CatalogException α) : Program Plan Tool α :=
  ask fun catalog => question catalog.database

/-- A statement by itself, or a `DuckDBTransaction`. -/
def commitDatabase {α : Type} (statement : Statement Plan Tool α) : Program Plan Tool α :=
  commit fun catalog => (statement catalog.database).map fun answer => (answer.1, { catalog with database := answer.2 })

/-- `get_current_database`. -/
def getCurrentDatabase : Program Plan Tool String := askGuarded fun catalog => .ok catalog.currentDatabase

variable [Casefold]

/-- `TableIdentifier.from_string(...).enrich(...)`, then `_verify_table_catalog`. -/
def resolveTable (tableName : String) : Program Plan Tool TableKey := do
  let identifier ← lift (TableIdentifier.fromString tableName)
  let currentDatabase ← getCurrentDatabase
  lift (identifier.resolve currentDatabase)

/-- `is_db_name_equal(READ_ONLY_SYSTEM_SCHEMA_NAME)`. -/
def isReadOnly (db : String) : Bool := compareObjectNames db readOnlySystemSchemaName

/-- `_does_table_exist`. -/
def doesTableExist (key : TableKey) : Program Plan Tool Bool :=
  (askDatabase (hasTable key)).mapError (withoutCause s!"Failed to check if table: {key.text} exists")

/-- `_does_database_exist`. -/
def doesDatabaseExist (db : String) : Program Plan Tool Bool :=
  (askDatabase (hasSchema db)).mapError (withoutCause s!"Failed to check if database: {db} exists")

variable [DuckDB]

/-- `_does_view_exist`. -/
def doesViewExist (key : TableKey) : Program Plan Tool Bool :=
  (askDatabase fun database => (getView key database).map Option.isSome).mapError
    (withoutCause s!"Failed to check if view: \x60{key.text}\x60 exists")

/-- `LocalCatalog.__init__`, on a database without tables. -/
def LocalCatalog.new : Except CatalogException (LocalCatalog Plan Tool) :=
  ((do createSchema defaultDatabaseName; initializeSystemTables : Statement Plan Tool Unit) ⟨internalSchemas, []⟩).map fun answer =>
    ⟨answer.2, defaultDatabaseName⟩

/-! ## Databases -/

/-- `create_database`. -/
def createDatabase (databaseName : String) (ignoreIfExists : Bool) : Program Plan Tool Bool := do
  let db ← lift (resolveDatabase databaseName)
  if ← doesDatabaseExist db then
    if ignoreIfExists then return false
    else raise (.databaseAlreadyExistsError databaseName)
  else
    (commitDatabase (createSchema db)).mapError (withoutCause s!"Failed to create database: {databaseName}")
    return true

/-- The transaction of `drop_database`. -/
def dropDatabaseTransaction (databaseName db : String) (cascade : Bool) : Statement Plan Tool Unit := do
  if cascade then
    dropSchema db true
    deleteDatabaseSchemas db
    deleteDatabaseViews db
  else
    let views ← Statement.select (SystemTableClient.listViews db)
    if views ≠ [] then
      throw (.catalogError s!"Cannot drop database '{databaseName}' because it contains views. Use CASCADE to drop the database and all its views.")
    else dropSchema db false

/-- `except CatalogError: raise`, and every other error as a `CatalogError`. -/
def keepCatalogError (message : String) : CatalogException → CatalogException
  | .catalogError text => .catalogError text
  | _ => .catalogError message

/-- `drop_database`. -/
def dropDatabase (databaseName : String) (cascade ignoreIfNotExists : Bool) : Program Plan Tool Bool := do
  let db ← lift (resolveDatabase databaseName)
  if isReadOnly db then raise (.catalogError s!"Cannot drop read-only system database '{readOnlySystemSchemaName}'")
  else
    let currentDatabase ← getCurrentDatabase
    if compareObjectNames db currentDatabase then
      raise (.catalogError s!"Cannot drop the current database '{databaseName}'. Switch to another database first.")
    else if ← doesDatabaseExist db then
      (commitDatabase (dropDatabaseTransaction databaseName db cascade)).mapError
        (keepCatalogError s!"Failed to drop database: {databaseName}")
      return true
    else if ignoreIfNotExists then return false
    else raise (.databaseNotFoundError databaseName)

/-- `set_current_database`. -/
def setCurrentDatabase (databaseName : String) : Program Plan Tool Unit := do
  let db ← lift (resolveDatabase databaseName)
  if ← doesDatabaseExist db then commit fun catalog => .ok ((), { catalog with currentDatabase := db })
  else raise (.databaseNotFoundError databaseName)

/-! ## Tables -/

/-- `create_table`, for a frame without rows. -/
def createTableTransaction (key : TableKey) (df : DataFrame) (schema : Schema) (description : Option String) :
    Statement Plan Tool Unit := do
  createTableAs key df
  saveTable key schema description

/-- The key of the last entry of a dictionary stands for all entries with it, in the place of the first. -/
def dictOf : List Column → List Column
  | [] => []
  | (name, dtype) :: columns =>
    let rest := dictOf columns
    (name, (rest.lookup name).getD dtype) :: rest.filter (·.1 ≠ name)

/-- `convert_custom_dtype_to_polars`, which has the table of `canonical_polars_type`. -/
def convertCustomDtypeToPolars (dataType : DataType) : Dtypes.PolarsDType := Dtypes.canonicalPolarsType dataType

/-- The columns that a schema stands for. -/
def schemaColumns (schema : Schema) : List Column :=
  schema.map fun field => (field.name, convertCustomDtypeToPolars field.dataType)

/-- `convert_custom_schema_to_polars_schema`. -/
def convertCustomSchemaToPolarsSchema (schema : Schema) : List Column := dictOf (schemaColumns schema)

/-- `create_table`. -/
def createTable (tableName : String) (schema : Schema) (ignoreIfExists : Bool) (description : Option String) :
    Program Plan Tool Bool := do
  let key ← resolveTable tableName
  if isReadOnly key.db then raise (.catalogError s!"Cannot create table '{key.text}' in read-only system database")
  else if ← doesTableExist key then
    if ignoreIfExists then return false
    else raise (.tableAlreadyExistsError key.table key.db)
  else
    (commitDatabase (createTableTransaction key ⟨convertCustomSchemaToPolarsSchema schema, []⟩ schema description)).mapError
      (withoutCause s!"Failed to create table: \x60{key.text}\x60")
    return true

/-- The transaction of `drop_table`. -/
def dropTableTransaction (key : TableKey) : Statement Plan Tool Unit := do
  dropTableStatement key
  deleteSchema key

/-- `drop_table`. -/
def dropTable (tableName : String) (ignoreIfNotExists : Bool) : Program Plan Tool Bool := do
  let key ← resolveTable tableName
  if isReadOnly key.db then raise (.catalogError s!"Cannot drop table '{key.text}' from read-only system database")
  else if ← doesTableExist key then
    (commitDatabase (dropTableTransaction key)).mapError (withoutCause s!"Failed to drop table: \x60{key.text}\x60")
    return true
  else if ignoreIfNotExists then return false
  else raise (.tableNotFoundError key.table key.db)

/-- `set_table_description`. -/
def setTableDescription (tableName : String) (description : Option String) : Program Plan Tool Unit := do
  let key ← resolveTable tableName
  if ← doesTableExist key then
    (commitDatabase (SystemTableClient.setTableDescription key description)).mapError
      (withoutCause s!"Failed to set description for table: \x60{key.text}\x60")
  else raise (.tableNotFoundError key.table key.db)

/-- `get_table_description`. -/
def getTableDescription (tableName : String) : Program Plan Tool (Option String) := do
  let key ← resolveTable tableName
  askDatabase (SystemTableClient.getTableDescription key)

/-- `describe_table`. -/
def describeTable (tableName : String) : Program Plan Tool DatasetMetadata := do
  let key ← resolveTable tableName
  match ← askDatabase (getTableMetadata key) with
  | some metadata => return metadata
  | none => raise (.tableNotFoundError key.table key.db)

/-- `list_tables`. -/
def listTables : Program Plan Tool (List String) := do
  let currentDatabase ← getCurrentDatabase
  (askDatabase fun database =>
    .ok ((database.tables.filter fun entry => entry.1.db = currentDatabase).map fun entry => entry.1.table)).mapError
    (withoutCause s!"Failed to list tables in database '{currentDatabase}'")

/-- The transaction of `write_df_to_table`. -/
def writeTransaction (key : TableKey) (df : DataFrame) (schema : Schema) : Statement Plan Tool Unit := do
  createTableAs key df
  saveTable key schema none

/-- `write_df_to_table`. -/
def writeDfToTable (df : DataFrame) (tableName : String) (schema : Schema) : Program Plan Tool Unit := do
  let key ← resolveTable tableName
  if isReadOnly key.db then raise (.catalogError s!"Cannot write to table '{key.text}' in read-only system database")
  else
    (commitDatabase (writeTransaction key df schema)).mapError
      (withoutCause s!"Failed to create table and write dataframe: \x60{key.text}\x60")

/-- The insertion at the end of `insert_df_to_table`. -/
def insertRows (key : TableKey) (df : DataFrame) : Program Plan Tool Unit :=
  (commitDatabase (insertInto key df)).mapError (withoutCause s!"Failed to insert dataframe into table: \x60{key.text}\x60")

/-- `insert_df_to_table`. The schemas stand in the message as texts. -/
def insertDfToTable [SchemaText] (df : DataFrame) (tableName : String) (schema : Schema) :
    Program Plan Tool Unit := do
  let key ← resolveTable tableName
  if isReadOnly key.db then raise (.catalogError s!"Cannot insert into table '{key.text}' in read-only system database")
  else if ← doesTableExist key then
    match ← askDatabase (getTableMetadata key) with
    | none => raise (.internalError s!"Schema for table '{tableName}' does not exist, but table exists.")
    | some existing =>
      if existing.schema ≠ schema then
        raise (.catalogError (s!"Table '{tableName}' already exists with a different schema!\n" ++
          s!"Existing schema: {schemaText existing.schema}\nNew schema: {schemaText schema}\n" ++
          "To replace the existing table, use mode='overwrite'."))
      else insertRows key df
  else insertRows key df

/-- The transaction of `replace_table_with_df`. -/
def replaceTransaction (key : TableKey) (df : DataFrame) (schema : Schema) : Statement Plan Tool Unit := do
  createOrReplaceTableAs key df
  saveTable key schema none

/-- `replace_table_with_df`. -/
def replaceTableWithDf (df : DataFrame) (tableName : String) (schema : Schema) : Program Plan Tool Unit := do
  let key ← resolveTable tableName
  if isReadOnly key.db then raise (.catalogError s!"Cannot replace table '{key.text}' in read-only system database")
  else
    (commitDatabase (replaceTransaction key df schema)).mapError (withoutCause s!"Failed to overwrite table: \x60{key.text}\x60")

inductive SaveMode where
  | error
  | append
  | overwrite
  | ignore
  deriving DecidableEq

/-- What the sink does with a table that exists. -/
def saveExisting [SchemaText] (df : DataFrame) (tableName : String) (mode : SaveMode) (schema : Schema) : Program Plan Tool Unit :=
  match mode with
  | .error =>
    raise (.planError (s!"Cannot save to table '{tableName}' - it already exists and mode is 'error'. " ++
      "Choose a different approach: 1) Use mode='overwrite' to replace the existing table, " ++
      "2) Use mode='append' to add data to the existing table, " ++
      "3) Use mode='ignore' to skip saving if table exists, 4) Use a different table name."))
  | .ignore => return ()
  | .append => insertDfToTable df tableName schema
  | .overwrite => replaceTableWithDf df tableName schema

/-- `DuckDBTableSinkExec.execute_node`. -/
def saveAsTable [SchemaText] (df : DataFrame) (tableName : String) (mode : SaveMode) (schema : Schema) :
    Program Plan Tool Unit := do
  let key ← resolveTable tableName
  if ← doesTableExist key then saveExisting df tableName mode schema
  else writeDfToTable df tableName schema

/-! ## Views -/

/-- `create_view`. -/
def createView (viewName : String) (logicalPlan : Plan) (ignoreIfExists : Bool) (description : Option String) :
    Program Plan Tool Bool := do
  let key ← resolveTable viewName
  if isReadOnly key.db then raise (.catalogError s!"Cannot create view '{key.text}' in read-only system database")
  else
    StoreProgram.mapError (withoutCause s!"Failed to create view: \x60{key.text}\x60") do
      if ← doesViewExist key then
        if ignoreIfExists then return false
        else raise (.valueError s!"View {viewName} already exists!")
      else
        commitDatabase (saveView key logicalPlan description)
        return true

/-- `drop_view`. -/
def dropView (viewName : String) (ignoreIfNotExists : Bool) : Program Plan Tool Bool := do
  let key ← resolveTable viewName
  if isReadOnly key.db then raise (.catalogError s!"Cannot drop view '{key.text}' from read-only system database")
  else if ← doesViewExist key then
    (commitDatabase (deleteView key)).mapError (withoutCause s!"Failed to drop view: \x60{key.text}\x60")
    return true
  else if ignoreIfNotExists then return false
  else raise (.tableNotFoundError key.table key.db)

/-- `set_view_description`. -/
def setViewDescription (viewName : String) (description : Option String) : Program Plan Tool Bool := do
  let key ← resolveTable viewName
  if ← doesViewExist key then
    (commitDatabase (SystemTableClient.setViewDescription key description)).mapError
      (withoutCause s!"Failed to set description for view: \x60{key.text}\x60")
    return true
  else raise (.tableNotFoundError key.table key.db)

/-- `describe_view`. -/
def describeView [PlanSchema Plan] (viewName : String) : Program Plan Tool (Option DatasetMetadata) := do
  let key ← resolveTable viewName
  askDatabase (getViewMetadata PlanSchema.schema key)

/-- `list_views`. -/
def listViews : Program Plan Tool (List String) := do
  let currentDatabase ← getCurrentDatabase
  (askDatabase (SystemTableClient.listViews currentDatabase)).onError fun _ => do
    -- the error names the database that is the current one by then
    let currentDatabase ← getCurrentDatabase
    raise (.catalogError s!"Failed to list views in database '{currentDatabase}'")

/-! ## Tools -/

/-- `create_tool`, with what `bind_tool` returns. -/
def createTool (toolName : String) (bindTool : Except CatalogException Tool) (ignoreIfExists : Bool) : Program Plan Tool Bool := do
  let toolDefinition ← lift bindTool
  if (← askDatabase (SystemTableClient.describeTool toolName)).isSome then
    if ignoreIfExists then return false
    else raise (.toolAlreadyExistsError toolName)
  else
    commitDatabase (saveTool toolName toolDefinition)
    return true

/-- `drop_tool`. -/
def dropTool (toolName : String) (ignoreIfNotExists : Bool) : Program Plan Tool Bool := do
  if (← askDatabase (SystemTableClient.describeTool toolName)).isSome then
    commitDatabase (deleteTool toolName)
    return true
  else if ignoreIfNotExists then return false
  else raise (.toolNotFoundError toolName)

/-- `describe_tool`. -/
def describeTool (toolName : String) : Program Plan Tool Tool := do
  match ← askDatabase (SystemTableClient.describeTool toolName) with
  | some tool => return tool
  | none => raise (.toolNotFoundError toolName)

/-! ## Operations -/

/-- What an operation returns. -/
inductive Reply (Tool : Type) where
  | done
  | bool (b : Bool)
  | name (name : String)
  | names (names : List String)
  | description (description : Option String)
  | metadata (metadata : Option DatasetMetadata)
  | tool (tool : Tool)
  | tools (tools : List Tool)

/-- The operations, with their arguments. -/
inductive Operation (Plan Tool : Type) where
  | createDatabase (databaseName : String) (ignoreIfExists : Bool)
  | dropDatabase (databaseName : String) (cascade ignoreIfNotExists : Bool)
  | setCurrentDatabase (databaseName : String)
  | getCurrentDatabase
  | createTable (tableName : String) (schema : Schema) (ignoreIfExists : Bool) (description : Option String)
  | dropTable (tableName : String) (ignoreIfNotExists : Bool)
  | setTableDescription (tableName : String) (description : Option String)
  | getTableDescription (tableName : String)
  | describeTable (tableName : String)
  | doesTableExist (tableName : String)
  | listTables
  | writeDfToTable (df : DataFrame) (tableName : String) (schema : Schema)
  | insertDfToTable (df : DataFrame) (tableName : String) (schema : Schema)
  | replaceTableWithDf (df : DataFrame) (tableName : String) (schema : Schema)
  | saveAsTable (df : DataFrame) (tableName : String) (mode : SaveMode) (schema : Schema)
  | createView (viewName : String) (logicalPlan : Plan) (ignoreIfExists : Bool) (description : Option String)
  | dropView (viewName : String) (ignoreIfNotExists : Bool)
  | setViewDescription (viewName : String) (description : Option String)
  | describeView (viewName : String)
  | listViews
  | createTool (toolName : String) (bindTool : Except CatalogException Tool) (ignoreIfExists : Bool)
  | dropTool (toolName : String) (ignoreIfNotExists : Bool)
  | describeTool (toolName : String)
  | listTools
  | insertQueryMetrics (executionId : String) (metrics : Row)

variable [PlanSchema Plan] [SchemaText]

namespace Operation

def program : Operation Plan Tool → Program Plan Tool (Reply Tool)
  | createDatabase databaseName ignoreIfExists => .bool <$> Catalog.createDatabase databaseName ignoreIfExists
  | dropDatabase databaseName cascade ignoreIfNotExists =>
    .bool <$> Catalog.dropDatabase databaseName cascade ignoreIfNotExists
  | setCurrentDatabase databaseName => (fun _ => .done) <$> Catalog.setCurrentDatabase databaseName
  | getCurrentDatabase => .name <$> Catalog.getCurrentDatabase
  | createTable tableName schema ignoreIfExists description =>
    .bool <$> Catalog.createTable tableName schema ignoreIfExists description
  | dropTable tableName ignoreIfNotExists => .bool <$> Catalog.dropTable tableName ignoreIfNotExists
  | setTableDescription tableName description => (fun _ => .done) <$> Catalog.setTableDescription tableName description
  | getTableDescription tableName => .description <$> Catalog.getTableDescription tableName
  | describeTable tableName => (fun metadata => .metadata (some metadata)) <$> Catalog.describeTable tableName
  | doesTableExist tableName => .bool <$> (resolveTable tableName >>= Catalog.doesTableExist)
  | listTables => .names <$> Catalog.listTables
  | writeDfToTable df tableName schema => (fun _ => .done) <$> Catalog.writeDfToTable df tableName schema
  | insertDfToTable df tableName schema => (fun _ => .done) <$> Catalog.insertDfToTable df tableName schema
  | replaceTableWithDf df tableName schema => (fun _ => .done) <$> Catalog.replaceTableWithDf df tableName schema
  | saveAsTable df tableName mode schema => (fun _ => .done) <$> Catalog.saveAsTable df tableName mode schema
  | createView viewName logicalPlan ignoreIfExists description =>
    .bool <$> Catalog.createView viewName logicalPlan ignoreIfExists description
  | dropView viewName ignoreIfNotExists => .bool <$> Catalog.dropView viewName ignoreIfNotExists
  | setViewDescription viewName description => .bool <$> Catalog.setViewDescription viewName description
  | describeView viewName => .metadata <$> Catalog.describeView viewName
  | listViews => .names <$> Catalog.listViews
  | createTool toolName bindTool ignoreIfExists => .bool <$> Catalog.createTool toolName bindTool ignoreIfExists
  | dropTool toolName ignoreIfNotExists => .bool <$> Catalog.dropTool toolName ignoreIfNotExists
  | describeTool toolName => .tool <$> Catalog.describeTool toolName
  | listTools => .tools <$> askDatabase SystemTableClient.listTools
  | insertQueryMetrics executionId metrics =>
    (fun _ => .done) <$> commitDatabase (SystemTableClient.insertQueryMetrics executionId metrics)

end Operation

end

end Catalog

end Fenic
