import Fenic.Catalog.Names
import Fenic.Dtypes.Series
import Fenic.Lib.Keyed

/-!
# `Catalog.Database` — the database and its system tables

The catalog stores the schema of a table as JSON: a dictionary for each type, with its name under `"type"` and its parameters under
keys of their own. Writing and reading a schema gives it back (`deserializeSchema_serializeSchema`). The text of the JSON is left
out: `json.loads` undoes `json.dumps`.

The database holds tables in schemas. A statement changes it or fails; a transaction is a statement made of others, which takes
place as a whole or not at all. The catalog keeps its own data in system tables: the schemas of the tables, the views, the tools and
the metrics.

`SystemTableClient` is the part that reads and writes them. A statement on a system table fails where the table is gone or another
one stands in its place.

## Contents
- **Tables.** `Table`, `Database` and the statements of the database.
- **System tables.** `SystemTable`, with `select` and `update`.
- **The client.** The functions of `SystemTableClient`, each with the error that it raises.
-/

namespace Fenic

namespace Catalog

/-- The dictionary of a type: its name, and what stands beside it. -/
inductive SerializedType where
  | named (type : String)
  | array (type : String) (elementType : SerializedType)
  | struct (type : String) (structFields : List (String × SerializedType))
  | embedding (type : String) (dimensions : Nat) (embeddingModel : String)
  | formatted (type format : String)

/-- `{"column_fields": [...]}`. -/
abbrev SchemaBlob := List (String × SerializedType)

mutual

/-- `serialize_data_type`. -/
def serializeDataType : DataType → SerializedType
  | .stringType => .named "StringType"
  | .integerType => .named "IntegerType"
  | .floatType => .named "FloatType"
  | .doubleType => .named "DoubleType"
  | .booleanType => .named "BooleanType"
  | .dateType => .named "DateType"
  | .timestampType => .named "TimestampType"
  | .arrayType elementType => .array "ArrayType" (serializeDataType elementType)
  | .structType structFields => .struct "StructType" (serializeStructFields structFields)
  | .embeddingType dimensions embeddingModel => .embedding "EmbeddingType" dimensions embeddingModel
  | .markdownType => .named "MarkdownType"
  | .htmlType => .named "HtmlType"
  | .jsonType => .named "JsonType"
  | .transcriptType format => .formatted "TranscriptType" format
  | .documentPathType format => .formatted "DocumentPathType" format

def serializeStructFields : List (String × DataType) → List (String × SerializedType)
  | [] => []
  | (name, dataType) :: fields => (name, serializeDataType dataType) :: serializeStructFields fields

end

/-- `serialize_schema`. -/
def serializeSchema (schema : Schema) : SchemaBlob :=
  schema.map fun field => (field.name, serializeDataType field.dataType)

/-- The types of `_TYPE_MAPPING` that have no parameters. -/
def plainType : String → Option DataType
  | "StringType" => some .stringType
  | "IntegerType" => some .integerType
  | "FloatType" => some .floatType
  | "DoubleType" => some .doubleType
  | "BooleanType" => some .booleanType
  | "DateType" => some .dateType
  | "TimestampType" => some .timestampType
  | "MarkdownType" => some .markdownType
  | "HtmlType" => some .htmlType
  | "JsonType" => some .jsonType
  | _ => none

def unknownDataType (type : String) : CatalogException := .valueError s!"Unknown data type: {type}"

mutual

/-- `_deserialize_data_type`. -/
def deserializeDataType : SerializedType → Except CatalogException DataType
  | .named type => (plainType type).elim (.error (unknownDataType type)) .ok
  | .array type elementType =>
    if type = "ArrayType" then (deserializeDataType elementType).map .arrayType else .error (unknownDataType type)
  | .struct type structFields =>
    if type = "StructType" then (deserializeStructFields structFields).map .structType else .error (unknownDataType type)
  | .embedding type dimensions embeddingModel =>
    if type = "EmbeddingType" then .ok (.embeddingType dimensions embeddingModel) else .error (unknownDataType type)
  | .formatted type format =>
    if type = "TranscriptType" then .ok (.transcriptType format)
    else if type = "DocumentPathType" then .ok (.documentPathType format)
    else .error (unknownDataType type)

def deserializeStructFields : List (String × SerializedType) → Except CatalogException (List (String × DataType))
  | [] => .ok []
  | (name, serialized) :: fields => do
    let dataType ← deserializeDataType serialized
    let rest ← deserializeStructFields fields
    return (name, dataType) :: rest

end

/-- `deserialize_schema`. -/
def deserializeSchema (blob : SchemaBlob) : Except CatalogException Schema :=
  blob.mapM fun entry => (deserializeDataType entry.2).map fun dataType => ⟨entry.1, dataType⟩

/-! ## Round trip -/

mutual

theorem deserialize_serialize : ∀ dataType : DataType, deserializeDataType (serializeDataType dataType) = .ok dataType
  | .arrayType elementType => by
    rw [serializeDataType, deserializeDataType, if_pos rfl, deserialize_serialize elementType]
    rfl
  | .structType structFields => by
    rw [serializeDataType, deserializeDataType, if_pos rfl, deserialize_serialize_fields structFields]
    rfl
  | .stringType => rfl
  | .integerType => rfl
  | .floatType => rfl
  | .doubleType => rfl
  | .booleanType => rfl
  | .dateType => rfl
  | .timestampType => rfl
  | .embeddingType _ _ => rfl
  | .markdownType => rfl
  | .htmlType => rfl
  | .jsonType => rfl
  | .transcriptType _ => rfl
  | .documentPathType _ => rfl

theorem deserialize_serialize_fields :
    ∀ fields : List (String × DataType), deserializeStructFields (serializeStructFields fields) = .ok fields
  | [] => rfl
  | (name, dataType) :: fields => by
    rw [serializeStructFields, deserializeStructFields, deserialize_serialize dataType, deserialize_serialize_fields fields]
    rfl

end

/-- **What is read is what was written.** -/
theorem deserializeSchema_serializeSchema (schema : Schema) : deserializeSchema (serializeSchema schema) = .ok schema := by
  unfold deserializeSchema serializeSchema
  rw [Except.mapM_eq_ok, List.forall₂_map_left_iff, List.forall₂_same]
  intro field _
  show (deserializeDataType (serializeDataType field.dataType)).map _ = _
  rw [deserialize_serialize]
  rfl

/-! ## The database and its system tables -/

/-! ## Tables -/

abbrev Column := String × Dtypes.PolarsDType

abbrev Row := List Dtypes.Value

/-- A frame of polars. -/
structure DataFrame where
  columns : List Column
  rows : List Row

/-- A row of `table_schemas`. -/
structure SchemaRow where
  schemaBlob : SchemaBlob
  description : Option String

/-- A row of `table_views`. -/
structure ViewRow (Plan : Type) where
  plan : Plan
  description : Option String

/-- A table: one that a user made, or one of the four that the catalog makes. -/
inductive Table (Plan Tool : Type) where
  | user (columns : List Column) (rows : List Row)
  | tableSchemas (rows : List (TableKey × SchemaRow))
  | tableViews (rows : List (TableKey × ViewRow Plan))
  | mcpTools (rows : List (String × Tool))
  | queryMetrics (rows : List Row)

structure Database (Plan Tool : Type) where
  schemas : List String
  tables : List (TableKey × Table Plan Tool)

/-- Why a statement fails by itself. -/
inductive DatabaseError where
  | noSuchSchema (db : String)
  | noSuchTable (key : TableKey)
  | schemaNotEmpty (db : String)
  | internalSchema (db : String)
  | wrongColumns (key : TableKey)

/-- What stays open about the database: the columns that it makes of those of a frame, whether and how rows of a frame go into a
    table, and the texts of its errors. -/
class DuckDB where
  createdColumns : List Column → List Column
  insertedRows : List Column → DataFrame → Option (List Row)
  message : DatabaseError → String

/-- A database that keeps the columns and rows of frames. -/
@[reducible] def plainDuckDB : DuckDB where
  createdColumns columns := columns
  insertedRows _ df := some df.rows
  message _ := "error"

/-- A statement of the database, or a transaction. -/
abbrev Statement (Plan Tool : Type) := StateT (Database Plan Tool) (Except CatalogException)

section

variable {Plan Tool : Type}

namespace Database

def table (database : Database Plan Tool) (key : TableKey) : Option (Table Plan Tool) := Keyed.get database.tables key

def put (key : TableKey) (table : Table Plan Tool) (database : Database Plan Tool) : Database Plan Tool :=
  { database with tables := Keyed.upsert key table database.tables }

theorem table_put (database : Database Plan Tool) (key key' : TableKey) (t : Table Plan Tool) :
    (database.put key' t).table key = if key = key' then some t else database.table key := Keyed.get_upsert key key' t _

end Database

/-- The statement with its errors replaced. -/
def Statement.mapError {α : Type} (h : CatalogException → CatalogException) (statement : Statement Plan Tool α) :
    Statement Plan Tool α :=
  fun database => (statement database).mapError h

/-- A statement that only reads. -/
def Statement.select {α : Type} (question : Database Plan Tool → Except CatalogException α) : Statement Plan Tool α :=
  fun database => (question database).map fun answer => (answer, database)

/-- The schemas that the database does not drop. -/
def internalSchemas : List String := ["main", "information_schema", "pg_catalog"]

/-- `duckdb_schemas`. -/
def hasSchema (db : String) (database : Database Plan Tool) : Except CatalogException Bool := .ok (decide (db ∈ database.schemas))

/-- `information_schema.tables`. -/
def hasTable (key : TableKey) (database : Database Plan Tool) : Except CatalogException Bool := .ok (database.table key).isSome

/-- `CREATE SCHEMA IF NOT EXISTS`. -/
def createSchema (db : String) : Statement Plan Tool Unit := fun database =>
  .ok ((), if db ∈ database.schemas then database else { database with schemas := db :: database.schemas })

/-- `DROP TABLE IF EXISTS`. -/
def dropTableStatement (key : TableKey) : Statement Plan Tool Unit := fun database =>
  .ok ((), { database with tables := Keyed.delete (· = key) database.tables })

variable [DuckDB]

def databaseError {α : Type} (error : DatabaseError) : Except CatalogException α := .error (.duckdbError (DuckDB.message error))

/-- `DROP SCHEMA IF EXISTS`, with or without `CASCADE`. -/
def dropSchema (db : String) (cascade : Bool) : Statement Plan Tool Unit := fun database =>
  if db ∈ internalSchemas then databaseError (.internalSchema db)
  else if db ∉ database.schemas then .ok ((), database)
  else if cascade = false ∧ ∃ entry ∈ database.tables, entry.1.db = db then databaseError (.schemaNotEmpty db)
  else .ok ((), { schemas := database.schemas.filter (· ≠ db)
                  tables := Keyed.delete (fun key => key.db = db) database.tables })

/-- `CREATE TABLE IF NOT EXISTS ... AS SELECT * FROM` a frame. -/
def createTableAs (key : TableKey) (df : DataFrame) : Statement Plan Tool Unit := fun database =>
  if key.db ∉ database.schemas then databaseError (.noSuchSchema key.db)
  else .ok ((), if (database.table key).isSome then database
    else database.put key (.user (DuckDB.createdColumns df.columns) df.rows))

/-- `CREATE OR REPLACE TABLE ... AS SELECT * FROM` a frame. -/
def createOrReplaceTableAs (key : TableKey) (df : DataFrame) : Statement Plan Tool Unit := fun database =>
  if key.db ∉ database.schemas then databaseError (.noSuchSchema key.db)
  else .ok ((), database.put key (.user (DuckDB.createdColumns df.columns) df.rows))

/-- `INSERT INTO ... SELECT * FROM` a frame. -/
def insertInto (key : TableKey) (df : DataFrame) : Statement Plan Tool Unit := fun database =>
  match database.table key with
  | none => databaseError (.noSuchTable key)
  | some (.user columns rows) =>
    match DuckDB.insertedRows columns df with
    | none => databaseError (.wrongColumns key)
    | some newRows => .ok ((), database.put key (.user columns (rows ++ newRows)))
  | some _ => databaseError (.wrongColumns key)

/-! ## System tables -/

/-- A table of the catalog's own: where it stands, and how its rows are told from those of other tables. -/
structure SystemTable (Plan Tool ρ : Type) where
  key : TableKey
  wrap : List ρ → Table Plan Tool
  rows : Table Plan Tool → Option (List ρ)
  rows_eq_some : ∀ table rs, rows table = some rs ↔ table = wrap rs

namespace SystemTable

variable {ρ : Type} (systemTable : SystemTable Plan Tool ρ)

def select (database : Database Plan Tool) : Except CatalogException (List ρ) :=
  match (database.table systemTable.key).bind systemTable.rows with
  | some rows => .ok rows
  | none => databaseError (.noSuchTable systemTable.key)

def update (f : List ρ → List ρ) : Statement Plan Tool Unit := fun database =>
  (systemTable.select database).map fun rows => ((), database.put systemTable.key (systemTable.wrap (f rows)))

theorem select_eq_ok {database : Database Plan Tool} {rows : List ρ} :
    systemTable.select database = .ok rows ↔ database.table systemTable.key = some (systemTable.wrap rows) := by
  unfold select
  cases htable : database.table systemTable.key with
  | none => exact iff_of_false nofun nofun
  | some table =>
    rw [Option.bind_some, Option.some_inj, ← systemTable.rows_eq_some]
    cases systemTable.rows table with
    | none => exact iff_of_false nofun nofun
    | some rows' => exact ⟨fun h => congrArg some (Except.ok.inj h), fun h => congrArg Except.ok (Option.some.inj h)⟩

theorem update_eq_ok {f : List ρ → List ρ} {database database' : Database Plan Tool} {u : Unit} :
    systemTable.update f database = .ok (u, database') ↔
      ∃ rows, database.table systemTable.key = some (systemTable.wrap rows) ∧
        database' = database.put systemTable.key (systemTable.wrap (f rows)) := by
  unfold update
  rw [Except.map_eq_ok]
  simp only [select_eq_ok]
  constructor
  · rintro ⟨rows, hrows, h⟩
    cases h
    exact ⟨rows, hrows, rfl⟩
  · rintro ⟨rows, hrows, rfl⟩
    exact ⟨rows, hrows, rfl⟩

end SystemTable

end

def systemSchemaName : String := "__fenic_system"

def readOnlySystemSchemaName : String := "fenic_system"

def schemaMetadataTable : TableKey := ⟨systemSchemaName, "table_schemas"⟩

def viewsMetadataTable : TableKey := ⟨systemSchemaName, "table_views"⟩

def toolsMetadataTable : TableKey := ⟨systemSchemaName, "mcp_tools"⟩

def metricsTable : TableKey := ⟨readOnlySystemSchemaName, "query_metrics"⟩

section

variable (Plan Tool : Type)

/-- `table_schemas`. -/
def tableSchemas : SystemTable Plan Tool (TableKey × SchemaRow) where
  key := schemaMetadataTable
  wrap := .tableSchemas
  rows table := match table with
    | .tableSchemas rows => some rows
    | _ => none
  rows_eq_some := by
    intro table rs
    cases table <;> simp

/-- `table_views`. -/
def tableViews : SystemTable Plan Tool (TableKey × ViewRow Plan) where
  key := viewsMetadataTable
  wrap := .tableViews
  rows table := match table with
    | .tableViews rows => some rows
    | _ => none
  rows_eq_some := by
    intro table rs
    cases table <;> simp

/-- `mcp_tools`. -/
def mcpTools : SystemTable Plan Tool (String × Tool) where
  key := toolsMetadataTable
  wrap := .mcpTools
  rows table := match table with
    | .mcpTools rows => some rows
    | _ => none
  rows_eq_some := by
    intro table rs
    cases table <;> simp

/-- `query_metrics`. -/
def queryMetrics : SystemTable Plan Tool Row where
  key := metricsTable
  wrap := .queryMetrics
  rows table := match table with
    | .queryMetrics rows => some rows
    | _ => none
  rows_eq_some := by
    intro table rs
    cases table <;> simp

end

/-! ## The client -/

/-- `DatasetMetadata`. -/
structure DatasetMetadata where
  schema : Schema
  description : Option String

namespace SystemTableClient

variable {Plan Tool : Type} [DuckDB]

/-- `raise CatalogError(f"{message}: {e}") from e`. -/
def withCause (message : String) (e : CatalogException) : CatalogException := .catalogError s!"{message}: {e.text}"

/-- `raise CatalogError(message) from e`. -/
def withoutCause (message : String) (_ : CatalogException) : CatalogException := .catalogError message

/-- `get_table_description`. -/
def getTableDescription (key : TableKey) (database : Database Plan Tool) : Except CatalogException (Option String) :=
  (((tableSchemas Plan Tool).select database).map fun rows => (Keyed.get rows key).bind SchemaRow.description).mapError
    (withCause s!"Failed to retrieve table description for {key.text}")

/-- `get_table_metadata`. -/
def getTableMetadata (key : TableKey) (database : Database Plan Tool) : Except CatalogException (Option DatasetMetadata) :=
  Except.mapError (withCause s!"Failed to retrieve schema metadata for {key.text}") do
    let rows ← (tableSchemas Plan Tool).select database
    match Keyed.get rows key with
    | none => return none
    | some row =>
      let schema ← deserializeSchema row.schemaBlob
      return some ⟨schema, row.description⟩

/-- `set_table_description`. -/
def setTableDescription (key : TableKey) (description : Option String) : Statement Plan Tool Unit :=
  ((tableSchemas Plan Tool).update (Keyed.modify key fun row => { row with description := description })).mapError
    (withCause s!"Failed to set table description for {key.text}")

/-- `get_view`. -/
def getView (key : TableKey) (database : Database Plan Tool) : Except CatalogException (Option Plan) :=
  (((tableViews Plan Tool).select database).map fun rows => (Keyed.get rows key).map ViewRow.plan).mapError
    (withoutCause s!"Failed to retrieve view for {key.text}")

/-- `get_view_metadata`, with the schema that a plan has. -/
def getViewMetadata (schemaOf : Plan → Schema) (key : TableKey) (database : Database Plan Tool) :
    Except CatalogException (Option DatasetMetadata) :=
  (((tableViews Plan Tool).select database).map fun rows =>
    (Keyed.get rows key).map fun row => ⟨schemaOf row.plan, row.description⟩).mapError
    (withoutCause s!"Failed to retrieve view metadata for {key.text}")

/-- `get_view_description`. -/
def getViewDescription (key : TableKey) (database : Database Plan Tool) : Except CatalogException (Option String) :=
  (((tableViews Plan Tool).select database).map fun rows => (Keyed.get rows key).bind ViewRow.description).mapError
    (withoutCause s!"Failed to retrieve view description for {key.text}")

/-- `set_view_description`. -/
def setViewDescription (key : TableKey) (description : Option String) : Statement Plan Tool Unit :=
  ((tableViews Plan Tool).update (Keyed.modify key fun row => { row with description := description })).mapError
    (withoutCause s!"Failed to set view description for {key.text}")

/-- `list_views`. -/
def listViews (databaseName : String) (database : Database Plan Tool) : Except CatalogException (List String) :=
  (((tableViews Plan Tool).select database).map fun rows =>
    (rows.filter fun entry => entry.1.db = databaseName).map fun entry => entry.1.table).mapError
    (withoutCause s!"Failed to retrieve all views for {databaseName}")

/-- `delete_view`. -/
def deleteView (key : TableKey) : Statement Plan Tool Unit :=
  ((tableViews Plan Tool).update (Keyed.delete (· = key))).mapError
    (withoutCause s!"Failed to delete views for {key.text}")

/-- `delete_database_views`. -/
def deleteDatabaseViews (databaseName : String) : Statement Plan Tool Unit :=
  ((tableViews Plan Tool).update (Keyed.delete fun key => key.db = databaseName)).mapError
    (withoutCause s!"Failed to delete views metadata for database {databaseName}")

/-- `describe_tool`. -/
def describeTool (toolName : String) (database : Database Plan Tool) : Except CatalogException (Option Tool) :=
  (((mcpTools Plan Tool).select database).map fun rows => Keyed.get rows toolName).mapError
    (withoutCause s!"Failed to retrieve tool metadata for {toolName}")

/-- `list_tools`. -/
def listTools (database : Database Plan Tool) : Except CatalogException (List Tool) :=
  (((mcpTools Plan Tool).select database).map fun rows => rows.map Prod.snd).mapError (withoutCause "Failed to list tools")

/-- `save_tool`. -/
def saveTool (toolName : String) (tool : Tool) : Statement Plan Tool Unit :=
  ((mcpTools Plan Tool).update (Keyed.upsert toolName tool)).mapError
    (withoutCause s!"Failed to save tool metadata for {toolName}")

/-- `delete_tool`. -/
def deleteTool (toolName : String) : Statement Plan Tool Unit :=
  ((mcpTools Plan Tool).update (Keyed.delete (· = toolName))).mapError
    (withoutCause s!"Failed to delete tool metadata for {toolName}")

/-- `insert_query_metrics`. -/
def insertQueryMetrics (executionId : String) (metrics : Row) : Statement Plan Tool Unit :=
  ((queryMetrics Plan Tool).update (· ++ [metrics])).mapError
    (withCause s!"Failed to append metrics for execution {executionId}")

/-- The description that is given, or else the stored one. -/
def keepDescription (description : Option String) (stored : Database Plan Tool → Except CatalogException (Option String)) :
    Statement Plan Tool (Option String) :=
  match description with
  | some description => pure (some description)
  | none => Statement.select stored

variable [Casefold]

/-- `save_table`. A description that is not given stays as it was. -/
def saveTable (key : TableKey) (schema : Schema) (description : Option String) : Statement Plan Tool Unit :=
  let schemaBlob := serializeSchema schema
  let key : TableKey := ⟨normalizeObjectName key.db, normalizeObjectName key.table⟩
  Statement.mapError (withCause s!"Failed to save schema metadata for {key.text}") do
    let description ← keepDescription description (getTableDescription key)
    (tableSchemas Plan Tool).update (Keyed.upsert key ⟨schemaBlob, description⟩)

/-- `delete_schema`. -/
def deleteSchema (key : TableKey) : Statement Plan Tool Unit :=
  ((tableSchemas Plan Tool).update
    (Keyed.delete (· = ⟨normalizeObjectName key.db, normalizeObjectName key.table⟩))).mapError
    (withCause s!"Failed to delete schema metadata for {key.text}")

/-- `delete_database_schemas`. -/
def deleteDatabaseSchemas (databaseName : String) : Statement Plan Tool Unit :=
  ((tableSchemas Plan Tool).update (Keyed.delete fun key => key.db = normalizeObjectName databaseName)).mapError
    (withCause s!"Failed to delete schema metadata for database {databaseName}")

/-- `save_view`. -/
def saveView (key : TableKey) (plan : Plan) (description : Option String) : Statement Plan Tool Unit :=
  let key : TableKey := ⟨casefold key.db, casefold key.table⟩
  Statement.mapError (withoutCause s!"Failed to save view for {key.text}") do
    let description ← keepDescription description (getViewDescription key)
    (tableViews Plan Tool).update (Keyed.upsert key ⟨plan, description⟩)

/-! ## Initialization -/

/-- `CREATE TABLE IF NOT EXISTS` for a system table. -/
def createSystemTable {ρ : Type} (systemTable : SystemTable Plan Tool ρ) : Statement Plan Tool Unit := fun database =>
  .ok ((), if (database.table systemTable.key).isSome then database
    else database.put systemTable.key (systemTable.wrap []))

def metricsSchema : Schema :=
  [⟨"execution_id", .stringType⟩, ⟨"session_id", .stringType⟩, ⟨"execution_time_ms", .doubleType⟩,
    ⟨"num_output_rows", .integerType⟩, ⟨"start_ts", .timestampType⟩, ⟨"end_ts", .timestampType⟩,
    ⟨"total_lm_cost", .doubleType⟩, ⟨"total_lm_uncached_input_tokens", .integerType⟩,
    ⟨"total_lm_cached_input_tokens", .integerType⟩, ⟨"total_lm_output_tokens", .integerType⟩,
    ⟨"total_lm_requests", .integerType⟩, ⟨"total_rm_cost", .doubleType⟩, ⟨"total_rm_input_tokens", .integerType⟩,
    ⟨"total_rm_requests", .integerType⟩]

/-- `SystemTableClient.__init__`. -/
def initializeSystemTables : Statement Plan Tool Unit := do
  createSchema systemSchemaName
  createSystemTable (tableSchemas Plan Tool)
  createSchema systemSchemaName
  createSystemTable (tableViews Plan Tool)
  createSchema readOnlySystemSchemaName
  createSystemTable (queryMetrics Plan Tool)
  saveTable metricsTable metricsSchema none
  createSchema systemSchemaName
  createSystemTable (mcpTools Plan Tool)

end SystemTableClient

end Catalog

end Fenic
