import Fenic.Catalog.Operations
import Fenic.Lib.Transition

/-!
# `Catalog.Consistency` — tables and their metadata

A table that a user makes is described by a row of `table_schemas`. In a consistent database it exists exactly when its row does, and
the row has the schema of its columns; the system tables are in place, and those of the internal schema have no row.

Operations keep this with three exceptions. The internal schema is not protected as the read-only one is, so a table of it can be
dropped or replaced. `write_df_to_table` stores the schema that it is given also where the table is there already and keeps its
columns. And the columns that the database makes of a frame may not be those of the schema. `Sound` excludes the three, and every
run of sound operations ends in a consistent database, whatever fails on the way (`consistent_run`).
-/

namespace Fenic

namespace Catalog

open StoreProgram SystemTableClient

/-! ## Consistent databases -/

/-- The system tables of the internal schema. -/
def internalTables : List TableKey := [schemaMetadataTable, viewsMetadataTable, toolsMetadataTable]

def systemTables : List TableKey := metricsTable :: internalTables

section

variable {Plan Tool : Type}

/-- A table of a user and its row are both there or both not, and the row has the schema of the columns. -/
def Described : Option (Table Plan Tool) → Option SchemaRow → Prop
  | none, none => True
  | some (.user columns _), some row => (deserializeSchema row.schemaBlob).map schemaColumns = .ok columns
  | _, _ => False

/-- The database with the rows of `table_schemas` is consistent. -/
structure ConsistentRows (database : Database Plan Tool) (rows : List (TableKey × SchemaRow)) : Prop where
  schemas : database.table schemaMetadataTable = some (.tableSchemas rows)
  views : ∃ rows, database.table viewsMetadataTable = some (.tableViews rows)
  tools : ∃ rows, database.table toolsMetadataTable = some (.mcpTools rows)
  metrics : ∃ rows, database.table metricsTable = some (.queryMetrics rows)
  described : ∀ key ∉ systemTables, Described (database.table key) (Keyed.get rows key)
  unlisted : ∀ key ∈ internalTables, Keyed.get rows key = none

def Consistent (database : Database Plan Tool) : Prop := ∃ rows, ConsistentRows database rows

/-- The contents of the system tables that no operation on databases, tables or views touches. -/
def KeepsContents (database database' : Database Plan Tool) : Prop :=
  database'.table toolsMetadataTable = database.table toolsMetadataTable ∧ database'.table metricsTable = database.table metricsTable

namespace ConsistentRows

variable {database database' : Database Plan Tool} {rows : List (TableKey × SchemaRow)} {key : TableKey}

variable {columns : List Column} {tableRows : List Row}

/-- A table of a user is not a system table. -/
theorem not_systemTable (h : ConsistentRows database rows)
    (htable : database.table key = some (.user columns tableRows)) : key ∉ systemTables := by
  intro hkey
  simp only [systemTables, internalTables, List.mem_cons, List.not_mem_nil, or_false] at hkey
  rcases hkey with rfl | rfl | rfl | rfl
  · obtain ⟨_, hmetrics⟩ := h.metrics
    cases hmetrics.symm.trans htable
  · cases h.schemas.symm.trans htable
  · obtain ⟨_, hviews⟩ := h.views
    cases hviews.symm.trans htable
  · obtain ⟨_, htools⟩ := h.tools
    cases htools.symm.trans htable

/-- A system table is there. -/
theorem isSome_systemTable (h : ConsistentRows database rows) (hkey : key ∈ systemTables) : (database.table key).isSome := by
  simp only [systemTables, internalTables, List.mem_cons, List.not_mem_nil, or_false] at hkey
  rcases hkey with rfl | rfl | rfl | rfl
  · obtain ⟨_, hmetrics⟩ := h.metrics
    rw [hmetrics]
    rfl
  · rw [h.schemas]
    rfl
  · obtain ⟨_, hviews⟩ := h.views
    rw [hviews]
    rfl
  · obtain ⟨_, htools⟩ := h.tools
    rw [htools]
    rfl

theorem ne_of_not_mem (hkey : key ∉ systemTables) :
    key ≠ schemaMetadataTable ∧ key ≠ viewsMetadataTable ∧ key ≠ toolsMetadataTable ∧ key ≠ metricsTable := by
  simp only [systemTables, internalTables, List.mem_cons, List.not_mem_nil, or_false, not_or] at hkey
  exact ⟨hkey.2.1, hkey.2.2.1, hkey.2.2.2, hkey.1⟩

/-- A table of a user is saved with a schema that has its columns. -/
theorem saved {schema : Schema} {description : Option String}
    (h : ConsistentRows database rows) (hkey : key ∉ systemTables) (hcolumns : columns = schemaColumns schema)
    (hschemas : database'.table schemaMetadataTable =
      some (.tableSchemas (Keyed.upsert key ⟨serializeSchema schema, description⟩ rows)))
    (hothers : ∀ key' ≠ schemaMetadataTable, database'.table key' =
      if key' = key then some (.user columns tableRows) else database.table key') :
    Consistent database' ∧ KeepsContents database database' := by
  obtain ⟨-, hviews, htools, hmetrics⟩ := ne_of_not_mem hkey
  have hkept : ∀ key' ≠ schemaMetadataTable, key' ≠ key → database'.table key' = database.table key' := by
    intro key' hne hne'
    rw [hothers key' hne, if_neg hne']
  have htools' := hkept toolsMetadataTable (by decide) htools.symm
  have hmetrics' := hkept metricsTable (by decide) hmetrics.symm
  refine ⟨⟨_, hschemas, ?_, ?_, ?_, ?_, ?_⟩, htools', hmetrics'⟩
  · rw [hkept viewsMetadataTable (by decide) hviews.symm]
    exact h.views
  · rw [htools']
    exact h.tools
  · rw [hmetrics']
    exact h.metrics
  · intro key' hkey'
    rw [hothers key' (ne_of_not_mem hkey').1, Keyed.get_upsert]
    by_cases heq : key' = key
    · rw [if_pos heq, if_pos heq]
      show (deserializeSchema (serializeSchema schema)).map schemaColumns = .ok columns
      rw [deserializeSchema_serializeSchema, hcolumns]
      rfl
    · rw [if_neg heq, if_neg heq]
      exact h.described key' hkey'
  · intro key' hkey'
    have hne : key' ≠ key := by
      rintro rfl
      exact hkey (List.mem_cons_of_mem _ hkey')
    rw [Keyed.get_upsert, if_neg hne]
    exact h.unlisted key' hkey'

/-- Tables are deleted together with their rows. -/
theorem deleted {p : TableKey → Prop} [DecidablePred p] (h : ConsistentRows database rows) (hp : ∀ key ∈ systemTables, ¬ p key)
    (hschemas : database'.table schemaMetadataTable = some (.tableSchemas (Keyed.delete p rows)))
    (hviews : ∃ rows, database'.table viewsMetadataTable = some (.tableViews rows))
    (hothers : ∀ key, key ≠ schemaMetadataTable → key ≠ viewsMetadataTable →
      database'.table key = if p key then none else database.table key) :
    Consistent database' ∧ KeepsContents database database' := by
  have htools' := hothers toolsMetadataTable (by decide) (by decide)
  have hmetrics' := hothers metricsTable (by decide) (by decide)
  rw [if_neg (hp _ (by decide))] at htools' hmetrics'
  refine ⟨⟨_, hschemas, hviews, ?_, ?_, ?_, ?_⟩, htools', hmetrics'⟩
  · rw [htools']
    exact h.tools
  · rw [hmetrics']
    exact h.metrics
  · intro key hkey
    obtain ⟨hschema, hview, -⟩ := ne_of_not_mem hkey
    rw [hothers key hschema hview, Keyed.get_delete]
    by_cases hkey' : p key
    · rw [if_pos hkey', if_pos hkey']
      trivial
    · rw [if_neg hkey', if_neg hkey']
      exact h.described key hkey
  · intro key hkey
    rw [Keyed.get_delete, if_neg (hp key (List.mem_cons_of_mem _ hkey))]
    exact h.unlisted key hkey

/-- A description is changed. -/
theorem described_again (h : ConsistentRows database rows) (f : SchemaRow → SchemaRow)
    (hf : ∀ row, (f row).schemaBlob = row.schemaBlob) (key : TableKey) :
    Consistent (database.put schemaMetadataTable (.tableSchemas (Keyed.modify key f rows))) ∧
      KeepsContents database (database.put schemaMetadataTable (.tableSchemas (Keyed.modify key f rows))) := by
  have hothers : ∀ key' ≠ schemaMetadataTable,
      (database.put schemaMetadataTable (.tableSchemas (Keyed.modify key f rows))).table key' = database.table key' := by
    intro key' hne
    rw [Database.table_put, if_neg hne]
  refine ⟨⟨Keyed.modify key f rows, ?_, ?_, ?_, ?_, ?_, ?_⟩, hothers _ (by decide), hothers _ (by decide)⟩
  · rw [Database.table_put, if_pos rfl]
  · rw [hothers _ (by decide)]
    exact h.views
  · rw [hothers _ (by decide)]
    exact h.tools
  · rw [hothers _ (by decide)]
    exact h.metrics
  · intro key' hkey'
    have hdescribed := h.described key' hkey'
    rw [hothers key' (ne_of_not_mem hkey').1, Keyed.get_modify]
    by_cases heq : key' = key
    · rw [if_pos heq]
      cases hrow : Keyed.get rows key' with
      | none => rwa [hrow] at hdescribed
      | some row =>
        rw [hrow] at hdescribed
        cases htable : database.table key' with
        | none => rw [htable] at hdescribed; cases hdescribed
        | some table =>
          rw [htable] at hdescribed
          cases table with
          | user columns tableRows =>
            show (deserializeSchema (f row).schemaBlob).map schemaColumns = .ok columns
            rw [hf]
            exact hdescribed
          | _ => cases hdescribed
    · rw [if_neg heq]
      exact hdescribed
  · intro key' hkey'
    rw [Keyed.get_modify, h.unlisted key' hkey', Option.map_none, ite_self]

/-- A table that is not that of the schemas is put in place of one of its kind. -/
theorem put {key : TableKey} {table : Table Plan Tool} (h : ConsistentRows database rows) (hschemas : key ≠ schemaMetadataTable)
    (hviews : key = viewsMetadataTable → ∃ rows, table = .tableViews rows)
    (htools : key = toolsMetadataTable → ∃ rows, table = .mcpTools rows)
    (hmetrics : key = metricsTable → ∃ rows, table = .queryMetrics rows)
    (huser : key ∉ systemTables → Described (some table) (Keyed.get rows key)) :
    Consistent (database.put key table) := by
  refine ⟨rows, ?_, ?_, ?_, ?_, ?_, h.unlisted⟩
  · rw [Database.table_put, if_neg hschemas.symm]
    exact h.schemas
  · rw [Database.table_put]
    by_cases heq : viewsMetadataTable = key
    · rw [if_pos heq]
      obtain ⟨rows, rfl⟩ := hviews heq.symm
      exact ⟨rows, rfl⟩
    · rw [if_neg heq]
      exact h.views
  · rw [Database.table_put]
    by_cases heq : toolsMetadataTable = key
    · rw [if_pos heq]
      obtain ⟨rows, rfl⟩ := htools heq.symm
      exact ⟨rows, rfl⟩
    · rw [if_neg heq]
      exact h.tools
  · rw [Database.table_put]
    by_cases heq : metricsTable = key
    · rw [if_pos heq]
      obtain ⟨rows, rfl⟩ := hmetrics heq.symm
      exact ⟨rows, rfl⟩
    · rw [if_neg heq]
      exact h.metrics
  · intro key' hkey'
    rw [Database.table_put]
    by_cases heq : key' = key
    · rw [if_pos heq, heq]
      exact huser (heq ▸ hkey')
    · rw [if_neg heq]
      exact h.described key' hkey'

/-- Consistency is about the tables alone. -/
theorem congr (h : ConsistentRows database rows) (htable : ∀ key, database'.table key = database.table key) :
    Consistent database' ∧ KeepsContents database database' := by
  refine ⟨⟨rows, ?_, ?_, ?_, ?_, ?_, h.unlisted⟩, htable _, htable _⟩
  · rw [htable]
    exact h.schemas
  · rw [htable]
    exact h.views
  · rw [htable]
    exact h.tools
  · rw [htable]
    exact h.metrics
  · intro key hkey
    rw [htable]
    exact h.described key hkey

theorem put_views (h : ConsistentRows database rows) (viewRows : List (TableKey × ViewRow Plan)) :
    Consistent (database.put viewsMetadataTable (.tableViews viewRows)) ∧
      KeepsContents database (database.put viewsMetadataTable (.tableViews viewRows)) := by
  refine ⟨h.put (by decide) (fun _ => ⟨viewRows, rfl⟩) (fun heq => absurd heq (by decide)) (fun heq => absurd heq (by decide))
    (fun hkey => absurd (by decide) hkey), ?_, ?_⟩
  · rw [Database.table_put, if_neg (by decide)]
  · rw [Database.table_put, if_neg (by decide)]

theorem put_tools (h : ConsistentRows database rows) (toolRows : List (String × Tool)) :
    Consistent (database.put toolsMetadataTable (.mcpTools toolRows)) :=
  h.put (by decide) (fun heq => absurd heq (by decide)) (fun _ => ⟨toolRows, rfl⟩) (fun heq => absurd heq (by decide))
    (fun hkey => absurd (by decide) hkey)

theorem put_metrics (h : ConsistentRows database rows) (metricsRows : List Row) :
    Consistent (database.put metricsTable (.queryMetrics metricsRows)) :=
  h.put (by decide) (fun heq => absurd heq (by decide)) (fun heq => absurd heq (by decide)) (fun _ => ⟨metricsRows, rfl⟩)
    (fun hkey => absurd (by decide) hkey)

/-- A table of a user gets other rows. -/
theorem put_user {tableRows' : List Row} (h : ConsistentRows database rows)
    (htable : database.table key = some (.user columns tableRows)) :
    Consistent (database.put key (.user columns tableRows')) ∧
      KeepsContents database (database.put key (.user columns tableRows')) := by
  have hkey := h.not_systemTable htable
  obtain ⟨hschemas, hviews, htools, hmetrics⟩ := ne_of_not_mem hkey
  refine ⟨h.put hschemas (fun heq => absurd heq hviews) (fun heq => absurd heq htools) (fun heq => absurd heq hmetrics) ?_, ?_, ?_⟩
  · intro _
    have hdescribed := h.described key hkey
    rw [htable] at hdescribed
    cases hrow : Keyed.get rows key with
    | none => rw [hrow] at hdescribed; cases hdescribed
    | some row => rw [hrow] at hdescribed; exact hdescribed
  · rw [Database.table_put, if_neg htools.symm]
  · rw [Database.table_put, if_neg hmetrics.symm]

end ConsistentRows

end

/-! ## Transactions -/

section

variable {Plan Tool : Type} [Casefold] [DuckDB] {database database' : Database Plan Tool} {rows : List (TableKey × SchemaRow)}
  {key : TableKey} {u : Unit}

/-- The columns of a table after `CREATE TABLE IF NOT EXISTS`. -/
def columnsAfter (df : DataFrame) : Option (Table Plan Tool) → List Column
  | some (.user columns _) => columns
  | _ => DuckDB.createdColumns df.columns

variable {df : DataFrame}

omit [Casefold] in
/-- The table is one of a user afterwards, with these columns. -/
theorem createTableAs_user (h : ConsistentRows database rows) (hkey : key ∉ systemTables)
    (hcreate : createTableAs key df database = .ok (u, database')) :
    ∃ tableRows, ∀ key', database'.table key' =
      if key' = key then some (.user (columnsAfter df (database.table key)) tableRows) else database.table key' := by
  rw [createTableAs_effect hcreate]
  cases htable : database.table key with
  | none =>
    refine ⟨df.rows, ?_⟩
    intro key'
    rw [if_neg (by simp), Database.table_put]
    rfl
  | some table =>
    have hdescribed := h.described key hkey
    rw [htable] at hdescribed
    cases table with
    | user columns tableRows =>
      refine ⟨tableRows, ?_⟩
      intro key'
      rw [if_pos Option.isSome_some]
      by_cases heq : key' = key
      · rw [if_pos heq, heq, htable]
        rfl
      · rw [if_neg heq]
    | _ => cases hrow : Keyed.get rows key <;> rw [hrow] at hdescribed <;> cases hdescribed

/-- A table is made of a frame, or is there, and is saved with the schema of its columns. -/
theorem created_saved {schema : Schema} {description : Option String} {between : Database Plan Tool}
    (h : ConsistentRows database rows) (hkey : key ∉ systemTables) (hfolded : key.Folded)
    (hcolumns : columnsAfter df (database.table key) = schemaColumns schema)
    (hcreate : createTableAs key df database = .ok (u, between))
    (hsave : saveTable key schema description between = .ok (u, database')) :
    Consistent database' ∧ KeepsContents database database' := by
  obtain ⟨tableRows, htable⟩ := createTableAs_user h hkey hcreate
  obtain ⟨rows', description', hrows, rfl⟩ := saveTable_effect hfolded hsave
  have hschema : schemaMetadataTable ≠ key := (ConsistentRows.ne_of_not_mem hkey).1.symm
  rw [htable, if_neg hschema, h.schemas] at hrows
  cases hrows
  apply h.saved hkey hcolumns
  · rw [Database.table_put, if_pos rfl]
  · intro key' hne
    rw [Database.table_put, if_neg hne, htable]

/-- The same where the table is replaced. That of the schemas is not, since its own row could not be saved then. -/
theorem replaced_saved {schema : Schema} (h : ConsistentRows database rows) (hfolded : key.Folded)
    (hkey : key ≠ schemaMetadataTable → key ∉ systemTables ∧ DuckDB.createdColumns df.columns = schemaColumns schema)
    (hreplace : replaceTransaction key df schema database = .ok (u, database')) :
    Consistent database' ∧ KeepsContents database database' := by
  obtain ⟨_, between, hcreate, hsave⟩ := Statement.bind_eq_ok.mp hreplace
  rw [createOrReplaceTableAs_effect hcreate] at hsave
  obtain ⟨rows', description', hrows, rfl⟩ := saveTable_effect hfolded hsave
  rw [Database.table_put] at hrows
  by_cases hschema : key = schemaMetadataTable
  · rw [if_pos hschema.symm] at hrows
    cases hrows
  · obtain ⟨hsystem, hcolumns⟩ := hkey hschema
    rw [if_neg (Ne.symm hschema), h.schemas] at hrows
    cases hrows
    apply h.saved hsystem hcolumns
    · rw [Database.table_put, if_pos rfl]
    · intro key' hne
      rw [Database.table_put, if_neg hne, Database.table_put]

theorem dropped (h : ConsistentRows database rows) (hfolded : key.Folded)
    (hkey : key ≠ schemaMetadataTable → key ∉ systemTables)
    (hdrop : dropTableTransaction key database = .ok (u, database')) :
    Consistent database' ∧ KeepsContents database database' := by
  obtain ⟨_, between, hdropped, hdelete⟩ := Statement.bind_eq_ok.mp hdrop
  cases hdropped
  obtain ⟨rows', hrows, rfl⟩ := deleteSchema_effect hfolded hdelete
  rw [table_deleted] at hrows
  by_cases hschema : key = schemaMetadataTable
  · rw [if_pos hschema.symm] at hrows
    cases hrows
  · have hsystem := hkey hschema
    rw [if_neg (Ne.symm hschema), h.schemas] at hrows
    cases hrows
    have hothers : ∀ key' ≠ schemaMetadataTable, (Database.put schemaMetadataTable
        (.tableSchemas (Keyed.delete (· = key) rows))
        ⟨database.schemas, Keyed.delete (· = key) database.tables⟩).table key' =
          if key' = key then none else database.table key' := by
      intro key' hne
      rw [Database.table_put, if_neg hne, table_deleted]
    refine h.deleted (fun key' hkey' (heq : key' = key) => hsystem (heq ▸ hkey')) ?_ ?_ fun key' hne _ => hothers key' hne
    · rw [Database.table_put, if_pos rfl]
    · rw [hothers _ (by decide), if_neg (ConsistentRows.ne_of_not_mem hsystem).2.1.symm]
      exact h.views

omit [Casefold] [DuckDB] in
/-- The system tables stand in two schemas. -/
theorem db_of_systemTable (hkey : key ∈ systemTables) : key.db = systemSchemaName ∨ key.db = readOnlySystemSchemaName := by
  simp only [systemTables, internalTables, List.mem_cons, List.not_mem_nil, or_false] at hkey
  rcases hkey with rfl | rfl | rfl | rfl
  · exact Or.inr rfl
  · exact Or.inl rfl
  · exact Or.inl rfl
  · exact Or.inl rfl

/-- A database is dropped with its tables, rows and views. The internal one is not, since its rows could not be deleted then. -/
theorem database_dropped {databaseName db : String} {cascade : Bool} (h : ConsistentRows database rows) (hfolded : Folded db)
    (hwritable : db ≠ readOnlySystemSchemaName) (hschema : db ∈ database.schemas)
    (hdrop : dropDatabaseTransaction databaseName db cascade database = .ok (u, database')) :
    Consistent database' ∧ KeepsContents database database' := by
  cases cascade with
  | true =>
    obtain ⟨_, first, hfirst, hdrop⟩ := Statement.bind_eq_ok.mp hdrop
    obtain ⟨_, second, hsecond, hthird⟩ := Statement.bind_eq_ok.mp hdrop
    obtain ⟨rfl, -⟩ := dropSchema_effect hschema hfirst
    obtain ⟨rows', hrows, rfl⟩ := deleteDatabaseSchemas_effect hfolded hsecond
    rw [table_deleted] at hrows
    by_cases hinternal : schemaMetadataTable.db = db
    · rw [if_pos hinternal] at hrows
      cases hrows
    · rw [if_neg hinternal, h.schemas] at hrows
      cases hrows
      obtain ⟨viewRows, rfl⟩ := updateViews_effect hthird
      refine h.deleted (p := fun key => key.db = db) ?_ ?_ ⟨_, (Database.table_put _ _ _ _).trans (if_pos rfl)⟩ ?_
      · intro key hkey hdb
        rcases db_of_systemTable hkey with hsystem | hreadOnly
        · exact hinternal (hsystem.symm.trans hdb)
        · exact hwritable (hdb.symm.trans hreadOnly)
      · rw [Database.table_put, if_neg (by decide), Database.table_put, if_pos rfl]
      · intro key hschemas hviews
        rw [Database.table_put, if_neg hviews, Database.table_put, if_neg hschemas, table_deleted]
  | false =>
    obtain ⟨views, between, hviews, hrest⟩ := Statement.bind_eq_ok.mp hdrop
    obtain ⟨-, rfl⟩ := Statement.select_eq_ok hviews
    split at hrest
    · cases hrest
    · obtain ⟨rfl, hempty⟩ := dropSchema_effect hschema hrest
      apply h.congr
      intro key
      rw [table_deleted]
      by_cases hdb : key.db = db
      · rw [if_pos hdb]
        cases htable : between.table key with
        | none => rfl
        | some table =>
          obtain ⟨entry, hentry, rfl⟩ := Keyed.exists_mem_of_get htable
          exact absurd hdb (hempty rfl entry hentry)
      · rw [if_neg hdb]

/-! ## Operations -/

/-- Where an operation keeps the catalog consistent: what it drops or replaces is not of the internal schema, and what it saves has
    the columns of its schema. The table of the schemas needs no such protection. -/
def Operation.Sound (operation : Operation Plan Tool) (catalog : LocalCatalog Plan Tool) : Prop :=
  match operation with
  | .createTable tableName schema _ _ =>
    ∀ key, resolveName catalog.currentDatabase tableName = .ok key → isReadOnly key.db = false →
      catalog.database.table key = none →
      DuckDB.createdColumns (convertCustomSchemaToPolarsSchema schema) = schemaColumns schema
  | .dropTable tableName _ =>
    ∀ key, resolveName catalog.currentDatabase tableName = .ok key → key ≠ viewsMetadataTable ∧ key ≠ toolsMetadataTable
  | .writeDfToTable df tableName schema =>
    ∀ key, resolveName catalog.currentDatabase tableName = .ok key → isReadOnly key.db = false →
      key ∉ internalTables ∧ columnsAfter df (catalog.database.table key) = schemaColumns schema
  | .replaceTableWithDf df tableName schema =>
    ∀ key, resolveName catalog.currentDatabase tableName = .ok key → isReadOnly key.db = false → key ≠ schemaMetadataTable →
      key ∉ internalTables ∧ DuckDB.createdColumns df.columns = schemaColumns schema
  | .saveAsTable df tableName mode schema =>
    ∀ key, resolveName catalog.currentDatabase tableName = .ok key → isReadOnly key.db = false →
      (mode = .overwrite → key ≠ schemaMetadataTable → (catalog.database.table key).isSome →
        key ∉ internalTables ∧ DuckDB.createdColumns df.columns = schemaColumns schema) ∧
      (catalog.database.table key = none → DuckDB.createdColumns df.columns = schemaColumns schema)
  | _ => True

/-- The operations on databases, tables and views. -/
def Operation.isOnTables : Operation Plan Tool → Bool
  | .createTool _ _ _ => false
  | .dropTool _ _ => false
  | .insertQueryMetrics _ _ => false
  | _ => true

omit [DuckDB] in
/-- A writable key outside the internal schema is not a system table. -/
theorem not_systemTable_of_writable (hfolded : key.Folded) (hwritable : isReadOnly key.db = false) (hkey : key ∉ internalTables) :
    key ∉ systemTables := by
  intro hmem
  rcases List.mem_cons.mp hmem with rfl | hmem
  · exact absurd ((isReadOnly_iff hfolded.db).mpr rfl) (Bool.eq_false_iff.mp hwritable)
  · exact hkey hmem

variable {catalog catalog' : LocalCatalog Plan Tool} {operation : Operation Plan Tool}

/-- What a sound operation commits keeps the tables and their rows together. -/
theorem transacts_consistent (h : ConsistentRows catalog.database rows) (hcurrent : Folded catalog.currentDatabase)
    (hsound : operation.Sound catalog) (hon : operation.isOnTables = true) (heffect : operation.Effect catalog catalog') :
    Consistent catalog'.database ∧ KeepsContents catalog.database catalog'.database := by
  cases operation with
  | createDatabase databaseName ignoreIfExists =>
    obtain ⟨db, ⟨u, hcreate⟩, -⟩ := heffect
    obtain ⟨-, hdatabase⟩ := Prod.mk.inj (Except.ok.inj hcreate)
    apply h.congr
    intro key
    rw [← hdatabase]
    split
    · rfl
    · rfl
  | dropDatabase databaseName cascade ignoreIfNotExists =>
    obtain ⟨db, hdb, hwritable, hschema, ⟨u, hdrop⟩, -⟩ := heffect
    have hfolded := folded_of_resolveDatabase hdb
    refine database_dropped h hfolded ?_ hschema hdrop
    intro hreadOnly
    exact absurd ((isReadOnly_iff hfolded).mpr hreadOnly) (Bool.eq_false_iff.mp hwritable)
  | setCurrentDatabase databaseName =>
    obtain ⟨db, -, rfl⟩ := heffect
    exact h.congr fun _ => rfl
  | createTable tableName schema ignoreIfExists description =>
    obtain ⟨key, hkey, hwritable, habsent, ⟨u, htransaction⟩, -⟩ := heffect
    obtain ⟨_, between, hcreate, hsave⟩ := Statement.bind_eq_ok.mp htransaction
    have hsystem : key ∉ systemTables := by
      intro hmem
      have hsome := h.isSome_systemTable hmem
      rw [habsent] at hsome
      cases hsome
    refine created_saved h hsystem (folded_of_resolveName hcurrent hkey) ?_ hcreate hsave
    rw [habsent]
    exact hsound key hkey hwritable habsent
  | dropTable tableName ignoreIfNotExists =>
    obtain ⟨key, hkey, hwritable, ⟨u, hdrop⟩, -⟩ := heffect
    have hfolded := folded_of_resolveName hcurrent hkey
    obtain ⟨hviews, htools⟩ := hsound key hkey
    refine dropped h hfolded (fun hschema => not_systemTable_of_writable hfolded hwritable ?_) hdrop
    simp only [internalTables, List.mem_cons, List.not_mem_nil, or_false, not_or]
    exact ⟨hschema, hviews, htools⟩
  | setTableDescription tableName description =>
    obtain ⟨key, ⟨u, hset⟩, -⟩ := heffect
    obtain ⟨rows', hrows, hdatabase⟩ := (tableSchemas Plan Tool).update_eq_ok.mp (Except.mapError_eq_ok.mp hset)
    cases h.schemas.symm.trans hrows
    rw [hdatabase]
    exact h.described_again (fun row => { row with description := description }) (fun _ => rfl) key
  | writeDfToTable df tableName schema =>
    obtain ⟨key, hkey, hwritable, ⟨u, htransaction⟩, -⟩ := heffect
    obtain ⟨_, between, hcreate, hsave⟩ := Statement.bind_eq_ok.mp htransaction
    have hfolded := folded_of_resolveName hcurrent hkey
    obtain ⟨hinternal, hcolumns⟩ := hsound key hkey hwritable
    exact created_saved h (not_systemTable_of_writable hfolded hwritable hinternal) hfolded hcolumns hcreate hsave
  | insertDfToTable df tableName schema =>
    obtain ⟨key, ⟨u, hinsert⟩, -⟩ := heffect
    obtain ⟨columns, tableRows, newRows, htable, hdatabase⟩ := insertInto_effect hinsert
    rw [hdatabase]
    exact h.put_user htable
  | replaceTableWithDf df tableName schema =>
    obtain ⟨key, hkey, hwritable, ⟨u, hreplace⟩, -⟩ := heffect
    have hfolded := folded_of_resolveName hcurrent hkey
    refine replaced_saved h hfolded ?_ hreplace
    intro hschema
    obtain ⟨hinternal, hcolumns⟩ := hsound key hkey hwritable hschema
    exact ⟨not_systemTable_of_writable hfolded hwritable hinternal, hcolumns⟩
  | saveAsTable df tableName mode schema =>
    obtain ⟨key, hkey, hsave⟩ := heffect
    have hfolded := folded_of_resolveName hcurrent hkey
    rcases hsave with ⟨-, ⟨u, hinsert⟩, -⟩ | ⟨hwritable, ⟨hmode, hfound, ⟨u, hreplace⟩, -⟩ | ⟨habsent, ⟨u, htransaction⟩, -⟩⟩
    · obtain ⟨columns, tableRows, newRows, htable, hdatabase⟩ := insertInto_effect hinsert
      rw [hdatabase]
      exact h.put_user htable
    · refine replaced_saved h hfolded ?_ hreplace
      intro hschema
      obtain ⟨hinternal, hcolumns⟩ := (hsound key hkey hwritable).1 hmode hschema hfound
      exact ⟨not_systemTable_of_writable hfolded hwritable hinternal, hcolumns⟩
    · obtain ⟨_, between, hcreate, hsave⟩ := Statement.bind_eq_ok.mp htransaction
      have hsystem : key ∉ systemTables := by
        intro hmem
        have hsome := h.isSome_systemTable hmem
        rw [habsent] at hsome
        cases hsome
      refine created_saved h hsystem hfolded ?_ hcreate hsave
      rw [habsent]
      exact (hsound key hkey hwritable).2 habsent
  | createView viewName logicalPlan ignoreIfExists description =>
    obtain ⟨key, ⟨u, hsave⟩, -⟩ := heffect
    obtain ⟨viewRows, hdatabase⟩ := saveView_effect hsave
    rw [hdatabase]
    exact h.put_views viewRows
  | dropView viewName ignoreIfNotExists =>
    obtain ⟨key, ⟨u, hdelete⟩, -⟩ := heffect
    obtain ⟨viewRows, hdatabase⟩ := updateViews_effect hdelete
    rw [hdatabase]
    exact h.put_views _
  | setViewDescription viewName description =>
    obtain ⟨key, ⟨u, hset⟩, -⟩ := heffect
    obtain ⟨viewRows, hdatabase⟩ := updateViews_effect hset
    rw [hdatabase]
    exact h.put_views _
  | createTool _ _ _ | dropTool _ _ | insertQueryMetrics _ _ => cases hon
  | _ => exact heffect.elim

/-- So do the operations on tools and metrics, which change nothing else. -/
theorem other_consistent (h : ConsistentRows catalog.database rows) (hon : operation.isOnTables = false)
    (heffect : operation.Effect catalog catalog') : Consistent catalog'.database := by
  cases operation with
  | createTool toolName bindTool ignoreIfExists =>
    obtain ⟨tool, ⟨u, hsave⟩, -⟩ := heffect
    obtain ⟨toolRows, hdatabase⟩ := updateTools_effect hsave
    rw [hdatabase]
    exact h.put_tools _
  | dropTool toolName ignoreIfNotExists =>
    obtain ⟨⟨u, hdelete⟩, -⟩ := heffect
    obtain ⟨toolRows, hdatabase⟩ := updateTools_effect hdelete
    rw [hdatabase]
    exact h.put_tools _
  | insertQueryMetrics executionId metrics =>
    obtain ⟨⟨u, hinsert⟩, -⟩ := heffect
    obtain ⟨metricsRows, hmetrics, hdatabase⟩ := (queryMetrics Plan Tool).update_eq_ok.mp (Except.mapError_eq_ok.mp hinsert)
    rw [hdatabase]
    exact h.put_metrics _
  | _ => cases hon

/-- The current database stays a folded name. -/
theorem effect_folded (hcurrent : Folded catalog.currentDatabase) (heffect : operation.Effect catalog catalog') :
    Folded catalog'.currentDatabase := by
  have htransacts : ∀ {statement : Statement Plan Tool Unit}, Transacts statement catalog catalog' →
      Folded catalog'.currentDatabase := fun h => h.2 ▸ hcurrent
  cases operation with
  | setCurrentDatabase databaseName =>
    obtain ⟨db, hdb, rfl⟩ := heffect
    exact folded_of_resolveDatabase hdb
  | createDatabase _ _ =>
    obtain ⟨_, h⟩ := heffect
    exact htransacts h
  | dropDatabase _ _ _ | createTable _ _ _ _ =>
    obtain ⟨_, -, -, -, h⟩ := heffect
    exact htransacts h
  | dropTable _ _ =>
    obtain ⟨_, -, -, h⟩ := heffect
    exact htransacts h
  | setTableDescription _ _ =>
    obtain ⟨_, h⟩ := heffect
    exact htransacts h
  | writeDfToTable _ _ _ =>
    obtain ⟨_, -, -, h⟩ := heffect
    exact htransacts h
  | insertDfToTable _ _ _ =>
    obtain ⟨_, h⟩ := heffect
    exact htransacts h
  | replaceTableWithDf _ _ _ =>
    obtain ⟨_, -, -, h⟩ := heffect
    exact htransacts h
  | saveAsTable _ _ _ _ =>
    obtain ⟨_, -, ⟨-, h⟩ | ⟨-, ⟨-, -, h⟩ | ⟨-, h⟩⟩⟩ := heffect
    · exact htransacts h
    · exact htransacts h
    · exact htransacts h
  | createView _ _ _ _ | dropView _ _ | setViewDescription _ _ | createTool _ _ _ =>
    obtain ⟨_, h⟩ := heffect
    exact htransacts h
  | dropTool _ _ => exact htransacts heffect
  | insertQueryMetrics _ _ => exact htransacts heffect
  | _ => exact heffect.elim

/-! ## Runs -/

/-- The row of the metrics. -/
def initialRows : List (TableKey × SchemaRow) := [(metricsTable, ⟨serializeSchema metricsSchema, none⟩)]

/-- What the catalog starts with: the four system tables, and a row for the metrics. -/
def initialDatabase : Database Plan Tool where
  schemas := [readOnlySystemSchemaName, systemSchemaName, defaultDatabaseName] ++ internalSchemas
  tables :=
    [(toolsMetadataTable, .mcpTools []), (schemaMetadataTable, .tableSchemas initialRows), (metricsTable, .queryMetrics []),
      (viewsMetadataTable, .tableViews [])]

omit [DuckDB] in
theorem folded_metricsTable : metricsTable.Folded := ⟨folded_readOnlySystemSchemaName, folded_ascii rfl⟩

theorem new_eq :
    (LocalCatalog.new : Except CatalogException (LocalCatalog Plan Tool)) = .ok ⟨initialDatabase, defaultDatabaseName⟩ := by
  let before : Database Plan Tool :=
    ⟨[readOnlySystemSchemaName, systemSchemaName, defaultDatabaseName] ++ internalSchemas,
      [(metricsTable, .queryMetrics []), (viewsMetadataTable, .tableViews []), (schemaMetadataTable, .tableSchemas [])]⟩
  have hsave : saveTable metricsTable metricsSchema none before =
      .ok ((), before.put schemaMetadataTable (.tableSchemas initialRows)) := by
    unfold saveTable
    rw [folded_metricsTable.normalize]
    rfl
  show (saveTable metricsTable metricsSchema none before >>= fun answer =>
    (createSchema systemSchemaName >>= fun _ => createSystemTable (mcpTools Plan Tool)) answer.2).map _ = _
  rw [hsave]
  rfl

/-- The catalog starts with a consistent database. -/
theorem consistent_new (hnew : LocalCatalog.new = .ok catalog) :
    Consistent catalog.database ∧ Folded catalog.currentDatabase := by
  rw [new_eq] at hnew
  cases hnew
  refine ⟨⟨initialRows, rfl, ⟨[], rfl⟩, ⟨[], rfl⟩, ⟨[], rfl⟩, ?_, ?_⟩, folded_defaultDatabaseName⟩
  · intro key hkey
    obtain ⟨hschemas, hviews, htools, hmetrics⟩ := ConsistentRows.ne_of_not_mem hkey
    have htable : initialDatabase.table key = (none : Option (Table Plan Tool)) := by
      unfold Database.table initialDatabase
      rw [Keyed.get_cons, if_neg htools, Keyed.get_cons, if_neg hschemas, Keyed.get_cons, if_neg hmetrics, Keyed.get_cons,
        if_neg hviews]
      rfl
    have hrow : Keyed.get initialRows key = none := by
      unfold initialRows
      rw [Keyed.get_cons, if_neg hmetrics]
      rfl
    rw [htable, hrow]
    trivial
  · decide +revert

variable [PlanSchema Plan] [SchemaText]

/-- An operation, and the steps of it that fail by themselves. -/
structure Event (Plan Tool : Type) where
  operation : Operation Plan Tool
  faults : Nat → Option CatalogException

/-- What the operation returns, and the catalog after it. -/
def Event.outcome (event : Event Plan Tool) (catalog : LocalCatalog Plan Tool) :
    Except CatalogException (Reply Tool) × LocalCatalog Plan Tool :=
  event.operation.program.exec event.faults catalog

def LocalCatalog.step (catalog : LocalCatalog Plan Tool) (event : Event Plan Tool) : Option (LocalCatalog Plan Tool) :=
  some (event.outcome catalog).2

/-- An operation that raises leaves the catalog as it was. -/
theorem raises_unchanged (event : Event Plan Tool) (catalog : LocalCatalog Plan Tool) {e : CatalogException}
    (h : (event.outcome catalog).1 = .error e) : (event.outcome catalog).2 = catalog := by
  rcases exec_of_wp (changes_program event.operation catalog) event.faults with hsame | ⟨⟨reply, hok⟩, -⟩
  · exact hsame
  · cases hok.symm.trans h

/-- **Step lemma.** A sound operation keeps a consistent catalog, whatever fails on the way. -/
theorem consistent_step (event : Event Plan Tool) (h : Consistent catalog.database) (hcurrent : Folded catalog.currentDatabase)
    (hsound : event.operation.Sound catalog) :
    Consistent (event.outcome catalog).2.database ∧ Folded (event.outcome catalog).2.currentDatabase ∧
      (event.operation.isOnTables = true → KeepsContents catalog.database (event.outcome catalog).2.database) := by
  obtain ⟨rows, hrows⟩ := h
  rcases exec_of_wp (changes_program event.operation catalog) event.faults with hsame | ⟨-, heffect⟩
  · have hsame' : (event.outcome catalog).2 = catalog := hsame
    rw [hsame']
    exact ⟨⟨rows, hrows⟩, hcurrent, fun _ => ⟨rfl, rfl⟩⟩
  · refine ⟨?_, effect_folded hcurrent heffect, fun hon => (transacts_consistent hrows hcurrent hsound hon heffect).2⟩
    cases hon : event.operation.isOnTables with
    | true => exact (transacts_consistent hrows hcurrent hsound hon heffect).1
    | false => exact other_consistent hrows hon heffect

/-- **The catalog is consistent.** In every run of sound operations, whatever fails on the way, every state that is reached is
    consistent. There, an operation that raises changes nothing, and a sound operation on databases, tables or views leaves the
    system tables in place and the tools and the metrics as they are. -/
theorem consistent_run {events : List (Event Plan Tool)} (hnew : LocalCatalog.new = .ok catalog)
    (hrun : Transition.run LocalCatalog.step catalog events = some catalog')
    (hsound : Transition.Along LocalCatalog.step (fun catalog event => event.operation.Sound catalog) catalog events) :
    Consistent catalog'.database ∧ ∀ event : Event Plan Tool,
      (∀ e, (event.outcome catalog').1 = .error e → (event.outcome catalog').2 = catalog') ∧
        (event.operation.Sound catalog' → event.operation.isOnTables = true →
          Consistent (event.outcome catalog').2.database ∧
            KeepsContents catalog'.database (event.outcome catalog').2.database) := by
  have hinvariant : Consistent catalog'.database ∧ Folded catalog'.currentDatabase := by
    refine Transition.along_run (P := fun catalog => Consistent catalog.database ∧ Folded catalog.currentDatabase) ?_
      (consistent_new hnew) hrun hsound
    rintro catalog event _ ⟨h, hcurrent⟩ hevent ⟨⟩
    obtain ⟨hconsistent, hfolded, -⟩ := consistent_step event h hcurrent hevent
    exact ⟨hconsistent, hfolded⟩
  refine ⟨hinvariant.1, ?_⟩
  intro event
  refine ⟨fun e h => raises_unchanged event catalog' h, ?_⟩
  intro hevent hon
  obtain ⟨hconsistent, -, hcontents⟩ := consistent_step event hinvariant.1 hinvariant.2 hevent
  exact ⟨hconsistent, hcontents hon⟩

end

/-! ## Unsound operations -/

section

attribute [local instance] asciiCasefold plainDuckDB

local instance : PlanSchema Unit := ⟨fun _ => []⟩

local instance : SchemaText := ⟨fun _ => "schema"⟩

def integerSchema : Schema := [⟨"a", .integerType⟩]

def stringSchema : Schema := [⟨"b", .stringType⟩]

def faultless (operation : Operation Unit Unit) : Event Unit Unit := ⟨operation, fun _ => none⟩

/-- A run of one save: it makes the table, and the catalog stays consistent. -/
theorem saved_consistent :
    ∃ catalog', Transition.run LocalCatalog.step ⟨initialDatabase, defaultDatabaseName⟩
        [faultless (.saveAsTable ⟨[("a", .int64)], [[.int 1]]⟩ "t" .error integerSchema)] = some catalog' ∧
      (catalog'.database.table ⟨defaultDatabaseName, "t"⟩).isSome = true ∧ Consistent catalog'.database := by
  have hsound : Transition.Along LocalCatalog.step (fun catalog event => event.operation.Sound catalog)
      ⟨initialDatabase, defaultDatabaseName⟩
      [faultless (.saveAsTable ⟨[("a", .int64)], [[.int 1]]⟩ "t" .error integerSchema)] :=
    ⟨fun key _ _ => ⟨nofun, fun _ => rfl⟩, fun _ _ => trivial⟩
  exact ⟨_, rfl, rfl, (consistent_run new_eq rfl hsound).1⟩

/-- The table of the tools can be dropped, and a table that is there gets the schema of another one. -/
theorem not_consistent :
    (∃ catalog', Transition.run LocalCatalog.step ⟨initialDatabase, defaultDatabaseName⟩
        [faultless (.dropTable "__fenic_system.mcp_tools" true)] = some catalog' ∧ ¬ Consistent catalog'.database) ∧
      ∃ catalog', Transition.run LocalCatalog.step ⟨initialDatabase, defaultDatabaseName⟩
        [faultless (.createTable "t" integerSchema true none), faultless (.writeDfToTable ⟨[("b", .string)], []⟩ "t" stringSchema)] =
          some catalog' ∧ ¬ Consistent catalog'.database := by
  constructor
  · refine ⟨_, rfl, ?_⟩
    rintro ⟨rows, h⟩
    obtain ⟨toolRows, htools⟩ := h.tools
    cases htools
  · refine ⟨_, rfl, ?_⟩
    rintro ⟨rows, h⟩
    have hrows := h.schemas
    have hdescribed := h.described ⟨defaultDatabaseName, "t"⟩ (by decide)
    cases hrows
    -- the columns are those of the first schema, the row has the second
    have hcolumns : Except.ok [("b", .string)] = (Except.ok [("a", .int64)] : Except CatalogException (List Column)) := hdescribed
    exact absurd (Except.ok.inj hcolumns) (by decide)

end

end Catalog

end Fenic
