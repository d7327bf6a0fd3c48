import Fenic.Lib.JsonDumps
import Fenic.Lib.Keyed
import Fenic.Lib.SqlLexer
import Fenic.Types.DataType

/-!
# `Files.FileQueries` — the SQL that files are read and written with

`_build_file_scan_query` and `_build_copy_query` of `_backends/local/utils/io_utils.py`, and beside them the statements that
are meant: `Statement.tokens` is the text of one without its blanks, and `Statement.Denotes` is for a text to be read as one.

Paths go between single quotes as they are. The columns of a CSV schema go through `json.dumps`, and its double quotes are
replaced by single ones afterwards.
-/

namespace Fenic
namespace FileQueries

open Sql JsonDumps

abbrev Text := List Char

def text (s : String) : Text := s.toList

/-- `Literal["csv", "parquet"]`. -/
inductive FileType where
  | csv
  | parquet
  deriving DecidableEq, Repr

/-- The `InternalError` of `_convert_schema_to_duckdb_dict`. -/
inductive QueryError where
  | invalidColumnType (name : String) (dataType : DataType)
  deriving DecidableEq, Repr

/-! ## `json.dumps` -/

/-- An entry of a dictionary of strings. -/
def dumpEntry (entry : Text × Text) : Text := dumpString entry.1 ++ ':' :: ' ' :: dumpString entry.2

/-- `json.dumps` of a dictionary of strings. -/
def dumps (entries : List (Text × Text)) : Text :=
  '\x7b' :: ([',', ' '].intercalate (entries.map dumpEntry) ++ ['\x7d'])

/-- `.replace('"', "'")`, on one character. -/
def singleQuoted (c : Char) : Char := if c = '"' then '\'' else c

/-! ## The queries -/

/-- `type_mapping` of `_convert_schema_to_duckdb_dict`. -/
def typeMapping : DataType → Option Text
  | .stringType => some (text "VARCHAR")
  | .integerType => some (text "BIGINT")
  | .floatType => some (text "FLOAT")
  | .doubleType => some (text "DOUBLE")
  | .booleanType => some (text "BOOLEAN")
  | .dateType => some (text "DATE")
  | .timestampType => some (text "TIMESTAMPTZ")
  | _ => none

/-- `_convert_schema_to_duckdb_dict`. A name that occurs twice keeps its place and takes the last type. -/
def convertSchemaToDuckdbDict (schema : Schema) : Except QueryError (List (Text × Text)) :=
  schema.foldlM (fun duckdbSchema field =>
    match typeMapping field.dataType with
    | some duckdbType => .ok (Keyed.set field.name.toList duckdbType duckdbSchema)
    | none => .error (.invalidColumnType field.name field.dataType)) []

/-- `"', '".join(paths)`. -/
def joinPaths (paths : List Text) : Text := ['\'', ',', ' ', '\''].intercalate paths

/-- `_build_csv_scan_query`. -/
def buildCsvScanQuery (pathsStr : Text) (schema : Option Schema) (mergeSchemas : Bool) : Except QueryError Text :=
  match schema with
  | some schema => do
    let duckdbSchema ← convertSchemaToDuckdbDict schema
    return text "SELECT * FROM read_csv(['" ++ pathsStr ++ text "'], columns = " ++
      (dumps duckdbSchema).map singleQuoted ++ [')']
  | none =>
    if mergeSchemas then
      .ok (text "SELECT * FROM read_csv(['" ++ pathsStr ++ text "'], union_by_name=true)")
    else .ok (text "SELECT * FROM read_csv(['" ++ pathsStr ++ text "'])")

/-- `_build_parquet_scan_query`. -/
def buildParquetScanQuery (pathsStr : Text) (mergeSchemas : Bool) : Text :=
  if mergeSchemas then text "SELECT * FROM read_parquet(['" ++ pathsStr ++ text "'], union_by_name=true)"
  else text "SELECT * FROM read_parquet(['" ++ pathsStr ++ text "'])"

/-- `_build_file_scan_query`. -/
def buildFileScanQuery (paths : List Text) (fileType : FileType) (schema : Option Schema)
    (mergeSchemas schemaInference : Bool) : Except QueryError Text := do
  let query ← match fileType with
    | .csv => buildCsvScanQuery (joinPaths paths) schema mergeSchemas
    | .parquet => .ok (buildParquetScanQuery (joinPaths paths) mergeSchemas)
  return if schemaInference then query ++ text " WHERE 1=0" else query

/-- `_build_copy_query`. -/
def buildCopyQuery (sourceTable path : Text) (fileType : FileType) : Text :=
  match fileType with
  | .csv => text "COPY " ++ sourceTable ++ text " TO '" ++ path ++ text "' (FORMAT CSV, HEADER TRUE)"
  | .parquet => text "COPY " ++ sourceTable ++ text " TO '" ++ path ++ text "' (FORMAT PARQUET)"

/-- What is asked of the files: `query_files` reads some, and `write_file` writes the view it registered to one. -/
inductive Request where
  | scan (paths : List Text) (fileType : FileType) (schema : Option Schema) (mergeSchemas schemaInference : Bool)
  | copy (path : Text) (fileType : FileType)

/-- The text that is built for a request. -/
def Request.query : Request → Except QueryError Text
  | .scan paths fileType schema mergeSchemas schemaInference =>
    buildFileScanQuery paths fileType schema mergeSchemas schemaInference
  | .copy path fileType => .ok (buildCopyQuery (text "df_view") path fileType)

/-! ## The statements -/

/-- A statement over files. -/
inductive Statement where
  /-- `SELECT * FROM` a function of files, with what follows the files and whether no row is wanted. -/
  | read (fileType : FileType) (files : List Text) (columns : Option (List (Text × Text))) (unionByName noRows : Bool)
  | copy (table path : Text) (fileType : FileType)
  deriving DecidableEq, Repr

def word (s : String) : Token := .word s.toList

/-- Items with commas between them. -/
def commaSeparated {α : Type} (tokens : α → List Token) : List α → List Token
  | [] => []
  | x :: rest => tokens x ++ rest.flatMap fun y => .symbol ',' :: tokens y

def fileTokens (file : Text) : List Token := [.literal file]

def columnTokens (column : Text × Text) : List Token := [.literal column.1, .symbol ':', .literal column.2]

/-- The end of the call, with the argument that unites the columns by name. -/
def unionTokens : Bool → List Token
  | true => [.symbol ',', word "union_by_name", .symbol '=', word "true", .symbol ')']
  | false => [.symbol ')']

/-- The arguments behind the list of files, up to the end of the call. -/
def argumentTokens : Option (List (Text × Text)) → Bool → List Token
  | some columns, unionByName =>
    [.symbol ',', word "columns", .symbol '=', .symbol '\x7b'] ++
      (commaSeparated columnTokens columns ++ .symbol '\x7d' :: unionTokens unionByName)
  | none, unionByName => unionTokens unionByName

def whereTokens (noRows : Bool) : List Token :=
  if noRows then [word "WHERE", word "1", .symbol '=', word "0"] else []

def functionToken : FileType → Token
  | .csv => word "read_csv"
  | .parquet => word "read_parquet"

/-- A statement, token by token. -/
def Statement.tokens : Statement → List Token
  | .read fileType files columns unionByName noRows =>
    [word "SELECT", .symbol '*', word "FROM", functionToken fileType, .symbol '(', .symbol '['] ++
      (commaSeparated fileTokens files ++ .symbol ']' :: (argumentTokens columns unionByName ++ whereTokens noRows))
  | .copy table path .csv =>
    [word "COPY", .word table, word "TO", .literal path, .symbol '(', word "FORMAT", word "CSV", .symbol ',',
      word "HEADER", word "TRUE", .symbol ')']
  | .copy table path .parquet =>
    [word "COPY", .word table, word "TO", .literal path, .symbol '(', word "FORMAT", word "PARQUET", .symbol ')']

/-- A text that is read as the statement. -/
def Statement.Denotes (statement : Statement) (text : Text) : Prop := lex text = some statement.tokens

/-- The columns are those of the schema: the same names with the same types. -/
def SameColumns (schema : Schema) (columns : List (Text × Text)) : Prop :=
  ∀ name type, (name, type) ∈ columns ↔
    ∃ field ∈ schema, name = field.name.toList ∧ typeMapping field.dataType = some type

/-- The columns that a read of the files is given. -/
def Request.Columns (fileType : FileType) (schema : Option Schema) (columns : Option (List (Text × Text))) : Prop :=
  match fileType, schema, columns with
  | .csv, some schema, some columns => SameColumns schema columns
  | .csv, some _, none => False
  | _, _, columns => columns = none

/-- Whether the columns of the files are united by name: never where a schema says which there are. -/
def Request.unites (fileType : FileType) (schema : Option Schema) (mergeSchemas : Bool) : Bool :=
  match fileType, schema with
  | .csv, some _ => false
  | _, _ => mergeSchemas

/-- The statement is the one that the request is for. -/
def Request.Asks : Request → Statement → Prop
  | .scan paths fileType schema mergeSchemas schemaInference, statement =>
    ∃ columns, Request.Columns fileType schema columns ∧
      statement = .read fileType paths columns (Request.unites fileType schema mergeSchemas) schemaInference
  | .copy path fileType, statement => statement = .copy (text "df_view") path fileType

/-- The query of a request is built, and is read as the statement that the request is for. -/
def Request.Denoted (request : Request) : Prop :=
  ∃ text, request.query = .ok text ∧ ∃ statement, request.Asks statement ∧ statement.Denotes text

/-- There is a file to read, and the columns have the types that the reader lets through. -/
def Request.Valid : Request → Prop
  | .scan paths _ schema _ _ =>
    paths ≠ [] ∧ ∀ fields, schema = some fields → ∀ field ∈ fields, field.dataType.isPrimitive = true
  | .copy _ _ => True

/-- The characters of a column name that the two literal syntaxes leave alone. -/
def isPlain (c : Char) : Bool := isKept c && c != '\''

/-- The columns of a schema that are written as they are: plain names, each with one type. -/
structure PlainColumns (schema : Schema) : Prop where
  names : ∀ field ∈ schema, ∀ c ∈ field.name.toList, isPlain c = true
  types : ∀ field ∈ schema, ∀ other ∈ schema, field.name = other.name → field.dataType = other.dataType

/-- The requests without a quote in a path, and with plain columns where they are written. -/
def Request.Plain : Request → Prop
  | .scan paths fileType schema _ _ =>
    (∀ path ∈ paths, '\'' ∉ path) ∧ (fileType = .csv → ∀ fields, schema = some fields → PlainColumns fields)
  | .copy path _ => '\'' ∉ path

end FileQueries
end Fenic
