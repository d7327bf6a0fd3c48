import Fenic.TextExtract.Reader

/-!
# `Catalog.Names` — names of databases and tables

A name as the user writes it has up to three parts, with quotes around parts that hold dots. `split` takes it apart, `fromString`
folds the case of the parts, and `enrich` fills in what is missing. All tables and databases are known under such folded names.
-/

namespace Fenic

namespace Catalog

/-- What the operations raise. `duckdbError` is an error of the database. -/
inductive CatalogException where
  | catalogError (message : String)
  | databaseAlreadyExistsError (databaseName : String)
  | databaseNotFoundError (databaseName : String)
  | tableAlreadyExistsError (tableName database : String)
  | tableNotFoundError (tableName database : String)
  | toolAlreadyExistsError (toolName : String)
  | toolNotFoundError (toolName : String)
  | internalError (message : String)
  | planError (message : String)
  | validationError (message : String)
  | valueError (message : String)
  | duckdbError (message : String)
  deriving DecidableEq

/-- `str(e)`. -/
def CatalogException.text : CatalogException → String
  | catalogError message => message
  | databaseAlreadyExistsError databaseName => s!"Database '{databaseName}' already exists"
  | databaseNotFoundError databaseName => s!"Database '{databaseName}' does not exist"
  | tableAlreadyExistsError tableName database => s!"Table '{database}.{tableName}' already exists"
  | tableNotFoundError tableName database => s!"Table '{database}.{tableName}' does not exist"
  | toolAlreadyExistsError toolName => s!"Tool '{toolName}' already exists"
  | toolNotFoundError toolName => s!"Tool '{toolName}' does not exist"
  | internalError message => message
  | planError message => message
  | validationError message => message
  | valueError message => message
  | duckdbError message => message

/-! ## Case -/

/-- `str.casefold`. What is folded stays, and ASCII text becomes lower case. -/
class Casefold where
  casefold : String → String
  casefold_casefold : ∀ s, casefold (casefold s) = casefold s
  casefold_ascii : ∀ s, (∀ c ∈ s.toList, c.toNat < 128) → casefold s = String.ofList (s.toList.map Char.toLower)

export Casefold (casefold)

theorem toLower_toLower (c : Char) : c.toLower.toLower = c.toLower := by
  unfold Char.toLower
  split
  next h =>
    split
    next h' =>
      exfalso
      simp [UInt32.le_iff_toNat_le] at h h'
      omega
    · rfl
  · rfl

/-- `str.casefold` of ASCII text. -/
@[reducible] def asciiCasefold : Casefold where
  casefold s := String.ofList (s.toList.map Char.toLower)
  casefold_casefold s := by
    rw [String.toList_ofList, List.map_map]
    refine congrArg String.ofList (List.map_congr_left ?_)
    intro c _
    exact toLower_toLower c
  casefold_ascii _ _ := rfl

section

variable [Casefold]

/-- `compare_object_names`. -/
def compareObjectNames (objectName1 objectName2 : String) : Bool := casefold objectName1 == casefold objectName2

/-- `normalize_object_name`. -/
def normalizeObjectName (name : String) : String := casefold name

/-- A name that folding does not change. -/
def Folded (name : String) : Prop := casefold name = name

theorem folded_normalize (name : String) : Folded (normalizeObjectName name) := Casefold.casefold_casefold name

/-! ## The parser -/

/-- The part that ends here. -/
def takePart (name : String) (current : List Char) : Except CatalogException String :=
  let part := TextExtract.strip current
  if part = [] then .error (.valueError s!"Empty identifier in '{name}'") else .ok (String.ofList part)

/-- The loop of `QualifiedNameParser._split`, with the characters of the open part and whether a quote is open. -/
def splitLoop (name : String) : List Char → Bool → List Char → Except CatalogException (List String)
  | current, inQuote, [] =>
    if inQuote then .error (.valueError s!"Unbalanced quotes in '{name}'")
    else (takePart name current).map fun part => [part]
  | current, inQuote, ch :: rest =>
      if ch = '"' then splitLoop name current (!inQuote) rest
      else if ch = '.' ∧ ¬ inQuote then do
        let part ← takePart name current
        let parts ← splitLoop name [] inQuote rest
        return part :: parts
      else splitLoop name (current ++ [ch]) inQuote rest

/-- `QualifiedNameParser._split`. -/
def split (name : String) : Except CatalogException (List String) := splitLoop name [] false name.toList

/-! ## Identifiers -/

structure TableIdentifier where
  table : String
  db : Option String
  catalog : Option String
  deriving DecidableEq

/-- `TableIdentifier.from_string`. -/
def TableIdentifier.fromString (fullName : String) : Except CatalogException TableIdentifier := do
  match ← split fullName with
  | [table] => .ok ⟨normalizeObjectName table, none, none⟩
  | [db, table] => .ok ⟨normalizeObjectName table, some (normalizeObjectName db), none⟩
  | [catalog, db, table] =>
    .ok ⟨normalizeObjectName table, some (normalizeObjectName db), some (normalizeObjectName catalog)⟩
  | parts => .error (.validationError s!"Invalid table name '{fullName}': expected 1-3 parts, got {parts.length}")

/-- A table of the database, after `enrich` and the check of the catalog. -/
structure TableKey where
  db : String
  table : String
  deriving DecidableEq

/-- `str(table_identifier)`. -/
def TableKey.text (key : TableKey) : String := s!"{key.db}.{key.table}"

def defaultCatalogName : String := "typedef_default"

def defaultDatabaseName : String := "typedef_default"

/-- `enrich`, then `_verify_table_catalog`. -/
def TableIdentifier.resolve (identifier : TableIdentifier) (currentDatabase : String) : Except CatalogException TableKey :=
  let db := identifier.db.getD currentDatabase
  let catalog := identifier.catalog.getD defaultCatalogName
  if compareObjectNames catalog defaultCatalogName then .ok ⟨db, identifier.table⟩
  else .error (.catalogError (s!"Invalid catalog name '{catalog}' in table name '{db}.{identifier.table}'. " ++
    s!"Local execution mode only supports the default catalog '{defaultCatalogName}'. " ++
    s!"Use table names like 'table', 'schema.table', or '{defaultCatalogName}.schema.table' instead."))

/-- `DBIdentifier.from_string`, `enrich`, then `_verify_db_catalog`. -/
def resolveDatabase (fullName : String) : Except CatalogException String := do
  match ← split fullName with
  | [db] => .ok (normalizeObjectName db)
  | [catalog, db] =>
    let catalog := normalizeObjectName catalog
    let db := normalizeObjectName db
    if compareObjectNames catalog defaultCatalogName then .ok db
    else .error (.catalogError (s!"Invalid catalog name '{catalog}' in database name '{db}'. " ++
      s!"Local execution mode only supports the default catalog '{defaultCatalogName}'. " ++
      s!"Use database names like 'database' or '{defaultCatalogName}.database' instead."))
  | parts => .error (.validationError s!"Invalid database name '{fullName}': expected 1 or 2 parts, got {parts.length}")

end

end Catalog

end Fenic
