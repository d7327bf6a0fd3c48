import Fenic.Files.QueryMeaning

/-!
# `Files.QueryDenotes` — which file queries are read as what they are for

`query_denotes_iff`. That a plain request is read back was shown by running over its text. For the other direction the quotes
are counted on both sides: the text of a scan has each quote of a path once (`count_scanText`), its statement takes each
twice (`cost_read`), and a double quote of a name has become a single one. With no quote left the columns that are read are
those that are written, and a string is written as itself only where nothing of it is escaped.
-/

namespace Fenic
namespace FileQueries

open Sql JsonDumps

/-! ## The dictionary of the columns -/

/-- What `_convert_schema_to_duckdb_dict` keeps of a schema. -/
structure DictOf (schema : Schema) (dict : List (Text × Text)) : Prop where
  nodup : (dict.map Prod.fst).Nodup
  sound : ∀ entry ∈ dict, ∃ field ∈ schema, entry.1 = field.name.toList ∧ typeMapping field.dataType = some entry.2
  complete : ∀ field ∈ schema, field.name.toList ∈ dict.map Prod.fst

variable {schema : Schema} {dict : List (Text × Text)}

theorem DictOf.set {field : ColumnField} {type : Text}
    (h : DictOf schema dict) (htype : typeMapping field.dataType = some type) :
    DictOf (schema ++ [field]) (Keyed.set field.name.toList type dict) where
  nodup := Keyed.nodup_keys_set h.nodup
  sound := by
    intro entry hentry
    rcases Keyed.mem_of_mem_set hentry with rfl | hentry
    · exact ⟨field, by simp, rfl, htype⟩
    · obtain ⟨other, hother, hfacts⟩ := h.sound entry hentry
      exact ⟨other, List.mem_append_left _ hother, hfacts⟩
  complete := by
    intro other hother
    rw [Keyed.keys_set]
    rcases List.mem_append.mp hother with hother | hother
    · have hkey := h.complete other hother
      split
      · exact hkey
      · exact List.mem_append_left _ hkey
    · obtain rfl := List.mem_singleton.mp hother
      split
      · assumption
      · exact List.mem_append_right _ (List.mem_singleton.mpr rfl)

variable {t : DataType}

theorem exists_typeMapping (h : t.isPrimitive = true) : ∃ type, typeMapping t = some type := by
  cases t <;> first | exact ⟨_, rfl⟩ | cases h

theorem exists_dict (h : ∀ field ∈ schema, field.dataType.isPrimitive = true) :
    ∃ dict, convertSchemaToDuckdbDict schema = .ok dict ∧ DictOf schema dict := by
  obtain ⟨enter, hconvert, henter⟩ : ∃ enter : List (Text × Text) → ColumnField → Except QueryError (List (Text × Text)),
      convertSchemaToDuckdbDict schema = schema.foldlM enter [] ∧
        ∀ acc field type, typeMapping field.dataType = some type → enter acc field = .ok (Keyed.set field.name.toList type acc) :=
    ⟨_, rfl, fun _ _ _ htype => by rw [htype]⟩
  suffices hfold : ∀ (rest done : Schema) (acc : List (Text × Text)), DictOf done acc →
      (∀ field ∈ rest, field.dataType.isPrimitive = true) →
      ∃ dict, rest.foldlM enter acc = .ok dict ∧ DictOf (done ++ rest) dict by
    have hempty : DictOf [] [] := ⟨List.nodup_nil, by simp, by simp⟩
    rw [hconvert]
    exact hfold schema [] [] hempty h
  intro rest
  induction rest with
  | nil => exact fun done acc hacc _ => ⟨acc, rfl, by simpa using hacc⟩
  | cons field rest ih =>
    intro done acc hacc hrest
    obtain ⟨type, htype⟩ := exists_typeMapping (hrest field List.mem_cons_self)
    obtain ⟨dict, hdict, hof⟩ := ih (done ++ [field]) _ (hacc.set htype)
      fun f hf => hrest f (List.mem_cons_of_mem field hf)
    refine ⟨dict, ?_, by simpa using hof⟩
    rw [List.foldlM_cons, henter _ _ _ htype]
    exact hdict

/-- The types of the dictionary are plain words. -/
theorem plain_of_typeMapping {type : Text} (h : typeMapping t = some type) :
    ∀ c ∈ type, isPlain c = true := by
  have hall : type.all isPlain = true := by
    cases t <;> first | (cases h; decide) | cases h
  exact fun c hc => List.all_eq_true.mp hall c hc

theorem typeMapping_injective {s : DataType} (hs : s.isPrimitive = true) (ht : t.isPrimitive = true)
    (h : typeMapping s = typeMapping t) : s = t := by
  revert h
  cases s <;> cases t <;> first | (cases hs; done) | (cases ht; done) | decide

/-- Where the names of a schema have one type each, its dictionary is the schema. -/
theorem DictOf.sameColumns (h : DictOf schema dict)
    (htypes : ∀ field ∈ schema, ∀ other ∈ schema, field.name = other.name → field.dataType = other.dataType) :
    SameColumns schema dict := by
  intro name type
  constructor
  · exact h.sound (name, type)
  · rintro ⟨field, hfield, rfl, htype⟩
    obtain ⟨entry, hentry, hname⟩ := List.mem_map.mp (h.complete field hfield)
    obtain ⟨other, hother, hnames, hothertype⟩ := h.sound entry hentry
    have heq : field.dataType = other.dataType :=
      htypes field hfield other hother (String.toList_inj.mp (hname.symm.trans hnames))
    have hvalue : entry.2 = type := by
      rw [heq, hothertype] at htype
      exact Option.some.inj htype
    rw [← hname, ← hvalue]
    exact hentry

/-- A dictionary that is the schema has one type for a name. -/
theorem DictOf.types (h : DictOf schema dict)
    (hprimitive : ∀ field ∈ schema, field.dataType.isPrimitive = true) (hsame : SameColumns schema dict) :
    ∀ field ∈ schema, ∀ other ∈ schema, field.name = other.name → field.dataType = other.dataType := by
  intro field hfield other hother hname
  obtain ⟨type, htype⟩ := exists_typeMapping (hprimitive field hfield)
  obtain ⟨type', htype'⟩ := exists_typeMapping (hprimitive other hother)
  have hentry := (hsame field.name.toList type).mpr ⟨field, hfield, rfl, htype⟩
  have hentry' := (hsame field.name.toList type').mpr ⟨other, hother, congrArg String.toList hname, htype'⟩
  have heq := List.inj_on_of_nodup_map h.nodup hentry hentry' rfl
  apply typeMapping_injective (hprimitive field hfield) (hprimitive other hother)
  rw [htype, htype', (Prod.mk.inj heq).2]

/-! ## Counting quotes -/

section Sums

variable {α : Type} {f g : α → Nat}

variable {l : List α}

theorem sum_map_le (h : ∀ x ∈ l, f x ≤ g x) : (l.map f).sum ≤ (l.map g).sum :=
  List.sum_le_sum h

/-- Sums of the same size over terms that are no larger: the terms are the same. -/
theorem eq_of_sum_map_le (h : ∀ x ∈ l, f x ≤ g x) (hsum : (l.map g).sum ≤ (l.map f).sum) :
    ∀ x ∈ l, f x = g x := by
  induction l with
  | nil => exact fun x hx => absurd hx List.not_mem_nil
  | cons y l ih =>
    have hy := h y List.mem_cons_self
    have hl : ∀ x ∈ l, f x ≤ g x := fun x hx => h x (List.mem_cons_of_mem y hx)
    have hle := sum_map_le hl
    simp only [List.map_cons, List.sum_cons] at hsum
    intro x hx
    rcases List.mem_cons.mp hx with rfl | hx
    · omega
    · exact ih hl (by omega) x hx

theorem sum_map_le_of_subperm {l' : List α} (h : l.Subperm l') : (l.map f).sum ≤ (l'.map f).sum := by
  obtain ⟨between, hperm, hsub⟩ := h
  rw [← (hperm.map f).sum_eq]
  exact (hsub.map f).sum_le_sum fun _ _ => Nat.zero_le _

end Sums

theorem count_cons_char (q c : Char) (s : Text) : (c :: s).count q = [c].count q + s.count q := by
  rw [← List.count_append, List.singleton_append]

variable {paths : List Text}

/-- The quotes around the paths, but for the first one, and those inside them. -/
theorem count_joinPaths (hne : paths ≠ []) :
    (joinPaths paths ++ ['\'', ']']).count '\'' + 1 = (paths.map fun path => 2 + path.count '\'').sum := by
  obtain ⟨path, rest, rfl⟩ := List.exists_cons_of_ne_nil hne
  have hrest : (rest.flatMap (['\'', ',', ' ', '\''] ++ ·)).count '\'' =
      (rest.map fun path => 2 + path.count '\'').sum := by
    induction rest with
    | nil => rfl
    | cons p rest ih =>
      have hseparator : ['\'', ',', ' ', '\''].count '\'' = 2 := by decide
      rw [List.flatMap_cons, List.count_append, List.count_append, hseparator, ih (List.cons_ne_nil path rest),
        List.map_cons, List.sum_cons]
  have hend : ['\'', ']'].count '\'' = 1 := by decide
  rw [joinPaths, intercalate_cons, List.count_append, List.count_append, hrest, hend, List.map_cons, List.sum_cons]
  omega

theorem doubleQuotes_joinPaths (hne : paths ≠ []) :
    (joinPaths paths ++ ['\'', ']']).count '"' = (paths.map fun path => path.count '"').sum := by
  obtain ⟨path, rest, rfl⟩ := List.exists_cons_of_ne_nil hne
  have hrest : (rest.flatMap (['\'', ',', ' ', '\''] ++ ·)).count '"' = (rest.map fun path => path.count '"').sum := by
    induction rest with
    | nil => rfl
    | cons p rest ih =>
      have hseparator : ['\'', ',', ' ', '\''].count '"' = 0 := by decide
      rw [List.flatMap_cons, List.count_append, List.count_append, hseparator, ih (List.cons_ne_nil path rest),
        List.map_cons, List.sum_cons, Nat.zero_add]
  have hend : ['\'', ']'].count '"' = 0 := by decide
  rw [joinPaths, intercalate_cons, List.count_append, List.count_append, hrest, hend, List.map_cons, List.sum_cons]
  rfl

/-- The quotes that the columns are written with. -/
def columnsCost (weight : Nat) (columns : List (Text × Text)) : Nat :=
  (columns.map fun column => 4 + weight * (column.1.count '\'' + column.2.count '\'')).sum

theorem columnsCost_cons (weight : Nat) (column : Text × Text) (columns : List (Text × Text)) :
    columnsCost weight (column :: columns) =
      4 + weight * (column.1.count '\'' + column.2.count '\'') + columnsCost weight columns := by
  rfl

theorem count_entryText (entry : Text × Text) :
    (entryText entry).count '\'' = 4 + 1 * ((writtenEntry entry).1.count '\'' + (writtenEntry entry).2.count '\'') := by
  simp [entryText, writtenEntry]
  omega

theorem count_dumps (entries : List (Text × Text)) :
    ((dumps entries).map singleQuoted).count '\'' = columnsCost 1 (entries.map writtenEntry) := by
  have hopen : ['\x7b'].count '\'' = 0 := by decide
  have hclose : ['\x7d'].count '\'' = 0 := by decide
  have hseparator : [',', ' '].count '\'' = 0 := by decide
  rw [dumps_singleQuoted, count_cons_char, List.count_append, hopen, hclose, Nat.zero_add, Nat.add_zero]
  cases entries with
  | nil => rfl
  | cons entry entries =>
    have hrest : ((entries.map entryText).flatMap ([',', ' '] ++ ·)).count '\'' =
        columnsCost 1 (entries.map writtenEntry) := by
      induction entries with
      | nil => rfl
      | cons e entries ih =>
        rw [List.map_cons, List.flatMap_cons, List.count_append, List.count_append, hseparator, ih, count_entryText,
          List.map_cons, columnsCost_cons, Nat.zero_add]
    rw [List.map_cons, intercalate_cons, List.count_append, hrest, count_entryText, List.map_cons, columnsCost_cons]

/-- No double quote is left in the columns. -/
theorem doubleQuotes_dumps (entries : List (Text × Text)) : ((dumps entries).map singleQuoted).count '"' = 0 := by
  apply List.count_eq_zero_of_not_mem
  intro hmem
  obtain ⟨c, -, hc⟩ := List.mem_map.mp hmem
  unfold singleQuoted at hc
  split at hc
  · exact absurd hc (by decide)
  · contradiction

/-- The quotes of the paths, once each, and of the columns as they are written. -/
theorem count_scanText (fileType : FileType) (columns : Option (List (Text × Text)))
    (unites noRows : Bool) (hne : paths ≠ []) :
    (scanText fileType paths columns unites noRows).count '\'' =
      (paths.map fun path => 2 + path.count '\'').sum +
        columns.elim 0 fun entries => columnsCost 1 (entries.map writtenEntry) := by
  have hfunction : (functionText fileType).count '\'' = 1 := by cases fileType <;> decide
  have hwhere : (whereText noRows).count '\'' = 0 := by cases noRows <;> decide
  have harguments : (argumentText columns unites).count '\'' =
      columns.elim 0 fun entries => columnsCost 1 (entries.map writtenEntry) := by
    cases columns with
    | none => cases unites <;> decide
    | some entries =>
      have hhead : (text ", columns = ").count '\'' = 0 := by decide
      have hend : [')'].count '\'' = 0 := by decide
      rw [argumentText, List.count_append, List.count_append, hhead, hend, count_dumps, Nat.zero_add, Nat.add_zero]
      rfl
  have hpaths := count_joinPaths hne
  simp only [scanText, List.count_append, hfunction, harguments, hwhere] at hpaths ⊢
  omega

theorem doubleQuotes_scanText (fileType : FileType) (columns : Option (List (Text × Text)))
    (unites noRows : Bool) (hne : paths ≠ []) :
    (scanText fileType paths columns unites noRows).count '"' = (paths.map fun path => path.count '"').sum := by
  have hfunction : (functionText fileType).count '"' = 0 := by cases fileType <;> decide
  have hwhere : (whereText noRows).count '"' = 0 := by cases noRows <;> decide
  have harguments : (argumentText columns unites).count '"' = 0 := by
    cases columns with
    | none => cases unites <;> decide
    | some entries =>
      have hhead : (text ", columns = ").count '"' = 0 := by decide
      have hend : [')'].count '"' = 0 := by decide
      rw [argumentText, List.count_append, List.count_append, hhead, hend, doubleQuotes_dumps]
  have hpaths := doubleQuotes_joinPaths hne
  simp only [scanText, List.count_append, hfunction, harguments, hwhere] at hpaths ⊢
  omega

/-- What the items between commas take, for a measure of tokens that commas do not have. -/
theorem sum_commaSeparated {α : Type} (measure : Token → Nat) (tokens : α → List Token)
    (hcomma : measure (.symbol ',') = 0) (items : List α) :
    ((commaSeparated tokens items).map measure).sum = (items.map fun x => ((tokens x).map measure).sum).sum := by
  cases items with
  | nil => rfl
  | cons x items =>
    have hrest : ((items.flatMap fun y => .symbol ',' :: tokens y).map measure).sum =
        (items.map fun y => ((tokens y).map measure).sum).sum := by
      induction items with
      | nil => rfl
      | cons y items ih =>
        rw [List.flatMap_cons, List.map_append, List.sum_append, ih, List.map_cons, List.sum_cons, hcomma, Nat.zero_add,
          List.map_cons, List.sum_cons]
    rw [commaSeparated, List.map_append, List.sum_append, hrest, List.map_cons, List.sum_cons]

/-- A statement takes each quote of its paths and columns twice. -/
theorem cost_read (fileType : FileType) (files : List Text) (columns : Option (List (Text × Text)))
    (unites noRows : Bool) :
    ((Statement.read fileType files columns unites noRows).tokens.map Token.cost).sum =
      (files.map fun file => 2 + 2 * file.count '\'').sum + columns.elim 0 (columnsCost 2) := by
  have hwhere : ((whereTokens noRows).map Token.cost).sum = 0 := by cases noRows <;> rfl
  have hunion : ((unionTokens unites).map Token.cost).sum = 0 := by cases unites <;> rfl
  have hfunction : (functionToken fileType).cost = 0 := by cases fileType <;> rfl
  have hword : ∀ s, (word s).cost = 0 := fun s => rfl
  have hsymbol : ∀ c, (Token.symbol c).cost = 0 := fun c => rfl
  have harguments : ((argumentTokens columns unites).map Token.cost).sum = columns.elim 0 (columnsCost 2) := by
    cases columns with
    | none => exact hunion
    | some columns =>
      have hcolumn : ∀ column, ((columnTokens column).map Token.cost).sum =
          4 + 2 * (column.1.count '\'' + column.2.count '\'') := by
        intro column
        simp only [columnTokens, List.map_cons, List.map_nil, List.sum_cons, List.sum_nil, Token.cost]
        omega
      simp only [argumentTokens, List.map_append, List.map_cons, List.sum_append, List.sum_cons, List.map_nil, List.sum_nil,
        sum_commaSeparated Token.cost columnTokens rfl, hunion, hcolumn, hword, hsymbol, Option.elim_some, columnsCost]
      omega
  have hfile : ∀ file, ((fileTokens file).map Token.cost).sum = 2 + 2 * file.count '\'' := fun file => rfl
  simp only [Statement.tokens, List.map_append, List.map_cons, List.sum_append, List.sum_cons, List.map_nil, List.sum_nil,
    sum_commaSeparated Token.cost fileTokens rfl, hfile, harguments, hwhere, hfunction, hword, hsymbol]
  omega

theorem doubleQuotes_read (fileType : FileType) (files : List Text) (columns : List (Text × Text))
    (unites noRows : Bool) :
    ((Statement.read fileType files (some columns) unites noRows).tokens.map Token.doubleQuotes).sum =
      (files.map fun file => file.count '"').sum +
        (columns.map fun column => column.1.count '"' + column.2.count '"').sum := by
  have hwhere : ((whereTokens noRows).map Token.doubleQuotes).sum = 0 := by cases noRows <;> rfl
  have hunion : ((unionTokens unites).map Token.doubleQuotes).sum = 0 := by cases unites <;> rfl
  have hfunction : (functionToken fileType).doubleQuotes = 0 := by cases fileType <;> rfl
  have hword : ∀ s, (word s).doubleQuotes = 0 := fun s => rfl
  have hsymbol : ∀ c, (Token.symbol c).doubleQuotes = 0 := fun c => rfl
  have hcolumn : ∀ column, ((columnTokens column).map Token.doubleQuotes).sum =
      column.1.count '"' + column.2.count '"' := by
    intro column
    simp [columnTokens, Token.doubleQuotes]
  have hfile : ∀ file, ((fileTokens file).map Token.doubleQuotes).sum = file.count '"' := fun file => rfl
  simp only [Statement.tokens, argumentTokens, List.map_append, List.map_cons, List.sum_append, List.sum_cons, List.map_nil,
    List.sum_nil, sum_commaSeparated Token.doubleQuotes fileTokens rfl,
    sum_commaSeparated Token.doubleQuotes columnTokens rfl, hfile, hcolumn, hunion, hwhere, hfunction, hword,
    hsymbol]
  omega

/-! ## What a scan that is read back says of its strings -/

theorem not_mem_of_sum_zero (h : (paths.map fun path => path.count '\'').sum = 0) :
    ∀ path ∈ paths, '\'' ∉ path := by
  intro path hpath
  have hzero := List.sum_eq_zero_iff.mp h _ (List.mem_map_of_mem hpath)
  exact List.count_eq_zero.mp hzero

theorem sum_split (weight : Nat) (paths : List Text) :
    (paths.map fun path => 2 + weight * path.count '\'').sum =
      2 * paths.length + weight * (paths.map fun path => path.count '\'').sum := by
  induction paths with
  | nil => simp
  | cons path paths ih =>
    simp only [List.map_cons, List.sum_cons, List.length_cons, ih, Nat.mul_add]
    omega

theorem columnsCost_split (weight : Nat) (columns : List (Text × Text)) :
    columnsCost weight columns =
      4 * columns.length + weight * (columns.map fun column => column.1.count '\'' + column.2.count '\'').sum := by
  induction columns with
  | nil => simp [columnsCost]
  | cons column columns ih =>
    simp only [columnsCost_cons, ih, List.map_cons, List.sum_cons, List.length_cons, Nat.mul_add]
    omega

variable {fileType : FileType} {noRows : Bool}

/-- Without columns only the paths count. -/
theorem paths_of_denotes {unites : Bool} (hne : paths ≠ [])
    (h : (Statement.read fileType paths none unites noRows).Denotes (scanText fileType paths none unites noRows)) :
    ∀ path ∈ paths, '\'' ∉ path := by
  have hcost := cost_le_of_lex h
  rw [cost_read, count_scanText fileType none unites noRows hne, sum_split 2] at hcost
  have hone := sum_split 1 paths
  simp only [Nat.one_mul] at hone
  apply not_mem_of_sum_zero
  simp only [Option.elim_none] at hcost
  omega

/-- The entries of the dictionary are among the columns of a statement for the schema. -/
theorem DictOf.subperm {columns : List (Text × Text)} (h : DictOf schema dict)
    (hsame : SameColumns schema columns) : dict.Subperm columns := by
  apply List.subperm_of_subset (List.Nodup.of_map Prod.fst h.nodup)
  intro entry hentry
  exact (hsame entry.1 entry.2).mpr (h.sound entry hentry)

/-- Entries that are read as entries of the same dictionary are written as they are. -/
theorem kept_of_subperm (h : dict.Subperm (dict.map writtenEntry)) :
    ∀ entry ∈ dict, ∀ c ∈ entry.1, isKept c = true := by
  have hperm : dict.Perm (dict.map writtenEntry) := h.perm_of_length_le (by simp)
  have hsum : ((dict.map writtenEntry).map fun entry => entry.1.length).sum ≤ (dict.map fun entry => entry.1.length).sum :=
    le_of_eq (hperm.map _).sum_eq.symm
  rw [List.map_map] at hsum
  -- writing never shortens a name, so no name may grow
  have hlength := eq_of_sum_map_le (fun entry _ => length_written_le entry.1) hsum
  intro entry hentry
  exact kept_of_length_written (hlength entry hentry).symm

/-- Columns that are read back are plain, and so are the paths. -/
theorem plain_of_denotes {columns : List (Text × Text)}
    (hdict : DictOf schema dict) (hprimitive : ∀ field ∈ schema, field.dataType.isPrimitive = true)
    (hne : paths ≠ []) (hsame : SameColumns schema columns)
    (h : (Statement.read .csv paths (some columns) false noRows).Denotes (scanText .csv paths (some dict) false noRows)) :
    (∀ path ∈ paths, '\'' ∉ path) ∧ PlainColumns schema := by
  have hsub := hdict.subperm hsame
  -- a double quote of a name would not be in the query
  have hdoubles := doubleQuotes_le_of_lex h
  rw [doubleQuotes_read, doubleQuotes_scanText .csv (some dict) false noRows hne] at hdoubles
  have hnodouble : ∀ entry ∈ dict, entry.1.count '"' = 0 ∧ entry.2.count '"' = 0 := by
    intro entry hentry
    have hzero : (columns.map fun column => column.1.count '"' + column.2.count '"').sum = 0 := by omega
    have hcolumn := List.sum_eq_zero_iff.mp hzero _ (List.mem_map_of_mem (hsub.subset hentry))
    omega
  have hwritten : columnsCost 1 (dict.map writtenEntry) = columnsCost 1 dict := by
    unfold columnsCost
    rw [List.map_map]
    apply congrArg List.sum
    apply List.map_congr_left
    intro entry hentry
    obtain ⟨hname, htype⟩ := hnodouble entry hentry
    simp only [Function.comp_apply, writtenEntry, count_written, hname, htype, Nat.add_zero]
  -- each quote is needed twice and there once
  have hcost := cost_le_of_lex h
  rw [cost_read, count_scanText .csv (some dict) false noRows hne] at hcost
  have hlarger : columnsCost 2 dict ≤ columnsCost 2 columns := sum_map_le_of_subperm hsub
  have hone := sum_split 1 paths
  have htwo := sum_split 2 paths
  simp only [Nat.one_mul] at hone
  simp only [Option.elim_some, hwritten, hone, htwo] at hcost
  rw [columnsCost_split 1 dict] at hcost
  rw [columnsCost_split 2 dict] at hlarger
  have hpaths : ∀ path ∈ paths, '\'' ∉ path := not_mem_of_sum_zero (by omega)
  have hnosingle : ∀ entry ∈ dict, entry.1.count '\'' = 0 ∧ entry.2.count '\'' = 0 := by
    intro entry hentry
    have hzero : (dict.map fun column => column.1.count '\'' + column.2.count '\'').sum = 0 := by omega
    have hcolumn := List.sum_eq_zero_iff.mp hzero _ (List.mem_map_of_mem hentry)
    omega
  have hfree : ∀ entry ∈ dict, QuoteFree entry := by
    intro entry hentry
    obtain ⟨hname, htype⟩ := hnosingle entry hentry
    obtain ⟨hname', htype'⟩ := hnodouble entry hentry
    constructor
    · exact List.count_eq_zero.mp (by rw [count_written, hname, hname'])
    · exact List.count_eq_zero.mp (by rw [count_written, htype, htype'])
  -- without quotes the columns that are read are those that are written
  have hread : (Statement.read .csv paths (some (dict.map writtenEntry)) false noRows).Denotes
      (scanText .csv paths (some dict) false noRows) :=
    scanText_denotes hne hpaths fun entries hentries => by
      cases hentries
      exact ⟨rfl, hfree⟩
  have hcolumns : columns = dict.map writtenEntry := by
    have hstatements := Statement.tokens_injective (Option.some.inj (h.symm.trans hread))
    injection hstatements with _ _ hcolumns
    exact Option.some.inj hcolumns
  have hkept := kept_of_subperm (hcolumns ▸ hsub)
  have hplain : ∀ entry ∈ dict, ∀ c ∈ entry.1, isPlain c = true := by
    intro entry hentry c hc
    have hquote : '\'' ∉ entry.1 := List.count_eq_zero.mp (hnosingle entry hentry).1
    have hne : c ≠ '\'' := fun heq => hquote (heq ▸ hc)
    simp [isPlain, hkept entry hentry c hc, hne]
  have hwrites : dict.map writtenEntry = dict := by
    conv_rhs => rw [← List.map_id dict]
    apply List.map_congr_left
    intro entry hentry
    obtain ⟨field, hfield, -, htype⟩ := hdict.sound entry hentry
    exact Prod.ext (written_of_plain (hplain entry hentry)) (written_of_plain (plain_of_typeMapping htype))
  refine ⟨hpaths, ?_, hdict.types hprimitive (hwrites ▸ hcolumns ▸ hsame)⟩
  intro field hfield
  obtain ⟨entry, hentry, hname⟩ := List.mem_map.mp (hdict.complete field hfield)
  exact hname ▸ hplain entry hentry

/-- Plain columns are read as the columns of the schema. -/
theorem denotes_of_plain
    (hdict : DictOf schema dict) (hne : paths ≠ []) (hpaths : ∀ path ∈ paths, '\'' ∉ path)
    (hplain : PlainColumns schema) :
    (Statement.read .csv paths (some dict) false noRows).Denotes (scanText .csv paths (some dict) false noRows) := by
  have hnames : ∀ entry ∈ dict, ∀ c ∈ entry.1, isPlain c = true := by
    intro entry hentry
    obtain ⟨field, hfield, hname, -⟩ := hdict.sound entry hentry
    exact hname ▸ hplain.names field hfield
  have htypes : ∀ entry ∈ dict, ∀ c ∈ entry.2, isPlain c = true := by
    intro entry hentry
    obtain ⟨field, -, -, htype⟩ := hdict.sound entry hentry
    exact plain_of_typeMapping htype
  have hentries : ∀ entry ∈ dict, writtenEntry entry = entry := fun entry hentry =>
    Prod.ext (written_of_plain (hnames entry hentry)) (written_of_plain (htypes entry hentry))
  have hwrites : dict.map writtenEntry = dict := by
    conv_rhs => rw [← List.map_id dict]
    exact List.map_congr_left hentries
  have hfree : ∀ entry ∈ dict, QuoteFree entry := by
    intro entry hentry
    have heq := hentries entry hentry
    constructor
    · intro hmem
      rw [show written entry.1 = entry.1 from congrArg Prod.fst heq] at hmem
      exact (not_quote_of_isPlain (hnames entry hentry _ hmem)).1 rfl
    · intro hmem
      rw [show written entry.2 = entry.2 from congrArg Prod.snd heq] at hmem
      exact (not_quote_of_isPlain (htypes entry hentry _ hmem)).1 rfl
  have hread : (Statement.read .csv paths (some (dict.map writtenEntry)) false noRows).Denotes
      (scanText .csv paths (some dict) false noRows) :=
    scanText_denotes hne hpaths fun entries hentries => by
      cases hentries
      exact ⟨rfl, hfree⟩
  rwa [hwrites] at hread

/-! ## Requests -/

theorem lex_copy (fileType : FileType) {path : Text} (h : '\'' ∉ path) :
    (Statement.copy (text "df_view") path fileType).Denotes (buildCopyQuery (text "df_view") path fileType) := by
  have hhead : run .nothing (text "COPY " ++ text "df_view" ++ text " TO '") =
      (.quoted '\'' [], [word "COPY", word "df_view", word "TO"]) := by decide
  have hpath : run (.quoted '\'' []) path = (.quoted '\'' path, []) := run_quoted h []
  have hopen := run_trans hhead hpath
  cases fileType with
  | csv =>
    have hend : run (.quoted '\'' path) (text "' (FORMAT CSV, HEADER TRUE)") = (.nothing, [.literal path, .symbol '(',
        word "FORMAT", word "CSV", .symbol ',', word "HEADER", word "TRUE", .symbol ')']) := rfl
    exact lex_of_run (run_trans hopen hend)
  | parquet =>
    have hend : run (.quoted '\'' path) (text "' (FORMAT PARQUET)") = (.nothing, [.literal path, .symbol '(',
        word "FORMAT", word "PARQUET", .symbol ')']) := rfl
    exact lex_of_run (run_trans hopen hend)

theorem quote_free_of_copy {path : Text}
    (h : (Statement.copy (text "df_view") path fileType).Denotes (buildCopyQuery (text "df_view") path fileType)) :
    '\'' ∉ path := by
  have hcost := cost_le_of_lex h
  have htokens : ((Statement.copy (text "df_view") path fileType).tokens.map Token.cost).sum = 2 + 2 * path.count '\'' := by
    cases fileType <;> simp [Statement.tokens, word, Token.cost]
  have hquery : (buildCopyQuery (text "df_view") path fileType).count '\'' = 2 + path.count '\'' := by
    have hhead : (text "COPY " ++ text "df_view" ++ text " TO '").count '\'' = 1 := by decide
    have hcsv : (text "' (FORMAT CSV, HEADER TRUE)").count '\'' = 1 := by decide
    have hparquet : (text "' (FORMAT PARQUET)").count '\'' = 1 := by decide
    cases fileType with
    | csv =>
      rw [buildCopyQuery, List.count_append, List.count_append, hhead, hcsv]
      omega
    | parquet =>
      rw [buildCopyQuery, List.count_append, List.count_append, hhead, hparquet]
      omega
  exact List.count_eq_zero.mp (by omega)

/-- Where no columns are written, the paths are all there is. -/
theorem scan_denotes_iff {schema : Option Schema}
    {mergeSchemas schemaInference : Bool} (hne : paths ≠ []) (hschema : fileType = .csv → schema = none) :
    (Request.scan paths fileType schema mergeSchemas schemaInference).Denoted ↔
      (Request.scan paths fileType schema mergeSchemas schemaInference).Plain := by
  have hcolumns : duckdbColumns fileType schema = .ok none := by
    cases fileType with
    | csv => rw [hschema rfl]; rfl
    | parquet => rfl
  have hasked : ∀ columns, Request.Columns fileType schema columns ↔ columns = none := by
    intro columns
    cases fileType with
    | csv => rw [hschema rfl]; rfl
    | parquet => rfl
  constructor
  · rintro ⟨query, hquery, statement, ⟨columns, hc, rfl⟩, hdenotes⟩
    rw [Request.query, buildFileScanQuery_eq, hcolumns] at hquery
    cases hquery
    rw [(hasked columns).mp hc] at hdenotes
    refine ⟨paths_of_denotes hne hdenotes, ?_⟩
    intro hcsv fields hfields
    rw [hschema hcsv] at hfields
    cases hfields
  · rintro ⟨hpaths, -⟩
    have hread : (Statement.read fileType paths none (Request.unites fileType schema mergeSchemas) schemaInference).Denotes
        (scanText fileType paths none (Request.unites fileType schema mergeSchemas) schemaInference) :=
      scanText_denotes hne hpaths fun entries hentries => by cases hentries
    refine ⟨_, ?_, _, ⟨none, (hasked none).mpr rfl, rfl⟩, hread⟩
    rw [Request.query, buildFileScanQuery_eq, hcolumns]
    rfl

/-- The query of a request is read as the statement that the request is for exactly when the request is plain. -/
theorem query_denotes_iff (request : Request) (hvalid : request.Valid) : request.Denoted ↔ request.Plain := by
  cases request with
  | copy path fileType =>
    constructor
    · rintro ⟨query, hquery, statement, rfl, hdenotes⟩
      cases hquery
      exact quote_free_of_copy hdenotes
    · intro hplain
      exact ⟨_, rfl, _, rfl, lex_copy fileType hplain⟩
  | scan paths fileType schema mergeSchemas schemaInference =>
    obtain ⟨hne, hprimitive⟩ := hvalid
    cases fileType with
    | parquet => exact scan_denotes_iff hne fun h => by cases h
    | csv =>
      cases schema with
      | none => exact scan_denotes_iff hne fun _ => rfl
      | some fields =>
        obtain ⟨dict, hdict, hof⟩ := exists_dict (hprimitive fields rfl)
        have hquery : (Request.scan paths .csv (some fields) mergeSchemas schemaInference).query =
            .ok (scanText .csv paths (some dict) false schemaInference) := by
          rw [Request.query, buildFileScanQuery_eq, duckdbColumns, hdict]
          rfl
        constructor
        · rintro ⟨query, hbuilt, statement, ⟨columns, hc, rfl⟩, hdenotes⟩
          rw [hquery] at hbuilt
          cases hbuilt
          cases columns with
          | none => exact absurd hc id
          | some columns =>
            obtain ⟨hpaths, hplain⟩ := plain_of_denotes hof (hprimitive fields rfl) hne hc hdenotes
            refine ⟨hpaths, ?_⟩
            intro _ schema hschema
            cases hschema
            exact hplain
        · rintro ⟨hpaths, hplain⟩
          have hcsv := hplain rfl fields rfl
          exact ⟨_, hquery, _, ⟨some dict, hof.sameColumns hcsv.types, rfl⟩, denotes_of_plain hof hne hpaths hcsv⟩

def plainSchema : Schema := [⟨"id", .integerType⟩, ⟨"name", .stringType⟩]

theorem plainSchema_plain : PlainColumns plainSchema where
  names := by
    have hall : plainSchema.all (fun field => field.name.toList.all isPlain) = true := by decide
    exact fun field hfield => List.all_eq_true.mp (List.all_eq_true.mp hall field hfield)
  types := by
    intro field hfield other hother hname
    simp only [plainSchema, List.mem_cons, List.not_mem_nil, or_false] at hfield hother
    rcases hfield with rfl | rfl <;> rcases hother with rfl | rfl <;> first | rfl | simp at hname

/-- A read of two files with a schema, as it is meant. -/
def plainScan : Request := .scan [text "data/a.csv", text "data/b.csv"] .csv (some plainSchema) false false

theorem plainScan_denoted : plainScan.Denoted := by
  apply (query_denotes_iff plainScan ⟨List.cons_ne_nil _ _, ?_⟩).mpr
  · have hpaths : [text "data/a.csv", text "data/b.csv"].all (fun path => !path.contains '\'') = true := by decide +kernel
    refine ⟨fun path hpath => ?_, ?_⟩
    · simpa using List.all_eq_true.mp hpaths path hpath
    · intro _ fields hfields
      cases hfields
      exact plainSchema_plain
  · intro fields hfields
    cases hfields
    decide

/-- A path with a quote: the literal ends inside it, and the last quote opens one that never ends. -/
theorem quotedPath_not_denoted : ¬ ∀ request : Request, request.Valid → request.Denoted := by
  intro hall
  have hvalid : (Request.scan [text "it's.csv"] .csv none false false).Valid :=
    ⟨List.cons_ne_nil _ _, fun fields hfields => by cases hfields⟩
  obtain ⟨query, hquery, statement, -, hdenotes⟩ := hall _ hvalid
  cases hquery
  have hlex : lex (text "SELECT * FROM read_csv(['" ++ joinPaths [text "it's.csv"] ++ text "'])") = none := by
    decide +kernel
  exact absurd (hdenotes.symm.trans hlex) (by simp)

end FileQueries
end Fenic
