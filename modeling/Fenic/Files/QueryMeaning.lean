import Fenic.Files.FileQueries

/-!
# `Files.QueryMeaning` — when a file query is read as the statement it is for

A text is read as at most one statement (`Statement.tokens_injective`). `query_denotes_iff` says when the text built for a
request is read as the statement that the request is for: exactly when no path holds a single quote, and each column name
holds only characters that `json.dumps` and the reading of a literal leave alone and has one type.

Plain requests are read by running over the text. For the others the quotes are counted: a literal takes twice the quotes of
its text, and the query only has them once; a double quote of a name is no longer in the query at all.
-/

namespace Fenic
namespace FileQueries

open Sql JsonDumps

/-! ## One text, one statement -/

section CommaSeparated

variable {α : Type} {tokens : α → List Token} {close : Char}

/-- What is written for an item starts with a literal and says where it ends. -/
structure ItemTokens (tokens : α → List Token) : Prop where
  head : ∀ x, ∃ text rest, tokens x = .literal text :: rest
  apart : ∀ {x y r r'}, tokens x ++ r = tokens y ++ r' → x = y ∧ r = r'

theorem ItemTokens.rest_injective (htokens : ItemTokens tokens) (hclose : close ≠ ',') {xs ys : List α}
    {r r' : List Token}
    (h : (xs.flatMap fun x => .symbol ',' :: tokens x) ++ .symbol close :: r =
      (ys.flatMap fun y => .symbol ',' :: tokens y) ++ .symbol close :: r') : xs = ys ∧ r = r' := by
  induction xs generalizing ys with
  | nil =>
    cases ys with
    | nil => exact ⟨rfl, (List.cons.inj h).2⟩
    | cons y ys => exact absurd (Token.symbol.inj (List.cons.inj h).1) hclose
  | cons x xs ih =>
    cases ys with
    | nil => exact absurd (Token.symbol.inj (List.cons.inj h).1).symm hclose
    | cons y ys =>
      simp only [List.flatMap_cons, List.cons_append, List.append_assoc, List.cons.injEq, true_and] at h
      obtain ⟨rfl, hrest⟩ := htokens.apart h
      obtain ⟨rfl, hr⟩ := ih hrest
      exact ⟨rfl, hr⟩

theorem ItemTokens.injective (htokens : ItemTokens tokens) (hclose : close ≠ ',') {xs ys : List α} {r r' : List Token}
    (h : commaSeparated tokens xs ++ .symbol close :: r = commaSeparated tokens ys ++ .symbol close :: r') :
    xs = ys ∧ r = r' := by
  cases xs with
  | nil =>
    cases ys with
    | nil => exact ⟨rfl, (List.cons.inj h).2⟩
    | cons y ys =>
      obtain ⟨text, rest, hhead⟩ := htokens.head y
      simp [commaSeparated, hhead] at h
  | cons x xs =>
    cases ys with
    | nil =>
      obtain ⟨text, rest, hhead⟩ := htokens.head x
      simp [commaSeparated, hhead] at h
    | cons y ys =>
      simp only [commaSeparated, List.append_assoc] at h
      obtain ⟨rfl, hrest⟩ := htokens.apart h
      obtain ⟨rfl, hr⟩ := htokens.rest_injective hclose hrest
      exact ⟨rfl, hr⟩

end CommaSeparated

theorem fileTokens_items : ItemTokens fileTokens where
  head x := ⟨x, [], rfl⟩
  apart h := by simpa [fileTokens] using h

theorem columnTokens_items : ItemTokens columnTokens where
  head x := ⟨x.1, [.symbol ':', .literal x.2], rfl⟩
  apart := by
    intro x y r r' h
    simp only [columnTokens, List.cons_append, List.nil_append, List.cons.injEq, Token.literal.injEq, true_and] at h
    exact ⟨Prod.ext h.1 h.2.1, h.2.2⟩

variable {unites : Bool}

theorem unionTokens_injective {unites' : Bool} {r r' : List Token}
    (h : unionTokens unites ++ r = unionTokens unites' ++ r') : unites = unites' ∧ r = r' := by
  cases unites <;> cases unites' <;> simp [unionTokens] at h ⊢ <;> exact h

variable {columns : Option (List (Text × Text))}

theorem argumentTokens_injective {columns' : Option (List (Text × Text))} {unites' : Bool}
    {r r' : List Token} (h : argumentTokens columns unites ++ r = argumentTokens columns' unites' ++ r') :
    columns = columns' ∧ unites = unites' ∧ r = r' := by
  have hwords : word "columns" ≠ word "union_by_name" := by decide
  cases columns with
  | none =>
    cases columns' with
    | none => exact ⟨rfl, unionTokens_injective h⟩
    | some columns' => cases unites <;> simp [argumentTokens, unionTokens, hwords.symm] at h
  | some columns =>
    cases columns' with
    | none => cases unites' <;> simp [argumentTokens, unionTokens, hwords] at h
    | some columns' =>
      simp only [argumentTokens, List.append_assoc, List.cons_append, List.nil_append, List.cons.injEq, true_and] at h
      have hclose : '\x7d' ≠ ',' := by decide
      obtain ⟨rfl, hrest⟩ := columnTokens_items.injective hclose h
      exact ⟨rfl, unionTokens_injective hrest⟩

/-- A text is read as one statement only. -/
theorem Statement.tokens_injective {s s' : Statement} (h : s.tokens = s'.tokens) : s = s' := by
  have hverbs : word "SELECT" ≠ word "COPY" := by decide
  cases s with
  | read fileType files columns unionByName noRows =>
    cases s' with
    | read fileType' files' columns' unionByName' noRows' =>
      simp only [Statement.tokens, List.cons_append, List.nil_append, List.cons.injEq, true_and] at h
      obtain ⟨hfunction, hrest⟩ := h
      have htype : fileType = fileType' := by
        revert hfunction
        cases fileType <;> cases fileType' <;> decide
      have hclose : ']' ≠ ',' := by decide
      obtain ⟨rfl, harguments⟩ := fileTokens_items.injective hclose hrest
      obtain ⟨rfl, rfl, hwhere⟩ := argumentTokens_injective harguments
      have hrows : noRows = noRows' := by
        revert hwhere
        cases noRows <;> cases noRows' <;> decide
      rw [htype, hrows]
    | copy table' path' fileType' => cases fileType' <;> simp [Statement.tokens, hverbs] at h
  | copy table path fileType =>
    cases s' with
    | read fileType' files' columns' unionByName' noRows' =>
      cases fileType <;> simp [Statement.tokens, hverbs.symm] at h
    | copy table' path' fileType' =>
      have hformats : word "CSV" ≠ word "PARQUET" := by decide
      cases fileType <;> cases fileType' <;> simp [Statement.tokens, hformats, hformats.symm] at h ⊢ <;> exact h

/-! ## The text of a scan -/

/-- The text up to the first path. -/
def functionText : FileType → Text
  | .csv => text "SELECT * FROM read_csv(['"
  | .parquet => text "SELECT * FROM read_parquet(['"

/-- The text behind the list of files, up to the end of the call. -/
def argumentText : Option (List (Text × Text)) → Bool → Text
  | some columns, _ => text ", columns = " ++ ((dumps columns).map singleQuoted ++ [')'])
  | none, true => text ", union_by_name=true)"
  | none, false => [')']

def whereText (noRows : Bool) : Text := if noRows then text " WHERE 1=0" else []

def scanText (fileType : FileType) (paths : List Text) (columns : Option (List (Text × Text))) (unites noRows : Bool) :
    Text :=
  functionText fileType ++ ((joinPaths paths ++ ['\'', ']']) ++ (argumentText columns unites ++ whereText noRows))

/-- The dictionary that the columns of a read are written from. -/
def duckdbColumns (fileType : FileType) (schema : Option Schema) : Except QueryError (Option (List (Text × Text))) :=
  match fileType, schema with
  | .csv, some schema => (convertSchemaToDuckdbDict schema).map some
  | _, _ => .ok none

theorem quote_columns : text "'], columns = " = '\'' :: ']' :: text ", columns = " := by decide

theorem quote_union : text "'], union_by_name=true)" = '\'' :: ']' :: text ", union_by_name=true)" := by
  decide

theorem quote_end : text "'])" = ['\'', ']', ')'] := by decide

theorem buildFileScanQuery_eq (paths : List Text) (fileType : FileType) (schema : Option Schema)
    (mergeSchemas schemaInference : Bool) :
    buildFileScanQuery paths fileType schema mergeSchemas schemaInference =
      (duckdbColumns fileType schema).map fun columns =>
        scanText fileType paths columns (Request.unites fileType schema mergeSchemas) schemaInference := by
  have hwhere : ∀ query : Text,
      (if schemaInference then query ++ text " WHERE 1=0" else query) = query ++ whereText schemaInference := by
    intro query
    cases schemaInference
    · exact (List.append_nil query).symm
    · rfl
  unfold buildFileScanQuery duckdbColumns
  cases fileType with
  | csv =>
    cases schema with
    | none =>
      cases mergeSchemas <;>
        simp [buildCsvScanQuery, scanText, functionText, argumentText, Request.unites, hwhere, quote_union, quote_end,
          Except.map]
    | some schema =>
      cases hdict : convertSchemaToDuckdbDict schema with
      | error e => simp [buildCsvScanQuery, hdict, Except.map]
      | ok dict =>
        simp [buildCsvScanQuery, hdict, scanText, functionText, argumentText, hwhere, quote_columns, Except.map]
  | parquet =>
    cases mergeSchemas <;>
      simp [buildParquetScanQuery, scanText, functionText, argumentText, Request.unites, hwhere, quote_union, quote_end,
        Except.map]

theorem intercalate_cons (separator x : Text) (xs : List Text) :
    separator.intercalate (x :: xs) = x ++ xs.flatMap (separator ++ ·) := by
  induction xs generalizing x with
  | nil => simp
  | cons y ys ih =>
    rw [List.intercalate_cons_of_ne_nil (List.cons_ne_nil y ys), ih, List.flatMap_cons, List.append_assoc, List.append_assoc]

/-! ## What the names become -/

/-- A string inside the quotes of the columns. -/
def written (s : Text) : Text := (s.flatMap escapeChar).map singleQuoted

/-- An entry of the columns, with its quotes. -/
def entryText (entry : Text × Text) : Text :=
  '\'' :: (written entry.1 ++ '\'' :: ':' :: ' ' :: '\'' :: (written entry.2 ++ ['\'']))

theorem dumpEntry_singleQuoted (entry : Text × Text) : (dumpEntry entry).map singleQuoted = entryText entry := by
  have hquote : singleQuoted '"' = '\'' := rfl
  have hcolon : singleQuoted ':' = ':' := rfl
  have hblank : singleQuoted ' ' = ' ' := rfl
  simp [dumpEntry, dumpString, entryText, written, hquote, hcolon, hblank]

theorem dumps_singleQuoted (entries : List (Text × Text)) :
    (dumps entries).map singleQuoted = '\x7b' :: ([',', ' '].intercalate (entries.map entryText) ++ ['\x7d']) := by
  have hbraces : singleQuoted '\x7b' = '\x7b' ∧ singleQuoted '\x7d' = '\x7d' := ⟨rfl, rfl⟩
  have hseparator : [',', ' '].map singleQuoted = [',', ' '] := rfl
  cases entries with
  | nil => rfl
  | cons entry entries =>
    simp only [dumps, List.map_cons, List.map_append, intercalate_cons, List.map_flatMap, List.flatMap_map,
      dumpEntry_singleQuoted, hseparator, hbraces, List.map_nil]

theorem digitChar_plain (n : Nat) : isPlain (Nat.digitChar (n % 16)) = true := by
  have hall : ∀ d < 16, isPlain (Nat.digitChar d) = true := by decide
  exact hall (n % 16) (Nat.mod_lt n (by decide))

theorem not_quote_of_isPlain {c : Char} (h : isPlain c = true) : c ≠ '\'' ∧ c ≠ '"' := by
  constructor
  · rintro rfl
    exact absurd h (by decide)
  · rintro rfl
    exact absurd h (by decide)

theorem count_unicodeEscape (n : Nat) : ((unicodeEscape n).map singleQuoted).count '\'' = 0 := by
  have hdigit : ∀ m, singleQuoted (Nat.digitChar (m % 16)) ≠ '\'' := by
    intro m
    obtain ⟨hsingle, hdouble⟩ := not_quote_of_isPlain (digitChar_plain m)
    rwa [singleQuoted, if_neg hdouble]
  have hletters : singleQuoted '\\' ≠ '\'' ∧ singleQuoted 'u' ≠ '\'' := by decide
  simp [unicodeEscape, hdigit, hletters]

/-- A single quote stays, and a double quote becomes one. -/
theorem count_escapeChar (c : Char) :
    ((escapeChar c).map singleQuoted).count '\'' = [c].count '\'' + [c].count '"' := by
  unfold escapeChar
  split
  · rename_i hkept
    by_cases hdouble : c = '"'
    · subst hdouble
      rfl
    · simp [singleQuoted, hdouble, List.count_cons]
  · rename_i hkept
    have hsingle : c ≠ '\'' := by
      rintro rfl
      exact hkept (by decide)
    split
    all_goals try rfl
    rename_i hdouble _ _ _ _ _ _
    have hnone : [c].count '\'' + [c].count '"' = 0 := by
      rw [List.count_eq_zero_of_not_mem, List.count_eq_zero_of_not_mem]
      · exact fun hmem => hdouble (List.mem_singleton.mp hmem).symm
      · exact fun hmem => hsingle (List.mem_singleton.mp hmem).symm
    rw [hnone]
    split
    · exact count_unicodeEscape _
    · rw [List.map_append, List.count_append, count_unicodeEscape, count_unicodeEscape]

theorem count_written (s : Text) : (written s).count '\'' = s.count '\'' + s.count '"' := by
  induction s with
  | nil => rfl
  | cons c s ih =>
    have hsplit : ∀ q, (c :: s).count q = [c].count q + s.count q := fun q => by
      rw [← List.count_append, List.singleton_append]
    rw [written, List.flatMap_cons, List.map_append, List.count_append, count_escapeChar, hsplit, hsplit]
    have hrest : ((s.flatMap escapeChar).map singleQuoted).count '\'' = s.count '\'' + s.count '"' := ih
    omega

theorem length_written_le (s : Text) : s.length ≤ (written s).length := by
  induction s with
  | nil => exact Nat.le_refl 0
  | cons c s ih =>
    have hchar := length_escapeChar c
    simp only [written, List.flatMap_cons, List.length_map, List.length_append, List.length_cons] at ih ⊢
    omega

variable {s : Text}

theorem kept_of_length_written (h : (written s).length = s.length) : ∀ c ∈ s, isKept c = true := by
  induction s with
  | nil => exact fun c hc => absurd hc List.not_mem_nil
  | cons c s ih =>
    have hchar := length_escapeChar c
    have hrest := length_written_le s
    simp only [written, List.flatMap_cons, List.length_map, List.length_append, List.length_cons] at h hrest ih
    intro d hd
    rcases List.mem_cons.mp hd with rfl | hd
    · rcases hchar with ⟨-, hkept⟩ | hlong
      · exact hkept
      · omega
    · exact ih (by omega) d hd

/-- Plain strings are written as they are. -/
theorem written_of_plain (h : ∀ c ∈ s, isPlain c = true) : written s = s := by
  induction s with
  | nil => rfl
  | cons c s ih =>
    have hc := h c List.mem_cons_self
    have hkept : isKept c = true := (Bool.and_eq_true_iff.mp hc).1
    have hdouble := (not_quote_of_isPlain hc).2
    have hrest : (s.flatMap escapeChar).map singleQuoted = s := ih fun d hd => h d (List.mem_cons_of_mem c hd)
    have hchar : escapeChar c = [c] := if_pos hkept
    have hreplaced : singleQuoted c = c := if_neg hdouble
    rw [written, List.flatMap_cons, List.map_append, hrest, hchar, List.map_singleton, hreplaced, List.singleton_append]


/-! ## Reading a scan -/

variable {paths : List Text}

/-- The paths behind the first one, each between its quotes. -/
theorem run_rest (path : Text) (hpaths : ∀ p ∈ paths, '\'' ∉ p) :
    run (.quoted '\'' path) ((paths.flatMap (['\'', ',', ' ', '\''] ++ ·)) ++ ['\'', ']']) =
      (.nothing, .literal path :: ((paths.flatMap fun p => [.symbol ',', .literal p]) ++ [.symbol ']'])) := by
  induction paths generalizing path with
  | nil => rfl
  | cons p paths ih =>
    have hp : '\'' ∉ p := hpaths p List.mem_cons_self
    have hrest := ih p fun q hq => hpaths q (List.mem_cons_of_mem p hq)
    have hseparator : run (.quoted '\'' path) ['\'', ',', ' ', '\''] =
        (.quoted '\'' [], [.literal path, .symbol ',']) := rfl
    have hpath : run (.quoted '\'' []) p = (.quoted '\'' p, []) := run_quoted hp []
    rw [List.flatMap_cons, List.append_assoc, List.append_assoc]
    exact run_trans hseparator (run_trans hpath hrest)

theorem run_joinPaths {path : Text} (hpaths : ∀ p ∈ path :: paths, '\'' ∉ p) :
    run (.quoted '\'' []) (joinPaths (path :: paths) ++ ['\'', ']']) =
      (.nothing, commaSeparated fileTokens (path :: paths) ++ [.symbol ']']) := by
  have hpath : run (.quoted '\'' []) path = (.quoted '\'' path, []) := run_quoted (hpaths path List.mem_cons_self) []
  have hrest := run_rest path fun p hp => hpaths p (List.mem_cons_of_mem path hp)
  rw [joinPaths, intercalate_cons, List.append_assoc, run_trans hpath hrest]
  simp [commaSeparated, fileTokens]

/-- An entry as it is read. -/
def writtenEntry (entry : Text × Text) : Text × Text := (written entry.1, written entry.2)

/-- The entries whose quotes are only those around the name and the type. -/
def QuoteFree (entry : Text × Text) : Prop := '\'' ∉ written entry.1 ∧ '\'' ∉ written entry.2

/-- The literal of the type is complete with the character behind it. -/
theorem run_entry {entry : Text × Text} (h : QuoteFree entry) :
    run .nothing (entryText entry) =
      (.closed '\'' (written entry.2), [.literal (written entry.1), .symbol ':']) := by
  have hopen : run .nothing ['\''] = (.quoted '\'' [], []) := rfl
  have hname : run (.quoted '\'' []) (written entry.1) = (.quoted '\'' (written entry.1), []) := run_quoted h.1 []
  have hbetween : run (.quoted '\'' (written entry.1)) ['\'', ':', ' ', '\''] =
      (.quoted '\'' [], [.literal (written entry.1), .symbol ':']) := rfl
  have htype : run (.quoted '\'' []) (written entry.2) = (.quoted '\'' (written entry.2), []) := run_quoted h.2 []
  have hclose : run (.quoted '\'' (written entry.2)) ['\''] = (.closed '\'' (written entry.2), []) := rfl
  exact run_trans hopen (run_trans hname (run_trans hbetween (run_trans htype hclose)))

theorem run_entries (type : Text) {entries : List (Text × Text)} (h : ∀ entry ∈ entries, QuoteFree entry) :
    run (.closed '\'' type) ((entries.map entryText).flatMap ([',', ' '] ++ ·) ++ ['\x7d', ')']) =
      (.nothing, .literal type :: (((entries.map writtenEntry).flatMap fun column => .symbol ',' :: columnTokens column) ++
        [.symbol '\x7d', .symbol ')'])) := by
  induction entries generalizing type with
  | nil => rfl
  | cons entry entries ih =>
    have hseparator : run (.closed '\'' type) [',', ' '] = (.nothing, [.literal type, .symbol ',']) := rfl
    have hentry := run_entry (h entry List.mem_cons_self)
    have hrest := ih (written entry.2) fun e he => h e (List.mem_cons_of_mem entry he)
    rw [List.map_cons, List.flatMap_cons, List.append_assoc, List.append_assoc]
    exact run_trans hseparator (run_trans hentry hrest)

theorem run_argumentText
    (h : ∀ entries, columns = some entries → unites = false ∧ ∀ entry ∈ entries, QuoteFree entry) :
    run .nothing (argumentText columns unites) =
      (.nothing, argumentTokens (columns.map (List.map writtenEntry)) unites) := by
  cases columns with
  | none => cases unites <;> decide
  | some entries =>
    obtain ⟨rfl, hfree⟩ := h entries rfl
    have hhead : run .nothing (text ", columns = ") = (.nothing, [.symbol ',', word "columns", .symbol '=']) := by
      decide
    have hentries : run .nothing ((dumps entries).map singleQuoted ++ [')']) =
        (.nothing, .symbol '\x7b' :: (commaSeparated columnTokens (entries.map writtenEntry) ++
          [.symbol '\x7d', .symbol ')'])) := by
      rw [dumps_singleQuoted]
      cases entries with
      | nil => rfl
      | cons entry entries =>
        have hopen : run .nothing ['\x7b'] = (.nothing, [.symbol '\x7b']) := rfl
        have hentry := run_entry (hfree entry List.mem_cons_self)
        have hrest := run_entries (written entry.2) fun e he => hfree e (List.mem_cons_of_mem entry he)
        rw [List.map_cons, intercalate_cons, List.cons_append, List.append_assoc, List.append_assoc]
        exact run_trans hopen (run_trans hentry hrest)
    rw [argumentText, run_trans hhead hentries]
    simp [argumentTokens, unionTokens]

theorem run_functionText (fileType : FileType) :
    run .nothing (functionText fileType) =
      (.quoted '\'' [], [word "SELECT", .symbol '*', word "FROM", functionToken fileType, .symbol '(', .symbol '[']) := by
  cases fileType <;> decide

theorem lex_whereText (noRows : Bool) : lex (whereText noRows) = some (whereTokens noRows) := by
  cases noRows <;> decide

theorem lex_append_of_run {t : Text} {tokens rest : List Token} (hs : run .nothing s = (.nothing, tokens))
    (ht : lex t = some rest) : lex (s ++ t) = some (tokens ++ rest) := by
  obtain ⟨last, hlast, rfl⟩ := lex_eq_some ht
  rw [lex, run_append, hs]
  simp [hlast]

/-- A scan without quotes in its paths and names is read as the statement over what is written. -/
theorem scanText_denotes {fileType : FileType}
    {noRows : Bool} (hne : paths ≠ []) (hpaths : ∀ path ∈ paths, '\'' ∉ path)
    (hcolumns : ∀ entries, columns = some entries → unites = false ∧ ∀ entry ∈ entries, QuoteFree entry) :
    (Statement.read fileType paths (columns.map (List.map writtenEntry)) unites noRows).Denotes
      (scanText fileType paths columns unites noRows) := by
  obtain ⟨path, rest, rfl⟩ := List.exists_cons_of_ne_nil hne
  have hcall := run_trans (run_functionText fileType) (run_trans (run_joinPaths hpaths) (run_argumentText hcolumns))
  have hlex := lex_append_of_run hcall (lex_whereText noRows)
  unfold Statement.Denotes scanText
  rw [← List.append_assoc, ← List.append_assoc, List.append_assoc (functionText fileType), hlex]
  simp [Statement.tokens]

end FileQueries
end Fenic
