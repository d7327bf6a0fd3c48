import Fenic.Catalog.Names

/-!
# `Catalog.QualifiedNames` — names with quotes

A name in quotes may hold dots and blanks, and names that are joined by dots are taken apart again (`split_joinNames`). But the
parts are stripped after the quotes were dropped, so blanks at the ends of a name are lost in quotes too
(`qualifiedNames_iff`).
-/

namespace Fenic

namespace Catalog

open TextExtract (strip isSpace)

/-! ## Writing names -/

/-- A name in quotes. -/
def quoteName (name : String) : String := "\"" ++ name ++ "\""

/-- A name, in quotes or not. -/
def writeName (entry : Bool × String) : String := if entry.1 then quoteName entry.2 else entry.2

/-- Names joined by dots, each in quotes or not. -/
def joinNames (entries : List (Bool × String)) : String := ".".intercalate (entries.map writeName)

/-- Names joined by dots, all in quotes. -/
def qualify (names : List String) : String := joinNames (names.map (Prod.mk true))

/-- `build_qualified_table_name`. -/
def TableKey.buildQualifiedTableName (key : TableKey) : String := s!"\"{key.db}\".\"{key.table}\""

theorem TableKey.buildQualifiedTableName_eq (key : TableKey) : key.buildQualifiedTableName = qualify [key.db, key.table] := by
  apply String.toList_inj.mp
  simp [buildQualifiedTableName, qualify, joinNames, writeName, quoteName, toString]

/-- A name can be taken apart as it is written: it has no quotes, and no dots outside of them. -/
def Writable (entry : Bool × String) : Prop := '"' ∉ entry.2.toList ∧ (entry.1 = true ∨ '.' ∉ entry.2.toList)

theorem toList_quoteName (name : String) : (quoteName name).toList = '"' :: name.toList ++ ['"'] := by
  rw [quoteName, String.toList_append, String.toList_append]
  rfl

/-! ## Taking names apart -/

section Split

variable {name : String} {current : List Char} {inQuote : Bool}

/-- Characters that are neither quotes nor dots outside of quotes belong to the open part. -/
theorem splitLoop_append {text rest : List Char} (hquote : '"' ∉ text) (hdot : inQuote = true ∨ '.' ∉ text) :
    splitLoop name current inQuote (text ++ rest) = splitLoop name (current ++ text) inQuote rest := by
  induction text generalizing current with
  | nil => rw [List.nil_append, List.append_nil]
  | cons ch text ih =>
    obtain ⟨hch, hquote⟩ := not_or.mp (mt List.mem_cons.mpr hquote)
    have hnot : ¬ (ch = '.' ∧ ¬ inQuote = true) := by
      rintro ⟨rfl, hout⟩
      exact (hdot.resolve_left hout) List.mem_cons_self
    rw [List.cons_append, splitLoop, if_neg (Ne.symm hch), if_neg hnot,
      ih hquote (hdot.imp_right fun h hmem => h (List.mem_cons_of_mem _ hmem)), List.append_assoc, List.singleton_append]

theorem splitLoop_writeName {entry : Bool × String} (h : Writable entry) (rest : List Char) :
    splitLoop name current false ((writeName entry).toList ++ rest) = splitLoop name (current ++ entry.2.toList) false rest := by
  obtain ⟨quoted, text⟩ := entry
  obtain ⟨hquote, hdot⟩ := h
  cases quoted with
  | false => exact splitLoop_append hquote (.inr (hdot.resolve_left nofun))
  | true =>
      show splitLoop name current false ((quoteName text).toList ++ rest) = _
      rw [toList_quoteName, List.cons_append, List.cons_append, splitLoop, if_pos rfl, List.append_assoc]
      show splitLoop name current true (text.toList ++ ('"' :: rest)) = _
      rw [splitLoop_append hquote (.inl rfl), splitLoop, if_pos rfl]
      rfl

end Split

theorem joinNames_singleton (entry : Bool × String) : joinNames [entry] = writeName entry := String.intercalate_singleton

variable {entries : List (Bool × String)}

theorem toList_joinNames_cons (entry : Bool × String) (h : entries ≠ []) :
    (joinNames (entry :: entries)).toList = (writeName entry).toList ++ '.' :: (joinNames entries).toList := by
  have hne : entries.map writeName ≠ [] := fun heq => h (List.map_eq_nil_iff.mp heq)
  rw [joinNames, List.map_cons, String.intercalate_cons_of_ne_nil hne, String.toList_append, String.toList_append,
    List.append_assoc]
  rfl

theorem takePart_eq (name : String) (current : List Char) :
    takePart name current =
      if strip current = [] then .error (.valueError s!"Empty identifier in '{name}'")
      else .ok (String.ofList (strip current)) := rfl

theorem takePart_ne {name part : String} {current : List Char} (h : takePart name current = .ok part) : part ≠ "" := by
  rw [takePart_eq] at h
  split at h
  · cases h
  · case isFalse hempty =>
      cases Except.ok.inj h
      intro heq
      exact hempty ((String.toList_ofList).symm.trans (congrArg String.toList heq))

/-- Names that are joined are taken apart again and stripped; a name of blanks alone is refused. -/
theorem split_joinNames (hne : entries ≠ []) (h : ∀ entry ∈ entries, Writable entry) :
    split (joinNames entries) =
      if ∀ entry ∈ entries, strip entry.2.toList ≠ [] then .ok (entries.map fun entry => String.ofList (strip entry.2.toList))
      else .error (.valueError s!"Empty identifier in '{joinNames entries}'") := by
  have hloop : ∀ name, ∀ entries : List (Bool × String), entries ≠ [] → (∀ entry ∈ entries, Writable entry) →
      splitLoop name [] false (joinNames entries).toList =
        if ∀ entry ∈ entries, strip entry.2.toList ≠ [] then .ok (entries.map fun entry => String.ofList (strip entry.2.toList))
        else .error (.valueError s!"Empty identifier in '{name}'") := by
    intro name entries hne h
    induction entries with
    | nil => exact absurd rfl hne
    | cons entry entries ih =>
      have hentry := h entry List.mem_cons_self
      by_cases hlast : entries = []
      · subst hlast
        rw [joinNames_singleton, ← List.append_nil (writeName entry).toList, splitLoop_writeName hentry, List.nil_append,
          splitLoop, if_neg Bool.false_ne_true, takePart_eq]
        by_cases hempty : strip entry.2.toList = []
        · simp [hempty, Except.map]
        · simp [hempty, Except.map]
      · have hrest := ih hlast fun entry hmem => h entry (List.mem_cons_of_mem _ hmem)
        rw [toList_joinNames_cons entry hlast, splitLoop_writeName hentry, List.nil_append, splitLoop, if_neg (by decide),
          if_pos (by decide), takePart_eq, hrest]
        by_cases hempty : strip entry.2.toList = []
        · have hnot : ¬ ∀ entry' ∈ entry :: entries, strip entry'.2.toList ≠ [] :=
            fun hall => hall entry List.mem_cons_self hempty
          rw [if_pos hempty, if_neg hnot]
          rfl
        · by_cases hall : ∀ entry ∈ entries, strip entry.2.toList ≠ []
          · have hboth : ∀ entry' ∈ entry :: entries, strip entry'.2.toList ≠ [] := List.forall_mem_cons.mpr ⟨hempty, hall⟩
            rw [if_neg hempty, if_pos hall, if_pos hboth]
            rfl
          · have hnot : ¬ ∀ entry' ∈ entry :: entries, strip entry'.2.toList ≠ [] :=
              fun h => hall (List.forall_mem_cons.mp h).2
            rw [if_neg hempty, if_neg hall, if_neg hnot]
            rfl
  exact hloop (joinNames entries) entries hne h

/-- Names that no blank ends are the same in quotes and without. -/
theorem split_joinNames_eq (hne : entries ≠ []) (h : ∀ entry ∈ entries, Writable entry)
    (hstrip : ∀ entry ∈ entries, entry.2 ≠ "" ∧ strip entry.2.toList = entry.2.toList) :
    split (joinNames entries) = .ok (entries.map Prod.snd) := by
  have hnonempty : ∀ entry ∈ entries, strip entry.2.toList ≠ [] := by
    intro entry hmem hempty
    obtain ⟨hname, heq⟩ := hstrip entry hmem
    exact hname (String.toList_eq_nil_iff.mp (heq ▸ hempty))
  rw [split_joinNames hne h, if_pos hnonempty]
  congr 1
  apply List.map_congr_left
  intro entry hmem
  rw [(hstrip entry hmem).2, String.ofList_toList]

/-! ## What is accepted -/

/-- An accepted text has closed all quotes, and every part has characters. -/
theorem splitLoop_inv {name : String} {current rest : List Char} {inQuote : Bool} {parts : List String}
    (h : splitLoop name current inQuote rest = .ok parts) :
    (rest.count '"' + inQuote.toNat) % 2 = 0 ∧ ∀ part ∈ parts, part ≠ "" := by
  induction rest generalizing current inQuote parts with
  | nil =>
    rw [splitLoop] at h
    split at h
    · cases h
    · case isFalse hclosed =>
        obtain ⟨part, hpart, rfl⟩ := Except.map_eq_ok.mp h
        rw [Bool.not_eq_true] at hclosed
        subst hclosed
        exact ⟨rfl, fun part' hmem => List.mem_singleton.mp hmem ▸ takePart_ne hpart⟩
  | cons ch rest ih =>
    rw [splitLoop] at h
    split at h
    · case isTrue hquote =>
        obtain ⟨hcount, hparts⟩ := ih h
        subst hquote
        refine ⟨?_, hparts⟩
        cases inQuote <;> simp at hcount ⊢ <;> omega
    · case isFalse hquote =>
        rw [List.count_cons_of_ne hquote]
        split at h
        · obtain ⟨part, hpart, h⟩ := Except.bind_eq_ok.mp h
          obtain ⟨parts', hparts', h⟩ := Except.bind_eq_ok.mp h
          cases Except.ok.inj h
          obtain ⟨hcount, hne⟩ := ih hparts'
          exact ⟨hcount, List.forall_mem_cons.mpr ⟨takePart_ne hpart, hne⟩⟩
        · exact ih h

/-! ## Identifiers -/

/-- `DBIdentifier`. -/
structure DBIdentifier where
  db : String
  catalog : Option String
  deriving DecidableEq

section Identifiers

variable [Casefold]

/-- `DBIdentifier.from_string`. -/
def DBIdentifier.fromString (fullName : String) : Except CatalogException DBIdentifier := do
  match ← split fullName with
  | [db] => .ok ⟨normalizeObjectName db, none⟩
  | [catalog, db] => .ok ⟨normalizeObjectName db, some (normalizeObjectName catalog)⟩
  | parts => .error (.validationError s!"Invalid database name '{fullName}': expected 1 or 2 parts, got {parts.length}")

/-- The table with some names in their positions. -/
def TableIdentifier.ofNames : List String → Option TableIdentifier
  | [table] => some ⟨table, none, none⟩
  | [db, table] => some ⟨table, some db, none⟩
  | [catalog, db, table] => some ⟨table, some db, some catalog⟩
  | _ => none

/-- The database with some names in their positions. -/
def DBIdentifier.ofNames : List String → Option DBIdentifier
  | [db] => some ⟨db, none⟩
  | [catalog, db] => some ⟨db, some catalog⟩
  | _ => none

variable {fullName : String}

theorem TableIdentifier.fromString_toOption {parts : List String} (h : split fullName = .ok parts) :
    (fromString fullName).toOption = ofNames (parts.map normalizeObjectName) := by
  unfold fromString
  rw [h]
  match parts with
  | [] | [_] | [_, _] | [_, _, _] | _ :: _ :: _ :: _ :: _ => rfl

theorem DBIdentifier.fromString_toOption {parts : List String} (h : split fullName = .ok parts) :
    (fromString fullName).toOption = ofNames (parts.map normalizeObjectName) := by
  unfold fromString
  rw [h]
  match parts with
  | [] | [_] | [_, _] | _ :: _ :: _ :: _ => rfl

theorem TableIdentifier.fromString_of_error {e : CatalogException} (h : split fullName = .error e) :
    (fromString fullName).toOption = none := by
  unfold fromString
  rw [h]
  rfl

theorem DBIdentifier.fromString_of_error {e : CatalogException} (h : split fullName = .error e) :
    (fromString fullName).toOption = none := by
  unfold fromString
  rw [h]
  rfl

variable {names : List String}

omit [Casefold] in
theorem TableIdentifier.ofNames_isSome (hne : names ≠ []) (hlength : names.length ≤ 3) :
    ofNames names ≠ none := by
  match names, hlength with
  | [], _ => exact absurd rfl hne
  | [_], _ | [_, _], _ | [_, _, _], _ => exact nofun

omit [Casefold] in
theorem DBIdentifier.ofNames_isSome (hne : names ≠ []) (hlength : names.length ≤ 2) :
    ofNames names ≠ none := by
  match names, hlength with
  | [], _ => exact absurd rfl hne
  | [_], _ | [_, _], _ => exact nofun

omit [Casefold] in
theorem TableIdentifier.ofNames_inj {names' : List String} (hsome : ofNames names ≠ none)
    (h : ofNames names = ofNames names') : names = names' := by
  unfold ofNames at h hsome
  split at h <;> split at h <;> simp_all

omit [Casefold] in
theorem DBIdentifier.ofNames_inj {names' : List String} (hsome : ofNames names ≠ none)
    (h : ofNames names = ofNames names') : names = names' := by
  unfold ofNames at h hsome
  split at h <;> split at h <;> simp_all

/-! ## The round trip -/

omit [Casefold] in
/-- Text is what it is stripped to, with blanks around it. -/
theorem exists_strip (text : List Char) : ∃ before after, text = before ++ strip text ++ after := by
  obtain ⟨after, hafter⟩ := List.rdropWhile_prefix isSpace (text.dropWhile isSpace)
  refine ⟨text.takeWhile isSpace, after, ?_⟩
  rw [List.append_assoc, strip, hafter, List.takeWhile_append_dropWhile]

/-- If every character is folded to some, no blank is lost under the folding. -/
theorem casefold_strip_iff {fold : Char → List Char} (hfold : ∀ s, casefold s = String.ofList (s.toList.flatMap fold))
    (hne : ∀ c, fold c ≠ []) (name : String) :
    casefold (String.ofList (strip name.toList)) = casefold name ↔ strip name.toList = name.toList := by
  constructor
  · intro h
    obtain ⟨before, after, htext⟩ := exists_strip name.toList
    rw [hfold, hfold, String.toList_ofList, String.ofList_inj] at h
    generalize strip name.toList = stripped at h htext
    have hempty : ∀ text : List Char, (text.flatMap fold).length = 0 → text = [] := by
      intro text hlength
      cases text with
      | nil => rfl
      | cons c text =>
        rw [List.flatMap_cons, List.length_append] at hlength
        exact absurd (List.length_eq_zero_iff.mp (Nat.eq_zero_of_add_eq_zero_right hlength)) (hne c)
    have hlength := congrArg List.length h
    rw [htext, List.flatMap_append, List.flatMap_append, List.length_append, List.length_append] at hlength
    have hbefore := hempty before (by omega)
    have hafter := hempty after (by omega)
    rw [htext, hbefore, hafter, List.nil_append, List.append_nil]
  · intro h
    rw [h, String.ofList_toList]

omit [Casefold] in
theorem split_qualify (hne : names ≠ []) (hquotes : ∀ name ∈ names, '"' ∉ name.toList) :
    split (qualify names) =
      if ∀ name ∈ names, strip name.toList ≠ [] then .ok (names.map fun name => String.ofList (strip name.toList))
      else .error (.valueError s!"Empty identifier in '{qualify names}'") := by
  have hentries : names.map (Prod.mk true) ≠ [] := fun h => hne (List.map_eq_nil_iff.mp h)
  have hwritable : ∀ entry ∈ names.map (Prod.mk true), Writable entry := by
    intro entry hmem
    obtain ⟨name, hname, rfl⟩ := List.mem_map.mp hmem
    exact ⟨hquotes name hname, .inl rfl⟩
  rw [qualify, split_joinNames hentries hwritable, List.map_map]
  simp only [List.forall_mem_map]
  rfl

omit [Casefold] in
theorem strip_of_noSpace {text : List Char} (h : ∀ c ∈ text, isSpace c = false) : strip text = text := by
  have hdrop : text.dropWhile isSpace = text := by
    cases text with
    | nil => rfl
    | cons c text => rw [List.dropWhile_cons, h c List.mem_cons_self, if_neg Bool.false_ne_true]
  rw [strip, hdrop, List.rdropWhile_eq_self_iff]
  intro hne hlast
  exact Bool.false_ne_true ((h _ (List.getLast_mem hne)).symm.trans hlast)

omit [Casefold] in
/-- Plain names are the same names with any of them in quotes. -/
theorem split_of_plain {entries : List (Bool × String)} (hne : entries ≠ [])
    (h : ∀ entry ∈ entries, entry.2 ≠ "" ∧ ∀ c ∈ entry.2.toList, c ≠ '"' ∧ c ≠ '.' ∧ isSpace c = false) :
    split (joinNames entries) = .ok (entries.map Prod.snd) ∧
      split (qualify (entries.map Prod.snd)) = .ok (entries.map Prod.snd) := by
  have hplain : ∀ entry ∈ entries, ∀ quoted, Writable (quoted, entry.2) ∧ entry.2 ≠ "" ∧
      strip entry.2.toList = entry.2.toList := by
    intro entry hmem quoted
    obtain ⟨hname, hchars⟩ := h entry hmem
    have hwritable : Writable (quoted, entry.2) :=
      ⟨fun hc => (hchars _ hc).1 rfl, .inr fun hc => (hchars _ hc).2.1 rfl⟩
    exact ⟨hwritable, hname, strip_of_noSpace fun c hc => (hchars c hc).2.2⟩
  constructor
  · exact split_joinNames_eq hne (fun entry hmem => (hplain entry hmem entry.1).1) fun entry hmem => (hplain entry hmem true).2
  · have hquotedNe : (entries.map Prod.snd).map (Prod.mk true) ≠ [] := by simpa using hne
    have hquoted : ∀ entry ∈ (entries.map Prod.snd).map (Prod.mk true), Writable entry ∧ entry.2 ≠ "" ∧
        strip entry.2.toList = entry.2.toList := by
      simp only [List.map_map, List.forall_mem_map]
      exact fun entry hmem => hplain entry hmem true
    rw [qualify, split_joinNames_eq hquotedNe (fun entry hmem => (hquoted entry hmem).1) fun entry hmem => (hquoted entry hmem).2,
      List.map_map, List.map_map]
    rfl

/-- Names in quotes are read as they are exactly if stripping leaves them. -/
theorem roundTrip_iff {fold : Char → List Char} (hfold : ∀ s, casefold s = String.ofList (s.toList.flatMap fold))
    (hfoldNe : ∀ c, fold c ≠ []) {α : Type} {fromString : String → Except CatalogException α} {ofNames : List String → Option α}
    (hok : ∀ {fullName parts}, split fullName = .ok parts →
      (fromString fullName).toOption = ofNames (parts.map normalizeObjectName))
    (herror : ∀ {fullName e}, split fullName = .error e → (fromString fullName).toOption = none)
    (hinj : ∀ {names names'}, ofNames names ≠ none → ofNames names = ofNames names' → names = names')
    (hne : names ≠ []) (hnames : ∀ name ∈ names, name ≠ "" ∧ '"' ∉ name.toList)
    (hsome : ofNames (names.map casefold) ≠ none) :
    (fromString (qualify names)).toOption = ofNames (names.map casefold) ↔ ∀ name ∈ names, strip name.toList = name.toList := by
  have hsplit := split_qualify hne fun name hname => (hnames name hname).2
  by_cases hnonempty : ∀ name ∈ names, strip name.toList ≠ []
  · rw [if_pos hnonempty] at hsplit
    rw [hok hsplit, List.map_map]
    constructor
    · intro h name hname
      have hparts := hinj hsome h.symm
      exact (casefold_strip_iff hfold hfoldNe name).mp (List.map_inj_left.mp hparts name hname).symm
    · intro h
      congr 1
      apply List.map_congr_left
      intro name hname
      exact (casefold_strip_iff hfold hfoldNe name).mpr (h name hname)
  · rw [if_neg hnonempty] at hsplit
    rw [herror hsplit]
    refine iff_of_false (fun h => hsome h.symm) fun h => hnonempty fun name hname hempty => ?_
    exact (hnames name hname).1 (String.toList_eq_nil_iff.mp ((h name hname).symm.trans hempty))

/-- **Names in quotes that are joined are read as they are, exactly if no blank begins or ends them. Without dots and blanks,
    quotes make no difference, and what is accepted has its quotes closed and no empty part.** -/
theorem qualifiedNames_iff {fold : Char → List Char} (hfold : ∀ s, casefold s = String.ofList (s.toList.flatMap fold))
    (hfoldNe : ∀ c, fold c ≠ []) :
    (∀ names : List String, names ≠ [] → (∀ name ∈ names, name ≠ "" ∧ '"' ∉ name.toList) →
      (names.length ≤ 3 → ((TableIdentifier.fromString (qualify names)).toOption = TableIdentifier.ofNames (names.map casefold) ↔
        ∀ name ∈ names, strip name.toList = name.toList)) ∧
      (names.length ≤ 2 → ((DBIdentifier.fromString (qualify names)).toOption = DBIdentifier.ofNames (names.map casefold) ↔
        ∀ name ∈ names, strip name.toList = name.toList))) ∧
    (∀ entries : List (Bool × String), entries ≠ [] →
      (∀ entry ∈ entries, entry.2 ≠ "" ∧ ∀ c ∈ entry.2.toList, c ≠ '"' ∧ c ≠ '.' ∧ isSpace c = false) →
      (TableIdentifier.fromString (joinNames entries)).toOption =
          (TableIdentifier.fromString (qualify (entries.map Prod.snd))).toOption ∧
        (DBIdentifier.fromString (joinNames entries)).toOption =
          (DBIdentifier.fromString (qualify (entries.map Prod.snd))).toOption) ∧
    ∀ name parts, split name = .ok parts → name.toList.count '"' % 2 = 0 ∧ ∀ part ∈ parts, part ≠ "" := by
  refine ⟨?_, ?_, ?_⟩
  · intro names hne hnames
    have hmap : names.map casefold ≠ [] := fun h => hne (List.map_eq_nil_iff.mp h)
    constructor
    · intro hlength
      have hsome := TableIdentifier.ofNames_isSome hmap (by rwa [List.length_map])
      exact roundTrip_iff hfold hfoldNe TableIdentifier.fromString_toOption TableIdentifier.fromString_of_error
        TableIdentifier.ofNames_inj hne hnames hsome
    · intro hlength
      have hsome := DBIdentifier.ofNames_isSome hmap (by rwa [List.length_map])
      exact roundTrip_iff hfold hfoldNe DBIdentifier.fromString_toOption DBIdentifier.fromString_of_error
        DBIdentifier.ofNames_inj hne hnames hsome
  · intro entries hne hentries
    obtain ⟨hjoined, hqualified⟩ := split_of_plain hne hentries
    rw [TableIdentifier.fromString_toOption hjoined, TableIdentifier.fromString_toOption hqualified,
      DBIdentifier.fromString_toOption hjoined, DBIdentifier.fromString_toOption hqualified]
    exact ⟨rfl, rfl⟩
  · intro name parts h
    simpa using splitLoop_inv h

end Identifiers

section Examples

attribute [local instance] asciiCasefold

/-- Blanks inside a name are kept. -/
theorem salesTable_roundTrip :
    (TableIdentifier.fromString (qualify ["Sales", "my table"])).toOption =
      TableIdentifier.ofNames (["Sales", "my table"].map casefold) :=
  (((qualifiedNames_iff (fun s => congrArg String.ofList (List.map_eq_flatMap ..)) fun c => List.cons_ne_nil c.toLower []).1
    ["Sales", "my table"] (by decide) (by decide)).1 (by decide)).mpr (by decide)

/-- A blank at the end of a name is lost in quotes, too. -/
theorem blankName_not_roundTrip :
    (TableIdentifier.fromString (qualify ["a "])).toOption ≠ TableIdentifier.ofNames (["a "].map casefold) := by
  decide

end Examples

end Catalog

end Fenic
