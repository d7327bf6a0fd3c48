import Fenic.Mcp.TypeInference
import Fenic.Lib.PartialJoin
import Fenic.Lib.Rows
import Mathlib.Data.String.Basic

/-!
# `TypeInference.Supertype` — the common supertype of two types

`_find_common_supertype` gives the first type back when the types are equal, and only then it keeps the order of struct
fields; otherwise it merges the fields in the order of their names. `join` is what it returns, where it does not raise.

`IsMerge` describes the merge of two structs by what it has under each name. Two merges with the same names and types are
equal, since both are sorted (`sorted_ext`), unless nothing had to be merged.
-/

namespace Fenic

namespace TypeInference

open Mcp

abbrev Fields := List (String × DataType)

/-! ## Induction over types -/

mutual

/-- Induction over types, where a struct has the hypothesis for each of its fields. -/
theorem type_induction {P : DataType → Prop} (atom : ∀ t, (∀ s, t ≠ .arrayType s) → (∀ fields, t ≠ .structType fields) → P t)
    (array : ∀ t, P t → P (.arrayType t))
    (struct : ∀ fields : Fields, (∀ n t, fields.lookup n = some t → P t) → P (.structType fields)) : ∀ t, P t
  | .arrayType t => array t (type_induction atom array struct t)
  | .structType fields => struct fields (fields_induction atom array struct fields)
  | .stringType => atom _ nofun nofun
  | .integerType => atom _ nofun nofun
  | .floatType => atom _ nofun nofun
  | .doubleType => atom _ nofun nofun
  | .booleanType => atom _ nofun nofun
  | .dateType => atom _ nofun nofun
  | .timestampType => atom _ nofun nofun
  | .embeddingType _ _ => atom _ nofun nofun
  | .markdownType => atom _ nofun nofun
  | .htmlType => atom _ nofun nofun
  | .jsonType => atom _ nofun nofun
  | .transcriptType _ => atom _ nofun nofun
  | .documentPathType _ => atom _ nofun nofun

theorem fields_induction {P : DataType → Prop} (atom : ∀ t, (∀ s, t ≠ .arrayType s) → (∀ fields, t ≠ .structType fields) → P t)
    (array : ∀ t, P t → P (.arrayType t))
    (struct : ∀ fields : Fields, (∀ n t, fields.lookup n = some t → P t) → P (.structType fields)) :
    ∀ (fields : Fields) (n : String) (t : DataType), fields.lookup n = some t → P t
  | [], _, _, h => nomatch h
  | (name, s) :: fields, n, t, h => by
    rw [List.lookup_cons] at h
    split at h
    · cases h
      exact type_induction atom array struct s
    · exact fields_induction atom array struct fields n t h

end

/-! ## Sorted fields -/

def Sorted (fields : Fields) : Prop := fields.Pairwise fun a b => a.1 < b.1

variable {n : String}

theorem lookup_cons_ne {name : String} (h : n ≠ name) (t : DataType) (fields : Fields) :
    ((name, t) :: fields).lookup n = fields.lookup n := by
  rw [List.lookup_cons, beq_eq_false_iff_ne.mpr h]

/-- Names before the first one are not there. -/
theorem lookup_of_lt {fields : Fields} (h : ∀ field ∈ fields, n < field.1) : fields.lookup n = none := by
  rw [List.lookup_eq_none_iff]
  intro field hfield
  exact bne_iff_ne.mpr (ne_of_lt (h field hfield))

variable {f g : Fields}

/-- **Sorted fields are known by what stands under each name.** -/
theorem sorted_ext (hf : Sorted f) (hg : Sorted g) (h : ∀ n, f.lookup n = g.lookup n) : f = g := by
  induction f generalizing g with
  | nil =>
    cases g with
    | nil => rfl
    | cons field g =>
      obtain ⟨name, t⟩ := field
      have hname := h name
      rw [List.lookup_cons_self] at hname
      cases hname
  | cons field f ih =>
    obtain ⟨name, t⟩ := field
    obtain ⟨hfirst, hfrest⟩ := List.pairwise_cons.mp hf
    cases g with
    | nil =>
      have hname := h name
      rw [List.lookup_cons_self] at hname
      cases hname
    | cons field' g =>
      obtain ⟨name', t'⟩ := field'
      obtain ⟨hfirst', hgrest⟩ := List.pairwise_cons.mp hg
      have heq : name = name' := by
        rcases lt_trichotomy name name' with hlt | heq | hlt
        · have hname := h name
          rw [List.lookup_cons_self, lookup_cons_ne hlt.ne, lookup_of_lt fun field hfield => hlt.trans (hfirst' field hfield)]
            at hname
          cases hname
        · exact heq
        · have hname := h name'
          rw [List.lookup_cons_self, lookup_cons_ne hlt.ne, lookup_of_lt fun field hfield => hlt.trans (hfirst field hfield)]
            at hname
          cases hname
      subst heq
      have htype := h name
      rw [List.lookup_cons_self, List.lookup_cons_self] at htype
      cases htype
      refine congrArg _ (ih hfrest hgrest fun n => ?_)
      by_cases hn : n = name
      · rw [hn, lookup_of_lt hfirst, lookup_of_lt hfirst']
      · have hrest := h n
        rwa [lookup_cons_ne hn, lookup_cons_ne hn] at hrest

theorem sorted_of_names {fields : Fields} (h : fields.map Prod.fst = fieldNames f g) : Sorted fields := by
  have hnodup : (fieldNames f g).Nodup := (List.perm_insertionSort _ _).nodup_iff.mpr (List.nodup_dedup _)
  have hle : (fieldNames f g).Pairwise (· ≤ ·) := List.pairwise_insertionSort _ _
  have hlt : (fieldNames f g).Pairwise (· < ·) := (hle.and hnodup).imp fun ⟨hle, hne⟩ => lt_of_le_of_ne hle hne
  rw [← h] at hlt
  exact List.pairwise_map.mp hlt

theorem mem_fieldNames : n ∈ fieldNames f g ↔ n ∈ f.map Prod.fst ∨ n ∈ g.map Prod.fst := by
  rw [fieldNames, List.mem_insertionSort, List.mem_dedup, List.mem_append]

/-! ## Fields -/

/-- What is under a name in the merge, given what is under it on the two sides: a field of one side is taken over. -/
def fieldJoin (op : DataType → DataType → Option DataType) : Option DataType → Option DataType → Option (Option DataType)
  | some s, some t => (op s t).map some
  | some s, none => some (some s)
  | none, t => some t

/-- `_find_common_supertype`, where it does not raise. -/
def join (s t : DataType) : Option DataType := (findCommonSupertype "" s t).toOption

theorem commonFieldType_eq (path : String) (f g : Fields) (n : String) :
    commonFieldType path f g n =
      match f.lookup n, g.lookup n with
      | some s, some t => findCommonSupertype (fieldPath path n) s t
      | some s, none => .ok s
      | none, some t => .ok t
      | none, none => .error (typeInferenceError "" path) := by
  induction f with
  | nil =>
    rw [commonFieldType]
    cases g.lookup n <;> rfl
  | cons field f ih =>
    obtain ⟨name, s⟩ := field
    rw [commonFieldType]
    by_cases hname : name = n
    · subst hname
      rw [if_pos rfl, List.lookup_cons_self]
      cases g.lookup name <;> rfl
    · rw [if_neg hname, ih, lookup_cons_ne (Ne.symm hname)]

theorem toOption_eq_some {ε α : Type} {x : Except ε α} {a : α} : x.toOption = some a ↔ x = .ok a := by
  cases x with
  | error e => exact ⟨nofun, nofun⟩
  | ok b => exact ⟨fun h => congrArg Except.ok (Option.some.inj h), fun h => congrArg some (Except.ok.inj h)⟩

/-- What is merged under the names of a list. -/
theorem merged_lookup {h : String → Except McpError DataType} {names : List String} {m : Fields}
    (hm : names.mapM (fun n => (h n).map fun t => (n, t)) = .ok m) :
    m.map Prod.fst = names ∧ (∀ n ∈ names, ∃ t, h n = .ok t ∧ m.lookup n = some t) ∧ ∀ n, n ∉ names → m.lookup n = none := by
  have hall := Except.mapM_eq_ok.mp hm
  clear hm
  induction hall with
  | nil => exact ⟨rfl, nofun, fun _ _ => rfl⟩
  | @cons name field names m hfield _ ih =>
    obtain ⟨t, ht, rfl⟩ := Except.map_eq_ok.mp hfield
    obtain ⟨hnames, hin, hout⟩ := ih
    refine ⟨congrArg _ hnames, fun n hn => ?_, fun n hn => ?_⟩
    · by_cases heq : n = name
      · subst heq
        exact ⟨t, ht, List.lookup_cons_self⟩
      · rw [lookup_cons_ne heq]
        exact hin n ((List.mem_cons.mp hn).resolve_left heq)
    · rw [List.mem_cons, not_or] at hn
      rw [lookup_cons_ne hn.1]
      exact hout n hn.2

mutual

/-- The path is for the messages only. -/
theorem findCommonSupertype_path : ∀ (s : DataType) (path path' : String) (t u : DataType),
    findCommonSupertype path s t = .ok u → findCommonSupertype path' s t = .ok u
  | s, path, path', t, u, h => by
    unfold findCommonSupertype at h ⊢
    split at h
    next heq => rw [if_pos heq]; exact h
    next hne =>
      rw [if_neg hne]
      split at h
      next => exact h
      next =>
        split at h
        next _ v v' _ =>
            obtain ⟨w, hw, rfl⟩ := Except.map_eq_ok.mp h
            exact Except.map_eq_ok.mpr ⟨w, findCommonSupertype_path v path path' v' w hw, rfl⟩
        next _ f g _ =>
            obtain ⟨m, hm, rfl⟩ := Except.map_eq_ok.mp h
            refine Except.map_eq_ok.mpr ⟨m, Except.mapM_eq_ok.mpr ?_, rfl⟩
            refine (Except.mapM_eq_ok.mp hm).imp fun n field hfield => ?_
            obtain ⟨w, hw, rfl⟩ := Except.map_eq_ok.mp hfield
            exact Except.map_eq_ok.mpr ⟨w, commonFieldType_path f path path' g n w hw, rfl⟩
        next => cases h

theorem commonFieldType_path : ∀ (f : Fields) (path path' : String) (g : Fields) (n : String) (u : DataType),
    commonFieldType path f g n = .ok u → commonFieldType path' f g n = .ok u
  | [], path, path', g, n, u, h => by
    unfold commonFieldType at h ⊢
    split at h
    next => exact h
    next => cases h
  | (name, s) :: f, path, path', g, n, u, h => by
    unfold commonFieldType at h ⊢
    split at h
    next hname =>
      rw [if_pos hname]
      split at h
      next t _ => exact findCommonSupertype_path s _ _ t u h
      next => exact h
    next hname =>
      rw [if_neg hname]
      exact commonFieldType_path f path path' g n u h

end

variable {s t u : DataType}

theorem findCommonSupertype_eq_ok {path : String} :
    findCommonSupertype path s t = .ok u ↔ join s t = some u := by
  rw [join, toOption_eq_some]
  exact ⟨findCommonSupertype_path s path "" t u, findCommonSupertype_path s "" path t u⟩

/-! ## The cases of a join -/

theorem join_self (t : DataType) : join t t = some t := by
  have hself : findCommonSupertype "" t t = .ok t := by
    unfold findCommonSupertype
    exact if_pos rfl
  exact findCommonSupertype_eq_ok.mp hself

theorem join_numeric {i j : Nat} (hs : numericIndex s = some i) (ht : numericIndex t = some j) :
    join s t = some (if i < j then t else s) := by
  by_cases heq : s = t
  · subst heq
    rw [join_self, ite_self]
  · have hmax : findCommonSupertype "" s t = .ok (if i < j then t else s) := by
      unfold findCommonSupertype
      rw [if_neg heq, hs, ht]
    exact findCommonSupertype_eq_ok.mp hmax

theorem join_array (s t : DataType) : join (.arrayType s) (.arrayType t) = (join s t).map .arrayType := by
  by_cases heq : s = t
  · subst heq
    rw [join_self, join_self]
    rfl
  · have hne : DataType.arrayType s ≠ .arrayType t := fun h => heq (DataType.arrayType.inj h)
    rw [join, findCommonSupertype, if_neg hne]
    show ((findCommonSupertype "" s t).map DataType.arrayType).toOption = (findCommonSupertype "" s t).toOption.map _
    cases findCommonSupertype "" s t <;> rfl

/-- The merge of two structs. -/
structure IsMerge (f g m : Fields) : Prop where
  order : (f = g ∧ m = f) ∨ Sorted m
  lookup (n : String) : fieldJoin join (f.lookup n) (g.lookup n) = some (m.lookup n)

theorem fieldJoin_self (x : Option DataType) : fieldJoin join x x = some x := by
  cases x with
  | none => rfl
  | some t =>
    show (join t t).map some = _
    rw [join_self]
    rfl

theorem commonFieldType_eq_ok {path : String}
    (hn : n ∈ f.map Prod.fst ∨ n ∈ g.map Prod.fst) :
    commonFieldType path f g n = .ok u ↔ fieldJoin join (f.lookup n) (g.lookup n) = some (some u) := by
  rw [commonFieldType_eq]
  cases hf : f.lookup n with
  | some s =>
    cases hg : g.lookup n with
    | some t =>
      show findCommonSupertype _ s t = _ ↔ (join s t).map some = _
      rw [findCommonSupertype_eq_ok, Option.map_eq_some_iff]
      exact ⟨fun h => ⟨u, h, rfl⟩, fun ⟨v, hv, heq⟩ => by rw [hv, heq]⟩
    | none => exact ⟨fun h => by cases h; rfl, fun h => by cases h; rfl⟩
  | none =>
    cases hg : g.lookup n with
    | some t => exact ⟨fun h => by cases h; rfl, fun h => by cases h; rfl⟩
    | none =>
      rcases hn with hn | hn
      · exact absurd hn (Rows.not_mem_of_lookup hf)
      · exact absurd hn (Rows.not_mem_of_lookup hg)

theorem join_struct (hne : f ≠ g) :
    join (.structType f) (.structType g) =
      (((fieldNames f g).mapM fun n => (commonFieldType "" f g n).map fun t => (n, t)).map .structType).toOption := by
  have hne' : DataType.structType f ≠ .structType g := fun h => hne (DataType.structType.inj h)
  rw [join, findCommonSupertype, if_neg hne']
  rfl

/-- A join with a struct is a merge with a struct. -/
theorem isMerge_of_join (h : join (.structType f) (.structType g) = some u) :
    ∃ m, u = .structType m ∧ IsMerge f g m := by
  by_cases heq : f = g
  · subst heq
    rw [join_self] at h
    cases h
    exact ⟨f, rfl, Or.inl ⟨rfl, rfl⟩, fun n => fieldJoin_self _⟩
  · rw [join_struct heq, toOption_eq_some] at h
    obtain ⟨m, hm, rfl⟩ := Except.map_eq_ok.mp h
    obtain ⟨hnames, hin, hout⟩ := merged_lookup hm
    refine ⟨m, rfl, Or.inr (sorted_of_names hnames), fun n => ?_⟩
    by_cases hn : n ∈ fieldNames f g
    · obtain ⟨t, ht, hlookup⟩ := hin n hn
      rw [hlookup]
      exact (commonFieldType_eq_ok (mem_fieldNames.mp hn)).mp ht
    · rw [hout n hn]
      rw [mem_fieldNames, not_or] at hn
      have hnone : ∀ {fields : Fields}, n ∉ fields.map Prod.fst → fields.lookup n = none := by
        intro fields hfields
        by_contra hsome
        obtain ⟨t, ht⟩ := Option.ne_none_iff_exists'.mp hsome
        exact hfields (List.mem_map_of_mem (Rows.mem_of_lookup ht))
      rw [hnone hn.1, hnone hn.2]
      rfl

/-- Two structs whose fields can be joined can be. -/
theorem exists_join_struct (h : ∀ n, fieldJoin join (f.lookup n) (g.lookup n) ≠ none) :
    ∃ m, join (.structType f) (.structType g) = some (.structType m) ∧ IsMerge f g m := by
  suffices hjoin : ∃ u, join (.structType f) (.structType g) = some u by
    obtain ⟨u, hu⟩ := hjoin
    obtain ⟨m, rfl, hm⟩ := isMerge_of_join hu
    exact ⟨m, hu, hm⟩
  by_cases heq : f = g
  · exact ⟨.structType f, by rw [← heq, join_self]⟩
  · rw [join_struct heq]
    have hall : ∃ m, (fieldNames f g).mapM (fun n => (commonFieldType "" f g n).map fun t => (n, t)) = .ok m := by
      refine Except.exists_mapM_eq_ok.mpr fun n hn => ?_
      have hn' := mem_fieldNames.mp hn
      obtain ⟨x, hx⟩ := Option.ne_none_iff_exists'.mp (h n)
      cases x with
      | some u => exact ⟨(n, u), Except.map_eq_ok.mpr ⟨u, (commonFieldType_eq_ok hn').mpr hx, rfl⟩⟩
      | none =>
        -- a field of either side is a field of the merge
        exfalso
        rcases hn' with hmem | hmem
        · obtain ⟨s, hs⟩ := Rows.exists_lookup hmem
          rw [hs] at hx
          cases hg : g.lookup n with
          | none => rw [hg] at hx; cases hx
          | some t =>
            rw [hg] at hx
            obtain ⟨u, -, hu⟩ := Option.map_eq_some_iff.mp hx
            cases hu
        · obtain ⟨t, ht⟩ := Rows.exists_lookup hmem
          rw [ht] at hx
          cases hf : f.lookup n with
          | none => rw [hf] at hx; cases hx
          | some s =>
            rw [hf] at hx
            obtain ⟨u, -, hu⟩ := Option.map_eq_some_iff.mp hx
            cases hu
    obtain ⟨m, hm⟩ := hall
    rw [hm]
    exact ⟨_, rfl⟩

/-- What can be joined is of one kind, and so is the join. -/
def kind : DataType → DataType
  | .integerType => .integerType
  | .floatType => .integerType
  | .doubleType => .integerType
  | .arrayType _ => .arrayType .stringType
  | .structType _ => .structType []
  | t => t

theorem kind_of_join (h : join s t = some u) : kind u = kind s ∧ kind u = kind t := by
  replace h : findCommonSupertype "" s t = .ok u := findCommonSupertype_eq_ok.mpr h
  unfold findCommonSupertype at h
  split at h
  next heq =>
      cases h
      exact ⟨rfl, congrArg kind heq⟩
  next =>
      split at h
      next i j hi hj =>
          have hnumeric : ∀ {v : DataType} {k : Nat}, numericIndex v = some k → kind v = .integerType := by
            intro v k hk
            cases v <;> first | rfl | cases hk
          cases h
          split
          · exact ⟨(hnumeric hj).trans (hnumeric hi).symm, rfl⟩
          · exact ⟨rfl, (hnumeric hi).trans (hnumeric hj).symm⟩
      next =>
          split at h
          · obtain ⟨v, -, rfl⟩ := Except.map_eq_ok.mp h
            exact ⟨rfl, rfl⟩
          · obtain ⟨m, -, rfl⟩ := Except.map_eq_ok.mp h
            exact ⟨rfl, rfl⟩
          · cases h

end TypeInference

end Fenic
