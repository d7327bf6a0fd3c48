import Fenic.Lib.JqContains
import Fenic.Lib.JsonDumps

/-!
# `Json.JsonContains` — searching JSON for a value

`JsonContainsExpr` builds a query of jq with the text of the search value in it, and `_convert_json_contains_expr` takes the
field `result` of its first output. `isMatch` are the matching rules that `json.contains` documents.

`follows_iff` says for which search values the query follows the rules. The query asks `contains` about objects, which goes by
substrings and by single elements below the fields of an object, where the rules ask for equality. A number that JSON has no
numeral for is written as a name that jq does not know.
-/

namespace Fenic
namespace JsonContains

open Jq JsonDumps

variable {N : Type}

/-- A JSON value: a document, or what `json.loads` makes of the search value. -/
structure Document (N : Type) where
  value : Value N
  distinct : value.Distinct

/-! ## The query -/

section Query

-- the numbers that `json.dumps` writes as numerals; it writes `NaN`, `Infinity` and `-Infinity` for the others
variable (isNumeral : N → Bool)

/-- What jq reads for a string that `json.dumps` wrote. -/
def stringProgram (s : String) : Option String :=
  match readString (dumpString s.toList).tail with
  | .text units [] => some (String.ofList (decodeUnits none units))
  | _ => none

/-- `[f, g, ..]`. -/
def arrayProgram : List (Jq.Filter N) → Jq.Filter N
  | [] => literal (.array [])
  | f :: fs => collect (fs.foldl comma f)

mutual

/-- The filter that the text of `json.dumps` is, if jq knows all names in it. -/
def program : Value N → Option (Jq.Filter N)
  | .null => some (literal .null)
  | .bool b => some (literal (.bool b))
  | .number n => if isNumeral n then some (literal (.number n)) else none
  | .string s => (stringProgram s).map fun s => literal (.string s)
  | .array items => (programItems items).map arrayProgram
  | .object fields => (programFields fields).map construct

def programItems : List (Value N) → Option (List (Jq.Filter N))
  | [] => some []
  | v :: items => do
    let f ← program v
    let fs ← programItems items
    return f :: fs

def programFields : List (String × Value N) → Option (List (String × Jq.Filter N))
  | [] => some []
  | (name, v) :: fields => do
    let name ← stringProgram name
    let f ← program v
    let fs ← programFields fields
    return (name, f) :: fs

end

variable [DecidableEq N]

/-- `any(..; (type == "object" and contains(J)) or (type != "object" and . == J))`. -/
def search (json : Jq.Filter N) : Jq.Filter N :=
  Jq.any Jq.recurse (disj
    (conj (equal typeFilter (literal (.string "object"))) (containsFilter json))
    (conj (notEqual typeFilter (literal (.string "object"))) (equal identity json)))

/-- `jq_query` of `JsonContainsExpr`. -/
def jqQuery (value : Value N) : Option (Jq.Filter N) :=
  (program isNumeral value).map fun json => construct [("result", search json)]

/-- `_convert_json_contains_expr` on a document: nothing where the query fails. -/
def convertJsonContains (value document : Value N) : Option Bool := do
  let query ← jqQuery isNumeral value
  let outputs ← query document
  match outputs.head? with
  | some (.object fields) =>
    match fields.lookup "result" with
    | some (.bool b) => some b
    | _ => none
  | _ => none

end Query

/-! ## The rules -/

section Rules

variable [DecidableEq N]

mutual

/-- An object matches an object that has all its fields with matching values; any other value matches an equal one. -/
def isMatch : Value N → Value N → Bool
  | .object fields, .object fields' => isMatchFields fields fields'
  | v, w => v.eq w

def isMatchFields : List (String × Value N) → List (String × Value N) → Bool
  | [], _ => true
  | (name, v) :: fields, fields' =>
    (match fields'.lookup name with
      | some w => isMatch v w
      | none => false) && isMatchFields fields fields'

end

/-- The search follows the rules: it gives an answer on every document, and finds the value exactly where some value in the
    document matches it. -/
def Follows (isNumeral : N → Bool) (value : Document N) : Prop :=
  ∀ document : Document N, ∃ b, convertJsonContains isNumeral value.value document.value = some b ∧
    (b = true ↔ ∃ w ∈ document.value.recurse, isMatch value.value w = true)

end Rules

mutual

/-- No string and no array is reached through fields of objects. -/
def isPlain : Value N → Bool
  | .string _ => false
  | .array _ => false
  | .object fields => isPlainFields fields
  | _ => true

def isPlainFields : List (String × Value N) → Bool
  | [] => true
  | (_, v) :: fields => isPlain v && isPlainFields fields

end

/-- The search values that are searched for by the rules. -/
structure Searchable (isNumeral : N → Bool) (value : Value N) : Prop where
  numerals : ∀ n, .number n ∈ value.recurse → isNumeral n = true
  plain : ∀ fields, value = .object fields → isPlain value = true

/-! ## What the text of a value is -/

theorem stringProgram_eq (s : String) : stringProgram s = some s := by
  obtain ⟨units, hread, hdecode⟩ := readString_dumped s.toList []
  have htail : (dumpString s.toList).tail = s.toList.flatMap escapeChar ++ '"' :: [] := rfl
  rw [stringProgram, htail, hread]
  simp [hdecode]

variable {fs : List (Jq.Filter N)} {v : Value N}

theorem foldl_comma {f : Jq.Filter N} {xs : List (Value N)} {ys : List (Value N)}
    (hf : f v = some xs) (hfs : List.Forall₂ (fun g y => g v = some [y]) fs ys) :
    fs.foldl comma f v = some (xs ++ ys) := by
  induction hfs generalizing f xs with
  | nil => simpa using hf
  | @cons g y _ _ hg _ ih =>
    have hcomma : comma f g v = some (xs ++ [y]) := by
      rw [comma, hf, hg]
      rfl
    rw [List.foldl_cons, ih hcomma]
    simp

theorem arrayProgram_eq {ys : List (Value N)}
    (h : List.Forall₂ (fun g y => g v = some [y]) fs ys) : arrayProgram fs v = some [.array ys] := by
  cases h with
  | nil => rfl
  | cons hf hfs =>
    rw [arrayProgram, collect, foldl_comma hf hfs]
    rfl

theorem construct_eq {fs : List (String × Jq.Filter N)} {fields : List (String × Value N)}
    (h : List.Forall₂ (fun g entry => g.1 = entry.1 ∧ g.2 v = some [entry.2]) fs fields) :
    construct fs v = some [.object fields] := by
  induction h with
  | nil => rfl
  | @cons g entry fs fields hhead _ ih =>
    obtain ⟨name, f⟩ := g
    obtain ⟨rfl, hf⟩ := hhead
    rw [construct, each_of_single hf, each_of_single ih]
    rfl

/-- The text is a filter that puts out the value, whatever it is given. -/
theorem program_eq_some {isNumeral : N → Bool} {value : Value N}
    (h : ∀ n, .number n ∈ value.recurse → isNumeral n = true) :
    ∃ f, program isNumeral value = some f ∧ ∀ v, f v = some [value] := by
  induction value using Value.induction with
  | null => exact ⟨_, rfl, fun _ => rfl⟩
  | bool b => exact ⟨_, rfl, fun _ => rfl⟩
  | number n =>
    have hn := h n (Value.self_mem_recurse _)
    exact ⟨literal (.number n), by rw [program, if_pos hn], fun _ => rfl⟩
  | string s => exact ⟨literal (.string s), by rw [program, stringProgram_eq, Option.map_some], fun _ => rfl⟩
  | array items ih =>
    have hitems : ∃ fs, programItems isNumeral items = some fs ∧
        ∀ v, List.Forall₂ (fun g y => g v = some [y]) fs items := by
      rw [Value.recurse_array] at h
      induction items with
      | nil => exact ⟨[], rfl, fun _ => .nil⟩
      | cons x items ihitems =>
        obtain ⟨f, hf, hfx⟩ := ih x List.mem_cons_self fun n hn =>
          h n (List.mem_cons_of_mem _ (List.mem_flatMap.mpr ⟨x, List.mem_cons_self, hn⟩))
        obtain ⟨fs, hfs, hfsx⟩ := ihitems (fun y hy => ih y (List.mem_cons_of_mem x hy)) fun n hn => by
          rcases List.mem_cons.mp hn with heq | hn
          · cases heq
          · obtain ⟨y, hy, hn⟩ := List.mem_flatMap.mp hn
            exact h n (List.mem_cons_of_mem _ (List.mem_flatMap.mpr ⟨y, List.mem_cons_of_mem x hy, hn⟩))
        refine ⟨f :: fs, ?_, fun v => .cons (hfx v) (hfsx v)⟩
        rw [programItems, hf, hfs]
        rfl
    obtain ⟨fs, hfs, hfsx⟩ := hitems
    exact ⟨_, by rw [program, hfs, Option.map_some], fun v => arrayProgram_eq (hfsx v)⟩
  | object fields ih =>
    have hfields : ∃ fs, programFields isNumeral fields = some fs ∧
        ∀ v, List.Forall₂ (fun g entry => g.1 = entry.1 ∧ g.2 v = some [entry.2]) fs fields := by
      rw [Value.recurse_object] at h
      induction fields with
      | nil => exact ⟨[], rfl, fun _ => .nil⟩
      | cons entry fields ihfields =>
        obtain ⟨f, hf, hfx⟩ := ih entry List.mem_cons_self fun n hn =>
          h n (List.mem_cons_of_mem _ (List.mem_flatMap.mpr ⟨entry, List.mem_cons_self, hn⟩))
        obtain ⟨fs, hfs, hfsx⟩ := ihfields (fun y hy => ih y (List.mem_cons_of_mem entry hy)) fun n hn => by
          rcases List.mem_cons.mp hn with heq | hn
          · cases heq
          · obtain ⟨y, hy, hn⟩ := List.mem_flatMap.mp hn
            exact h n (List.mem_cons_of_mem _ (List.mem_flatMap.mpr ⟨y, List.mem_cons_of_mem entry hy, hn⟩))
        obtain ⟨name, x⟩ := entry
        refine ⟨(name, f) :: fs, ?_, fun v => .cons ⟨rfl, hfx v⟩ (hfsx v)⟩
        rw [programFields, stringProgram_eq, hf, hfs]
        rfl
    obtain ⟨fs, hfs, hfsx⟩ := hfields
    exact ⟨_, by rw [program, hfs, Option.map_some], fun v => construct_eq (hfsx v)⟩

theorem exists_program_of_items {isNumeral : N → Bool} {items : List (Value N)}
    (h : programItems isNumeral items = some fs) : ∀ x ∈ items, ∃ f, program isNumeral x = some f := by
  induction items generalizing fs with
  | nil => exact fun x hx => absurd hx List.not_mem_nil
  | cons y items ih =>
    obtain ⟨f, hf, hrest⟩ := Option.bind_eq_some_iff.mp h
    obtain ⟨gs, hgs, -⟩ := Option.bind_eq_some_iff.mp hrest
    intro x hx
    rcases List.mem_cons.mp hx with rfl | hx
    · exact ⟨f, hf⟩
    · exact ih hgs x hx

theorem exists_program_of_fields {isNumeral : N → Bool} {fields : List (String × Value N)}
    {fs : List (String × Jq.Filter N)} (h : programFields isNumeral fields = some fs) :
    ∀ entry ∈ fields, ∃ f, program isNumeral entry.2 = some f := by
  induction fields generalizing fs with
  | nil => exact fun x hx => absurd hx List.not_mem_nil
  | cons entry fields ih =>
    obtain ⟨name', -, hnamed⟩ := Option.bind_eq_some_iff.mp h
    obtain ⟨f, hf, hrest⟩ := Option.bind_eq_some_iff.mp hnamed
    obtain ⟨gs, hgs, -⟩ := Option.bind_eq_some_iff.mp hrest
    intro x hx
    rcases List.mem_cons.mp hx with rfl | hx
    · exact ⟨f, hf⟩
    · exact ih hgs x hx

/-- A text that jq compiles has only numerals in it. -/
theorem numerals_of_program {isNumeral : N → Bool} {value : Value N} {f : Jq.Filter N}
    (h : program isNumeral value = some f) : ∀ n, .number n ∈ value.recurse → isNumeral n = true := by
  induction value using Value.induction generalizing f with
  | number m =>
    intro n hn
    cases List.mem_singleton.mp hn
    by_contra hnot
    rw [program, if_neg hnot] at h
    cases h
  | array items ih =>
    intro n hn
    rw [Value.recurse_array] at hn
    rcases List.mem_cons.mp hn with heq | hn
    · cases heq
    · obtain ⟨x, hx, hn⟩ := List.mem_flatMap.mp hn
      obtain ⟨fs, hfs, -⟩ := Option.map_eq_some_iff.mp h
      obtain ⟨g, hg⟩ := exists_program_of_items hfs x hx
      exact ih x hx hg n hn
  | object fields ih =>
    intro n hn
    rw [Value.recurse_object] at hn
    rcases List.mem_cons.mp hn with heq | hn
    · cases heq
    · obtain ⟨x, hx, hn⟩ := List.mem_flatMap.mp hn
      obtain ⟨fs, hfs, -⟩ := Option.map_eq_some_iff.mp h
      obtain ⟨g, hg⟩ := exists_program_of_fields hfs x hx
      exact ih x hx hg n hn
  | _ =>
    intro n hn
    cases List.mem_singleton.mp hn

/-! ## What the query comes to -/

section Answers

variable [DecidableEq N]

/-- What the query asks of each value in the document. -/
def condition (value w : Value N) : Bool :=
  w.typeName == "object" && w.contains value || !(w.typeName == "object") && w.eq value

variable {value : Value N}

theorem search_eq {json : Jq.Filter N} (h : ∀ v, json v = some [value]) (document : Value N) :
    search json document = some [.bool (document.recurse.any (condition value))] := by
  have houtput : ∀ w ∈ document.recurse, disj
      (conj (equal typeFilter (literal (.string "object"))) (containsFilter json))
      (conj (notEqual typeFilter (literal (.string "object"))) (equal identity json)) w =
      some [.bool (condition value w)] := by
    intro w _
    have htype : typeFilter w = some [.string w.typeName] := rfl
    have hname : literal (.string "object") w = some [.string "object"] := rfl
    have hobject : equal typeFilter (literal (.string "object")) w = some [.bool (w.typeName == "object")] := by
      rw [equal_of_single htype hname, Value.eq]
    have hother : notEqual typeFilter (literal (.string "object")) w = some [.bool !(w.typeName == "object")] := by
      rw [notEqual_of_single htype hname, Value.eq]
    have hequal : equal identity json w = some [.bool (w.eq value)] := equal_of_single rfl (h w)
    exact disj_of_bool (conj_of_bool hobject (containsFilter_of_single (h w))) (conj_of_bool hother hequal)
  rw [search, Jq.any, Jq.recurse, Option.bind_some, anyOutput_of_bool houtput]
  rfl

/-- With numerals only, the answer is whether the condition is true of some value in the document. -/
theorem convertJsonContains_eq {isNumeral : N → Bool}
    (h : ∀ n, .number n ∈ value.recurse → isNumeral n = true) (document : Value N) :
    convertJsonContains isNumeral value document = some (document.recurse.any (condition value)) := by
  obtain ⟨json, hjson, hvalue⟩ := program_eq_some h
  have hquery : construct [("result", search json)] document =
      some [.object [("result", .bool (document.recurse.any (condition value)))]] := by
    rw [construct, each_of_single (search_eq hvalue document)]
    rfl
  rw [convertJsonContains, jqQuery, hjson]
  simp [hquery]

/-- With any other number in it there is no answer. -/
theorem numerals_of_answer {isNumeral : N → Bool} {document : Value N} {b : Bool}
    (h : convertJsonContains isNumeral value document = some b) : ∀ n, .number n ∈ value.recurse → isNumeral n = true := by
  obtain ⟨query, hquery, -⟩ := Option.bind_eq_some_iff.mp h
  obtain ⟨json, hjson, -⟩ := Option.map_eq_some_iff.mp hquery
  exact numerals_of_program hjson

/-! ## Where the condition is the rule -/

variable {fields : List (String × Value N)}

theorem isMatch_object_iff {fields' : List (String × Value N)} :
    isMatch (.object fields) (.object fields') = true ↔
      ∀ entry ∈ fields, ∃ w, fields'.lookup entry.1 = some w ∧ isMatch entry.2 w = true := by
  rw [isMatch]
  induction fields with
  | nil => simp [isMatchFields]
  | cons entry fields ih =>
    rw [isMatchFields, Bool.and_eq_true, ih, List.forall_mem_cons]
    apply and_congr_left'
    cases fields'.lookup entry.1 with
    | none => simp
    | some w => simp

omit [DecidableEq N] in
theorem isPlainFields_iff :
    isPlainFields fields = true ↔ ∀ entry ∈ fields, isPlain entry.2 = true := by
  induction fields with
  | nil => simp [isPlainFields]
  | cons entry fields ih => rw [isPlainFields, Bool.and_eq_true, ih, List.forall_mem_cons]

variable {w : Value N}

/-- On plain values `contains` is the rule. -/
theorem contains_iff_isMatch (hplain : isPlain value = true) :
    w.contains value = true ↔ isMatch value w = true := by
  induction value using Value.induction generalizing w with
  | null => cases w <;> exact Iff.rfl
  | bool b =>
    cases w with
    | bool b' =>
      show (b' == b) = true ↔ (b == b') = true
      rw [beq_iff_eq, beq_iff_eq, eq_comm]
    | _ => exact Iff.rfl
  | number n =>
    cases w with
    | number n' =>
      show (n' == n) = true ↔ (n == n') = true
      rw [beq_iff_eq, beq_iff_eq, eq_comm]
    | _ => exact Iff.rfl
  | string s => cases hplain
  | array items => cases hplain
  | object fields ih =>
    have hfields := isPlainFields_iff.mp hplain
    cases w with
    | object fields' =>
      rw [Value.contains_object_iff, isMatch_object_iff]
      apply forall₂_congr
      intro entry hentry
      apply exists_congr
      intro x
      exact and_congr_right' (ih entry hentry (hfields entry hentry))
    | _ => exact Iff.rfl

/-- For a search value that is no object, or a plain one, the condition is the rule. -/
theorem condition_iff (hvalue : value.Distinct) (hw : w.Distinct)
    (hplain : ∀ fields, value = .object fields → isPlain value = true) :
    condition value w = true ↔ isMatch value w = true := by
  have hsymm : w.eq value = true ↔ value.eq w = true := Value.eq_comm_iff hw hvalue
  cases w with
  | object fields' =>
    have hcondition : condition value (.object fields') = (Value.object fields').contains value := by
      simp [condition, Value.typeName]
    rw [hcondition]
    cases value with
    | object fields => exact contains_iff_isMatch (hplain fields rfl)
    | _ => exact Iff.rfl
  | _ =>
    -- a value that is no object is compared
    cases value with
    | object fields => exact Iff.rfl
    | _ => exact hsymm

/-! ## A document for a value that is not plain -/

mutual

/-- The strings and arrays that are reached through fields, each with something behind it. -/
def grow : Value N → Value N
  | .string s => .string (s ++ " ")
  | .array items => .array (items ++ [.null])
  | .object fields => .object (growFields fields)
  | v => v

def growFields : List (String × Value N) → List (String × Value N)
  | [] => []
  | (name, v) :: fields => (name, grow v) :: growFields fields

end

omit [DecidableEq N] in
theorem growFields_eq (fields : List (String × Value N)) :
    growFields fields = fields.map fun entry => (entry.1, grow entry.2) := by
  induction fields with
  | nil => rfl
  | cons entry fields ih => rw [growFields, ih, List.map_cons]

omit [DecidableEq N] in
theorem grow_distinct (h : value.Distinct) : (grow value).Distinct := by
  induction value using Value.induction with
  | array items =>
    apply Value.distinct_array
    intro v hv
    rcases List.mem_append.mp hv with hv | hv
    · exact h.item hv
    · rw [List.mem_singleton.mp hv]
      exact fun fields hfields => by cases List.mem_singleton.mp hfields
  | object fields ih =>
    rw [grow, growFields_eq]
    apply Value.distinct_object
    · rw [List.map_map]
      exact h.names
    · intro entry hentry
      obtain ⟨e, he, rfl⟩ := List.mem_map.mp hentry
      exact ih e he (h.field he)
  | _ => exact fun fields hfields => by cases List.mem_singleton.mp hfields

omit [DecidableEq N] in
theorem height_grow_le (value : Value N) : (grow value).height ≤ value.height := by
  induction value using Value.induction with
  | array items =>
    apply Nat.add_le_add_left
    apply Value.heightItems_le_iff.mpr
    intro v hv
    rcases List.mem_append.mp hv with hv | hv
    · exact Value.heightItems_le_iff.mp (Nat.le_refl _) v hv
    · rw [List.mem_singleton.mp hv]
      exact Nat.zero_le _
  | object fields ih =>
    rw [grow, growFields_eq, Value.height, Value.height]
    apply Nat.add_le_add_left
    apply Value.heightFields_le_iff.mpr
    intro entry hentry
    obtain ⟨e, he, rfl⟩ := List.mem_map.mp hentry
    exact Nat.le_trans (ih e he) (Value.heightFields_le_iff.mp (Nat.le_refl _) e he)
  | _ => exact Nat.le_refl _

omit [DecidableEq N] in
theorem lookup_grow (hnames : (fields.map Prod.fst).Nodup)
    {entry : String × Value N} (hentry : entry ∈ fields) :
    (growFields fields).lookup entry.1 = some (grow entry.2) := by
  have hnames' : ((growFields fields).map Prod.fst).Nodup := by
    rw [growFields_eq, List.map_map]
    exact hnames
  have hmem : (entry.1, grow entry.2) ∈ growFields fields := by
    rw [growFields_eq]
    exact List.mem_map.mpr ⟨entry, hentry, rfl⟩
  exact Value.lookup_of_mem hnames' hmem

/-- The document contains the value, as jq sees it. -/
theorem contains_grow (h : value.Distinct) : (grow value).contains value = true := by
  induction value using Value.induction with
  | string s =>
    apply decide_eq_true
    rw [String.toList_append]
    exact (List.prefix_append s.toList " ".toList).isInfix
  | array items =>
    apply Value.contains_array_iff.mpr
    exact fun v hv => ⟨v, List.mem_append_left _ hv, Value.contains_self (h.item hv)⟩
  | object fields ih =>
    apply Value.contains_object_iff.mpr
    exact fun entry hentry => ⟨_, lookup_grow h.names hentry, ih entry hentry (h.field hentry)⟩
  | _ => exact Value.contains_self h

/-- The value only matches the document where it is plain. -/
theorem isPlain_of_isMatch_grow (h : value.Distinct) (hmatch : isMatch value (grow value) = true) :
    isPlain value = true := by
  induction value using Value.induction with
  | string s =>
    have heq : s = s ++ " " := beq_iff_eq.mp hmatch
    have hlength := congrArg String.length heq
    exact absurd hlength (by simp)
  | array items =>
    have hlength := (Value.eq_array_iff.mp hmatch).length_eq
    simp at hlength
  | object fields ih =>
    apply isPlainFields_iff.mpr
    intro entry hentry
    obtain ⟨w, hw, hinner⟩ := isMatch_object_iff.mp hmatch entry hentry
    rw [lookup_grow h.names hentry] at hw
    cases hw
    exact ih entry hentry (h.field hentry) hinner
  | _ => rfl

/-- What matches a value is at least as high. -/
theorem height_le_of_isMatch (h : isMatch value w = true) : value.height ≤ w.height := by
  induction value using Value.induction generalizing w with
  | object fields ih =>
    cases w with
    | object fields' =>
      have hfields := isMatch_object_iff.mp h
      apply Nat.add_le_add_left
      apply Value.heightFields_le_iff.mpr
      intro entry hentry
      obtain ⟨x, hx, hinner⟩ := hfields entry hentry
      exact Nat.le_trans (ih entry hentry hinner)
        (Value.heightFields_le_iff.mp (Nat.le_refl _) _ (Value.mem_of_lookup hx))
    | _ => cases h
  | array items => exact Value.height_le_of_eq h
  | _ => exact Nat.zero_le _

/-! ## Which values are searched for by the rules -/

/-- A value is searched for by the rules exactly when all its numbers have numerals and, where it is an object, no string and
    no array is reached through its fields. -/
theorem follows_iff (isNumeral : N → Bool) (value : Document N) :
    Follows isNumeral value ↔ Searchable isNumeral value.value := by
  constructor
  · intro h
    obtain ⟨b, hanswer, -⟩ := h ⟨.null, fun fields hfields => by cases List.mem_singleton.mp hfields⟩
    have hnumerals := numerals_of_answer hanswer
    refine ⟨hnumerals, ?_⟩
    intro fields hobject
    -- no proper part of the document is high enough to match
    obtain ⟨b, hanswer, hiff⟩ := h ⟨grow value.value, grow_distinct value.distinct⟩
    rw [convertJsonContains_eq hnumerals] at hanswer
    cases hanswer
    have hself : condition value.value (grow value.value) = true := by
      have hcontains := contains_grow value.distinct
      rw [hobject] at hcontains ⊢
      simpa [condition, grow, Value.typeName] using hcontains
    have hfound : (grow value.value).recurse.any (condition value.value) = true :=
      List.any_eq_true.mpr ⟨_, Value.self_mem_recurse _, hself⟩
    obtain ⟨w, hw, hmatch⟩ := hiff.mp hfound
    have hheight := height_le_of_isMatch hmatch
    have hgrow := height_grow_le value.value
    rcases Value.eq_or_height_lt hw with rfl | hlt
    · exact isPlain_of_isMatch_grow value.distinct hmatch
    · have hlower : w.height < (grow value.value).height := hlt
      omega
  · rintro ⟨hnumerals, hplain⟩ document
    refine ⟨_, convertJsonContains_eq hnumerals document.value, ?_⟩
    rw [List.any_eq_true]
    apply exists_congr
    intro w
    apply and_congr_right
    intro hw
    exact condition_iff value.distinct (document.distinct.of_mem hw) hplain

/-- The role of an administrator. -/
def adminValue : Document Nat where
  value := .object [("role", .string "admin")]
  distinct := Value.distinct_object (List.nodup_singleton _) fun entry hentry => by
    rw [List.mem_singleton.mp hentry]
    exact fun fields hfields => by cases List.mem_singleton.mp hfields

def administratorDocument : Document Nat where
  value := .object [("role", .string "administrator")]
  distinct := Value.distinct_object (List.nodup_singleton _) fun entry hentry => by
    rw [List.mem_singleton.mp hentry]
    exact fun fields hfields => by cases List.mem_singleton.mp hfields

/-- `administrator` has `admin` in it. -/
theorem adminValue_not_follows : ¬ ∀ value : Document Nat, Follows (fun _ => true) value := by
  intro hall
  obtain ⟨b, hanswer, hiff⟩ := hall adminValue administratorDocument
  have hnone : administratorDocument.value.recurse.any (isMatch adminValue.value) = false := by decide +kernel
  obtain ⟨w, hw, hmatch⟩ := hiff.mp (Option.some.inj hanswer).symm
  rw [List.any_eq_false] at hnone
  exact hnone w hw hmatch

end Answers

end JsonContains
end Fenic
