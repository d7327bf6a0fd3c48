import Fenic.Lib.Jq
import Mathlib.Data.List.Infix
import Mathlib.Data.List.Nodup
import Mathlib.Data.List.Perm.Subperm

/-!
# `Lib.JqContains` — containment of JSON values

`contains` as jq documents it: strings by their substrings, arrays by some element for each, objects field by field, and all
other values by equality. Beside it what equality needs where the order of fields does not count (`eq_symm`), the height of a
value, which neither equality nor a step into a value raises, and the filters that ask for the type of a value or for some
output with a property.
-/

namespace Fenic

namespace Jq

namespace Value

variable {N : Type}

/-- Induction over a value and all that is in it. -/
theorem induction {P : Value N → Prop} (null : P .null) (bool : ∀ b, P (.bool b)) (number : ∀ n, P (.number n))
    (string : ∀ s, P (.string s)) (array : ∀ items, (∀ v ∈ items, P v) → P (.array items))
    (object : ∀ fields, (∀ entry ∈ fields, P entry.2) → P (.object fields)) (v : Value N) : P v := by
  refine @Value.rec N P (fun items => ∀ v ∈ items, P v) (fun fields => ∀ entry ∈ fields, P entry.2) (fun entry => P entry.2)
    null bool number string array object ?_ ?_ ?_ ?_ ?_ v
  · exact fun v hv => absurd hv List.not_mem_nil
  · intro w items hw hitems v hv
    rcases List.mem_cons.mp hv with rfl | hv
    · exact hw
    · exact hitems v hv
  · exact fun entry hentry => absurd hentry List.not_mem_nil
  · intro e fields he hfields entry hentry
    rcases List.mem_cons.mp hentry with rfl | hentry
    · exact he
    · exact hfields entry hentry
  · exact fun _ _ h => h

/-! ## What is in a value -/

theorem self_mem_recurse (v : Value N) : v ∈ v.recurse := by
  cases v <;> exact List.mem_cons_self

theorem recurse_array (items : List (Value N)) : (Value.array items).recurse = .array items :: items.flatMap recurse := by
  rw [← recurseItems_eq]
  rfl

theorem recurse_object (fields : List (String × Value N)) :
    (Value.object fields).recurse = .object fields :: fields.flatMap fun entry => recurse entry.2 := by
  rw [← recurseFields_eq]
  rfl

/-- The fields of all objects in the value have different names. -/
def Distinct (v : Value N) : Prop := ∀ fields, .object fields ∈ v.recurse → (fields.map Prod.fst).Nodup

variable {items : List (Value N)}

theorem Distinct.item (h : (Value.array items).Distinct) {v : Value N} (hv : v ∈ items) :
    v.Distinct := by
  intro fields hfields
  apply h fields
  rw [recurse_array]
  exact List.mem_cons_of_mem _ (List.mem_flatMap.mpr ⟨v, hv, hfields⟩)

variable {fields : List (String × Value N)}

theorem Distinct.field (h : (Value.object fields).Distinct) {entry : String × Value N}
    (hentry : entry ∈ fields) : entry.2.Distinct := by
  intro inner hinner
  apply h inner
  rw [recurse_object]
  exact List.mem_cons_of_mem _ (List.mem_flatMap.mpr ⟨entry, hentry, hinner⟩)

theorem Distinct.names (h : (Value.object fields).Distinct) :
    (fields.map Prod.fst).Nodup :=
  h fields (self_mem_recurse _)

theorem distinct_array (h : ∀ v ∈ items, v.Distinct) : (Value.array items).Distinct := by
  intro fields hfields
  rw [recurse_array] at hfields
  rcases List.mem_cons.mp hfields with heq | hfields
  · cases heq
  · obtain ⟨v, hv, hfields⟩ := List.mem_flatMap.mp hfields
    exact h v hv fields hfields

theorem distinct_object (hnames : (fields.map Prod.fst).Nodup)
    (h : ∀ entry ∈ fields, entry.2.Distinct) : (Value.object fields).Distinct := by
  intro inner hinner
  rw [recurse_object] at hinner
  rcases List.mem_cons.mp hinner with heq | hinner
  · cases heq
    exact hnames
  · obtain ⟨entry, hentry, hinner⟩ := List.mem_flatMap.mp hinner
    exact h entry hentry inner hinner

variable {w : Value N}

/-- What is in a part of a value is in the value. -/
theorem recurse_subset {v : Value N} (h : w ∈ v.recurse) : w.recurse ⊆ v.recurse := by
  induction v using Value.induction with
  | array items ih =>
    rw [recurse_array] at h
    rcases List.mem_cons.mp h with rfl | h
    · exact List.Subset.refl _
    · obtain ⟨x, hx, hw⟩ := List.mem_flatMap.mp h
      intro y hy
      rw [recurse_array]
      exact List.mem_cons_of_mem _ (List.mem_flatMap.mpr ⟨x, hx, ih x hx hw hy⟩)
  | object fields ih =>
    rw [recurse_object] at h
    rcases List.mem_cons.mp h with rfl | h
    · exact List.Subset.refl _
    · obtain ⟨entry, hentry, hw⟩ := List.mem_flatMap.mp h
      intro y hy
      rw [recurse_object]
      exact List.mem_cons_of_mem _ (List.mem_flatMap.mpr ⟨entry, hentry, ih entry hentry hw hy⟩)
  | _ =>
    rw [List.mem_singleton.mp h]
    exact List.Subset.refl _

theorem Distinct.of_mem {v : Value N} (h : v.Distinct) (hw : w ∈ v.recurse) : w.Distinct :=
  fun fields hfields => h fields (recurse_subset hw hfields)

/-- Among fields with different names a name finds its field. -/
theorem lookup_of_mem (hnames : (fields.map Prod.fst).Nodup)
    {entry : String × Value N} (hentry : entry ∈ fields) : fields.lookup entry.1 = some entry.2 := by
  induction fields with
  | nil => exact absurd hentry List.not_mem_nil
  | cons e fields ih =>
    obtain ⟨hfresh, hrest⟩ := List.nodup_cons.mp hnames
    rcases List.mem_cons.mp hentry with rfl | hentry
    · rw [List.lookup_cons, beq_self_eq_true]
    · have hne : entry.1 ≠ e.1 := fun heq => hfresh (heq ▸ List.mem_map_of_mem hentry)
      rw [List.lookup_cons, beq_false_of_ne hne]
      exact ih hrest hentry

theorem mem_of_lookup {name : String} {v : Value N}
    (h : fields.lookup name = some v) : (name, v) ∈ fields := by
  obtain ⟨before, after, rfl, -⟩ := List.lookup_eq_some_iff.mp h
  exact List.mem_append_right _ List.mem_cons_self

/-! ## Equality -/

section Equality

variable [DecidableEq N]

theorem eqFields_iff {fields fields' : List (String × Value N)} :
    eqFields fields fields' = true ↔ ∀ entry ∈ fields, ∃ w, fields'.lookup entry.1 = some w ∧ entry.2.eq w = true := by
  induction fields with
  | nil => simp [eqFields]
  | cons entry fields ih =>
    rw [eqFields, Bool.and_eq_true, ih, List.forall_mem_cons]
    apply and_congr_left'
    cases fields'.lookup entry.1 with
    | none => simp
    | some w => simp

theorem eqItems_iff {items items' : List (Value N)} :
    eqItems items items' = true ↔ List.Forall₂ (fun v w => v.eq w = true) items items' := by
  induction items generalizing items' with
  | nil => cases items' <;> simp [eqItems]
  | cons v items ih =>
    cases items' with
    | nil => simp [eqItems]
    | cons w items' => rw [eqItems, Bool.and_eq_true, ih, List.forall₂_cons]

theorem eq_object_iff {fields fields' : List (String × Value N)} :
    (Value.object fields).eq (.object fields') = true ↔
      fields.length = fields'.length ∧
        ∀ entry ∈ fields, ∃ w, fields'.lookup entry.1 = some w ∧ entry.2.eq w = true := by
  show (_ == _ && _) = true ↔ _
  rw [Bool.and_eq_true, beq_iff_eq, eqFields_iff]

theorem eq_array_iff {items items' : List (Value N)} :
    (Value.array items).eq (.array items') = true ↔ List.Forall₂ (fun v w => v.eq w = true) items items' :=
  eqItems_iff

theorem eq_self {v : Value N} (h : v.Distinct) : v.eq v = true := by
  induction v using Value.induction with
  | null => rfl
  | bool b => exact beq_self_eq_true b
  | number n => exact beq_self_eq_true n
  | string s => exact beq_self_eq_true s
  | array items ih => exact eq_array_iff.mpr (List.forall₂_same.mpr fun v hv => ih v hv (h.item hv))
  | object fields ih =>
    apply eq_object_iff.mpr
    exact ⟨rfl, fun entry hentry => ⟨entry.2, lookup_of_mem h.names hentry, ih entry hentry (h.field hentry)⟩⟩

/-- Equal objects have the same names, so either of them has the fields of the other one. -/
theorem eq_symm {v w : Value N} (hv : v.Distinct) (hw : w.Distinct) (h : v.eq w = true) : w.eq v = true := by
  induction v using Value.induction generalizing w with
  | null => cases w <;> first | rfl | cases h
  | bool b =>
    cases w with
    | bool b' =>
      have heq := beq_iff_eq.mp h
      exact beq_iff_eq.mpr heq.symm
    | _ => cases h
  | number n =>
    cases w with
    | number n' =>
      have heq := beq_iff_eq.mp h
      exact beq_iff_eq.mpr heq.symm
    | _ => cases h
  | string s =>
    cases w with
    | string s' =>
      have heq := beq_iff_eq.mp h
      exact beq_iff_eq.mpr heq.symm
    | _ => cases h
  | array items ih =>
    cases w with
    | array items' =>
      have hitems := eq_array_iff.mp h
      apply eq_array_iff.mpr
      clear h
      induction hitems with
      | nil => exact .nil
      | cons hhead _ ihrest =>
        refine .cons (ih _ List.mem_cons_self (hv.item List.mem_cons_self) (hw.item List.mem_cons_self) hhead) ?_
        apply ihrest
        · exact fun x hx => ih x (List.mem_cons_of_mem _ hx)
        · exact distinct_array fun x hx => hv.item (List.mem_cons_of_mem _ hx)
        · exact distinct_array fun x hx => hw.item (List.mem_cons_of_mem _ hx)
    | _ => cases h
  | object fields ih =>
    cases w with
    | object fields' =>
      obtain ⟨hlength, hfields⟩ := eq_object_iff.mp h
      apply eq_object_iff.mpr
      refine ⟨hlength.symm, ?_⟩
      have hsubset : fields.map Prod.fst ⊆ fields'.map Prod.fst := by
        intro name hname
        obtain ⟨entry, hentry, rfl⟩ := List.mem_map.mp hname
        obtain ⟨x, hx, -⟩ := hfields entry hentry
        exact List.mem_map.mpr ⟨(entry.1, x), mem_of_lookup hx, rfl⟩
      have hperm : (fields.map Prod.fst).Perm (fields'.map Prod.fst) :=
        (List.subperm_of_subset hv.names hsubset).perm_of_length_le (by simp [hlength])
      intro entry' hentry'
      obtain ⟨entry, hentry, hname⟩ := List.mem_map.mp (hperm.symm.subset (List.mem_map_of_mem hentry'))
      obtain ⟨x, hx, heq⟩ := hfields entry hentry
      have hvalue : x = entry'.2 := by
        rw [hname, lookup_of_mem hw.names hentry'] at hx
        exact (Option.some.inj hx).symm
      rw [hvalue] at heq
      refine ⟨entry.2, ?_, ih entry hentry (hv.field hentry) (hw.field hentry') heq⟩
      rw [← hname]
      exact lookup_of_mem hv.names hentry
    | _ => cases h

theorem eq_comm_iff {v w : Value N} (hv : v.Distinct) (hw : w.Distinct) : v.eq w = true ↔ w.eq v = true :=
  ⟨eq_symm hv hw, eq_symm hw hv⟩

end Equality

/-! ## Containment -/

section Containment

variable [DecidableEq N]

mutual

/-- `contains`: whether the second value is in the first one. -/
def contains : Value N → Value N → Bool
  | .string s, .string t => decide (t.toList <:+: s.toList)
  | .array items, .array items' => containsItems items items'
  | .object fields, .object fields' => containsFields fields fields'
  | v, w => v.eq w

/-- Each of the second items is in one of the first ones. -/
def containsItems (items : List (Value N)) : List (Value N) → Bool
  | [] => true
  | w :: items' => items.any (fun v => contains v w) && containsItems items items'

/-- Each of the second fields is in that of the same name. -/
def containsFields (fields : List (String × Value N)) : List (String × Value N) → Bool
  | [] => true
  | (name, w) :: fields' =>
    (match fields.lookup name with
      | some v => contains v w
      | none => false) && containsFields fields fields'

end

theorem contains_array_iff {items items' : List (Value N)} :
    (Value.array items).contains (.array items') = true ↔ ∀ w ∈ items', ∃ v ∈ items, v.contains w = true := by
  show containsItems items items' = true ↔ _
  induction items' with
  | nil => simp [containsItems]
  | cons w items' ih => rw [containsItems, Bool.and_eq_true, ih, List.forall_mem_cons, List.any_eq_true]

theorem contains_object_iff {fields fields' : List (String × Value N)} :
    (Value.object fields).contains (.object fields') = true ↔
      ∀ entry ∈ fields', ∃ v, fields.lookup entry.1 = some v ∧ v.contains entry.2 = true := by
  show containsFields fields fields' = true ↔ _
  induction fields' with
  | nil => simp [containsFields]
  | cons entry fields' ih =>
    rw [containsFields, Bool.and_eq_true, ih, List.forall_mem_cons]
    apply and_congr_left'
    cases fields.lookup entry.1 with
    | none => simp
    | some v => simp

/-- A value contains itself. -/
theorem contains_self {v : Value N} (h : v.Distinct) : v.contains v = true := by
  induction v using Value.induction with
  | null => rfl
  | bool b => exact eq_self h
  | number n => exact eq_self h
  | string s =>
    exact decide_eq_true (List.infix_refl s.toList)
  | array items ih => exact contains_array_iff.mpr fun v hv => ⟨v, hv, ih v hv (h.item hv)⟩
  | object fields ih =>
    apply contains_object_iff.mpr
    exact fun entry hentry => ⟨entry.2, lookup_of_mem h.names hentry, ih entry hentry (h.field hentry)⟩

end Containment

/-! ## Heights -/

mutual

def height : Value N → Nat
  | .array items => 1 + heightItems items
  | .object fields => 1 + heightFields fields
  | _ => 0

def heightItems : List (Value N) → Nat
  | [] => 0
  | v :: items => max (height v) (heightItems items)

def heightFields : List (String × Value N) → Nat
  | [] => 0
  | (_, v) :: fields => max (height v) (heightFields fields)

end

theorem heightItems_le_iff {n : Nat} : heightItems items ≤ n ↔ ∀ v ∈ items, v.height ≤ n := by
  induction items with
  | nil => exact iff_of_true (Nat.zero_le n) (by simp)
  | cons v items ih =>
    show max v.height (heightItems items) ≤ n ↔ _
    rw [Nat.max_le, ih, List.forall_mem_cons]

theorem heightFields_le_iff {n : Nat} :
    heightFields fields ≤ n ↔ ∀ entry ∈ fields, entry.2.height ≤ n := by
  induction fields with
  | nil => exact iff_of_true (Nat.zero_le n) (by simp)
  | cons entry fields ih =>
    show max entry.2.height (heightFields fields) ≤ n ↔ _
    rw [Nat.max_le, ih, List.forall_mem_cons]

/-- What is in a value is lower than the value. -/
theorem eq_or_height_lt {v : Value N} (h : w ∈ v.recurse) : w = v ∨ w.height < v.height := by
  induction v using Value.induction with
  | array items ih =>
    rw [recurse_array] at h
    rcases List.mem_cons.mp h with rfl | h
    · exact .inl rfl
    · obtain ⟨v, hv, hw⟩ := List.mem_flatMap.mp h
      have hle := heightItems_le_iff.mp (Nat.le_refl (heightItems items)) v hv
      right
      rw [height]
      rcases ih v hv hw with rfl | hlt <;> omega
  | object fields ih =>
    rw [recurse_object] at h
    rcases List.mem_cons.mp h with rfl | h
    · exact .inl rfl
    · obtain ⟨entry, hentry, hw⟩ := List.mem_flatMap.mp h
      have hle := heightFields_le_iff.mp (Nat.le_refl (heightFields fields)) entry hentry
      right
      rw [height]
      rcases ih entry hentry hw with heq | hlt
      · rw [heq]
        omega
      · omega
  | _ => exact .inl (List.mem_singleton.mp h)

theorem height_le_of_eq [DecidableEq N] {v w : Value N} (h : v.eq w = true) : v.height ≤ w.height := by
  induction v using Value.induction generalizing w with
  | array items ih =>
    cases w with
    | array items' =>
      have hitems := eq_array_iff.mp h
      apply Nat.add_le_add_left
      apply heightItems_le_iff.mpr
      intro v hv
      obtain ⟨w, hw, heq⟩ := Rows.exists_right_of_forall₂ hitems hv
      exact Nat.le_trans (ih v hv heq) (heightItems_le_iff.mp (Nat.le_refl _) w hw)
    | _ => cases h
  | object fields ih =>
    cases w with
    | object fields' =>
      obtain ⟨-, hfields⟩ := eq_object_iff.mp h
      apply Nat.add_le_add_left
      apply heightFields_le_iff.mpr
      intro entry hentry
      obtain ⟨x, hx, heq⟩ := hfields entry hentry
      exact Nat.le_trans (ih entry hentry heq) (heightFields_le_iff.mp (Nat.le_refl _) _ (mem_of_lookup hx))
    | _ => cases h
  | _ => exact Nat.zero_le _

end Value

/-! ## Filters -/

variable {N : Type}

/-- `f, g`. -/
def comma (f g : Filter N) : Filter N := fun v => (f v).bind fun xs => (g v).map fun ys => xs ++ ys

/-- `type`. -/
def typeFilter : Filter N := fun v => some [.string v.typeName]

/-- `contains(f)`. -/
def containsFilter [DecidableEq N] (f : Filter N) : Filter N := each f fun y v => some [.bool (v.contains y)]

/-- `f != g`. -/
def notEqual [DecidableEq N] (f g : Filter N) : Filter N :=
  each g fun y => each f fun x => literal (.bool !(x.eq y))

/-- Whether the filter is true of one of the values. The values behind the first such one are not looked at. -/
def anyOutput (p : Filter N) : List (Value N) → Option Bool
  | [] => some false
  | x :: xs => (p x).bind fun ys => if ys.any Value.isTruthy then some true else anyOutput p xs

/-- `any(f; p)`. -/
def any (f p : Filter N) : Filter N := fun v => (f v).bind fun xs => (anyOutput p xs).map fun b => [.bool b]

/-- For a filter that puts out one Boolean for each value. -/
theorem anyOutput_of_bool {p : Filter N} {q : Value N → Bool} {xs : List (Value N)}
    (h : ∀ x ∈ xs, p x = some [.bool (q x)]) : anyOutput p xs = some (xs.any q) := by
  induction xs with
  | nil => rfl
  | cons x xs ih =>
    have hx := h x List.mem_cons_self
    have hxs := ih fun y hy => h y (List.mem_cons_of_mem x hy)
    have hself : [Value.bool (N := N) (q x)].any Value.isTruthy = q x := by cases q x <;> rfl
    rw [anyOutput, hx, Option.bind_some, hself]
    cases hq : q x with
    | true => simp [hq]
    | false => simpa [hq] using hxs

section

variable {f g : Filter N} {v x y : Value N}

theorem equal_of_single [DecidableEq N] (hf : f v = some [x]) (hg : g v = some [y]) : equal f g v = some [.bool (x.eq y)] := by
  rw [equal, each_of_single hg, each_of_single hf]
  rfl

theorem notEqual_of_single [DecidableEq N] (hf : f v = some [x]) (hg : g v = some [y]) :
    notEqual f g v = some [.bool !(x.eq y)] := by
  rw [notEqual, each_of_single hg, each_of_single hf]
  rfl

theorem conj_of_bool {b b' : Bool} (hf : f v = some [.bool b]) (hg : g v = some [.bool b']) :
    conj f g v = some [.bool (b && b')] := by
  rw [conj, each_of_single hf]
  cases b with
  | true =>
    show each g (fun y => literal (.bool y.isTruthy)) v = _
    rw [each_of_single hg]
    cases b' <;> rfl
  | false => rfl

theorem disj_of_bool {b b' : Bool} (hf : f v = some [.bool b]) (hg : g v = some [.bool b']) :
    disj f g v = some [.bool (b || b')] := by
  rw [disj, each_of_single hf]
  cases b with
  | true => rfl
  | false =>
    show each g (fun y => literal (.bool y.isTruthy)) v = _
    rw [each_of_single hg]
    cases b' <;> rfl

theorem containsFilter_of_single [DecidableEq N] (hf : f v = some [x]) : containsFilter f v = some [.bool (v.contains x)] := by
  rw [containsFilter, each_of_single hf]

end

end Jq

end Fenic
