import Fenic.TypeInference.Supertype

/-!
# `TypeInference.Widening` — common supertypes are least upper bounds

`Widens` is the order that the docstrings speak of: an integer is a float, an array widens with its elements, and a struct
with its fields, of which a wider one may have more. The order of the fields does not count for it.

`join_laws` and `widens_join` with `join_least` are what the inference over a list rests on.

`infer_dtype_from_pyobj` folds the types of the elements of a list from the left. As common supertypes are joins, the result
depends on the elements only, not on their order or number, and it is the least type that all of them widen to.

The path of a value is for the messages only (`inferDtypeFromPyobj_eq_ok`), so that `typeOf` does without it.
-/

namespace Fenic

namespace TypeInference

open Mcp

/-! ## Kinds -/

variable {s t : DataType}

theorem join_eq_none_of_kind (h : kind s ≠ kind t) : join s t = none := by
  by_contra hsome
  obtain ⟨u, hu⟩ := Option.ne_none_iff_exists'.mp hsome
  exact h ((kind_of_join hu).1.symm.trans (kind_of_join hu).2)

/-- The numeric type with an index. -/
def ofIndex : Nat → DataType
  | 0 => .integerType
  | 1 => .floatType
  | _ => .doubleType

variable {i : Nat}

theorem numericIndex_ofIndex (h : i < 3) : numericIndex (ofIndex i) = some i := by
  match i, h with
  | 0, _ => rfl
  | 1, _ => rfl
  | 2, _ => rfl

theorem join_ofIndex {j : Nat} (hi : i < 3) (hj : j < 3) : join (ofIndex i) (ofIndex j) = some (ofIndex (max i j)) := by
  rw [join_numeric (numericIndex_ofIndex hi) (numericIndex_ofIndex hj)]
  split
  next hlt => rw [max_eq_right hlt.le]
  next hle => rw [max_eq_left (Nat.not_lt.mp hle)]

/-- A type of the kind of one that is neither an array nor a struct is that type, or both are numeric. -/
theorem atom_cases (harray : ∀ t, s ≠ .arrayType t) (hstruct : ∀ fields, s ≠ .structType fields) :
    (∃ i < 3, s = ofIndex i ∧ ∀ t, kind s = kind t → ∃ j < 3, t = ofIndex j) ∨ ∀ t, kind s = kind t → t = s := by
  have hnumeric : ∀ t, DataType.integerType = kind t → ∃ j < 3, t = ofIndex j := by
    intro t ht
    cases t with
    | integerType => exact ⟨0, by decide, rfl⟩
    | floatType => exact ⟨1, by decide, rfl⟩
    | doubleType => exact ⟨2, by decide, rfl⟩
    | _ => cases ht
  cases s with
  | integerType => exact Or.inl ⟨0, by decide, rfl, hnumeric⟩
  | floatType => exact Or.inl ⟨1, by decide, rfl, hnumeric⟩
  | doubleType => exact Or.inl ⟨2, by decide, rfl, hnumeric⟩
  | arrayType t => exact absurd rfl (harray t)
  | structType fields => exact absurd rfl (hstruct fields)
  | _ =>
    refine Or.inr fun t ht => ?_
    cases t <;> first | exact ht.symm | cases ht

theorem array_of_kind (h : kind (.arrayType s) = kind t) : ∃ t', t = .arrayType t' := by
  cases t with
  | arrayType t' => exact ⟨t', rfl⟩
  | _ => cases h

theorem struct_of_kind {f : Fields} (h : kind (.structType f) = kind t) : ∃ g, t = .structType g := by
  cases t with
  | structType g => exact ⟨g, rfl⟩
  | _ => cases h

/-! ## The laws -/

theorem fieldJoin_comm {x y : Option DataType} (h : ∀ s t, x = some s → join s t = join t s) :
    fieldJoin join x y = fieldJoin join y x := by
  cases x with
  | none => cases y <;> rfl
  | some s =>
    cases y with
    | none => rfl
    | some t =>
      show (join s t).map some = (join t s).map some
      rw [h s t rfl]

theorem join_comm (s : DataType) : ∀ t, join s t = join t s := by
  induction s using type_induction with
  | atom s harray hstruct =>
    intro t
    by_cases hkind : kind s = kind t
    · rcases atom_cases harray hstruct with ⟨i, hi, rfl, hall⟩ | hall
      · obtain ⟨j, hj, rfl⟩ := hall t hkind
        rw [join_ofIndex hi hj, join_ofIndex hj hi, max_comm]
      · rw [hall t hkind]
    · rw [join_eq_none_of_kind hkind, join_eq_none_of_kind (Ne.symm hkind)]
  | array s ih =>
    intro t
    by_cases hkind : kind (.arrayType s) = kind t
    · obtain ⟨t, rfl⟩ := array_of_kind hkind
      rw [join_array, join_array, ih]
    · rw [join_eq_none_of_kind hkind, join_eq_none_of_kind (Ne.symm hkind)]
  | struct f ih =>
    intro t
    by_cases hkind : kind (.structType f) = kind t
    · obtain ⟨g, rfl⟩ := struct_of_kind hkind
      have hfields : ∀ n, fieldJoin join (f.lookup n) (g.lookup n) = fieldJoin join (g.lookup n) (f.lookup n) :=
        fun n => fieldJoin_comm fun s t hs => ih n s hs t
      by_cases heq : f = g
      · rw [heq]
      · -- both merges are sorted, and the same under each name
        have hone : ∀ {f g : Fields}, f ≠ g →
            (∀ n, fieldJoin join (f.lookup n) (g.lookup n) = fieldJoin join (g.lookup n) (f.lookup n)) →
            ∀ u, join (.structType f) (.structType g) = some u → join (.structType g) (.structType f) = some u := by
          intro f g hne hfields u hu
          obtain ⟨m, rfl, hm⟩ := isMerge_of_join hu
          have hdefined : ∀ n, fieldJoin join (g.lookup n) (f.lookup n) ≠ none := by
            intro n
            rw [← hfields n, hm.lookup n]
            nofun
          obtain ⟨m', hm', hmerge⟩ := exists_join_struct hdefined
          rw [hm']
          have hsorted : Sorted m := hm.order.resolve_left fun h => hne h.1
          have hsorted' : Sorted m' := hmerge.order.resolve_left fun h => hne h.1.symm
          refine congrArg (fun m => some (DataType.structType m)) (sorted_ext hsorted' hsorted fun n => ?_)
          exact Option.some.inj ((hmerge.lookup n).symm.trans ((hfields n).symm.trans (hm.lookup n)))
        exact Option.ext fun u => ⟨hone heq hfields u, hone (Ne.symm heq) (fun n => (hfields n).symm) u⟩
    · rw [join_eq_none_of_kind hkind, join_eq_none_of_kind (Ne.symm hkind)]

theorem fieldJoin_assoc {x y z : Option DataType}
    (h : ∀ s, x = some s → ∀ t u, (join s t).bind (join · u) = (join t u).bind (join s)) :
    (fieldJoin join x y).bind (fieldJoin join · z) = (fieldJoin join y z).bind (fieldJoin join x) := by
  cases x with
  | none =>
    show fieldJoin join y z = (fieldJoin join y z).bind some
    rw [Option.bind_fun_some]
  | some s =>
    cases y with
    | none => rfl
    | some t =>
      cases z with
      | none =>
        show ((join s t).map some).bind _ = (join s t).map some
        cases join s t <;> rfl
      | some u =>
        have hleft : (fieldJoin join (some s) (some t)).bind (fieldJoin join · (some u)) =
            ((join s t).bind (join · u)).map some := by
          show ((join s t).map some).bind _ = _
          cases join s t <;> rfl
        have hright : (fieldJoin join (some t) (some u)).bind (fieldJoin join (some s)) =
            ((join t u).bind (join s)).map some := by
          show ((join t u).map some).bind _ = _
          cases join t u <;> rfl
        rw [hleft, hright, h s rfl]

/-- One direction for structs; the other one is this one read from the right. -/
theorem struct_assoc {f g h : Fields} {v : DataType}
    (hfields : ∀ n, (fieldJoin join (f.lookup n) (g.lookup n)).bind (fieldJoin join · (h.lookup n)) =
      (fieldJoin join (g.lookup n) (h.lookup n)).bind (fieldJoin join (f.lookup n)))
    (hv : (join (.structType f) (.structType g)).bind (join · (.structType h)) = some v) :
    (join (.structType g) (.structType h)).bind (join (.structType f)) = some v := by
  by_cases heq : f = g ∧ g = h
  · obtain ⟨rfl, rfl⟩ := heq
    rw [join_self] at hv ⊢
    exact hv
  · obtain ⟨d, hd, hv⟩ := Option.bind_eq_some_iff.mp hv
    obtain ⟨d, rfl, hmerge⟩ := isMerge_of_join hd
    obtain ⟨x, rfl, hx⟩ := isMerge_of_join hv
    have hright : ∀ n, (fieldJoin join (g.lookup n) (h.lookup n)).bind (fieldJoin join (f.lookup n)) = some (x.lookup n) := by
      intro n
      rw [← hfields n, hmerge.lookup n]
      exact hx.lookup n
    have hdefined : ∀ n, fieldJoin join (g.lookup n) (h.lookup n) ≠ none := by
      intro n hnone
      have hn := hright n
      rw [hnone] at hn
      cases hn
    obtain ⟨e, he, hmerge'⟩ := exists_join_struct hdefined
    have hfe : ∀ n, fieldJoin join (f.lookup n) (e.lookup n) = some (x.lookup n) := by
      intro n
      have hn := hright n
      rw [hmerge'.lookup n] at hn
      exact hn
    obtain ⟨y, hy, hmerge''⟩ := exists_join_struct fun n => by rw [hfe n]; nofun
    -- as the three are not all equal, both results are sorted
    have hsorted : Sorted x := by
      rcases hx.order with ⟨rfl, rfl⟩ | hsorted
      · exact hmerge.order.resolve_left fun hall => heq ⟨hall.1, hall.1.symm.trans hall.2.symm⟩
      · exact hsorted
    have hsorted' : Sorted y := by
      rcases hmerge''.order with ⟨rfl, rfl⟩ | hsorted
      · exact hmerge'.order.resolve_left fun hall => heq ⟨hall.2, hall.1⟩
      · exact hsorted
    rw [he]
    refine hy.trans (congrArg (fun m => some (DataType.structType m)) (sorted_ext hsorted' hsorted fun n => ?_))
    exact Option.some.inj ((hmerge''.lookup n).symm.trans (hfe n))

variable {u : DataType}

/-- Types of different kinds have no join, in either order. -/
theorem assoc_of_kind (h : kind s ≠ kind t ∨ kind t ≠ kind u) :
    (join s t).bind (join · u) = (join t u).bind (join s) := by
  have hleft : (join s t).bind (join · u) = none := by
    rw [Option.bind_eq_none_iff]
    intro v hv
    rcases h with h | h
    · rw [join_eq_none_of_kind h] at hv
      cases hv
    · exact join_eq_none_of_kind fun heq => h ((kind_of_join hv).2.symm.trans heq)
  have hright : (join t u).bind (join s) = none := by
    rw [Option.bind_eq_none_iff]
    intro v hv
    rcases h with h | h
    · exact join_eq_none_of_kind fun heq => h (heq.trans (kind_of_join hv).1)
    · rw [join_eq_none_of_kind h] at hv
      cases hv
  rw [hleft, hright]

theorem join_assoc (s : DataType) : ∀ t u, (join s t).bind (join · u) = (join t u).bind (join s) := by
  induction s using type_induction with
  | atom s harray hstruct =>
    intro t u
    by_cases hkind : kind s = kind t ∧ kind t = kind u
    · rcases atom_cases harray hstruct with ⟨i, hi, rfl, hall⟩ | hall
      · obtain ⟨j, hj, rfl⟩ := hall t hkind.1
        obtain ⟨k, hk, rfl⟩ := hall u (hkind.1.trans hkind.2)
        rw [join_ofIndex hi hj, join_ofIndex hj hk]
        show join _ _ = join _ _
        rw [join_ofIndex (max_lt hi hj) hk, join_ofIndex hi (max_lt hj hk), max_assoc]
      · rw [hall t hkind.1, hall u (hkind.1.trans hkind.2), join_self]
        rfl
    · exact assoc_of_kind (not_and_or.mp hkind)
  | array s ih =>
    intro t u
    by_cases hkind : kind (.arrayType s) = kind t ∧ kind t = kind u
    · obtain ⟨t, rfl⟩ := array_of_kind hkind.1
      obtain ⟨u, rfl⟩ := array_of_kind hkind.2
      have hleft : (join (.arrayType s) (.arrayType t)).bind (join · (.arrayType u)) =
          ((join s t).bind (join · u)).map .arrayType := by
        rw [join_array]
        cases join s t with
        | none => rfl
        | some v => exact join_array v u
      have hright : (join (.arrayType t) (.arrayType u)).bind (join (.arrayType s)) =
          ((join t u).bind (join s)).map .arrayType := by
        rw [join_array]
        cases join t u with
        | none => rfl
        | some v => exact join_array s v
      rw [hleft, hright, ih]
    · exact assoc_of_kind (not_and_or.mp hkind)
  | struct f ih =>
    intro t u
    by_cases hkind : kind (.structType f) = kind t ∧ kind t = kind u
    · obtain ⟨g, rfl⟩ := struct_of_kind hkind.1
      obtain ⟨h, rfl⟩ := struct_of_kind hkind.2
      have hcomm : ∀ x y, fieldJoin join x y = fieldJoin join y x := fun x y => fieldJoin_comm fun s t _ => join_comm s t
      have hfields : ∀ n, (fieldJoin join (f.lookup n) (g.lookup n)).bind (fieldJoin join · (h.lookup n)) =
          (fieldJoin join (g.lookup n) (h.lookup n)).bind (fieldJoin join (f.lookup n)) :=
        fun n => fieldJoin_assoc fun s hs => ih n s hs
      have hreverse : ∀ s t u : DataType, (join s t).bind (join · u) = (join t s).bind (join u) := by
        intro s t u
        rw [join_comm s t]
        exact congrArg _ (funext fun v => join_comm v u)
      have hfields' : ∀ n, (fieldJoin join (h.lookup n) (g.lookup n)).bind (fieldJoin join · (f.lookup n)) =
          (fieldJoin join (g.lookup n) (f.lookup n)).bind (fieldJoin join (h.lookup n)) := by
        intro n
        rw [hcomm (h.lookup n), hcomm (g.lookup n) (f.lookup n), funext fun x => hcomm x (f.lookup n),
          funext fun x => hcomm (h.lookup n) x]
        exact (hfields n).symm
      refine Option.ext fun v => ⟨struct_assoc hfields, fun hv => ?_⟩
      rw [hreverse]
      refine struct_assoc hfields' ?_
      rw [hreverse]
      exact hv
    · exact assoc_of_kind (not_and_or.mp hkind)

/-- **Common supertypes are joins**, as far as the algebra goes. -/
theorem join_laws : PartialJoin.Laws join := ⟨join_self, join_comm, join_assoc⟩

/-! ## The order -/

/-- `Widens s t`: every value of `s` can be read as one of `t`. -/
inductive Widens : DataType → DataType → Prop where
  | refl (t : DataType) : Widens t t
  | numeric {s t : DataType} {i j : Nat} : numericIndex s = some i → numericIndex t = some j → i ≤ j → Widens s t
  | array {s t : DataType} : Widens s t → Widens (.arrayType s) (.arrayType t)
  | struct {f g : Fields} : (∀ n s, f.lookup n = some s → g.lookup n ≠ none) →
      (∀ n s t, f.lookup n = some s → g.lookup n = some t → Widens s t) → Widens (.structType f) (.structType g)

theorem kind_of_numeric (h : numericIndex t = some i) : kind t = .integerType := by
  cases t <;> first | rfl | cases h

namespace Widens

variable {s t : DataType}

theorem kind_eq (h : Widens s t) : kind s = kind t := by
  cases h with
  | refl => rfl
  | numeric hs ht => exact (kind_of_numeric hs).trans (kind_of_numeric ht).symm
  | array => rfl
  | struct => rfl

theorem ofIndex_le {i j : Nat} (hi : i < 3) (hj : j < 3) (h : Widens (ofIndex i) (ofIndex j)) : i ≤ j := by
  have hle : ∀ {s t : DataType}, Widens s t → numericIndex s = some i → numericIndex t = some j → i ≤ j := by
    intro s t h hs ht
    cases h with
    | refl => exact (Option.some.inj (hs.symm.trans ht)).le
    | numeric hs' ht' hle =>
      rw [hs] at hs'
      rw [ht] at ht'
      cases hs'
      cases ht'
      exact hle
    | array => cases hs
    | struct => cases hs
  exact hle h (numericIndex_ofIndex hi) (numericIndex_ofIndex hj)

theorem of_array (h : Widens (.arrayType s) (.arrayType t)) : Widens s t := by
  cases h with
  | refl => exact .refl s
  | numeric hs => cases hs
  | array h => exact h

theorem of_struct {f g : Fields} (h : Widens (.structType f) (.structType g)) {n : String}
    (hs : f.lookup n = some s) : ∃ t, g.lookup n = some t ∧ Widens s t := by
  cases h with
  | refl => exact ⟨s, hs, .refl s⟩
  | numeric hnumeric => cases hnumeric
  | struct hdefined hwidens =>
    obtain ⟨t, ht⟩ := Option.ne_none_iff_exists'.mp (hdefined n s hs)
    exact ⟨t, ht, hwidens n s t hs ht⟩

theorem mk_struct {f g : Fields} (h : ∀ n s, f.lookup n = some s → ∃ t, g.lookup n = some t ∧ Widens s t) :
    Widens (.structType f) (.structType g) := by
  refine .struct (fun n s hs => ?_) (fun n s t hs ht => ?_)
  · obtain ⟨t, ht, -⟩ := h n s hs
    rw [ht]
    nofun
  · obtain ⟨t', ht', hwidens⟩ := h n s hs
    rw [ht] at ht'
    cases ht'
    exact hwidens

theorem trans {u : DataType} (hst : Widens s t) (htu : Widens t u) : Widens s u := by
  induction s using type_induction generalizing t u with
  | atom s harray hstruct =>
    rcases atom_cases harray hstruct with ⟨i, hi, rfl, hall⟩ | hall
    · obtain ⟨j, hj, rfl⟩ := hall t hst.kind_eq
      obtain ⟨k, hk, rfl⟩ := hall u (hst.kind_eq.trans htu.kind_eq)
      exact .numeric (numericIndex_ofIndex hi) (numericIndex_ofIndex hk) ((ofIndex_le hi hj hst).trans (ofIndex_le hj hk htu))
    · rw [hall u (hst.kind_eq.trans htu.kind_eq)]
      exact .refl s
  | array s ih =>
    obtain ⟨t, rfl⟩ := array_of_kind hst.kind_eq
    obtain ⟨u, rfl⟩ := array_of_kind htu.kind_eq
    exact .array (ih hst.of_array htu.of_array)
  | struct f ih =>
    obtain ⟨g, rfl⟩ := struct_of_kind hst.kind_eq
    obtain ⟨h, rfl⟩ := struct_of_kind htu.kind_eq
    refine mk_struct fun n s hs => ?_
    obtain ⟨t, ht, hst⟩ := hst.of_struct hs
    obtain ⟨u, hu, htu⟩ := htu.of_struct ht
    exact ⟨u, hu, ih n s hs hst htu⟩

end Widens

/-- A common supertype is above the first type. -/
theorem widens_left (h : join s t = some u) : Widens s u := by
  induction s using type_induction generalizing t u with
  | atom s harray hstruct =>
    have hkind := (kind_of_join h).1.symm.trans (kind_of_join h).2
    rcases atom_cases harray hstruct with ⟨i, hi, rfl, hall⟩ | hall
    · obtain ⟨j, hj, rfl⟩ := hall t hkind
      rw [join_ofIndex hi hj] at h
      cases h
      exact .numeric (numericIndex_ofIndex hi) (numericIndex_ofIndex (max_lt hi hj)) (le_max_left i j)
    · rw [hall t hkind, join_self] at h
      cases h
      exact .refl s
  | array s ih =>
    obtain ⟨t, rfl⟩ := array_of_kind ((kind_of_join h).1.symm.trans (kind_of_join h).2)
    rw [join_array] at h
    obtain ⟨v, hv, rfl⟩ := Option.map_eq_some_iff.mp h
    exact .array (ih hv)
  | struct f ih =>
    obtain ⟨g, rfl⟩ := struct_of_kind ((kind_of_join h).1.symm.trans (kind_of_join h).2)
    obtain ⟨m, rfl, hm⟩ := isMerge_of_join h
    refine .mk_struct fun n s hs => ?_
    have hlookup := hm.lookup n
    rw [hs] at hlookup
    cases hg : g.lookup n with
    | none =>
      rw [hg] at hlookup
      exact ⟨s, (Option.some.inj hlookup).symm, .refl s⟩
    | some t =>
      rw [hg] at hlookup
      obtain ⟨v, hv, heq⟩ := Option.map_eq_some_iff.mp hlookup
      exact ⟨v, heq.symm, ih n s hs hv⟩

/-- **A common supertype is above both types.** -/
theorem widens_join (h : join s t = some u) : Widens s u ∧ Widens t u :=
  ⟨widens_left h, widens_left ((join_comm t s).trans h)⟩

/-- **Types below a common one have a common supertype, which is below that one.** -/
theorem join_least (hs : Widens s u) (ht : Widens t u) : ∃ c, join s t = some c ∧ Widens c u := by
  induction s using type_induction generalizing t u with
  | atom s harray hstruct =>
    have hkind := hs.kind_eq.trans ht.kind_eq.symm
    rcases atom_cases harray hstruct with ⟨i, hi, rfl, hall⟩ | hall
    · obtain ⟨j, hj, rfl⟩ := hall t hkind
      obtain ⟨k, hk, rfl⟩ := hall u hs.kind_eq
      refine ⟨_, join_ofIndex hi hj, .numeric (numericIndex_ofIndex (max_lt hi hj)) (numericIndex_ofIndex hk) ?_⟩
      exact max_le (hs.ofIndex_le hi hk) (ht.ofIndex_le hj hk)
    · rw [hall t hkind]
      exact ⟨s, join_self s, hs⟩
  | array s ih =>
    obtain ⟨u, rfl⟩ := array_of_kind hs.kind_eq
    obtain ⟨t, rfl⟩ := array_of_kind ht.kind_eq.symm
    obtain ⟨c, hc, hcu⟩ := ih hs.of_array ht.of_array
    exact ⟨.arrayType c, by rw [join_array, hc]; rfl, .array hcu⟩
  | struct f ih =>
    obtain ⟨h, rfl⟩ := struct_of_kind hs.kind_eq
    obtain ⟨g, rfl⟩ := struct_of_kind ht.kind_eq.symm
    have hfields : ∀ n, ∃ x, fieldJoin join (f.lookup n) (g.lookup n) = some x ∧
        ∀ c, x = some c → ∃ u, h.lookup n = some u ∧ Widens c u := by
      intro n
      cases hf : f.lookup n with
      | none => exact ⟨g.lookup n, rfl, fun c hc => ht.of_struct hc⟩
      | some s =>
        obtain ⟨u, hu, hsu⟩ := hs.of_struct hf
        cases hg : g.lookup n with
        | none => exact ⟨some s, rfl, fun c hc => ⟨u, hu, Option.some.inj hc ▸ hsu⟩⟩
        | some t =>
          obtain ⟨u', hu', htu⟩ := ht.of_struct hg
          rw [hu] at hu'
          cases hu'
          obtain ⟨c, hc, hcu⟩ := ih n s hf hsu htu
          refine ⟨some c, ?_, fun d hd => ⟨u, hu, Option.some.inj hd ▸ hcu⟩⟩
          show (join s t).map some = _
          rw [hc]
          rfl
    have hdefined : ∀ n, fieldJoin join (f.lookup n) (g.lookup n) ≠ none := by
      intro n
      obtain ⟨x, hx, -⟩ := hfields n
      rw [hx]
      nofun
    obtain ⟨m, hm, hmerge⟩ := exists_join_struct hdefined
    refine ⟨.structType m, hm, .mk_struct fun n c hc => ?_⟩
    obtain ⟨x, hx, hall⟩ := hfields n
    exact hall c ((Option.some.inj (hx.symm.trans (hmerge.lookup n))).trans hc)

/-! ## The element type of a list -/

/-! ## Types of values -/

/-- `infer_dtype_from_pyobj`, where it does not raise. -/
def typeOf (value : PyObj) : Option DataType := (inferDtypeFromPyobj "" value).toOption

variable {path : String} {first u : DataType} {types : List DataType}

theorem foldlM_eq_ok :
    types.foldlM (findCommonSupertype path) first = .ok u ↔ types.foldlM join first = some u := by
  induction types generalizing first with
  | nil => exact ⟨fun h => congrArg some (Except.ok.inj h), fun h => congrArg Except.ok (Option.some.inj h)⟩
  | cons t types ih =>
    rw [List.foldlM_cons, List.foldlM_cons, Except.bind_eq_ok]
    show _ ↔ (join first t).bind (fun v => types.foldlM join v) = some u
    rw [Option.bind_eq_some_iff]
    exact exists_congr fun v => and_congr findCommonSupertype_eq_ok ih

mutual

theorem inferDtypeFromPyobj_path : ∀ (value : PyObj) (path path' : String) (t : DataType),
    inferDtypeFromPyobj path value = .ok t → inferDtypeFromPyobj path' value = .ok t
  | .bool _, _, _, _, h => h
  | .int _, _, _, _, h => h
  | .float _, _, _, _, h => h
  | .str _, _, _, _, h => h
  | .datetime _, _, _, _, h => h
  | .date _, _, _, _, h => h
  | .none, _, _, _, h => nomatch h
  | .other _, _, _, _, h => nomatch h
  | .list items, path, path', t, h => by
    rw [inferDtypeFromPyobj, Except.bind_eq_ok] at h ⊢
    obtain ⟨types, htypes, h⟩ := h
    refine ⟨types, inferItems_path items path path' 0 0 types htypes, ?_⟩
    cases types with
    | nil => cases h
    | cons first rest =>
      obtain ⟨u, hu, rfl⟩ := Except.map_eq_ok.mp h
      exact Except.map_eq_ok.mpr ⟨u, foldlM_eq_ok.mpr (foldlM_eq_ok.mp hu), rfl⟩
  | .dict entries, path, path', t, h => by
    obtain ⟨fields, hfields, rfl⟩ := Except.map_eq_ok.mp h
    exact Except.map_eq_ok.mpr ⟨fields, inferEntries_path entries path path' fields hfields, rfl⟩

theorem inferItems_path : ∀ (items : List PyObj) (path path' : String) (i i' : Nat) (types : List DataType),
    inferItems path i items = .ok types → inferItems path' i' items = .ok types
  | [], _, _, _, _, _, h => h
  | item :: items, path, path', i, i', types, h => by
    rw [inferItems] at h ⊢
    simp only [Except.bind_eq_ok, Except.pure_eq_ok] at h ⊢
    obtain ⟨t, ht, ts, hts, heq⟩ := h
    exact ⟨t, inferDtypeFromPyobj_path item _ _ t ht, ts, inferItems_path items path path' (i + 1) (i' + 1) ts hts, heq⟩

theorem inferEntries_path : ∀ (entries : List (String × PyObj)) (path path' : String) (fields : Fields),
    inferEntries path entries = .ok fields → inferEntries path' entries = .ok fields
  | [], _, _, _, h => h
  | (key, value) :: entries, path, path', fields, h => by
    rw [inferEntries] at h ⊢
    simp only [Except.bind_eq_ok, Except.pure_eq_ok] at h ⊢
    obtain ⟨t, ht, rest, hrest, heq⟩ := h
    exact ⟨t, inferDtypeFromPyobj_path value _ _ t ht, rest, inferEntries_path entries path path' rest hrest, heq⟩

end

theorem inferDtypeFromPyobj_eq_ok {value : PyObj} {t : DataType} :
    inferDtypeFromPyobj path value = .ok t ↔ typeOf value = some t := by
  rw [typeOf, toOption_eq_some]
  exact ⟨inferDtypeFromPyobj_path value path "" t, inferDtypeFromPyobj_path value "" path t⟩

variable {items : List PyObj}

/-- The type of every value of a list, in order. -/
theorem inferItems_eq_ok {i : Nat} :
    inferItems path i items = .ok types ↔ items.map typeOf = types.map some := by
  induction items generalizing i types with
  | nil =>
    cases types with
    | nil => exact ⟨fun _ => rfl, fun _ => rfl⟩
    | cons t types => exact ⟨nofun, nofun⟩
  | cons item items ih =>
    rw [inferItems]
    simp only [Except.bind_eq_ok, Except.pure_eq_ok]
    constructor
    · rintro ⟨t, ht, ts, hts, heq⟩
      cases heq
      rw [List.map_cons, List.map_cons, inferDtypeFromPyobj_eq_ok.mp ht, ih.mp hts]
    · intro h
      cases types with
      | nil => cases h
      | cons t ts =>
        obtain ⟨ht, hts⟩ := List.cons.inj h
        exact ⟨t, inferDtypeFromPyobj_eq_ok.mpr ht, ts, ih.mpr hts, rfl⟩

theorem typeOf_list :
    typeOf (.list items) = some u ↔
      ∃ first rest e, items.map typeOf = (first :: rest).map some ∧ rest.foldlM join first = some e ∧ u = .arrayType e := by
  rw [typeOf, toOption_eq_some, inferDtypeFromPyobj, Except.bind_eq_ok]
  constructor
  · rintro ⟨types, htypes, h⟩
    cases types with
    | nil => cases h
    | cons first rest =>
      obtain ⟨e, he, rfl⟩ := Except.map_eq_ok.mp h
      exact ⟨first, rest, e, inferItems_eq_ok.mp htypes, foldlM_eq_ok.mp he, rfl⟩
  · rintro ⟨first, rest, e, htypes, he, rfl⟩
    exact ⟨first :: rest, inferItems_eq_ok.mpr htypes, Except.map_eq_ok.mpr ⟨e, foldlM_eq_ok.mpr he, rfl⟩⟩

/-! ## Lists with the same elements -/

theorem mem_types (h : items.map typeOf = types.map some) {t : DataType} :
    t ∈ types ↔ ∃ value ∈ items, typeOf value = some t := by
  have hmap : some t ∈ types.map some ↔ t ∈ types := List.mem_map_of_injective (Option.some_injective _)
  rw [← hmap, ← h, List.mem_map]

theorem exists_types (h : ∀ value ∈ items, ∃ t, typeOf value = some t) :
    ∃ types : List DataType, items.map typeOf = types.map some := by
  induction items with
  | nil => exact ⟨[], rfl⟩
  | cons value items ih =>
    obtain ⟨t, ht⟩ := h value List.mem_cons_self
    obtain ⟨types, htypes⟩ := ih fun value hvalue => h value (List.mem_cons_of_mem _ hvalue)
    exact ⟨t :: types, by rw [List.map_cons, List.map_cons, ht, htypes]⟩

theorem typeOf_congr {items' : List PyObj} (hmem : ∀ value, value ∈ items ↔ value ∈ items')
    (h : typeOf (.list items) = some u) : typeOf (.list items') = some u := by
  obtain ⟨first, rest, e, htypes, he, rfl⟩ := typeOf_list.mp h
  have hall : ∀ value ∈ items', ∃ t, typeOf value = some t := by
    intro value hvalue
    have hsome : typeOf value ∈ (first :: rest).map some := by
      rw [← htypes]
      exact List.mem_map_of_mem ((hmem value).mpr hvalue)
    obtain ⟨t, -, ht⟩ := List.mem_map.mp hsome
    exact ⟨t, ht.symm⟩
  obtain ⟨types, htypes'⟩ := exists_types hall
  have hsame : ∀ t, t ∈ first :: rest ↔ t ∈ types := by
    intro t
    rw [mem_types htypes, mem_types htypes']
    exact exists_congr fun value => and_congr (hmem value) Iff.rfl
  cases types with
  | nil => exact absurd ((hsame first).mp List.mem_cons_self) List.not_mem_nil
  | cons first' rest' =>
    refine typeOf_list.mpr ⟨first', rest', e, htypes', ?_, rfl⟩
    rw [← join_laws.foldlM_congr hsame]
    exact he

/-! ## The least common supertype -/

def IsCommonSupertype (types : List DataType) (u : DataType) : Prop := ∀ t ∈ types, Widens t u

structure IsLeastCommonSupertype (types : List DataType) (u : DataType) : Prop where
  upper : IsCommonSupertype types u
  least (v : DataType) : IsCommonSupertype types v → Widens u v

theorem exists_foldlM {v : DataType} {rest : List DataType} (hv : IsCommonSupertype (first :: rest) v) :
    ∃ e, rest.foldlM join first = some e ∧ Widens e v :=
  PartialJoin.foldlM_least @join_least hv

theorem foldlM_isLeast {e : DataType} {rest : List DataType} (h : rest.foldlM join first = some e) :
    IsLeastCommonSupertype (first :: rest) e := by
  refine ⟨PartialJoin.foldlM_upper Widens.refl Widens.trans widens_join h, fun v hv => ?_⟩
  obtain ⟨c, hc, hcv⟩ := exists_foldlM hv
  rw [h] at hc
  exact Option.some.inj hc ▸ hcv

/-- **The inference of a list is a join.** With the same elements, in any order and any number, it gives the same type or
fails alike; the element type is the least common supertype of the types of the elements; and it only fails where an element
has no type, or they have no common supertype, or there is no element. -/
theorem inference_isJoin (path : String) (items : List PyObj) :
    (∀ (path' : String) (items' : List PyObj), (∀ value, value ∈ items' ↔ value ∈ items) →
      (inferDtypeFromPyobj path' (.list items')).toOption = (inferDtypeFromPyobj path (.list items)).toOption) ∧
    (∀ u, inferDtypeFromPyobj path (.list items) = .ok u →
      ∃ types e, items.map typeOf = types.map some ∧ u = .arrayType e ∧ IsLeastCommonSupertype types e) ∧
    ((∃ u, inferDtypeFromPyobj path (.list items) = .ok u) ↔
      items ≠ [] ∧ ∃ types v, items.map typeOf = types.map some ∧ IsCommonSupertype types v) := by
  refine ⟨fun path' items' hmem => Option.ext fun u => ?_, fun u hu => ?_, ?_⟩
  · rw [toOption_eq_some, toOption_eq_some, inferDtypeFromPyobj_eq_ok, inferDtypeFromPyobj_eq_ok]
    exact ⟨typeOf_congr hmem, typeOf_congr fun value => (hmem value).symm⟩
  · obtain ⟨first, rest, e, htypes, he, rfl⟩ := typeOf_list.mp (inferDtypeFromPyobj_eq_ok.mp hu)
    exact ⟨first :: rest, e, htypes, rfl, foldlM_isLeast he⟩
  · constructor
    · rintro ⟨u, hu⟩
      obtain ⟨first, rest, e, htypes, he, rfl⟩ := typeOf_list.mp (inferDtypeFromPyobj_eq_ok.mp hu)
      refine ⟨fun hnil => ?_, first :: rest, e, htypes, (foldlM_isLeast he).upper⟩
      rw [hnil] at htypes
      cases htypes
    · rintro ⟨hne, types, v, htypes, hv⟩
      cases types with
      | nil => exact absurd (List.map_eq_nil_iff.mp htypes) hne
      | cons first rest =>
        obtain ⟨e, he, -⟩ := exists_foldlM hv
        exact ⟨.arrayType e, inferDtypeFromPyobj_eq_ok.mpr (typeOf_list.mpr ⟨first, rest, e, htypes, he, rfl⟩)⟩

/-- Numbers are merged with floats, and a key that one dict lacks is a field. -/
theorem inference_merged :
    (inferDtypeFromPyobj "" (.list [.dict [("b", .int 1)], .dict [("b", .float .nan), ("a", .str "x")],
        .dict [("b", .int 1)]])).toOption =
      some (.arrayType (.structType [("a", .stringType), ("b", .floatType)])) := by
  decide +kernel

end TypeInference

end Fenic
