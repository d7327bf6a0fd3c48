import Mathlib.Data.List.Dedup
import Mathlib.Data.List.Forall2
import Mathlib.Data.List.Perm.Basic

/-!
# `Lib.Rows` — table operations on lists of rows

Three operations of a table engine that the list library does not have: keeping the first row of each key,
grouping rows by a key, and picking rows by position. For each there is a transfer lemma: rows that are
related in pairs, with equal keys, give results that are related in pairs.
-/

namespace Rows

variable {α β κ : Type*}

variable {γ : Type*} {R : α → β → Prop} {xs : List α} {ys : List β}

/-- What is computed from related rows in the same way is equal. -/
theorem map_eq_of_forall₂ {f : α → γ} {g : β → γ}
    (hfg : ∀ x y, R x y → g y = f x) (h : List.Forall₂ R xs ys) :
    ys.map g = xs.map f := by
  induction h with
  | nil => rfl
  | cons hxy _ ih => rw [List.map_cons, List.map_cons, hfg _ _ hxy, ih]

theorem exists_right_of_forall₂ (h : List.Forall₂ R xs ys) {x : α}
    (hx : x ∈ xs) : ∃ y ∈ ys, R x y := by
  induction h with
  | nil => cases hx
  | cons hxy _ ih =>
    rcases List.mem_cons.mp hx with rfl | hx
    · exact ⟨_, List.mem_cons_self, hxy⟩
    · obtain ⟨y, hy, hxy⟩ := ih hx
      exact ⟨y, List.mem_cons_of_mem _ hy, hxy⟩

theorem exists_left_of_forall₂ (h : List.Forall₂ R xs ys) {y : β}
    (hy : y ∈ ys) : ∃ x ∈ xs, R x y :=
  exists_right_of_forall₂ h.flip hy

variable {f : α → Option β}

/-- A list computation has a result when every item has one. -/
theorem mapM_eq_some :
    xs.mapM f = some ys ↔ xs.map f = ys.map some := by
  induction xs generalizing ys with
  | nil =>
    rw [List.mapM_nil, List.map_nil, eq_comm (a := []), List.map_eq_nil_iff]
    exact ⟨fun h => (Option.some_inj.mp h).symm, fun h => congrArg some h.symm⟩
  | cons x xs ih =>
    rw [List.mapM_cons, List.map_cons]
    constructor
    · intro h
      obtain ⟨y, hy, h⟩ := Option.bind_eq_some_iff.mp h
      obtain ⟨ys', hys, h⟩ := Option.bind_eq_some_iff.mp h
      cases h
      rw [hy, ih.mp hys, List.map_cons]
    · intro h
      cases ys with
      | nil => cases h
      | cons y ys =>
        obtain ⟨hy, hys⟩ := List.cons.inj h
        rw [hy, ih.mpr hys]
        rfl

theorem mapM_isSome :
    (∃ ys, xs.mapM f = some ys) ↔ ∀ x ∈ xs, ∃ y, f x = some y := by
  constructor
  · rintro ⟨ys, hys⟩ x hx
    have hmem : f x ∈ ys.map some := mapM_eq_some.mp hys ▸ List.mem_map_of_mem hx
    obtain ⟨y, -, hy⟩ := List.mem_map.mp hmem
    exact ⟨y, hy.symm⟩
  · intro h
    induction xs with
    | nil => exact ⟨[], rfl⟩
    | cons x xs ih =>
      obtain ⟨y, hy⟩ := h x List.mem_cons_self
      obtain ⟨ys, hys⟩ := ih fun x' hx' => h x' (List.mem_cons_of_mem _ hx')
      exact ⟨y :: ys, by rw [List.mapM_cons, hy, hys]; rfl⟩

/-- What stands for the items has their values, when each that stands for an item has its value. -/
theorem mapM_image_iff {g : α → Option γ} {f' : γ → Option β} {P : α → Prop}
    (h : ∀ x y z, f x = some y → g x = some z → (f' z = some y ↔ P x)) {zs : List γ}
    (hf : xs.mapM f = some ys) (hg : xs.mapM g = some zs) : zs.mapM f' = some ys ↔ ∀ x ∈ xs, P x := by
  rw [mapM_eq_some] at hf hg ⊢
  induction xs generalizing ys zs with
  | nil =>
    obtain rfl := List.map_eq_nil_iff.mp hf.symm
    obtain rfl := List.map_eq_nil_iff.mp hg.symm
    simp
  | cons x xs ih =>
    obtain ⟨y, ys, rfl, hy, hys⟩ := List.map_eq_cons_iff.mp hf.symm
    obtain ⟨z, zs, rfl, hz, hzs⟩ := List.map_eq_cons_iff.mp hg.symm
    rw [List.map_cons, List.map_cons, List.cons.injEq, ih hys.symm hzs.symm, h x y z hy.symm hz.symm,
      List.forall_mem_cons]

/-- What the results of the items have, the items determine. -/
theorem map_of_mapM {p : β → γ} {g : α → γ} (hf : ∀ x y, f x = some y → p y = g x)
    (h : xs.mapM f = some ys) : ys.map p = xs.map g := by
  have heq := mapM_eq_some.mp h
  clear h
  induction xs generalizing ys with
  | nil => rw [List.map_eq_nil_iff.mp heq.symm]; rfl
  | cons x xs ih =>
    cases ys with
    | nil => cases heq
    | cons y ys =>
      obtain ⟨hy, hys⟩ := List.cons.inj heq
      rw [List.map_cons, List.map_cons, hf x y hy, ih hys]

/-! ## The first row of each key -/

section

variable [DecidableEq κ]

/-- The rows whose key no earlier row has. -/
def uniqueBy (key : α → κ) : List α → List α
  | [] => []
  | x :: xs => x :: (uniqueBy key xs).filter (fun y => decide (key y ≠ key x))

theorem uniqueBy_sublist (key : α → κ) (xs : List α) : (uniqueBy key xs).Sublist xs := by
  induction xs with
  | nil => exact List.Sublist.refl []
  | cons x xs ih =>
    rw [uniqueBy]
    exact (List.filter_sublist.trans ih).cons_cons x

/-- Without duplicates, all rows stay. -/
theorem uniqueBy_id {xs : List κ} (h : xs.Nodup) : uniqueBy id xs = xs := by
  induction xs with
  | nil => rfl
  | cons x xs ih =>
    obtain ⟨hx, hxs⟩ := List.nodup_cons.mp h
    rw [uniqueBy, ih hxs, List.filter_eq_self.mpr]
    intro y hy
    exact decide_eq_true fun heq : y = x => hx (heq ▸ hy)

variable {key : α → κ} {xs : List α}

/-- No key is lost. -/
theorem exists_mem_uniqueBy {x : α} (hx : x ∈ xs) :
    ∃ y ∈ uniqueBy key xs, key y = key x := by
  induction xs with
  | nil => cases hx
  | cons x' xs ih =>
    rw [uniqueBy]
    rcases List.mem_cons.mp hx with rfl | hx
    · exact ⟨x, List.mem_cons_self, rfl⟩
    · obtain ⟨y, hy, hkey⟩ := ih hx
      by_cases heq : key y = key x'
      · exact ⟨x', List.mem_cons_self, heq.symm.trans hkey⟩
      · exact ⟨y, List.mem_cons_of_mem _ (List.mem_filter.mpr ⟨hy, decide_eq_true heq⟩), hkey⟩

theorem forall₂_uniqueBy {R : α → β → Prop} {key' : β → κ}
    (hkey : ∀ x y, R x y → key' y = key x) {ys : List β} (h : List.Forall₂ R xs ys) :
    List.Forall₂ R (uniqueBy key xs) (uniqueBy key' ys) := by
  induction h with
  | nil => exact List.Forall₂.nil
  | @cons x y xs ys hxy _ ih =>
    rw [uniqueBy, uniqueBy]
    refine List.Forall₂.cons hxy (List.rel_filter (fun x' y' hxy' => ?_) ih)
    show decide (key x' ≠ key x) = true ↔ decide (key' y' ≠ key' y) = true
    rw [hkey x y hxy, hkey x' y' hxy']

/-! ## Groups -/

/-- The rows of each key. -/
def groupsBy (key : α → κ) (xs : List α) : List (κ × List α) :=
  (xs.map key).dedup.map (fun k => (k, xs.filter (fun x => decide (key x = k))))

theorem mem_of_mem_groupsBy {g : κ × List α} (hg : g ∈ groupsBy key xs)
    {x : α} (hx : x ∈ g.2) : x ∈ xs := by
  obtain ⟨k, -, rfl⟩ := List.mem_map.mp hg
  exact (List.mem_filter.mp hx).1

theorem forall₂_groupsBy {R : α → β → Prop} {key' : β → κ}
    (hkey : ∀ x y, R x y → key' y = key x) {ys : List β} (h : List.Forall₂ R xs ys) :
    List.Forall₂ (fun g g' => g'.1 = g.1 ∧ List.Forall₂ R g.2 g'.2) (groupsBy key xs)
      (groupsBy key' ys) := by
  have hkeys : ys.map key' = xs.map key := map_eq_of_forall₂ hkey h
  rw [groupsBy, groupsBy, hkeys, List.forall₂_map_left_iff, List.forall₂_map_right_iff, List.forall₂_same]
  intro k _
  refine ⟨rfl, List.rel_filter (fun x y hxy => ?_) h⟩
  show decide (key x = k) = true ↔ decide (key' y = k) = true
  rw [hkey x y hxy]

end

/-! ## Rows by position -/

/-- The rows at the given positions. -/
def pick (positions : List Nat) (xs : List α) : List α :=
  positions.filterMap (fun i => xs[i]?)

theorem pick_range (xs : List α) : pick (List.range xs.length) xs = xs := by
  induction xs with
  | nil => rfl
  | cons x xs ih =>
    have hsucc : pick ((List.range xs.length).map Nat.succ) (x :: xs) = pick (List.range xs.length) xs := by
      rw [pick, List.filterMap_map]
      rfl
    rw [List.length_cons, List.range_succ_eq_map, pick, List.filterMap_cons]
    simp only [List.getElem?_cons_zero]
    exact congrArg (x :: ·) (hsucc.trans ih)

/-- Picking by a permutation of the positions permutes the rows. -/
theorem pick_perm {positions : List Nat} (h : positions.Perm (List.range xs.length)) :
    (pick positions xs).Perm xs := by
  have hpick : (pick positions xs).Perm (pick (List.range xs.length) xs) := h.filterMap _
  rwa [pick_range] at hpick

/-- Going over the positions of a list, with what is there, is going over the list. -/
theorem flatMap_zipIdx {f : α × Nat → List γ} {g : α → List γ}
    (h : ∀ x i, xs[i]? = some x → f (x, i) = g x) : xs.zipIdx.flatMap f = xs.flatMap g := by
  have hfst : xs.zipIdx.map Prod.fst = xs := by simp
  have hfg : xs.zipIdx.flatMap f = xs.zipIdx.flatMap (fun p => g p.1) :=
    List.flatMap_congr fun p hp => h p.1 p.2 (List.mem_zipIdx_iff_getElem?.mp hp)
  rw [hfg, ← List.flatMap_map, hfst]

/-- The positions at which something holds, with what is there. -/
theorem map_filter_zipIdx (q : α → Bool) {f : α × Nat → γ} {g : α → γ}
    (h : ∀ x i, xs[i]? = some x → f (x, i) = g x) : (xs.zipIdx.filter fun p => q p.1).map f = (xs.filter q).map g := by
  have hfst : xs.zipIdx.map Prod.fst = xs := by simp
  have hfg : (xs.zipIdx.filter fun p => q p.1).map f = (xs.zipIdx.filter fun p => q p.1).map fun p => g p.1 :=
    List.map_congr_left fun p hp => h p.1 p.2 (List.mem_zipIdx_iff_getElem?.mp (List.mem_filter.mp hp).1)
  calc (xs.zipIdx.filter fun p => q p.1).map f
      = ((xs.zipIdx.filter (q ∘ Prod.fst)).map Prod.fst).map g := by rw [hfg, List.map_map]; rfl
    _ = ((xs.zipIdx.map Prod.fst).filter q).map g := by rw [List.filter_map]
    _ = (xs.filter q).map g := by rw [hfst]

theorem rel_getElem? (h : List.Forall₂ R xs ys) (i : Nat) :
    Option.Rel R xs[i]? ys[i]? := by
  induction h generalizing i with
  | nil => exact Option.Rel.none
  | cons hxy _ ih =>
    cases i with
    | zero => exact Option.Rel.some hxy
    | succ i => exact ih i

theorem forall₂_pick (positions : List Nat)
    (h : List.Forall₂ R xs ys) : List.Forall₂ R (pick positions xs) (pick positions ys) := by
  exact List.rel_filterMap (fun i j hij => hij ▸ rel_getElem? h i) (List.forall₂_same.mpr (fun i _ => rfl))

/-! ## Filters -/

/-- Of two filters, one of which keeps less, neither keeps more if they keep equally many. -/
theorem of_length_filter_eq {p q : α → Bool} (hpq : ∀ x ∈ xs, p x = true → q x = true)
    (hlength : (xs.filter p).length = (xs.filter q).length) {x : α} (hx : x ∈ xs) (hq : q x = true) : p x = true := by
  have hand : xs.filter p = (xs.filter q).filter p := by
    rw [List.filter_filter]
    apply List.filter_congr
    intro y hy
    cases hp : p y with
    | false => rfl
    | true => exact (hpq y hy hp).symm
  have heq : (xs.filter q).filter p = xs.filter q :=
    List.filter_sublist.eq_of_length (by rw [← hand, hlength])
  have hmem : x ∈ xs.filter q := List.mem_filter.mpr ⟨hx, hq⟩
  rw [← heq] at hmem
  exact (List.mem_filter.mp hmem).2

/-- Rows that all become something, and together become as many, each become one. -/
theorem length_eq_one_of_flatMap {f : α → List β} (hf : ∀ x, 0 < (f x).length)
    (hlength : (xs.flatMap f).length = xs.length) : ∀ x ∈ xs, (f x).length = 1 := by
  have hle : ∀ ys : List α, ys.length ≤ (ys.flatMap f).length := by
    intro ys
    induction ys with
    | nil => exact Nat.le_refl 0
    | cons y ys ih =>
      rw [List.flatMap_cons, List.length_append, List.length_cons]
      have := hf y
      omega
  induction xs with
  | nil => simp
  | cons y ys ih =>
    rw [List.flatMap_cons, List.length_append, List.length_cons] at hlength
    have hhead := hf y
    have htail := hle ys
    intro x hx
    rcases List.mem_cons.mp hx with rfl | hx
    · omega
    · exact ih (by omega) x hx

/-! ## Lookup -/

theorem mem_of_lookup [BEq α] [LawfulBEq α] {entries : List (α × β)} {a : α} {b : β}
    (h : entries.lookup a = some b) : (a, b) ∈ entries := by
  obtain ⟨before, after, rfl, -⟩ := List.lookup_eq_some_iff.mp h
  exact List.mem_append_right _ List.mem_cons_self

theorem exists_lookup [BEq α] [LawfulBEq α] {entries : List (α × β)} {a : α} (h : a ∈ entries.map Prod.fst) :
    ∃ b, entries.lookup a = some b := by
  obtain ⟨entry, hentry, rfl⟩ := List.mem_map.mp h
  exact Option.isSome_iff_exists.mp (List.lookup_isSome_iff.mpr ⟨entry, hentry, beq_self_eq_true _⟩)

theorem not_mem_of_lookup [BEq α] [LawfulBEq α] {entries : List (α × β)} {a : α} (h : entries.lookup a = none) :
    a ∉ entries.map Prod.fst := by
  intro hmem
  obtain ⟨b, hb⟩ := exists_lookup hmem
  rw [h] at hb
  cases hb

/-- The keys, and those without one of them. -/
theorem keys_perm [DecidableEq α] {entries : List (α × β)} (hnodup : (entries.map Prod.fst).Nodup) {a : α}
    (h : a ∈ entries.map Prod.fst) :
    (entries.map Prod.fst).Perm (a :: (entries.filter fun entry => entry.1 ≠ a).map Prod.fst) := by
  have hkeys : (entries.filter fun entry => entry.1 ≠ a).map Prod.fst = (entries.map Prod.fst).erase a := by
    rw [hnodup.erase_eq_filter, List.filter_map]
    congr 2
    funext entry
    simp [bne, Bool.beq_eq_decide_eq]
  rw [hkeys]
  exact List.perm_cons_erase h

/-- Leaving out entries of other keys does not change a lookup. -/
theorem lookup_filter [BEq α] [LawfulBEq α] {p : α → Bool} {a : α} (ha : p a = true) (entries : List (α × β)) :
    (entries.filter (fun entry => p entry.1)).lookup a = entries.lookup a := by
  induction entries with
  | nil => rfl
  | cons entry entries ih =>
    obtain ⟨k, v⟩ := entry
    by_cases hk : p k = true
    · rw [List.filter_cons_of_pos (by exact hk), List.lookup_cons, List.lookup_cons, ih]
    · have hne : (a == k) = false := by
        rw [beq_eq_false_iff_ne]
        rintro rfl
        exact hk ha
      rw [List.filter_cons_of_neg (by exact hk), ih, List.lookup_cons, hne]

theorem lookup_map_self [DecidableEq α] (f : α → β) (keys : List α) (a : α) :
    (keys.map fun k => (k, f k)).lookup a = if a ∈ keys then some (f a) else none := by
  induction keys with
  | nil => rfl
  | cons first keys ih =>
    rw [List.map_cons, List.lookup_cons]
    by_cases heq : a = first
    · simp [heq]
    · simp [beq_false_of_ne heq, ih, heq]

/-- Two columns side by side, read by their positions. -/
theorem zipWith_eq_map_range {f : Option α → Option β → γ} {xs : List (Option α)} {ys : List (Option β)} {n : Nat}
    (hxs : xs.length = n) (hys : ys.length = n) :
    List.zipWith f xs ys = (List.range n).map fun i => f (xs[i]?.getD none) (ys[i]?.getD none) := by
  apply List.ext_getElem
  · simp [hxs, hys]
  · intro i h h'
    rw [List.length_map, List.length_range] at h'
    rw [List.getElem_zipWith, List.getElem_map, List.getElem_range, List.getElem?_eq_getElem (by omega),
      List.getElem?_eq_getElem (by omega)]
    rfl

theorem zipWith_eq_iff {f g : α → β → γ} :
    List.zipWith f xs ys = List.zipWith g xs ys ↔ ∀ row ∈ xs.zip ys, f row.1 row.2 = g row.1 row.2 := by
  induction xs generalizing ys with
  | nil => exact iff_of_true rfl nofun
  | cons x xs ih =>
    cases ys with
    | nil => exact iff_of_true rfl nofun
    | cons y ys =>
      rw [List.zipWith_cons_cons, List.zipWith_cons_cons, List.zip_cons_cons, List.cons.injEq, List.forall_mem_cons, ih]

/-! ## Windows -/

section

variable [DecidableEq κ] {key : α → κ}

/-- The values of each key, in the order of its rows, at the places of the rows. -/
def putBack (key : α → κ) (values : κ → List β) : List α → Option (List β)
  | [] => some []
  | x :: xs =>
    match values (key x) with
    | [] => none
    | y :: ys => (putBack key (Function.update values (key x) ys) xs).map (y :: ·)

/-- A computation over the rows of each key by themselves. -/
def overGroups (key : α → κ) (evaluate : List α → Option (List β)) (xs : List α) : Option (List β) :=
  ((groupsBy key xs).mapM fun group => (evaluate group.2).map fun ys => (group.1, ys)).bind fun groups =>
    putBack key (fun k => (groups.lookup k).getD []) xs

theorem putBack_eq {g : α → β} {values : κ → List β} (h : ∀ k, values k = (xs.filter (fun x => decide (key x = k))).map g) :
    putBack key values xs = some (xs.map g) := by
  induction xs generalizing values with
  | nil => rfl
  | cons x xs ih =>
    have hx : values (key x) = g x :: (xs.filter (fun y => decide (key y = key x))).map g := by
      rw [h, List.filter_cons_of_pos (p := fun y => decide (key y = key x)) (by simp), List.map_cons]
    rw [putBack, hx]
    show (putBack key _ xs).map _ = _
    rw [ih]
    · rfl
    · intro k
      by_cases hk : k = key x
      · rw [hk, Function.update_self]
      · rw [Function.update_of_ne hk, h, List.filter_cons_of_neg (by simpa using Ne.symm hk)]

/-- **A window whose groups are computed row by row is computed row by row.** -/
theorem overGroups_eq {g : α → β} {evaluate : List α → Option (List β)}
    (h : ∀ k, ∀ x ∈ xs, key x = k →
      evaluate (xs.filter (fun x => decide (key x = k))) = some ((xs.filter (fun x => decide (key x = k))).map g)) :
    overGroups key evaluate xs = some (xs.map g) := by
  have hgroups : (groupsBy key xs).mapM (fun group => (evaluate group.2).map fun ys => (group.1, ys)) =
      some ((xs.map key).dedup.map fun k => (k, (xs.filter (fun x => decide (key x = k))).map g)) := by
    rw [mapM_eq_some, groupsBy, List.map_map, List.map_map]
    refine List.map_congr_left fun k hk => ?_
    obtain ⟨x, hx, hkey⟩ := List.mem_map.mp (List.mem_dedup.mp hk)
    show (evaluate _).map _ = _
    rw [h k x hx hkey]
    rfl
  rw [overGroups, hgroups]
  refine putBack_eq fun k => ?_
  rw [lookup_map_self]
  split
  · rfl
  next hk =>
    -- a key that no row has has no rows
    rw [List.mem_dedup, List.mem_map, not_exists] at hk
    rw [List.filter_eq_nil_iff.mpr fun x hx heq => hk x ⟨hx, of_decide_eq_true heq⟩]
    rfl

end

end Rows
