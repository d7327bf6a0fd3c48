import Mathlib.Data.List.Pairwise

/-!
# `Lib.Nesting` — which entries of a list are nested in which

Some entries of a list have a level and open a section; it lasts until an entry comes whose level is not above its own. An entry is
nested in the nearest section that is open at it (`IsParent`).

The sections that are open after some entries are a stack, with the latest on top. An entry with a level closes the top of the stack
as long as its level is not above that of the top; then the top is its parent (`Tracks.isParent`), and it goes on the stack itself
(`Tracks.push`).
-/

namespace Nesting

variable {α : Type*} (level : α → Option Nat)

/-- The level of the entry at a position, if there is one and it has a level. -/
def levelAt (entries : List α) (i : Nat) : Option Nat :=
  entries[i]?.bind level

/-- The section of the first position is open at the second: no entry up to there, with it, has a level that is not above its own. -/
def Encloses (entries : List α) (j i : Nat) : Prop :=
  j < i ∧ ∃ l, levelAt level entries j = some l ∧ ∀ k l', j < k → k ≤ i → levelAt level entries k = some l' → l < l'

/-- The parent of a position is the nearest section that is open at it. -/
def IsParent (entries : List α) (i : Nat) : Option Nat → Prop
  | some j => Encloses level entries j i ∧ ∀ j', Encloses level entries j' i → j' ≤ j
  | none => ∀ j, ¬ Encloses level entries j i

/-- The section of the position is open after all entries. -/
def IsOpen (entries : List α) (j : Nat) : Prop :=
  ∃ l, levelAt level entries j = some l ∧ ∀ k l', j < k → levelAt level entries k = some l' → l < l'

/-- The stack holds the open sections, the latest first. -/
structure Tracks (entries : List α) (stack : List Nat) : Prop where
  descending : stack.Pairwise (· > ·)
  mem_iff : ∀ j, j ∈ stack ↔ IsOpen level entries j

/-- An entry of the level closes the section. -/
def closes (entries : List α) (l j : Nat) : Bool :=
  match levelAt level entries j with
  | some l' => decide (l ≤ l')
  | none => true

/-- What an entry leaves of the stack. -/
def kept (entries : List α) (entry : α) (stack : List Nat) : List Nat :=
  match level entry with
  | some l => stack.dropWhile (closes level entries l)
  | none => stack

variable {level}

/-! ## Levels -/

variable {i : Nat}

theorem lt_of_levelAt {entries : List α} {l : Nat} (h : levelAt level entries i = some l) : i < entries.length := by
  obtain ⟨entry, hentry, -⟩ := Option.bind_eq_some_iff.mp h
  exact (List.getElem?_eq_some_iff.mp hentry).1

theorem levelAt_append {entries : List α} (h : i < entries.length) (more : List α) :
    levelAt level (entries ++ more) i = levelAt level entries i := by
  unfold levelAt
  rw [List.getElem?_append_left h]

theorem levelAt_length (entries : List α) (entry : α) (more : List α) :
    levelAt level (entries ++ entry :: more) entries.length = level entry := by
  unfold levelAt
  rw [List.getElem?_append_right (Nat.le_refl _), Nat.sub_self]
  rfl

variable {j : Nat}

/-- Later entries change nothing about the sections that are open at a position. -/
theorem encloses_append {entries : List α} (h : i < entries.length) (more : List α) :
    Encloses level (entries ++ more) j i ↔ Encloses level entries j i := by
  apply and_congr_right
  intro hlt
  rw [levelAt_append (by omega)]
  refine exists_congr fun l => and_congr_right fun _ => ?_
  constructor
  · intro hall k l' hjk hki hlevel
    exact hall k l' hjk hki (by rwa [levelAt_append (by omega)])
  · intro hall k l' hjk hki hlevel
    rw [levelAt_append (by omega)] at hlevel
    exact hall k l' hjk hki hlevel

theorem isParent_append {entries : List α} {parent : Option Nat} (h : i < entries.length) (more : List α) :
    IsParent level (entries ++ more) i parent ↔ IsParent level entries i parent := by
  cases parent with
  | none => exact forall_congr' fun j => not_congr (encloses_append h more)
  | some j =>
    refine and_congr (encloses_append h more) (forall_congr' fun j' => ?_)
    rw [encloses_append h more]

/-! ## One entry more -/

variable {entry : α}

/-- A section is open at a new entry if it was open before and its level is below that of the entry. -/
theorem encloses_last {entries : List α} :
    Encloses level (entries ++ [entry]) j entries.length ↔
      IsOpen level entries j ∧ ∀ l l', levelAt level entries j = some l → level entry = some l' → l < l' := by
  constructor
  · rintro ⟨hlt, l, hlevel, hall⟩
    rw [levelAt_append hlt] at hlevel
    refine ⟨⟨l, hlevel, ?_⟩, ?_⟩
    · intro k l' hjk hlevel'
      have hk := lt_of_levelAt hlevel'
      exact hall k l' hjk (Nat.le_of_lt hk) (by rwa [levelAt_append hk])
    · intro l₁ l' hl₁ hentry
      rw [hlevel] at hl₁
      cases hl₁
      exact hall entries.length l' hlt (Nat.le_refl _) (by rwa [levelAt_length])
  · rintro ⟨⟨l, hlevel, hall⟩, hbelow⟩
    have hlt := lt_of_levelAt hlevel
    refine ⟨hlt, l, by rwa [levelAt_append hlt], ?_⟩
    intro k l' hjk hki hlevel'
    rcases Nat.lt_or_eq_of_le hki with hk | rfl
    · rw [levelAt_append hk] at hlevel'
      exact hall k l' hjk hlevel'
    · rw [levelAt_length] at hlevel'
      exact hbelow l l' hlevel hlevel'

theorem isOpen_concat {entries : List α} :
    IsOpen level (entries ++ [entry]) j ↔
      Encloses level (entries ++ [entry]) j entries.length ∨ (j = entries.length ∧ (level entry).isSome) := by
  constructor
  · rintro ⟨l, hlevel, hall⟩
    have hle := lt_of_levelAt hlevel
    rw [List.length_append, List.length_singleton] at hle
    rcases Nat.lt_or_eq_of_le (Nat.le_of_lt_succ hle) with hlt | rfl
    · exact .inl ⟨hlt, l, hlevel, fun k l' hjk _ => hall k l' hjk⟩
    · rw [levelAt_length] at hlevel
      exact .inr ⟨rfl, by rw [hlevel]; rfl⟩
  · rintro (⟨hlt, l, hlevel, hall⟩ | ⟨rfl, hentry⟩)
    · refine ⟨l, hlevel, fun k l' hjk hlevel' => hall k l' hjk ?_ hlevel'⟩
      have hk := lt_of_levelAt hlevel'
      rw [List.length_append, List.length_singleton] at hk
      omega
    · obtain ⟨l, hl⟩ := Option.isSome_iff_exists.mp hentry
      refine ⟨l, by rwa [levelAt_length], fun k l' hjk hlevel' => ?_⟩
      have hk := lt_of_levelAt hlevel'
      rw [List.length_append, List.length_singleton] at hk
      omega

/-! ## The stack -/

theorem mem_dropWhile_iff {β : Type*} {p : β → Bool} {xs : List β} (h : xs.Pairwise fun x y => p y = true → p x = true) {x : β} :
    x ∈ xs.dropWhile p ↔ x ∈ xs ∧ p x = false := by
  induction xs with
  | nil => simp
  | cons first xs ih =>
    obtain ⟨hfirst, hxs⟩ := List.pairwise_cons.mp h
    cases hp : p first with
    | true =>
      rw [List.dropWhile_cons_of_pos hp, ih hxs, List.mem_cons]
      constructor
      · exact fun hmem => ⟨.inr hmem.1, hmem.2⟩
      · rintro ⟨rfl | hmem, hx⟩
        · rw [hp] at hx
          cases hx
        · exact ⟨hmem, hx⟩
    | false =>
      rw [List.dropWhile_cons_of_neg (by rw [hp]; exact Bool.false_ne_true)]
      refine ⟨fun hmem => ⟨hmem, ?_⟩, fun hmem => hmem.1⟩
      rcases List.mem_cons.mp hmem with rfl | hmem
      · exact hp
      · cases hx : p x with
        | false => rfl
        | true =>
          rw [hfirst x hmem hx] at hp
          cases hp

variable {entries : List α} {stack : List Nat}

theorem tracks_nil : Tracks level ([] : List α) [] where
  descending := .nil
  mem_iff j := by
    refine iff_of_false List.not_mem_nil ?_
    rintro ⟨l, hlevel, -⟩
    exact absurd (lt_of_levelAt hlevel) (Nat.not_lt_zero _)

/-- The levels on the stack go down with the positions. -/
theorem Tracks.levels_descending (h : Tracks level entries stack) {l : Nat} :
    stack.Pairwise fun j j' => closes level entries l j' = true → closes level entries l j = true := by
  refine h.descending.imp_of_mem fun {j j'} hj hj' hlt hcloses => ?_
  obtain ⟨l₁, hlevel, -⟩ := (h.mem_iff j).mp hj
  obtain ⟨l₂, hlevel', hall⟩ := (h.mem_iff j').mp hj'
  have hbelow := hall j l₁ hlt hlevel
  unfold closes at hcloses ⊢
  rw [hlevel'] at hcloses
  rw [hlevel]
  have hle := of_decide_eq_true hcloses
  exact decide_eq_true (by omega)

/-- What is left of the stack are the sections that are open at the new entry. -/
theorem Tracks.mem_kept (h : Tracks level entries stack) :
    j ∈ kept level entries entry stack ↔ Encloses level (entries ++ [entry]) j entries.length := by
  rw [encloses_last, ← h.mem_iff]
  unfold kept
  cases hentry : level entry with
  | none => exact ⟨fun hmem => ⟨hmem, nofun⟩, fun hmem => hmem.1⟩
  | some l =>
    rw [mem_dropWhile_iff h.levels_descending]
    apply and_congr_right
    intro hmem
    obtain ⟨l₁, hlevel, -⟩ := (h.mem_iff j).mp hmem
    unfold closes
    rw [hlevel]
    constructor
    · intro hopen l' l'' hl' hl''
      cases hl'
      cases hl''
      exact Nat.not_le.mp (of_decide_eq_false hopen)
    · exact fun hbelow => decide_eq_false (Nat.not_le.mpr (hbelow l₁ l rfl rfl))

theorem Tracks.kept_descending (h : Tracks level entries stack) (entry : α) :
    (kept level entries entry stack).Pairwise (· > ·) := by
  unfold kept
  split
  next => exact h.descending.sublist (List.dropWhile_suffix _).sublist
  next => exact h.descending

/-- **The top of what is left of the stack is the parent of the entry.** -/
theorem Tracks.isParent (h : Tracks level entries stack) (entry : α) :
    IsParent level (entries ++ [entry]) entries.length (kept level entries entry stack).head? := by
  have hdescending := h.kept_descending entry
  cases hkept : kept level entries entry stack with
  | nil =>
    intro j hencloses
    have hmem := h.mem_kept.mpr hencloses
    rw [hkept] at hmem
    exact absurd hmem List.not_mem_nil
  | cons j rest =>
    rw [hkept] at hdescending
    have htop : j ∈ kept level entries entry stack := by
      rw [hkept]
      exact List.mem_cons_self
    refine ⟨h.mem_kept.mp htop, fun j' hencloses => ?_⟩
    have hmem := h.mem_kept.mpr hencloses
    rw [hkept] at hmem
    rcases List.mem_cons.mp hmem with rfl | hmem
    · exact Nat.le_refl _
    · exact Nat.le_of_lt ((List.pairwise_cons.mp hdescending).1 j' hmem)

/-- An entry without a level leaves the stack as it is. -/
theorem Tracks.plain (h : Tracks level entries stack) (hentry : level entry = none) :
    Tracks level (entries ++ [entry]) stack where
  descending := h.descending
  mem_iff j := by
    have hkept : j ∈ kept level entries entry stack ↔ _ := h.mem_kept
    unfold kept at hkept
    rw [isOpen_concat, ← hkept, hentry]
    simp

/-- An entry with a level goes on what is left of the stack. -/
theorem Tracks.push (h : Tracks level entries stack) (hentry : (level entry).isSome) :
    Tracks level (entries ++ [entry]) (entries.length :: kept level entries entry stack) where
  descending := by
    refine List.pairwise_cons.mpr ⟨fun j hmem => ?_, h.kept_descending entry⟩
    exact (h.mem_kept.mp hmem).1
  mem_iff j := by
    rw [List.mem_cons, h.mem_kept, isOpen_concat, or_comm]
    simp [hentry]

end Nesting
