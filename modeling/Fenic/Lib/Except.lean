import Mathlib.Data.List.Forall2
import Mathlib.Logic.Basic

/-!
# `Lib.Except` — reasoning about computations that may raise

A computation in `Except ε` returns or raises. To reason about one written in `do` notation it is enough to
know when each construct *returns*: `bind_eq_ok` takes a sequence apart, `guard_eq_ok` a check that raises.
The lemmas on `ok` and `error` run a computation whose parts are known.
-/

namespace Except

universe u v

variable {ε : Type u} {α β : Type v}

/-! ## Running -/

@[simp] theorem ok_bind (a : α) (f : α → Except ε β) : ((ok a : Except ε α) >>= f) = f a := rfl

@[simp] theorem error_bind (e : ε) (f : α → Except ε β) : ((error e : Except ε α) >>= f) = error e := rfl

@[simp] theorem pure_eq_ok (a : α) : (pure a : Except ε α) = ok a := rfl

@[simp] theorem throw_eq_error (e : ε) : (throw e : Except ε α) = error e := rfl

/-! ## Inversion -/

variable {x : Except ε α}

/-- A sequence returns exactly when its first part does and the rest returns on that value. -/
theorem bind_eq_ok {f : α → Except ε β} {b : β} :
    (x >>= f) = ok b ↔ ∃ a, x = ok a ∧ f a = ok b := by
  cases x with
  | error e => simp
  | ok a => simp

variable {e : ε}

/-- A sequence raises exactly when its first part does, or the rest does on what the first part returns. -/
theorem bind_eq_error {f : α → Except ε β} :
    (x >>= f) = error e ↔ x = error e ∨ ∃ a, x = ok a ∧ f a = error e := by
  cases x with
  | error e' => simp
  | ok a => simp

variable {a : α}

/-- A check that raises is passed exactly when its condition fails. -/
theorem guard_eq_ok {c : Prop} [Decidable c] :
    (if c then error e else x) = ok a ↔ ¬ c ∧ x = ok a := by
  by_cases h : c
  · simp [h]
  · simp [h]

/-- The same with the raising branch last. -/
theorem require_eq_ok {c : Prop} [Decidable c] :
    (if c then x else error e) = ok a ↔ c ∧ x = ok a := by
  by_cases h : c
  · simp [h]
  · simp [h]

/-- A mapped computation returns the image of what the computation returns. -/
theorem map_eq_ok {f : α → β} {b : β} : x.map f = ok b ↔ ∃ a, x = ok a ∧ f a = b := by
  cases x with
  | error e => simp [Except.map]
  | ok a => simp [Except.map]

/-- Another error changes nothing about what a computation returns. -/
theorem mapError_eq_ok {ε' : Type u} {h : ε → ε'} : x.mapError h = ok a ↔ x = ok a := by
  cases x with
  | error e => simp [Except.mapError]
  | ok b => simp [Except.mapError]

/-! ## Lists -/

variable {γ : Type u} {f : γ → Except ε α} {xs : List γ}

/-- A computation that returns for every item of a list returns for the list. -/
theorem mapM_ok {P : γ → α → Prop}
    (h : ∀ x ∈ xs, ∃ y, f x = ok y ∧ P x y) : ∃ ys, xs.mapM f = ok ys ∧ List.Forall₂ P xs ys := by
  induction xs with
  | nil => exact ⟨[], rfl, List.Forall₂.nil⟩
  | cons x xs ih =>
    obtain ⟨y, hy, hxy⟩ := h x List.mem_cons_self
    obtain ⟨ys, hys, hxys⟩ := ih (fun x' hx' => h x' (List.mem_cons_of_mem _ hx'))
    exact ⟨y :: ys, by rw [List.mapM_cons, hy, ok_bind, hys]; rfl, List.Forall₂.cons hxy hxys⟩

/-- A list computation returns exactly the values that the computations of the items return. -/
theorem mapM_eq_ok {ys : List α} :
    xs.mapM f = ok ys ↔ List.Forall₂ (fun x y => f x = ok y) xs ys := by
  induction xs generalizing ys with
  | nil =>
    rw [List.mapM_nil, pure_eq_ok, List.forall₂_nil_left_iff]
    constructor
    · intro h
      injection h with h
      exact h.symm
    · rintro rfl
      rfl
  | cons x xs ih =>
    rw [List.mapM_cons, bind_eq_ok, List.forall₂_cons_left_iff]
    constructor
    · rintro ⟨y, hy, h⟩
      obtain ⟨ys', hys', h⟩ := bind_eq_ok.mp h
      cases h
      exact ⟨y, ys', hy, ih.mp hys', rfl⟩
    · rintro ⟨y, ys', hy, hys', rfl⟩
      exact ⟨y, hy, bind_eq_ok.mpr ⟨ys', ih.mpr hys', rfl⟩⟩

/-- A step that succeeds for each of them. -/
theorem mapM_eq_ok_map {g : γ → α} (h : ∀ x ∈ xs, f x = ok (g x)) :
    xs.mapM f = ok (xs.map g) := by
  rw [mapM_eq_ok, List.forall₂_map_right_iff, List.forall₂_same]
  exact h

/-- A list computation returns exactly when that of every item does. -/
theorem exists_mapM_eq_ok :
    (∃ ys, xs.mapM f = ok ys) ↔ ∀ x ∈ xs, ∃ y, f x = ok y := by
  constructor
  · rintro ⟨ys, hys⟩
    have hpairs := mapM_eq_ok.mp hys
    clear hys
    induction hpairs with
    | nil => exact nofun
    | cons hxy _ ih => exact List.forall_mem_cons.mpr ⟨⟨_, hxy⟩, ih⟩
  · intro h
    obtain ⟨ys, hys, -⟩ := mapM_ok (P := fun _ _ => True) fun x hx => by
      obtain ⟨y, hy⟩ := h x hx
      exact ⟨y, hy, trivial⟩
    exact ⟨ys, hys⟩

/-- A list computation raises what that of some item raises. -/
theorem exists_of_mapM_eq_error (h : xs.mapM f = error e) :
    ∃ x ∈ xs, f x = error e := by
  induction xs with
  | nil => cases h
  | cons x xs ih =>
    rw [List.mapM_cons] at h
    rcases bind_eq_error.mp h with h | ⟨y, -, h⟩
    · exact ⟨x, List.mem_cons_self, h⟩
    · rcases bind_eq_error.mp h with h | ⟨ys, -, h⟩
      · obtain ⟨x', hx', hraise⟩ := ih h
        exact ⟨x', List.mem_cons_of_mem _ hx', hraise⟩
      · cases h

/-- Writing and then reading a list goes well exactly when it does for each item. -/
theorem mapM_mapM_iff {α : Type u} {f : γ → Except ε α} {g : α → Except ε γ} {R : γ → γ → Prop} :
    (∃ ys, xs.mapM f = ok ys ∧ ∃ zs, ys.mapM g = ok zs ∧ List.Forall₂ R xs zs) ↔
      ∀ x ∈ xs, ∃ y, f x = ok y ∧ ∃ z, g y = ok z ∧ R x z := by
  simp only [mapM_eq_ok]
  induction xs with
  | nil => simp
  | cons x xs ih =>
    rw [List.forall_mem_cons, ← ih]
    constructor
    · rintro ⟨_, hxs, zs, hys, hR⟩
      obtain ⟨y, ys, hy, hys', rfl⟩ := List.forall₂_cons_left_iff.mp hxs
      obtain ⟨z, zs, hz, hzs, rfl⟩ := List.forall₂_cons_left_iff.mp hys
      rw [List.forall₂_cons] at hR
      exact ⟨⟨y, hy, z, hz, hR.1⟩, ys, hys', zs, hzs, hR.2⟩
    · rintro ⟨⟨y, hy, z, hz, hR⟩, ys, hys, zs, hzs, hRs⟩
      exact ⟨y :: ys, .cons hy hys, z :: zs, .cons hz hzs, .cons hR hRs⟩

/-- A check of every item passes exactly when that of each item does. -/
theorem forM_eq_ok {f : γ → Except ε PUnit} :
    xs.forM f = ok ⟨⟩ ↔ ∀ x ∈ xs, f x = ok ⟨⟩ := by
  induction xs with
  | nil => exact ⟨fun _ x hx => absurd hx List.not_mem_nil, fun _ => rfl⟩
  | cons x xs ih =>
    show (f x >>= fun _ => xs.forM f) = ok ⟨⟩ ↔ _
    rw [bind_eq_ok, List.forall_mem_cons, ← ih]
    exact ⟨fun ⟨_, hx, hxs⟩ => ⟨hx, hxs⟩, fun ⟨hx, hxs⟩ => ⟨_, hx, hxs⟩⟩

/-! ## Which error -/

/-- What a computation raises. -/
def error? : Except ε α → Option ε
  | error e => some e
  | ok _ => none

@[simp] theorem error?_ok (a : α) : (ok a : Except ε α).error? = none := rfl

@[simp] theorem error?_error (e : ε) : (error e : Except ε α).error? = some e := rfl

theorem error?_eq_some : x.error? = some e ↔ x = error e := by
  cases x with
  | error e' => simp
  | ok a => simp

theorem error?_eq_none : x.error? = none ↔ ∃ a, x = ok a := by
  cases x with
  | error e => simp
  | ok a => simp

/-- A sequence raises what its first part raises, or else what the rest does. -/
theorem error?_bind {f : α → Except ε β} {o : Option ε} (h : ∀ a, x = ok a → (f a).error? = o) :
    (x >>= f).error? = x.error?.or o := by
  cases x with
  | error e => rfl
  | ok a => exact h a rfl

/-- A sequence whose rest never raises raises what its first part does. -/
theorem error?_bind_of_ok {f : α → Except ε β} (h : ∀ a, (f a).error? = none) :
    (x >>= f).error? = x.error? := by
  rw [error?_bind fun a _ => h a, Option.or_none]

theorem findSome?_cons_or {γ δ : Type*} (f : γ → Option δ) (x : γ) (xs : List γ) :
    (x :: xs).findSome? f = (f x).or (xs.findSome? f) := by
  rw [List.findSome?_cons]
  cases f x with
  | none => rfl
  | some y => rfl

/-- A check of every item raises what the first item does that does not pass. -/
theorem error?_forM {f : γ → Except ε PUnit} (xs : List γ) :
    (xs.forM f).error? = xs.findSome? fun x => (f x).error? := by
  induction xs with
  | nil => rfl
  | cons x xs ih =>
    show (f x >>= fun _ => xs.forM f).error? = _
    rw [error?_bind fun _ _ => ih, findSome?_cons_or]

end Except
