import Mathlib.Data.List.Basic

/-!
# `Lib.StoreTrace` — runs of reads and writes over a keyed store

A run is a list of events. A read is *available* when its key was in the store at the start or was written
earlier in the run. `Guarded P` weakens this: a read may also find its key missing, provided the key satisfies
`P`. Guarded runs compose, so a program that produces its run piece by piece is shown available by guarding
each piece and then excluding `P` at once.
-/

namespace StoreTrace

variable {κ : Type*}

/-- A read or a write of a key. -/
inductive Event (κ : Type*) where
  | read (key : κ)
  | write (key : κ)
  deriving DecidableEq, Repr

/-- The keys of the store after a run. -/
def storeAfter : List κ → List (Event κ) → List κ
  | store, [] => store
  | store, .read _ :: events => storeAfter store events
  | store, .write key :: events => storeAfter (key :: store) events

/-- Every read finds its key: it was there at the start or was written before. -/
def Available (store : List κ) (events : List (Event κ)) : Prop :=
  ∀ (before after : List (Event κ)) (key : κ),
    events = before ++ .read key :: after → key ∈ store ∨ .write key ∈ before

/-- Every read finds its key or is of a key that satisfies `P`. -/
def Guarded (P : κ → Prop) : List κ → List (Event κ) → Prop
  | _, [] => True
  | store, .read key :: events => (key ∈ store ∨ P key) ∧ Guarded P store events
  | store, .write key :: events => Guarded P (key :: store) events

variable {P : κ → Prop}

variable {store : List κ}

/-- A run adds exactly the keys it writes. -/
theorem mem_storeAfter {events : List (Event κ)} {key : κ} :
    key ∈ storeAfter store events ↔ key ∈ store ∨ .write key ∈ events := by
  induction events generalizing store with
  | nil => simp [storeAfter]
  | cons event events ih =>
    cases event with
    | read k => simp [storeAfter, ih]
    | write k =>
      simp only [storeAfter, ih, List.mem_cons, Event.write.injEq]
      tauto

theorem storeAfter_append (store : List κ) (es fs : List (Event κ)) :
    storeAfter store (es ++ fs) = storeAfter (storeAfter store es) fs := by
  induction es generalizing store with
  | nil => rfl
  | cons event es ih => cases event <;> exact ih _

/-- Guarded runs compose. -/
theorem guarded_append {es fs : List (Event κ)} :
    Guarded P store (es ++ fs) ↔ Guarded P store es ∧ Guarded P (storeAfter store es) fs := by
  induction es generalizing store with
  | nil => simp [Guarded, storeAfter]
  | cons event es ih =>
    cases event with
    | read k => simp only [List.cons_append, Guarded, storeAfter, ih, and_assoc]
    | write k => simp only [List.cons_append, Guarded, storeAfter, ih]

/-- In a guarded run an unavailable read is of a key that satisfies `P`. -/
theorem Guarded.read {before after : List (Event κ)} {key : κ}
    (h : Guarded P store (before ++ .read key :: after)) :
    key ∈ store ∨ .write key ∈ before ∨ P key := by
  obtain ⟨-, h⟩ := guarded_append.mp h
  rcases h.1 with hmem | hP
  · rcases mem_storeAfter.mp hmem with hmem | hmem
    · exact Or.inl hmem
    · exact Or.inr (Or.inl hmem)
  · exact Or.inr (Or.inr hP)

/-- **A guarded run that never writes a key satisfying `P` outside the store is available exactly when it
    never reads one either.** -/
theorem Guarded.available_iff {events : List (Event κ)} (h : Guarded P store events)
    (hstore : ∀ key, P key → key ∉ store) (hwrite : ∀ key, P key → .write key ∉ events) :
    Available store events ↔ ∀ key, P key → .read key ∉ events := by
  constructor
  · intro hav key hP hread
    obtain ⟨before, after, rfl⟩ := List.append_of_mem hread
    rcases hav before after key rfl with hmem | hmem
    · exact hstore key hP hmem
    · exact hwrite key hP (by simp [hmem])
  · intro hnone before after key heq
    subst heq
    rcases h.read with hmem | hmem | hP
    · exact Or.inl hmem
    · exact Or.inr hmem
    · exact absurd (by simp) (hnone key hP)

end StoreTrace
