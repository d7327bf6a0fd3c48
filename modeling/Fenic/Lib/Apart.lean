import Mathlib.Data.List.Basic

/-!
# `Lib.Apart` — texts that depend on a choice

A text may be put together of parts, some of which depend on a choice. Two choices need not give two texts: what one of them
gains in one part, another part may make up for. `Uniform` rules this out: either the choice makes no difference to the
text, or the texts of any two choices go apart at a character. It is kept by putting texts after each other.
-/

namespace Fenic

namespace Apart

/-- A common beginning, and then different characters. -/
def GoApart (s t : String) : Prop :=
  ∃ (start : List Char) (c d : Char) (rest rest' : List Char),
    c ≠ d ∧ s.toList = start ++ c :: rest ∧ t.toList = start ++ d :: rest'

variable {s t : String}

theorem GoApart.ne (h : GoApart s t) : s ≠ t := by
  rintro rfl
  obtain ⟨start, c, d, rest, rest', hne, hs, ht⟩ := h
  rw [hs] at ht
  exact hne (List.cons.inj (List.append_cancel_left ht)).1

/-- What comes after makes no difference. -/
theorem GoApart.append (h : GoApart s t) (u v : String) : GoApart (s ++ u) (t ++ v) := by
  obtain ⟨start, c, d, rest, rest', hne, hs, ht⟩ := h
  refine ⟨start, c, d, rest ++ u.toList, rest' ++ v.toList, hne, ?_, ?_⟩
  · rw [String.toList_append, hs, List.append_assoc, List.cons_append]
  · rw [String.toList_append, ht, List.append_assoc, List.cons_append]

/-- What is the same before makes no difference. -/
theorem GoApart.prepend (h : GoApart s t) (u : String) : GoApart (u ++ s) (u ++ t) := by
  obtain ⟨start, c, d, rest, rest', hne, hs, ht⟩ := h
  refine ⟨u.toList ++ start, c, d, rest, rest', hne, ?_, ?_⟩
  · rw [String.toList_append, hs, List.append_assoc]
  · rw [String.toList_append, ht, List.append_assoc]

variable {Choice : Type*}

/-- The choice makes no difference to the text, or the texts of different choices go apart. -/
def Uniform (Different : Choice → Choice → Prop) (text : Choice → String) : Prop :=
  (∀ x y, Different x y → text x = text y) ∨ ∀ x y, Different x y → GoApart (text x) (text y)

namespace Uniform

variable {Different : Choice → Choice → Prop} {f g : Choice → String}

theorem const (s : String) : Uniform Different fun _ => s := Or.inl fun _ _ _ => rfl

theorem append (hf : Uniform Different f) (hg : Uniform Different g) : Uniform Different fun x => f x ++ g x := by
  rcases hf with hf | hf
  · rcases hg with hg | hg
    · refine Or.inl fun x y hxy => ?_
      show f x ++ g x = f y ++ g y
      rw [hf x y hxy, hg x y hxy]
    · -- the texts go apart in the second part, at the same place
      refine Or.inr fun x y hxy => ?_
      show GoApart (f x ++ g x) (f y ++ g y)
      rw [hf x y hxy]
      exact (hg x y hxy).prepend (f y)
  · exact Or.inr fun x y hxy => (hf x y hxy).append (g x) (g y)

/-- Parts with something between them. -/
theorem intercalate (separator : String) {α : Type*} (parts : α → Choice → String) (items : List α)
    (h : ∀ a ∈ items, Uniform Different (parts a)) :
    Uniform Different fun x => separator.intercalate (items.map fun a => parts a x) := by
  induction items with
  | nil => exact const _
  | cons a items ih =>
    have hfirst : Uniform Different (parts a) := h a List.mem_cons_self
    cases items with
    | nil => exact hfirst
    | cons b items =>
      have hrest := ih fun c hc => h c (List.mem_cons_of_mem _ hc)
      simp only [List.map_cons, String.intercalate_cons_cons]
      exact append (append hfirst (const separator)) hrest

/-- **Any two pairs of different choices give equal texts, or neither does.** -/
theorem eq_iff (h : Uniform Different f) {x y x' y' : Choice} (hxy : Different x y) (hxy' : Different x' y') :
    f x = f y ↔ f x' = f y' := by
  rcases h with h | h
  · exact ⟨fun _ => h x' y' hxy', fun _ => h x y hxy⟩
  · exact ⟨fun heq => absurd heq (h x y hxy).ne, fun heq => absurd heq (h x' y' hxy').ne⟩

end Uniform

end Apart

end Fenic
