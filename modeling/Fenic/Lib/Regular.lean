import Mathlib.Data.List.Infix

/-!
# `Lib.Regular` — regular patterns

Patterns over any letters, the words that match them, and a search for a matching word in a text (`search_iff`).
-/

inductive Regular (α : Type*) where
  | empty
  | letter (p : α → Bool)
  | seq (first second : Regular α)
  | opt (body : Regular α)
  | star (body : Regular α)

namespace Regular

variable {α : Type*}

/-- The word matches the pattern as a whole. -/
def Matches : Regular α → List α → Prop
  | .empty, word => word = []
  | .letter p, word => ∃ c, word = [c] ∧ p c = true
  | .seq first second, word => ∃ u v, word = u ++ v ∧ first.Matches u ∧ second.Matches v
  | .opt body, word => word = [] ∨ body.Matches word
  | .star body, word => ∃ words : List (List α), word = words.flatten ∧ ∀ u ∈ words, body.Matches u

/-- What can be left of a text behind several matches, each of which reads something. -/
def starRests (step : List α → List (List α)) : Nat → List α → List (List α)
  | 0, text => [text]
  | fuel + 1, text =>
    text :: ((step text).filter fun rest => rest.length < text.length).flatMap (starRests step fuel)

/-- What can be left of a text behind a match at its start. -/
def rests : Regular α → List α → List (List α)
  | .empty, text => [text]
  | .letter _, [] => []
  | .letter p, c :: text => if p c then [text] else []
  | .seq first second, text => (first.rests text).flatMap second.rests
  | .opt body, text => text :: body.rests text
  | .star body, text => starRests body.rests text.length text

/-- Some word in the text matches. -/
def search (pattern : Regular α) (text : List α) : Bool :=
  text.tails.any fun suffix => !(pattern.rests suffix).isEmpty

variable {text rest word : List α}

theorem mem_starRests_self (step : List α → List (List α)) (fuel : Nat) (text : List α) : text ∈ starRests step fuel text := by
  cases fuel with
  | zero => exact List.mem_cons_self
  | succ fuel => exact List.mem_cons_self

theorem starRests_sound {body : Regular α} {step : List α → List (List α)}
    (hstep : ∀ {text rest}, rest ∈ step text → ∃ word, body.Matches word ∧ text = word ++ rest) {fuel : Nat}
    (h : rest ∈ starRests step fuel text) : ∃ word, (Regular.star body).Matches word ∧ text = word ++ rest := by
  induction fuel generalizing text with
  | zero =>
    rw [starRests, List.mem_singleton] at h
    exact ⟨[], ⟨[], rfl, nofun⟩, h.symm⟩
  | succ fuel ih =>
    rw [starRests, List.mem_cons] at h
    rcases h with rfl | h
    · exact ⟨[], ⟨[], rfl, nofun⟩, rfl⟩
    · obtain ⟨middle, hmiddle, hrest⟩ := List.mem_flatMap.mp h
      obtain ⟨u, hu, rfl⟩ := hstep (List.mem_filter.mp hmiddle).1
      obtain ⟨v, ⟨words, rfl, hwords⟩, rfl⟩ := ih hrest
      refine ⟨u ++ words.flatten, ⟨u :: words, rfl, List.forall_mem_cons.mpr ⟨hu, hwords⟩⟩, ?_⟩
      rw [List.append_assoc]

theorem starRests_complete {body : Regular α} {step : List α → List (List α)}
    (hstep : ∀ {word rest}, body.Matches word → rest ∈ step (word ++ rest)) {words : List (List α)}
    (hwords : ∀ u ∈ words, body.Matches u) {fuel : Nat} (hfuel : (words.flatten ++ rest).length ≤ fuel) :
    rest ∈ starRests step fuel (words.flatten ++ rest) := by
  induction words generalizing fuel with
  | nil => exact mem_starRests_self step fuel rest
  | cons u words ih =>
    obtain ⟨hu, hwords⟩ := List.forall_mem_cons.mp hwords
    rw [List.flatten_cons, List.append_assoc] at hfuel ⊢
    by_cases hnil : u = []
    · rw [hnil, List.nil_append] at hfuel ⊢
      exact ih hwords hfuel
    · have hpositive := List.length_pos_of_ne_nil hnil
      rw [List.length_append] at hfuel
      obtain ⟨fuel, rfl⟩ : ∃ smaller, fuel = smaller + 1 := ⟨fuel - 1, by omega⟩
      refine List.mem_cons_of_mem _ (List.mem_flatMap.mpr ⟨words.flatten ++ rest, ?_, ih hwords (by omega)⟩)
      refine List.mem_filter.mpr ⟨hstep hu, decide_eq_true ?_⟩
      have hlength : (u ++ (words.flatten ++ rest)).length = u.length + (words.flatten ++ rest).length := List.length_append
      omega

variable {pattern : Regular α}

theorem mem_rests :
    rest ∈ pattern.rests text ↔ ∃ word, pattern.Matches word ∧ text = word ++ rest := by
  induction pattern generalizing text rest with
  | empty =>
    rw [rests, List.mem_singleton]
    constructor
    · rintro rfl
      exact ⟨[], rfl, rfl⟩
    · rintro ⟨word, hword, rfl⟩
      rw [show word = [] from hword, List.nil_append]
  | letter p =>
    cases text with
    | nil =>
      refine iff_of_false List.not_mem_nil ?_
      rintro ⟨word, ⟨c, rfl, -⟩, h⟩
      cases h
    | cons c text =>
      rw [rests]
      constructor
      · intro h
        split at h
        next hp =>
            rw [List.mem_singleton.mp h]
            exact ⟨[c], ⟨c, rfl, hp⟩, rfl⟩
        next => cases h
      · rintro ⟨word, ⟨d, rfl, hp⟩, h⟩
        obtain ⟨rfl, rfl⟩ := List.cons.inj h
        rw [if_pos hp]
        exact List.mem_cons_self
  | seq first second ihFirst ihSecond =>
    rw [rests, List.mem_flatMap]
    constructor
    · rintro ⟨middle, hmiddle, h⟩
      obtain ⟨u, hu, rfl⟩ := ihFirst.mp hmiddle
      obtain ⟨v, hv, rfl⟩ := ihSecond.mp h
      exact ⟨u ++ v, ⟨u, v, rfl, hu, hv⟩, (List.append_assoc u v rest).symm⟩
    · rintro ⟨word, ⟨u, v, rfl, hu, hv⟩, rfl⟩
      exact ⟨v ++ rest, ihFirst.mpr ⟨u, hu, List.append_assoc u v rest⟩, ihSecond.mpr ⟨v, hv, rfl⟩⟩
  | opt body ih =>
    rw [rests, List.mem_cons, ih]
    constructor
    · rintro (rfl | ⟨word, hword, htext⟩)
      · exact ⟨[], .inl rfl, rfl⟩
      · exact ⟨word, .inr hword, htext⟩
    · rintro ⟨word, rfl | hword, htext⟩
      · exact .inl htext.symm
      · exact .inr ⟨word, hword, htext⟩
  | star body ih =>
    constructor
    · exact starRests_sound ih.mp
    · rintro ⟨word, ⟨words, rfl, hwords⟩, rfl⟩
      exact starRests_complete (fun h => ih.mpr ⟨_, h, rfl⟩) hwords (Nat.le_refl _)

/-- **The search finds a word exactly if one in the text matches.** -/
theorem search_iff :
    pattern.search text = true ↔ ∃ before word after, text = before ++ (word ++ after) ∧ pattern.Matches word := by
  unfold search
  rw [List.any_eq_true]
  constructor
  · rintro ⟨suffix, hsuffix, hrests⟩
    obtain ⟨before, rfl⟩ := (List.mem_tails _ _).mp hsuffix
    rw [Bool.not_eq_true', List.isEmpty_eq_false_iff] at hrests
    obtain ⟨after, hafter⟩ := List.exists_mem_of_ne_nil _ hrests
    obtain ⟨word, hword, rfl⟩ := mem_rests.mp hafter
    exact ⟨before, word, after, rfl, hword⟩
  · rintro ⟨before, word, after, rfl, hword⟩
    refine ⟨word ++ after, (List.mem_tails _ _).mpr (List.suffix_append before _), ?_⟩
    rw [Bool.not_eq_true', List.isEmpty_eq_false_iff]
    exact List.ne_nil_of_mem (mem_rests.mpr ⟨word, hword, rfl⟩)

/-- Repeating a letter gives the words of such letters. -/
theorem matches_star_letter {p : α → Bool} : (star (letter p)).Matches word ↔ ∀ c ∈ word, p c = true := by
  constructor
  · rintro ⟨words, rfl, hwords⟩ c hc
    obtain ⟨u, hu, hc⟩ := List.mem_flatten.mp hc
    obtain ⟨d, rfl, hd⟩ := hwords u hu
    rw [List.mem_singleton.mp hc]
    exact hd
  · intro h
    refine ⟨word.map fun c => [c], ?_, ?_⟩
    · rw [← List.flatMap_def, List.flatMap_singleton']
    · intro u hu
      obtain ⟨c, hc, rfl⟩ := List.mem_map.mp hu
      exact ⟨c, rfl, h c hc⟩

/-! ## Sequences of patterns -/

/-- One pattern behind the other. -/
def concat : List (Regular α) → Regular α
  | [] => .empty
  | pattern :: rest => .seq pattern (concat rest)

theorem matches_concat_cons {rest : List (Regular α)} :
    (concat (pattern :: rest)).Matches word ↔ ∃ u v, word = u ++ v ∧ pattern.Matches u ∧ (concat rest).Matches v :=
  Iff.rfl

theorem matches_concat_append {first second : List (Regular α)} :
    (concat (first ++ second)).Matches word ↔
      ∃ u v, word = u ++ v ∧ (concat first).Matches u ∧ (concat second).Matches v := by
  induction first generalizing word with
  | nil =>
    constructor
    · intro h
      exact ⟨[], word, rfl, rfl, h⟩
    · rintro ⟨u, v, rfl, hu, hv⟩
      rw [show u = [] from hu]
      exact hv
  | cons pattern first ih =>
    constructor
    · rintro ⟨u, rest, rfl, hu, hrest⟩
      obtain ⟨v, w, rfl, hv, hw⟩ := ih.mp hrest
      exact ⟨u ++ v, w, (List.append_assoc u v w).symm, ⟨u, v, rfl, hu, hv⟩, hw⟩
    · rintro ⟨uv, w, rfl, ⟨u, v, rfl, hu, hv⟩, hw⟩
      exact ⟨u, v ++ w, List.append_assoc u v w, hu, ih.mpr ⟨v, w, rfl, hv, hw⟩⟩

end Regular
