import Fenic.DatePatterns.Translation

/-!
# `DatePatterns.Fields` — fields and the directives written for them

`printsField` says for which runs of a letter the directive prints the field (`repeatMap_prints`). Of the other runs there is
always a timestamp at which the two texts have different first characters (`repeatMap_differs`).
-/

namespace Fenic

namespace DatePatterns

open Transcript (padded decimal)
open Expressions (quote repeatMap)

/-- The directive for a run of a pattern letter prints the field. -/
def printsField (ch : Char) (n : Nat) : Bool :=
  match ch with
  | 'y' => n = 2 || n = 4
  | 'M' => true
  | 'E' => true
  | 'a' => true
  | 'Z' => true
  | 'd' => n ≤ 2
  | 'H' => n ≤ 2
  | 'h' => n ≤ 2
  | 'm' => n ≤ 2
  | 's' => n ≤ 2
  | 'S' => n = 3
  | 'z' => n ≤ 3
  | _ => false

/-! ## First characters -/

/-- A text starts, and neither with a percent sign nor with a quote. -/
def opens : List Char → Bool
  | [] => false
  | c :: _ => c ≠ '%' && c ≠ quote

theorem opens_of_digits {text : List Char} (hne : text ≠ []) (h : Transcript.AllDigits text) : opens text = true := by
  cases text with
  | nil => exact absurd rfl hne
  | cons c text =>
    have hdigit := h c List.mem_cons_self
    have hpercent : c ≠ '%' := by
      rintro rfl
      exact absurd hdigit (by decide)
    have hquote : c ≠ quote := by
      rintro rfl
      exact absurd hdigit (by decide)
    rw [opens, decide_eq_true hpercent, decide_eq_true hquote]
    rfl

theorem opens_padded (width n : Nat) : opens (padded width n) = true :=
  opens_of_digits (Transcript.padded_ne_nil width n) (Transcript.allDigits_padded width n)

theorem Timestamp.dayOfWeek_lt (t : Timestamp) : t.dayOfWeek < 7 := Nat.mod_lt _ (by decide)

theorem opens_dayName (t : Timestamp) : opens t.dayName = true ∧ opens (t.dayName.take 3) = true := by
  have hall : ∀ i < 7, opens (Timestamp.dayNames.getD i "").toList = true ∧
      opens ((Timestamp.dayNames.getD i "").toList.take 3) = true := by decide +kernel
  exact hall _ t.dayOfWeek_lt

theorem opens_monthName (t : Timestamp) : opens t.monthName = true ∧ opens (t.monthName.take 3) = true := by
  have hall : ∀ i < 12, opens (Timestamp.monthNames.getD i "").toList = true ∧
      opens ((Timestamp.monthNames.getD i "").toList.take 3) = true := by decide +kernel
  have hrange := t.month_range
  exact hall _ (by omega)

theorem opens_half (t : Timestamp) : opens t.half = true := by
  unfold Timestamp.half
  split <;> decide

/-- What a directive prints starts neither with a percent sign nor with a quote. -/
theorem opens_directiveText (t : Timestamp) {directive : String} (h : directive ∈ directives) :
    opens (directiveText t directive) = true := by
  unfold directiveText
  split
  all_goals first
    | exact opens_padded _ _
    | exact (opens_monthName t).1
    | exact (opens_monthName t).2
    | exact (opens_dayName t).1
    | exact (opens_dayName t).2
    | exact opens_half t
    | rfl

/-! ## Directives -/

variable {ch : Char}

theorem mem_patternChars_of_isField {n : Nat} (h : isField ch n = true) : ch ∈ patternChars := by
  unfold isField at h
  rw [Bool.and_eq_true, decide_eq_true_eq] at h
  exact h.1

theorem directive_ite {p : Prop} [Decidable p] {x y a b : String} (ha : a ∈ directives) (hx : x.toList = '%' :: a.toList)
    (hb : b ∈ directives) (hy : y.toList = '%' :: b.toList) :
    ∃ directive ∈ directives, (if p then x else y).toList = '%' :: directive.toList := by
  split
  · exact ⟨a, ha, hx⟩
  · exact ⟨b, hb, hy⟩

/-- The letters that are written as a directive, whatever their number. -/
def directiveChars : List Char := ['y', 'M', 'd', 'H', 'h', 'm', 's', 'E', 'a', 'Z', 'X', 'z']

/-- The letters that are copied. -/
def copiedChars : List Char := ['G', 'D', 'k', 'K', 'F', 'w', 'W', 'Y', 'u', 'L']

theorem patternChars_cases (h : ch ∈ patternChars) : ch ∈ directiveChars ∨ ch = 'S' ∨ ch ∈ copiedChars := by
  have hall : patternChars.all (fun ch => decide (ch ∈ directiveChars ∨ ch = 'S' ∨ ch ∈ copiedChars)) = true := by decide
  exact of_decide_eq_true (List.all_eq_true.mp hall ch h)

theorem repeatMap_directive (h : ch ∈ directiveChars) (n : Nat) :
    ∃ directive ∈ directives, repeatMap ch n = '%' :: directive.toList := by
  simp only [directiveChars, List.mem_cons, List.not_mem_nil, or_false] at h
  rcases h with rfl | rfl | rfl | rfl | rfl | rfl | rfl | rfl | rfl | rfl | rfl | rfl
  · show ∃ directive ∈ directives, (if 3 ≤ n then "%Y" else "%y").toList = _
    exact directive_ite (a := "Y") (b := "y") (by decide) rfl (by decide) rfl
  · show ∃ directive ∈ directives, (if n = 1 then "%-m" else if n = 2 then "%m" else if n = 3 then "%b" else "%B").toList = _
    split
    · exact ⟨"-m", by decide, rfl⟩
    · split
      · exact ⟨"m", by decide, rfl⟩
      · exact directive_ite (a := "b") (b := "B") (by decide) rfl (by decide) rfl
  · show ∃ directive ∈ directives, (if n = 1 then "%-d" else "%d").toList = _
    exact directive_ite (a := "-d") (b := "d") (by decide) rfl (by decide) rfl
  · show ∃ directive ∈ directives, (if n = 1 then "%-H" else "%H").toList = _
    exact directive_ite (a := "-H") (b := "H") (by decide) rfl (by decide) rfl
  · show ∃ directive ∈ directives, (if n = 1 then "%-I" else "%I").toList = _
    exact directive_ite (a := "-I") (b := "I") (by decide) rfl (by decide) rfl
  · show ∃ directive ∈ directives, (if n = 1 then "%-M" else "%M").toList = _
    exact directive_ite (a := "-M") (b := "M") (by decide) rfl (by decide) rfl
  · show ∃ directive ∈ directives, (if n = 1 then "%-S" else "%S").toList = _
    exact directive_ite (a := "-S") (b := "S") (by decide) rfl (by decide) rfl
  · show ∃ directive ∈ directives, (if 4 ≤ n then "%A" else "%a").toList = _
    exact directive_ite (a := "A") (b := "a") (by decide) rfl (by decide) rfl
  · exact ⟨"p", by decide, rfl⟩
  · exact ⟨"z", by decide, rfl⟩
  · show ∃ directive ∈ directives, (if 3 ≤ n then "%:z" else "%z").toList = _
    exact directive_ite (a := ":z") (b := "z") (by decide) rfl (by decide) rfl
  · exact ⟨"Z", by decide, rfl⟩

theorem repeatMap_fraction (n : Nat) : repeatMap 'S' n = '%' :: ((toString n).toList ++ ['f']) := rfl

theorem repeatMap_copied (h : ch ∈ copiedChars) (n : Nat) : repeatMap ch n = List.replicate n ch := by
  simp only [copiedChars, List.mem_cons, List.not_mem_nil, or_false] at h
  rcases h with rfl | rfl | rfl | rfl | rfl | rfl | rfl | rfl | rfl | rfl <;> simp [repeatMap]

/-- What is written for a run of a pattern letter is a percent sign with a text that starts otherwise, or it starts
    otherwise itself. -/
theorem repeatMap_opens {n : Nat} (h : ch ∈ patternChars) (hpos : 0 < n) :
    (∃ body, repeatMap ch n = '%' :: body ∧ opens body = true ∧ (ch ∈ directiveChars ∨ ch = 'S')) ∨
      (repeatMap ch n = List.replicate n ch ∧ opens (repeatMap ch n) = true) := by
  rcases patternChars_cases h with hmem | rfl | hmem
  · obtain ⟨directive, hdirective, hmap⟩ := repeatMap_directive hmem n
    have hopens : ∀ directive ∈ directives, opens directive.toList = true := by decide
    exact Or.inl ⟨directive.toList, hmap, hopens directive hdirective, Or.inl hmem⟩
  · refine Or.inl ⟨_, repeatMap_fraction n, ?_, Or.inr rfl⟩
    have hdigits : (toString n).toList = decimal n := Nat.toList_repr
    have hopens := opens_of_digits (Transcript.decimal_ne_nil n) (Transcript.allDigits_decimal n)
    rw [hdigits]
    cases hdecimal : decimal n with
    | nil => exact absurd hdecimal (Transcript.decimal_ne_nil n)
    | cons c digits =>
      rw [hdecimal] at hopens
      exact hopens
  · have hopens : copiedChars.all (fun ch => opens [ch]) = true := by decide
    obtain ⟨n, rfl⟩ := Nat.exists_eq_succ_of_ne_zero (Nat.ne_of_gt hpos)
    refine Or.inr ⟨repeatMap_copied hmem _, ?_⟩
    rw [repeatMap_copied hmem, List.replicate_succ]
    exact List.all_eq_true.mp hopens ch hmem

theorem wide_directive {n : Nat} (hn : 2 < n) (narrow wide : String) :
    (if n = 1 then narrow else wide).toList = wide.toList := by
  rw [if_neg (by omega)]

/-! ## Fields that are printed -/

section

variable [JavaCalendar]

theorem fieldText_ne_nil (t : Timestamp) (ch : Char) (n : Nat) : fieldText t ch n ≠ [] := by
  have hopens : ∀ {text : List Char}, opens text = true → text ≠ [] := by
    rintro _ h rfl
    cases h
  have hyear : ∀ year, yearText n year ≠ [] := by
    intro year
    unfold yearText
    split <;> exact Transcript.padded_ne_nil _ _
  have hmonth : monthText t n ≠ [] := by
    unfold monthText
    split
    · exact hopens (opens_monthName t).1
    · split
      · exact hopens (opens_monthName t).2
      · exact Transcript.padded_ne_nil _ _
  unfold fieldText
  split
  case h_11 =>
      split
      · exact hopens (opens_dayName t).1
      · exact hopens (opens_dayName t).2
  all_goals first
    | exact Transcript.padded_ne_nil _ _
    | exact hyear _
    | exact hmonth
    | exact hopens (opens_half t)
    | (split <;> decide)
    | decide

variable {ch : Char} {n : Nat}

/-- Where the directive prints the field, it is one of `directives` with the text of the field. -/
theorem repeatMap_prints (hpos : 0 < n) (h : printsField ch n = true) :
    ∃ directive ∈ directives, repeatMap ch n = '%' :: directive.toList ∧
      ∀ t, directiveText t directive = fieldText t ch n := by
  have hwidth : n ≤ 2 → n = 1 ∨ n = 2 := by omega
  unfold printsField at h
  split at h
  · rw [Bool.or_eq_true, decide_eq_true_eq, decide_eq_true_eq] at h
    rcases h with rfl | rfl
    · exact ⟨"y", by decide, rfl, fun t => rfl⟩
    · exact ⟨"Y", by decide, rfl, fun t => rfl⟩
  · by_cases hfour : 4 ≤ n
    · refine ⟨"B", by decide, ?_, fun t => (if_pos hfour).symm⟩
      show (if n = 1 then "%-m" else if n = 2 then "%m" else if n = 3 then "%b" else "%B").toList = _
      rw [if_neg (by omega), if_neg (by omega), if_neg (by omega)]
      rfl
    · obtain rfl | rfl | rfl : n = 1 ∨ n = 2 ∨ n = 3 := by omega
      · exact ⟨"-m", by decide, rfl, fun t => rfl⟩
      · exact ⟨"m", by decide, rfl, fun t => rfl⟩
      · exact ⟨"b", by decide, rfl, fun t => rfl⟩
  · by_cases hfour : 4 ≤ n
    · refine ⟨"A", by decide, ?_, fun t => (if_pos hfour).symm⟩
      show (if 4 ≤ n then "%A" else "%a").toList = _
      rw [if_pos hfour]
      rfl
    · refine ⟨"a", by decide, ?_, fun t => (if_neg hfour).symm⟩
      show (if 4 ≤ n then "%A" else "%a").toList = _
      rw [if_neg hfour]
      rfl
  · exact ⟨"p", by decide, rfl, fun t => rfl⟩
  · exact ⟨"z", by decide, rfl, fun t => rfl⟩
  · rcases hwidth (of_decide_eq_true h) with rfl | rfl
    · exact ⟨"-d", by decide, rfl, fun t => rfl⟩
    · exact ⟨"d", by decide, rfl, fun t => rfl⟩
  · rcases hwidth (of_decide_eq_true h) with rfl | rfl
    · exact ⟨"-H", by decide, rfl, fun t => rfl⟩
    · exact ⟨"H", by decide, rfl, fun t => rfl⟩
  · rcases hwidth (of_decide_eq_true h) with rfl | rfl
    · exact ⟨"-I", by decide, rfl, fun t => rfl⟩
    · exact ⟨"I", by decide, rfl, fun t => rfl⟩
  · rcases hwidth (of_decide_eq_true h) with rfl | rfl
    · exact ⟨"-M", by decide, rfl, fun t => rfl⟩
    · exact ⟨"M", by decide, rfl, fun t => rfl⟩
  · rcases hwidth (of_decide_eq_true h) with rfl | rfl
    · exact ⟨"-S", by decide, rfl, fun t => rfl⟩
    · exact ⟨"S", by decide, rfl, fun t => rfl⟩
  · obtain rfl : n = 3 := of_decide_eq_true h
    exact ⟨"3f", by decide, rfl, fun t => rfl⟩
  · refine ⟨"Z", by decide, rfl, fun t => ?_⟩
    show _ = (if 4 ≤ n then "Coordinated Universal Time" else "UTC").toList
    rw [if_neg (Nat.not_le.mpr (Nat.lt_succ_of_le (of_decide_eq_true h)))]
    rfl
  · cases h

/-! ## Fields that are not -/

/-- `2000-01-01T00:00:00`, a Saturday. -/
def newYear : Timestamp :=
  ⟨2000, 1, 1, 0, 0, 0, 0, by decide, by decide, by decide, by decide, by decide, by decide, by decide⟩

/-- `1999-11-11T11:11:11.123`. -/
def elevens : Timestamp :=
  ⟨1999, 11, 11, 11, 11, 11, 123000, by decide, by decide, by decide, by decide, by decide, by decide, by decide⟩

/-- `0999-01-01T00:00:00`. -/
def firstMillennium : Timestamp :=
  ⟨999, 1, 1, 0, 0, 0, 0, by decide, by decide, by decide, by decide, by decide, by decide, by decide⟩

variable {c : Char}

omit [JavaCalendar] in
theorem head?_padded_ne (hc : c.isDigit = false) (width n : Nat) : (padded width n).head? ≠ some c := by
  intro heq
  have hdigit := Transcript.allDigits_padded width n c (List.mem_of_mem_head? heq)
  rw [hc] at hdigit
  cases hdigit

omit [JavaCalendar] in
theorem head?_padded_wide {width : Nat} (h : (decimal n).length < width) : (padded width n).head? = some '0' := by
  obtain ⟨k, hk⟩ := Nat.exists_eq_add_of_lt h
  rw [padded, List.leftpad, hk, Nat.add_assoc, Nat.add_sub_cancel_left, List.replicate_succ]
  rfl

omit [JavaCalendar] in
/-- A positive number does not start with a zero. -/
theorem head?_decimal_ne (hn : 0 < n) : (decimal n).head? ≠ some '0' := by
  induction n using Nat.strongRecOn with
  | ind n ih =>
    rw [decimal, Nat.toDigits_eq_if (by decide)]
    split
    next hlt =>
        have hall : ∀ m < 10, 0 < m → [m.digitChar].head? ≠ some '0' := by decide
        exact hall n hlt hn
    next hge =>
        have hquotient : 0 < n / 10 := Nat.div_pos (Nat.not_lt.mp hge) (by decide)
        rw [List.head?_append_of_ne_nil _ Nat.toDigits_ne_nil]
        exact ih (n / 10) (Nat.div_lt_self hn (by decide)) hquotient

omit [JavaCalendar] in
theorem head?_yearText_ne (hc : c.isDigit = false) (n year : Nat) : (yearText n year).head? ≠ some c := by
  unfold yearText
  split <;> exact head?_padded_ne hc _ _

omit [JavaCalendar] in
theorem head?_monthText_ne (hc : c.isDigit = false) (hj : c ≠ 'J') (n : Nat) :
    (monthText newYear n).head? ≠ some c := by
  have hname : some 'J' ≠ some c := fun heq => hj (Option.some.inj heq).symm
  unfold monthText
  split
  · exact hname
  · split
    · exact hname
    · exact head?_padded_ne hc _ _

omit [JavaCalendar] in
theorem tail_ite_ne {p : Prop} [Decidable p] {x y : String} {head : Option Char} (hx : head ≠ x.toList.tail.head?)
    (hy : head ≠ y.toList.tail.head?) : head ≠ (if p then x else y).toList.tail.head? := by
  split
  · exact hx
  · exact hy

/-- Without its percent sign, a directive does not start as the field does. -/
theorem fieldText_ne_tail (h : ch ∈ directiveChars ∨ ch = 'S') (hpos : 0 < n) :
    (fieldText newYear ch n).head? ≠ (repeatMap ch n).tail.head? := by
  simp only [directiveChars, List.mem_cons, List.not_mem_nil, or_false] at h
  rcases h with (rfl | rfl | rfl | rfl | rfl | rfl | rfl | rfl | rfl | rfl | rfl | rfl) | rfl
  · show (yearText n _).head? ≠ (if 3 ≤ n then "%Y" else "%y").toList.tail.head?
    exact tail_ite_ne (head?_yearText_ne rfl _ _) (head?_yearText_ne rfl _ _)
  · show (monthText newYear n).head? ≠
      (if n = 1 then "%-m" else if n = 2 then "%m" else if n = 3 then "%b" else "%B").toList.tail.head?
    split
    · exact head?_monthText_ne rfl (by decide) n
    · split
      · exact head?_monthText_ne rfl (by decide) n
      · exact tail_ite_ne (head?_monthText_ne rfl (by decide) n) (head?_monthText_ne rfl (by decide) n)
  · show (padded n _).head? ≠ (if n = 1 then "%-d" else "%d").toList.tail.head?
    exact tail_ite_ne (head?_padded_ne rfl _ _) (head?_padded_ne rfl _ _)
  · show (padded n _).head? ≠ (if n = 1 then "%-H" else "%H").toList.tail.head?
    exact tail_ite_ne (head?_padded_ne rfl _ _) (head?_padded_ne rfl _ _)
  · show (padded n _).head? ≠ (if n = 1 then "%-I" else "%I").toList.tail.head?
    exact tail_ite_ne (head?_padded_ne rfl _ _) (head?_padded_ne rfl _ _)
  · show (padded n _).head? ≠ (if n = 1 then "%-M" else "%M").toList.tail.head?
    exact tail_ite_ne (head?_padded_ne rfl _ _) (head?_padded_ne rfl _ _)
  · show (padded n _).head? ≠ (if n = 1 then "%-S" else "%S").toList.tail.head?
    exact tail_ite_ne (head?_padded_ne rfl _ _) (head?_padded_ne rfl _ _)
  · have hday : (fieldText newYear 'E' n).head? = some 'S' := by
      show (if 4 ≤ n then newYear.dayName else newYear.dayName.take 3).head? = _
      split <;> decide
    rw [hday]
    show _ ≠ (if 4 ≤ n then "%A" else "%a").toList.tail.head?
    exact tail_ite_ne (by decide) (by decide)
  · show some 'A' ≠ some 'p'
    decide
  · show some '+' ≠ some 'z'
    decide
  · show some 'Z' ≠ (if 3 ≤ n then "%:z" else "%z").toList.tail.head?
    exact tail_ite_ne (by decide) (by decide)
  · have hzone : (fieldText newYear 'z' n).head? ≠ some 'Z' := by
      show (if 4 ≤ n then "Coordinated Universal Time" else "UTC").toList.head? ≠ _
      split <;> decide
    exact hzone
  · -- the milliseconds are zeros, and a number of digits does not start with one
    have hzero : (fieldText newYear 'S' n).head? = some '0' := by
      obtain ⟨n, rfl⟩ := Nat.exists_eq_succ_of_ne_zero (Nat.ne_of_gt hpos)
      cases n with
      | zero => rfl
      | succ n => exact head?_padded_wide (Nat.succ_lt_succ (Nat.succ_pos n))
    have hdigits : (toString n).toList = decimal n := Nat.toList_repr
    rw [hzero, repeatMap_fraction, List.tail_cons, hdigits, List.head?_append_of_ne_nil _ (Transcript.decimal_ne_nil n)]
    exact (head?_decimal_ne hpos).symm

/-- A copied letter is not the first character of its field. -/
theorem fieldText_ne_copied (h : ch ∈ copiedChars) (n : Nat) : (fieldText newYear ch n).head? ≠ some ch := by
  simp only [copiedChars, List.mem_cons, List.not_mem_nil, or_false] at h
  rcases h with rfl | rfl | rfl | rfl | rfl | rfl | rfl | rfl | rfl | rfl
  any_goals exact head?_padded_ne rfl _ _
  · show some 'A' ≠ some 'G'
    decide
  · exact head?_yearText_ne rfl _ _
  · exact head?_monthText_ne rfl (by decide) n

variable [Chrono]

omit [JavaCalendar] in
theorem head?_format_directive {directive : String} (h : directive ∈ directives) {rest text : List Char} {t : Timestamp}
    (htext : Chrono.format ('%' :: (directive.toList ++ rest)) t = some text) :
    text.head? = (directiveText t directive).head? := by
  rw [Chrono.format_directive h] at htext
  obtain ⟨more, -, rfl⟩ := Option.map_eq_some_iff.mp htext
  have hopens := opens_directiveText t h
  cases hdirective : directiveText t directive with
  | nil =>
    rw [hdirective] at hopens
    cases hopens
  | cons c text => rfl

theorem differs_of_directive {d : String} (h : d ∈ directives)
    (hmap : repeatMap ch n = '%' :: d.toList) {t : Timestamp}
    (hne : (directiveText t d).head? ≠ (fieldText t ch n).head?) :
    ∃ t, ∀ rest text, Chrono.format (repeatMap ch n ++ rest) t = some text → text.head? ≠ (fieldText t ch n).head? := by
  refine ⟨t, fun rest text htext => ?_⟩
  rw [hmap, List.cons_append] at htext
  rw [head?_format_directive h htext]
  exact hne

/-- Three letters or more are padded with zeros, two are not when the number has two digits. -/
theorem differs_of_width {d : String} (h : d ∈ directives) (hn : 3 ≤ n)
    (hmap : repeatMap ch n = '%' :: d.toList) (htext : (directiveText elevens d).head? = some '1')
    (hfield : fieldText elevens ch n = padded n 11) :
    ∃ t, ∀ rest text, Chrono.format (repeatMap ch n ++ rest) t = some text → text.head? ≠ (fieldText t ch n).head? := by
  refine differs_of_directive (t := elevens) h hmap ?_
  rw [htext, hfield, head?_padded_wide (show (decimal 11).length < n from hn)]
  decide

/-- **Where the directive does not print the field, there is a timestamp at which the two texts start differently.** -/
theorem repeatMap_differs (hfield : isField ch n = true) (hpos : 0 < n) (h : printsField ch n = false) :
    ∃ t, ∀ rest text, Chrono.format (repeatMap ch n ++ rest) t = some text → text.head? ≠ (fieldText t ch n).head? := by
  rcases patternChars_cases (mem_patternChars_of_isField hfield) with hmem | rfl | hmem
  · simp only [directiveChars, List.mem_cons, List.not_mem_nil, or_false] at hmem
    rcases hmem with rfl | rfl | rfl | rfl | rfl | rfl | rfl | rfl | rfl | rfl | rfl | rfl
    · have hn : n ≠ 2 ∧ n ≠ 4 := by simpa [printsField] using h
      by_cases hfive : 5 ≤ n
      · have hyear : fieldText elevens 'y' n = padded n 1999 := if_neg hn.1
        refine differs_of_directive (d := "Y") (t := elevens) (by decide) ?_ ?_
        · show (if 3 ≤ n then "%Y" else "%y").toList = _
          rw [if_pos (by omega)]
          rfl
        · rw [hyear, head?_padded_wide (show (decimal 1999).length < n from hfive)]
          decide
      · obtain rfl | rfl : n = 1 ∨ n = 3 := by omega
        · exact differs_of_directive (d := "y") (t := elevens) (by decide) rfl
            (show (padded 2 99).head? ≠ (padded 1 1999).head? by decide)
        · exact differs_of_directive (d := "Y") (t := firstMillennium) (by decide) rfl
            (show (padded 4 999).head? ≠ (padded 3 999).head? by decide)
    · cases h
    · have hn : 2 < n := by simpa [printsField] using h
      exact differs_of_width (d := "d") (by decide) hn (wide_directive hn "%-d" "%d") (by decide) rfl
    · have hn : 2 < n := by simpa [printsField] using h
      exact differs_of_width (d := "H") (by decide) hn (wide_directive hn "%-H" "%H") (by decide) rfl
    · have hn : 2 < n := by simpa [printsField] using h
      exact differs_of_width (d := "I") (by decide) hn (wide_directive hn "%-I" "%I") (by decide) rfl
    · have hn : 2 < n := by simpa [printsField] using h
      exact differs_of_width (d := "M") (by decide) hn (wide_directive hn "%-M" "%M") (by decide) rfl
    · have hn : 2 < n := by simpa [printsField] using h
      exact differs_of_width (d := "S") (by decide) hn (wide_directive hn "%-S" "%S") (by decide) rfl
    · cases h
    · cases h
    · cases h
    · -- the zero offset is a letter in the one and a number in the other
      obtain ⟨directive, hdirective, hmap, htext⟩ : ∃ directive ∈ directives, repeatMap 'X' n = '%' :: directive.toList ∧
          (directiveText newYear directive).head? = some '+' := by
        show ∃ directive ∈ directives, (if 3 ≤ n then "%:z" else "%z").toList = _ ∧ _
        split
        · exact ⟨":z", by decide, rfl, rfl⟩
        · exact ⟨"z", by decide, rfl, rfl⟩
      refine differs_of_directive (t := newYear) hdirective hmap ?_
      rw [htext]
      show some '+' ≠ some 'Z'
      decide
    · have hn : 3 < n := by simpa [printsField] using h
      have hname : fieldText newYear 'z' n = "Coordinated Universal Time".toList := congrArg String.toList (if_pos hn)
      refine differs_of_directive (d := "Z") (t := newYear) (by decide) rfl ?_
      rw [hname]
      decide
  · have hn : n ≠ 3 := by simpa [printsField] using h
    by_cases hsix : n = 6
    · subst hsix
      exact differs_of_directive (d := "6f") (t := elevens) (by decide) rfl
        (show (padded 6 123000).head? ≠ (padded 6 123).head? by decide)
    · by_cases hnine : n = 9
      · subst hnine
        exact differs_of_directive (d := "9f") (t := elevens) (by decide) rfl
          (show (padded 9 123000000).head? ≠ (padded 9 123).head? by decide)
      · -- chrono does not know the directive
        refine ⟨newYear, fun rest text htext => ?_⟩
        rw [repeatMap_fraction, List.cons_append, List.append_assoc, List.singleton_append,
          Chrono.format_fraction hpos (by simp [hn, hsix, hnine])] at htext
        cases htext
  · refine ⟨newYear, fun rest text htext => ?_⟩
    obtain ⟨n, rfl⟩ := Nat.exists_eq_succ_of_ne_zero (Nat.ne_of_gt hpos)
    have hpercent : ch ≠ '%' := by
      rintro rfl
      exact absurd hmem (by decide)
    rw [repeatMap_copied hmem, List.replicate_succ, List.cons_append, Chrono.format_char hpercent] at htext
    obtain ⟨more, -, rfl⟩ := Option.map_eq_some_iff.mp htext
    exact (fieldText_ne_copied hmem (n + 1)).symm

end

end DatePatterns

end Fenic
