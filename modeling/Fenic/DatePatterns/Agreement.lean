import Fenic.DatePatterns.Fields

/-!
# `DatePatterns.Agreement` — when the translated format prints what the pattern means

`Plain` says for which patterns it does: no percent sign stands outside of a section, no two quotes outside of a section are
closed by a third, and every run of a pattern letter is one of which the directive prints the field.

That no other pattern is printed right is not seen at the place of the slip alone, since the characters that are missing
there might be made up for later. `Lags` is the invariant: the format has fallen behind by some percent signs and quotes,
and perhaps has an open directive, and it never catches up (`not_lags`).
-/

namespace Fenic

namespace DatePatterns

open Expressions (quote repeatMap javaLikeToChrono)

section

variable [JavaCalendar] [Chrono]

/-- The translated format prints at every timestamp what the pattern means. -/
def PrintsAlike (pattern : String) (items : List Item) : Prop :=
  ∀ t, Chrono.format (javaLikeToChrono pattern).toList t = some (itemsText t items)

omit [JavaCalendar] [Chrono] in
/-- A run that is translated well, and the section is open or not. -/
def plainRun (quoted : Bool) (ch : Char) (n : Nat) : Bool :=
  if ch = quote then quoted || n % 2 = 1
  else quoted || (if isLetter ch then printsField ch n else ch ≠ '%')

omit [JavaCalendar] [Chrono] in
def plainRuns (quoted : Bool) : List (Char × Nat) → Bool
  | [] => true
  | (ch, n) :: runs => plainRun quoted ch n && plainRuns (if ch = quote then afterQuotes quoted n else quoted) runs

omit [JavaCalendar] [Chrono] in
def plain (pattern : String) : Bool := plainRuns false (Runs.encode pattern.toList)

/-! ## What is written for a run -/

variable {c : Char}

omit [JavaCalendar] in
theorem format_replicate (hc : c ≠ '%') (n : Nat) (rest : List Char) (t : Timestamp) :
    Chrono.format (List.replicate n c ++ rest) t = (Chrono.format rest t).map (List.replicate n c ++ ·) := by
  induction n with
  | zero =>
    show Chrono.format rest t = (Chrono.format rest t).map id
    rw [Option.map_id_fun, id]
  | succ n ih =>
    rw [List.replicate_succ, List.cons_append, Chrono.format_char hc, ih, Option.map_map]
    rfl

omit [JavaCalendar] in
/-- A percent sign of a section is doubled. -/
theorem format_section (ch : Char) (n : Nat) (rest : List Char) (t : Timestamp) :
    Chrono.format (writtenRun true ch n ++ rest) t = (Chrono.format rest t).map (List.replicate n ch ++ ·) := by
  by_cases hch : ch = '%'
  · subst hch
    induction n with
    | zero =>
      show Chrono.format rest t = (Chrono.format rest t).map id
      rw [Option.map_id_fun, id]
    | succ n ih =>
      show Chrono.format ('%' :: '%' :: (writtenRun true '%' n ++ rest)) t = _
      rw [Chrono.format_percent, ih, Option.map_map]
      rfl
  · have hwritten : writtenRun true ch n = List.replicate n ch := by
      refine Eq.trans (List.flatMap_congr (g := fun c => [c]) fun c hc => ?_) (List.flatMap_singleton' _)
      rw [List.eq_of_mem_replicate hc]
      exact if_neg hch
    rw [hwritten]
    exact format_replicate hch n rest t

variable {ch : Char}

omit [JavaCalendar] [Chrono] in
theorem repeatMap_of_not_letter (h : isLetter ch = false) (n : Nat) : repeatMap ch n = List.replicate n ch := by
  have hne : ∀ c : Char, isLetter c = true → ch ≠ c := by
    rintro c hc rfl
    rw [h] at hc
    cases hc
  simp [repeatMap, hne 'y' (by decide), hne 'M' (by decide), hne 'd' (by decide), hne 'H' (by decide), hne 'h' (by decide),
    hne 'm' (by decide), hne 's' (by decide), hne 'S' (by decide), hne 'f' (by decide), hne 'E' (by decide), hne 'a' (by decide),
    hne 'Z' (by decide), hne 'X' (by decide), hne 'V' (by decide), hne 'z' (by decide)]

variable {quoted : Bool} {n : Nat} {items : List Item}

omit [JavaCalendar] [Chrono] in
/-- A run that is not of quotes is of characters that stand for themselves, or it is a field. -/
theorem runItems_cases (h : runItems quoted ch n = some items) :
    (items = List.replicate n (.char ch) ∧ (quoted = true ∨ isLetter ch = false)) ∨
      (items = [.field ch n] ∧ quoted = false ∧ isLetter ch = true ∧ isField ch n = true) := by
  unfold runItems at h
  by_cases hplain : (quoted || !isLetter ch) = true
  · rw [if_pos hplain] at h
    cases h
    rw [Bool.or_eq_true, Bool.not_eq_true'] at hplain
    exact Or.inl ⟨rfl, hplain⟩
  · rw [if_neg hplain] at h
    obtain ⟨hfield, h⟩ := Option.ite_none_right_eq_some.mp h
    cases h
    rw [Bool.or_eq_true, Bool.not_eq_true', not_or, Bool.not_eq_true, Bool.not_eq_false] at hplain
    exact Or.inr ⟨rfl, hplain.1, hplain.2, hfield⟩

omit [Chrono] in
theorem itemsText_replicate (t : Timestamp) (n : Nat) (c : Char) (items : List Item) :
    itemsText t (List.replicate n (.char c) ++ items) = List.replicate n c ++ itemsText t items := by
  rw [itemsText, List.flatMap_append]
  congr 1
  induction n with
  | zero => rfl
  | succ n ih =>
    rw [List.replicate_succ, List.flatMap_cons, ih]
    rfl

omit [Chrono] in
theorem itemsText_field (t : Timestamp) (ch : Char) (n : Nat) (items : List Item) :
    itemsText t ([.field ch n] ++ items) = fieldText t ch n ++ itemsText t items := rfl

/-! ## Plain patterns -/

omit [JavaCalendar] [Chrono] in
theorem quote_ne_percent : quote ≠ '%' := by decide

variable {runs : List (Char × Nat)}

omit [JavaCalendar] [Chrono] in
theorem javaItems_quotes
    (h : javaItems quoted ((quote, n) :: runs) = some items) :
    ∃ more, javaItems (afterQuotes quoted n) runs = some more ∧ items = List.replicate (n / 2) (.char quote) ++ more := by
  obtain ⟨more, hmore, rfl⟩ := Option.map_eq_some_iff.mp h
  exact ⟨more, hmore, rfl⟩

omit [JavaCalendar] [Chrono] in
theorem javaItems_run (hch : ch ≠ quote)
    (h : javaItems quoted ((ch, n) :: runs) = some items) :
    ∃ first more, runItems quoted ch n = some first ∧ javaItems quoted runs = some more ∧ items = first ++ more := by
  rw [javaItems, if_neg hch] at h
  obtain ⟨first, hfirst, h⟩ := Option.bind_eq_some_iff.mp h
  obtain ⟨more, hmore, rfl⟩ := Option.map_eq_some_iff.mp h
  exact ⟨first, more, hfirst, hmore, rfl⟩

omit [JavaCalendar] [Chrono] in
theorem writtenRun_of_not_letter (h : isLetter ch = false) (n : Nat) :
    writtenRun false ch n = List.replicate n ch := by
  rw [writtenRun, if_neg Bool.false_ne_true, repeatMap_of_not_letter h]

/-- The format of plain runs prints what they mean. -/
theorem format_of_plainRuns
    (hpositive : ∀ run ∈ runs, 0 < run.2) (hjava : javaItems quoted runs = some items) (hplain : plainRuns quoted runs = true)
    (t : Timestamp) : Chrono.format (chronoRuns quoted runs) t = some (itemsText t items) := by
  induction runs generalizing quoted items with
  | nil =>
    obtain ⟨-, hjava⟩ := Option.ite_none_left_eq_some.mp hjava
    cases hjava
    exact Chrono.format_nil t
  | cons run runs ih =>
    obtain ⟨ch, n⟩ := run
    obtain ⟨hrun, hplain⟩ := Bool.and_eq_true_iff.mp hplain
    have hrest : ∀ run ∈ runs, 0 < run.2 := fun run hrun => hpositive run (List.mem_cons_of_mem _ hrun)
    by_cases hch : ch = quote
    · subst hch
      obtain ⟨more, hmore, rfl⟩ := javaItems_quotes hjava
      -- as many quotes are written as are meant
      have hwritten : writtenQuotes quoted n = n / 2 := by
        rw [plainRun, if_pos rfl, Bool.or_eq_true, decide_eq_true_eq] at hrun
        unfold writtenQuotes
        rcases hrun with rfl | hodd
        · rfl
        · split <;> omega
      rw [chronoRuns, if_pos rfl, format_replicate quote_ne_percent, ih hrest hmore hplain, itemsText_replicate, hwritten]
      rfl
    · rw [if_neg hch] at hplain
      rw [plainRun, if_neg hch] at hrun
      obtain ⟨first, more, hfirst, hmore, rfl⟩ := javaItems_run hch hjava
      rw [chronoRuns, if_neg hch]
      rcases runItems_cases hfirst with ⟨rfl, hplainChar⟩ | ⟨rfl, rfl, hletter, hfield⟩
      · rw [itemsText_replicate]
        cases quoted with
        | true =>
          rw [format_section, ih hrest hmore hplain]
          rfl
        | false =>
          have hletter : isLetter ch = false := hplainChar.resolve_left Bool.false_ne_true
          rw [hletter, if_neg Bool.false_ne_true, Bool.false_or, decide_eq_true_eq] at hrun
          rw [writtenRun_of_not_letter hletter, format_replicate hrun, ih hrest hmore hplain]
          rfl
      · rw [hletter, if_pos rfl, Bool.false_or] at hrun
        obtain ⟨directive, hdirective, hmap, htext⟩ :=
          repeatMap_prints (hpositive (ch, n) List.mem_cons_self) hrun
        rw [writtenRun, if_neg Bool.false_ne_true, hmap, List.cons_append, Chrono.format_directive hdirective,
          ih hrest hmore hplain, itemsText_field, htext]
        rfl

/-! ## A format that has fallen behind -/

omit [JavaCalendar] in
/-- The text is to come after characters that the format has not written, with an open directive before the format or not. -/
def Lags (isOpen : Bool) (pending format : List Char) (text : Timestamp → List Char) : Prop :=
  ∀ t, Chrono.format (if isOpen then '%' :: format else format) t = some (pending ++ text t)

omit [JavaCalendar] [Chrono] in
/-- What a format can have fallen behind by. -/
structure Pending (pending : List Char) : Prop where
  ne_nil : pending ≠ []
  slips : ∀ c ∈ pending, c = '%' ∨ c = quote

omit [JavaCalendar] [Chrono] in
theorem Pending.append {pending : List Char} (h : Pending pending) (hc : c = '%' ∨ c = quote) :
    Pending (pending ++ [c]) := by
  refine ⟨List.append_ne_nil_of_right_ne_nil _ (List.cons_ne_nil _ _), fun d hd => ?_⟩
  rcases List.mem_append.mp hd with hd | hd
  · exact h.slips d hd
  · rw [List.mem_singleton.mp hd]
    exact hc

omit [JavaCalendar] [Chrono] in
/-- The first character is written, and becomes the last one to come. -/
theorem Pending.rotate {pending : List Char} (h : Pending (c :: pending)) : Pending (pending ++ [c]) := by
  refine ⟨List.append_ne_nil_of_right_ne_nil _ (List.cons_ne_nil _ _), fun d hd => h.slips d ?_⟩
  rcases List.mem_append.mp hd with hd | hd
  · exact List.mem_cons_of_mem _ hd
  · rw [List.mem_singleton.mp hd]
    exact List.mem_cons_self

omit [JavaCalendar] [Chrono] in
theorem Pending.not_opens {pending : List Char} (h : Pending pending) (text : List Char) : opens (pending ++ text) = false := by
  obtain ⟨hne, hslips⟩ := h
  cases pending with
  | nil => exact absurd rfl hne
  | cons c pending =>
    rcases hslips c List.mem_cons_self with rfl | rfl <;> rfl

section

variable {isOpen : Bool} {pending format : List Char} {text : Timestamp → List Char}

variable {c : Char}

omit [JavaCalendar] in
/-- An open directive that is not another percent sign. -/
theorem not_lags_other (hpending : Pending pending) (hc : c ≠ '%') : ¬ Lags true pending (c :: format) text := by
  intro h
  obtain ⟨t, ht⟩ := Chrono.format_other hc format
  obtain ⟨first, more, heq, hpercent, hquote⟩ := ht _ (h t)
  have hnot := hpending.not_opens (text t)
  rw [heq, opens, decide_eq_true hpercent, decide_eq_true hquote] at hnot
  cases hnot

omit [JavaCalendar] in
/-- The format has written a character that was to come, so that the first one of those behind was the same. -/
theorem Lags.of_written (hpending : Pending pending)
    (h : ∀ t, (Chrono.format (if isOpen then '%' :: format else format) t).map (c :: ·) = some (pending ++ c :: text t)) :
    ∃ pending', Pending pending' ∧ Lags isOpen pending' format text := by
  cases pending with
  | nil => exact absurd rfl hpending.ne_nil
  | cons first pending =>
    have hfirst : ∀ t, first = c ∧
        Chrono.format (if isOpen then '%' :: format else format) t = some (pending ++ c :: text t) := by
      intro t
      obtain ⟨more, hmore, heq⟩ := Option.map_eq_some_iff.mp (h t)
      injection heq with hhead htail
      rw [hmore, htail]
      exact ⟨hhead.symm, rfl⟩
    obtain rfl := (hfirst newYear).1
    refine ⟨pending ++ [first], hpending.rotate, fun t => ?_⟩
    rw [List.append_assoc]
    exact (hfirst t).2

omit [JavaCalendar] in
/-- A character that stands for itself. -/
theorem Lags.char (hc : c ≠ '%') (hpending : Pending pending)
    (h : Lags isOpen pending (c :: format) fun t => c :: text t) :
    ∃ pending', Pending pending' ∧ Lags isOpen pending' format text := by
  cases isOpen with
  | true => exact absurd h (not_lags_other hpending hc)
  | false =>
    refine Lags.of_written (c := c) hpending fun t => ?_
    rw [← h t]
    exact (Chrono.format_char hc format t).symm

omit [JavaCalendar] in
/-- A doubled percent sign, which stands for one. A directive that is open stays open. -/
theorem Lags.escaped (hpending : Pending pending) (h : Lags isOpen pending ('%' :: '%' :: format) fun t => '%' :: text t) :
    ∃ pending', Pending pending' ∧ Lags isOpen pending' format text := by
  refine Lags.of_written (c := '%') hpending fun t => ?_
  rw [← h t]
  cases isOpen with
  | true => exact (Chrono.format_percent ('%' :: format) t).symm
  | false => exact (Chrono.format_percent format t).symm

omit [JavaCalendar] in
/-- A percent sign that is not doubled opens a directive, or closes one. -/
theorem Lags.percent (hpending : Pending pending) (h : Lags isOpen pending ('%' :: format) fun t => '%' :: text t) :
    ∃ pending', Pending pending' ∧ Lags (!isOpen) pending' format text := by
  cases isOpen with
  | false =>
    refine ⟨pending ++ ['%'], hpending.append (Or.inl rfl), fun t => ?_⟩
    rw [List.append_assoc]
    exact h t
  | true =>
    refine Lags.of_written (c := '%') hpending fun t => ?_
    rw [← h t]
    exact (Chrono.format_percent format t).symm

omit [JavaCalendar] in
/-- A quote that is not written at all. -/
theorem Lags.missing (hpending : Pending pending) (h : Lags isOpen pending format fun t => quote :: text t) :
    ∃ pending', Pending pending' ∧ Lags isOpen pending' format text := by
  refine ⟨pending ++ [quote], hpending.append (Or.inr rfl), fun t => ?_⟩
  rw [List.append_assoc]
  exact h t

omit [JavaCalendar] in
theorem not_lags_nil (hpending : Pending pending) : ¬ Lags isOpen pending [] fun _ => [] := by
  intro h
  have ht := h newYear
  cases isOpen with
  | true =>
    have hopen := Chrono.format_open newYear
    rw [if_pos rfl, hopen] at ht
    cases ht
  | false =>
    rw [if_neg Bool.false_ne_true, Chrono.format_nil] at ht
    injection ht with ht
    rw [List.append_nil] at ht
    exact hpending.ne_nil ht.symm

omit [JavaCalendar] in
/-- A text that is copied starts neither with a percent sign nor with a quote. -/
theorem not_lags_copied (hpending : Pending pending) (hopens : opens (c :: format) = true) :
    ¬ Lags isOpen pending (c :: format) text := by
  intro h
  have hc : c ≠ '%' := by
    rintro rfl
    cases hopens
  cases isOpen with
  | true => exact not_lags_other hpending hc h
  | false =>
    have ht : Chrono.format (c :: format) newYear = some (pending ++ text newYear) := h newYear
    rw [Chrono.format_char hc] at ht
    obtain ⟨more, -, heq⟩ := Option.map_eq_some_iff.mp ht
    have hnot := hpending.not_opens (text newYear)
    rw [← heq] at hnot
    exact Bool.false_ne_true (hnot.symm.trans hopens)

/-- A field: what is written for it starts neither with a percent sign nor with a quote, and where its percent sign closes an
    open directive, the rest of it is copied. -/
theorem not_lags_field (hpending : Pending pending) {ch : Char} {n : Nat} (hfield : isField ch n = true) (hpos : 0 < n) :
    ¬ Lags isOpen pending (repeatMap ch n ++ format) fun t => fieldText t ch n ++ text t := by
  intro h
  rcases repeatMap_opens (mem_patternChars_of_isField hfield) hpos with ⟨body, hmap, hbody, hdirective⟩ | ⟨hmap, hopens⟩
  · cases body with
    | nil => cases hbody
    | cons b body =>
      have hb : b ≠ '%' := by
        rintro rfl
        cases hbody
      rw [hmap] at h
      cases isOpen with
      | false =>
        have hopen : Lags true pending (b :: (body ++ format)) fun t => fieldText t ch n ++ text t := h
        exact not_lags_other hpending hb hopen
      | true =>
        have ht : Chrono.format ('%' :: '%' :: b :: (body ++ format)) newYear =
            some (pending ++ (fieldText newYear ch n ++ text newYear)) := h newYear
        rw [Chrono.format_percent, Chrono.format_char hb, Option.map_map] at ht
        obtain ⟨more, -, heq⟩ := Option.map_eq_some_iff.mp ht
        have htail := fieldText_ne_tail hdirective hpos
        rw [hmap, List.tail_cons, List.head?_cons] at htail
        obtain ⟨hne, hslips⟩ := hpending
        match pending, hne with
        | [c], _ =>
          -- the field would start with what is copied of the directive
          injection heq with _ heq
          refine htail ?_
          cases htext : fieldText newYear ch n with
          | nil => exact absurd htext (fieldText_ne_nil _ _ _)
          | cons first more' =>
            rw [htext] at heq
            injection heq with heq
            rw [heq]
            rfl
        | _ :: c :: _, _ =>
          injection heq with _ heq
          injection heq with heq
          rcases hslips c (List.mem_cons_of_mem _ List.mem_cons_self) with rfl | rfl
          · exact hb heq
          · rw [heq] at hbody
            cases hbody
  · obtain ⟨n, rfl⟩ := Nat.exists_eq_succ_of_ne_zero (Nat.ne_of_gt hpos)
    rw [hmap, List.replicate_succ] at h hopens
    have hhead : opens (ch :: (List.replicate n ch ++ format)) = true := hopens
    exact not_lags_copied hpending hhead h

end

/-! ### Whole runs -/

section

variable {isOpen : Bool} {pending format : List Char} {text : Timestamp → List Char}

omit [JavaCalendar] in
theorem Lags.replicate_char {c : Char} (hc : c ≠ '%') (n : Nat) (hpending : Pending pending)
    (h : Lags isOpen pending (List.replicate n c ++ format) fun t => List.replicate n c ++ text t) :
    ∃ pending', Pending pending' ∧ Lags isOpen pending' format text := by
  induction n generalizing pending with
  | zero => exact ⟨pending, hpending, h⟩
  | succ n ih =>
    obtain ⟨pending', hpending', h'⟩ := Lags.char hc hpending h
    exact ih hpending' h'

omit [JavaCalendar] in
theorem Lags.replicate_percent (n : Nat) (hpending : Pending pending)
    (h : Lags isOpen pending (List.replicate n '%' ++ format) fun t => List.replicate n '%' ++ text t) :
    ∃ isOpen' pending', Pending pending' ∧ Lags isOpen' pending' format text := by
  induction n generalizing isOpen pending with
  | zero => exact ⟨isOpen, pending, hpending, h⟩
  | succ n ih =>
    obtain ⟨pending', hpending', h'⟩ := Lags.percent hpending h
    exact ih hpending' h'

omit [JavaCalendar] in
/-- A run in a section. -/
theorem Lags.replicate_section (ch : Char) (n : Nat) (hpending : Pending pending)
    (h : Lags isOpen pending (writtenRun true ch n ++ format) fun t => List.replicate n ch ++ text t) :
    ∃ pending', Pending pending' ∧ Lags isOpen pending' format text := by
  induction n generalizing pending with
  | zero => exact ⟨pending, hpending, h⟩
  | succ n ih =>
    have hstep : writtenRun true ch (n + 1) ++ format =
        (if ch = '%' then ['%', '%'] else [ch]) ++ (writtenRun true ch n ++ format) := by
      show List.flatMap _ _ ++ _ = _ ++ (List.flatMap _ _ ++ _)
      rw [List.replicate_succ, List.flatMap_cons, List.append_assoc]
    rw [hstep] at h
    by_cases hch : ch = '%'
    · rw [if_pos hch, hch] at h
      obtain ⟨pending', hpending', h'⟩ := Lags.escaped hpending h
      exact ih hpending' (hch ▸ h')
    · rw [if_neg hch] at h
      obtain ⟨pending', hpending', h'⟩ := Lags.char hch hpending h
      exact ih hpending' h'

omit [JavaCalendar] in
/-- A run of quotes: all are written, or all but one. -/
theorem Lags.quotes (quoted : Bool) {n : Nat} (hpos : 0 < n) (hpending : Pending pending)
    (h : Lags isOpen pending (List.replicate (writtenQuotes quoted n) quote ++ format) fun t =>
      List.replicate (n / 2) quote ++ text t) :
    ∃ pending', Pending pending' ∧ Lags isOpen pending' format text := by
  have hwritten : n / 2 = writtenQuotes quoted n ∨ n / 2 = writtenQuotes quoted n + 1 := by
    unfold writtenQuotes
    split <;> omega
  rcases hwritten with heq | heq
  · rw [heq] at h
    exact Lags.replicate_char quote_ne_percent _ hpending h
  · have hsplit : ∀ t, List.replicate (n / 2) quote ++ text t =
        List.replicate (writtenQuotes quoted n) quote ++ (quote :: text t) := by
      intro t
      rw [heq, List.replicate_succ', List.append_assoc]
      rfl
    simp only [hsplit] at h
    obtain ⟨pending', hpending', h'⟩ := Lags.replicate_char quote_ne_percent _ hpending h
    exact Lags.missing hpending' h'

end

/-- **A format that has fallen behind does not catch up.** -/
theorem not_lags {isOpen : Bool} {pending : List Char}
    (hpositive : ∀ run ∈ runs, 0 < run.2) (hjava : javaItems quoted runs = some items) (hpending : Pending pending) :
    ¬ Lags isOpen pending (chronoRuns quoted runs) fun t => itemsText t items := by
  induction runs generalizing quoted isOpen items pending with
  | nil =>
    obtain ⟨-, hjava⟩ := Option.ite_none_left_eq_some.mp hjava
    cases hjava
    exact not_lags_nil hpending
  | cons run runs ih =>
    obtain ⟨ch, n⟩ := run
    have hpos : 0 < n := hpositive (ch, n) List.mem_cons_self
    have hrest : ∀ run ∈ runs, 0 < run.2 := fun run hrun => hpositive run (List.mem_cons_of_mem _ hrun)
    intro h
    by_cases hch : ch = quote
    · subst hch
      obtain ⟨more, hmore, rfl⟩ := javaItems_quotes hjava
      simp only [itemsText_replicate] at h
      obtain ⟨pending', hpending', h'⟩ := Lags.quotes quoted hpos hpending h
      exact ih hrest hmore hpending' h'
    · obtain ⟨first, more, hfirst, hmore, rfl⟩ := javaItems_run hch hjava
      rw [chronoRuns, if_neg hch] at h
      rcases runItems_cases hfirst with ⟨rfl, hplainChar⟩ | ⟨rfl, rfl, -, hfield⟩
      · simp only [itemsText_replicate] at h
        cases quoted with
        | true =>
          obtain ⟨pending', hpending', h'⟩ := Lags.replicate_section ch n hpending h
          exact ih hrest hmore hpending' h'
        | false =>
          rw [writtenRun_of_not_letter (hplainChar.resolve_left Bool.false_ne_true)] at h
          by_cases hpercent : ch = '%'
          · subst hpercent
            obtain ⟨isOpen', pending', hpending', h'⟩ := Lags.replicate_percent n hpending h
            exact ih hrest hmore hpending' h'
          · obtain ⟨pending', hpending', h'⟩ := Lags.replicate_char hpercent n hpending h
            exact ih hrest hmore hpending' h'
      · rw [writtenRun, if_neg Bool.false_ne_true] at h
        simp only [itemsText_field] at h
        exact not_lags_field hpending hfield hpos h

/-! ## Patterns that are not plain -/

/-- Runs whose format prints what they mean are plain. -/
theorem plainRuns_of_format
    (hpositive : ∀ run ∈ runs, 0 < run.2) (hjava : javaItems quoted runs = some items)
    (h : ∀ t, Chrono.format (chronoRuns quoted runs) t = some (itemsText t items)) : plainRuns quoted runs = true := by
  induction runs generalizing quoted items with
  | nil => rfl
  | cons run runs ih =>
    obtain ⟨ch, n⟩ := run
    have hpos : 0 < n := hpositive (ch, n) List.mem_cons_self
    have hrest : ∀ run ∈ runs, 0 < run.2 := fun run hrun => hpositive run (List.mem_cons_of_mem _ hrun)
    -- what both print first is dropped from both
    have hpeel : ∀ {front : List Char} {o : Option (List Char)} {text : List Char},
        o.map (front ++ ·) = some (front ++ text) → o = some text := by
      intro front o text heq
      obtain ⟨more, hmore, heq⟩ := Option.map_eq_some_iff.mp heq
      rw [hmore, List.append_cancel_left heq]
    by_cases hch : ch = quote
    · subst hch
      obtain ⟨more, hmore, rfl⟩ := javaItems_quotes hjava
      simp only [chronoRuns, if_pos, format_replicate quote_ne_percent, itemsText_replicate] at h
      have hrun : plainRun quoted quote n = true := by
        by_contra hnot
        rw [plainRun, if_pos rfl, Bool.or_eq_true, decide_eq_true_eq, not_or, Bool.not_eq_true] at hnot
        obtain ⟨rfl, heven⟩ := hnot
        -- one quote is missing
        have hhalf : n / 2 = writtenQuotes false n + 1 := by
          show n / 2 = (n - 1) / 2 + 1
          omega
        have hpending : Pending [quote] := ⟨List.cons_ne_nil _ _, fun c hc => Or.inr (List.mem_singleton.mp hc)⟩
        have hlags : Lags false [quote] (chronoRuns (afterQuotes false n) runs) fun t => itemsText t more := by
          intro t
          have ht := h t
          rw [hhalf, List.replicate_succ', List.append_assoc] at ht
          exact hpeel ht
        exact not_lags hrest hmore hpending hlags
      have hwritten : writtenQuotes quoted n = n / 2 := by
        rw [plainRun, if_pos rfl, Bool.or_eq_true, decide_eq_true_eq] at hrun
        unfold writtenQuotes
        rcases hrun with rfl | hodd
        · rfl
        · split <;> omega
      rw [hwritten] at h
      refine Bool.and_eq_true_iff.mpr ⟨hrun, ?_⟩
      exact ih hrest hmore fun t => hpeel (h t)
    · obtain ⟨first, more, hfirst, hmore, rfl⟩ := javaItems_run hch hjava
      rw [chronoRuns, if_neg hch] at h
      suffices hrun : plainRun quoted ch n = true ∧
          ∀ t, Chrono.format (chronoRuns quoted runs) t = some (itemsText t more) by
        refine Bool.and_eq_true_iff.mpr ⟨hrun.1, ?_⟩
        rw [if_neg hch]
        exact ih hrest hmore hrun.2
      rw [plainRun, if_neg hch]
      rcases runItems_cases hfirst with ⟨rfl, hplainChar⟩ | ⟨rfl, rfl, hletter, hfield⟩
      · simp only [itemsText_replicate] at h
        cases quoted with
        | true =>
          refine ⟨rfl, fun t => ?_⟩
          have ht := h t
          rw [format_section] at ht
          exact hpeel ht
        | false =>
          have hletter : isLetter ch = false := hplainChar.resolve_left Bool.false_ne_true
          rw [writtenRun_of_not_letter hletter] at h
          have hpercent : ch ≠ '%' := by
            rintro rfl
            -- the first percent sign opens a directive
            obtain ⟨n, rfl⟩ := Nat.exists_eq_succ_of_ne_zero (Nat.ne_of_gt hpos)
            have hlags : Lags true ['%'] (List.replicate n '%' ++ chronoRuns false runs) fun t =>
                List.replicate n '%' ++ itemsText t more := h
            have hpending : Pending ['%'] :=
              ⟨List.cons_ne_nil _ _, fun c hc => Or.inl (List.mem_singleton.mp hc)⟩
            obtain ⟨isOpen, pending, hpending, hlags⟩ := Lags.replicate_percent n hpending hlags
            exact not_lags hrest hmore hpending hlags
          refine ⟨?_, fun t => ?_⟩
          · rw [hletter, if_neg Bool.false_ne_true, Bool.false_or]
            exact decide_eq_true hpercent
          · have ht := h t
            rw [format_replicate hpercent] at ht
            exact hpeel ht
      · simp only [itemsText_field] at h
        rw [writtenRun, if_neg Bool.false_ne_true] at h
        have hprints : printsField ch n = true := by
          by_contra hnot
          obtain ⟨t, ht⟩ := repeatMap_differs hfield hpos (Bool.eq_false_iff.mpr hnot)
          refine ht _ _ (h t) ?_
          rw [List.head?_append_of_ne_nil _ (fieldText_ne_nil t ch n)]
        refine ⟨?_, fun t => ?_⟩
        · rw [hletter, if_pos rfl, Bool.false_or]
          exact hprints
        · obtain ⟨directive, hdirective, hmap, htext⟩ := repeatMap_prints hpos hprints
          have ht := h t
          rw [hmap, List.cons_append, Chrono.format_directive hdirective, htext] at ht
          exact hpeel ht

/-- **The translated format prints at every timestamp what the pattern means exactly if the pattern is plain.** -/
theorem printsAlike_iff {pattern : String} {items : List Item} (hjava : javaPattern pattern = some items) :
    PrintsAlike pattern items ↔ plain pattern = true := by
  have hpositive := (Runs.canonical_encode pattern.toList).positive
  unfold PrintsAlike
  rw [javaLikeToChrono_eq_runs]
  exact ⟨plainRuns_of_format hpositive hjava, format_of_plainRuns hpositive hjava⟩

end

/-! ### A date, and a percentage -/

section

/-- `DateTime::format` on formats that have no other directives. -/
def formatDirectives (t : Timestamp) : List Char → Option (List Char)
  | [] => some []
  | ['%'] => none
  | '%' :: c :: rest =>
    if c = '%' then (formatDirectives t rest).map ('%' :: ·)
    else if String.ofList [c] ∈ directives then (formatDirectives t rest).map (directiveText t (String.ofList [c]) ++ ·)
    else
      match rest with
      | [] => none
      | d :: rest =>
        if String.ofList [c, d] ∈ directives then
          (formatDirectives t rest).map (directiveText t (String.ofList [c, d]) ++ ·)
        else none
  | c :: rest => (formatDirectives t rest).map (c :: ·)

variable {c : Char}

theorem formatDirectives_char (hc : c ≠ '%') (rest : List Char) (t : Timestamp) :
    formatDirectives t (c :: rest) = (formatDirectives t rest).map (c :: ·) := by
  rw [formatDirectives]
  · exact fun heq => absurd heq hc
  · exact fun _ _ heq => absurd heq hc

theorem formatDirectives_percent (rest : List Char) (t : Timestamp) :
    formatDirectives t ('%' :: '%' :: rest) = (formatDirectives t rest).map ('%' :: ·) := by
  cases rest <;> exact if_pos rfl

theorem formatDirectives_one (hc : c ≠ '%') (h : String.ofList [c] ∈ directives) (rest : List Char)
    (t : Timestamp) :
    formatDirectives t ('%' :: c :: rest) = (formatDirectives t rest).map (directiveText t (String.ofList [c]) ++ ·) := by
  cases rest <;> exact (if_neg hc).trans (if_pos h)

theorem formatDirectives_last (hc : c ≠ '%') (h : String.ofList [c] ∉ directives) (t : Timestamp) :
    formatDirectives t ['%', c] = none :=
  (if_neg hc).trans (if_neg h)

theorem formatDirectives_two {d : Char} (hc : c ≠ '%') (h : String.ofList [c] ∉ directives) (rest : List Char)
    (t : Timestamp) :
    formatDirectives t ('%' :: c :: d :: rest) =
      if String.ofList [c, d] ∈ directives then
        (formatDirectives t rest).map (directiveText t (String.ofList [c, d]) ++ ·)
      else none :=
  (if_neg hc).trans (if_neg h)

/-- A directive is a character, or two of which the first is no directive. -/
def oneOrTwo (directive : String) : Bool :=
  match directive.toList with
  | [c] => c ≠ '%'
  | [c, _] => c ≠ '%' && String.ofList [c] ∉ directives
  | _ => false

theorem directives_oneOrTwo : ∀ directive ∈ directives, oneOrTwo directive = true := by decide

/-- A digit starts no directive of one character, and stands in none of two but in the first place. -/
theorem digit_directives (h : c.isDigit = true) :
    String.ofList [c] ∉ directives ∧ ∀ b, String.ofList [b, c] ∉ directives := by
  have hall : ∀ d ∈ directives, (d.toList.length = 1 → d.toList.all (!·.isDigit)) ∧
      (d.toList.length = 2 → d.toList.tail.all (!·.isDigit)) := by decide
  constructor
  · intro hmem
    have hnot := (hall _ hmem).1 (by rw [String.toList_ofList]; rfl)
    rw [String.toList_ofList, List.all_cons, h] at hnot
    cases hnot
  · intro b hmem
    have hnot := (hall _ hmem).2 (by rw [String.toList_ofList]; rfl)
    rw [String.toList_ofList, List.tail_cons, List.all_cons, h] at hnot
    cases hnot

local instance : Chrono where
  format text t := formatDirectives t text
  format_nil _ := rfl
  format_char hc rest t := formatDirectives_char hc rest t
  format_percent rest t := formatDirectives_percent rest t
  format_directive {d} h rest t := by
    have hshape := directives_oneOrTwo d h
    unfold oneOrTwo at hshape
    split at hshape
    next c hc =>
        have hd : String.ofList [c] = d := by rw [← hc, String.ofList_toList]
        rw [hc, List.singleton_append, formatDirectives_one (of_decide_eq_true hshape) (hd ▸ h), hd]
    next c e hc =>
        have hd : String.ofList [c, e] = d := by rw [← hc, String.ofList_toList]
        rw [Bool.and_eq_true, decide_eq_true_eq, decide_eq_true_eq] at hshape
        rw [hc]
        show formatDirectives t ('%' :: c :: e :: rest) = _
        rw [formatDirectives_two hshape.1 hshape.2, hd, if_pos h]
    next => cases hshape
  format_fraction {n} hpos hn rest t := by
    have hdigits := Transcript.allDigits_decimal n
    have hdecimal : (toString n).toList = Transcript.decimal n := Nat.toList_repr
    rw [hdecimal]
    cases htext : Transcript.decimal n with
    | nil => exact absurd htext (Transcript.decimal_ne_nil n)
    | cons c digits =>
      rw [htext] at hdigits
      have hc : c ≠ '%' := by
        rintro rfl
        exact absurd (hdigits '%' List.mem_cons_self) (by decide)
      have hone := (digit_directives (hdigits c List.mem_cons_self)).1
      cases digits with
      | nil =>
        -- one digit
        show formatDirectives t ('%' :: c :: 'f' :: rest) = none
        have hsmall : n < 10 := by
          have hlength : (Nat.toDigits 10 n).length ≤ 1 := by
            show (Transcript.decimal n).length ≤ 1
            rw [htext]
            rfl
          exact (Nat.length_toDigits_le_iff (by decide) Nat.one_pos).mp hlength
        have hall : ∀ m < 10, 0 < m → m ∉ [3, 6, 9] →
            String.ofList (Transcript.decimal m ++ ['f']) ∉ directives := by decide
        have hnone := hall n hsmall hpos hn
        rw [htext] at hnone
        rw [formatDirectives_two hc hone]
        exact if_neg hnone
      | cons d digits =>
        show formatDirectives t ('%' :: c :: d :: (digits ++ 'f' :: rest)) = none
        rw [formatDirectives_two hc hone,
          if_neg ((digit_directives (hdigits d (List.mem_cons_of_mem _ List.mem_cons_self))).2 c)]
  format_open _ := rfl
  format_other {c} hc rest := by
    have hopens : ∀ {d : String} {more : Option (List Char)} {text : List Char}, d ∈ directives →
        more.map (directiveText newYear d ++ ·) = some text →
          ∃ first more, text = first :: more ∧ first ≠ '%' ∧ first ≠ quote := by
      intro d more text hd heq
      obtain ⟨rest, -, rfl⟩ := Option.map_eq_some_iff.mp heq
      have hstart := opens_directiveText newYear hd
      cases hdirective : directiveText newYear d with
      | nil =>
        rw [hdirective] at hstart
        cases hstart
      | cons first text =>
        rw [hdirective, opens, Bool.and_eq_true, decide_eq_true_eq, decide_eq_true_eq] at hstart
        exact ⟨first, text ++ rest, rfl, hstart.1, hstart.2⟩
    refine ⟨newYear, fun text htext => ?_⟩
    by_cases hone : String.ofList [c] ∈ directives
    · rw [formatDirectives_one hc hone] at htext
      exact hopens hone htext
    · cases rest with
      | nil =>
        rw [formatDirectives_last hc hone] at htext
        cases htext
      | cons d rest =>
        rw [formatDirectives_two hc hone] at htext
        obtain ⟨htwo, htext⟩ := Option.ite_none_right_eq_some.mp htext
        exact hopens htwo htext

/-- Weeks that start with the year and with the month. -/
local instance : JavaCalendar := ⟨Timestamp.year, fun t => (t.dayOfYear + 6) / 7, fun t => (t.day + 6) / 7⟩

/-- `yyyy-MM-dd 'at' hh 'o''clock' a`. -/
theorem date_printed :
    ∃ items, javaPattern "yyyy-MM-dd 'at' hh 'o''clock' a" = some items ∧
      PrintsAlike "yyyy-MM-dd 'at' hh 'o''clock' a" items := by
  obtain ⟨items, hitems⟩ := Option.isSome_iff_exists.mp
    (show (javaPattern "yyyy-MM-dd 'at' hh 'o''clock' a").isSome = true by decide +kernel)
  exact ⟨items, hitems, (printsAlike_iff hitems).mpr (by decide +kernel)⟩

/-- A percent sign, which chrono takes for the start of a directive, and two quotes, of which nothing is printed. -/
theorem percent_not_printed :
    (¬ ∀ pattern items, javaPattern pattern = some items → PrintsAlike pattern items) ∧
      javaPattern "d% " = some [.field 'd' 1, .char '%', .char ' '] ∧
      Chrono.format (javaLikeToChrono "d% ").toList newYear = none ∧
      javaPattern "yyyy''" = some [.field 'y' 4, .char quote] ∧
      Chrono.format (javaLikeToChrono "yyyy''").toList newYear = some "2000".toList := by
  have hpercent : Chrono.format (javaLikeToChrono "d% ").toList newYear = none := by decide +kernel
  refine ⟨fun h => ?_, by decide +kernel, hpercent, by decide +kernel, by decide +kernel⟩
  have hprinted := h "d% " [.field 'd' 1, .char '%', .char ' '] (by decide +kernel) newYear
  rw [hpercent] at hprinted
  cases hprinted

end

end DatePatterns

end Fenic
