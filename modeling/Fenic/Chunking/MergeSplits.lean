import Fenic.Chunking.Splitter
import Fenic.Lib.Transition

/-!
# `Chunking.MergeSplits` — the two loops of `merge_splits`, step by step

Each step is one decision of the code: whether the next split closes the open chunk, whether a piece leaves the retained window, or the
push of the split. The subtraction in the inner loop is of unsigned numbers and is a step to a state of its own when it would underflow.

The length is any function: `separator_needed` and the terms that are subtracted only have to match what was added (`Inv`).
-/

namespace Fenic

namespace Chunking

open Transcript (Str)

/-- What `merge_splits` is called with: the splitter, with any sizes, and the separator. -/
structure MergeSettings where
  chunkLength : Str → Nat
  chunkSize : Nat
  chunkOverlap : Nat
  separator : Str

/-- A split and the length that `split_text_recursive` has measured. -/
structure MeasuredSplit (chunkLength : Str → Nat) where
  text : Str
  splitLength : Nat
  measured : splitLength = chunkLength text

/-- Where `merge_splits` is. -/
inductive MergePhase (chunkLength : Str → Nat) where
  /-- at the head of the `for` loop -/
  | nextSplit
  /-- at the head of the `while` loop, after a chunk was emitted -/
  | retain (split : MeasuredSplit chunkLength) (separatorNeeded : Nat)
  /-- behind the two loops' tests, before the split is added; with whether a chunk was emitted -/
  | push (split : MeasuredSplit chunkLength) (emitted : Bool)
  | returned
  /-- the unsigned subtraction of more than there is -/
  | underflow

structure MergeState (chunkLength : Str → Nat) where
  splits : List (MeasuredSplit chunkLength)
  mergedChunks : List Str
  currentChunkContents : List Str
  currentChunkLength : Nat
  phase : MergePhase chunkLength

namespace MergeSettings

open TextSplitter (mergeChunk)

variable (settings : MergeSettings)

def separatorLen : Nat := if settings.separator.isEmpty then 0 else settings.chunkLength settings.separator

def separatorNeeded (contents : List Str) : Nat := if contents.isEmpty then 0 else settings.separatorLen

def start (splits : List (MeasuredSplit settings.chunkLength)) : MergeState settings.chunkLength :=
  ⟨splits, [], [], 0, .nextSplit⟩

/-- The test of the `while` loop. -/
def tooLong (state : MergeState settings.chunkLength) (splitLength separatorNeeded : Nat) : Prop :=
  settings.chunkOverlap < state.currentChunkLength ∨
    (settings.chunkSize < state.currentChunkLength + splitLength + separatorNeeded ∧ 0 < state.currentChunkLength)

instance (state : MergeState settings.chunkLength) (splitLength separatorNeeded : Nat) :
    Decidable (settings.tooLong state splitLength separatorNeeded) :=
  inferInstanceAs (Decidable (_ ∨ _))

/-- One step; `none` once the function has returned, or has underflowed. -/
def step (state : MergeState settings.chunkLength) (_ : Unit) : Option (MergeState settings.chunkLength) :=
  match state.phase with
  | .nextSplit =>
    match state.splits with
    | [] =>
      let last := if state.currentChunkContents.isEmpty then none else mergeChunk state.currentChunkContents settings.separator
      some { state with mergedChunks := state.mergedChunks ++ last.toList, phase := .returned }
    | split :: splits =>
      let separatorNeeded := settings.separatorNeeded state.currentChunkContents
      if settings.chunkSize < state.currentChunkLength + split.splitLength + separatorNeeded ∧
          ¬ state.currentChunkContents.isEmpty then
        some { state with
          splits := splits
          mergedChunks := state.mergedChunks ++ (mergeChunk state.currentChunkContents settings.separator).toList
          phase := .retain split separatorNeeded }
      else some { state with splits := splits, phase := .push split false }
  | .retain split separatorNeeded =>
    if settings.tooLong state split.splitLength separatorNeeded then
      match state.currentChunkContents with
      | first :: rest =>
        let separatorLenForFirst := if 1 < (first :: rest).length then settings.separatorLen else 0
        let removed := settings.chunkLength first + separatorLenForFirst
        if state.currentChunkLength < removed then some { state with phase := .underflow }
        else some { state with currentChunkContents := rest, currentChunkLength := state.currentChunkLength - removed }
      -- `break`
      | [] => some { state with phase := .push split true }
    else some { state with phase := .push split true }
  | .push split _ =>
    let contents := state.currentChunkContents ++ [split.text]
    let separatorLenForTotal := if 1 < contents.length then settings.separatorLen else 0
    some { state with
      currentChunkContents := contents
      currentChunkLength := state.currentChunkLength + (split.splitLength + separatorLenForTotal)
      phase := .nextSplit }
  | .returned => none
  | .underflow => none

/-! ## What the running length is -/

/-- The pieces of the window, with a separator between any two. -/
def windowLength (contents : List Str) : Nat :=
  (contents.map settings.chunkLength).sum + settings.separatorLen * (contents.length - 1)

variable {settings}

theorem windowLength_eq_load (contents : List Str) :
    settings.windowLength contents = Windows.load settings.chunkLength settings.separatorLen contents := by
  induction contents with
  | nil => rfl
  | cons first rest ih =>
    rw [Windows.load, ← ih, windowLength, windowLength]
    cases rest with
    | nil => simp [Windows.separatorAfter]
    | cons second rest =>
      rw [Windows.separatorAfter_of_ne_nil (List.cons_ne_nil second rest)]
      simp only [List.map_cons, List.sum_cons, List.length_cons, Nat.add_sub_cancel, Nat.mul_add, Nat.mul_one]
      omega

theorem windowLength_cons (first : Str) (rest : List Str) :
    settings.windowLength (first :: rest) =
      settings.chunkLength first + (if 1 < (first :: rest).length then settings.separatorLen else 0) +
        settings.windowLength rest := by
  rw [windowLength_eq_load, windowLength_eq_load, Windows.load]
  cases rest <;> simp [Windows.separatorAfter]

theorem separatorLenForTotal_eq (contents : List Str) (s : Str) (n : Nat) :
    (if 1 < (contents ++ [s]).length then n else 0) = if contents.isEmpty then 0 else n := by
  cases contents <;> simp

theorem windowLength_push (contents : List Str) (s : Str) :
    settings.windowLength (contents ++ [s]) = settings.windowLength contents +
      (settings.chunkLength s + if 1 < (contents ++ [s]).length then settings.separatorLen else 0) := by
  rw [windowLength_eq_load, windowLength_eq_load, Windows.load_append_singleton]
  cases contents <;> simp [Windows.separatorAfter]

/-- What is left of the chunk that was emitted. -/
def Retained (settings : MergeSettings) (state : MergeState settings.chunkLength) : Prop :=
  ∀ split, state.phase = .push split true →
    state.currentChunkLength ≤ settings.chunkOverlap ∨
      state.currentChunkLength + split.splitLength + settings.separatorNeeded state.currentChunkContents ≤ settings.chunkSize

/-- **What holds of every state.** -/
structure Inv (settings : MergeSettings) (state : MergeState settings.chunkLength) : Prop where
  runningLength : state.currentChunkLength = settings.windowLength state.currentChunkContents
  noUnderflow : state.phase ≠ .underflow
  retained : settings.Retained state

theorem inv_start (splits : List (MeasuredSplit settings.chunkLength)) : Inv settings (settings.start splits) :=
  ⟨rfl, nofun, nofun⟩

variable {state state' : MergeState settings.chunkLength}

theorem Inv.step (h : Inv settings state) (hstep : settings.step state () = some state') : Inv settings state' := by
  have hlength := h.runningLength
  revert hstep
  fun_cases MergeSettings.step settings state () <;> rintro ⟨⟩
  case case1 => exact ⟨hlength, nofun, nofun⟩
  case case2 => exact ⟨hlength, nofun, nofun⟩
  case case3 => exact ⟨hlength, nofun, nofun⟩
  case case4 first rest hcontents separatorLenForFirst removed hunder =>
    -- what is subtracted has been added
    rw [hcontents, windowLength_cons] at hlength
    exact absurd (show removed ≤ state.currentChunkLength by omega) (Nat.not_le_of_lt hunder)
  case case5 split needed hphase hlong first rest hcontents separatorLenForFirst removed hremoved =>
    refine ⟨?_, by rw [hphase]; nofun, fun _ hpush => nomatch hphase.symm.trans hpush⟩
    rw [hcontents, windowLength_cons] at hlength
    show state.currentChunkLength - removed = settings.windowLength rest
    omega
  case case6 hlong hnil =>
    -- an empty window has no length, so that the loop does not get here
    have hzero : state.currentChunkLength = 0 := by
      rw [hlength, hnil]
      rfl
    rcases hlong with hlong | ⟨-, hlong⟩ <;> omega
  case case7 hshort =>
    exact ⟨hlength, nofun, fun _ _ => Or.inl (Nat.le_of_not_lt fun hover => hshort (Or.inl hover))⟩
  case case8 split emitted hphase contents separatorLenForTotal =>
    refine ⟨?_, nofun, nofun⟩
    show state.currentChunkLength + _ = settings.windowLength contents
    rw [windowLength_push, ← hlength, split.measured]

/-! ## The end of the loops -/

/-- How many steps are left at most. -/
def measure (state : MergeState settings.chunkLength) : Nat :=
  4 * state.splits.length + state.currentChunkContents.length +
    match state.phase with
    | .nextSplit => 1
    | .retain _ _ => 4
    | .push _ _ => 3
    | _ => 0

theorem step_measure (hstep : settings.step state () = some state') : measure state' < measure state := by
  revert hstep
  fun_cases MergeSettings.step settings state () <;> rintro ⟨⟩
  case case8 split emitted hphase contents separatorLenForTotal =>
    have hcontents : contents.length = state.currentChunkContents.length + 1 := List.length_append
    simp only [measure, hphase, hcontents]
    omega
  all_goals
    simp only [measure, List.length_cons, List.length_nil, *]
    omega

theorem phase_of_halted (h : Inv settings state) (hhalted : settings.step state () = none) : state.phase = .returned := by
  revert hhalted
  fun_cases MergeSettings.step settings state () <;> rintro ⟨⟩
  case case9 hphase => exact hphase
  case case10 hphase => exact absurd hphase h.noUnderflow

/-- **`merge_splits` ends, never underflows, and keeps the length of its window.** -/
theorem mergeSplits_safe (settings : MergeSettings) (splits : List (MeasuredSplit settings.chunkLength)) :
    (∃ n, ∀ steps state, Transition.run settings.step (settings.start splits) steps = some state → steps.length ≤ n) ∧
    (∃ state, Transition.Reaches settings.step (settings.start splits) state ∧ state.phase = .returned) ∧
    ∀ state, Transition.Reaches settings.step (settings.start splits) state →
      state.phase ≠ .underflow ∧
      state.currentChunkLength = (state.currentChunkContents.map settings.chunkLength).sum +
        settings.separatorLen * (state.currentChunkContents.length - 1) ∧
      settings.Retained state := by
  have hinv : ∀ s (a : Unit) s', Inv settings s → settings.step s a = some s' → Inv settings s' :=
    fun _ _ _ h hstep => h.step hstep
  have hmeasure : ∀ s (a : Unit) s', Inv settings s → settings.step s a = some s' → measure s' < measure s :=
    fun _ _ _ _ hstep => step_measure hstep
  refine ⟨⟨measure (settings.start splits), fun steps state hrun => ?_⟩, ?_, ?_⟩
  · have hlength := Transition.length_run_le hinv hmeasure (inv_start splits) hrun
    omega
  · obtain ⟨state, ⟨steps, hrun⟩, hhalted⟩ := Transition.exists_halted hinv hmeasure (inv_start splits)
    have hend := Transition.invariant_run hinv (inv_start splits) hrun
    exact ⟨state, ⟨steps, hrun⟩, phase_of_halted hend (hhalted ())⟩
  · rintro state ⟨steps, hrun⟩
    have hend := Transition.invariant_run hinv (inv_start splits) hrun
    exact ⟨hend.noUnderflow, hend.runningLength, hend.retained⟩

/-! ## The chunks of a splitter -/

variable {Token : Type} {splitter : TextSplitter Token} {separator : Str}

abbrev ofSplitter (splitter : TextSplitter Token) (separator : Str) : MergeSettings :=
  ⟨splitter.chunkLength, splitter.chunkSize, splitter.chunkOverlap, separator⟩

/-- All chunks of the run that a state is in. -/
def chunks (state : MergeState (ofSplitter splitter separator).chunkLength) : List Str :=
  let separatorLen := (ofSplitter splitter separator).separatorLen
  let push (split : MeasuredSplit splitter.chunkLength) (contents : List Str) (current : Nat) :=
    splitter.mergeLoop separator separatorLen (state.splits.map (·.text)) (contents ++ [split.text])
      (current + (splitter.chunkLength split.text + if contents.isEmpty then 0 else separatorLen))
  state.mergedChunks ++
    match state.phase with
    | .nextSplit =>
      splitter.mergeLoop separator separatorLen (state.splits.map (·.text)) state.currentChunkContents state.currentChunkLength
    | .retain split needed =>
      let kept := splitter.overlapContents (splitter.chunkLength split.text) needed separatorLen state.currentChunkContents
        state.currentChunkLength
      push split kept.1 kept.2
    | .push split _ => push split state.currentChunkContents state.currentChunkLength
    | _ => []

theorem step_chunks {state state' : MergeState (ofSplitter splitter separator).chunkLength}
    (hstep : (ofSplitter splitter separator).step state () = some state') (hunder : state'.phase ≠ .underflow) :
    chunks state' = chunks state := by
  revert hstep
  fun_cases MergeSettings.step (ofSplitter splitter separator) state () <;> rintro ⟨⟩
  case case1 hphase hsplits last =>
    simp only [chunks, hphase, hsplits, List.map_nil, TextSplitter.mergeLoop, List.append_nil, last]
    split <;> rfl
  case case2 hphase split splits hsplits needed hfull =>
    rw [split.measured] at hfull
    simp only [chunks, hphase, hsplits, List.map_cons, List.append_assoc]
    rw [TextSplitter.mergeLoop]
    exact congrArg (state.mergedChunks ++ ·) (if_pos hfull).symm
  case case3 hphase split splits hsplits needed hfits =>
    rw [split.measured] at hfits
    simp only [chunks, hphase, hsplits, List.map_cons]
    rw [TextSplitter.mergeLoop]
    exact congrArg (state.mergedChunks ++ ·) (if_neg hfits).symm
  case case4 => exact absurd rfl hunder
  case case5 split needed hphase hlong first rest hcontents separatorLenForFirst removed hremoved =>
    rw [tooLong, split.measured] at hlong
    have hkept : splitter.overlapContents (splitter.chunkLength split.text) needed (ofSplitter splitter separator).separatorLen
        (first :: rest) state.currentChunkLength = splitter.overlapContents (splitter.chunkLength split.text) needed
          (ofSplitter splitter separator).separatorLen rest (state.currentChunkLength - removed) := by
      rw [TextSplitter.overlapContents]
      exact (if_pos hlong).trans (by cases rest <;> rfl)
    simp only [chunks, hphase, hcontents, hkept]
  case case6 split needed hphase hlong hnil =>
    simp only [chunks, hphase, hnil]
    rfl
  case case7 split needed hphase hshort =>
    rw [tooLong, split.measured] at hshort
    have hkept : splitter.overlapContents (splitter.chunkLength split.text) needed (ofSplitter splitter separator).separatorLen
        state.currentChunkContents state.currentChunkLength = (state.currentChunkContents, state.currentChunkLength) := by
      cases state.currentChunkContents with
      | nil => rfl
      | cons first rest => exact if_neg hshort
    simp only [chunks, hphase, hkept]
  case case8 split emitted hphase contents separatorLenForTotal =>
    simp only [chunks, hphase, contents, separatorLenForTotal, split.measured, separatorLenForTotal_eq]

/-- **What the run of a splitter returns is what `mergeSplits` gives.** -/
theorem mergedChunks_eq (splits : List (MeasuredSplit splitter.chunkLength))
    {state : MergeState (ofSplitter splitter separator).chunkLength}
    (h : Transition.Reaches (ofSplitter splitter separator).step ((ofSplitter splitter separator).start splits) state)
    (hreturned : state.phase = .returned) :
    state.mergedChunks = splitter.mergeSplits (splits.map (·.text)) separator := by
  obtain ⟨steps, hrun⟩ := h
  have hend := Transition.invariant_run (P := fun s => Inv (ofSplitter splitter separator) s ∧
      chunks s = splitter.mergeSplits (splits.map (·.text)) separator)
    (fun _ _ _ h hstep => ⟨h.1.step hstep, (step_chunks hstep (h.1.step hstep).noUnderflow).trans h.2⟩)
    ⟨inv_start splits, rfl⟩ hrun
  rw [← hend.2, chunks, hreturned]
  exact (List.append_nil _).symm

def fourCharacters : TextSplitter Nat := ⟨.ascii, .characterCount, 4, 1, none, by decide, by rintro ⟨⟩⟩

/-- Two words that do not fit in one chunk. -/
theorem mergedChunks_words : ∃ state : MergeState (ofSplitter fourCharacters [' ']).chunkLength,
    Transition.Reaches (ofSplitter fourCharacters [' ']).step
        ((ofSplitter fourCharacters [' ']).start [⟨['a', 'b'], 2, rfl⟩, ⟨['c', 'd'], 2, rfl⟩]) state ∧
      state.mergedChunks = fourCharacters.mergeSplits [['a', 'b'], ['c', 'd']] [' '] := by
  have hrun : Transition.Reaches (ofSplitter fourCharacters [' ']).step
      ((ofSplitter fourCharacters [' ']).start [⟨['a', 'b'], 2, rfl⟩, ⟨['c', 'd'], 2, rfl⟩]) _ := ⟨List.replicate 7 (), rfl⟩
  exact ⟨_, hrun, mergedChunks_eq _ hrun rfl⟩

end MergeSettings

end Chunking

end Fenic
