import Mathlib

/-!
# `Lib.SqlLexer` — the tokens of an SQL text

A reader with one state per kind of token, stepped over the characters. A literal ends at the first single quote that
is not doubled, so a text can only hold as many literals as it has quotes for: `cost_le_of_lex` and
`doubleQuotes_le_of_lex` count them. `run_quoted` is what a text without quotes is read as between two of them.
-/

namespace Fenic
namespace Sql

/-- A token of SQL. -/
inductive Token where
  | word (text : List Char)
  | literal (text : List Char)
  | identifier (text : List Char)
  | symbol (char : Char)
  deriving Repr, DecidableEq

/-- What is being read, and what of it has been read. -/
inductive Reading where
  | nothing
  | word (text : List Char)
  | quoted (quote : Char) (text : List Char)
  | closed (quote : Char) (text : List Char)
  | dash
  | comment
  deriving Repr, DecidableEq

def isWordChar (c : Char) : Bool := c.isAlphanum || c == '_'

def isBlank (c : Char) : Bool := c == ' ' || c == '\t' || c == '\n' || c == '\r'

/-- The token between two quotes. -/
def quotedToken (quote : Char) (text : List Char) : Token :=
  if quote = '\'' then .literal text else .identifier text

/-- What a character starts when nothing is being read. -/
def start (c : Char) : Reading × List Token :=
  if isBlank c then (.nothing, [])
  else if isWordChar c then (.word [c], [])
  else if c = '\'' ∨ c = '"' then (.quoted c [], [])
  else if c = '-' then (.dash, [])
  else (.nothing, [.symbol c])

/-- One character: the reading after it, and the tokens it completes. -/
def step : Reading → Char → Reading × List Token
  | .nothing, c => start c
  | .word text, c =>
    if isWordChar c then (.word (text ++ [c]), []) else ((start c).1, .word text :: (start c).2)
  | .quoted quote text, c =>
    if c = quote then (.closed quote text, []) else (.quoted quote (text ++ [c]), [])
  | .closed quote text, c =>
    -- a second quote at once is one of the text; anything else comes after the literal
    if c = quote then (.quoted quote (text ++ [c]), [])
    else ((start c).1, quotedToken quote text :: (start c).2)
  | .dash, c => if c = '-' then (.comment, []) else ((start c).1, .symbol '-' :: (start c).2)
  | .comment, c => (if c = '\n' then .nothing else .comment, [])

/-- The characters of a text, one after the other. -/
def run : Reading → List Char → Reading × List Token
  | reading, [] => (reading, [])
  | reading, c :: text => ((run (step reading c).1 text).1, (step reading c).2 ++ (run (step reading c).1 text).2)

/-- The tokens that the end of the text completes. A quoted text that is still open is an error. -/
def finish : Reading → Option (List Token)
  | .nothing => some []
  | .word text => some [.word text]
  | .quoted _ _ => none
  | .closed quote text => some [quotedToken quote text]
  | .dash => some [.symbol '-']
  | .comment => some []

/-- The tokens of a text. -/
def lex (text : List Char) : Option (List Token) :=
  (finish (run .nothing text).1).map ((run .nothing text).2 ++ ·)

/-! ## Runs -/

@[simp] theorem run_nil (reading : Reading) : run reading [] = (reading, []) := rfl

@[simp] theorem run_cons (reading : Reading) (c : Char) (text : List Char) :
    run reading (c :: text) =
      ((run (step reading c).1 text).1, (step reading c).2 ++ (run (step reading c).1 text).2) := rfl

theorem run_append (reading : Reading) (s t : List Char) :
    run reading (s ++ t) = ((run (run reading s).1 t).1, (run reading s).2 ++ (run (run reading s).1 t).2) := by
  induction s generalizing reading with
  | nil => rfl
  | cons c s ih => simp [ih]

/-- A run in two parts. -/
theorem run_trans {reading between after : Reading} {s t : List Char} {before rest : List Token}
    (hs : run reading s = (between, before)) (ht : run between t = (after, rest)) :
    run reading (s ++ t) = (after, before ++ rest) := by
  rw [run_append, hs, ht]

/-- Between two quotes a text without them is read as it is. -/
theorem run_quoted {quote : Char} {s : List Char} (h : quote ∉ s) (text : List Char) :
    run (.quoted quote text) s = (.quoted quote (text ++ s), []) := by
  induction s generalizing text with
  | nil => simp
  | cons c s ih =>
    have hc : c ≠ quote := fun heq => h (heq ▸ List.mem_cons_self)
    have hs : quote ∉ s := fun hmem => h (List.mem_cons_of_mem c hmem)
    simp [step, hc, ih hs]

variable {text : List Char} {tokens : List Token}

theorem lex_of_run (h : run .nothing text = (.nothing, tokens)) :
    lex text = some tokens := by
  simp [lex, h, finish]

/-! ## How many quotes the tokens of a text take -/

/-- The single quotes that a token is written with. -/
def Token.cost : Token → Nat
  | .literal text => 2 + 2 * text.count '\''
  | _ => 0

/-- The double quotes inside a literal. -/
def Token.doubleQuotes : Token → Nat
  | .literal text => text.count '"'
  | _ => 0

/-- The single quotes read so far of what is being read. -/
def Reading.cost : Reading → Nat
  | .quoted quote text => if quote = '\'' then 1 + 2 * text.count '\'' else 0
  | .closed quote text => if quote = '\'' then 2 + 2 * text.count '\'' else 0
  | _ => 0

def Reading.doubleQuotes : Reading → Nat
  | .quoted quote text => if quote = '\'' then text.count '"' else 0
  | .closed quote text => if quote = '\'' then text.count '"' else 0
  | _ => 0

theorem quotedToken_cost (quote : Char) (text : List Char) :
    (quotedToken quote text).cost = (Reading.closed quote text).cost := by
  unfold quotedToken
  split <;> simp [Token.cost, Reading.cost, *]

theorem quotedToken_doubleQuotes (quote : Char) (text : List Char) :
    (quotedToken quote text).doubleQuotes = (Reading.closed quote text).doubleQuotes := by
  unfold quotedToken
  split <;> simp [Token.doubleQuotes, Reading.doubleQuotes, *]

theorem start_cost (c : Char) :
    (start c).1.cost + ((start c).2.map Token.cost).sum ≤ [c].count '\'' := by
  unfold start
  split_ifs with hblank hword hquote hdash
  all_goals try simp [Reading.cost, Token.cost]
  -- only an opening quote counts
  split
  · rename_i hc
    rw [hc]
    exact Nat.le_refl 1
  · exact Nat.zero_le _

theorem start_doubleQuotes (c : Char) :
    (start c).1.doubleQuotes + ((start c).2.map Token.doubleQuotes).sum ≤ [c].count '"' := by
  unfold start
  split_ifs <;> simp [Reading.doubleQuotes, Token.doubleQuotes]

/-- No step completes more quotes than it reads. -/
theorem step_cost (reading : Reading) (c : Char) :
    (step reading c).1.cost + ((step reading c).2.map Token.cost).sum ≤ reading.cost + [c].count '\'' := by
  have hstart := start_cost c
  cases reading with
  | nothing => simpa [step, Reading.cost] using hstart
  | word text =>
    simp only [step]
    split
    · simp [Reading.cost]
    · have hnone : Reading.cost (.word text) = 0 := rfl
      simp only [List.map_cons, List.sum_cons, Token.cost, hnone]
      omega
  | quoted quote text =>
    by_cases hc : c = quote
    · simp only [step, hc, if_true, Reading.cost, List.map_nil, List.sum_nil]
      split <;> simp_all
      omega
    · simp only [step, hc, if_false, Reading.cost, List.map_nil, List.sum_nil, List.count_append]
      split
      · have hzero : [c].count '\'' = 0 := by simp_all
        omega
      · omega
  | closed quote text =>
    by_cases hc : c = quote
    · simp only [step, hc, if_true, Reading.cost, List.map_nil, List.sum_nil, List.count_append]
      split
      · have hone : [quote].count '\'' = 1 := by simp_all
        omega
      · omega
    · simp only [step, hc, if_false, List.map_cons, List.sum_cons, quotedToken_cost]
      omega
  | dash =>
    simp only [step]
    split
    · simp [Reading.cost]
    · have hnone : Reading.cost .dash = 0 := rfl
      simp only [List.map_cons, List.sum_cons, Token.cost, hnone]
      omega
  | comment =>
    simp only [step]
    split <;> simp [Reading.cost]

theorem step_doubleQuotes (reading : Reading) (c : Char) :
    (step reading c).1.doubleQuotes + ((step reading c).2.map Token.doubleQuotes).sum ≤
      reading.doubleQuotes + [c].count '"' := by
  have hstart := start_doubleQuotes c
  cases reading with
  | nothing => simpa [step, Reading.doubleQuotes] using hstart
  | word text =>
    simp only [step]
    split
    · simp [Reading.doubleQuotes]
    · have hnone : Reading.doubleQuotes (.word text) = 0 := rfl
      simp only [List.map_cons, List.sum_cons, Token.doubleQuotes, hnone]
      omega
  | quoted quote text =>
    simp only [step]
    split <;> simp only [Reading.doubleQuotes, List.map_nil, List.sum_nil, List.count_append] <;> split <;> omega
  | closed quote text =>
    by_cases hc : c = quote
    · simp only [step, hc, if_true, Reading.doubleQuotes, List.map_nil, List.sum_nil, List.count_append]
      split <;> omega
    · simp only [step, hc, if_false, List.map_cons, List.sum_cons, quotedToken_doubleQuotes]
      omega
  | dash =>
    simp only [step]
    split
    · simp [Reading.doubleQuotes]
    · have hnone : Reading.doubleQuotes .dash = 0 := rfl
      simp only [List.map_cons, List.sum_cons, Token.doubleQuotes, hnone]
      omega
  | comment =>
    simp only [step]
    split <;> simp [Reading.doubleQuotes]

theorem run_cost (reading : Reading) (text : List Char) :
    (run reading text).1.cost + ((run reading text).2.map Token.cost).sum ≤ reading.cost + text.count '\'' := by
  induction text generalizing reading with
  | nil => simp
  | cons c text ih =>
    have hstep := step_cost reading c
    have hrest := ih (step reading c).1
    have hcount : (c :: text).count '\'' = [c].count '\'' + text.count '\'' := by
      rw [← List.count_append, List.singleton_append]
    simp only [run_cons, List.map_append, List.sum_append]
    omega

theorem run_doubleQuotes (reading : Reading) (text : List Char) :
    (run reading text).1.doubleQuotes + ((run reading text).2.map Token.doubleQuotes).sum ≤
      reading.doubleQuotes + text.count '"' := by
  induction text generalizing reading with
  | nil => simp
  | cons c text ih =>
    have hstep := step_doubleQuotes reading c
    have hrest := ih (step reading c).1
    have hcount : (c :: text).count '"' = [c].count '"' + text.count '"' := by
      rw [← List.count_append, List.singleton_append]
    simp only [run_cons, List.map_append, List.sum_append]
    omega

/-- The end of a text completes what was being read, and costs nothing more. -/
theorem finish_cost {reading : Reading} {last : List Token} (h : finish reading = some last) :
    (last.map Token.cost).sum = reading.cost ∧ (last.map Token.doubleQuotes).sum = reading.doubleQuotes := by
  cases reading with
  | quoted quote text => cases h
  | closed quote text =>
    cases h
    simp [quotedToken_cost, quotedToken_doubleQuotes]
  | nothing | word _ | dash | comment => cases h; exact ⟨rfl, rfl⟩

theorem lex_eq_some (h : lex text = some tokens) :
    ∃ last, finish (run .nothing text).1 = some last ∧ tokens = (run .nothing text).2 ++ last := by
  obtain ⟨last, hlast, rfl⟩ := Option.map_eq_some_iff.mp h
  exact ⟨last, hlast, rfl⟩

/-- A text has the quotes that its literals are written with. -/
theorem cost_le_of_lex (h : lex text = some tokens) :
    (tokens.map Token.cost).sum ≤ text.count '\'' := by
  obtain ⟨last, hlast, rfl⟩ := lex_eq_some h
  have hrun := run_cost .nothing text
  have hfinish := (finish_cost hlast).1
  have hnothing : Reading.nothing.cost = 0 := rfl
  rw [List.map_append, List.sum_append]
  omega

theorem doubleQuotes_le_of_lex (h : lex text = some tokens) :
    (tokens.map Token.doubleQuotes).sum ≤ text.count '"' := by
  obtain ⟨last, hlast, rfl⟩ := lex_eq_some h
  have hrun := run_doubleQuotes .nothing text
  have hfinish := (finish_cost hlast).2
  have hnothing : Reading.nothing.doubleQuotes = 0 := rfl
  rw [List.map_append, List.sum_append]
  omega

end Sql
end Fenic
