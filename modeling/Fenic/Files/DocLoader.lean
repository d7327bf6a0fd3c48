import Fenic.Lib.Transition
import Mathlib.Data.List.Perm.Basic

/-!
# `Files.DocLoader` — loading documents in parallel

`DocFolderLoader._process_files` and `_process_single_file` of `_backends/local/utils/doc_loader.py`. The main thread and the
workers are one system of small steps: `advance` and `collect` are steps of the main thread, `finish` is a worker that is done
with a file. Which worker is done first is up to the run.

Futures are numbered in the order in which they are submitted; `submitted` has the file of each.
-/

namespace Fenic
namespace DocLoader

/-! ## A single file -/

/-- `PathScheme`. -/
inductive PathScheme where
  | s3
  | hf
  | localfs
  deriving DecidableEq, Repr

/-- What the loader meets: the checks of a netloc beyond its brackets, which go by tables of Unicode and of addresses, and the
    files, each with its content or with the text of the exception that reading it raises. -/
structure World where
  netlocError : List Char → Option String
  read : String → Except String String

/-- The part of a URL before its first colon, in lower case, if it is a scheme, and the rest. -/
def splitScheme (url : List Char) : List Char × List Char :=
  let scheme := url.takeWhile (· ≠ ':')
  let isSchemeChar (c : Char) : Bool := c.isAlphanum || c == '+' || c == '-' || c == '.'
  if scheme.length < url.length && scheme.head?.any Char.isAlpha && scheme.all isSchemeChar then
    (scheme.map Char.toLower, url.drop (scheme.length + 1))
  else ([], url)

/-- `urllib.parse.urlparse`, as far as its scheme: a netloc that is not well formed raises a `ValueError`. -/
def urlparse (world : World) (url : String) : Except String (List Char) :=
  let cleaned := (url.toList.dropWhile (·.toNat ≤ 0x20)).filter (· ∉ ['\t', '\r', '\n'])
  let (scheme, rest) := splitScheme cleaned
  if rest.take 2 = ['/', '/'] then
    let netloc := (rest.drop 2).takeWhile (· ∉ ['/', '?', '#'])
    if netloc.contains '[' != netloc.contains ']' then .error "Invalid IPv6 URL"
    else
      match world.netlocError netloc with
      | some message => .error message
      | none => .ok scheme
  else .ok scheme

/-- `get_path_scheme`. -/
def getPathScheme (world : World) (path : String) : Except String PathScheme := do
  let scheme ← urlparse world path
  return if scheme = ['s', '3'] then .s3 else if scheme = ['h', 'f'] then .hf else .localfs

/-- A row of the frame: `file_path`, `error`, `content`. -/
structure Row where
  filePath : String
  error : Option String
  content : Option String
  deriving DecidableEq, Repr

/-- `_load_file_s3`, `_load_file_hf` and `_load_file_local_fs`. -/
def loadFile (world : World) (path : String) : PathScheme → Except String String
  | .s3 => .error "S3 file loading is not implemented yet."
  | .hf => .error "HF file loading is not implemented yet."
  | .localfs => world.read path

/-- The row of what loading a file came to. -/
def rowOf (path : String) : Except String String → Row
  | .ok content => ⟨path, none, some content⟩
  | .error message => ⟨path, some message, none⟩

/-- `_process_single_file`. The scheme is found before the `try`. -/
def processSingleFile (world : World) (path : String) : Except String Row := do
  let scheme ← getPathScheme world path
  return rowOf path (loadFile world path scheme)

/-! ## The loader -/

variable {α ε ρ : Type}

/-- Where the main thread stands. -/
inductive Phase where
  /-- In the comprehension over `zip(range(max_workers), it)`, with what is left of the range. -/
  | starting (left : Nat)
  /-- At the condition `while pending`. -/
  | checking
  /-- In `as_completed`, with the futures of its copy of the set that it has not yielded yet. -/
  | waiting (snapshot : List Nat)
  /-- Back in the loop after a result was yielded. -/
  | refilling (snapshot : List Nat)
  | done
  /-- The result of a future was an exception. -/
  | raised (future : Nat)
  deriving DecidableEq, Repr

/-- `it` is what the iterator has left; `finished` has the futures that the workers are done with. -/
structure State (α ρ : Type) where
  phase : Phase
  it : List α
  submitted : List α
  finished : List Nat
  pending : List Nat
  rows : List ρ

inductive Action where
  /-- The main thread goes on without a result. -/
  | advance
  /-- `as_completed` yields a future. -/
  | collect (future : Nat)
  /-- A worker is done with a file. -/
  | finish (future : Nat)
  deriving DecidableEq, Repr

namespace State

def init (files : List α) (maxWorkers : Nat) : State α ρ where
  phase := .starting maxWorkers
  it := files
  submitted := []
  finished := []
  pending := []
  rows := []

/-- `pending.add(executor.submit(process_func, next(it)))`, or nothing at the end of the iterator. -/
def submitNext (state : State α ρ) : State α ρ :=
  match state.it with
  | [] => state
  | file :: it =>
    { state with
      it
      submitted := state.submitted ++ [file]
      pending := state.pending ++ [state.submitted.length] }

def advance (state : State α ρ) : Option (State α ρ) :=
  match state.phase with
  -- `zip` asks the range first, so no file is taken that is not submitted
  | .starting 0 => some { state with phase := .checking }
  | .starting (left + 1) =>
    if state.it.isEmpty then some { state with phase := .checking }
    else some { state.submitNext with phase := .starting left }
  | .checking =>
    if state.pending.isEmpty then some { state with phase := .done }
    else some { state with phase := .waiting state.pending }
  | .waiting [] => some { state with phase := .checking }
  | .waiting (_ :: _) => none
  | .refilling snapshot => some { state.submitNext with phase := .waiting snapshot }
  | .done => none
  | .raised _ => none

/-- `pending.remove(future)` and `yield future.result()`. -/
def collect (process : α → Except ε ρ) (future : Nat) (state : State α ρ) : Option (State α ρ) :=
  match state.phase with
  | .waiting snapshot =>
    if future ∈ snapshot ∧ future ∈ state.finished then
      match state.submitted[future]?.map process with
      | some (.ok row) =>
        some { state with
          phase := .refilling (snapshot.erase future)
          pending := state.pending.erase future
          rows := state.rows ++ [row] }
      | some (.error _) => some { state with phase := .raised future, pending := state.pending.erase future }
      | none => none
    else none
  | _ => none

def finish (future : Nat) (state : State α ρ) : Option (State α ρ) :=
  if future < state.submitted.length ∧ future ∉ state.finished then
    some { state with finished := future :: state.finished }
  else none

def step (process : α → Except ε ρ) (state : State α ρ) : Action → Option (State α ρ)
  | .advance => state.advance
  | .collect future => state.collect process future
  | .finish future => state.finish future

/-- The submissions that no worker is done with. -/
def unfinished (state : State α ρ) : List Nat :=
  (List.range state.submitted.length).filter (· ∉ state.finished)

end State

open Transition

/-- A state that a run of the loader leads to. -/
def Reachable (process : α → Except ε ρ) (files : List α) (maxWorkers : Nat) (state : State α ρ) : Prop :=
  Reaches (State.step process) (State.init files maxWorkers) state

/-- What is to hold of loading some files: in every run each file is submitted once, in order, with at most as many unfinished
    submissions as there are workers; runs end; and where one ends, the loader is done, and has yielded the row that is
    expected of each file. -/
structure LoadsAll (process : α → Except ε ρ) (expected : α → ρ) (files : List α) (maxWorkers : Nat) : Prop where
  submits : ∀ state, Reachable process files maxWorkers state → state.submitted ++ state.it = files
  bounded : ∀ state, Reachable process files maxWorkers state → state.unfinished.length ≤ maxWorkers
  ends : ∃ bound, ∀ as state, run (State.step process) (State.init files maxWorkers) as = some state → as.length ≤ bound
  yields : ∀ state, Reachable process files maxWorkers state → (∀ action, state.step process action = none) →
    state.phase = .done ∧ state.submitted = files ∧ state.unfinished = [] ∧ state.rows.Perm (files.map expected)

/-- The row that a file is to have: its path, with its content or with its error. -/
def expectedRow (world : World) (path : String) : Row :=
  rowOf path (getPathScheme world path >>= loadFile world path)

end DocLoader
end Fenic
