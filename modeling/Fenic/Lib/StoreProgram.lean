import Mathlib.Logic.Basic

/-!
# `Lib.StoreProgram` — programs over a transactional store

A program asks a store questions and changes it. Each question and each change is one step, and a change takes place as a whole or
fails and leaves the store as it was. Both may also fail for reasons of the store's own. What fails raises, and the program may
turn the error into another one.

`exec` runs a program by itself, with the failures that a list of faults gives, and `run` without any. `wp p Q s` says that `Q`
holds of what every execution of `p` from `s` returns and leaves behind. It is a function of the program, with one rule for each
construct.

Programs of several threads take turns, step by step. `after` is what the answers to some questions leave of a program, and
`ActsLast` says that a program changes the store at most once, with nothing after the change.
-/

/-- A program over a store with states `S`, errors `E` and results `α`. A guarded question has to wait for the lock. -/
inductive StoreProgram (S E α : Type) : Type 1 where
  | done (result : Except E α)
  | query (guarded : Bool) {β : Type} (ask : S → Except E β) (next : Except E β → StoreProgram S E α)
  | act {β : Type} (update : S → Except E (β × S)) (next : Except E β → StoreProgram S E α)

namespace StoreProgram

variable {S E α β : Type}

/-! ## Constructs -/

def bind : StoreProgram S E α → (α → StoreProgram S E β) → StoreProgram S E β
  | done (.ok a), f => f a
  | done (.error e), _ => done (.error e)
  | query guarded ask next, f => query guarded ask fun answer => (next answer).bind f
  | act update next, f => act update fun answer => (next answer).bind f

instance : Monad (StoreProgram S E) where
  pure a := done (.ok a)
  bind := bind

def raise (e : E) : StoreProgram S E α := done (.error e)

/-- A computation that does not use the store. -/
def lift (result : Except E α) : StoreProgram S E α := done result

def ask (question : S → Except E α) : StoreProgram S E α := query false question done

def askGuarded (question : S → Except E α) : StoreProgram S E α := query true question done

def commit (update : S → Except E (α × S)) : StoreProgram S E α := act update done

/-- The program goes on with what it has returned or raised. -/
def andThen : StoreProgram S E α → (Except E α → StoreProgram S E β) → StoreProgram S E β
  | done result, f => f result
  | query guarded ask next, f => query guarded ask fun answer => (next answer).andThen f
  | act update next, f => act update fun answer => (next answer).andThen f

/-- Where a sequence goes on after its first part. -/
def continued (f : α → StoreProgram S E β) : Except E α → StoreProgram S E β
  | .ok a => f a
  | .error e => raise e

theorem bind_eq_andThen (p : StoreProgram S E α) (f : α → StoreProgram S E β) : p >>= f = p.andThen (continued f) := by
  show p.bind f = _
  induction p with
  | done result => cases result <;> rfl
  | query guarded ask next ih => exact congrArg (query guarded ask) (funext fun answer => ih answer)
  | act update next ih => exact congrArg (act update) (funext fun answer => ih answer)

theorem andThen_assoc {γ : Type} (p : StoreProgram S E α) (f : Except E α → StoreProgram S E β)
    (g : Except E β → StoreProgram S E γ) : (p.andThen f).andThen g = p.andThen fun result => (f result).andThen g := by
  induction p with
  | done result => rfl
  | query guarded ask next ih => exact congrArg (query guarded ask) (funext fun answer => ih answer)
  | act update next ih => exact congrArg (act update) (funext fun answer => ih answer)

theorem andThen_done (p : StoreProgram S E α) : p.andThen done = p := by
  induction p with
  | done result => rfl
  | query guarded ask next ih => exact congrArg (query guarded ask) (funext fun answer => ih answer)
  | act update next ih => exact congrArg (act update) (funext fun answer => ih answer)

instance : LawfulMonad (StoreProgram S E) := LawfulMonad.mk' _
  (by
    intro α p
    show p >>= (fun a => Pure.pure a) = p
    rw [bind_eq_andThen]
    exact (congrArg p.andThen (funext fun result => by cases result <;> rfl)).trans p.andThen_done)
  (fun _ _ => rfl)
  (by
    intro α β γ p f g
    rw [bind_eq_andThen, bind_eq_andThen, andThen_assoc, bind_eq_andThen]
    refine congrArg p.andThen (funext fun result => ?_)
    cases result with
    | ok a => exact (bind_eq_andThen (f a) g).symm
    | error e => rfl)

/-- The errors of the program are handled. -/
def onError (p : StoreProgram S E α) (h : E → StoreProgram S E α) : StoreProgram S E α :=
  p.andThen fun result => match result with
    | .ok a => done (.ok a)
    | .error e => h e

/-- The program with its errors replaced. -/
def mapError (h : E → E) : StoreProgram S E α → StoreProgram S E α
  | done result => done (result.mapError h)
  | query guarded ask next => query guarded ask fun answer => (next answer).mapError h
  | act update next => act update fun answer => (next answer).mapError h

/-! ## Execution -/

/-- An answer of the store, or its own failure. -/
def faulty (fault : Option E) (answer : Except E β) : Except E β := fault.elim answer .error

/-- What the program returns and the store after it, when the step `n` fails with `faults n`. -/
def exec : StoreProgram S E α → (Nat → Option E) → S → Except E α × S
  | done result, _, s => (result, s)
  | query _ ask next, faults, s => (next (faulty (faults 0) (ask s))).exec (fun n => faults (n + 1)) s
  | act update next, faults, s =>
    match faulty (faults 0) (update s) with
    | .ok (b, s') => (next (.ok b)).exec (fun n => faults (n + 1)) s'
    | .error e => (next (.error e)).exec (fun n => faults (n + 1)) s

/-- The execution in which the store does not fail by itself. -/
def run (p : StoreProgram S E α) (s : S) : Except E α × S := p.exec (fun _ => none) s

/-- `Q` holds after every execution, whatever fails. -/
def wp : StoreProgram S E α → (Except E α → S → Prop) → S → Prop
  | done result, Q, s => Q result s
  | query _ ask next, Q, s => wp (next (ask s)) Q s ∧ ∀ e, wp (next (.error e)) Q s
  | act update next, Q, s =>
    (∀ b s', update s = .ok (b, s') → wp (next (.ok b)) Q s') ∧ ∀ e, wp (next (.error e)) Q s

/-- `wp` speaks of the executions. -/
theorem exec_of_wp {p : StoreProgram S E α} {Q : Except E α → S → Prop} {s : S} (h : wp p Q s) (faults : Nat → Option E) :
    Q (p.exec faults s).1 (p.exec faults s).2 := by
  induction p generalizing faults s with
  | done result => exact h
  | query guarded ask next ih =>
    rw [exec]
    cases faults 0 with
    | none => exact ih _ h.1 _
    | some e => exact ih _ (h.2 e) _
  | act update next ih =>
    rw [exec]
    cases faults 0 with
    | some e => exact ih _ (h.2 e) _
    | none =>
      show Q (match update s with | .ok (b, s') => _ | .error e => _ : Except E α × S).1
        (match update s with | .ok (b, s') => _ | .error e => _ : Except E α × S).2
      cases hupdate : update s with
      | error e => exact ih _ (h.2 e) _
      | ok answer => exact ih _ (h.1 answer.1 answer.2 hupdate) _

/-! ## Rules -/

theorem wp_mono {p : StoreProgram S E α} {Q Q' : Except E α → S → Prop} (hQ : ∀ result s, Q result s → Q' result s) {s : S}
    (h : wp p Q s) : wp p Q' s := by
  induction p generalizing s with
  | done result => exact hQ result s h
  | query guarded ask next ih => exact ⟨ih _ h.1, fun e => ih _ (h.2 e)⟩
  | act update next ih => exact ⟨fun b s' hupdate => ih _ (h.1 b s' hupdate), fun e => ih _ (h.2 e)⟩

variable {Q : Except E β → S → Prop} {s : S}

theorem wp_andThen (p : StoreProgram S E α) (f : Except E α → StoreProgram S E β) :
    wp (p.andThen f) Q s ↔ wp p (fun result s' => wp (f result) Q s') s := by
  induction p generalizing s with
  | done result => exact Iff.rfl
  | query guarded ask next ih => exact and_congr (ih _) (forall_congr' fun e => ih _)
  | act update next ih =>
    exact and_congr (forall_congr' fun b => forall_congr' fun s' => imp_congr Iff.rfl (ih _)) (forall_congr' fun e => ih _)

/-- A sequence goes on where its first part returns. -/
theorem wp_bind (p : StoreProgram S E α) (f : α → StoreProgram S E β) :
    wp (p >>= f) Q s ↔ wp p (fun result s' => wp (continued f result) Q s') s := by
  rw [bind_eq_andThen, wp_andThen]

theorem wp_map (f : α → β) (p : StoreProgram S E α) :
    wp (f <$> p) Q s ↔ wp p (fun result s' => Q (result.map f) s') s := by
  show wp (p.bind fun a => done (.ok (f a))) Q s ↔ _
  induction p generalizing s with
  | done result => cases result <;> exact Iff.rfl
  | query guarded ask next ih => exact and_congr (ih _) (forall_congr' fun e => ih _)
  | act update next ih =>
    exact and_congr (forall_congr' fun b => forall_congr' fun s' => imp_congr Iff.rfl (ih _)) (forall_congr' fun e => ih _)

theorem wp_mapError (h : E → E) (p : StoreProgram S E β) :
    wp (p.mapError h) Q s ↔ wp p (fun result s' => Q (result.mapError h) s') s := by
  induction p generalizing s with
  | done result => exact Iff.rfl
  | query guarded ask next ih => exact and_congr (ih _) (forall_congr' fun e => ih _)
  | act update next ih =>
    exact and_congr (forall_congr' fun b => forall_congr' fun s' => imp_congr Iff.rfl (ih _)) (forall_congr' fun e => ih _)

/-! ## Changes -/

/-- Either nothing changes, or the program returns and the store has changed as `effect` says. -/
def Changes (p : StoreProgram S E α) (effect : S → Prop) (s : S) : Prop :=
  wp p (fun result s' => s' = s ∨ (∃ a, result = .ok a) ∧ effect s') s

/-- Nothing changes, and what the program returns satisfies `value`. -/
def Returns (p : StoreProgram S E α) (value : α → Prop) (s : S) : Prop :=
  wp p (fun result s' => s' = s ∧ ∀ a, result = .ok a → value a) s

namespace Changes

variable {p : StoreProgram S E α} {effect : S → Prop}

theorem raise (e : E) : Changes (.raise e : StoreProgram S E α) effect s := Or.inl rfl

theorem pure (a : α) : Changes (Pure.pure a : StoreProgram S E α) effect s := Or.inl rfl

theorem ask (question : S → Except E α) : Changes (.ask question) effect s := ⟨Or.inl rfl, fun _ => Or.inl rfl⟩

theorem askGuarded (question : S → Except E α) : Changes (.askGuarded question) effect s :=
  ⟨Or.inl rfl, fun _ => Or.inl rfl⟩

theorem commit {update : S → Except E (α × S)} (h : ∀ a s', update s = .ok (a, s') → effect s') :
    Changes (.commit update) effect s :=
  ⟨fun a s' hupdate => Or.inr ⟨⟨a, rfl⟩, h a s' hupdate⟩, fun _ => Or.inl rfl⟩

theorem mono {effect' : S → Prop} (h : Changes p effect s) (himp : ∀ s', effect s' → effect' s') : Changes p effect' s :=
  wp_mono (fun _ _ hchange => hchange.imp_right fun ⟨hok, heffect⟩ => ⟨hok, himp _ heffect⟩) h

theorem mapError (h : Changes p effect s) (f : E → E) : Changes (p.mapError f) effect s := by
  unfold Changes
  rw [wp_mapError]
  apply wp_mono _ h
  rintro result s' (rfl | ⟨⟨a, rfl⟩, heffect⟩)
  · exact Or.inl rfl
  · exact Or.inr ⟨⟨a, rfl⟩, heffect⟩

theorem onError {h : E → StoreProgram S E α} (hp : Changes p effect s) (hh : ∀ e, Changes (h e) effect s) :
    Changes (p.onError h) effect s := by
  unfold Changes StoreProgram.onError
  rw [wp_andThen]
  apply wp_mono _ hp
  rintro result s' (rfl | ⟨⟨a, rfl⟩, heffect⟩)
  · cases result with
    | error e => exact hh e
    | ok a => exact Or.inl rfl
  · exact Or.inr ⟨⟨a, rfl⟩, heffect⟩

variable {γ : Type}

theorem map (h : Changes p effect s) (f : α → γ) : Changes (f <$> p) effect s := by
  unfold Changes
  rw [wp_map]
  apply wp_mono _ h
  rintro result s' (rfl | ⟨⟨a, rfl⟩, heffect⟩)
  · exact Or.inl rfl
  · exact Or.inr ⟨⟨f a, rfl⟩, heffect⟩

/-- A change with a value put in the place of its result. -/
theorem bind_pure (h : Changes p effect s) (f : α → γ) :
    Changes (p >>= fun a => Pure.pure (f a)) effect s := h.map f

theorem ite {c : Prop} [Decidable c] {q : StoreProgram S E α} (hp : c → Changes p effect s) (hq : ¬ c → Changes q effect s) :
    Changes (if c then p else q) effect s := by
  by_cases hc : c
  · rw [if_pos hc]
    exact hp hc
  · rw [if_neg hc]
    exact hq hc

/-- A program that changes nothing, before one that does. -/
theorem bind {value : α → Prop} {f : α → StoreProgram S E γ} (hp : Returns p value s)
    (hf : ∀ a, value a → Changes (f a) effect s) : Changes (p >>= f) effect s := by
  unfold Changes
  rw [wp_bind]
  apply wp_mono _ hp
  rintro result s' ⟨rfl, hvalue⟩
  cases result with
  | error e => exact Or.inl rfl
  | ok a => exact hf a (hvalue a rfl)

end Changes

namespace Returns

variable {p : StoreProgram S E α} {value : α → Prop}

theorem mono {value' : α → Prop} (h : Returns p value s) (himp : ∀ a, value a → value' a) : Returns p value' s :=
  wp_mono (fun _ _ hvalue => ⟨hvalue.1, fun a ha => himp a (hvalue.2 a ha)⟩) h

theorem lift {result : Except E α} (h : ∀ a, result = .ok a → value a) : Returns (.lift result) value s := ⟨rfl, h⟩

theorem ask {question : S → Except E α} (h : ∀ a, question s = .ok a → value a) : Returns (.ask question) value s :=
  ⟨⟨rfl, h⟩, fun _ => ⟨rfl, nofun⟩⟩

theorem askGuarded {question : S → Except E α} (h : ∀ a, question s = .ok a → value a) :
    Returns (.askGuarded question) value s :=
  ⟨⟨rfl, h⟩, fun _ => ⟨rfl, nofun⟩⟩

theorem mapError (h : Returns p value s) (f : E → E) : Returns (p.mapError f) value s := by
  unfold Returns
  rw [wp_mapError]
  apply wp_mono _ h
  rintro result s' ⟨rfl, hvalue⟩
  refine ⟨rfl, ?_⟩
  intro a ha
  cases result with
  | error e => cases ha
  | ok b => exact hvalue a ha

theorem bind {γ : Type} {value' : γ → Prop} {f : α → StoreProgram S E γ} (hp : Returns p value s)
    (hf : ∀ a, value a → Returns (f a) value' s) : Returns (p >>= f) value' s := by
  unfold Returns
  rw [wp_bind]
  apply wp_mono _ hp
  rintro result s' ⟨rfl, hvalue⟩
  cases result with
  | error e => exact ⟨rfl, nofun⟩
  | ok a => exact hf a (hvalue a rfl)

end Returns

/-! ## Steps -/

/-- One question or one change. -/
def step : StoreProgram S E α → S → StoreProgram S E α × S
  | done result, s => (done result, s)
  | query _ ask next, s => (next (ask s), s)
  | act update next, s =>
    match update s with
    | .ok (b, s') => (next (.ok b), s')
    | .error e => (next (.error e), s)

/-- Whether something is left to do. -/
def running : StoreProgram S E α → Bool
  | done _ => false
  | _ => true

/-- Whether the next step is a guarded question. -/
def guarded : StoreProgram S E α → Bool
  | query guarded _ _ => guarded
  | _ => false

/-- Whether the next step is a change. -/
def acts : StoreProgram S E α → Bool
  | act _ _ => true
  | _ => false

/-- A change takes place or fails. -/
theorem step_act {γ : Type} (update : S → Except E (γ × S)) (next : Except E γ → StoreProgram S E α) (s : S) :
    (∃ c s', update s = .ok (c, s') ∧ (act update next).step s = (next (.ok c), s') ∧
        (act update next).run s = (next (.ok c)).run s') ∨
      ∃ e, update s = .error e ∧ (act update next).step s = (next (.error e), s) ∧
        (act update next).run s = (next (.error e)).run s := by
  cases hupdate : update s with
  | ok answer =>
    refine Or.inl ⟨answer.1, answer.2, rfl, ?_, ?_⟩
    · simp only [step, hupdate]
    · simp only [run, exec, faulty, Option.elim_none, hupdate]
  | error e =>
    refine Or.inr ⟨e, rfl, ?_, ?_⟩
    · simp only [step, hupdate]
    · simp only [run, exec, faulty, Option.elim_none, hupdate]

/-- A run goes on with what one step leaves. -/
theorem run_step (p : StoreProgram S E α) (s : S) : (p.step s).1.run (p.step s).2 = p.run s := by
  cases p with
  | done result => rfl
  | query guarded ask next => rfl
  | act update next =>
    obtain ⟨c, s', -, hstep, hrun⟩ | ⟨e, -, hstep, hrun⟩ := step_act update next s
    · rw [hstep, hrun]
    · rw [hstep, hrun]

/-- The first part of a sequence makes its own steps. -/
theorem step_andThen {p : StoreProgram S E α} (h : p.running = true) (f : Except E α → StoreProgram S E β) (s : S) :
    (p.andThen f).step s = ((p.step s).1.andThen f, (p.step s).2) := by
  cases p with
  | done result => cases h
  | query guarded ask next => rfl
  | act update next =>
    show (act update fun answer => (next answer).andThen f).step s = _
    cases hupdate : update s with
    | ok answer => simp only [step, hupdate]
    | error e => simp only [step, hupdate]

/-- A step that is not a change leaves the store. -/
theorem step_of_not_acts {p : StoreProgram S E α} (h : p.acts = false) (s : S) : (p.step s).2 = s := by
  cases p with
  | done result => rfl
  | query guarded ask next => rfl
  | act update next => cases h

/-- What is left of the program when `n` questions have been answered in `s`. -/
def after : Nat → StoreProgram S E α → S → StoreProgram S E α
  | 0, p, _ => p
  | n + 1, query _ ask next, s => after n (next (ask s)) s
  | _ + 1, p, _ => p

/-- Questions answered in the state of a run make no difference to it. -/
theorem run_after (n : Nat) (p : StoreProgram S E α) (s : S) : (after n p s).run s = p.run s := by
  induction n generalizing p with
  | zero => rfl
  | succ n ih =>
    cases p with
    | done result => rfl
    | query guarded ask next => exact ih (next (ask s))
    | act update next => rfl

/-! ## Changes that come last -/

/-- The program changes nothing. -/
def Asks : StoreProgram S E α → Prop
  | done _ => True
  | query _ _ next => ∀ answer, (next answer).Asks
  | act _ _ => False

/-- The program changes the store at most once, with nothing after the change. -/
def ActsLast : StoreProgram S E α → Prop
  | done _ => True
  | query _ _ next => ∀ answer, (next answer).ActsLast
  | act _ next => ∀ answer, ∃ result, next answer = done result

namespace Asks

variable {p : StoreProgram S E α}

theorem lift (result : Except E α) : (lift result : StoreProgram S E α).Asks := trivial

theorem ask (question : S → Except E α) : (ask question).Asks := fun _ => trivial

theorem askGuarded (question : S → Except E α) : (askGuarded question).Asks := fun _ => trivial

theorem mapError (h : p.Asks) (f : E → E) : (p.mapError f).Asks := by
  induction p with
  | done result => trivial
  | query guarded ask next ih => exact fun answer => ih answer (h answer)
  | act update next ih => exact h

theorem bind {f : α → StoreProgram S E β} (h : p.Asks) (hf : ∀ a, (f a).Asks) : (p >>= f).Asks := by
  induction p with
  | done result =>
    cases result with
    | ok a => exact hf a
    | error e => trivial
  | query guarded ask next ih => exact fun answer => ih answer (h answer)
  | act update next ih => exact h

end Asks

namespace ActsLast

variable {p : StoreProgram S E α}

theorem raise (e : E) : (raise e : StoreProgram S E α).ActsLast := trivial

theorem pure (a : α) : (Pure.pure a : StoreProgram S E α).ActsLast := trivial

theorem commit (update : S → Except E (α × S)) : (commit update).ActsLast := fun answer => ⟨answer, rfl⟩

theorem ite {c : Prop} [Decidable c] {q : StoreProgram S E α} (hp : p.ActsLast) (hq : q.ActsLast) :
    (if c then p else q).ActsLast := by
  by_cases hc : c
  · rw [if_pos hc]
    exact hp
  · rw [if_neg hc]
    exact hq

/-- A sequence whose second part does nothing after a change. -/
theorem andThen_done (h : p.ActsLast) (f : Except E α → Except E β) : (p.andThen fun result => done (f result)).ActsLast := by
  induction p with
  | done result => trivial
  | query guarded ask next ih => exact fun answer => ih answer (h answer)
  | act update next ih =>
    intro answer
    obtain ⟨result, hresult⟩ := h answer
    exact ⟨f result, congrArg (fun q => andThen q fun result => done (f result)) hresult⟩

theorem map (h : p.ActsLast) (f : α → β) : (f <$> p).ActsLast := by
  have hmap : f <$> p = p.andThen fun result => done (result.map f) := by
    show p >>= (fun a => Pure.pure (f a)) = _
    rw [bind_eq_andThen]
    exact congrArg p.andThen (funext fun result => by cases result <;> rfl)
  rw [hmap]
  exact h.andThen_done _

/-- A change with a value put in the place of its result. -/
theorem bind_pure (h : p.ActsLast) (f : α → β) : (p >>= fun a => Pure.pure (f a)).ActsLast := h.map f

theorem mapError (h : p.ActsLast) (f : E → E) : (p.mapError f).ActsLast := by
  induction p with
  | done result => trivial
  | query guarded ask next ih => exact fun answer => ih answer (h answer)
  | act update next ih =>
    intro answer
    obtain ⟨result, hresult⟩ := h answer
    exact ⟨result.mapError f, congrArg (StoreProgram.mapError f) hresult⟩

/-- Questions, before a program that makes a change. -/
theorem andThen {f : Except E α → StoreProgram S E β} (h : p.Asks) (hf : ∀ result, (f result).ActsLast) :
    (p.andThen f).ActsLast := by
  induction p with
  | done result => exact hf result
  | query guarded ask next ih => exact fun answer => ih answer (h answer)
  | act update next ih => cases h

theorem bind {f : α → StoreProgram S E β} (h : p.Asks) (hf : ∀ a, (f a).ActsLast) : (p >>= f).ActsLast := by
  rw [bind_eq_andThen]
  apply andThen h
  intro result
  cases result with
  | ok a => exact hf a
  | error e => trivial

theorem step (h : p.ActsLast) (s : S) : (p.step s).1.ActsLast := by
  cases p with
  | done result => exact h
  | query guarded ask next => exact h (ask s)
  | act update next =>
    obtain ⟨c, s', -, hstep, -⟩ | ⟨e, -, hstep, -⟩ := step_act update next s
    · obtain ⟨result, hdone⟩ := h (.ok c)
      rw [hstep, hdone]
      trivial
    · obtain ⟨result, hdone⟩ := h (.error e)
      rw [hstep, hdone]
      trivial

/-- Nothing is left to do after a change. -/
theorem done_of_acts (h : p.ActsLast) (hacts : p.acts = true) (s : S) : ∃ result, (p.step s).1 = .done result := by
  cases p with
  | done result => cases hacts
  | query guarded ask next => cases hacts
  | act update next =>
    obtain ⟨c, s', -, hstep, -⟩ | ⟨e, -, hstep, -⟩ := step_act update next s
    · rw [hstep]
      exact h (.ok c)
    · rw [hstep]
      exact h (.error e)

end ActsLast

theorem Asks.actsLast {p : StoreProgram S E α} (h : p.Asks) : p.ActsLast := by
  induction p with
  | done result => trivial
  | query guarded ask next ih => exact fun answer => ih answer (h answer)
  | act update next ih => cases h

end StoreProgram
