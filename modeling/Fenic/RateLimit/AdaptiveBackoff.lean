import Fenic.Lib.Transition
import Fenic.RateLimit.Bucket

/-!
# `RateLimit.AdaptiveBackoff` — a limiter that adapts its rate

`AdaptiveBackoffRateLimitStrategy` has a bucket of requests whose size follows the provider: a hint of the provider and a
backoff reduce the rate, and a number of successes in a row raises it again. Four writes to the rate clamp it in four ways.

A hint is clamped neither at the minimum nor, after it, at the rate: a backoff takes it over as it is. Where the hints are not
below the minimum and not above the rate, the rate stays within its bounds (`rpm_bounded`).
-/

namespace Fenic

namespace RateLimit

/-! ## The strategy -/

structure AdaptiveBackoffRateLimitStrategy where
  rpm : Int
  requestsBucket : RateLimitBucket
  minRpm : Int
  backoffMultiplier : Rat
  maxRpm : Int
  additiveIncrement : Int
  increaseAfterSuccesses : Int
  consecutiveSuccesses : Int
  rpmHint : Option Int
  cooldownUntil : Rat
  onCooldown : Bool
  deriving DecidableEq

namespace AdaptiveBackoffRateLimitStrategy

/-- `__init__`. The multiplier is a rational number. -/
def new (rpm minRpm : Int) (backoffMultiplier : Rat) (maxRpm : Option Int) (additiveIncrement increaseAfterSuccesses : Int)
    (now : Rat) : Except String AdaptiveBackoffRateLimitStrategy :=
  if rpm ≤ 0 then .error "rpm must be greater than 0"
  else if ¬ (0 < backoffMultiplier ∧ backoffMultiplier < 1) then .error "backoff multiplier must be between 0 and 1"
  else .ok
    { rpm := rpm
      requestsBucket := RateLimitBucket.new rpm now
      minRpm := max 1 minRpm
      backoffMultiplier := backoffMultiplier
      maxRpm := max (maxRpm.getD rpm) (max 1 minRpm)
      additiveIncrement := max 1 additiveIncrement
      increaseAfterSuccesses := max 1 increaseAfterSuccesses
      consecutiveSuccesses := 0
      rpmHint := none
      cooldownUntil := 0
      onCooldown := false }

/-- The part of `register_rate_limit_hint` about the rate. -/
def registerRpmHint (strategy : AdaptiveBackoffRateLimitStrategy) (rpmHint : Option Int) (now : Rat) :
    AdaptiveBackoffRateLimitStrategy :=
  match rpmHint with
  | none => strategy
  | some hint =>
    if 0 < hint then
      { strategy with
        rpmHint := some hint
        rpm := min strategy.rpm hint
        requestsBucket := RateLimitBucket.new (min strategy.rpm hint) now }
    else strategy

/-- The part about the time to retry. -/
def registerRetryAt (strategy : AdaptiveBackoffRateLimitStrategy) (retryAtEpochSeconds : Option Rat) :
    AdaptiveBackoffRateLimitStrategy :=
  match retryAtEpochSeconds with
  | none => strategy
  | some retryAt => if 0 < retryAt then { strategy with cooldownUntil := retryAt, onCooldown := true } else strategy

/-- `register_rate_limit_hint`. -/
def registerRateLimitHint (strategy : AdaptiveBackoffRateLimitStrategy) (rpmHint : Option Int)
    (retryAtEpochSeconds : Option Rat) (now : Rat) : AdaptiveBackoffRateLimitStrategy :=
  (strategy.registerRpmHint rpmHint now).registerRetryAt retryAtEpochSeconds

/-- The rate after a backoff. -/
def backoffRpm (strategy : AdaptiveBackoffRateLimitStrategy) : Int :=
  match strategy.rpmHint with
  | some hint => hint
  | none => max strategy.minRpm ⌊strategy.rpm * strategy.backoffMultiplier⌋

def backoff (strategy : AdaptiveBackoffRateLimitStrategy) (currTime now : Rat) : AdaptiveBackoffRateLimitStrategy :=
  let newRpm := strategy.backoffRpm
  let bucket := if newRpm ≠ strategy.rpm then RateLimitBucket.new newRpm now else strategy.requestsBucket
  { strategy with
    rpm := newRpm
    requestsBucket := bucket.setCapacity 0 currTime
    consecutiveSuccesses := 0 }

/-- `_record_success_and_maybe_grow`. -/
def recordSuccessAndMaybeGrow (strategy : AdaptiveBackoffRateLimitStrategy) (now : Rat) :
    AdaptiveBackoffRateLimitStrategy :=
  if strategy.rpmHint.isSome || strategy.onCooldown then { strategy with consecutiveSuccesses := 0 }
  else if strategy.increaseAfterSuccesses ≤ strategy.consecutiveSuccesses + 1 ∧ strategy.rpm < strategy.maxRpm then
    let newRpm := min strategy.maxRpm (strategy.rpm + strategy.additiveIncrement)
    if newRpm ≠ strategy.rpm then
      let available := strategy.requestsBucket.getAvailableCapacity now
      { strategy with
        rpm := newRpm
        requestsBucket := (RateLimitBucket.new newRpm now).setCapacity (min available newRpm) now
        consecutiveSuccesses := 0 }
    else { strategy with consecutiveSuccesses := 0 }
  else { strategy with consecutiveSuccesses := strategy.consecutiveSuccesses + 1 }

def checkAndConsumeRateLimit (strategy : AdaptiveBackoffRateLimitStrategy) (now : Rat) :
    Bool × AdaptiveBackoffRateLimitStrategy :=
  if now < strategy.cooldownUntil then (false, strategy)
  else
    let availableRequests := strategy.requestsBucket.getAvailableCapacity now
    if 1 ≤ availableRequests then
      (true, { strategy with
        onCooldown := false
        requestsBucket := strategy.requestsBucket.setCapacity (availableRequests - 1) now }.recordSuccessAndMaybeGrow now)
    else (false, strategy)

end AdaptiveBackoffRateLimitStrategy

/-! ## Runs -/

/-- A call, with the times that it is given and reads. -/
inductive AdaptiveAction where
  | hint (rpmHint : Option Int) (retryAtEpochSeconds : Option Rat) (now : Rat)
  | backoff (currTime now : Rat)
  | check (now : Rat)
  deriving DecidableEq

def adaptiveStep (strategy : AdaptiveBackoffRateLimitStrategy) : AdaptiveAction → Option AdaptiveBackoffRateLimitStrategy
  | .hint rpmHint retryAtEpochSeconds now => some (strategy.registerRateLimitHint rpmHint retryAtEpochSeconds now)
  | .backoff currTime now => some (strategy.backoff currTime now)
  | .check now => some (strategy.checkAndConsumeRateLimit now).2

/-- No hint is below the minimum, and a backoff finds no hint above the rate. -/
def HintsInRange (strategy : AdaptiveBackoffRateLimitStrategy) : AdaptiveAction → Prop
  | .hint rpmHint _ _ => ∀ hint, rpmHint = some hint → 0 < hint → strategy.minRpm ≤ hint
  | .backoff _ _ => ∀ hint, strategy.rpmHint = some hint → hint ≤ strategy.rpm
  | .check _ => True

/-! ## The bounds -/

namespace AdaptiveBackoffRateLimitStrategy

/-- The rate lies between its bounds, and a hint that was taken is not below the minimum. -/
structure Bounded (minRpm maxRpm : Int) (strategy : AdaptiveBackoffRateLimitStrategy) : Prop where
  minRpm_eq : strategy.minRpm = minRpm
  maxRpm_eq : strategy.maxRpm = maxRpm
  minRpm_pos : 0 < minRpm
  multiplier_pos : 0 < strategy.backoffMultiplier
  multiplier_lt : strategy.backoffMultiplier < 1
  increment_pos : 0 < strategy.additiveIncrement
  hint : ∀ hint, strategy.rpmHint = some hint → minRpm ≤ hint
  le_rpm : minRpm ≤ strategy.rpm
  rpm_le : strategy.rpm ≤ maxRpm

variable {minRpm maxRpm : Int} {strategy : AdaptiveBackoffRateLimitStrategy}

/-- A share of the rate is less than the rate. -/
theorem floor_mul_le {rpm : Int} (hrpm : 0 ≤ rpm) {multiplier : Rat} (hmultiplier : multiplier < 1) :
    ⌊rpm * multiplier⌋ ≤ rpm := by
  have hrpm' : (0 : Rat) ≤ rpm := Int.cast_nonneg hrpm
  have hmul : rpm * multiplier ≤ rpm := mul_le_of_le_one_right hrpm' hmultiplier.le
  have hfloor := Int.floor_le (rpm * multiplier)
  exact_mod_cast hfloor.trans hmul

/-- A backoff does not raise the rate, unless it takes a hint over that is above it. -/
theorem backoffRpm_le (h : Bounded minRpm maxRpm strategy)
    (hhint : ∀ hint, strategy.rpmHint = some hint → hint ≤ strategy.rpm) : strategy.backoffRpm ≤ strategy.rpm := by
  unfold backoffRpm
  split
  next hint heq => exact hhint hint heq
  next =>
      have hle := h.le_rpm
      have hpos := h.minRpm_pos
      apply max_le
      · rw [h.minRpm_eq]
        exact hle
      · exact floor_mul_le (by omega) h.multiplier_lt

theorem le_backoffRpm (h : Bounded minRpm maxRpm strategy) : minRpm ≤ strategy.backoffRpm := by
  unfold backoffRpm
  split
  next hint heq => exact h.hint hint heq
  next =>
      rw [h.minRpm_eq]
      exact le_max_left _ _

theorem Bounded.registerRpmHint (h : Bounded minRpm maxRpm strategy) {rpmHint : Option Int}
    (hhint : ∀ hint, rpmHint = some hint → 0 < hint → strategy.minRpm ≤ hint) (now : Rat) :
    Bounded minRpm maxRpm (strategy.registerRpmHint rpmHint now) := by
  unfold AdaptiveBackoffRateLimitStrategy.registerRpmHint
  split
  next => exact h
  next hint =>
      split
      next hpos =>
          have hmin : minRpm ≤ hint := h.minRpm_eq ▸ hhint hint rfl hpos
          exact { h with
            hint := fun hint' heq => Option.some_inj.mp heq ▸ hmin
            le_rpm := le_min h.le_rpm hmin
            rpm_le := (min_le_left _ _).trans h.rpm_le }
      next => exact h

theorem Bounded.registerRetryAt (h : Bounded minRpm maxRpm strategy) (retryAtEpochSeconds : Option Rat) :
    Bounded minRpm maxRpm (strategy.registerRetryAt retryAtEpochSeconds) := by
  unfold AdaptiveBackoffRateLimitStrategy.registerRetryAt
  split
  next => exact h
  next =>
      split
      next => exact { h with }
      next => exact h

theorem Bounded.backoff (h : Bounded minRpm maxRpm strategy)
    (hhint : ∀ hint, strategy.rpmHint = some hint → hint ≤ strategy.rpm) (currTime now : Rat) :
    Bounded minRpm maxRpm (strategy.backoff currTime now) :=
  { h with
    le_rpm := le_backoffRpm h
    rpm_le := (backoffRpm_le h hhint).trans h.rpm_le }

/-- Growth stops at the maximum. -/
theorem Bounded.recordSuccessAndMaybeGrow (h : Bounded minRpm maxRpm strategy) (now : Rat) :
    Bounded minRpm maxRpm (strategy.recordSuccessAndMaybeGrow now) := by
  unfold AdaptiveBackoffRateLimitStrategy.recordSuccessAndMaybeGrow
  split
  next => exact { h with }
  next =>
      split
      next hgrow =>
          have hincrement := h.increment_pos
          have hle := h.le_rpm
          dsimp only
          split
          next =>
              refine { h with le_rpm := ?_, rpm_le := ?_ }
              · show minRpm ≤ min strategy.maxRpm (strategy.rpm + strategy.additiveIncrement)
                omega
              · show min strategy.maxRpm (strategy.rpm + strategy.additiveIncrement) ≤ maxRpm
                rw [h.maxRpm_eq]
                exact min_le_left _ _
          next => exact { h with }
      next => exact { h with }

theorem Bounded.check (h : Bounded minRpm maxRpm strategy) (now : Rat) :
    Bounded minRpm maxRpm (strategy.checkAndConsumeRateLimit now).2 := by
  unfold AdaptiveBackoffRateLimitStrategy.checkAndConsumeRateLimit
  split
  next => exact h
  next =>
      dsimp only
      split
      next =>
          have hconsumed : Bounded minRpm maxRpm { strategy with
              onCooldown := false
              requestsBucket := strategy.requestsBucket.setCapacity
                (strategy.requestsBucket.getAvailableCapacity now - 1) now } := { h with }
          exact hconsumed.recordSuccessAndMaybeGrow now
      next => exact h

/-- A step whose hints are in range keeps the bounds. -/
theorem Bounded.step {strategy' : AdaptiveBackoffRateLimitStrategy} {action : AdaptiveAction}
    (h : Bounded minRpm maxRpm strategy) (hrange : HintsInRange strategy action)
    (hstep : adaptiveStep strategy action = some strategy') : Bounded minRpm maxRpm strategy' := by
  cases action with
  | hint rpmHint retryAtEpochSeconds now =>
    cases hstep
    exact (h.registerRpmHint hrange now).registerRetryAt retryAtEpochSeconds
  | backoff currTime now =>
    cases hstep
    exact h.backoff hrange currTime now
  | check now =>
    cases hstep
    exact h.check now

/-- A new limiter whose rate is within the bounds. -/
theorem bounded_new {rpm minRpm additiveIncrement increaseAfterSuccesses : Int} {backoffMultiplier now : Rat}
    {maxRpm : Option Int}
    (hnew : new rpm minRpm backoffMultiplier maxRpm additiveIncrement increaseAfterSuccesses now = .ok strategy)
    (hmin : strategy.minRpm ≤ strategy.rpm) (hmax : strategy.rpm ≤ strategy.maxRpm) :
    Bounded strategy.minRpm strategy.maxRpm strategy := by
  unfold new at hnew
  split at hnew
  next => cases hnew
  next =>
      split at hnew
      next => cases hnew
      next hmultiplier =>
          obtain ⟨hpos, hlt⟩ := not_not.mp hmultiplier
          cases hnew
          refine ⟨rfl, rfl, ?_, hpos, hlt, ?_, (fun hint h => nomatch h), hmin, hmax⟩
          · exact lt_of_lt_of_le Int.one_pos (le_max_left _ _)
          · exact lt_of_lt_of_le Int.one_pos (le_max_left _ _)

end AdaptiveBackoffRateLimitStrategy

open AdaptiveBackoffRateLimitStrategy

/-- **In every run whose hints are in range, the rate stays within its bounds, and no backoff raises it.** -/
theorem rpm_bounded {rpm minRpm additiveIncrement increaseAfterSuccesses : Int} {backoffMultiplier now : Rat}
    {maxRpm : Option Int} {strategy strategy' : AdaptiveBackoffRateLimitStrategy} {actions : List AdaptiveAction}
    (hnew : new rpm minRpm backoffMultiplier maxRpm additiveIncrement increaseAfterSuccesses now = .ok strategy)
    (hmin : strategy.minRpm ≤ strategy.rpm) (hmax : strategy.rpm ≤ strategy.maxRpm)
    (hrun : Transition.run adaptiveStep strategy actions = some strategy')
    (hrange : Transition.Along adaptiveStep HintsInRange strategy actions) :
    strategy.minRpm ≤ strategy'.rpm ∧ strategy'.rpm ≤ strategy.maxRpm ∧
      ∀ currTime now, HintsInRange strategy' (.backoff currTime now) →
        (strategy'.backoff currTime now).rpm ≤ strategy'.rpm := by
  have hbounded : Bounded strategy.minRpm strategy.maxRpm strategy' :=
    Transition.along_run (fun _ _ _ h hrange hstep => h.step hrange hstep) (bounded_new hnew hmin hmax) hrun hrange
  exact ⟨hbounded.le_rpm, hbounded.rpm_le, fun _ _ hhint => backoffRpm_le hbounded hhint⟩

/-- 100 requests a minute, at least 50. -/
def exampleLimiter : AdaptiveBackoffRateLimitStrategy :=
  ⟨100, RateLimitBucket.new 100 0, 50, 3 / 4, 100, 50, 30, 0, none, 0, false⟩

/-- A hint of 80 is taken, and a backoff stays there. -/
def hintedRun : List AdaptiveAction := [.hint (some 80) none 1, .backoff 2 2, .check 30]

def hintedLimiter : AdaptiveBackoffRateLimitStrategy :=
  ⟨80, ⟨80, 36, 30⟩, 50, 3 / 4, 100, 50, 30, 0, some 80, 0, false⟩

theorem hintedRun_bounded :
    exampleLimiter.minRpm ≤ hintedLimiter.rpm ∧ hintedLimiter.rpm ≤ exampleLimiter.maxRpm ∧
      ∀ currTime now, HintsInRange hintedLimiter (.backoff currTime now) →
        (hintedLimiter.backoff currTime now).rpm ≤ hintedLimiter.rpm := by
  have hnew : new 100 50 (3 / 4) none 50 30 0 = .ok exampleLimiter := by decide +kernel
  have hrun : Transition.run adaptiveStep exampleLimiter hintedRun = some hintedLimiter := by decide +kernel
  have hrange : Transition.Along adaptiveStep HintsInRange exampleLimiter hintedRun := by
    refine ⟨fun hint h _ => ?_, fun s hs => ⟨fun hint h => ?_, fun s' hs' => ⟨trivial, fun _ _ => trivial⟩⟩⟩
    · cases h
      decide
    · cases hs
      cases h
      decide +kernel
  exact rpm_bounded hnew (by decide) (by decide) hrun hrange

/-- A hint of 200 raises the rate at the next backoff, above the maximum, and a hint of 10 is below the minimum. -/
theorem exampleLimiter_unbounded :
    new 100 50 (3 / 4) none 50 30 0 = .ok exampleLimiter ∧
      (∃ strategy, Transition.run adaptiveStep exampleLimiter [.hint (some 200) none 1] = some strategy ∧
        strategy.rpm < (strategy.backoff 2 2).rpm ∧ exampleLimiter.maxRpm < (strategy.backoff 2 2).rpm) ∧
      ∃ strategy, Transition.run adaptiveStep exampleLimiter [.hint (some 10) none 1] = some strategy ∧
        strategy.rpm < exampleLimiter.minRpm := by
  refine ⟨by decide +kernel, ⟨_, rfl, ?_, ?_⟩, ⟨_, rfl, ?_⟩⟩
  · decide +kernel
  · decide +kernel
  · decide +kernel

end RateLimit

end Fenic
