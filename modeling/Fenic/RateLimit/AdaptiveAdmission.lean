import Fenic.RateLimit.AdaptiveBackoff

/-!
# `RateLimit.AdaptiveAdmission` — what the adaptive limiter admits

A run of the limiter under a clock that does not go back, with the times of the requests it admitted and the rates it had.

A growth of the rate takes over what is left in the bucket, and a backoff empties it. A hint does neither: it replaces the bucket
by a full one, and its time to retry replaces a cooldown that ends later. Where no hint finds less in the bucket than it puts
there and none ends a cooldown, the admitted requests are covered by the first bucket and the refill at the highest rate
(`admitted_le_peak`).
-/

namespace Fenic

namespace RateLimit

/-! ## Runs with a clock -/

def AdaptiveAction.time : AdaptiveAction → Rat
  | .hint _ _ now => now
  | .backoff currTime _ => currTime
  | .check now => now

/-- The limiter, the times of the requests it admitted, and its rates with the times from which they were in force. -/
structure AdaptiveState where
  strategy : AdaptiveBackoffRateLimitStrategy
  clock : Rat
  admissions : List Rat
  rates : List (Rat × Int)
  deriving DecidableEq

/-- The requests that a call admits. -/
def AdaptiveState.admittedBy (state : AdaptiveState) : AdaptiveAction → List Rat
  | .check now => if (state.strategy.checkAndConsumeRateLimit now).1 then [now] else []
  | _ => []

def AdaptiveState.after (state : AdaptiveState) (action : AdaptiveAction) (strategy : AdaptiveBackoffRateLimitStrategy) :
    AdaptiveState :=
  ⟨strategy, action.time, state.admissions ++ state.admittedBy action, state.rates ++ [(action.time, strategy.rpm)]⟩

def adaptiveStateStep (state : AdaptiveState) (action : AdaptiveAction) : Option AdaptiveState :=
  if action.time < state.clock then none else (adaptiveStep state.strategy action).map (state.after action)

/-- A new limiter at the time its bucket is made. -/
def AdaptiveState.init (strategy : AdaptiveBackoffRateLimitStrategy) (now : Rat) : AdaptiveState :=
  ⟨strategy, now, [], [(now, strategy.rpm)]⟩

/-- The requests admitted up to a deadline. -/
def AdaptiveState.admittedRequests (state : AdaptiveState) (deadline : Rat) : Int :=
  state.admissions.countP (· ≤ deadline)

/-- The highest of the rates that were in force up to a deadline. -/
def peakRate (deadline : Rat) (rates : List (Rat × Int)) : Int :=
  rates.foldl (fun peak rate => if rate.1 ≤ deadline then max peak rate.2 else peak) 0

/-! ## What is admissible at an instant -/

namespace AdaptiveBackoffRateLimitStrategy

/-- The requests that checks at this instant would admit. -/
def admissible (strategy : AdaptiveBackoffRateLimitStrategy) (now : Rat) : Int :=
  if now < strategy.cooldownUntil then 0 else max 0 (strategy.requestsBucket.getAvailableCapacity now)

end AdaptiveBackoffRateLimitStrategy

open AdaptiveBackoffRateLimitStrategy

/-- A hint or a backoff does not make more requests admissible at its instant. -/
def NotRaised (strategy : AdaptiveBackoffRateLimitStrategy) : AdaptiveAction → Prop
  | .hint rpmHint retryAtEpochSeconds now =>
    (strategy.registerRateLimitHint rpmHint retryAtEpochSeconds now).admissible now ≤ strategy.admissible now
  | .backoff currTime now => (strategy.backoff currTime now).admissible currTime ≤ strategy.admissible currTime
  | .check _ => True

/-- The bucket that a hint makes holds no more than what is available, and its time to retry does not end a cooldown that
holds requests back. -/
def Carries (strategy : AdaptiveBackoffRateLimitStrategy) : AdaptiveAction → Prop
  | .hint rpmHint retryAtEpochSeconds now =>
    (∀ hint, rpmHint = some hint → 0 < hint → min strategy.rpm hint ≤ strategy.requestsBucket.getAvailableCapacity now) ∧
    ∀ retryAt, retryAtEpochSeconds = some retryAt → 0 < retryAt → now < strategy.cooldownUntil →
      now < retryAt ∨ strategy.requestsBucket.getAvailableCapacity now < 1
  | .backoff _ _ => True
  | .check _ => True

/-! ## What a call does to the bucket -/

namespace RateLimitBucket

/-- A new bucket is full. -/
theorem getAvailableCapacity_new (maxCapacity : Int) (now : Rat) :
    (new maxCapacity now).getAvailableCapacity now = maxCapacity := by
  unfold getAvailableCapacity new
  simp

theorem getAvailableCapacity_le_max (bucket : RateLimitBucket) (now : Rat) :
    bucket.getAvailableCapacity now ≤ bucket.maxCapacity :=
  min_le_right _ _

end RateLimitBucket

/-- The bucket is of the size of the rate. -/
structure Metered (strategy : AdaptiveBackoffRateLimitStrategy) : Prop where
  capacity : strategy.requestsBucket.maxCapacity = strategy.rpm
  rpm_pos : 0 < strategy.rpm
  minRpm_pos : 0 < strategy.minRpm
  increment_pos : 0 < strategy.additiveIncrement
  hint_pos : ∀ hint, strategy.rpmHint = some hint → 0 < hint
  current_nonneg : 0 ≤ strategy.requestsBucket.currentCapacity

section Calls

variable {strategy : AdaptiveBackoffRateLimitStrategy}

/-- A bucket was filled anew at an instant, and nothing else that is metered changed. -/
structure Refilled (strategy : AdaptiveBackoffRateLimitStrategy) (capacity : Int) (now : Rat)
    (strategy' : AdaptiveBackoffRateLimitStrategy) : Prop where
  metered : Metered strategy'
  current : strategy'.requestsBucket.currentCapacity = capacity
  last : strategy'.requestsBucket.lastUpdateTime = now
  cooldown : strategy'.cooldownUntil = strategy.cooldownUntil

theorem Refilled.available {strategy' : AdaptiveBackoffRateLimitStrategy} {capacity : Int} {now : Rat}
    (h : Refilled strategy capacity now strategy') (hcapacity : capacity ≤ strategy'.rpm) :
    strategy'.requestsBucket.getAvailableCapacity now = capacity := by
  unfold RateLimitBucket.getAvailableCapacity
  rw [h.current, h.last, h.metered.capacity]
  simpa using hcapacity

/-- A growth takes over what is left in the bucket. -/
theorem refilled_recordSuccessAndMaybeGrow (h : Metered strategy) (now : Rat)
    (hlast : strategy.requestsBucket.lastUpdateTime = now)
    (hcurrent : strategy.requestsBucket.currentCapacity ≤ strategy.rpm) :
    Refilled strategy strategy.requestsBucket.currentCapacity now (strategy.recordSuccessAndMaybeGrow now) ∧
      strategy.rpm ≤ (strategy.recordSuccessAndMaybeGrow now).rpm := by
  have hself : Refilled strategy strategy.requestsBucket.currentCapacity now strategy := ⟨h, rfl, hlast, rfl⟩
  -- counting a success changes nothing that is metered
  have hcounted (successes : Int) : Refilled strategy strategy.requestsBucket.currentCapacity now
      { strategy with consecutiveSuccesses := successes } := ⟨{ h with }, rfl, hlast, rfl⟩
  unfold AdaptiveBackoffRateLimitStrategy.recordSuccessAndMaybeGrow
  split
  next => exact ⟨hcounted 0, le_refl _⟩
  next =>
      split
      next hgrow =>
          dsimp only
          split
          next =>
              have hincrement := h.increment_pos
              have hle : strategy.rpm ≤ min strategy.maxRpm (strategy.rpm + strategy.additiveIncrement) := by omega
              have havailable : strategy.requestsBucket.getAvailableCapacity now =
                  strategy.requestsBucket.currentCapacity := hself.available hcurrent
              rw [havailable, min_eq_left (hcurrent.trans hle)]
              exact ⟨⟨⟨rfl, lt_of_lt_of_le h.rpm_pos hle, h.minRpm_pos, h.increment_pos, h.hint_pos, h.current_nonneg⟩, rfl, rfl, rfl⟩, hle⟩
          next => exact ⟨hcounted 0, le_refl _⟩
      next => exact ⟨hcounted _, le_refl _⟩

/-- What a check does: it leaves the limiter, or takes one request. -/
theorem adaptiveCheck_cases (h : Metered strategy) (now : Rat) :
    (strategy.checkAndConsumeRateLimit now = (false, strategy) ∧
      (now < strategy.cooldownUntil ∨ strategy.requestsBucket.getAvailableCapacity now < 1)) ∨
    (¬ now < strategy.cooldownUntil ∧ 1 ≤ strategy.requestsBucket.getAvailableCapacity now ∧
      ∃ strategy', strategy.checkAndConsumeRateLimit now = (true, strategy') ∧ strategy.rpm ≤ strategy'.rpm ∧
        Refilled strategy (strategy.requestsBucket.getAvailableCapacity now - 1) now strategy') := by
  unfold AdaptiveBackoffRateLimitStrategy.checkAndConsumeRateLimit
  by_cases hcooldown : now < strategy.cooldownUntil
  · left
    rw [if_pos hcooldown]
    exact ⟨rfl, .inl hcooldown⟩
  · rw [if_neg hcooldown]
    by_cases havailable : 1 ≤ strategy.requestsBucket.getAvailableCapacity now
    · right
      rw [if_pos havailable]
      have hmax := strategy.requestsBucket.getAvailableCapacity_le_max now
      rw [h.capacity] at hmax
      have hconsumed : Metered { strategy with
          onCooldown := false
          requestsBucket := strategy.requestsBucket.setCapacity
            (strategy.requestsBucket.getAvailableCapacity now - 1) now } :=
        ⟨h.capacity, h.rpm_pos, h.minRpm_pos, h.increment_pos, h.hint_pos, Int.sub_nonneg_of_le havailable⟩
      obtain ⟨hrefilled, hle⟩ := refilled_recordSuccessAndMaybeGrow hconsumed now rfl (by
        show strategy.requestsBucket.getAvailableCapacity now - 1 ≤ strategy.rpm
        omega)
      exact ⟨hcooldown, havailable, _, rfl, hle, hrefilled.metered, hrefilled.current, hrefilled.last, hrefilled.cooldown⟩
    · left
      rw [if_neg havailable]
      exact ⟨rfl, .inr (by omega)⟩

end Calls

/-! ## The cover -/

theorem peakRate_append (deadline : Rat) (rates : List (Rat × Int)) (time : Rat) (rpm : Int) :
    peakRate deadline (rates ++ [(time, rpm)]) =
      if time ≤ deadline then max (peakRate deadline rates) rpm else peakRate deadline rates := by
  unfold peakRate
  rw [List.foldl_append]
  rfl

theorem le_peakRate_append (deadline : Rat) (rates : List (Rat × Int)) (time : Rat) (rpm : Int) :
    peakRate deadline rates ≤ peakRate deadline (rates ++ [(time, rpm)]) := by
  rw [peakRate_append]
  split
  next => exact le_max_left _ _
  next => exact le_refl _

theorem rpm_le_peakRate_append {deadline : Rat} (rates : List (Rat × Int)) {time : Rat} (rpm : Int) (h : time ≤ deadline) :
    rpm ≤ peakRate deadline (rates ++ [(time, rpm)]) := by
  rw [peakRate_append, if_pos h]
  exact le_max_right _ _

/-- The first bucket and the refill of a time at a rate. -/
def grant (initial rate : Int) (elapsed : Rat) : Rat :=
  initial + rate * elapsed / minuteInSeconds

theorem grant_mono {initial rate rate' : Int} {elapsed elapsed' : Rat} (hrate : rate ≤ rate') (hrate' : 0 ≤ rate')
    (helapsed : 0 ≤ elapsed) (hle : elapsed ≤ elapsed') : grant initial rate elapsed ≤ grant initial rate' elapsed' := by
  have hrate : (rate : Rat) ≤ rate' := by exact_mod_cast hrate
  have hrate' : (0 : Rat) ≤ rate' := by exact_mod_cast hrate'
  have hmul : (rate : Rat) * elapsed ≤ rate' * elapsed' := mul_le_mul hrate hle helapsed hrate'
  have hdiv : (rate : Rat) * elapsed / minuteInSeconds ≤ rate' * elapsed' / minuteInSeconds :=
    div_le_div_of_nonneg_right hmul (by decide)
  unfold grant
  linarith

/-- What was admitted up to the deadline and what is left in the bucket are covered by the first bucket and the refill at the
highest rate up to then. After the deadline the content of the bucket does not count. -/
structure Granted (initial : Int) (start deadline : Rat) (admitted peak : Int) (bucket : RateLimitBucket) : Prop where
  start_le : start ≤ bucket.lastUpdateTime
  start_le_deadline : start ≤ deadline
  peak_nonneg : 0 ≤ peak
  before : bucket.lastUpdateTime ≤ deadline →
    bucket.maxCapacity ≤ peak ∧ (admitted : Rat) + bucket.currentCapacity ≤ grant initial peak (bucket.lastUpdateTime - start)
  after : deadline < bucket.lastUpdateTime → (admitted : Rat) ≤ grant initial peak (deadline - start)

section Cover

variable {initial : Int} {start deadline : Rat} {admitted peak : Int} {bucket : RateLimitBucket}

theorem Granted.admitted_le (h : Granted initial start deadline admitted peak bucket) (hcurrent : 0 ≤ bucket.currentCapacity) :
    (admitted : Rat) ≤ grant initial peak (deadline - start) := by
  by_cases hlast : bucket.lastUpdateTime ≤ deadline
  · have hcurrent' : (0 : Rat) ≤ bucket.currentCapacity := Int.cast_nonneg hcurrent
    have hbefore := (h.before hlast).2
    have hmono : grant initial peak (bucket.lastUpdateTime - start) ≤ grant initial peak (deadline - start) :=
      grant_mono (le_refl peak) h.peak_nonneg (sub_nonneg.mpr h.start_le) (sub_le_sub_right hlast start)
    linarith
  · exact h.after (not_le.mp hlast)

/-- A new bucket, before anything was admitted. -/
theorem granted_new {maxCapacity : Int} (hmax : 0 ≤ maxCapacity) (start deadline : Rat) (hdeadline : start ≤ deadline) :
    Granted maxCapacity start deadline 0 (peakRate deadline [(start, maxCapacity)]) (RateLimitBucket.new maxCapacity start) := by
  have hpeak : peakRate deadline [(start, maxCapacity)] = maxCapacity := by
    show (if start ≤ deadline then max 0 maxCapacity else 0) = maxCapacity
    rw [if_pos hdeadline, max_eq_right hmax]
  rw [hpeak]
  refine ⟨le_refl start, hdeadline, hmax, fun _ => ⟨le_refl _, ?_⟩, fun hlate => absurd hdeadline (not_le.mpr hlate)⟩
  show ((0 : Int) : Rat) + maxCapacity ≤ grant maxCapacity maxCapacity (start - start)
  unfold grant
  simp

/-- A bucket that replaces another keeps the cover when, up to the deadline, the admitted requests grow by no more than what is
taken from the available capacity, and not at all after the deadline. -/
theorem Granted.replace (h : Granted initial start deadline admitted peak bucket) (hcurrent : 0 ≤ bucket.currentCapacity)
    {bucket' : RateLimitBucket} {admitted' peak' : Int} (hnow : bucket.lastUpdateTime ≤ bucket'.lastUpdateTime)
    (hpeak : peak ≤ peak') (hmax : bucket'.lastUpdateTime ≤ deadline → bucket'.maxCapacity ≤ peak')
    (hpaid : bucket'.lastUpdateTime ≤ deadline → admitted' + bucket'.currentCapacity ≤
      admitted + bucket.getAvailableCapacity bucket'.lastUpdateTime)
    (hlate : deadline < bucket'.lastUpdateTime → admitted' = admitted) :
    Granted initial start deadline admitted' peak' bucket' := by
  have hpeak' : 0 ≤ peak' := h.peak_nonneg.trans hpeak
  refine ⟨h.start_le.trans hnow, h.start_le_deadline, hpeak', fun hbefore => ⟨hmax hbefore, ?_⟩, fun hafter => ?_⟩
  · have hlast := hnow.trans hbefore
    obtain ⟨hrate, hcover⟩ := h.before hlast
    have hpaid' : (admitted' : Rat) + bucket'.currentCapacity ≤
        admitted + bucket.getAvailableCapacity bucket'.lastUpdateTime := by
      exact_mod_cast hpaid hbefore
    have hrefill := RateLimitBucket.getAvailableCapacity_le bucket bucket'.lastUpdateTime
    -- the bucket refills at its own rate, which is at most the highest one
    have hrefill' : (bucket.maxCapacity : Rat) * (bucket'.lastUpdateTime - bucket.lastUpdateTime) / minuteInSeconds ≤
        peak * (bucket'.lastUpdateTime - bucket.lastUpdateTime) / minuteInSeconds := by
      have hrate' : (bucket.maxCapacity : Rat) ≤ peak := by exact_mod_cast hrate
      exact div_le_div_of_nonneg_right (mul_le_mul_of_nonneg_right hrate' (sub_nonneg.mpr hnow)) (by decide)
    have hextend : peak * (bucket'.lastUpdateTime - bucket.lastUpdateTime) / minuteInSeconds +
        grant initial peak (bucket.lastUpdateTime - start) = grant initial peak (bucket'.lastUpdateTime - start) := by
      unfold grant
      ring
    calc (admitted' : Rat) + bucket'.currentCapacity
        ≤ grant initial peak (bucket'.lastUpdateTime - start) := by linarith
      _ ≤ grant initial peak' (bucket'.lastUpdateTime - start) :=
          grant_mono hpeak hpeak' (sub_nonneg.mpr (h.start_le.trans hnow)) (le_refl _)
  · rw [hlate hafter]
    have hcover := h.admitted_le hcurrent
    exact hcover.trans (grant_mono hpeak hpeak' (sub_nonneg.mpr h.start_le_deadline) (le_refl _))

/-- A higher rate keeps the cover. -/
theorem Granted.mono (h : Granted initial start deadline admitted peak bucket) {peak' : Int} (hpeak : peak ≤ peak') :
    Granted initial start deadline admitted peak' bucket := by
  have hpeak' : 0 ≤ peak' := h.peak_nonneg.trans hpeak
  refine ⟨h.start_le, h.start_le_deadline, hpeak', fun hbefore => ?_, fun hafter => ?_⟩
  · obtain ⟨hrate, hcover⟩ := h.before hbefore
    exact ⟨hrate.trans hpeak, hcover.trans (grant_mono hpeak hpeak' (sub_nonneg.mpr h.start_le) (le_refl _))⟩
  · exact (h.after hafter).trans (grant_mono hpeak hpeak' (sub_nonneg.mpr h.start_le_deadline) (le_refl _))

end Cover

/-! ## One call -/

/-- The limiter is metered, its bucket was not updated in the future, and its admissions are covered. -/
structure Audited (initial : Int) (start deadline : Rat) (state : AdaptiveState) : Prop where
  metered : Metered state.strategy
  clock : state.strategy.requestsBucket.lastUpdateTime ≤ state.clock
  granted : Granted initial start deadline (state.admittedRequests deadline) (peakRate deadline state.rates)
    state.strategy.requestsBucket

theorem admittedRequests_after (state : AdaptiveState) (action : AdaptiveAction)
    (strategy : AdaptiveBackoffRateLimitStrategy) (deadline : Rat) :
    (state.after action strategy).admittedRequests deadline =
      state.admittedRequests deadline + (state.admittedBy action).countP (· ≤ deadline) := by
  unfold AdaptiveState.admittedRequests AdaptiveState.after
  rw [List.countP_append]
  push_cast
  rfl

section Step

variable {initial : Int} {start deadline : Rat} {state : AdaptiveState}

variable {action : AdaptiveAction}

/-- A call that admits nothing and leaves the bucket. -/
theorem Audited.unchanged (h : Audited initial start deadline state)
    {strategy : AdaptiveBackoffRateLimitStrategy} (hclock : state.clock ≤ action.time) (hmetered : Metered strategy)
    (hbucket : strategy.requestsBucket = state.strategy.requestsBucket) (hnone : state.admittedBy action = []) :
    Audited initial start deadline (state.after action strategy) := by
  have hadmitted := admittedRequests_after state action strategy deadline
  rw [hnone] at hadmitted
  refine ⟨hmetered, ?_, ?_⟩
  · show strategy.requestsBucket.lastUpdateTime ≤ action.time
    rw [hbucket]
    exact h.clock.trans hclock
  · rw [hadmitted]
    show Granted initial start deadline (state.admittedRequests deadline + 0) _ strategy.requestsBucket
    rw [hbucket, add_zero]
    exact h.granted.mono (le_peakRate_append _ _ _ _)

/-- A call that replaces the bucket, and takes the requests it admits from what was available. -/
theorem Audited.replaced (h : Audited initial start deadline state)
    {strategy : AdaptiveBackoffRateLimitStrategy} (hclock : state.clock ≤ action.time) (hmetered : Metered strategy)
    (hlast : strategy.requestsBucket.lastUpdateTime = action.time)
    (hpaid : (state.admittedBy action).countP (· ≤ deadline) + strategy.requestsBucket.currentCapacity ≤
      state.strategy.requestsBucket.getAvailableCapacity action.time)
    (hlate : deadline < action.time → (state.admittedBy action).countP (· ≤ deadline) = 0) :
    Audited initial start deadline (state.after action strategy) := by
  refine ⟨hmetered, ?_, ?_⟩
  · show strategy.requestsBucket.lastUpdateTime ≤ action.time
    exact hlast.le
  · rw [admittedRequests_after]
    refine h.granted.replace h.metered.current_nonneg ?_ (le_peakRate_append _ _ action.time strategy.rpm) ?_ ?_ ?_
    · show state.strategy.requestsBucket.lastUpdateTime ≤ strategy.requestsBucket.lastUpdateTime
      rw [hlast]
      exact h.clock.trans hclock
    · show strategy.requestsBucket.lastUpdateTime ≤ deadline → strategy.requestsBucket.maxCapacity ≤ _
      rw [hlast, hmetered.capacity]
      exact rpm_le_peakRate_append _ _
    · show strategy.requestsBucket.lastUpdateTime ≤ deadline → _ + strategy.requestsBucket.currentCapacity ≤ _ +
        state.strategy.requestsBucket.getAvailableCapacity strategy.requestsBucket.lastUpdateTime
      rw [hlast]
      intro _
      omega
    · show deadline < strategy.requestsBucket.lastUpdateTime → _
      rw [hlast]
      intro hafter
      rw [hlate hafter]
      simp

theorem metered_registerRetryAt {strategy : AdaptiveBackoffRateLimitStrategy} (h : Metered strategy)
    (retryAtEpochSeconds : Option Rat) : Metered (strategy.registerRetryAt retryAtEpochSeconds) := by
  unfold AdaptiveBackoffRateLimitStrategy.registerRetryAt
  split
  next => exact h
  next =>
      split
      next => exact { h with }
      next => exact h

theorem requestsBucket_registerRetryAt (strategy : AdaptiveBackoffRateLimitStrategy) (retryAtEpochSeconds : Option Rat) :
    (strategy.registerRetryAt retryAtEpochSeconds).requestsBucket = strategy.requestsBucket := by
  unfold AdaptiveBackoffRateLimitStrategy.registerRetryAt
  split
  next => rfl
  next => split <;> rfl

/-- A hint leaves the limiter, or makes a bucket that is full at the smaller rate. -/
theorem registerRpmHint_cases (strategy : AdaptiveBackoffRateLimitStrategy) (rpmHint : Option Int) (now : Rat) :
    strategy.registerRpmHint rpmHint now = strategy ∨
    ∃ hint, rpmHint = some hint ∧ 0 < hint ∧ strategy.registerRpmHint rpmHint now =
      { strategy with
        rpmHint := some hint
        rpm := min strategy.rpm hint
        requestsBucket := RateLimitBucket.new (min strategy.rpm hint) now } := by
  cases rpmHint with
  | none => exact .inl rfl
  | some hint =>
    by_cases hpos : 0 < hint
    · right
      refine ⟨hint, rfl, hpos, ?_⟩
      exact if_pos hpos
    · left
      exact if_neg hpos

theorem Audited.hint (h : Audited initial start deadline state) {rpmHint : Option Int} {retryAtEpochSeconds : Option Rat}
    {now : Rat} (hclock : state.clock ≤ now) (hcarries : Carries state.strategy (.hint rpmHint retryAtEpochSeconds now)) :
    Audited initial start deadline (state.after (.hint rpmHint retryAtEpochSeconds now)
      (state.strategy.registerRateLimitHint rpmHint retryAtEpochSeconds now)) := by
  have hbucket := requestsBucket_registerRetryAt (state.strategy.registerRpmHint rpmHint now) retryAtEpochSeconds
  unfold AdaptiveBackoffRateLimitStrategy.registerRateLimitHint
  rcases registerRpmHint_cases state.strategy rpmHint now with hsame | ⟨hint, hsome, hpos, hmade⟩
  · rw [hsame] at hbucket ⊢
    exact h.unchanged hclock (metered_registerRetryAt h.metered _) hbucket rfl
  · have hmetered : Metered (state.strategy.registerRpmHint rpmHint now) := by
      rw [hmade]
      have hrpm := h.metered.rpm_pos
      have hmin : 0 < min state.strategy.rpm hint := lt_min hrpm hpos
      exact ⟨rfl, hmin, h.metered.minRpm_pos, h.metered.increment_pos, fun hint' heq => Option.some_inj.mp heq ▸ hpos, hmin.le⟩
    have hnew : (state.strategy.registerRpmHint rpmHint now).requestsBucket =
        RateLimitBucket.new (min state.strategy.rpm hint) now := by
      rw [hmade]
    refine h.replaced hclock (metered_registerRetryAt hmetered _) ?_ ?_ (fun _ => rfl)
    · rw [hbucket, hnew]
      rfl
    · rw [hbucket, hnew]
      show (0 : Int) + min state.strategy.rpm hint ≤ _
      rw [zero_add]
      exact hcarries.1 hint hsome hpos

theorem backoffRpm_pos {strategy : AdaptiveBackoffRateLimitStrategy} (h : Metered strategy) : 0 < strategy.backoffRpm := by
  unfold AdaptiveBackoffRateLimitStrategy.backoffRpm
  split
  next hint heq => exact h.hint_pos hint heq
  next => exact lt_of_lt_of_le h.minRpm_pos (le_max_left _ _)

theorem metered_backoff {strategy : AdaptiveBackoffRateLimitStrategy} (h : Metered strategy) (currTime now : Rat) :
    Metered (strategy.backoff currTime now) := by
  refine ⟨?_, backoffRpm_pos h, h.minRpm_pos, h.increment_pos, h.hint_pos, le_refl 0⟩
  unfold AdaptiveBackoffRateLimitStrategy.backoff
  dsimp only
  split
  next => rfl
  next heq =>
      show strategy.requestsBucket.maxCapacity = strategy.backoffRpm
      rw [not_not.mp heq]
      exact h.capacity

theorem Audited.backoff (h : Audited initial start deadline state) {currTime : Rat} (hclock : state.clock ≤ currTime)
    (now : Rat) : Audited initial start deadline (state.after (.backoff currTime now) (state.strategy.backoff currTime now)) := by
  have hmax : 0 ≤ state.strategy.requestsBucket.maxCapacity := h.metered.capacity ▸ h.metered.rpm_pos.le
  have havailable := RateLimitBucket.getAvailableCapacity_nonneg hmax h.metered.current_nonneg (h.clock.trans hclock)
  refine h.replaced hclock (metered_backoff h.metered currTime now) rfl ?_ (fun _ => rfl)
  show (0 : Int) + 0 ≤ _
  exact havailable

theorem Audited.check (h : Audited initial start deadline state) {now : Rat} (hclock : state.clock ≤ now) :
    Audited initial start deadline (state.after (.check now) (state.strategy.checkAndConsumeRateLimit now).2) := by
  rcases adaptiveCheck_cases h.metered now with ⟨hcheck, _⟩ | ⟨_, _, strategy, hcheck, _, hrefilled⟩
  · have hnone : state.admittedBy (.check now) = [] := by
      unfold AdaptiveState.admittedBy
      simp [hcheck]
    rw [hcheck]
    exact h.unchanged hclock h.metered rfl hnone
  · have hone : state.admittedBy (.check now) = [now] := by
      unfold AdaptiveState.admittedBy
      simp [hcheck]
    rw [hcheck]
    refine h.replaced hclock hrefilled.metered hrefilled.last ?_ ?_
    · rw [hone, hrefilled.current]
      have hcount : [now].countP (· ≤ deadline) ≤ 1 := List.countP_le_length
      show _ ≤ state.strategy.requestsBucket.getAvailableCapacity now
      omega
    · intro hafter
      rw [hone]
      have hlate : ¬ now ≤ deadline := not_le.mpr hafter
      simp [hlate]

theorem Audited.step {state' : AdaptiveState} (h : Audited initial start deadline state)
    (hcarries : Carries state.strategy action) (hstep : adaptiveStateStep state action = some state') :
    Audited initial start deadline state' := by
  unfold adaptiveStateStep at hstep
  split at hstep
  next => cases hstep
  next htime =>
      have hclock : state.clock ≤ action.time := not_lt.mp htime
      cases action with
      | hint rpmHint retryAtEpochSeconds now =>
        cases hstep
        exact h.hint hclock hcarries
      | backoff currTime now =>
        cases hstep
        exact h.backoff hclock now
      | check now =>
        cases hstep
        exact h.check hclock

end Step

/-! ## Hints and backoffs at their instant -/

theorem admissible_nonneg (strategy : AdaptiveBackoffRateLimitStrategy) (now : Rat) : 0 ≤ strategy.admissible now := by
  unfold admissible
  split
  next => exact le_refl 0
  next => exact le_max_left _ _

theorem registerRetryAt_cooldownUntil (strategy : AdaptiveBackoffRateLimitStrategy) (retryAtEpochSeconds : Option Rat) :
    (strategy.registerRetryAt retryAtEpochSeconds).cooldownUntil = strategy.cooldownUntil ∨
    ∃ retryAt, retryAtEpochSeconds = some retryAt ∧ 0 < retryAt ∧
      (strategy.registerRetryAt retryAtEpochSeconds).cooldownUntil = retryAt := by
  cases retryAtEpochSeconds with
  | none => exact .inl rfl
  | some retryAt =>
    by_cases hpos : 0 < retryAt
    · exact .inr ⟨retryAt, rfl, hpos, congrArg cooldownUntil (if_pos hpos)⟩
    · exact .inl (congrArg cooldownUntil (if_neg hpos))

/-- The capacity that is available after a hint. -/
theorem available_hint (strategy : AdaptiveBackoffRateLimitStrategy) (rpmHint : Option Int)
    (retryAtEpochSeconds : Option Rat) (now : Rat) :
    let strategy' := strategy.registerRateLimitHint rpmHint retryAtEpochSeconds now
    strategy'.requestsBucket.getAvailableCapacity now = strategy.requestsBucket.getAvailableCapacity now ∨
      ∃ hint, rpmHint = some hint ∧ 0 < hint ∧ strategy'.requestsBucket.getAvailableCapacity now = min strategy.rpm hint := by
  dsimp only
  unfold AdaptiveBackoffRateLimitStrategy.registerRateLimitHint
  rw [requestsBucket_registerRetryAt]
  rcases registerRpmHint_cases strategy rpmHint now with hsame | ⟨hint, hsome, hpos, hmade⟩
  · exact .inl (by rw [hsame])
  · exact .inr ⟨hint, hsome, hpos, by rw [hmade, RateLimitBucket.getAvailableCapacity_new]⟩

theorem cooldownUntil_registerRpmHint (strategy : AdaptiveBackoffRateLimitStrategy) (rpmHint : Option Int) (now : Rat) :
    (strategy.registerRpmHint rpmHint now).cooldownUntil = strategy.cooldownUntil := by
  rcases registerRpmHint_cases strategy rpmHint now with hsame | ⟨_, _, _, hmade⟩
  · rw [hsame]
  · rw [hmade]

variable {now : Rat}

/-- A hint in the middle of a run adds nothing to the bucket. -/
theorem available_hint_le {strategy : AdaptiveBackoffRateLimitStrategy} {rpmHint : Option Int}
    {retryAtEpochSeconds : Option Rat} (hcarries : Carries strategy (.hint rpmHint retryAtEpochSeconds now)) :
    (strategy.registerRateLimitHint rpmHint retryAtEpochSeconds now).requestsBucket.getAvailableCapacity now ≤
      strategy.requestsBucket.getAvailableCapacity now := by
  rcases available_hint strategy rpmHint retryAtEpochSeconds now with hsame | ⟨hint, hsome, hpos, hmade⟩
  · exact hsame.le
  · exact hmade.le.trans (hcarries.1 hint hsome hpos)

theorem notRaised_hint {strategy : AdaptiveBackoffRateLimitStrategy} {rpmHint : Option Int}
    {retryAtEpochSeconds : Option Rat} (hcarries : Carries strategy (.hint rpmHint retryAtEpochSeconds now)) :
    NotRaised strategy (.hint rpmHint retryAtEpochSeconds now) := by
  have havailable := available_hint_le hcarries
  have hcooldown := registerRetryAt_cooldownUntil (strategy.registerRpmHint rpmHint now) retryAtEpochSeconds
  rw [cooldownUntil_registerRpmHint] at hcooldown
  show (if now < ((strategy.registerRpmHint rpmHint now).registerRetryAt retryAtEpochSeconds).cooldownUntil then 0
    else max 0 (((strategy.registerRpmHint rpmHint now).registerRetryAt
      retryAtEpochSeconds).requestsBucket.getAvailableCapacity now)) ≤ _
  split
  next => exact admissible_nonneg strategy now
  next hended =>
      unfold admissible
      split
      next hheld =>
          -- the hint ended the cooldown, so nothing was left in the bucket
          rcases hcooldown with hsame | ⟨retryAt, hsome, hpos, hretry⟩
          · rw [hsame] at hended
            exact absurd hheld hended
          · rw [hretry] at hended
            have hempty := (hcarries.2 retryAt hsome hpos hheld).resolve_left hended
            apply max_le (le_refl 0)
            show (strategy.registerRateLimitHint rpmHint retryAtEpochSeconds now).requestsBucket.getAvailableCapacity now ≤ 0
            omega
      next => exact max_le_max (le_refl 0) havailable

/-- A backoff leaves nothing admissible. -/
theorem notRaised_backoff {strategy : AdaptiveBackoffRateLimitStrategy} (h : Metered strategy) (currTime now : Rat) :
    NotRaised strategy (.backoff currTime now) := by
  have hmetered := metered_backoff h currTime now
  have hempty : (strategy.backoff currTime now).requestsBucket.getAvailableCapacity currTime = 0 := by
    have hmax := hmetered.capacity ▸ hmetered.rpm_pos.le
    exact RateLimitBucket.getAvailableCapacity_setCapacity hmax currTime
  show (strategy.backoff currTime now).admissible currTime ≤ strategy.admissible currTime
  have hnone : (strategy.backoff currTime now).admissible currTime = 0 := by
    unfold admissible
    rw [hempty]
    split <;> rfl
  rw [hnone]
  exact admissible_nonneg strategy currTime

theorem notRaised_of_carries {strategy : AdaptiveBackoffRateLimitStrategy} (h : Metered strategy) {action : AdaptiveAction}
    (hcarries : Carries strategy action) : NotRaised strategy action := by
  cases action with
  | hint rpmHint retryAtEpochSeconds now => exact notRaised_hint hcarries
  | backoff currTime now => exact notRaised_backoff h currTime now
  | check now => trivial

/-! ## Every run -/

theorem metered_new {rpm minRpm additiveIncrement increaseAfterSuccesses : Int} {backoffMultiplier : Rat}
    {maxRpm : Option Int} {strategy : AdaptiveBackoffRateLimitStrategy}
    (hnew : new rpm minRpm backoffMultiplier maxRpm additiveIncrement increaseAfterSuccesses now = .ok strategy) :
    Metered strategy ∧ strategy.rpm = rpm ∧ strategy.requestsBucket = RateLimitBucket.new rpm now := by
  unfold new at hnew
  split at hnew
  next => cases hnew
  next hrpm =>
      split at hnew
      next => cases hnew
      next =>
          cases hnew
          have hpos : 0 < rpm := not_le.mp hrpm
          refine ⟨⟨rfl, hpos, ?_, ?_, (fun hint heq => nomatch heq), hpos.le⟩, rfl, rfl⟩
          · exact lt_of_lt_of_le Int.one_pos (le_max_left _ _)
          · exact lt_of_lt_of_le Int.one_pos (le_max_left _ _)

/-- **In every run whose hints carry over what is in the bucket, no hint and no backoff makes more requests admissible, and the
requests admitted in the first `elapsed` seconds are at most the first bucket and the refill at the highest rate.** -/
theorem admitted_le_peak {rpm minRpm additiveIncrement increaseAfterSuccesses : Int} {backoffMultiplier now : Rat}
    {maxRpm : Option Int} {strategy : AdaptiveBackoffRateLimitStrategy} {actions : List AdaptiveAction} {state : AdaptiveState}
    (hnew : new rpm minRpm backoffMultiplier maxRpm additiveIncrement increaseAfterSuccesses now = .ok strategy)
    (hrun : Transition.run adaptiveStateStep (AdaptiveState.init strategy now) actions = some state)
    (hcarries : Transition.Along adaptiveStateStep (fun state action => Carries state.strategy action)
      (AdaptiveState.init strategy now) actions) :
    Transition.Along adaptiveStateStep (fun state action => NotRaised state.strategy action)
      (AdaptiveState.init strategy now) actions ∧
    ∀ elapsed : Rat, 0 ≤ elapsed →
      (state.admittedRequests (now + elapsed) : Rat) ≤ rpm + peakRate (now + elapsed) state.rates * elapsed / 60 := by
  obtain ⟨hmetered, hrpm, hbucket⟩ := metered_new hnew
  have hpos : 0 ≤ rpm := hrpm ▸ hmetered.rpm_pos.le
  have hinit (deadline : Rat) (hdeadline : now ≤ deadline) :
      Audited rpm now deadline (AdaptiveState.init strategy now) := by
    refine ⟨hmetered, ?_, ?_⟩
    · show strategy.requestsBucket.lastUpdateTime ≤ now
      rw [hbucket]
      exact le_refl now
    · show Granted rpm now deadline 0 (peakRate deadline [(now, strategy.rpm)]) strategy.requestsBucket
      rw [hrpm, hbucket]
      exact granted_new hpos now deadline hdeadline
  constructor
  · exact Transition.along_of (fun _ _ _ h hq hstep => h.step hq hstep)
      (fun _ _ h hq => notRaised_of_carries h.metered hq) (hinit now (le_refl now)) hcarries
  · intro elapsed helapsed
    have hfinal := Transition.along_run (fun _ _ _ h hq hstep => h.step hq hstep)
      (hinit (now + elapsed) (le_add_of_nonneg_right helapsed)) hrun hcarries
    have hbound := hfinal.granted.admitted_le hfinal.metered.current_nonneg
    rw [add_sub_cancel_left] at hbound
    exact hbound

/-- Two requests a minute, at least one. -/
def scarceLimiter : AdaptiveBackoffRateLimitStrategy :=
  ⟨2, RateLimitBucket.new 2 0, 1, 3 / 4, 2, 50, 30, 0, none, 0, false⟩

/-- The hint of one request a minute comes when one request is left, and its time to retry is awaited. -/
def carryingRun : List AdaptiveAction := [.check 0, .hint (some 1) (some 10) 1, .check 5, .check 10, .backoff 11 11, .check 12]

theorem carryingRun_admitted :
    ∃ state, Transition.run adaptiveStateStep (AdaptiveState.init scarceLimiter 0) carryingRun = some state ∧
      state.admittedRequests (0 + 12) = 2 ∧
      Transition.Along adaptiveStateStep (fun state action => NotRaised state.strategy action)
        (AdaptiveState.init scarceLimiter 0) carryingRun ∧
      ∀ elapsed : Rat, 0 ≤ elapsed →
        (state.admittedRequests (0 + elapsed) : Rat) ≤ (2 : Int) + peakRate (0 + elapsed) state.rates * elapsed / 60 := by
  have hnew : new 2 1 (3 / 4) none 50 30 0 = .ok scarceLimiter := by decide +kernel
  have hruns : (Transition.run adaptiveStateStep (AdaptiveState.init scarceLimiter 0) carryingRun).map
      (fun state => state.admittedRequests (0 + 12)) = some 2 := by decide +kernel
  have hcarries : Transition.Along adaptiveStateStep (fun state action => Carries state.strategy action)
      (AdaptiveState.init scarceLimiter 0) carryingRun := by
    refine ⟨trivial, fun s hs => ⟨⟨fun hint heq _ => ?_, fun retryAt heq _ hheld => ?_⟩, fun _ _ =>
      ⟨trivial, fun _ _ => ⟨trivial, fun _ _ => ⟨trivial, fun _ _ => ⟨trivial, fun _ _ => trivial⟩⟩⟩⟩⟩⟩
    · cases heq
      cases hs
      decide +kernel
    · cases heq
      left
      decide
  obtain ⟨state, hrun, hadmitted⟩ := Option.map_eq_some_iff.mp hruns
  exact ⟨state, hrun, hadmitted, admitted_le_peak hnew hrun hcarries⟩

/-- The limiter as the client makes it. -/
def defaultLimiter : AdaptiveBackoffRateLimitStrategy :=
  ⟨25000, RateLimitBucket.new 25000 0, 50, 3 / 4, 25000, 50, 30, 0, none, 0, false⟩

/-- After a throttle, a hint of 100 makes 100 requests admissible at once. A limiter of two requests a minute admits four requests
in no time when a hint comes between them. A hint with an earlier time to retry ends a cooldown. -/
theorem hint_refills :
    new 25000 50 (3 / 4) none 50 30 0 = .ok defaultLimiter ∧
    (∃ state, Transition.run adaptiveStateStep (AdaptiveState.init defaultLimiter 0) [.backoff 0 0] = some state ∧
      state.strategy.admissible 0 = 0 ∧ (state.strategy.registerRateLimitHint (some 100) none 0).admissible 0 = 100 ∧
      ¬ NotRaised state.strategy (.hint (some 100) none 0)) ∧
    new 2 1 (3 / 4) none 50 30 0 = .ok scarceLimiter ∧
    (∃ state, Transition.run adaptiveStateStep (AdaptiveState.init scarceLimiter 0)
        [.check 0, .check 0, .hint (some 2) none 0, .check 0, .check 0] = some state ∧
      state.admittedRequests (0 + 0) = 4 ∧
      ¬ (state.admittedRequests (0 + 0) : Rat) ≤ (2 : Int) + peakRate (0 + 0) state.rates * 0 / 60) ∧
    ∃ state, Transition.run adaptiveStateStep (AdaptiveState.init scarceLimiter 0) [.hint none (some 60) 1] = some state ∧
      ¬ NotRaised state.strategy (.hint none (some 1) 2) := by
  have hthrottled : new 25000 50 (3 / 4) none 50 30 0 = .ok defaultLimiter := by decide +kernel
  have hslow : new 2 1 (3 / 4) none 50 30 0 = .ok scarceLimiter := by decide +kernel
  refine ⟨hthrottled, ⟨_, rfl, ?_, ?_, ?_⟩, hslow, ⟨_, rfl, ?_, ?_⟩, ⟨_, rfl, ?_⟩⟩
  · decide +kernel
  · decide +kernel
  · unfold NotRaised
    decide +kernel
  · decide +kernel
  · decide +kernel
  · unfold NotRaised
    decide +kernel

end RateLimit

end Fenic
