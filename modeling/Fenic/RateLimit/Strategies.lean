import Fenic.Lib.Except
import Fenic.RateLimit.Unified

/-!
# `RateLimit.Strategies` — the limiters with buckets of tokens

`SeparatedTokenRateLimitStrategy` has a bucket for input tokens and one for output tokens where the unified strategy has one
for both. A run is a sequence of calls under a clock that does not go back, with the answers to its checks.

In every run each bucket holds between nothing and its capacity, and a check takes the estimate from all buckets or from none
(`run_inBounds`).
-/

namespace Fenic

namespace RateLimit

/-! ## Buckets within their bounds -/

namespace RateLimitBucket

/-- A bucket of a given size that holds no more than it can, and was updated before. -/
structure InBounds (limit : Int) (clock : Rat) (bucket : RateLimitBucket) : Prop where
  limit_nonneg : 0 ≤ limit
  maxCapacity_eq : bucket.maxCapacity = limit
  nonneg : 0 ≤ bucket.currentCapacity
  le_limit : bucket.currentCapacity ≤ limit
  updated : bucket.lastUpdateTime ≤ clock

variable {limit : Int} {clock now : Rat} {bucket : RateLimitBucket}

theorem inBounds_new (hlimit : 0 ≤ limit) (hclock : now ≤ clock) : (new limit now).InBounds limit clock :=
  ⟨hlimit, rfl, hlimit, le_refl limit, hclock⟩

theorem InBounds.later (h : bucket.InBounds limit clock) (hnow : clock ≤ now) : bucket.InBounds limit now :=
  { h with updated := h.updated.trans hnow }

theorem InBounds.setCapacity {capacity : Int} (h : bucket.InBounds limit clock) (hnonneg : 0 ≤ capacity)
    (hle : capacity ≤ limit) (now : Rat) : (bucket.setCapacity capacity now).InBounds limit now :=
  ⟨h.limit_nonneg, h.maxCapacity_eq, hnonneg, hle, le_refl now⟩

/-- What is available lies within the bounds too. -/
theorem InBounds.available (h : bucket.InBounds limit clock) (hnow : clock ≤ now) :
    0 ≤ bucket.getAvailableCapacity now ∧ bucket.getAvailableCapacity now ≤ limit := by
  constructor
  · exact getAvailableCapacity_nonneg (h.maxCapacity_eq ▸ h.limit_nonneg) h.nonneg (h.updated.trans hnow)
  · rw [← h.maxCapacity_eq]
    exact min_le_right _ _

/-- Taking what is there stays within the bounds. -/
theorem InBounds.consume {cost : Int} (h : bucket.InBounds limit clock) (hnow : clock ≤ now) (hcost : 0 ≤ cost)
    (hle : cost ≤ bucket.getAvailableCapacity now) :
    (bucket.setCapacity (bucket.getAvailableCapacity now - cost) now).InBounds limit now := by
  have havailable := h.available hnow
  exact h.setCapacity (by omega) (by omega) now

/-- A settlement is clamped. -/
theorem InBounds.clamp (h : bucket.InBounds limit clock) (capacity : Int) (now : Rat) :
    (bucket.setCapacity (min limit (max 0 capacity)) now).InBounds limit now :=
  h.setCapacity (le_min h.limit_nonneg (le_max_left _ _)) (min_le_left _ _) now

/-- What is taken from a bucket is missing in it. -/
theorem InBounds.available_consume {cost : Int} (h : bucket.InBounds limit clock) (hnow : clock ≤ now) (hcost : 0 ≤ cost) :
    (bucket.setCapacity (bucket.getAvailableCapacity now - cost) now).getAvailableCapacity now =
      bucket.getAvailableCapacity now - cost := by
  have havailable := h.available hnow
  apply getAvailableCapacity_setCapacity
  rw [h.maxCapacity_eq]
  omega

end RateLimitBucket

/-! ## The separated strategy -/

structure SeparatedTokenRateLimitStrategy where
  rpm : Int
  inputTpm : Int
  outputTpm : Int
  requestsBucket : RateLimitBucket
  inputTokensBucket : RateLimitBucket
  outputTokensBucket : RateLimitBucket
  deriving DecidableEq

namespace SeparatedTokenRateLimitStrategy

/-- `__init__`. The three buckets read the clock one after the other. -/
def new (rpm inputTpm outputTpm : Int) (now now' now'' : Rat) : Except String SeparatedTokenRateLimitStrategy :=
  if rpm ≤ 0 then .error "rpm must be greater than 0"
  else .ok ⟨rpm, inputTpm, outputTpm, RateLimitBucket.new rpm now, RateLimitBucket.new inputTpm now',
    RateLimitBucket.new outputTpm now''⟩

/-- `_check_max_rate_limits`. -/
def checkMaxRateLimits (strategy : SeparatedTokenRateLimitStrategy) (tokenEstimate : TokenEstimate) : Except String Unit :=
  if strategy.inputTpm < tokenEstimate.inputTokens then
    .error s!"Insufficient capacity to handle the request. Input TPM limit is {strategy.inputTpm} but request requires an estimated {tokenEstimate.inputTokens} input tokens.  Please configure the model with more capacity."
  else if strategy.outputTpm < tokenEstimate.outputTokens then
    .error s!"Insufficient capacity to handle the request. Output TPM limit is {strategy.outputTpm} but request requires an estimated {tokenEstimate.outputTokens} output tokens.  Please configure the model with more capacity."
  else .ok ()

def checkAndConsumeRateLimit (strategy : SeparatedTokenRateLimitStrategy) (tokenEstimate : TokenEstimate) (now : Rat) :
    Except String (Bool × SeparatedTokenRateLimitStrategy) := do
  strategy.checkMaxRateLimits tokenEstimate
  let availableInputTokens := strategy.inputTokensBucket.getAvailableCapacity now
  let availableRequests := strategy.requestsBucket.getAvailableCapacity now
  let availableOutputTokens := strategy.outputTokensBucket.getAvailableCapacity now
  if 1 ≤ availableRequests ∧ tokenEstimate.inputTokens ≤ availableInputTokens ∧
      tokenEstimate.outputTokens ≤ availableOutputTokens then
    return (true,
      { strategy with
        inputTokensBucket :=
          strategy.inputTokensBucket.setCapacity (availableInputTokens - tokenEstimate.inputTokens) now
        outputTokensBucket :=
          strategy.outputTokensBucket.setCapacity (availableOutputTokens - tokenEstimate.outputTokens) now
        requestsBucket := strategy.requestsBucket.setCapacity (availableRequests - 1) now })
  return (false, strategy)

def settle (strategy : SeparatedTokenRateLimitStrategy) (reserved actual : TokenEstimate) (now : Rat) :
    SeparatedTokenRateLimitStrategy :=
  let inDelta := reserved.inputTokens - actual.inputTokens
  let outDelta := reserved.outputTokens - actual.outputTokens
  let inAvail := strategy.inputTokensBucket.getAvailableCapacity now
  let outAvail := strategy.outputTokensBucket.getAvailableCapacity now
  { strategy with
    inputTokensBucket :=
      strategy.inputTokensBucket.setCapacity (min strategy.inputTpm (max 0 (inAvail + inDelta))) now
    outputTokensBucket :=
      strategy.outputTokensBucket.setCapacity (min strategy.outputTpm (max 0 (outAvail + outDelta))) now }

def backoff (strategy : SeparatedTokenRateLimitStrategy) (currTime : Rat) : SeparatedTokenRateLimitStrategy :=
  { strategy with
    inputTokensBucket := strategy.inputTokensBucket.setCapacity 0 currTime
    outputTokensBucket := strategy.outputTokensBucket.setCapacity 0 currTime
    requestsBucket := strategy.requestsBucket.setCapacity 0 currTime }

end SeparatedTokenRateLimitStrategy

/-! ## Both strategies -/

/-- A strategy with buckets of tokens. -/
inductive TokenRateLimitStrategy where
  | unified (strategy : UnifiedTokenRateLimitStrategy)
  | separated (strategy : SeparatedTokenRateLimitStrategy)
  deriving DecidableEq

namespace TokenRateLimitStrategy

def checkAndConsumeRateLimit (tokenEstimate : TokenEstimate) (now : Rat) :
    TokenRateLimitStrategy → Except String (Bool × TokenRateLimitStrategy)
  | .unified strategy =>
    (strategy.checkAndConsumeRateLimit tokenEstimate now).map fun result => (result.1, .unified result.2)
  | .separated strategy =>
    (strategy.checkAndConsumeRateLimit tokenEstimate now).map fun result => (result.1, .separated result.2)

def settle (reserved actual : TokenEstimate) (now : Rat) : TokenRateLimitStrategy → TokenRateLimitStrategy
  | .unified strategy => .unified (strategy.settle reserved actual now)
  | .separated strategy => .separated (strategy.settle reserved actual now)

def backoff (currTime : Rat) : TokenRateLimitStrategy → TokenRateLimitStrategy
  | .unified strategy => .unified (strategy.backoff currTime)
  | .separated strategy => .separated (strategy.backoff currTime)

/-- The bucket of requests, and those of tokens. -/
def buckets : TokenRateLimitStrategy → List RateLimitBucket
  | .unified strategy => [strategy.requestsBucket, strategy.unifiedTokensBucket]
  | .separated strategy => [strategy.requestsBucket, strategy.inputTokensBucket, strategy.outputTokensBucket]

/-- What a request takes from the buckets. -/
def estimates (tokenEstimate : TokenEstimate) : TokenRateLimitStrategy → List Int
  | .unified _ => [1, tokenEstimate.totalTokens]
  | .separated _ => [1, tokenEstimate.inputTokens, tokenEstimate.outputTokens]

def available (now : Rat) (strategy : TokenRateLimitStrategy) : List Int :=
  strategy.buckets.map fun bucket => bucket.getAvailableCapacity now

/-- A new strategy with limits above zero. -/
inductive Started : TokenRateLimitStrategy → Rat → Prop where
  | unified {rpm tpm : Int} {now now' clock : Rat} {strategy : UnifiedTokenRateLimitStrategy}
      (hnew : UnifiedTokenRateLimitStrategy.new rpm tpm now now' = .ok strategy) (htpm : 0 < tpm) (hnow : now ≤ clock)
      (hnow' : now' ≤ clock) : Started (.unified strategy) clock
  | separated {rpm inputTpm outputTpm : Int} {now now' now'' clock : Rat} {strategy : SeparatedTokenRateLimitStrategy}
      (hnew : SeparatedTokenRateLimitStrategy.new rpm inputTpm outputTpm now now' now'' = .ok strategy)
      (hinput : 0 < inputTpm) (houtput : 0 < outputTpm) (hnow : now ≤ clock) (hnow' : now' ≤ clock)
      (hnow'' : now'' ≤ clock) : Started (.separated strategy) clock

end TokenRateLimitStrategy

/-! ## Runs -/

def TokenEstimate.Nonneg (estimate : TokenEstimate) : Prop := 0 ≤ estimate.inputTokens ∧ 0 ≤ estimate.outputTokens

instance (estimate : TokenEstimate) : Decidable estimate.Nonneg := inferInstanceAs (Decidable (_ ∧ _))

/-- A call, with the time that it reads or is given. -/
inductive RateLimitCall where
  | check (tokenEstimate : TokenEstimate) (now : Rat)
  | settle (reserved actual : TokenEstimate) (now : Rat)
  | backoff (currTime : Rat)
  deriving DecidableEq

def RateLimitCall.time : RateLimitCall → Rat
  | .check _ now => now
  | .settle _ _ now => now
  | .backoff currTime => currTime

/-- Estimates and usages are not negative. -/
def RateLimitCall.Valid : RateLimitCall → Prop
  | .check tokenEstimate _ => tokenEstimate.Nonneg
  | .settle reserved actual _ => reserved.Nonneg ∧ actual.Nonneg
  | .backoff _ => True

instance : (call : RateLimitCall) → Decidable call.Valid
  | .check _ _ => inferInstanceAs (Decidable (TokenEstimate.Nonneg _))
  | .settle _ _ _ => inferInstanceAs (Decidable (_ ∧ _))
  | .backoff _ => inferInstanceAs (Decidable True)

/-- A strategy in use. The answer to a check that raises is its error. -/
structure RateLimitState where
  strategy : TokenRateLimitStrategy
  clock : Rat
  answers : List (Except String Bool)
  deriving DecidableEq

def RateLimitState.init (strategy : TokenRateLimitStrategy) (clock : Rat) : RateLimitState := ⟨strategy, clock, []⟩

def RateLimitState.check (state : RateLimitState) (tokenEstimate : TokenEstimate) (now : Rat) : RateLimitState :=
  match state.strategy.checkAndConsumeRateLimit tokenEstimate now with
  | .error message => ⟨state.strategy, now, state.answers ++ [.error message]⟩
  | .ok (answer, strategy) => ⟨strategy, now, state.answers ++ [.ok answer]⟩

/-- A step: a valid call, at a time that is not before the last one. -/
def rateLimitStep (state : RateLimitState) (call : RateLimitCall) : Option RateLimitState :=
  if call.time < state.clock ∨ ¬ call.Valid then none
  else match call with
    | .check tokenEstimate now => some (state.check tokenEstimate now)
    | .settle reserved actual now => some ⟨state.strategy.settle reserved actual now, now, state.answers⟩
    | .backoff currTime => some ⟨state.strategy.backoff currTime, currTime, state.answers⟩

theorem rateLimitStep_cases {state state' : RateLimitState} {call : RateLimitCall}
    (h : rateLimitStep state call = some state') :
    state.clock ≤ call.time ∧ call.Valid ∧ state'.clock = call.time ∧
      ((∃ tokenEstimate now, call = .check tokenEstimate now ∧ state' = state.check tokenEstimate now) ∨
        (∃ reserved actual now, call = .settle reserved actual now ∧
          state' = ⟨state.strategy.settle reserved actual now, now, state.answers⟩) ∨
        ∃ currTime, call = .backoff currTime ∧ state' = ⟨state.strategy.backoff currTime, currTime, state.answers⟩) := by
  unfold rateLimitStep at h
  split at h
  · cases h
  next henabled =>
      obtain ⟨htime, hvalid⟩ := not_or.mp henabled
      refine ⟨not_lt.mp htime, not_not.mp hvalid, ?_⟩
      cases call with
      | check tokenEstimate now =>
        cases h
        refine ⟨?_, .inl ⟨tokenEstimate, now, rfl, rfl⟩⟩
        unfold RateLimitState.check
        split <;> rfl
      | settle reserved actual now =>
        cases h
        exact ⟨rfl, .inr (.inl ⟨reserved, actual, now, rfl, rfl⟩)⟩
      | backoff currTime =>
        cases h
        exact ⟨rfl, .inr (.inr ⟨currTime, rfl, rfl⟩)⟩

/-! ## What a check does -/

namespace UnifiedTokenRateLimitStrategy

/-- A check that answers takes the request from both buckets or leaves the strategy. -/
theorem check_ok {strategy strategy' : UnifiedTokenRateLimitStrategy} {tokenEstimate : TokenEstimate} {now : Rat}
    {answer : Bool} (h : strategy.checkAndConsumeRateLimit tokenEstimate now = .ok (answer, strategy')) :
    (answer = true ∧ 1 ≤ strategy.requestsBucket.getAvailableCapacity now ∧
      tokenEstimate.totalTokens ≤ strategy.unifiedTokensBucket.getAvailableCapacity now ∧
      strategy' = { strategy with
        unifiedTokensBucket := strategy.unifiedTokensBucket.setCapacity
          (strategy.unifiedTokensBucket.getAvailableCapacity now - tokenEstimate.totalTokens) now
        requestsBucket := strategy.requestsBucket.setCapacity
          (strategy.requestsBucket.getAvailableCapacity now - 1) now }) ∨
    (answer = false ∧ strategy' = strategy) := by
  obtain ⟨_, -, h⟩ := Except.bind_eq_ok.mp h
  dsimp only at h
  split at h
  next hcapacity =>
      cases h
      exact .inl ⟨rfl, hcapacity.1, hcapacity.2, rfl⟩
  next =>
      cases h
      exact .inr ⟨rfl, rfl⟩

end UnifiedTokenRateLimitStrategy

namespace SeparatedTokenRateLimitStrategy

/-- A check that answers takes the request from the three buckets or leaves the strategy. -/
theorem check_ok {strategy strategy' : SeparatedTokenRateLimitStrategy} {tokenEstimate : TokenEstimate} {now : Rat}
    {answer : Bool} (h : strategy.checkAndConsumeRateLimit tokenEstimate now = .ok (answer, strategy')) :
    (answer = true ∧ 1 ≤ strategy.requestsBucket.getAvailableCapacity now ∧
      tokenEstimate.inputTokens ≤ strategy.inputTokensBucket.getAvailableCapacity now ∧
      tokenEstimate.outputTokens ≤ strategy.outputTokensBucket.getAvailableCapacity now ∧
      strategy' = { strategy with
        inputTokensBucket := strategy.inputTokensBucket.setCapacity
          (strategy.inputTokensBucket.getAvailableCapacity now - tokenEstimate.inputTokens) now
        outputTokensBucket := strategy.outputTokensBucket.setCapacity
          (strategy.outputTokensBucket.getAvailableCapacity now - tokenEstimate.outputTokens) now
        requestsBucket := strategy.requestsBucket.setCapacity
          (strategy.requestsBucket.getAvailableCapacity now - 1) now }) ∨
    (answer = false ∧ strategy' = strategy) := by
  obtain ⟨_, -, h⟩ := Except.bind_eq_ok.mp h
  dsimp only at h
  split at h
  next hcapacity =>
      cases h
      exact .inl ⟨rfl, hcapacity.1, hcapacity.2.1, hcapacity.2.2, rfl⟩
  next =>
      cases h
      exact .inr ⟨rfl, rfl⟩

end SeparatedTokenRateLimitStrategy

/-! ## Strategies within their bounds -/

namespace TokenRateLimitStrategy

/-- Every bucket has the size of its limit, and is within its bounds. -/
def InBounds (clock : Rat) : TokenRateLimitStrategy → Prop
  | .unified strategy =>
    strategy.requestsBucket.InBounds strategy.rpm clock ∧ strategy.unifiedTokensBucket.InBounds strategy.tpm clock
  | .separated strategy =>
    strategy.requestsBucket.InBounds strategy.rpm clock ∧
      strategy.inputTokensBucket.InBounds strategy.inputTpm clock ∧
      strategy.outputTokensBucket.InBounds strategy.outputTpm clock

variable {strategy strategy' : TokenRateLimitStrategy} {clock now : Rat}

theorem inBounds_of_started (h : Started strategy clock) : strategy.InBounds clock := by
  cases h with
  | unified hnew htpm hnow hnow' =>
    unfold UnifiedTokenRateLimitStrategy.new at hnew
    split at hnew
    · cases hnew
    next hrpm =>
        cases hnew
        have hrpm' := (not_le.mp hrpm).le
        exact ⟨RateLimitBucket.inBounds_new hrpm' hnow, RateLimitBucket.inBounds_new htpm.le hnow'⟩
  | separated hnew hinput houtput hnow hnow' hnow'' =>
    unfold SeparatedTokenRateLimitStrategy.new at hnew
    split at hnew
    · cases hnew
    next hrpm =>
        cases hnew
        have hrpm' := (not_le.mp hrpm).le
        exact ⟨RateLimitBucket.inBounds_new hrpm' hnow, RateLimitBucket.inBounds_new hinput.le hnow',
          RateLimitBucket.inBounds_new houtput.le hnow''⟩

theorem InBounds.later (h : strategy.InBounds clock) (hnow : clock ≤ now) : strategy.InBounds now := by
  cases strategy with
  | unified strategy => exact ⟨h.1.later hnow, h.2.later hnow⟩
  | separated strategy => exact ⟨h.1.later hnow, h.2.1.later hnow, h.2.2.later hnow⟩

/-- A check that answers keeps the bounds, and takes the estimate from all buckets or from none. -/
theorem InBounds.check (h : strategy.InBounds clock) (hnow : clock ≤ now) {tokenEstimate : TokenEstimate}
    (hestimate : tokenEstimate.Nonneg) {answer : Bool}
    (hcheck : strategy.checkAndConsumeRateLimit tokenEstimate now = .ok (answer, strategy')) :
    strategy'.InBounds now ∧ (answer = false → strategy'.available now = strategy.available now) ∧
      (answer = true →
        strategy'.available now = List.zipWith (· - ·) (strategy.available now) (strategy.estimates tokenEstimate)) := by
  obtain ⟨hin, hout⟩ := hestimate
  cases strategy with
  | unified strategy =>
    obtain ⟨⟨answer', strategy'⟩, hinner, heq⟩ := Except.map_eq_ok.mp hcheck
    cases heq
    obtain ⟨hrequests, htokens⟩ := h
    have htotal : 0 ≤ tokenEstimate.totalTokens := add_nonneg hin hout
    rcases UnifiedTokenRateLimitStrategy.check_ok hinner with ⟨rfl, hle, hle', rfl⟩ | ⟨rfl, rfl⟩
    · refine ⟨⟨hrequests.consume hnow Int.one_nonneg hle, htokens.consume hnow htotal hle'⟩, (fun h => nomatch h), fun _ => ?_⟩
      simp only [available, buckets, estimates, List.map_cons, List.map_nil, List.zipWith_cons_cons, List.zipWith_nil_left,
        hrequests.available_consume hnow Int.one_nonneg, htokens.available_consume hnow htotal]
    · exact ⟨⟨hrequests.later hnow, htokens.later hnow⟩, fun _ => rfl, fun h => nomatch h⟩
  | separated strategy =>
    obtain ⟨⟨answer', strategy'⟩, hinner, heq⟩ := Except.map_eq_ok.mp hcheck
    cases heq
    obtain ⟨hrequests, hinput, houtput⟩ := h
    rcases SeparatedTokenRateLimitStrategy.check_ok hinner with ⟨rfl, hle, hle', hle'', rfl⟩ | ⟨rfl, rfl⟩
    · refine ⟨⟨hrequests.consume hnow Int.one_nonneg hle, hinput.consume hnow hin hle', houtput.consume hnow hout hle''⟩,
        (fun h => nomatch h), fun _ => ?_⟩
      simp only [available, buckets, estimates, List.map_cons, List.map_nil, List.zipWith_cons_cons, List.zipWith_nil_left,
        hrequests.available_consume hnow Int.one_nonneg, hinput.available_consume hnow hin,
        houtput.available_consume hnow hout]
    · exact ⟨⟨hrequests.later hnow, hinput.later hnow, houtput.later hnow⟩, fun _ => rfl, fun h => nomatch h⟩

theorem InBounds.settle (h : strategy.InBounds clock) (hnow : clock ≤ now) (reserved actual : TokenEstimate) :
    (strategy.settle reserved actual now).InBounds now := by
  cases strategy with
  | unified strategy => exact ⟨h.1.later hnow, h.2.clamp _ now⟩
  | separated strategy => exact ⟨h.1.later hnow, h.2.1.clamp _ now, h.2.2.clamp _ now⟩

theorem InBounds.backoff (h : strategy.InBounds clock) (now : Rat) : (strategy.backoff now).InBounds now := by
  cases strategy with
  | unified strategy =>
    exact ⟨h.1.setCapacity (le_refl 0) h.1.limit_nonneg now, h.2.setCapacity (le_refl 0) h.2.limit_nonneg now⟩
  | separated strategy =>
    exact ⟨h.1.setCapacity (le_refl 0) h.1.limit_nonneg now, h.2.1.setCapacity (le_refl 0) h.2.1.limit_nonneg now,
      h.2.2.setCapacity (le_refl 0) h.2.2.limit_nonneg now⟩

/-- Each bucket, whichever it is. -/
theorem InBounds.bucket (h : strategy.InBounds clock) {bucket : RateLimitBucket} (hbucket : bucket ∈ strategy.buckets) :
    bucket.InBounds bucket.maxCapacity clock := by
  have hany : ∃ limit, bucket.InBounds limit clock := by
    cases strategy with
    | unified strategy =>
      rcases List.mem_pair.mp hbucket with rfl | rfl
      · exact ⟨_, h.1⟩
      · exact ⟨_, h.2⟩
    | separated strategy =>
      rcases List.mem_cons.mp hbucket with rfl | hbucket
      · exact ⟨_, h.1⟩
      · rcases List.mem_pair.mp hbucket with rfl | rfl
        · exact ⟨_, h.2.1⟩
        · exact ⟨_, h.2.2⟩
  obtain ⟨limit, hlimit⟩ := hany
  rwa [hlimit.maxCapacity_eq]

end TokenRateLimitStrategy

/-- A step keeps the bounds. -/
theorem inBounds_step {state state' : RateLimitState} {call : RateLimitCall} (h : state.strategy.InBounds state.clock)
    (hstep : rateLimitStep state call = some state') : state'.strategy.InBounds state'.clock := by
  obtain ⟨htime, hvalid, -, hcases⟩ := rateLimitStep_cases hstep
  rcases hcases with ⟨tokenEstimate, now, rfl, rfl⟩ | ⟨reserved, actual, now, rfl, rfl⟩ | ⟨now, rfl, rfl⟩
  · unfold RateLimitState.check
    split
    next => exact h.later htime
    next hcheck => exact (h.check htime hvalid hcheck).1
  · exact h.settle htime reserved actual
  · exact h.backoff now

/-- **After any run, every bucket holds between nothing and its capacity, and a check takes the estimate from all buckets or
    from none.** -/
theorem run_inBounds {strategy : TokenRateLimitStrategy} {clock : Rat} (hstart : strategy.Started clock)
    {calls : List RateLimitCall} {state : RateLimitState}
    (hrun : Transition.run rateLimitStep (.init strategy clock) calls = some state) {now : Rat} (hnow : state.clock ≤ now) :
    (∀ bucket ∈ state.strategy.buckets,
      0 ≤ bucket.currentCapacity ∧ bucket.currentCapacity ≤ bucket.maxCapacity ∧
        0 ≤ bucket.getAvailableCapacity now ∧ bucket.getAvailableCapacity now ≤ bucket.maxCapacity) ∧
    ∀ tokenEstimate answer strategy', tokenEstimate.Nonneg →
      state.strategy.checkAndConsumeRateLimit tokenEstimate now = .ok (answer, strategy') →
        (answer = false → strategy'.available now = state.strategy.available now) ∧
        (answer = true → strategy'.available now =
          List.zipWith (· - ·) (state.strategy.available now) (state.strategy.estimates tokenEstimate)) := by
  have h : state.strategy.InBounds state.clock :=
    Transition.invariant_run (P := fun s : RateLimitState => s.strategy.InBounds s.clock)
      (fun _ _ _ => inBounds_step) (TokenRateLimitStrategy.inBounds_of_started hstart) hrun
  constructor
  · intro bucket hbucket
    have hb := h.bucket hbucket
    exact ⟨hb.nonneg, hb.le_limit, hb.available hnow⟩
  · intro tokenEstimate answer strategy' hestimate hcheck
    exact (h.check hnow hestimate hcheck).2

/-- 60 requests, 600 input tokens and 300 output tokens a minute. -/
def separatedLimiter : SeparatedTokenRateLimitStrategy :=
  ⟨60, 600, 300, RateLimitBucket.new 60 0, RateLimitBucket.new 600 0, RateLimitBucket.new 300 0⟩

theorem separatedLimiter_started : TokenRateLimitStrategy.Started (.separated separatedLimiter) 0 := by
  have hnew : SeparatedTokenRateLimitStrategy.new 60 600 300 0 0 0 = .ok separatedLimiter := rfl
  exact .separated hnew (by decide) (by decide) (le_refl 0) (le_refl 0) (le_refl 0)

/-- The first request uses more input tokens than it reserved. -/
def overusedRun : List RateLimitCall :=
  [.check ⟨200, 100⟩ 0, .settle ⟨200, 100⟩ ⟨700, 50⟩ 1, .check ⟨100, 10⟩ 12, .backoff 13]

theorem overusedRun_inBounds :
    ∃ state, Transition.run rateLimitStep (.init (.separated separatedLimiter) 0) overusedRun = some state ∧
      state.clock = 13 ∧ state.answers = [.ok true, .ok true] ∧
      ∀ bucket ∈ state.strategy.buckets,
        0 ≤ bucket.currentCapacity ∧ bucket.currentCapacity ≤ bucket.maxCapacity ∧
          0 ≤ bucket.getAvailableCapacity 14 ∧ bucket.getAvailableCapacity 14 ≤ bucket.maxCapacity := by
  have hruns : (Transition.run rateLimitStep (.init (.separated separatedLimiter) 0) overusedRun).map
      (fun state => (state.clock, state.answers)) = some (13, [.ok true, .ok true]) := by decide +kernel
  obtain ⟨state, hrun, hstate⟩ := Option.map_eq_some_iff.mp hruns
  obtain ⟨hclock, hanswers⟩ := Prod.mk.inj hstate
  have hnow : state.clock ≤ 14 := by
    rw [hclock]
    decide
  exact ⟨state, hrun, hclock, hanswers, (run_inBounds separatedLimiter_started hrun hnow).1⟩

end RateLimit

end Fenic
