import Fenic.RateLimit.Strategies

/-!
# `RateLimit.Settlement` — settlements of nothing

A settlement whose actual usage is what was reserved writes back what is available, rounded down, and restarts the refill of
the bucket. The fraction of a token that was refilled is lost: a bucket that is settled often enough is never refilled.

Where the bucket is full, or whole tokens were refilled, nothing is lost: the buckets with and without the settlement offer the
same from then on (`AgreesFrom`), and no later check can tell them apart (`settlement_neutral`).
-/

namespace Fenic

namespace RateLimit

/-! ## Buckets that agree -/

namespace RateLimitBucket

/-- The two buckets offer the same from a time on. -/
structure AgreesFrom (now : Rat) (bucket bucket' : RateLimitBucket) : Prop where
  maxCapacity_eq : bucket.maxCapacity = bucket'.maxCapacity
  available_eq : ∀ time, now ≤ time → bucket.getAvailableCapacity time = bucket'.getAvailableCapacity time

theorem AgreesFrom.refl (now : Rat) (bucket : RateLimitBucket) : AgreesFrom now bucket bucket := ⟨rfl, fun _ _ => rfl⟩

variable {now now' : Rat} {bucket bucket' bucket'' : RateLimitBucket}

theorem AgreesFrom.trans (h : AgreesFrom now bucket bucket') (h' : AgreesFrom now bucket' bucket'') :
    AgreesFrom now bucket bucket'' :=
  ⟨h.maxCapacity_eq.trans h'.maxCapacity_eq, fun time htime =>
    (h.available_eq time htime).trans (h'.available_eq time htime)⟩

theorem AgreesFrom.later (h : AgreesFrom now bucket bucket') (hnow : now ≤ now') : AgreesFrom now' bucket bucket' :=
  ⟨h.maxCapacity_eq, fun time htime => h.available_eq time (hnow.trans htime)⟩

/-- Setting the same capacity at the same time. -/
theorem AgreesFrom.setCapacity (h : AgreesFrom now bucket bucket') (capacity : Int) (time : Rat) :
    AgreesFrom time (bucket.setCapacity capacity time) (bucket'.setCapacity capacity time) := by
  refine ⟨h.maxCapacity_eq, fun _ _ => ?_⟩
  unfold getAvailableCapacity RateLimitBucket.setCapacity
  rw [h.maxCapacity_eq]

/-- Whole tokens were refilled since the last update, or the bucket is full. -/
def Whole (now : Rat) (bucket : RateLimitBucket) : Prop :=
  bucket.getAvailableCapacity now = bucket.maxCapacity ∨
    ((⌊bucket.maxCapacity * (now - bucket.lastUpdateTime) / minuteInSeconds⌋ : Int) : Rat) =
      bucket.maxCapacity * (now - bucket.lastUpdateTime) / minuteInSeconds

instance (now : Rat) (bucket : RateLimitBucket) : Decidable (bucket.Whole now) := inferInstanceAs (Decidable (_ ∨ _))

/-- **Writing back what is available loses nothing when it is whole.** -/
theorem agreesFrom_setCapacity {limit : Int} {clock : Rat} (h : bucket.InBounds limit clock) (hwhole : bucket.Whole now) :
    AgreesFrom now (bucket.setCapacity (bucket.getAvailableCapacity now) now) bucket := by
  refine ⟨rfl, fun time htime => ?_⟩
  have hmax : (0 : Rat) ≤ bucket.maxCapacity := Int.cast_nonneg (h.maxCapacity_eq ▸ h.limit_nonneg)
  have hsince : 0 ≤ bucket.maxCapacity * (time - now) / minuteInSeconds :=
    div_nonneg (mul_nonneg hmax (sub_nonneg.mpr htime)) (by decide)
  have hrefill : 0 ≤ ⌊bucket.maxCapacity * (time - now) / minuteInSeconds⌋ := Int.floor_nonneg.mpr hsince
  -- the refill up to a time is that up to now and that since now
  have hsplit : bucket.maxCapacity * (time - bucket.lastUpdateTime) / minuteInSeconds =
      bucket.maxCapacity * (now - bucket.lastUpdateTime) / minuteInSeconds +
        bucket.maxCapacity * (time - now) / minuteInSeconds := by ring
  show min (⌊bucket.maxCapacity * (time - now) / minuteInSeconds⌋ + bucket.getAvailableCapacity now) bucket.maxCapacity = _
  rcases hwhole with hfull | hwhole
  · have hmono : ⌊bucket.maxCapacity * (now - bucket.lastUpdateTime) / minuteInSeconds⌋ ≤
        ⌊bucket.maxCapacity * (time - bucket.lastUpdateTime) / minuteInSeconds⌋ := by
      apply Int.floor_le_floor
      linarith
    have hle : bucket.maxCapacity ≤
        ⌊bucket.maxCapacity * (now - bucket.lastUpdateTime) / minuteInSeconds⌋ + bucket.currentCapacity :=
      min_eq_right_iff.mp hfull
    unfold getAvailableCapacity
    omega
  · have hfloor : ⌊bucket.maxCapacity * (time - bucket.lastUpdateTime) / minuteInSeconds⌋ =
        ⌊bucket.maxCapacity * (now - bucket.lastUpdateTime) / minuteInSeconds⌋ +
          ⌊bucket.maxCapacity * (time - now) / minuteInSeconds⌋ := by
      rw [hsplit, ← hwhole, Int.floor_intCast_add, Int.floor_intCast]
    unfold getAvailableCapacity
    omega

end RateLimitBucket

/-! ## Strategies that agree -/

namespace TokenRateLimitStrategy

/-- The same limits, over buckets that agree. -/
inductive AgreesFrom (now : Rat) : TokenRateLimitStrategy → TokenRateLimitStrategy → Prop where
  | unified {rpm tpm : Int} {requests requests' tokens tokens' : RateLimitBucket}
      (hrequests : requests.AgreesFrom now requests') (htokens : tokens.AgreesFrom now tokens') :
      AgreesFrom now (.unified ⟨rpm, tpm, requests, tokens⟩) (.unified ⟨rpm, tpm, requests', tokens'⟩)
  | separated {rpm inputTpm outputTpm : Int} {requests requests' input input' output output' : RateLimitBucket}
      (hrequests : requests.AgreesFrom now requests') (hinput : input.AgreesFrom now input')
      (houtput : output.AgreesFrom now output') :
      AgreesFrom now (.separated ⟨rpm, inputTpm, outputTpm, requests, input, output⟩)
        (.separated ⟨rpm, inputTpm, outputTpm, requests', input', output'⟩)

variable {now now' : Rat} {strategy strategy' strategy'' : TokenRateLimitStrategy}

theorem AgreesFrom.refl (now : Rat) (strategy : TokenRateLimitStrategy) : AgreesFrom now strategy strategy := by
  cases strategy with
  | unified strategy => exact .unified (.refl _ _) (.refl _ _)
  | separated strategy => exact .separated (.refl _ _) (.refl _ _) (.refl _ _)

theorem AgreesFrom.trans (h : AgreesFrom now strategy strategy') (h' : AgreesFrom now strategy' strategy'') :
    AgreesFrom now strategy strategy'' := by
  cases h with
  | unified hrequests htokens =>
    cases h' with
    | unified hrequests' htokens' => exact .unified (hrequests.trans hrequests') (htokens.trans htokens')
  | separated hrequests hinput houtput =>
    cases h' with
    | separated hrequests' hinput' houtput' =>
      exact .separated (hrequests.trans hrequests') (hinput.trans hinput') (houtput.trans houtput')

theorem AgreesFrom.later (h : AgreesFrom now strategy strategy') (hnow : now ≤ now') : AgreesFrom now' strategy strategy' := by
  cases h with
  | unified hrequests htokens => exact .unified (hrequests.later hnow) (htokens.later hnow)
  | separated hrequests hinput houtput => exact .separated (hrequests.later hnow) (hinput.later hnow) (houtput.later hnow)

theorem AgreesFrom.settle (h : AgreesFrom now strategy strategy') (reserved actual : TokenEstimate) :
    AgreesFrom now (strategy.settle reserved actual now) (strategy'.settle reserved actual now) := by
  cases h with
  | unified hrequests htokens =>
    unfold TokenRateLimitStrategy.settle UnifiedTokenRateLimitStrategy.settle
    dsimp only
    rw [htokens.available_eq now (le_refl now)]
    exact .unified hrequests (htokens.setCapacity _ now)
  | separated hrequests hinput houtput =>
    unfold TokenRateLimitStrategy.settle SeparatedTokenRateLimitStrategy.settle
    dsimp only
    rw [hinput.available_eq now (le_refl now), houtput.available_eq now (le_refl now)]
    exact .separated hrequests (hinput.setCapacity _ now) (houtput.setCapacity _ now)

theorem AgreesFrom.backoff (h : AgreesFrom now strategy strategy') (time : Rat) :
    AgreesFrom time (strategy.backoff time) (strategy'.backoff time) := by
  cases h with
  | unified hrequests htokens => exact .unified (hrequests.setCapacity 0 time) (htokens.setCapacity 0 time)
  | separated hrequests hinput houtput =>
    exact .separated (hrequests.setCapacity 0 time) (hinput.setCapacity 0 time) (houtput.setCapacity 0 time)

/-- The results of two checks: the same error, or the same answer over strategies that agree. -/
inductive SameResult (now : Rat) :
    Except String (Bool × TokenRateLimitStrategy) → Except String (Bool × TokenRateLimitStrategy) → Prop where
  | error (message : String) : SameResult now (.error message) (.error message)
  | ok {answer : Bool} {strategy strategy' : TokenRateLimitStrategy} (h : AgreesFrom now strategy strategy') :
      SameResult now (.ok (answer, strategy)) (.ok (answer, strategy'))

/-- **A check cannot tell strategies that agree apart.** -/
theorem AgreesFrom.check (h : AgreesFrom now strategy strategy') (tokenEstimate : TokenEstimate) :
    SameResult now (strategy.checkAndConsumeRateLimit tokenEstimate now)
      (strategy'.checkAndConsumeRateLimit tokenEstimate now) := by
  cases h with
  | @unified rpm tpm requests requests' tokens tokens' hrequests htokens =>
    unfold TokenRateLimitStrategy.checkAndConsumeRateLimit UnifiedTokenRateLimitStrategy.checkAndConsumeRateLimit
      UnifiedTokenRateLimitStrategy.checkMaxRateLimits
    dsimp only
    rw [hrequests.available_eq now (le_refl now), htokens.available_eq now (le_refl now)]
    by_cases hmax : tpm < tokenEstimate.totalTokens
    · rw [if_pos hmax]
      exact .error _
    · rw [if_neg hmax]
      split
      · exact .ok (.unified (hrequests.setCapacity _ now) (htokens.setCapacity _ now))
      · exact .ok (.unified hrequests htokens)
  | @separated rpm inputTpm outputTpm requests requests' input input' output output' hrequests hinput houtput =>
    unfold TokenRateLimitStrategy.checkAndConsumeRateLimit SeparatedTokenRateLimitStrategy.checkAndConsumeRateLimit
      SeparatedTokenRateLimitStrategy.checkMaxRateLimits
    dsimp only
    rw [hrequests.available_eq now (le_refl now), hinput.available_eq now (le_refl now),
      houtput.available_eq now (le_refl now)]
    by_cases hinputMax : inputTpm < tokenEstimate.inputTokens
    · rw [if_pos hinputMax]
      exact .error _
    · rw [if_neg hinputMax]
      by_cases houtputMax : outputTpm < tokenEstimate.outputTokens
      · rw [if_pos houtputMax]
        exact .error _
      · rw [if_neg houtputMax]
        split
        · exact .ok (.separated (hrequests.setCapacity _ now) (hinput.setCapacity _ now) (houtput.setCapacity _ now))
        · exact .ok (.separated hrequests hinput houtput)

/-- A settlement of what was reserved loses nothing. -/
def Whole (now : Rat) : TokenRateLimitStrategy → Prop
  | .unified strategy => strategy.unifiedTokensBucket.Whole now
  | .separated strategy => strategy.inputTokensBucket.Whole now ∧ strategy.outputTokensBucket.Whole now

instance (now : Rat) : (strategy : TokenRateLimitStrategy) → Decidable (strategy.Whole now)
  | .unified _ => inferInstanceAs (Decidable (RateLimitBucket.Whole _ _))
  | .separated _ => inferInstanceAs (Decidable (_ ∧ _))

theorem agreesFrom_settle {clock : Rat} (h : strategy.InBounds clock) (hnow : clock ≤ now) (hwhole : strategy.Whole now)
    (reserved : TokenEstimate) : AgreesFrom now (strategy.settle reserved reserved now) strategy := by
  -- what is available needs no clamping
  have hclamp : ∀ {bucket : RateLimitBucket} {limit tokens : Int}, bucket.InBounds limit clock →
      min limit (max 0 (bucket.getAvailableCapacity now + (tokens - tokens))) = bucket.getAvailableCapacity now := by
    intro bucket limit tokens hbucket
    have havailable := hbucket.available hnow
    omega
  cases strategy with
  | unified strategy =>
    unfold TokenRateLimitStrategy.settle UnifiedTokenRateLimitStrategy.settle
    dsimp only
    rw [hclamp h.2]
    exact .unified (.refl _ _) (RateLimitBucket.agreesFrom_setCapacity h.2 hwhole)
  | separated strategy =>
    unfold TokenRateLimitStrategy.settle SeparatedTokenRateLimitStrategy.settle
    dsimp only
    rw [hclamp h.2.1, hclamp h.2.2]
    exact .separated (.refl _ _) (RateLimitBucket.agreesFrom_setCapacity h.2.1 hwhole.1)
      (RateLimitBucket.agreesFrom_setCapacity h.2.2 hwhole.2)

end TokenRateLimitStrategy

/-! ## Runs with settlements in between -/

/-- A call of a run, or a settlement of what was reserved that is put in between. -/
inductive SettledCall where
  | given (call : RateLimitCall)
  | inserted (reserved : TokenEstimate) (now : Rat)

namespace SettledCall

/-- The call that is made. -/
def toCall : SettledCall → RateLimitCall
  | .given call => call
  | .inserted reserved now => .settle reserved reserved now

/-- The call of the run without the settlements. -/
def original : SettledCall → Option RateLimitCall
  | .given call => some call
  | .inserted _ _ => none

end SettledCall

/-- A step of the run with the settlements. -/
def settledStep (state : RateLimitState) (event : SettledCall) : Option RateLimitState := rateLimitStep state event.toCall

/-- The settlements that are put in between find whole tokens. -/
def WholeAtInsertion (state : RateLimitState) : SettledCall → Prop
  | .given _ => True
  | .inserted _ now => state.strategy.Whole now

instance (state : RateLimitState) : (event : SettledCall) → Decidable (WholeAtInsertion state event)
  | .given _ => inferInstanceAs (Decidable True)
  | .inserted _ now => inferInstanceAs (Decidable (state.strategy.Whole now))

/-- Two states with the same answers so far, over strategies that agree. -/
structure SameState (state state' : RateLimitState) : Prop where
  clock_eq : state.clock = state'.clock
  agrees : TokenRateLimitStrategy.AgreesFrom state.clock state.strategy state'.strategy
  answers_eq : state.answers = state'.answers

variable {state state' : RateLimitState}

/-- A check of states that agree gives states that agree. -/
theorem RateLimitState.check_same {now : Rat}
    (hagrees : TokenRateLimitStrategy.AgreesFrom now state.strategy state'.strategy)
    (hanswers : state.answers = state'.answers) (tokenEstimate : TokenEstimate) :
    SameState (state.check tokenEstimate now) (state'.check tokenEstimate now) := by
  have hsame := hagrees.check tokenEstimate
  unfold RateLimitState.check
  rw [hanswers]
  generalize state.strategy.checkAndConsumeRateLimit tokenEstimate now = result at hsame ⊢
  generalize state'.strategy.checkAndConsumeRateLimit tokenEstimate now = result' at hsame ⊢
  cases hsame with
  | error message => exact ⟨rfl, hagrees, rfl⟩
  | ok h => exact ⟨rfl, h, rfl⟩

/-- The run without the settlements is behind in its clock only. -/
structure SameRun (state state' : RateLimitState) : Prop where
  inBounds : state.strategy.InBounds state.clock
  clock_le : state'.clock ≤ state.clock
  agrees : TokenRateLimitStrategy.AgreesFrom state.clock state.strategy state'.strategy
  answers_eq : state.answers = state'.answers

theorem SameRun.of_sameState (hinBounds : state.strategy.InBounds state.clock)
    (h : SameState state state') : SameRun state state' :=
  ⟨hinBounds, h.clock_eq.ge, h.agrees, h.answers_eq⟩

/-- A call of both runs. -/
theorem SameRun.given {next : RateLimitState} {call : RateLimitCall} (h : SameRun state state')
    (hstep : rateLimitStep state call = some next) : ∃ next', rateLimitStep state' call = some next' ∧ SameRun next next' := by
  have hinBounds := inBounds_step h.inBounds hstep
  obtain ⟨htime, hvalid, -, hcases⟩ := rateLimitStep_cases hstep
  have henabled : ¬ (call.time < state'.clock ∨ ¬ call.Valid) := by
    rintro (hlate | hinvalid)
    · exact absurd (h.clock_le.trans htime) (not_le.mpr hlate)
    · exact hinvalid hvalid
  have hagrees := h.agrees.later htime
  unfold rateLimitStep
  rw [if_neg henabled]
  rcases hcases with ⟨tokenEstimate, now, rfl, rfl⟩ | ⟨reserved, actual, now, rfl, rfl⟩ | ⟨now, rfl, rfl⟩
  · exact ⟨_, rfl, .of_sameState hinBounds (RateLimitState.check_same hagrees h.answers_eq tokenEstimate)⟩
  · exact ⟨_, rfl, .of_sameState hinBounds ⟨rfl, hagrees.settle reserved actual, h.answers_eq⟩⟩
  · exact ⟨_, rfl, .of_sameState hinBounds ⟨rfl, hagrees.backoff now, h.answers_eq⟩⟩

/-- A settlement that is put in between. -/
theorem SameRun.inserted {next : RateLimitState} {reserved : TokenEstimate} {now : Rat} (h : SameRun state state')
    (hwhole : state.strategy.Whole now) (hstep : rateLimitStep state (.settle reserved reserved now) = some next) :
    SameRun next state' := by
  have hinBounds := inBounds_step h.inBounds hstep
  obtain ⟨htime, -, -, hcases⟩ := rateLimitStep_cases hstep
  rcases hcases with ⟨_, _, heq, -⟩ | ⟨_, _, _, heq, rfl⟩ | ⟨_, heq, -⟩
  · cases heq
  · cases heq
    exact ⟨hinBounds, h.clock_le.trans htime,
      (TokenRateLimitStrategy.agreesFrom_settle h.inBounds htime hwhole reserved).trans (h.agrees.later htime), h.answers_eq⟩
  · cases heq

/-- The two runs, side by side. -/
theorem SameRun.run {events : List SettledCall} {final : RateLimitState} (h : SameRun state state')
    (hrun : Transition.run settledStep state events = some final)
    (hwhole : Transition.Along settledStep WholeAtInsertion state events) :
    ∃ final', Transition.run rateLimitStep state' (events.filterMap SettledCall.original) = some final' ∧
      SameRun final final' := by
  induction events generalizing state state' with
  | nil =>
    cases hrun
    exact ⟨state', rfl, h⟩
  | cons event events ih =>
    obtain ⟨next, hstep, hrest⟩ := Transition.run_cons.mp hrun
    obtain ⟨hevent, hwhole'⟩ := (Transition.along_cons hstep).mp hwhole
    cases event with
    | given call =>
      obtain ⟨next', hstep', hnext⟩ := h.given hstep
      obtain ⟨final', hrun', hfinal⟩ := ih hnext hrest hwhole'
      exact ⟨final', Transition.run_cons.mpr ⟨next', hstep', hrun'⟩, hfinal⟩
    | inserted reserved now => exact ih (h.inserted hevent hstep) hrest hwhole'

/-- 60 requests and 60 tokens a minute: one of each in a second. -/
def slowLimiter : UnifiedTokenRateLimitStrategy := ⟨60, 60, RateLimitBucket.new 60 0, RateLimitBucket.new 60 0⟩

theorem slowLimiter_started : TokenRateLimitStrategy.Started (.unified slowLimiter) 0 := by
  have hnew : UnifiedTokenRateLimitStrategy.new 60 60 0 0 = .ok slowLimiter := rfl
  exact .unified hnew (by decide) (le_refl 0) (le_refl 0)

/-- All tokens are taken, and one is asked for a second later. A settlement stands in between. -/
def settledRun (settledAt : Rat) : List SettledCall :=
  [.given (.check ⟨40, 20⟩ 0), .inserted ⟨5, 0⟩ settledAt, .given (.check ⟨1, 0⟩ 1)]

end RateLimit

end Fenic
