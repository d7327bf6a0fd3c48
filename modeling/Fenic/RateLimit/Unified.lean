import Fenic.Lib.Transition
import Fenic.RateLimit.Bucket
import Mathlib.Algebra.BigOperators.Group.List.Basic

/-!
# `RateLimit.Unified` — the limiter with one bucket of tokens

`UnifiedTokenRateLimitStrategy` keeps a bucket of requests and a bucket of tokens. A run is a sequence of its calls
under a clock that does not go back, with a record of the requests it admitted. In every run, what was admitted
within the first seconds, less what was refunded within them, is covered by one capacity and the refill
(`admitted_bounded`).
-/

namespace Fenic

namespace RateLimit

/-! ## The strategy -/

structure TokenEstimate where
  inputTokens : Int
  outputTokens : Int
  deriving DecidableEq

def TokenEstimate.totalTokens (estimate : TokenEstimate) : Int :=
  estimate.inputTokens + estimate.outputTokens

structure UnifiedTokenRateLimitStrategy where
  rpm : Int
  tpm : Int
  requestsBucket : RateLimitBucket
  unifiedTokensBucket : RateLimitBucket
  deriving DecidableEq

namespace UnifiedTokenRateLimitStrategy

/-- `__init__`. The two buckets read the clock one after the other. -/
def new (rpm tpm : Int) (now now' : Rat) : Except String UnifiedTokenRateLimitStrategy :=
  if rpm ≤ 0 then .error "rpm must be greater than 0"
  else .ok ⟨rpm, tpm, RateLimitBucket.new rpm now, RateLimitBucket.new tpm now'⟩

/-- `_check_max_rate_limits`. -/
def checkMaxRateLimits (strategy : UnifiedTokenRateLimitStrategy) (tokenEstimate : TokenEstimate) : Except String Unit :=
  if strategy.tpm < tokenEstimate.totalTokens then
    .error s!"Insufficient capacity to handle the request. TPM limit is {strategy.tpm} but request requires an estimated {tokenEstimate.totalTokens} tokens.  Please configure the model with more capacity."
  else .ok ()

def checkAndConsumeRateLimit (strategy : UnifiedTokenRateLimitStrategy) (tokenEstimate : TokenEstimate) (now : Rat) :
    Except String (Bool × UnifiedTokenRateLimitStrategy) := do
  strategy.checkMaxRateLimits tokenEstimate
  let availableTokens := strategy.unifiedTokensBucket.getAvailableCapacity now
  let availableRequests := strategy.requestsBucket.getAvailableCapacity now
  if 1 ≤ availableRequests ∧ tokenEstimate.totalTokens ≤ availableTokens then
    return (true,
      { strategy with
        unifiedTokensBucket := strategy.unifiedTokensBucket.setCapacity (availableTokens - tokenEstimate.totalTokens) now
        requestsBucket := strategy.requestsBucket.setCapacity (availableRequests - 1) now })
  return (false, strategy)

def settle (strategy : UnifiedTokenRateLimitStrategy) (reserved actual : TokenEstimate) (now : Rat) :
    UnifiedTokenRateLimitStrategy :=
  let delta := reserved.totalTokens - actual.totalTokens
  let available := strategy.unifiedTokensBucket.getAvailableCapacity now
  { strategy with
    unifiedTokensBucket :=
      strategy.unifiedTokensBucket.setCapacity (min strategy.tpm (max 0 (available + delta))) now }

def backoff (strategy : UnifiedTokenRateLimitStrategy) (currTime : Rat) : UnifiedTokenRateLimitStrategy :=
  { strategy with
    unifiedTokensBucket := strategy.unifiedTokensBucket.setCapacity 0 currTime
    requestsBucket := strategy.requestsBucket.setCapacity 0 currTime }

end UnifiedTokenRateLimitStrategy

/-! ## Runs -/

/-- An admitted request, with its settlement. -/
structure Admission where
  time : Rat
  reserved : TokenEstimate
  settlement : Option (Rat × TokenEstimate)
  deriving DecidableEq

structure LimiterState where
  strategy : UnifiedTokenRateLimitStrategy
  clock : Rat
  admissions : List Admission
  deriving DecidableEq

/-- A call, with the time its reading of the clock gives. -/
inductive LimiterAction where
  | check (tokenEstimate : TokenEstimate) (now : Rat)
  /-- The settlement of an admitted request, by its position. -/
  | settle (request : Nat) (actual : TokenEstimate) (now : Rat)
  | backoff (now : Rat)
  deriving DecidableEq

def LimiterAction.time : LimiterAction → Rat
  | .check _ now => now
  | .settle _ _ now => now
  | .backoff now => now

/-- A check. A check that raises leaves the strategy as it is. -/
def LimiterState.check (state : LimiterState) (tokenEstimate : TokenEstimate) (now : Rat) : LimiterState :=
  match state.strategy.checkAndConsumeRateLimit tokenEstimate now with
  | .error _ => { state with clock := now }
  | .ok (true, strategy) => ⟨strategy, now, state.admissions ++ [⟨now, tokenEstimate, none⟩]⟩
  | .ok (false, strategy) => ⟨strategy, now, state.admissions⟩

/-- The settlement of a request that is not settled yet, for no more than was reserved. -/
def LimiterState.settle (state : LimiterState) (request : Nat) (actual : TokenEstimate) (now : Rat) :
    Option LimiterState :=
  match state.admissions[request]? with
  | none => none
  | some admission =>
    if admission.settlement = none ∧ 0 ≤ actual.totalTokens ∧ actual.totalTokens ≤ admission.reserved.totalTokens then
      some ⟨state.strategy.settle admission.reserved actual now, now,
        state.admissions.set request { admission with settlement := some (now, actual) }⟩
    else none

/-- A step of the limiter; the clock does not go back. -/
def limiterStep (state : LimiterState) (action : LimiterAction) : Option LimiterState :=
  if action.time < state.clock then none
  else match action with
    | .check tokenEstimate now => some (state.check tokenEstimate now)
    | .settle request actual now => state.settle request actual now
    | .backoff now => some ⟨state.strategy.backoff now, now, state.admissions⟩

/-! ## What was admitted -/

/-- What a settlement gave back within the deadline. -/
def Admission.refundedTokens (deadline : Rat) (admission : Admission) : Int :=
  match admission.settlement with
  | none => 0
  | some (time, actual) => if time ≤ deadline then admission.reserved.totalTokens - actual.totalTokens else 0

/-- Reserved tokens minus refunded tokens, of a request admitted within the deadline. -/
def Admission.netTokens (deadline : Rat) (admission : Admission) : Int :=
  if admission.time ≤ deadline then admission.reserved.totalTokens - admission.refundedTokens deadline else 0

def Admission.requests (deadline : Rat) (admission : Admission) : Int :=
  if admission.time ≤ deadline then 1 else 0

def LimiterState.netTokens (state : LimiterState) (deadline : Rat) : Int :=
  (state.admissions.map (Admission.netTokens deadline)).sum

/-- The number of requests admitted within the deadline. -/
def LimiterState.admittedRequests (state : LimiterState) (deadline : Rat) : Int :=
  (state.admissions.map (Admission.requests deadline)).sum

theorem sum_map_set {α : Type} (f : α → Int) {xs : List α} {i : Nat} {x : α} (hx : xs[i]? = some x) (y : α) :
    ((xs.set i y).map f).sum = (xs.map f).sum - f x + f y := by
  induction xs generalizing i with
  | nil => cases hx
  | cons first xs ih =>
    cases i with
    | zero =>
      cases hx
      rw [List.set_cons_zero, List.map_cons, List.map_cons, List.sum_cons, List.sum_cons]
      omega
    | succ i =>
      rw [List.set_cons_succ, List.map_cons, List.map_cons, List.sum_cons, List.sum_cons, ih hx]
      omega

variable {admission : Admission}

/-- An unsettled request within the deadline counts in full. -/
theorem Admission.netTokens_unsettled {deadline : Rat} (hsettlement : admission.settlement = none)
    (htime : admission.time ≤ deadline) : admission.netTokens deadline = admission.reserved.totalTokens := by
  unfold Admission.netTokens Admission.refundedTokens
  rw [if_pos htime, hsettlement]
  exact Int.sub_zero _

variable {now : Rat} {actual : TokenEstimate}

/-- A request settled within the deadline counts with what it used. -/
theorem Admission.netTokens_settled {deadline : Rat}
    (hnow : now ≤ deadline) (htime : admission.time ≤ deadline) :
    ({ admission with settlement := some (now, actual) } : Admission).netTokens deadline = actual.totalTokens := by
  unfold Admission.netTokens Admission.refundedTokens
  rw [if_pos htime]
  simp only [if_pos hnow]
  omega

/-- A settlement after the deadline changes nothing. -/
theorem Admission.netTokens_late {deadline : Rat}
    (hsettlement : admission.settlement = none) (hnow : deadline < now) :
    ({ admission with settlement := some (now, actual) } : Admission).netTokens deadline = admission.netTokens deadline := by
  unfold Admission.netTokens Admission.refundedTokens
  rw [hsettlement]
  simp only [if_neg (not_le.mpr hnow)]

theorem admittedRequests_admitted {deadline : Rat} (state : LimiterState) (strategy : UnifiedTokenRateLimitStrategy)
    (now : Rat) (tokenEstimate : TokenEstimate) :
    LimiterState.admittedRequests ⟨strategy, now, state.admissions ++ [⟨now, tokenEstimate, none⟩]⟩ deadline =
      state.admittedRequests deadline + if now ≤ deadline then 1 else 0 := by
  unfold LimiterState.admittedRequests
  rw [List.map_append, List.sum_append, List.map_singleton, List.sum_singleton]
  rfl

theorem netTokens_admitted {deadline : Rat} (state : LimiterState) (strategy : UnifiedTokenRateLimitStrategy) (now : Rat)
    (tokenEstimate : TokenEstimate) :
    LimiterState.netTokens ⟨strategy, now, state.admissions ++ [⟨now, tokenEstimate, none⟩]⟩ deadline =
      state.netTokens deadline + if now ≤ deadline then tokenEstimate.totalTokens else 0 := by
  unfold LimiterState.netTokens
  rw [List.map_append, List.sum_append, List.map_singleton, List.sum_singleton]
  have hnew : Admission.netTokens deadline ⟨now, tokenEstimate, none⟩ =
      if now ≤ deadline then tokenEstimate.totalTokens else 0 := by
    unfold Admission.netTokens Admission.refundedTokens
    rw [Int.sub_zero]
  rw [hnew]

variable {state : LimiterState} {request : Nat}

theorem admittedRequests_settle {deadline : Rat} {strategy : UnifiedTokenRateLimitStrategy}
    (hadmission : state.admissions[request]? = some admission)
    {settlement : Option (Rat × TokenEstimate)} :
    LimiterState.admittedRequests
      ⟨strategy, now, state.admissions.set request { admission with settlement := settlement }⟩ deadline =
      state.admittedRequests deadline := by
  unfold LimiterState.admittedRequests
  rw [sum_map_set (Admission.requests deadline) hadmission]
  have hsame : Admission.requests deadline { admission with settlement := settlement } =
      admission.requests deadline := rfl
  omega

theorem netTokens_settle {deadline : Rat} {strategy : UnifiedTokenRateLimitStrategy}
    {admission' : Admission}
    (hadmission : state.admissions[request]? = some admission) :
    LimiterState.netTokens ⟨strategy, now, state.admissions.set request admission'⟩ deadline =
      state.netTokens deadline - admission.netTokens deadline + admission'.netTokens deadline := by
  exact sum_map_set (Admission.netTokens deadline) hadmission admission'

/-! ## The invariant -/

variable {rpm tpm : Int} {start deadline : Rat}

/-- Both buckets cover what was admitted up to the deadline. -/
structure Accounted (rpm tpm : Int) (start deadline : Rat) (state : LimiterState) : Prop where
  strategyCapacity : state.strategy.tpm = tpm
  requestsCapacity : state.strategy.requestsBucket.maxCapacity = rpm
  tokensCapacity : state.strategy.unifiedTokensBucket.maxCapacity = tpm
  requestsClock : state.strategy.requestsBucket.lastUpdateTime ≤ state.clock
  tokensClock : state.strategy.unifiedTokensBucket.lastUpdateTime ≤ state.clock
  admitted : ∀ admission ∈ state.admissions, admission.time ≤ state.clock
  requests : state.strategy.requestsBucket.Covers start deadline (state.admittedRequests deadline)
  tokens : state.strategy.unifiedTokensBucket.Covers start deadline (state.netTokens deadline)

theorem Accounted.later (h : Accounted rpm tpm start deadline state)
    (hnow : state.clock ≤ now) : Accounted rpm tpm start deadline { state with clock := now } where
  strategyCapacity := h.strategyCapacity
  requestsCapacity := h.requestsCapacity
  tokensCapacity := h.tokensCapacity
  requestsClock := h.requestsClock.trans hnow
  tokensClock := h.tokensClock.trans hnow
  admitted := fun admission hmem => (h.admitted admission hmem).trans hnow
  requests := h.requests
  tokens := h.tokens

/-- What a check does: it raises, or admits and takes the request from both buckets, or leaves the strategy. -/
theorem check_cases (state : LimiterState) (tokenEstimate : TokenEstimate) (now : Rat) :
    state.check tokenEstimate now = { state with clock := now } ∨
    (1 ≤ state.strategy.requestsBucket.getAvailableCapacity now ∧
      tokenEstimate.totalTokens ≤ state.strategy.unifiedTokensBucket.getAvailableCapacity now ∧
      state.check tokenEstimate now =
        ⟨{ state.strategy with
            unifiedTokensBucket := state.strategy.unifiedTokensBucket.setCapacity
              (state.strategy.unifiedTokensBucket.getAvailableCapacity now - tokenEstimate.totalTokens) now
            requestsBucket := state.strategy.requestsBucket.setCapacity
              (state.strategy.requestsBucket.getAvailableCapacity now - 1) now },
          now, state.admissions ++ [⟨now, tokenEstimate, none⟩]⟩) := by
  unfold LimiterState.check UnifiedTokenRateLimitStrategy.checkAndConsumeRateLimit
    UnifiedTokenRateLimitStrategy.checkMaxRateLimits
  by_cases hmax : state.strategy.tpm < tokenEstimate.totalTokens
  · left
    rw [if_pos hmax]
    rfl
  · rw [if_neg hmax]
    by_cases hcapacity : 1 ≤ state.strategy.requestsBucket.getAvailableCapacity now ∧
        tokenEstimate.totalTokens ≤ state.strategy.unifiedTokensBucket.getAvailableCapacity now
    · right
      refine ⟨hcapacity.1, hcapacity.2, ?_⟩
      simp only [bind, Except.bind, if_pos hcapacity, pure, Except.pure]
    · left
      simp only [bind, Except.bind, if_neg hcapacity, pure, Except.pure]

theorem Accounted.check (hrpm : 0 ≤ rpm) (htpm : 0 ≤ tpm)
    (h : Accounted rpm tpm start deadline state) (tokenEstimate : TokenEstimate)
    (hnow : state.clock ≤ now) : Accounted rpm tpm start deadline (state.check tokenEstimate now) := by
  rcases check_cases state tokenEstimate now with heq | ⟨hrequest, htokens, heq⟩
  · rw [heq]
    exact h.later hnow
  · rw [heq]
    have hlast : ∀ admission ∈ state.admissions ++ [⟨now, tokenEstimate, none⟩], admission.time ≤ now := by
      intro admission hmem
      rcases List.mem_append.mp hmem with hmem | hmem
      · exact (h.admitted admission hmem).trans hnow
      · rw [List.mem_singleton.mp hmem]
    have hrpm' : 0 ≤ state.strategy.requestsBucket.maxCapacity := by
      rw [h.requestsCapacity]
      exact hrpm
    have htpm' : 0 ≤ state.strategy.unifiedTokensBucket.maxCapacity := by
      rw [h.tokensCapacity]
      exact htpm
    refine ⟨h.strategyCapacity, h.requestsCapacity, h.tokensCapacity, le_refl now, le_refl now, hlast, ?_, ?_⟩
    · refine h.requests.setCapacity hrpm' (h.requestsClock.trans hnow) (by omega) (fun hbefore => ?_) (fun hlate => ?_)
      · rw [admittedRequests_admitted, if_pos hbefore]
        omega
      · rw [admittedRequests_admitted, if_neg (not_le.mpr hlate)]
        exact add_zero _
    · refine h.tokens.setCapacity htpm' (h.tokensClock.trans hnow) (by omega) (fun hbefore => ?_) (fun hlate => ?_)
      · rw [netTokens_admitted, if_pos hbefore]
        omega
      · rw [netTokens_admitted, if_neg (not_le.mpr hlate)]
        exact add_zero _

variable {state' : LimiterState}

theorem settle_cases
    (hstep : state.settle request actual now = some state') :
    ∃ admission, state.admissions[request]? = some admission ∧ admission.settlement = none ∧
      0 ≤ actual.totalTokens ∧ actual.totalTokens ≤ admission.reserved.totalTokens ∧
      state' = ⟨state.strategy.settle admission.reserved actual now, now,
        state.admissions.set request { admission with settlement := some (now, actual) }⟩ := by
  unfold LimiterState.settle at hstep
  cases hadmission : state.admissions[request]? with
  | none =>
    rw [hadmission] at hstep
    cases hstep
  | some admission =>
    simp only [hadmission] at hstep
    split at hstep
    · rename_i hguard
      exact ⟨admission, rfl, hguard.1, hguard.2.1, hguard.2.2, (Option.some.inj hstep).symm⟩
    · cases hstep

theorem Accounted.settle (htpm : 0 ≤ tpm)
    (h : Accounted rpm tpm start deadline state)
    (hnow : state.clock ≤ now) (hstep : state.settle request actual now = some state') :
    Accounted rpm tpm start deadline state' := by
  obtain ⟨admission, hadmission, hsettlement, hactual, hreserved, rfl⟩ := settle_cases hstep
  have hmem : admission ∈ state.admissions := List.mem_of_getElem? hadmission
  have htime : admission.time ≤ now := (h.admitted admission hmem).trans hnow
  have htpm' : 0 ≤ state.strategy.unifiedTokensBucket.maxCapacity := by
    rw [h.tokensCapacity]
    exact htpm
  have hlast := h.tokensClock.trans hnow
  have havailable := RateLimitBucket.getAvailableCapacity_nonneg htpm' h.tokens.capacity_nonneg hlast
  refine ⟨h.strategyCapacity, h.requestsCapacity, h.tokensCapacity, h.requestsClock.trans hnow, le_refl now, ?_, ?_, ?_⟩
  · intro admission' hmem'
    rcases List.mem_or_eq_of_mem_set hmem' with hmem' | rfl
    · exact (h.admitted admission' hmem').trans hnow
    · exact htime
  · rw [admittedRequests_settle hadmission]
    exact h.requests
  · refine h.tokens.setCapacity htpm' hlast (le_min ?_ (le_max_left _ _)) (fun hbefore => ?_) (fun hlate => ?_)
    · rw [h.strategyCapacity]
      exact htpm
    · rw [netTokens_settle hadmission, Admission.netTokens_settled hbefore (htime.trans hbefore),
        Admission.netTokens_unsettled hsettlement (htime.trans hbefore)]
      omega
    · rw [netTokens_settle hadmission, Admission.netTokens_late hsettlement hlate]
      omega

theorem Accounted.backoff (hrpm : 0 ≤ rpm) (htpm : 0 ≤ tpm)
    (h : Accounted rpm tpm start deadline state) (hnow : state.clock ≤ now) :
    Accounted rpm tpm start deadline ⟨state.strategy.backoff now, now, state.admissions⟩ := by
  have hrpm' : 0 ≤ state.strategy.requestsBucket.maxCapacity := by
    rw [h.requestsCapacity]
    exact hrpm
  have htpm' : 0 ≤ state.strategy.unifiedTokensBucket.maxCapacity := by
    rw [h.tokensCapacity]
    exact htpm
  have hrequests := RateLimitBucket.getAvailableCapacity_nonneg hrpm' h.requests.capacity_nonneg (h.requestsClock.trans hnow)
  have htokens := RateLimitBucket.getAvailableCapacity_nonneg htpm' h.tokens.capacity_nonneg (h.tokensClock.trans hnow)
  -- what is dropped from the buckets is not spent
  have hemptied : (state.strategy.requestsBucket.setCapacity 0 now).Covers start deadline
      (state.admittedRequests deadline) :=
    h.requests.setCapacity hrpm' (h.requestsClock.trans hnow) (le_refl 0) (fun _ => by omega) (fun _ => rfl)
  have hemptied' : (state.strategy.unifiedTokensBucket.setCapacity 0 now).Covers start deadline
      (state.netTokens deadline) :=
    h.tokens.setCapacity htpm' (h.tokensClock.trans hnow) (le_refl 0) (fun _ => by omega) (fun _ => rfl)
  exact ⟨h.strategyCapacity, h.requestsCapacity, h.tokensCapacity, le_refl now, le_refl now,
    fun admission hmem => (h.admitted admission hmem).trans hnow, hemptied, hemptied'⟩

theorem Accounted.step (hrpm : 0 ≤ rpm) (htpm : 0 ≤ tpm) (action : LimiterAction)
    (h : Accounted rpm tpm start deadline state) (hstep : limiterStep state action = some state') :
    Accounted rpm tpm start deadline state' := by
  unfold limiterStep at hstep
  by_cases hclock : action.time < state.clock
  · rw [if_pos hclock] at hstep
    cases hstep
  · rw [if_neg hclock] at hstep
    have hnow : state.clock ≤ action.time := not_lt.mp hclock
    cases action with
    | check tokenEstimate now =>
      cases hstep
      exact h.check hrpm htpm tokenEstimate hnow
    | settle request actual now => exact h.settle htpm hnow hstep
    | backoff now =>
      cases hstep
      exact h.backoff hrpm htpm hnow

/-! ## The bound -/

/-- A new limiter at the time its buckets are made. -/
def LimiterState.init (strategy : UnifiedTokenRateLimitStrategy) (now : Rat) : LimiterState :=
  ⟨strategy, now, []⟩

/-- What is admitted in the first `elapsed` seconds of any run, less what is refunded in them, is at most one
capacity and the refill of that time, in tokens and in requests. -/
theorem admitted_bounded {rpm tpm : Int} {now now' : Rat} {strategy : UnifiedTokenRateLimitStrategy}
    (hnew : UnifiedTokenRateLimitStrategy.new rpm tpm now now' = .ok strategy) (htpm : 0 < tpm) (hclock : now ≤ now')
    {actions : List LimiterAction} {state : LimiterState}
    (hrun : Transition.run limiterStep (LimiterState.init strategy now') actions = some state) {elapsed : Rat}
    (helapsed : 0 ≤ elapsed) :
    (state.netTokens (now + elapsed) : Rat) ≤ tpm + tpm * elapsed / 60 ∧
      (state.admittedRequests (now + elapsed) : Rat) ≤ rpm + rpm * elapsed / 60 := by
  unfold UnifiedTokenRateLimitStrategy.new at hnew
  by_cases hrpm : rpm ≤ 0
  · rw [if_pos hrpm] at hnew
    cases hnew
  · rw [if_neg hrpm] at hnew
    cases hnew
    have hrpm' : 0 ≤ rpm := by omega
    have hstart : now ≤ now + elapsed := le_add_of_nonneg_right helapsed
    have hinit : Accounted rpm tpm now (now + elapsed)
        (LimiterState.init ⟨rpm, tpm, RateLimitBucket.new rpm now, RateLimitBucket.new tpm now'⟩ now') :=
      ⟨rfl, rfl, rfl, hclock, le_refl now', fun _ hmem => absurd hmem List.not_mem_nil,
        RateLimitBucket.covers_new hrpm' (le_refl now) hstart, RateLimitBucket.covers_new htpm.le hclock hstart⟩
    have hfinal := Transition.invariant_run (fun s a s' hs h => hs.step hrpm' htpm.le a h) hinit hrun
    have hduration : now + elapsed - now = elapsed := add_sub_cancel_left now elapsed
    have htokens := hfinal.tokens.spent_le (by rw [hfinal.tokensCapacity]; exact htpm.le)
    have hrequests := hfinal.requests.spent_le (by rw [hfinal.requestsCapacity]; exact hrpm')
    unfold RateLimitBucket.allowance minuteInSeconds at htokens hrequests
    rw [hduration, hfinal.tokensCapacity] at htokens
    rw [hduration, hfinal.requestsCapacity] at hrequests
    exact ⟨htokens, hrequests⟩

/-- Two requests of 600 tokens: the second has to wait for the refund of the first. -/
def refundedRun : List LimiterAction :=
  [.check ⟨500, 100⟩ 0, .check ⟨500, 100⟩ 1, .settle 0 ⟨80, 20⟩ 2, .check ⟨500, 100⟩ 3, .backoff 4]

/-- A limiter of 60 requests and 1000 tokens a minute. -/
def smallLimiter : UnifiedTokenRateLimitStrategy :=
  ⟨60, 1000, RateLimitBucket.new 60 0, RateLimitBucket.new 1000 0⟩

/-- In five seconds the run admits two requests, with 700 tokens in all. -/
theorem refundedRun_bounded :
    ∃ state, Transition.run limiterStep (LimiterState.init smallLimiter 0) refundedRun = some state ∧
      state.netTokens (0 + 5) = 700 ∧ state.admittedRequests (0 + 5) = 2 ∧
      (state.netTokens (0 + 5) : Rat) ≤ (1000 : Int) + (1000 : Int) * 5 / 60 ∧
      (state.admittedRequests (0 + 5) : Rat) ≤ (60 : Int) + (60 : Int) * 5 / 60 := by
  have hnew : UnifiedTokenRateLimitStrategy.new 60 1000 0 0 = .ok smallLimiter := rfl
  have hruns : (Transition.run limiterStep (LimiterState.init smallLimiter 0) refundedRun).map
      (fun state => (state.netTokens (0 + 5), state.admittedRequests (0 + 5))) = some (700, 2) := by decide +kernel
  obtain ⟨state, hrun, hadmitted⟩ := Option.map_eq_some_iff.mp hruns
  obtain ⟨htokens, hrequests⟩ := Prod.mk.inj hadmitted
  exact ⟨state, hrun, htokens, hrequests, admitted_bounded hnew (by decide) (le_refl 0) hrun (by decide)⟩

end RateLimit

end Fenic
