import Mathlib.Algebra.Order.Floor.Ring
import Mathlib.Data.Rat.Floor
import Mathlib.Tactic.Linarith
import Mathlib.Tactic.Ring

/-!
# `RateLimit.Bucket` — a token bucket and what it pays for

A bucket starts full and refills in proportion to the time since its last update, rounded down and clamped at its
capacity. Times are rational numbers of seconds.

`Covers` is the potential argument: what has been spent up to a deadline and what is left in the bucket are
together at most one capacity and the refill since the start. Every update that takes no less from the bucket than
it adds to the expenses keeps it (`Covers.setCapacity`).
-/

namespace Fenic

namespace RateLimit

/-- `MINUTE_IN_SECONDS`. -/
def minuteInSeconds : Rat := 60

structure RateLimitBucket where
  maxCapacity : Int
  currentCapacity : Int
  lastUpdateTime : Rat
  deriving DecidableEq

namespace RateLimitBucket

def new (maxCapacity : Int) (now : Rat) : RateLimitBucket :=
  ⟨maxCapacity, maxCapacity, now⟩

/-- `_get_available_capacity`. -/
def getAvailableCapacity (bucket : RateLimitBucket) (currTime : Rat) : Int :=
  min (⌊bucket.maxCapacity * (currTime - bucket.lastUpdateTime) / minuteInSeconds⌋ + bucket.currentCapacity)
    bucket.maxCapacity

/-- `_set_capacity`. -/
def setCapacity (bucket : RateLimitBucket) (capacity : Int) (currTime : Rat) : RateLimitBucket :=
  { bucket with currentCapacity := capacity, lastUpdateTime := currTime }

variable {bucket : RateLimitBucket} {now : Rat}

/-- Time only adds to what is available. -/
theorem getAvailableCapacity_nonneg (hmax : 0 ≤ bucket.maxCapacity)
    (hcurrent : 0 ≤ bucket.currentCapacity) (hnow : bucket.lastUpdateTime ≤ now) :
    0 ≤ bucket.getAvailableCapacity now := by
  have hmax' : (0 : Rat) ≤ bucket.maxCapacity := Int.cast_nonneg hmax
  have helapsed : 0 ≤ now - bucket.lastUpdateTime := sub_nonneg.mpr hnow
  have hrefill : 0 ≤ ⌊bucket.maxCapacity * (now - bucket.lastUpdateTime) / minuteInSeconds⌋ :=
    Int.floor_nonneg.mpr (div_nonneg (mul_nonneg hmax' helapsed) (by decide))
  exact le_min (add_nonneg hrefill hcurrent) hmax

/-- The refill is at most the elapsed share of the capacity. -/
theorem getAvailableCapacity_le (bucket : RateLimitBucket) (now : Rat) :
    (bucket.getAvailableCapacity now : Rat) ≤
      bucket.maxCapacity * (now - bucket.lastUpdateTime) / minuteInSeconds + bucket.currentCapacity := by
  have hfloor := Int.floor_le (bucket.maxCapacity * (now - bucket.lastUpdateTime) / minuteInSeconds)
  have hmin : bucket.getAvailableCapacity now ≤
      ⌊bucket.maxCapacity * (now - bucket.lastUpdateTime) / minuteInSeconds⌋ + bucket.currentCapacity :=
    min_le_left _ _
  have hcast : (bucket.getAvailableCapacity now : Rat) ≤
      ⌊bucket.maxCapacity * (now - bucket.lastUpdateTime) / minuteInSeconds⌋ + bucket.currentCapacity := by
    exact_mod_cast hmin
  linarith

/-- At the time of an update the bucket holds what was set. -/
theorem getAvailableCapacity_setCapacity {capacity : Int} (hle : capacity ≤ bucket.maxCapacity) (now : Rat) :
    (bucket.setCapacity capacity now).getAvailableCapacity now = capacity := by
  unfold getAvailableCapacity setCapacity
  simp [hle]

/-! ## Expenses -/

/-- One capacity and the refill of a time. -/
def allowance (bucket : RateLimitBucket) (elapsed : Rat) : Rat :=
  bucket.maxCapacity + bucket.maxCapacity * elapsed / minuteInSeconds

/-- What was spent up to the deadline and what is left are covered by the allowance since the start. After the
deadline the content of the bucket does not count. -/
structure Covers (start deadline : Rat) (spent : Int) (bucket : RateLimitBucket) : Prop where
  capacity_nonneg : 0 ≤ bucket.currentCapacity
  before : bucket.lastUpdateTime ≤ deadline →
    (spent : Rat) + bucket.currentCapacity ≤ bucket.allowance (bucket.lastUpdateTime - start)
  after : deadline < bucket.lastUpdateTime → (spent : Rat) ≤ bucket.allowance (deadline - start)

theorem allowance_mono (hmax : 0 ≤ bucket.maxCapacity) {elapsed elapsed' : Rat}
    (h : elapsed ≤ elapsed') : bucket.allowance elapsed ≤ bucket.allowance elapsed' := by
  have hmax' : (0 : Rat) ≤ bucket.maxCapacity := Int.cast_nonneg hmax
  have hmul : bucket.maxCapacity * elapsed / minuteInSeconds ≤ bucket.maxCapacity * elapsed' / minuteInSeconds :=
    div_le_div_of_nonneg_right (mul_le_mul_of_nonneg_left h hmax') (by decide)
  unfold allowance
  linarith

variable {start deadline : Rat}

/-- Up to the deadline, the expenses are at most the allowance. -/
theorem Covers.spent_le {spent : Int}
    (h : Covers start deadline spent bucket) (hmax : 0 ≤ bucket.maxCapacity) :
    (spent : Rat) ≤ bucket.allowance (deadline - start) := by
  by_cases hlast : bucket.lastUpdateTime ≤ deadline
  · have hcapacity : (0 : Rat) ≤ bucket.currentCapacity := Int.cast_nonneg h.capacity_nonneg
    have hbefore := h.before hlast
    have hmono := allowance_mono hmax (sub_le_sub_right hlast start)
    linarith
  · exact h.after (not_le.mp hlast)

/-- A new bucket covers nothing. -/
theorem covers_new {maxCapacity : Int} (hmax : 0 ≤ maxCapacity) (hstart : start ≤ now)
    (hdeadline : start ≤ deadline) : Covers start deadline 0 (new maxCapacity now) := by
  have hzero : (new maxCapacity now).allowance 0 = maxCapacity := by
    unfold allowance new
    ring
  have hnonneg : (0 : Rat) ≤ maxCapacity := Int.cast_nonneg hmax
  refine ⟨hmax, fun _ => ?_, fun _ => ?_⟩
  · have hmono : (new maxCapacity now).allowance 0 ≤ (new maxCapacity now).allowance (now - start) :=
      allowance_mono hmax (sub_nonneg.mpr hstart)
    rw [hzero] at hmono
    rw [Int.cast_zero, zero_add]
    exact hmono
  · have hmono : (new maxCapacity now).allowance 0 ≤ (new maxCapacity now).allowance (deadline - start) :=
      allowance_mono hmax (sub_nonneg.mpr hdeadline)
    rw [hzero] at hmono
    exact hnonneg.trans hmono

/-- An update keeps the cover when, up to the deadline, the expenses grow by no more than what it takes from the
bucket, and not at all after the deadline. -/
theorem Covers.setCapacity {spent spent' : Int}
    (h : Covers start deadline spent bucket) (hmax : 0 ≤ bucket.maxCapacity)
    (hnow : bucket.lastUpdateTime ≤ now) {capacity : Int} (hcapacity : 0 ≤ capacity)
    (hpaid : now ≤ deadline → spent' + capacity ≤ spent + bucket.getAvailableCapacity now)
    (hlate : deadline < now → spent' = spent) : Covers start deadline spent' (bucket.setCapacity capacity now) := by
  refine ⟨hcapacity, fun hbefore => ?_, fun hafter => ?_⟩
  · have hpaid' : (spent' : Rat) + capacity ≤ spent + bucket.getAvailableCapacity now := by
      exact_mod_cast hpaid hbefore
    have hcover := h.before (hnow.trans hbefore)
    have hrefill := getAvailableCapacity_le bucket now
    -- the refill extends the allowance from the last update to now
    have hextend : bucket.maxCapacity * (now - bucket.lastUpdateTime) / minuteInSeconds +
        bucket.allowance (bucket.lastUpdateTime - start) = bucket.allowance (now - start) := by
      unfold allowance
      ring
    calc (spent' : Rat) + capacity
        ≤ spent + bucket.getAvailableCapacity now := hpaid'
      _ ≤ bucket.allowance (now - start) := by linarith
  · rw [hlate hafter]
    exact h.spent_le hmax

end RateLimitBucket

end RateLimit

end Fenic
