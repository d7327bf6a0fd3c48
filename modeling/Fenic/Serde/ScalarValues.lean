import Fenic.Expressions.Values
import Fenic.Lib.Rounding
import Fenic.SemanticOperators.JsonText
import Mathlib.Data.Rat.Floor
import Mathlib.Tactic.NormNum

/-!
# `Serde.ScalarValues` — Python values as protobuf messages

`datetime.timestamp` writes a moment as one double of seconds, and `datetime.fromtimestamp` splits it again and rounds
the fraction to microseconds. A double has 53 binary digits, and next to 2^33 seconds its neighbours are more than a
microsecond apart. From there on a moment comes back only if some double lies close enough to it.

`SerdeContext.serialize_scalar_value` writes the literals of a plan, and `deserialize_scalar_value` reads them. An
integer goes into a field of 32 bits, a date is written as its ordinal, a datetime as the double of its timestamp, and
a dict as a list of named fields in the order of their names.
-/

namespace Fenic

namespace Serde

open Rounding

/-- A double, as a result of the arithmetic. None of the numbers here is near the ends of its range. -/
def toDouble (x : Rat) : Rat := nearest 53 x

/-- `seconds - epoch + microsecond / 1e6`. -/
def naiveTimestamp (seconds : Int) (microsecond : Nat) : Rat :=
  toDouble (seconds + toDouble (microsecond / 10 ^ 6))

/-- `timedelta.total_seconds`, with one rounding. -/
def totalSeconds (microseconds : Int) : Rat := toDouble (microseconds / 10 ^ 6)

/-- The integral part of `modf`. -/
def integralPart (x : Rat) : Int := if 0 ≤ x then ⌊x⌋ else ⌈x⌉

/-- The microseconds of the fraction, before they are brought into their range. -/
def fractionMicroseconds (x : Rat) : Int := halfEven (toDouble ((x - integralPart x) * 10 ^ 6))

/-- Seconds and microseconds of a timestamp. -/
def toTimeval (x : Rat) : Int × Int :=
  let seconds := integralPart x
  let microseconds := fractionMicroseconds x
  if 10 ^ 6 ≤ microseconds then (seconds + 1, microseconds - 10 ^ 6)
  else if microseconds < 0 then (seconds - 1, microseconds + 10 ^ 6)
  else (seconds, microseconds)

/-- Some double of the magnitude of the moment has it as its nearest microsecond. -/
def NearDouble (microseconds : Int) : Prop :=
  ∃ k : Int, halfEven ((k : Rat) * spacing 53 ((microseconds : Rat) / 10 ^ 6) * 10 ^ 6) = microseconds

/-! ## The fraction -/

theorem integralPart_lt (x : Rat) : |x - integralPart x| < 1 := by
  unfold integralPart
  split_ifs with h
  · have h1 := Int.floor_le x
    have h2 := Int.lt_floor_add_one x
    rw [abs_of_nonneg (by linarith)]
    linarith
  · have h1 := Int.le_ceil x
    have h2 := Int.ceil_lt_add_one x
    rw [abs_of_nonpos (by linarith)]
    linarith

theorem fraction_lt (x : Rat) : |(x - integralPart x) * 10 ^ 6| < 10 ^ 6 := by
  rw [abs_mul, abs_of_pos (show (0 : Rat) < 10 ^ 6 by norm_num)]
  have h := integralPart_lt x
  linarith

theorem fraction_rounding (x : Rat) :
    |(x - integralPart x) * 10 ^ 6 - toDouble ((x - integralPart x) * 10 ^ 6)| ≤ 1 / 2 ^ 34 := by
  have hlt : |(x - integralPart x) * 10 ^ 6| < 2 ^ (20 : Int) := by
    apply (fraction_lt x).trans
    norm_num
  apply (abs_sub_nearest_of_lt (p := 53) hlt).trans
  norm_num

theorem abs_fractionMicroseconds_le (x : Rat) : |fractionMicroseconds x| ≤ 10 ^ 6 := by
  have h1 := fraction_lt x
  have h2 := fraction_rounding x
  have h3 := abs_sub_halfEven (toDouble ((x - integralPart x) * 10 ^ 6))
  have hlt : |(fractionMicroseconds x : Rat)| < 10 ^ 6 + 1 := by
    obtain ⟨h1l, h1r⟩ := abs_lt.mp h1
    obtain ⟨h2l, h2r⟩ := abs_le.mp h2
    obtain ⟨h3l, h3r⟩ := abs_le.mp h3
    unfold fractionMicroseconds
    generalize halfEven (toDouble ((x - integralPart x) * 10 ^ 6)) = n at *
    rw [abs_lt]
    constructor <;> linarith
  have hcast : |fractionMicroseconds x| < 10 ^ 6 + 1 := by exact_mod_cast hlt
  omega

/-- The two parts make up all microseconds, and the second is in its range. -/
theorem toTimeval_spec (x : Rat) :
    (toTimeval x).1 * 10 ^ 6 + (toTimeval x).2 = integralPart x * 10 ^ 6 + fractionMicroseconds x ∧
      0 ≤ (toTimeval x).2 ∧ (toTimeval x).2 < 10 ^ 6 := by
  have h := abs_fractionMicroseconds_le x
  rw [abs_le] at h
  unfold toTimeval
  dsimp only
  split_ifs <;> refine ⟨?_, ?_, ?_⟩ <;> dsimp only <;> omega

/-- A moment comes back when its microseconds are all there. -/
theorem toTimeval_eq_iff (x : Rat) (seconds : Int) (microsecond : Nat) (h : microsecond < 10 ^ 6) :
    toTimeval x = (seconds, (microsecond : Int)) ↔
      integralPart x * 10 ^ 6 + fractionMicroseconds x = seconds * 10 ^ 6 + microsecond := by
  obtain ⟨htotal, hnonneg, hlt⟩ := toTimeval_spec x
  rw [← htotal]
  constructor
  · intro heq
    rw [heq]
  · intro heq
    apply Prod.ext <;> dsimp only <;> omega

/-! ## The double of a moment -/

/-- The microseconds of a second as a double: off by the last digit at most, below one, and zero only for zero. -/
theorem microsecond_double {microsecond : Nat} (h : microsecond < 10 ^ 6) :
    |(microsecond : Rat) / 10 ^ 6 - toDouble (microsecond / 10 ^ 6)| ≤ 1 / 2 ^ 54 ∧
      0 ≤ toDouble (microsecond / 10 ^ 6) ∧ toDouble (microsecond / 10 ^ 6) < 1 ∧
      (0 < toDouble ((microsecond : Rat) / 10 ^ 6) ↔ 0 < (microsecond : Rat) / 10 ^ 6) := by
  have hbound : (microsecond : Rat) + 1 ≤ 10 ^ 6 := by exact_mod_cast h
  have herror : |(microsecond : Rat) / 10 ^ 6 - toDouble (microsecond / 10 ^ 6)| ≤ 1 / 2 ^ 54 := by
    have hlt : |(microsecond : Rat) / 10 ^ 6| < 2 ^ (0 : Int) := by
      rw [abs_of_nonneg (by positivity), zpow_zero, div_lt_one (by norm_num)]
      linarith
    apply (abs_sub_nearest_of_lt (p := 53) hlt).trans
    norm_num
  obtain ⟨hlow, hhigh⟩ := abs_le.mp herror
  have hone : toDouble (microsecond / 10 ^ 6) < 1 := by
    linarith
  cases microsecond with
  | zero => simp [toDouble]
  | succ n =>
    have hpos : 0 < toDouble (((n + 1 : Nat) : Rat) / 10 ^ 6) := by
      have hv : 1 / 10 ^ 6 ≤ ((n + 1 : Nat) : Rat) / 10 ^ 6 := by
        apply div_le_div_of_nonneg_right _ (by norm_num)
        exact_mod_cast Nat.le_add_left 1 n
      linarith
    have hexact : (0 : Rat) < ((n + 1 : Nat) : Rat) / 10 ^ 6 := by positivity
    exact ⟨herror, hpos.le, hone, iff_of_true hpos hexact⟩

/-- Between two integers it only matters whether there is a fraction. -/
theorem abs_add_lt_iff {s n : Int} {u : Rat} (hnonneg : 0 ≤ u) (hlt : u < 1) :
    |(s : Rat) + u| < n ↔ s < n ∧ (-n < s ∨ -n = s ∧ 0 < u) := by
  rw [abs_lt, and_comm]
  apply and_congr
  · constructor
    · intro h
      have hcast : (s : Rat) < n := by linarith
      exact_mod_cast hcast
    · intro h
      have hcast : (s : Rat) + 1 ≤ n := by exact_mod_cast h
      linarith
  · constructor
    · intro h
      have hcast : (-n : Rat) < s + 1 := by linarith
      have hle : -n < s + 1 := by exact_mod_cast hcast
      rcases (Int.lt_add_one_iff.mp hle).lt_or_eq with hless | heq
      · exact Or.inl hless
      · right
        refine ⟨heq, ?_⟩
        have hs : (s : Rat) = -n := by rw [← heq]; push_cast; rfl
        linarith
    · rintro (h | ⟨rfl, h⟩)
      · have hcast : (-n : Rat) < s := by exact_mod_cast h
        linarith
      · push_cast
        linarith

/-- Numbers with the same integers above them have their neighbours at the same distance. -/
theorem spacing_eq {x y : Rat} (hx : 1 ≤ |x|) (h : ∀ n : Int, |x| < n ↔ |y| < n) : spacing 53 x = spacing 53 y := by
  have hy : 1 ≤ |y| := by
    by_contra hlt
    have h1 := (h 1).mpr (by exact_mod_cast not_le.mp hlt)
    rw [Int.cast_one] at h1
    linarith
  have hlog : ∀ {a b : Rat}, 1 ≤ |a| → 1 ≤ |b| → (∀ n : Int, |a| < n → |b| < n) →
      Int.log 2 |b| ≤ Int.log 2 |a| := by
    intro a b ha hb hab
    have hnonneg : 0 ≤ Int.log 2 |a| := by
      apply (Int.zpow_le_iff_le_log (R := Rat) one_lt_two (by linarith)).mp
      exact ha
    obtain ⟨d, hd⟩ := Int.eq_ofNat_of_zero_le hnonneg
    have hbelow : |b| < ((2 ^ (d + 1) : Int) : Rat) := by
      apply hab
      have hself := Int.lt_zpow_succ_log_self (R := Rat) one_lt_two |a|
      rw [hd] at hself
      exact_mod_cast hself
    have hlt : Int.log 2 |b| < d + 1 := by
      apply (Int.lt_zpow_iff_log_lt (R := Rat) one_lt_two (by linarith)).mp
      exact_mod_cast hbelow
    omega
  have heq : Int.log 2 |x| = Int.log 2 |y| :=
    le_antisymm (hlog hy hx fun n => (h n).mpr) (hlog hx hy fun n => (h n).mp)
  rw [spacing, spacing, heq]

/-! ## There and back -/

/-- Splitting a coarse double rounds nothing but the microseconds. -/
theorem split_coarse (k : Int) {e : Int} (he : -19 ≤ e) :
    integralPart ((k : Rat) * 2 ^ e) * 10 ^ 6 + fractionMicroseconds ((k : Rat) * 2 ^ e) =
      halfEven ((k : Rat) * 2 ^ e * 10 ^ 6) := by
  obtain ⟨d, hd⟩ := Int.eq_ofNat_of_zero_le (show 0 ≤ e + 19 by omega)
  have hx : (k : Rat) * 2 ^ e = ((k * 2 ^ d : Int) : Rat) * 2 ^ (-19 : Int) := by
    rw [show e = d + -19 by omega, zpow_add₀ two_ne_zero, zpow_natCast]
    push_cast
    ring
  rw [hx]
  generalize k * 2 ^ d = n
  have hfraction := integralPart_lt ((n : Rat) * 2 ^ (-19 : Int))
  generalize hip : integralPart ((n : Rat) * 2 ^ (-19 : Int)) = i at hfraction
  -- the fraction has 19 binary digits, and 20 more for the microseconds
  have hdigits : ((n : Rat) * 2 ^ (-19 : Int) - i) * 10 ^ 6 = (((n - i * 2 ^ 19) * 10 ^ 6 : Int) : Rat) * 2 ^ (-19 : Int) := by
    push_cast
    norm_num
    ring
  have hsmall : |(n - i * 2 ^ 19) * 10 ^ 6| < 2 ^ 53 := by
    have hcast : |((n - i * 2 ^ 19 : Int) : Rat)| < 2 ^ 19 := by
      have hscale : ((n - i * 2 ^ 19 : Int) : Rat) = ((n : Rat) * 2 ^ (-19 : Int) - i) * 2 ^ 19 := by
        push_cast
        norm_num
        ring
      rw [hscale, abs_mul, abs_of_pos (show (0 : Rat) < 2 ^ 19 by norm_num)]
      linarith
    have hint : |n - i * 2 ^ 19| < 2 ^ 19 := by exact_mod_cast hcast
    rw [abs_mul, abs_of_pos (show (0 : Int) < 10 ^ 6 by norm_num)]
    omega
  have hexact : toDouble (((n : Rat) * 2 ^ (-19 : Int) - i) * 10 ^ 6) = ((n : Rat) * 2 ^ (-19 : Int) - i) * 10 ^ 6 := by
    rw [hdigits]
    exact nearest_eq_self hsmall
  have heven : Even (i * 10 ^ 6) := ⟨i * 500000, by ring⟩
  have hwhole : (n : Rat) * 2 ^ (-19 : Int) * 10 ^ 6 =
      ((n : Rat) * 2 ^ (-19 : Int) - i) * 10 ^ 6 + ((i * 10 ^ 6 : Int) : Rat) := by
    push_cast
    ring
  rw [hwhole, halfEven_add_even _ heven, fractionMicroseconds, hip, hexact, Int.add_comm]

/-- A double within 0.48 microseconds of the moment gives it back. -/
theorem split_close {x : Rat} {m : Int} (h : |x - m / 10 ^ 6| ≤ 1 / 2 ^ 21 + 1 / 2 ^ 54) :
    integralPart x * 10 ^ 6 + fractionMicroseconds x = m := by
  have hrounding := fraction_rounding x
  have hfraction : fractionMicroseconds x = m - integralPart x * 10 ^ 6 := by
    apply halfEven_eq_of_abs_lt
    have hscaled : |(x - integralPart x) * 10 ^ 6 - ((m - integralPart x * 10 ^ 6 : Int) : Rat)| ≤
        (1 / 2 ^ 21 + 1 / 2 ^ 54) * 10 ^ 6 := by
      have heq : (x - integralPart x) * 10 ^ 6 - ((m - integralPart x * 10 ^ 6 : Int) : Rat) = (x - m / 10 ^ 6) * 10 ^ 6 := by
        push_cast
        ring
      rw [heq, abs_mul, abs_of_pos (show (0 : Rat) < 10 ^ 6 by norm_num)]
      exact mul_le_mul_of_nonneg_right h (by norm_num)
    have hsum : (1 / 2 ^ 21 + 1 / 2 ^ 54) * 10 ^ 6 + 1 / 2 ^ 34 < (1 : Rat) / 2 := by norm_num
    rw [abs_sub_comm] at hrounding
    have htriangle := abs_sub_le (toDouble ((x - integralPart x) * 10 ^ 6)) ((x - integralPart x) * 10 ^ 6)
      ((m - integralPart x * 10 ^ 6 : Int) : Rat)
    exact lt_of_le_of_lt htriangle (by linarith only [hrounding, hscaled, hsum])
  omega

section
variable (seconds : Int) {microsecond : Nat}

theorem moment_eq : ((seconds * 10 ^ 6 + microsecond : Int) : Rat) / 10 ^ 6 = seconds + microsecond / 10 ^ 6 := by
  push_cast
  ring

/-- The moment and the sum of the two doubles have the same integers above them. -/
theorem moment_lt_iff (h : microsecond < 10 ^ 6) (n : Int) :
    |(seconds : Rat) + microsecond / 10 ^ 6| < (n : Rat) ↔
      |(seconds : Rat) + toDouble (microsecond / 10 ^ 6)| < (n : Rat) := by
  obtain ⟨-, hnonneg, hlt, hpos⟩ := microsecond_double h
  have hv : (microsecond : Rat) / 10 ^ 6 < 1 := by
    rw [div_lt_one (by norm_num)]
    exact_mod_cast h
  rw [abs_add_lt_iff (by positivity) hv, abs_add_lt_iff hnonneg hlt, hpos]

/-- Within 2^33 seconds of the epoch a moment comes back. -/
theorem split_naiveTimestamp_near (h : microsecond < 10 ^ 6) (hnear : |(seconds : Rat) + microsecond / 10 ^ 6| < 2 ^ 33) :
    integralPart (naiveTimestamp seconds microsecond) * 10 ^ 6 + fractionMicroseconds (naiveTimestamp seconds microsecond) =
      seconds * 10 ^ 6 + microsecond := by
  obtain ⟨herror, -⟩ := microsecond_double h
  have hsum : |(seconds : Rat) + toDouble (microsecond / 10 ^ 6)| < 2 ^ (33 : Int) := by
    have hiff := (moment_lt_iff seconds h (2 ^ 33)).mp (by exact_mod_cast hnear)
    exact_mod_cast hiff
  have hround := abs_sub_nearest_of_lt (p := 53) hsum
  apply split_close
  rw [moment_eq, abs_sub_comm]
  have htriangle := abs_sub_le ((seconds : Rat) + microsecond / 10 ^ 6) (seconds + toDouble (microsecond / 10 ^ 6))
    (naiveTimestamp seconds microsecond)
  have hshift : (seconds : Rat) + microsecond / 10 ^ 6 - (seconds + toDouble (microsecond / 10 ^ 6)) =
      microsecond / 10 ^ 6 - toDouble (microsecond / 10 ^ 6) := by ring
  rw [hshift] at htriangle
  have hhalf : (2 : Rat) ^ ((33 : Int) - (53 : Nat)) / 2 = 1 / 2 ^ 21 := by norm_num
  rw [hhalf] at hround
  exact htriangle.trans (by rw [add_comm]; exact add_le_add hround herror)

/-- Further away it comes back exactly when some double is near. -/
theorem split_naiveTimestamp_far (h : microsecond < 10 ^ 6) (hfar : 2 ^ 33 ≤ |(seconds : Rat) + microsecond / 10 ^ 6|) :
    integralPart (naiveTimestamp seconds microsecond) * 10 ^ 6 + fractionMicroseconds (naiveTimestamp seconds microsecond) =
        seconds * 10 ^ 6 + microsecond ↔
      NearDouble (seconds * 10 ^ 6 + microsecond) := by
  obtain ⟨herror, -⟩ := microsecond_double h
  have hspacing : spacing 53 ((seconds : Rat) + microsecond / 10 ^ 6) =
      spacing 53 ((seconds : Rat) + toDouble (microsecond / 10 ^ 6)) := by
    apply spacing_eq _ (moment_lt_iff seconds h)
    linarith
  have hexponent : 33 ≤ Int.log 2 |(seconds : Rat) + microsecond / 10 ^ 6| := by
    apply (Int.zpow_le_iff_le_log (R := Rat) one_lt_two (by linarith)).mp
    exact_mod_cast hfar
  unfold NearDouble
  rw [moment_eq]
  -- the timestamp is a multiple of the spacing
  obtain ⟨k, hk⟩ : ∃ k : Int, naiveTimestamp seconds microsecond =
      k * spacing 53 ((seconds : Rat) + microsecond / 10 ^ 6) := by
    rw [hspacing]
    exact exists_nearest_eq _
  have hsplit : integralPart (naiveTimestamp seconds microsecond) * 10 ^ 6 +
      fractionMicroseconds (naiveTimestamp seconds microsecond) = halfEven (naiveTimestamp seconds microsecond * 10 ^ 6) := by
    rw [hk, spacing]
    apply split_coarse
    push_cast
    omega
  rw [hsplit, hk]
  constructor
  · intro heq
    exact ⟨k, heq⟩
  · rintro ⟨k', hk'⟩
    -- a multiple that is so near is the nearest one
    have hsame : k = k' := by
      by_contra hne
      have hwide : 1 / 2 ^ 19 ≤ spacing 53 ((seconds : Rat) + microsecond / 10 ^ 6) := by
        rw [spacing, show (1 : Rat) / 2 ^ 19 = 2 ^ (-19 : Int) by norm_num]
        apply zpow_le_zpow_right₀ one_le_two
        push_cast
        omega
      have hnearest := abs_sub_nearest_le (p := 53) ((seconds : Rat) + toDouble (microsecond / 10 ^ 6)) k'
      rw [← hspacing] at hnearest
      change |(seconds : Rat) + toDouble (microsecond / 10 ^ 6) - naiveTimestamp seconds microsecond| ≤ _ at hnearest
      rw [hk] at hnearest
      generalize spacing 53 ((seconds : Rat) + microsecond / 10 ^ 6) = step at *
      have hhalf := abs_sub_halfEven ((k' : Rat) * step * 10 ^ 6)
      rw [hk'] at hhalf
      have happart : step ≤ |(k : Rat) * step - k' * step| := by
        have hstep : 0 < step := lt_of_lt_of_le (by norm_num) hwide
        have hone : (1 : Rat) ≤ |((k - k' : Int) : Rat)| := by
          have hint : 1 ≤ |k - k'| := Int.one_le_abs (sub_ne_zero.mpr hne)
          exact_mod_cast hint
        rw [← sub_mul, abs_mul, abs_of_pos hstep]
        push_cast at hone
        exact le_mul_of_one_le_left hstep.le hone
      have hclose : |(seconds : Rat) + toDouble (microsecond / 10 ^ 6) - k' * step| ≤ 1 / 2 ^ 54 + 1 / 2 / 10 ^ 6 := by
        obtain ⟨herrorl, herrorr⟩ := abs_le.mp herror
        obtain ⟨hhalfl, hhalfr⟩ := abs_le.mp hhalf
        push_cast at hhalfl hhalfr
        generalize toDouble ((microsecond : Rat) / 10 ^ 6) = f at *
        rw [abs_le]
        constructor <;> linarith
      have hgap := abs_sub_le ((k : Rat) * step) (seconds + toDouble (microsecond / 10 ^ 6)) (k' * step)
      rw [abs_sub_comm ((k : Rat) * step) (seconds + toDouble (microsecond / 10 ^ 6))] at hgap
      have hcontra : 2 * ((1 : Rat) / 2 ^ 54 + 1 / 2 / 10 ^ 6) < 1 / 2 ^ 19 := by norm_num
      linarith only [happart, hgap, hnearest, hclose, hwide, hcontra]
    rw [hsame]
    exact hk'

/-- Near the epoch some double is always near. -/
theorem nearDouble_of_near {m : Int} (h : |m| < 2 ^ 33 * 10 ^ 6) : NearDouble m := by
  have hlt : |(m : Rat) / 10 ^ 6| < 2 ^ (33 : Int) := by
    rw [abs_div, abs_of_pos (show (0 : Rat) < 10 ^ 6 by norm_num), div_lt_iff₀ (by norm_num)]
    exact_mod_cast h
  have herror := abs_sub_nearest_of_lt (p := 53) hlt
  obtain ⟨k, hk⟩ := exists_nearest_eq (p := 53) ((m : Rat) / 10 ^ 6)
  refine ⟨k, ?_⟩
  rw [← hk]
  apply halfEven_eq_of_abs_lt
  have hscaled : nearest 53 ((m : Rat) / 10 ^ 6) * 10 ^ 6 - (m : Rat) =
      (nearest 53 ((m : Rat) / 10 ^ 6) - (m : Rat) / 10 ^ 6) * 10 ^ 6 := by
    ring
  rw [hscaled, abs_mul, abs_of_pos (show (0 : Rat) < 10 ^ 6 by norm_num), abs_sub_comm]
  have hstep : (2 : Rat) ^ ((33 : Int) - (53 : Nat)) / 2 * 10 ^ 6 < 1 / 2 := by norm_num
  exact lt_of_le_of_lt (mul_le_mul_of_nonneg_right herror (by norm_num)) hstep

/-- A timestamp gives back its seconds and microseconds exactly when some double is near the moment. -/
theorem toTimeval_naiveTimestamp_iff (h : microsecond < 10 ^ 6) :
    toTimeval (naiveTimestamp seconds microsecond) = (seconds, (microsecond : Int)) ↔
      NearDouble (seconds * 10 ^ 6 + microsecond) := by
  rw [toTimeval_eq_iff _ _ _ h]
  by_cases hnear : |(seconds : Rat) + microsecond / 10 ^ 6| < 2 ^ 33
  · apply iff_of_true (split_naiveTimestamp_near seconds h hnear)
    apply nearDouble_of_near
    rw [← moment_eq, abs_div, abs_of_pos (show (0 : Rat) < 10 ^ 6 by norm_num), div_lt_iff₀ (by norm_num)] at hnear
    exact_mod_cast hnear
  · exact split_naiveTimestamp_far seconds h (not_lt.mp hnear)

end

/-! ## Python values as protobuf messages -/

open Expressions (PyFloat)

open SemanticOperators (PyString pyString)

/-! ## Dates and times -/

/-- The time zone of the machine. A wall-clock time is given in seconds of 1970 as if it were UTC. A conversion raises
    where it leaves the years of a `datetime`. -/
structure LocalZone where
  /-- The wall-clock time of a moment, and whether it is shown for the second time. -/
  localtime : Int → Option (Int × Bool)
  /-- The moment of a wall-clock time. The flag picks the second of two. -/
  mktime : Int → Bool → Option Int
  /-- The flag tells apart the two moments of a wall-clock time. -/
  localtime_injective : ∀ {moment moment' shown}, localtime moment = some shown → localtime moment' = some shown →
    moment = moment'
  /-- A wall-clock time that some moment shows is converted to a moment that shows it. -/
  localtime_mktime : ∀ {wall fold moment moment' fold'}, mktime wall fold = some moment →
    localtime moment' = some (wall, fold') → ∃ fold'', localtime moment = some (wall, fold'')

/-- `datetime.date`, as its ordinal. -/
abbrev Date := {n : Int // 1 ≤ n ∧ n ≤ 3652059}

/-- `datetime.datetime`. The time zone is given by its offset from UTC in microseconds. -/
structure DateTime where
  wall : Int
  microsecond : Fin 1000000
  fold : Bool
  utcoffset : Option Int
  deriving DecidableEq

/-- Microseconds of UTC, or of the wall clock if there is no time zone. -/
def DateTime.microseconds (d : DateTime) : Int := d.wall * 10 ^ 6 + d.microsecond - d.utcoffset.getD 0

/-- What Python and protobuf raise here. -/
inductive Cause where
  | valueOutOfRange (value : Int)
  | surrogates
  | nameIsNoText
  | keysNotComparable
  | yearOutOfRange
  | ordinalOutOfRange (value : Int)
  | timestampNotFinite
  deriving DecidableEq

/-- `datetime.timestamp`. -/
def timestamp (zone : LocalZone) (d : DateTime) : Except Cause PyFloat :=
  match d.utcoffset with
  | some _ => .ok (.finite (totalSeconds d.microseconds))
  | none =>
    match zone.mktime d.wall d.fold with
    | some moment => .ok (.finite (naiveTimestamp moment d.microsecond))
    | none => .error .yearOutOfRange

/-- The datetime without a time zone that the wall clock shows. -/
def fromTimeval (zone : LocalZone) (timeval : Int × Int) : Except Cause DateTime :=
  match zone.localtime timeval.1 with
  | some (wall, fold) => .ok ⟨wall, Fin.ofNat 1000000 timeval.2.toNat, fold, none⟩
  | none => .error .yearOutOfRange

/-- `datetime.fromtimestamp`. -/
def fromtimestamp (zone : LocalZone) : PyFloat → Except Cause DateTime
  | .finite x => fromTimeval zone (toTimeval x)
  | .negativeZero => fromTimeval zone (0, 0)
  | .infinity _ => .error .timestampNotFinite
  | .nan => .error .timestampNotFinite

/-- `date.fromordinal`. -/
def fromordinal (n : Int) : Except Cause Date :=
  if h : 1 ≤ n ∧ n ≤ 3652059 then .ok ⟨n, h⟩ else .error (.ordinalOutOfRange n)

/-! ## Python values -/

/-- A value without parts. These may also be the keys of a dict. -/
inductive Scalar where
  | null
  | str (s : PyString)
  | bool (b : Bool)
  | int (n : Int)
  | float (x : PyFloat)
  | bytes (b : List UInt8)
  | datetime (d : DateTime)
  | date (d : Date)
  deriving DecidableEq

inductive PyValue where
  | scalar (s : Scalar)
  | list (items : List PyValue)
  | dict (fields : List (Scalar × PyValue))
  /-- A value of another type. -/
  | other (typeName : PyString)

/-- The number that a key is compared as. -/
def Scalar.number? : Scalar → Option PyFloat
  | .bool b => some (.finite (if b then 1 else 0))
  | .int n => some (.finite n)
  | .float x => some x
  | _ => none

/-- `float.__lt__`. -/
def floatLt : PyFloat → PyFloat → Bool
  | .finite q, .finite r => q < r
  | .finite q, .negativeZero => q < 0
  | .negativeZero, .finite r => 0 < r
  | .infinity true, .infinity false => true
  | .infinity true, .finite _ => true
  | .infinity true, .negativeZero => true
  | .finite _, .infinity false => true
  | .negativeZero, .infinity false => true
  | _, _ => false

/-- `<` of two keys, which raises for most types that differ. -/
def Scalar.lt? : Scalar → Scalar → Option Bool
  | .str s, .str s' => some (s < s')
  | .bytes b, .bytes b' => some (b < b')
  | .date d, .date d' => some (d.val < d'.val)
  | .datetime d, .datetime d' =>
    if d.utcoffset.isSome = d'.utcoffset.isSome then some (d.microseconds < d'.microseconds) else none
  | key, key' =>
    match key.number?, key'.number? with
    | some x, some x' => some (floatLt x x')
    | _, _ => none

/-! ## Messages -/

/-- The values of a field of type `int32`. -/
abbrev Int32Value := {n : Int // -2 ^ 31 ≤ n ∧ n < 2 ^ 31}

/-- `ScalarValueProto`. A `string` field holds no surrogates. -/
inductive ScalarValue where
  | unset
  | stringValue (s : PyString)
  | intValue (n : Int32Value)
  | doubleValue (x : PyFloat)
  | boolValue (b : Bool)
  | bytesValue (b : List UInt8)
  | arrayValue (elements : List ScalarValue)
  | structValue (fields : List (PyString × ScalarValue))
  | dateValue (n : Int32Value)
  | timestampValue (x : PyFloat)

/-- Setting a field of type `int32`. -/
def setInt32 (n : Int) : Except Cause Int32Value :=
  if h : -2 ^ 31 ≤ n ∧ n < 2 ^ 31 then .ok ⟨n, h⟩ else .error (.valueOutOfRange n)

def IsSurrogate (c : Nat) : Prop := 0xd800 ≤ c ∧ c ≤ 0xdfff

instance : DecidablePred IsSurrogate := fun c => inferInstanceAs (Decidable (0xd800 ≤ c ∧ c ≤ 0xdfff))

/-- Setting a field of type `string`. -/
def setString (s : PyString) : Except Cause PyString :=
  if ∀ c ∈ s, ¬ IsSurrogate c then .ok s else .error .surrogates

/-! ## Errors -/

/-- What leaves the two functions. -/
inductive SerdeError where
  /-- `SerializationError` for a type that is not supported, with its field path. The path is empty if there is none. -/
  | unsupportedType (typeName : PyString) (fieldPath : PyString)
  /-- An exception of another kind, and the paths that its message was extended by. -/
  | raised (cause : Cause) (paths : List PyString)

/-- `current_path`. -/
def currentPath (stack : List PyString) : PyString := ['.'.toNat].intercalate stack

/-- `_handle_serde_error`. -/
def SerdeError.handle (stack : List PyString) : SerdeError → SerdeError
  | .unsupportedType typeName fieldPath =>
    .unsupportedType typeName (if fieldPath ≠ [] then fieldPath else currentPath stack)
  | .raised cause paths => .raised cause (if currentPath stack ≠ [] then paths ++ [currentPath stack] else paths)

/-- `with self.path_context(...): try: ... except Exception as e: self._handle_serde_error(e)`. -/
def handleSerdeError {α : Type} (stack : List PyString) (body : Except SerdeError α) : Except SerdeError α :=
  body.mapError (SerdeError.handle stack)

def raising {α : Type} (x : Except Cause α) : Except SerdeError α := x.mapError fun cause => .raised cause []

/-! ## Writing -/

def serializeScalar (zone : LocalZone) : Scalar → Except Cause ScalarValue
  | .null => .ok .unset
  | .str s => (setString s).map .stringValue
  | .bool b => .ok (.boolValue b)
  | .int n => (setInt32 n).map .intValue
  | .float x => .ok (.doubleValue x)
  | .bytes b => .ok (.bytesValue b)
  | .datetime d => (timestamp zone d).map .timestampValue
  | .date d => (setInt32 d).map .dateValue

/-- The order of keys that can be compared. -/
def keyLe (key key' : Scalar) : Bool := key'.lt? key = some false

/-- `sorted(value.keys())`. -/
def sortFields {α : Type} (fields : List (Scalar × α)) : Except Cause (List (Scalar × α)) :=
  if (fields.map Prod.fst).Pairwise fun key key' => (key.lt? key').isSome then
    .ok (fields.mergeSort fun f g => keyLe f.1 g.1)
  else .error .keysNotComparable

/-- `ScalarStructFieldProto(name=key, value=...)`. The value is computed first. -/
def structField : Scalar × Except SerdeError ScalarValue → Except SerdeError (PyString × ScalarValue)
  | (key, value) => do
    let value ← value
    match key with
    | .str name => (raising (setString name)).map fun name => (name, value)
    | _ => raising (.error .nameIsNoText)

mutual

def serializeScalarValue (zone : LocalZone) (stack : List PyString) (fieldName : PyString) :
    PyValue → Except SerdeError ScalarValue
  | .scalar s =>
    -- nothing is raised for null, which the source returns before it pushes the name
    handleSerdeError (stack ++ [fieldName]) (raising (serializeScalar zone s))
  | .list items =>
    handleSerdeError (stack ++ [fieldName]) do
      let elements ← serializeElements zone (stack ++ [fieldName]) items
      .ok (.arrayValue elements)
  | .dict fields =>
    handleSerdeError (stack ++ [fieldName]) do
      let fields ← raising (sortFields (serializeValues zone (stack ++ [fieldName]) fields))
      let fields ← fields.mapM structField
      .ok (.structValue fields)
  | .other typeName =>
    handleSerdeError (stack ++ [fieldName]) (.error (.unsupportedType typeName (currentPath (stack ++ [fieldName]))))

def serializeElements (zone : LocalZone) (stack : List PyString) : List PyValue → Except SerdeError (List ScalarValue)
  | [] => .ok []
  | item :: items => do
    let element ← serializeScalarValue zone stack (pyString "element") item
    let elements ← serializeElements zone stack items
    .ok (element :: elements)

/-- The value of each key, not yet in the order in which they are computed. -/
def serializeValues (zone : LocalZone) (stack : List PyString) :
    List (Scalar × PyValue) → List (Scalar × Except SerdeError ScalarValue)
  | [] => []
  | (key, value) :: fields =>
    (key, serializeScalarValue zone stack (pyString "value") value) :: serializeValues zone stack fields

end

/-! ## Reading -/

/-- `result[name] = value`. -/
def setField (name : PyString) (value : PyValue) : List (Scalar × PyValue) → List (Scalar × PyValue)
  | [] => [(.str name, value)]
  | (key, value') :: fields =>
    if key = .str name then (key, value) :: fields else (key, value') :: setField name value fields

mutual

def deserializeScalarValue (zone : LocalZone) (stack : List PyString) (fieldName : PyString) :
    ScalarValue → Except SerdeError PyValue
  | .unset => .ok (.scalar .null)
  | .stringValue s => .ok (.scalar (.str s))
  | .intValue n => .ok (.scalar (.int n))
  | .doubleValue x => .ok (.scalar (.float x))
  | .boolValue b => .ok (.scalar (.bool b))
  | .bytesValue b => .ok (.scalar (.bytes b))
  | .dateValue n =>
    handleSerdeError (stack ++ [fieldName]) (raising ((fromordinal n).map fun d => .scalar (.date d)))
  | .timestampValue x =>
    handleSerdeError (stack ++ [fieldName]) (raising ((fromtimestamp zone x).map fun d => .scalar (.datetime d)))
  | .arrayValue elements =>
    handleSerdeError (stack ++ [fieldName]) do
      let items ← deserializeElements zone (stack ++ [fieldName]) elements
      .ok (.list items)
  | .structValue fields =>
    handleSerdeError (stack ++ [fieldName]) do
      let fields ← deserializeFields zone (stack ++ [fieldName]) [] fields
      .ok (.dict fields)

def deserializeElements (zone : LocalZone) (stack : List PyString) : List ScalarValue → Except SerdeError (List PyValue)
  | [] => .ok []
  | element :: elements => do
    let item ← deserializeScalarValue zone stack (pyString "element") element
    let items ← deserializeElements zone stack elements
    .ok (item :: items)

/-- The fields one after the other, into the dict so far. -/
def deserializeFields (zone : LocalZone) (stack : List PyString) (result : List (Scalar × PyValue)) :
    List (PyString × ScalarValue) → Except SerdeError (List (Scalar × PyValue))
  | [] => .ok result
  | (name, value) :: fields => do
    let value ← deserializeScalarValue zone stack name value
    deserializeFields zone stack (setField name value result) fields

end

end Serde

end Fenic
