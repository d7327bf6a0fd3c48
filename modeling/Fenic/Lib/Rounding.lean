import Mathlib.Algebra.Order.Field.Power
import Mathlib.Algebra.Order.Round
import Mathlib.Data.Int.Log
import Mathlib.Tactic.Linarith
import Mathlib.Tactic.Positivity
import Mathlib.Tactic.Ring

/-!
# `Lib.Rounding` — rounding to the nearest, ties to even

Integers first, then the numbers with a significand of `p` binary digits: around `x` these are the multiples of
`spacing p x`, and `nearest p x` is the one of them that is closest. The exponent has no bound here, so a result
stands for that of a machine wherever it neither overflows nor is subnormal.
-/

namespace Rounding

variable {K : Type*} [Field K] [LinearOrder K] [IsStrictOrderedRing K] [FloorRing K]

/-! ## Integers -/

/-- The nearest integer, and of two the even one. -/
def halfEven (x : K) : Int :=
  if Int.fract x < 1 / 2 then ⌊x⌋
  else if 1 / 2 < Int.fract x then ⌊x⌋ + 1
  else if Even ⌊x⌋ then ⌊x⌋
  else ⌊x⌋ + 1

theorem halfEven_spec (x : K) :
    |x - halfEven x| < 1 / 2 ∨ |x - halfEven x| = 1 / 2 ∧ Even (halfEven x) := by
  have hnonneg := Int.fract_nonneg x
  have hlt := Int.fract_lt_one x
  have hdown : x - ((⌊x⌋ : Int) : K) = Int.fract x := rfl
  have hup : x - ((⌊x⌋ + 1 : Int) : K) = Int.fract x - 1 := by
    push_cast
    rw [← hdown]
    ring
  unfold halfEven
  split_ifs with h1 h2 h3
  · left
    rw [hdown, abs_of_nonneg hnonneg]
    exact h1
  · left
    rw [hup, abs_of_neg (by linarith)]
    linarith
  · right
    refine ⟨?_, h3⟩
    rw [hdown, abs_of_nonneg hnonneg]
    linarith
  · right
    refine ⟨?_, ?_⟩
    · rw [hup, abs_of_neg (by linarith)]
      linarith
    · exact Int.even_add_one.mpr h3

theorem abs_sub_halfEven (x : K) : |x - halfEven x| ≤ 1 / 2 := by
  rcases halfEven_spec x with h | h
  · exact h.le
  · exact h.1.le

variable {x : K} {n : Int}

/-- Two integers at distance half or less are equal, or they are neighbours with `x` in the middle. -/
theorem eq_of_nearest {m : Int} (hm : |x - m| < 1 / 2 ∨ |x - m| = 1 / 2 ∧ Even m)
    (hn : |x - n| < 1 / 2 ∨ |x - n| = 1 / 2 ∧ Even n) : m = n := by
  have hdist : |((m - n : Int) : K)| ≤ |x - m| + |x - n| := by
    have h := abs_sub_le (m : K) x n
    rw [abs_sub_comm (m : K) x] at h
    push_cast
    exact h
  by_contra hne
  have hone : (1 : K) ≤ |((m - n : Int) : K)| := by
    have h : 1 ≤ |m - n| := Int.one_le_abs (sub_ne_zero.mpr hne)
    exact_mod_cast h
  rcases hm with hm | ⟨hm, hmeven⟩
  · rcases hn with hn | ⟨hn, -⟩ <;> linarith
  · rcases hn with hn | ⟨hn, hneven⟩
    · linarith
    -- both are half away, so they are one apart and not both even
    · have hle : |((m - n : Int) : K)| ≤ 1 := by linarith
      have hle' : |m - n| ≤ 1 := by exact_mod_cast hle
      obtain ⟨a, ha⟩ := hmeven
      obtain ⟨b, hb⟩ := hneven
      rw [abs_le] at hle'
      omega

theorem halfEven_eq_iff :
    halfEven x = n ↔ |x - n| < 1 / 2 ∨ |x - n| = 1 / 2 ∧ Even n := by
  constructor
  · rintro rfl
    exact halfEven_spec x
  · intro h
    exact eq_of_nearest (halfEven_spec x) h

theorem halfEven_eq_of_abs_lt (h : |x - n| < 1 / 2) : halfEven x = n :=
  halfEven_eq_iff.mpr (Or.inl h)

@[simp] theorem halfEven_intCast (n : Int) : halfEven (n : K) = n := by
  apply halfEven_eq_of_abs_lt
  simp

@[simp] theorem halfEven_zero : halfEven (0 : K) = 0 := by
  have h := halfEven_intCast (K := K) 0
  rwa [Int.cast_zero] at h

/-- An even number may be taken out of the rounding. -/
theorem halfEven_add_even (x : K) (hn : Even n) : halfEven (x + n) = halfEven x + n := by
  rw [halfEven_eq_iff]
  have hdist : x + n - ((halfEven x + n : Int) : K) = x - halfEven x := by
    push_cast
    ring
  rw [hdist]
  rcases halfEven_spec x with h | ⟨h, heven⟩
  · exact Or.inl h
  · exact Or.inr ⟨h, heven.add hn⟩

/-! ## Significands of `p` digits -/

variable (p : Nat)

/-- The distance of neighbours around `x`. -/
def spacing (x : K) : K := 2 ^ (Int.log 2 |x| + 1 - p)

def nearest (x : K) : K := halfEven (x / spacing p x) * spacing p x

variable {p}

theorem spacing_pos (x : K) : 0 < spacing p x := zpow_pos two_pos _

theorem exists_nearest_eq (x : K) : ∃ k : Int, nearest p x = k * spacing p x := ⟨_, rfl⟩

@[simp] theorem nearest_zero : nearest p (0 : K) = 0 := by
  simp [nearest]

theorem abs_sub_nearest (x : K) : |x - nearest p x| ≤ spacing p x / 2 := by
  have hpos := spacing_pos (p := p) x
  have hscaled : x - nearest p x = (x / spacing p x - halfEven (x / spacing p x)) * spacing p x := by
    rw [nearest, sub_mul, div_mul_cancel₀ _ hpos.ne']
  rw [hscaled, abs_mul, abs_of_pos hpos]
  have h := mul_le_mul_of_nonneg_right (abs_sub_halfEven (x / spacing p x)) hpos.le
  linarith

/-- No other multiple of the spacing is closer. -/
theorem abs_sub_nearest_le (x : K) (k : Int) : |x - nearest p x| ≤ |x - k * spacing p x| := by
  have hpos := spacing_pos (p := p) x
  by_cases hk : k = halfEven (x / spacing p x)
  · rw [hk, nearest]
  -- another multiple is a whole spacing away from the nearest one
  have hone : (1 : K) ≤ |((k - halfEven (x / spacing p x) : Int) : K)| := by
    have h : 1 ≤ |k - halfEven (x / spacing p x)| := Int.one_le_abs (sub_ne_zero.mpr hk)
    exact_mod_cast h
  have happart : spacing p x ≤ |k * spacing p x - nearest p x| := by
    rw [nearest, ← sub_mul, abs_mul, abs_of_pos hpos]
    push_cast at hone
    exact le_mul_of_one_le_left hpos.le hone
  have htriangle := abs_sub_le (k * spacing p x) x (nearest p x)
  rw [abs_sub_comm _ x] at htriangle
  have hhalf := abs_sub_nearest (p := p) x
  linarith

theorem spacing_le {e : Int} (hx : x ≠ 0) (h : |x| < 2 ^ e) : spacing p x ≤ 2 ^ (e - p) := by
  have hlog : Int.log 2 |x| < e := by
    apply (Int.lt_zpow_iff_log_lt (R := K) one_lt_two (abs_pos.mpr hx)).mp
    exact_mod_cast h
  apply zpow_le_zpow_right₀ one_le_two
  omega

/-- The error is half of the last digit at most. -/
theorem abs_sub_nearest_of_lt {e : Int} (h : |x| < 2 ^ e) : |x - nearest p x| ≤ 2 ^ (e - p) / 2 := by
  by_cases hx : x = 0
  · subst hx
    rw [nearest_zero, sub_zero, abs_zero]
    positivity
  · have hle := abs_sub_nearest (p := p) x
    have hspacing := spacing_le (p := p) hx h
    linarith

/-- The error is relative to the number. -/
theorem abs_sub_nearest_le_mul (x : K) : |x - nearest p x| ≤ |x| / 2 ^ p := by
  by_cases hx : x = 0
  · subst hx
    simp
  · have hlow : (2 : K) ^ Int.log 2 |x| ≤ |x| := by
      have h := Int.zpow_log_le_self (b := 2) one_lt_two (abs_pos.mpr hx)
      exact_mod_cast h
    have hspacing : spacing p x = 2 ^ Int.log 2 |x| * 2 / 2 ^ p := by
      rw [spacing, zpow_sub₀ two_ne_zero, zpow_add₀ two_ne_zero, zpow_one, zpow_natCast]
    have hle := abs_sub_nearest (p := p) x
    rw [hspacing] at hle
    have hmul : (2 : K) ^ Int.log 2 |x| * 2 / 2 ^ p / 2 = 2 ^ Int.log 2 |x| / 2 ^ p := by ring
    rw [hmul] at hle
    exact hle.trans (div_le_div_of_nonneg_right hlow (by positivity))

/-- A number with at most `p` digits stays as it is. -/
theorem nearest_eq_self {m : Int} {j : Int} (hm : |m| < 2 ^ p) : nearest p ((m : K) * 2 ^ j) = m * 2 ^ j := by
  by_cases hzero : m = 0
  · simp [hzero]
  have hxne : (m : K) * 2 ^ j ≠ 0 := by
    apply mul_ne_zero
    · exact_mod_cast hzero
    · positivity
  have habs : |(m : K) * 2 ^ j| < 2 ^ ((p : Int) + j) := by
    rw [abs_mul, abs_of_pos (show (0 : K) < 2 ^ j by positivity), zpow_add₀ two_ne_zero]
    apply mul_lt_mul_of_pos_right _ (by positivity)
    exact_mod_cast hm
  have hlog : Int.log 2 |(m : K) * 2 ^ j| < p + j := by
    apply (Int.lt_zpow_iff_log_lt (R := K) one_lt_two (abs_pos.mpr hxne)).mp
    exact_mod_cast habs
  -- the spacing divides the last digit
  obtain ⟨d, hd⟩ := Int.eq_ofNat_of_zero_le (show 0 ≤ j - (Int.log 2 |(m : K) * 2 ^ j| + 1 - p) by omega)
  have hquotient : (m : K) * 2 ^ j / spacing p ((m : K) * 2 ^ j) = ((m * 2 ^ d : Int) : K) := by
    rw [spacing, mul_div_assoc, ← zpow_sub₀ two_ne_zero, hd]
    push_cast
    rw [zpow_natCast]
  rw [nearest, hquotient, halfEven_intCast, ← hquotient, div_mul_cancel₀ _ (spacing_pos _).ne']

/-! ## The error of several roundings -/

/-- `y` is `x` but for the errors of `k` roundings to `p` digits. -/
def Near (p k : Nat) (x y : K) : Prop := x * (1 - 1 / 2 ^ p) ^ k ≤ y ∧ y ≤ x * (1 + 1 / 2 ^ p) ^ k

theorem near_self (x : K) : Near p 0 x x := by simp [Near]

theorem digit_nonneg (p : Nat) : (0 : K) ≤ 1 - 1 / 2 ^ p := by
  have h : (1 : K) / 2 ^ p ≤ 1 := div_le_one_of_le₀ (one_le_pow₀ one_le_two) (by positivity)
  linarith

theorem Near.nearest {k : Nat} {y : K} (h : Near p k x y) (hx : 0 ≤ x) : Near p (k + 1) x (nearest p y) := by
  obtain ⟨hlow, hhigh⟩ := h
  have hpow : (0 : K) ≤ (1 - 1 / 2 ^ p) ^ k := pow_nonneg (digit_nonneg p) k
  have hy : 0 ≤ y := (mul_nonneg hx hpow).trans hlow
  have herror := abs_sub_nearest_le_mul (p := p) y
  rw [abs_of_nonneg hy, abs_le] at herror
  have hdigit : y / 2 ^ p = y * (1 / 2 ^ p) := div_eq_mul_one_div y _
  constructor
  · calc x * (1 - 1 / 2 ^ p) ^ (k + 1) = x * (1 - 1 / 2 ^ p) ^ k * (1 - 1 / 2 ^ p) := by ring
      _ ≤ y * (1 - 1 / 2 ^ p) := mul_le_mul_of_nonneg_right hlow (digit_nonneg p)
      _ ≤ Rounding.nearest p y := by linarith [herror.2]
  · calc Rounding.nearest p y ≤ y * (1 + 1 / 2 ^ p) := by linarith [herror.1]
      _ ≤ x * (1 + 1 / 2 ^ p) ^ k * (1 + 1 / 2 ^ p) := mul_le_mul_of_nonneg_right hhigh (by positivity)
      _ = x * (1 + 1 / 2 ^ p) ^ (k + 1) := by ring

theorem Near.mul {j k : Nat} {y x' y' : K} (h : Near p j x y) (h' : Near p k x' y') (hx : 0 ≤ x) (hx' : 0 ≤ x') :
    Near p (j + k) (x * x') (y * y') := by
  have hj : (0 : K) ≤ (1 - 1 / 2 ^ p) ^ j := pow_nonneg (digit_nonneg p) j
  have hk : (0 : K) ≤ (1 - 1 / 2 ^ p) ^ k := pow_nonneg (digit_nonneg p) k
  constructor
  · calc x * x' * (1 - 1 / 2 ^ p) ^ (j + k) = x * (1 - 1 / 2 ^ p) ^ j * (x' * (1 - 1 / 2 ^ p) ^ k) := by ring
      _ ≤ y * y' := mul_le_mul h.1 h'.1 (mul_nonneg hx' hk) ((mul_nonneg hx hj).trans h.1)
  · have hpos : 0 ≤ x * (1 + 1 / 2 ^ p) ^ j := mul_nonneg hx (by positivity)
    calc y * y' ≤ x * (1 + 1 / 2 ^ p) ^ j * (x' * (1 + 1 / 2 ^ p) ^ k) :=
          mul_le_mul h.2 h'.2 ((mul_nonneg hx' hk).trans h'.1) hpos
      _ = x * x' * (1 + 1 / 2 ^ p) ^ (j + k) := by ring

end Rounding
