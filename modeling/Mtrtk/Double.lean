import Mathlib.Data.Int.Log
import Mtrtk.Rounding

/-!
# Binary floating point

A `FloatFormat` has the numbers `m * 2 ^ e` whose mantissa has at most so many binary digits and
whose exponent is not below the least. `round` is the nearest of them, half to even, with no largest
number; `binary64` is the format of a `float`.

Rounding leaves the numbers of the format alone (`round_eq_self`), keeps the order (`round_mono`),
and is at most half a unit of the last digit away (`abs_round_sub_le`).
-/

namespace Mtrtk

structure FloatFormat where
  digits : ℕ
  minExponent : ℤ
  digits_pos : 0 < digits

namespace FloatFormat

variable (F : FloatFormat)

/-- The exponent of the last digit of a number at `q`. -/
def exponent (q : ℚ) : ℤ := max (Int.log 2 |q| + 1 - F.digits) F.minExponent

/-- The unit of that digit. -/
def ulp (q : ℚ) : ℚ := 2 ^ F.exponent q

/-- The nearest number of the format, half to even. -/
def round (q : ℚ) : ℚ := pyRound (q / F.ulp q) * F.ulp q

/-- The numbers of the format. -/
def Has (x : ℚ) : Prop :=
  ∃ m e : ℤ, x = m * 2 ^ e ∧ (|m| : ℚ) < 2 ^ (F.digits : ℤ) ∧ F.minExponent ≤ e

variable {F} {q r x : ℚ}

theorem two_zpow_pos (e : ℤ) : (0 : ℚ) < 2 ^ e := zpow_pos (by norm_num) e

theorem ulp_pos (F : FloatFormat) (q : ℚ) : 0 < F.ulp q := two_zpow_pos _

theorem round_zero (F : FloatFormat) : F.round 0 = 0 := by
  have h0 : pyRound 0 = 0 := pyRound_intCast 0
  rw [round, zero_div, h0, Int.cast_zero, zero_mul]

theorem has_zero (F : FloatFormat) : F.Has 0 :=
  ⟨0, F.minExponent, by simp, by simp, le_refl _⟩

/-- What is a whole number of units is not rounded. -/
theorem round_of_multiple {n : ℤ} (h : q = n * F.ulp q) : F.round q = q := by
  have hdiv : q / F.ulp q = n := (div_eq_iff (F.ulp_pos q).ne').2 h
  rw [round, hdiv, pyRound_intCast, ← h]

/-- A power of two that is not below the unit is a whole number of units. -/
theorem zpow_eq_mul_ulp {e : ℤ} (hexp : F.exponent q ≤ e) :
    ∃ k : ℕ, (2 : ℚ) ^ e = (2 ^ k : ℤ) * F.ulp q := by
  obtain ⟨k, hk⟩ := Int.eq_ofNat_of_zero_le (sub_nonneg.2 hexp)
  have hsplit : e = k + F.exponent q := by omega
  refine ⟨k, ?_⟩
  rw [ulp, Int.cast_pow, Int.cast_ofNat, ← zpow_natCast,
    ← zpow_add₀ (by norm_num : (2 : ℚ) ≠ 0), ← hsplit]

/-- A number is rounded to itself. -/
theorem round_eq_self (h : F.Has x) : F.round x = x := by
  obtain ⟨m, e, rfl, hm, he⟩ := h
  have hpow := two_zpow_pos e
  rcases eq_or_ne m 0 with rfl | hne
  · simp [round_zero]
  have habs : |(m : ℚ) * 2 ^ e| = |(m : ℚ)| * 2 ^ e := by rw [abs_mul, abs_of_pos hpow]
  have hpos : 0 < |(m : ℚ) * 2 ^ e| := abs_pos.2 (mul_ne_zero (by exact_mod_cast hne) hpow.ne')
  have hlog : Int.log 2 |(m : ℚ) * 2 ^ e| < F.digits + e := by
    refine (Int.lt_zpow_iff_log_lt (by decide) hpos).1 ?_
    rw [habs, Nat.cast_ofNat, zpow_add₀ (by norm_num)]
    exact mul_lt_mul_of_pos_right hm hpow
  have hexp : F.exponent (m * 2 ^ e) ≤ e := max_le (by omega) he
  obtain ⟨k, hk⟩ := zpow_eq_mul_ulp hexp
  refine round_of_multiple (n := m * 2 ^ k) ?_
  rw [Int.cast_mul, mul_assoc, ← hk]

theorem round_nonneg (h : 0 ≤ q) : 0 ≤ F.round q := by
  have hround := pyRound_nonneg (div_nonneg h (F.ulp_pos q).le)
  exact mul_nonneg (by exact_mod_cast hround) (F.ulp_pos q).le

/-- A power of two that is a whole number of units is not passed. -/
theorem round_le_zpow {e : ℤ} (h : q ≤ 2 ^ e) (hexp : F.exponent q ≤ e) : F.round q ≤ 2 ^ e := by
  obtain ⟨k, hpow⟩ := zpow_eq_mul_ulp hexp
  have hdiv : q / F.ulp q ≤ (2 ^ k : ℤ) := (div_le_iff₀ (F.ulp_pos q)).2 (hpow ▸ h)
  have hround := pyRound_mono hdiv
  rw [pyRound_intCast] at hround
  rw [hpow, round]
  exact mul_le_mul_of_nonneg_right (by exact_mod_cast hround) (F.ulp_pos q).le

theorem zpow_le_round {e : ℤ} (h : 2 ^ e ≤ q) (hexp : F.exponent q ≤ e) : 2 ^ e ≤ F.round q := by
  obtain ⟨k, hpow⟩ := zpow_eq_mul_ulp hexp
  have hdiv : ((2 ^ k : ℤ) : ℚ) ≤ q / F.ulp q := (le_div_iff₀ (F.ulp_pos q)).2 (hpow ▸ h)
  have hround := pyRound_mono hdiv
  rw [pyRound_intCast] at hround
  rw [hpow, round]
  exact mul_le_mul_of_nonneg_right (by exact_mod_cast hround) (F.ulp_pos q).le

/-- Rounding keeps the order. Where the units differ there is a power of two in between. -/
theorem round_mono (h0 : 0 ≤ q) (h : q ≤ r) : F.round q ≤ F.round r := by
  rcases h0.eq_or_lt with rfl | hpos
  · rw [round_zero]
    exact round_nonneg h
  have hr : 0 < r := hpos.trans_le h
  have hlog : Int.log 2 q ≤ Int.log 2 r := Int.log_mono_right hpos h
  have hexp : F.exponent q ≤ F.exponent r := by
    rw [exponent, exponent, abs_of_pos hpos, abs_of_pos hr]
    exact max_le_max_right _ (by omega)
  rcases hexp.eq_or_lt with heq | hlt
  · have hulp : F.ulp q = F.ulp r := by rw [ulp, ulp, heq]
    rw [round, round, hulp]
    have hround := pyRound_mono (div_le_div_of_nonneg_right h (F.ulp_pos r).le)
    exact mul_le_mul_of_nonneg_right (by exact_mod_cast hround) (F.ulp_pos r).le
  · have hdigits := F.digits_pos
    have hr' : F.exponent r = Int.log 2 r + 1 - F.digits := by
      have hmin : F.minExponent < F.exponent r := (le_max_right _ _).trans_lt hlt
      rw [exponent, abs_of_pos hr] at hmin ⊢
      exact max_eq_left (le_of_not_ge fun hle => absurd (max_eq_right hle) hmin.ne')
    have hq' : Int.log 2 q + 1 - F.digits ≤ F.exponent q := by
      rw [exponent, abs_of_pos hpos]
      exact le_max_left _ _
    have hbelow : q ≤ 2 ^ Int.log 2 r := by
      refine ((Int.lt_zpow_succ_log_self (by decide : 1 < 2) q).trans_le ?_).le
      rw [Nat.cast_ofNat]
      exact zpow_le_zpow_right₀ (by norm_num) (by omega)
    have habove : (2 : ℚ) ^ Int.log 2 r ≤ r := by
      simpa using Int.zpow_log_le_self (by decide : 1 < 2) hr
    exact (round_le_zpow hbelow (by omega)).trans (zpow_le_round habove (by omega))

/-- What is below a number is not rounded above it. -/
theorem round_le_of_le (h0 : 0 ≤ q) (hx : F.Has x) (h : q ≤ x) : F.round q ≤ x :=
  (round_mono h0 h).trans_eq (round_eq_self hx)

/-- At most half a unit is rounded. -/
theorem abs_round_sub_le (F : FloatFormat) (q : ℚ) : |F.round q - q| ≤ F.ulp q / 2 := by
  have hround := abs_pyRound_sub_le (q / F.ulp q)
  have hfactor : F.round q - q = (pyRound (q / F.ulp q) - q / F.ulp q) * F.ulp q := by
    rw [sub_mul, div_mul_cancel₀ _ (F.ulp_pos q).ne', round]
  rw [hfactor, abs_mul, abs_of_pos (F.ulp_pos q)]
  linarith [mul_le_mul_of_nonneg_right hround (F.ulp_pos q).le]

/-- The unit of a number below a power of two. -/
theorem ulp_le {e : ℤ} (hpos : 0 < q) (h : q < 2 ^ e) (he : F.minExponent ≤ e - F.digits) :
    F.ulp q ≤ 2 ^ (e - F.digits) := by
  have hlog : Int.log 2 q < e := (Int.lt_zpow_iff_log_lt (by decide) hpos).1 (by simpa using h)
  refine zpow_le_zpow_right₀ (by norm_num) (max_le ?_ he)
  rw [abs_of_pos hpos]
  omega

/-- What is rounded is a number of the format. -/
theorem has_round (h0 : 0 ≤ q) : F.Has (F.round q) := by
  rcases h0.eq_or_lt with rfl | hpos
  · exact (F.round_zero).symm ▸ F.has_zero
  have hdigits := F.digits_pos
  have hnonneg := pyRound_nonneg (div_nonneg h0 (F.ulp_pos q).le)
  -- the mantissa may be the power of two itself
  have hle : (pyRound (q / F.ulp q) : ℚ) ≤ 2 ^ (F.digits : ℤ) := by
    have hlog := Int.lt_zpow_succ_log_self (by decide : 1 < 2) q
    have hdiv : q / F.ulp q ≤ (2 ^ F.digits : ℤ) := by
      rw [div_le_iff₀ (F.ulp_pos q), ulp, Int.cast_pow, Int.cast_ofNat, ← zpow_natCast,
        ← zpow_add₀ (by norm_num : (2 : ℚ) ≠ 0)]
      refine (hlog.trans_le ?_).le
      rw [Nat.cast_ofNat]
      refine zpow_le_zpow_right₀ (by norm_num) ?_
      have := le_max_left (Int.log 2 |q| + 1 - F.digits) F.minExponent
      rw [abs_of_pos hpos] at this
      rw [exponent, abs_of_pos hpos]
      omega
    have hround := pyRound_mono hdiv
    rw [pyRound_intCast] at hround
    exact_mod_cast hround
  have hexp : F.minExponent ≤ F.exponent q := le_max_right _ _
  rcases hle.lt_or_eq with hlt | heq
  · exact ⟨_, _, rfl, by rwa [abs_of_nonneg (by exact_mod_cast hnonneg)], hexp⟩
  · refine ⟨2 ^ (F.digits - 1), F.exponent q + 1, ?_, ?_, by omega⟩
    · rw [round, heq, ulp, Int.cast_pow, Int.cast_ofNat, ← zpow_natCast,
        ← zpow_add₀ (by norm_num : (2 : ℚ) ≠ 0), ← zpow_add₀ (by norm_num : (2 : ℚ) ≠ 0)]
      congr 1
      omega
    · rw [Int.cast_pow, Int.cast_ofNat, abs_of_nonneg (pow_nonneg (by norm_num) _), ← zpow_natCast]
      exact zpow_lt_zpow_right₀ (by norm_num) (by omega)

/-- The fraction of a number is one. -/
theorem has_fract (h0 : 0 ≤ x) (h : F.Has x) : F.Has (x - x.floor) := by
  obtain ⟨m, e, rfl, hm, he⟩ := h
  rcases le_or_gt 0 e with hint | hneg
  · -- a whole number
    obtain ⟨k, rfl⟩ := Int.eq_ofNat_of_zero_le hint
    have hcast : (m : ℚ) * 2 ^ (k : ℤ) = (m * 2 ^ k : ℤ) := by push_cast; rw [zpow_natCast]
    rw [hcast, Rat.floor_intCast, sub_self]
    exact F.has_zero
  · obtain ⟨k, hk⟩ := Int.eq_ofNat_of_zero_le (neg_nonneg.2 hneg.le)
    have hpow := two_zpow_pos e
    have hunit : ((2 ^ k : ℤ) : ℚ) * 2 ^ e = 1 := by
      rw [Int.cast_pow, Int.cast_ofNat, ← zpow_natCast, ← zpow_add₀ (by norm_num), ← hk]
      simp
    have hk0 : (0 : ℤ) < 2 ^ k := pow_pos (by norm_num) k
    have hm0 : 0 ≤ m := by exact_mod_cast nonneg_of_mul_nonneg_left h0 hpow
    have hsplit : (m : ℚ) = (2 ^ k : ℤ) * (m / 2 ^ k : ℤ) + (m % 2 ^ k : ℤ) := by
      exact_mod_cast (Int.mul_ediv_add_emod m (2 ^ k)).symm
    have hrest : (m : ℚ) * 2 ^ e = (m / 2 ^ k : ℤ) + (m % 2 ^ k : ℤ) * 2 ^ e := by
      calc (m : ℚ) * 2 ^ e
          = (m / 2 ^ k : ℤ) * ((2 ^ k : ℤ) * 2 ^ e) + (m % 2 ^ k : ℤ) * 2 ^ e := by
            rw [hsplit]
            push_cast
            ring
        _ = (m / 2 ^ k : ℤ) + (m % 2 ^ k : ℤ) * 2 ^ e := by rw [hunit, mul_one]
    have hmod0 : (0 : ℚ) ≤ (m % 2 ^ k : ℤ) := by exact_mod_cast Int.emod_nonneg m hk0.ne'
    have hmod : ((m % 2 ^ k : ℤ) : ℚ) < (2 ^ k : ℤ) := by
      exact_mod_cast Int.emod_lt_of_pos m hk0
    have hfloor : ((m : ℚ) * 2 ^ e).floor = m / 2 ^ k := by
      have hlow := mul_nonneg hmod0 hpow.le
      have hhigh := mul_lt_mul_of_pos_right hmod hpow
      rw [hunit] at hhigh
      exact floor_eq (by linarith) (by linarith)
    refine ⟨m % 2 ^ k, e, ?_, lt_of_le_of_lt ?_ hm, he⟩
    · rw [hfloor, hrest]
      ring
    · rw [abs_of_nonneg hmod0, abs_of_nonneg (by exact_mod_cast hm0)]
      have hquot : 0 ≤ 2 ^ k * (m / 2 ^ k) := mul_nonneg hk0.le (Int.ediv_nonneg hm0 hk0.le)
      have hle : m % 2 ^ k ≤ m := by linarith [Int.mul_ediv_add_emod m (2 ^ k)]
      exact_mod_cast hle

end FloatFormat

/-- The format of a Python `float`. -/
def binary64 : FloatFormat where
  digits := 53
  minExponent := -1074
  digits_pos := by decide

/-- The nearest `float`. -/
def double (q : ℚ) : ℚ := binary64.round q

end Mtrtk
