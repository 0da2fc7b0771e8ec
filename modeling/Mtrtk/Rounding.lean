import Mathlib.Algebra.Order.Field.Basic
import Mathlib.Algebra.Order.Field.Rat
import Mathlib.Data.Rat.Floor
import Mathlib.Tactic.Linarith
import Mathlib.Tactic.Ring

/-!
# Rounding to a whole number

Half to even, as Python's `round` does. What a number is rounded to is decided by the halves it is
below or above (`pyRound_le_iff`), and is at most one half away (`abs_pyRound_sub_le`).
-/

namespace Mtrtk

/-- Python's `round` : half to even. -/
def pyRound (q : ℚ) : ℤ :=
  let f := q.floor
  if q - f < 1 / 2 then f else if 1 / 2 < q - f then f + 1 else if f % 2 = 0 then f else f + 1

/-- What is rounded is at most a half away. -/
theorem abs_pyRound_sub_le (q : ℚ) : |(pyRound q : ℚ) - q| ≤ 1 / 2 := by
  have hle := Rat.floor_le q
  have hlt := @Rat.lt_floor q
  rw [abs_le]
  unfold pyRound
  simp only
  split
  · constructor <;> linarith
  · split
    · push_cast
      constructor <;> linarith
    · split
      · constructor <;> linarith
      · push_cast
        constructor <;> linarith

theorem floor_eq {q : ℚ} {n : ℤ} (h0 : n ≤ q) (h1 : q < n + 1) : q.floor = n := by
  refine le_antisymm ?_ (Rat.le_floor_iff.2 h0)
  have hlt : (q.floor : ℚ) < (n + 1 : ℤ) := by
    push_cast
    exact (Rat.floor_le q).trans_lt h1
  exact Int.lt_add_one_iff.1 (by exact_mod_cast hlt)

/-- A number next to a whole one is rounded to it. -/
theorem pyRound_of_near {q : ℚ} {n : ℤ} (h : |q - n| < 1 / 2) : pyRound q = n := by
  have hround := abs_le.1 (abs_pyRound_sub_le q)
  obtain ⟨hlow, hhigh⟩ := abs_lt.1 h
  have hbelow : (pyRound q : ℚ) < n + 1 := by linarith
  have habove : (n : ℚ) < pyRound q + 1 := by linarith
  norm_cast at hbelow habove
  omega

/-- A half is rounded to the even one of its neighbours. -/
theorem pyRound_half (n : ℤ) : pyRound (n + 1 / 2) = if n % 2 = 0 then n else n + 1 := by
  have hfloor : (n + 1 / 2 : ℚ).floor = n := floor_eq (by linarith) (by linarith)
  simp only [pyRound, hfloor]
  rw [if_neg (by linarith), if_neg (by linarith)]

/-- The half above `n` says whether what is below it or above it is rounded up to `n` or farther. -/
theorem pyRound_le_iff {q : ℚ} {n : ℤ} :
    pyRound q ≤ n ↔ q < n + 1 / 2 ∨ q = n + 1 / 2 ∧ n % 2 = 0 := by
  have hround := abs_le.1 (abs_pyRound_sub_le q)
  rcases lt_trichotomy q (n + 1 / 2) with hlt | rfl | hgt
  · have hbelow : (pyRound q : ℚ) < n + 1 := by linarith [hround.2]
    norm_cast at hbelow
    exact iff_of_true (by omega) (.inl hlt)
  · rw [pyRound_half]
    split
    · next heven => simp [heven]
    · next hodd => simp [hodd]
  · have habove : (n : ℚ) < pyRound q := by linarith [hround.1]
    norm_cast at habove
    refine iff_of_false (by omega) ?_
    rintro (hlt | ⟨heq, -⟩) <;> linarith

theorem pyRound_intCast (n : ℤ) : pyRound n = n := pyRound_of_near (by simp)

theorem pyRound_mono {q r : ℚ} (h : q ≤ r) : pyRound q ≤ pyRound r := by
  refine pyRound_le_iff.2 ?_
  rcases pyRound_le_iff.1 (le_refl (pyRound r)) with hlt | ⟨heq, heven⟩
  · exact .inl (h.trans_lt hlt)
  · rcases h.lt_or_eq with hlt | rfl
    · exact .inl (heq ▸ hlt)
    · exact .inr ⟨heq, heven⟩

theorem pyRound_nonneg {q : ℚ} (h0 : 0 ≤ q) : 0 ≤ pyRound q := by
  have hmono := pyRound_mono h0
  rwa [show (0 : ℚ) = (0 : ℤ) from rfl, pyRound_intCast] at hmono

/-- Every half is on the same side of both numbers, where one that is `r` counts for the side that
`r` is rounded away from. One that is `q` does not count. -/
def SameSides (q r : ℚ) : Prop :=
  ∀ n : ℤ, (q < n + 1 / 2 → r < n + 1 / 2 ∨ r = n + 1 / 2 ∧ n % 2 = 0) ∧
    (n + 1 / 2 < q → ¬(r < n + 1 / 2 ∨ r = n + 1 / 2 ∧ n % 2 = 0))

/-- What `r` is rounded to is at most a half away from `q` just when no half parts them. -/
theorem abs_pyRound_sub_le_iff {q r : ℚ} : |(pyRound r : ℚ) - q| ≤ 1 / 2 ↔ SameSides q r := by
  unfold SameSides
  simp only [← pyRound_le_iff, not_le]
  rw [abs_le]
  constructor
  · rintro ⟨hlow, hhigh⟩ n
    refine ⟨fun hbelow => ?_, fun habove => ?_⟩
    · have hlt : (pyRound r : ℚ) < n + 1 := by linarith
      norm_cast at hlt
      omega
    · have hlt : (n : ℚ) < pyRound r := by linarith
      exact_mod_cast hlt
  · intro hsides
    constructor
    · by_contra hfar
      exact absurd ((hsides (pyRound r)).2 (by linarith)) (lt_irrefl _)
    · by_contra hfar
      have hle := (hsides (pyRound r - 1)).1 (by push_cast; linarith)
      omega

end Mtrtk
