import Mathlib.Algebra.BigOperators.Group.List.Basic
import Mathlib.Algebra.Order.Field.Rat
import Mathlib.Tactic.FieldSimp
import Mathlib.Tactic.Ring

/-!
# Means

The mean of a list of exact rationals. A mean kept as the offsets from a reference is the mean of
the values (`add_mean_offsets`).
-/

namespace Mtrtk

/-- The mean of what is known, none where nothing is. -/
def mean (known : List ℚ) : Option ℚ :=
  if known = [] then none else some (known.sum / known.length)

theorem sum_offsets (values : List ℚ) (ref : ℚ) :
    (values.map (· - ref)).sum = values.sum - values.length * ref := by
  induction values with
  | nil => simp
  | cons v values ih =>
    rw [List.map_cons, List.sum_cons, List.sum_cons, ih, List.length_cons]
    push_cast
    ring

/-- What is kept as offsets from a reference has the mean of the values. -/
theorem add_mean_offsets {values : List ℚ} (hne : values ≠ []) (ref : ℚ) :
    ref + (values.map (· - ref)).sum / values.length = values.sum / values.length := by
  have hlength : (values.length : ℚ) ≠ 0 := by simpa using hne
  rw [sum_offsets]
  field_simp
  ring

end Mtrtk
