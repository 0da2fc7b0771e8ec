import Mathlib.Algebra.Order.Field.Basic
import Mathlib.Tactic.Linarith

/-!
# A token bucket

A bucket holds tokens up to its `capacity` and gets a new one every `interval`. It is not filled
all the time : `refill` adds what has come since the last look, and `take` takes one out.

`Spent a n` says that `n` tokens have been taken since the instant `a`, in what is left of the
capacity and of what has come since. It is kept when the bucket is looked at (`Spent.refill`) and
goes up with a token (`Spent.take`), and it bounds `n` (`Spent.add_one_le`). `ReadyFrom r` says that
there is a token at every look from `r` on, as long as none is taken (`ReadyFrom.refill`,
`readyFrom_of_le`).
-/

namespace Mtrtk

/-- How many tokens there were at the last look, and when that was. -/
@[ext]
structure Bucket (K : Type*) where
  tokens : K
  stamp : K

namespace Bucket

variable {K : Type*} [Field K] [LinearOrder K]

/-- The bucket at the instant `now`. -/
def refill (capacity interval now : K) (b : Bucket K) : Bucket K where
  tokens := min capacity (b.tokens + (now - b.stamp) / interval)
  stamp := now

/-- A token less. -/
def take (b : Bucket K) : Bucket K := { b with tokens := max 0 (b.tokens - 1) }

variable (capacity interval : K)

/-- Since the instant `a`, `n` tokens were taken. -/
def Spent (a : K) (n : ℕ) (b : Bucket K) : Prop :=
  n = 0 ∨ a ≤ b.stamp ∧ b.tokens + n ≤ capacity + (b.stamp - a) / interval

/-- From `r` on there is a token. -/
def ReadyFrom (r : K) (b : Bucket K) : Prop :=
  ∀ now, b.stamp ≤ now → r ≤ now → 1 ≤ (b.refill capacity interval now).tokens

variable {capacity interval} {a r now now' : K} {n : ℕ} {b : Bucket K}

@[simp] theorem stamp_refill : (b.refill capacity interval now).stamp = now := rfl

@[simp] theorem stamp_take : b.take.stamp = b.stamp := rfl

theorem tokens_refill_le : (b.refill capacity interval now).tokens ≤ capacity := min_le_left _ _

variable [IsStrictOrderedRing K]

theorem tokens_take (h : 1 ≤ b.tokens) : b.take.tokens = b.tokens - 1 :=
  max_eq_right (sub_nonneg.2 h)

/-- A look in between changes nothing. -/
theorem refill_refill (hinterval : 0 < interval) (h : now ≤ now') :
    (b.refill capacity interval now).refill capacity interval now' =
      b.refill capacity interval now' := by
  have hcome : 0 ≤ (now' - now) / interval := div_nonneg (sub_nonneg.2 h) hinterval.le
  have hsum : (now' - b.stamp) / interval =
      (now - b.stamp) / interval + (now' - now) / interval := by
    rw [← add_div, sub_add_sub_cancel']
  refine Bucket.ext ?_ rfl
  simp only [refill, hsum, ← add_assoc]
  rcases le_total capacity (b.tokens + (now - b.stamp) / interval) with hfull | hfull
  · rw [min_eq_left hfull, min_eq_left (by linarith), min_eq_left (by linarith)]
  · rw [min_eq_right hfull]

namespace Spent

theorem refill (h : Spent capacity interval a n b) (hnow : b.stamp ≤ now) :
    Spent capacity interval a n (b.refill capacity interval now) := by
  refine h.imp_right fun ⟨ha, hle⟩ => ⟨ha.trans hnow, ?_⟩
  have hsum : (now - a) / interval = (now - b.stamp) / interval + (b.stamp - a) / interval := by
    rw [← add_div, sub_add_sub_cancel]
  have htokens := min_le_right capacity (b.tokens + (now - b.stamp) / interval)
  simp only [Bucket.refill, hsum]
  linarith

theorem take (h : Spent capacity interval a n b) (hinterval : 0 < interval)
    (hcapacity : b.tokens ≤ capacity) (hone : 1 ≤ b.tokens) (ha : a ≤ b.stamp) :
    Spent capacity interval a (n + 1) b.take := by
  refine Or.inr ⟨ha, ?_⟩
  have hcome : 0 ≤ (b.stamp - a) / interval := div_nonneg (sub_nonneg.2 ha) hinterval.le
  rw [tokens_take hone, stamp_take, Nat.cast_succ]
  rcases h with rfl | ⟨-, hle⟩
  · rw [Nat.cast_zero]
    linarith
  · linarith

/-- Where a token is left, one more can be taken. -/
theorem add_one_le (h : Spent capacity interval a n b) (hinterval : 0 < interval)
    (hcapacity : 1 ≤ capacity) (hone : 1 ≤ b.tokens) (hnow : b.stamp ≤ now) (ha : a ≤ now) :
    (n + 1 : K) ≤ capacity + (now - a) / interval := by
  rcases h with rfl | ⟨-, hle⟩
  · have hcome : 0 ≤ (now - a) / interval := div_nonneg (sub_nonneg.2 ha) hinterval.le
    rw [Nat.cast_zero]
    linarith
  · have hcome : (b.stamp - a) / interval ≤ (now - a) / interval :=
      div_le_div_of_nonneg_right (sub_le_sub_right hnow a) hinterval.le
    linarith

end Spent

theorem ReadyFrom.refill (h : ReadyFrom capacity interval r b) (hinterval : 0 < interval)
    (hnow : b.stamp ≤ now) : ReadyFrom capacity interval r (b.refill capacity interval now) := by
  intro later (hlater : now ≤ later) hr
  rw [refill_refill hinterval hlater]
  exact h later (hnow.trans hlater) hr

/-- A wait for what is missing of a token. -/
theorem readyFrom_of_le (hinterval : 0 < interval) (hcapacity : 1 ≤ capacity)
    (hr : b.stamp + (1 - b.tokens) * interval ≤ r) : ReadyFrom capacity interval r b := by
  intro now _ hnow
  refine le_min hcapacity ?_
  have hwait : 1 - b.tokens ≤ (now - b.stamp) / interval := by
    rw [le_div_iff₀ hinterval]
    linarith
  linarith

end Bucket

end Mtrtk
