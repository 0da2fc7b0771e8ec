import Mathlib.Order.Lattice
import Mathlib.Tactic.Common

/-!
# Pieces of an interval

`Tiles` are pieces that follow one another without a gap. Of a list in order, what falls into the
pieces one after the other is what falls into all of the interval (`Tiles.flatMap_filter`).
-/

namespace Mtrtk

variable {α β : Type*} [LinearOrder α]

/-- Pieces `[a, b)` that follow one another from a beginning to an end. -/
inductive Tiles (stop : α) : α → List (α × α) → Prop
  | nil : Tiles stop stop []
  | cons {a b : α} {pieces : List (α × α)} : a < b → Tiles stop b pieces →
      Tiles stop a ((a, b) :: pieces)

theorem Tiles.append {mid stop start : α} {pieces pieces' : List (α × α)}
    (h : Tiles mid start pieces) (h' : Tiles stop mid pieces') :
    Tiles stop start (pieces ++ pieces') := by
  induction h with
  | nil => exact h'
  | cons hlt _ ih => exact .cons hlt ih

/-- What falls into a piece. -/
def within (f : β → α) (l : List β) (piece : α × α) : List β :=
  l.filter fun x => piece.1 ≤ f x ∧ f x < piece.2

theorem Tiles.le {stop start : α} {pieces : List (α × α)} (h : Tiles stop start pieces) :
    start ≤ stop := by
  induction h with
  | nil => exact le_refl _
  | cons hlt _ ih => exact hlt.le.trans ih

/-- No piece goes on behind the end. -/
theorem Tiles.snd_le {stop start : α} {pieces : List (α × α)} (h : Tiles stop start pieces)
    {piece : α × α} (hpiece : piece ∈ pieces) : piece.2 ≤ stop := by
  induction h with
  | nil => cases hpiece
  | cons _ htiles ih =>
    rcases List.mem_cons.1 hpiece with rfl | hmem
    · exact htiles.le
    · exact ih hmem

theorem within_append {f : β → α} {l : List β} (hsorted : l.Pairwise fun x y => f x ≤ f y)
    {a b c : α} (hab : a ≤ b) (hbc : b ≤ c) :
    within f l (a, b) ++ within f l (b, c) = within f l (a, c) := by
  induction l with
  | nil => rfl
  | cons x l ih =>
    obtain ⟨hx, hl⟩ := List.pairwise_cons.1 hsorted
    have ih := ih hl
    simp only [within, List.filter_cons] at ih ⊢
    rcases lt_or_ge (f x) b with hxb | hxb
    · have hc : f x < c := hxb.trans_le hbc
      by_cases ha : a ≤ f x <;>
        simp only [decide_eq_true_eq, ha, hxb, hc, not_le.2 hxb, and_self, false_and, if_true,
          if_false, List.cons_append, ih]
    · -- nothing behind `x` falls into the first piece
      have hnil : (l.filter fun y => decide (a ≤ f y ∧ f y < b)) = [] :=
        List.filter_eq_nil_iff.2 fun y hy => by
          simpa using fun _ => hxb.trans (hx y hy)
      have ha : a ≤ f x := hab.trans hxb
      rw [hnil, List.nil_append] at ih
      by_cases hc : f x < c <;>
        simp only [decide_eq_true_eq, ha, hxb, hc, not_lt.2 hxb, and_true, and_false, if_true,
          if_false, hnil, List.nil_append, ih]

/-- Of a list in order, the pieces one after the other hold what the interval holds. -/
theorem Tiles.flatMap_filter {f : β → α} {l : List β}
    (hsorted : l.Pairwise fun x y => f x ≤ f y) {start stop : α} {pieces : List (α × α)}
    (h : Tiles stop start pieces) : pieces.flatMap (within f l) = within f l (start, stop) := by
  induction h with
  | nil =>
    exact (List.filter_eq_nil_iff.2 fun x _ => by simp).symm
  | cons hlt htiles ih => rw [List.flatMap_cons, ih, within_append hsorted hlt.le htiles.le]

end Mtrtk
