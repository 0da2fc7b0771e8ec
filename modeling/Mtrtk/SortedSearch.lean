import Mathlib.Data.List.Sort
import Mathlib.Order.Defs.LinearOrder

/-!
# Search in a sorted list

`bisectLeft` is the loop of `bisect.bisect_left` : it halves the range in which `x` can go until
nothing is left of it. In a sorted list it ends at the place `x` goes before everything that is not
smaller (`InsertionPoint`), and never looks past the end (`bisectLeft_eq`).

`sortByKey` is `sorted(key=…)`, which leaves what has the same key in the order it was in
(`find?_sortByKey`).
-/

namespace Mtrtk

section Search

variable {α : Type*} [LinearOrder α]

/-- The loop of `bisect_left`, `none` for an index past the end. -/
def bisectFrom (l : List α) (x : α) (lo hi : ℕ) : Option ℕ :=
  if _h : lo < hi then
    match l[(lo + hi) / 2]? with
    | some y => if y < x then bisectFrom l x ((lo + hi) / 2 + 1) hi
      else bisectFrom l x lo ((lo + hi) / 2)
    | none => none
  else some lo
termination_by hi - lo

/-- `bisect.bisect_left`. -/
def bisectLeft (l : List α) (x : α) : Option ℕ := bisectFrom l x 0 l.length

/-- What is before `i` is smaller than `x`, what is from `i` on is not. -/
structure InsertionPoint (l : List α) (x : α) (i : ℕ) : Prop where
  le : i ≤ l.length
  below : ∀ y ∈ l.take i, y < x
  above : ∀ y ∈ l.drop i, x ≤ y

variable {l : List α} {x : α}

/-- A sorted list around one of its elements. -/
theorem around_getElem? (hsorted : l.Pairwise (· ≤ ·)) {i : ℕ} {y : α} (h : l[i]? = some y) :
    (∀ z ∈ l.take (i + 1), z ≤ y) ∧ ∀ z ∈ l.drop i, y ≤ z := by
  obtain ⟨hi, rfl⟩ := List.getElem?_eq_some_iff.1 h
  have hdrop := List.drop_eq_getElem_cons hi
  rw [← List.take_append_drop i l, hdrop, List.pairwise_append, List.pairwise_cons] at hsorted
  obtain ⟨-, ⟨hafter, -⟩, hbefore⟩ := hsorted
  rw [hdrop, List.take_succ_eq_append_getElem hi]
  refine ⟨fun z hz => ?_, fun z hz => ?_⟩
  · rcases List.mem_append.1 hz with hz | hz
    · exact hbefore z hz _ List.mem_cons_self
    · exact (List.mem_singleton.1 hz).le
  · rcases List.mem_cons.1 hz with rfl | hz
    · exact le_rfl
    · exact hafter z hz

theorem bisectFrom_spec (hsorted : l.Pairwise (· ≤ ·)) {lo hi : ℕ} (hle : lo ≤ hi)
    (hhi : hi ≤ l.length) (hbelow : ∀ y ∈ l.take lo, y < x) (habove : ∀ y ∈ l.drop hi, x ≤ y) :
    ∃ i, bisectFrom l x lo hi = some i ∧ InsertionPoint l x i := by
  fun_induction bisectFrom l x lo hi with
  | case1 lo hi hlt y hy hyx ih =>
    have hmid := (List.getElem?_eq_some_iff.1 hy).1
    exact ih (by omega) hhi (fun z hz => ((around_getElem? hsorted hy).1 z hz).trans_lt hyx) habove
  | case2 lo hi hlt y hy hyx ih =>
    exact ih (by omega) (by omega) hbelow fun z hz =>
      (not_lt.1 hyx).trans ((around_getElem? hsorted hy).2 z hz)
  | case3 lo hi hlt hnone =>
    have := List.getElem?_eq_none_iff.1 hnone
    omega
  | case4 lo hi hge =>
    obtain rfl : lo = hi := by omega
    exact ⟨lo, rfl, hhi, hbelow, habove⟩

theorem bisectLeft_eq (hsorted : l.Pairwise (· ≤ ·)) (x : α) :
    ∃ i, bisectLeft l x = some i ∧ InsertionPoint l x i :=
  bisectFrom_spec hsorted (Nat.zero_le _) le_rfl (by simp) (by simp)

end Search

section SortByKey

variable {α β : Type*} [LinearOrder α] (key : β → α)

/-- `sorted(l, key=key)`. -/
def sortByKey (l : List β) : List β := l.insertionSort fun x y => key x ≤ key y

theorem pairwise_sortByKey (l : List β) : (sortByKey key l).Pairwise fun x y => key x ≤ key y := by
  have : Std.Total fun x y => key x ≤ key y := ⟨fun x y => le_total (key x) (key y)⟩
  have : IsTrans β fun x y => key x ≤ key y := ⟨fun x y z => le_trans⟩
  exact List.pairwise_insertionSort _ l

theorem perm_sortByKey (l : List β) : (sortByKey key l).Perm l := List.perm_insertionSort _ l

@[simp] theorem mem_sortByKey {l : List β} {x : β} : x ∈ sortByKey key l ↔ x ∈ l :=
  (perm_sortByKey key l).mem_iff

theorem find?_orderedInsert (x : β) (k : α) (s : List β) :
    (s.orderedInsert (fun x y => key x ≤ key y) x).find? (fun x => key x = k) =
      if key x = k then some x else s.find? fun x => key x = k := by
  induction s with
  | nil => by_cases hx : key x = k <;> simp [hx]
  | cons y s ih =>
    rw [List.orderedInsert]
    by_cases hxy : key x ≤ key y
    · rw [if_pos hxy, List.find?_cons]
      by_cases hx : key x = k <;> simp [hx]
    · -- what `x` goes behind has a smaller key
      rw [if_neg hxy, List.find?_cons, List.find?_cons, ih]
      by_cases hx : key x = k
      · have hy : key y ≠ k := fun hy => hxy (by rw [hx, hy])
        simp [hx, hy]
      · simp [hx]

/-- The first of a key stays the first. -/
theorem find?_sortByKey (l : List β) (k : α) :
    (sortByKey key l).find? (fun x => key x = k) = l.find? fun x => key x = k := by
  induction l with
  | nil => rfl
  | cons x l ih =>
    rw [sortByKey, List.insertionSort_cons, find?_orderedInsert]
    rw [sortByKey] at ih
    rw [ih, List.find?_cons]
    by_cases hx : key x = k <;> simp [hx]

end SortByKey

end Mtrtk
