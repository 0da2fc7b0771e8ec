import Mathlib.Algebra.GroupWithZero.Nat
import Mathlib.Data.List.Nodup
import Mathlib.Order.Lattice
import Mathlib.Tactic.Common

/-!
# Records with a key

A dictionary from the key of a record to the record, as the list of its values in the order they
were added. `update` changes the record of a key, which it adds first where there is none.
`find_update` is what is found after it. Two dictionaries in which the same is found have the same
records (`perm_of_find`).

`sortBy` sorts records by the key. Where no key is there twice the result depends on the records
only, not on their order (`sortBy_congr`), and its keys increase (`sortBy_strict`).
-/

namespace Mtrtk

namespace Keyed

variable {α κ : Type*}

section Dict

variable [DecidableEq κ] (key : α → κ)

/-- The record of a key. -/
def find (l : List α) (k : κ) : Option α := l.find? fun a => key a = k

/-- `f` of the record that has the key of `new`, or of `new`. -/
def update (new : α) (f : α → α) : List α → List α
  | [] => [f new]
  | a :: l => if key a = key new then f a :: l else a :: update new f l

/-- What is found after an update, of what was found before it. -/
def look (found : κ → Option α) (u : α × (α → α)) (k : κ) : Option α :=
  if key u.1 = k then some (u.2 ((found k).getD u.1)) else found k

/-- Updates of which those of one list and those of another commute. -/
def Commuting (us vs : List (α × (α → α))) : Prop :=
  ∀ u ∈ us, ∀ v ∈ vs, key u.1 = key v.1 → u.1 = v.1 ∧ ∀ a, u.2 (v.2 a) = v.2 (u.2 a)

variable {key} {new : α} {f : α → α}

theorem find_cons (a : α) (l : List α) (k : κ) :
    find key (a :: l) k = if key a = k then some a else find key l k := by
  simp only [find, List.find?_cons]
  split <;> simp_all

theorem find_update (hf : ∀ a, key (f a) = key a) (l : List α) (k : κ) :
    find key (update key new f l) k =
      if key new = k then some (f ((find key l k).getD new)) else find key l k := by
  induction l with
  | nil =>
    rw [update, find_cons, hf]
    rfl
  | cons a l ih =>
    rw [update, find_cons]
    by_cases ha : key a = key new
    · rw [if_pos ha, find_cons, hf, ha]
      by_cases hk : key new = k
      · simp [hk]
      · simp [hk]
    · rw [if_neg ha, find_cons, ih]
      by_cases hk : key a = k
      · have hne : key new ≠ k := fun h => ha (hk.trans h.symm)
        simp [hk, hne]
      · simp [hk]

theorem keys_update (hf : ∀ a, key (f a) = key a) (l : List α) :
    (update key new f l).map key =
      if key new ∈ l.map key then l.map key else l.map key ++ [key new] := by
  induction l with
  | nil => simp [update, hf]
  | cons a l ih =>
    rw [update]
    by_cases ha : key a = key new
    · simp [ha, hf]
    · have ha' : key new ≠ key a := Ne.symm ha
      simp only [if_neg ha, List.map_cons, ih, List.mem_cons, ha', false_or]
      split <;> rfl

theorem mem_keys_update (hf : ∀ a, key (f a) = key a) (l : List α) (k : κ) :
    k ∈ (update key new f l).map key ↔ k = key new ∨ k ∈ l.map key := by
  rw [keys_update hf]
  split
  next hmem => exact ⟨.inr, fun h => h.elim (fun h => h ▸ hmem) id⟩
  next => rw [List.mem_append, List.mem_singleton, or_comm]

theorem nodup_update (hf : ∀ a, key (f a) = key a) {l : List α} (h : (l.map key).Nodup) :
    ((update key new f l).map key).Nodup := by
  rw [keys_update hf]
  split
  next => exact h
  next hnew => exact List.nodup_append.2 ⟨h, by simp, by
    rintro k hk k' hk' rfl
    exact hnew (List.mem_singleton.1 hk' ▸ hk)⟩

/-- What every record has, where it is kept. -/
theorem forall_update {P : α → Prop} {l : List α} (hnew : P new) (hkeep : ∀ a, P a → P (f a))
    (h : ∀ a ∈ l, P a) : ∀ a ∈ update key new f l, P a := by
  induction l with
  | nil => simpa [update] using hkeep new hnew
  | cons a l ih =>
    obtain ⟨ha, hl⟩ := List.forall_mem_cons.1 h
    rw [update]
    split
    · exact List.forall_mem_cons.2 ⟨hkeep a ha, hl⟩
    · exact List.forall_mem_cons.2 ⟨ha, ih hl⟩

/-- A sum to which an update adds the same in any record. -/
theorem sum_update (w : α → ℕ) (n : ℕ) (hnew : w new = 0) (hw : ∀ a, w (f a) = w a + n)
    (l : List α) : ((update key new f l).map w).sum = (l.map w).sum + n := by
  induction l with
  | nil => simp [update, hw, hnew]
  | cons a l ih =>
    rw [update]
    split
    · simp only [List.map_cons, List.sum_cons, hw]
      omega
    · simp only [List.map_cons, List.sum_cons, ih]
      omega

theorem mem_iff_find {l : List α} (h : (l.map key).Nodup) (a : α) :
    a ∈ l ↔ find key l (key a) = some a := by
  induction l with
  | nil => simp [find]
  | cons b l ih =>
    obtain ⟨hb, hl⟩ := List.nodup_cons.1 h
    rw [find_cons, List.mem_cons, ih hl]
    split
    next heq =>
      have hnot : find key l (key a) ≠ some a := fun hfound =>
        hb (heq ▸ List.mem_map_of_mem ((ih hl).2 hfound))
      simp [hnot, eq_comm]
    next hne =>
      have hne' : a ≠ b := fun h => hne (h ▸ rfl)
      simp [hne']

/-- Dictionaries in which the same is found have the same records. -/
theorem perm_of_find {l l' : List α} (h : (l.map key).Nodup) (h' : (l'.map key).Nodup)
    (hfind : ∀ k, find key l k = find key l' k) : l.Perm l' := by
  refine (List.perm_ext_iff_of_nodup (.of_map key h) (.of_map key h')).2 fun a => ?_
  rw [mem_iff_find h, mem_iff_find h', hfind]

theorem find_foldl_update {us : List (α × (α → α))} (hf : ∀ u ∈ us, ∀ a, key (u.2 a) = key a)
    (l : List α) (k : κ) :
    find key (us.foldl (fun l u => update key u.1 u.2 l) l) k =
      us.foldl (look key) (find key l) k := by
  induction us generalizing l with
  | nil => rfl
  | cons u us ih =>
    obtain ⟨hu, hus⟩ := List.forall_mem_cons.1 hf
    have hlook : find key (update key u.1 u.2 l) = look key (find key l) u :=
      funext fun k => find_update hu l k
    rw [List.foldl_cons, List.foldl_cons, ih hus, hlook]

theorem nodup_foldl_update {us : List (α × (α → α))} (hf : ∀ u ∈ us, ∀ a, key (u.2 a) = key a)
    {l : List α} (h : (l.map key).Nodup) :
    ((us.foldl (fun l u => update key u.1 u.2 l) l).map key).Nodup := by
  induction us generalizing l with
  | nil => exact h
  | cons u us ih =>
    obtain ⟨hu, hus⟩ := List.forall_mem_cons.1 hf
    exact ih hus (nodup_update hu h)

theorem look_comm {u v : α × (α → α)}
    (h : key u.1 = key v.1 → u.1 = v.1 ∧ ∀ a, u.2 (v.2 a) = v.2 (u.2 a)) (found : κ → Option α) :
    look key (look key found u) v =
      look key (look key found v) u := by
  funext k
  simp only [look]
  by_cases hu : key u.1 = k
  · by_cases hv : key v.1 = k
    · obtain ⟨hnew, hcomm⟩ := h (hu.trans hv.symm)
      simp [hv, hnew, hcomm]
    · simp [hu, hv]
  · simp [hu]

theorem foldl_comm {σ β : Type*} {g : σ → β → σ} : ∀ {us vs : List β},
    (∀ u ∈ us, ∀ v ∈ vs, ∀ z, g (g z u) v = g (g z v) u) → ∀ z,
      vs.foldl g (us.foldl g z) = us.foldl g (vs.foldl g z)
  | [], _, _, _ => rfl
  | u :: us, vs, h, z => by
    obtain ⟨hu, hus⟩ := List.forall_mem_cons.1 h
    have hone : ∀ {vs : List β}, (∀ v ∈ vs, ∀ z, g (g z u) v = g (g z v) u) → ∀ z,
        vs.foldl g (g z u) = g (vs.foldl g z) u := fun {vs} => by
      induction vs with
      | nil => exact fun _ _ => rfl
      | cons v vs ih =>
        intro hall z
        obtain ⟨hv, hvs⟩ := List.forall_mem_cons.1 hall
        rw [List.foldl_cons, List.foldl_cons, hv, ih hvs]
    rw [List.foldl_cons, List.foldl_cons, foldl_comm hus, hone hu]

/-- Updates that commute leave the same records in either order. -/
theorem perm_of_commute {us vs : List (α × (α → α))} (hus : ∀ u ∈ us, ∀ a, key (u.2 a) = key a)
    (hvs : ∀ v ∈ vs, ∀ a, key (v.2 a) = key a) (hcomm : Commuting key us vs) {l : List α}
    (h : (l.map key).Nodup) :
    (vs.foldl (fun l u => update key u.1 u.2 l)
        (us.foldl (fun l u => update key u.1 u.2 l) l)).Perm
      (us.foldl (fun l u => update key u.1 u.2 l)
        (vs.foldl (fun l u => update key u.1 u.2 l) l)) := by
  refine perm_of_find (nodup_foldl_update hvs (nodup_foldl_update hus h))
    (nodup_foldl_update hus (nodup_foldl_update hvs h)) fun k => ?_
  have hfind : ∀ {ws : List (α × (α → α))} (l : List α), (∀ w ∈ ws, ∀ a, key (w.2 a) = key a) →
      find key (ws.foldl (fun l u => update key u.1 u.2 l) l) =
        ws.foldl (look key) (find key l) :=
    fun l hws => funext fun k => find_foldl_update hws l k
  rw [hfind _ hvs, hfind _ hus, hfind _ hus, hfind _ hvs]
  exact congrFun (foldl_comm (fun u hu v hv => look_comm (hcomm u hu v hv)) _) k

end Dict

/-! ## Sorting -/

section Sorting

variable [LinearOrder κ] (key : α → κ)

/-- `sorted(l, key=key)`. -/
def sortBy (l : List α) : List α := l.mergeSort fun a b => decide (key a ≤ key b)

variable {key}

theorem sortBy_perm (l : List α) : (sortBy key l).Perm l := List.mergeSort_perm l _

theorem sortBy_le (l : List α) : (sortBy key l).Pairwise fun a b => key a ≤ key b := by
  have h : (sortBy key l).Pairwise fun a b => decide (key a ≤ key b) = true :=
    List.pairwise_mergeSort
      (fun a b c hab hbc => by simpa using le_trans (by simpa using hab) (by simpa using hbc))
      (fun a b => by simpa using le_total (key a) (key b)) l
  exact h.imp fun h => by simpa using h

/-- Without repeats its keys increase. -/
theorem sortBy_strict {l : List α} (h : (l.map key).Nodup) :
    ((sortBy key l).map key).Pairwise (· < ·) := by
  have hnodup : ((sortBy key l).map key).Nodup := ((sortBy_perm l).map key).nodup_iff.2 h
  have hle : ((sortBy key l).map key).Pairwise (· ≤ ·) := List.pairwise_map.2 (sortBy_le l)
  exact hle.imp₂ (fun _ _ hle hne => lt_of_le_of_ne hle hne) hnodup

/-- It does not depend on the order of the records. -/
theorem sortBy_congr {l l' : List α} (h : (l.map key).Nodup) (hperm : l.Perm l') :
    sortBy key l = sortBy key l' := by
  refine List.Perm.eq_of_pairwise (fun a b ha hb hab hba => ?_) (sortBy_le l) (sortBy_le l')
    (((sortBy_perm l).trans hperm).trans (sortBy_perm l').symm)
  have hb : b ∈ l := hperm.mem_iff.2 ((sortBy_perm l').mem_iff.1 hb)
  exact List.inj_on_of_nodup_map h ((sortBy_perm l).mem_iff.1 ha) hb (le_antisymm hab hba)

end Sorting

end Keyed

end Mtrtk
