import Mtrtk.Keyed

/-!
# Dictionaries

A `dict` as the list of its items in the order they were added : `Keyed` at the first component.
Setting a key keeps its place where it is there, and adds it at the end where it is not.
`get_updateAll` says what is found after all items of another dictionary are set.
-/

namespace Mtrtk

/-- A `dict`. -/
abbrev Dict (κ α : Type*) := List (κ × α)

namespace Dict

variable {κ α : Type*} [DecidableEq κ]

/-- `d[k] = v`. -/
def set (d : Dict κ α) (k : κ) (v : α) : Dict κ α :=
  Keyed.update Prod.fst (k, v) (fun a => (a.1, v)) d

/-- `d.get(k)`. -/
def get (d : Dict κ α) (k : κ) : Option α := (Keyed.find Prod.fst d k).map Prod.snd

/-- `d.update(items)`. -/
def updateAll (d items : Dict κ α) : Dict κ α := items.foldl (fun d a => set d a.1 a.2) d

/-- The keys. -/
def keys (d : Dict κ α) : List κ := d.map Prod.fst

variable {d items : Dict κ α} {k k' : κ} {v : α} {a : κ × α}

theorem get_set (d : Dict κ α) (k k' : κ) (v : α) :
    get (set d k v) k' = if k = k' then some v else get d k' := by
  have hfind := @Keyed.find_update _ _ _ Prod.fst (k, v) (fun a => (a.1, v)) (fun _ => rfl) d k'
  rw [get, set, hfind, get]
  split <;> rfl

theorem mem_set (h : a ∈ set d k v) : a = (k, v) ∨ a ∈ d := by
  induction d with
  | nil => exact .inl (List.mem_singleton.1 h)
  | cons b d ih =>
    rw [set, Keyed.update] at h
    split at h
    · next hb =>
      rcases List.mem_cons.1 h with rfl | h
      · exact .inl (by rw [hb])
      · exact .inr (List.mem_cons_of_mem _ h)
    · rcases List.mem_cons.1 h with rfl | h
      · exact .inr List.mem_cons_self
      · exact (ih h).imp_right (List.mem_cons_of_mem _)

/-- What every item has, where it is set with it. -/
theorem forall_set {P : κ × α → Prop} (hset : P (k, v)) (h : ∀ a ∈ d, P a) :
    ∀ a ∈ set d k v, P a := by
  intro a ha
  rcases mem_set ha with rfl | ha
  · exact hset
  · exact h a ha

theorem mem_keys_set : k' ∈ keys (set d k v) ↔ k' = k ∨ k' ∈ keys d :=
  @Keyed.mem_keys_update _ _ _ Prod.fst (k, v) (fun a => (a.1, v)) (fun _ => rfl) d k'

theorem nodup_set (h : (keys d).Nodup) : (keys (set d k v)).Nodup :=
  @Keyed.nodup_update _ _ _ Prod.fst (k, v) (fun a => (a.1, v)) (fun _ => rfl) d h

theorem get_cons (a : κ × α) (d : Dict κ α) (k : κ) :
    get (a :: d) k = if a.1 = k then some a.2 else get d k := by
  rw [get, Keyed.find_cons, get]
  split <;> rfl

theorem mem_iff_get (h : (keys d).Nodup) : (k, v) ∈ d ↔ get d k = some v := by
  rw [Keyed.mem_iff_find h, get]
  constructor
  · intro hfind
    rw [hfind]
    rfl
  · intro hget
    obtain ⟨⟨k', v'⟩, hfind, rfl⟩ := Option.map_eq_some_iff.1 hget
    have hk : k' = k := by simpa using List.find?_some hfind
    rw [← hk] at hfind ⊢
    exact hfind

theorem get_eq_none (h : k ∉ keys d) : get d k = none := by
  induction d with
  | nil => rfl
  | cons a d ih =>
    simp only [keys, List.map_cons, List.mem_cons, not_or] at h
    rw [get_cons, if_neg (Ne.symm h.1)]
    exact ih h.2

/-- What is found after all items are set. -/
theorem get_updateAll (h : (keys items).Nodup) (d : Dict κ α) (k : κ) :
    get (updateAll d items) k = (get items k).or (get d k) := by
  induction items generalizing d with
  | nil => rfl
  | cons a items ih =>
    obtain ⟨ha, hitems⟩ := List.nodup_cons.1 h
    have hstep : updateAll d (a :: items) = updateAll (set d a.1 a.2) items := rfl
    rw [hstep, ih hitems, get_cons, get_set]
    by_cases hk : a.1 = k
    · subst hk
      simp [get_eq_none ha]
    · simp [hk]

theorem mem_updateAll (h : a ∈ updateAll d items) : a ∈ d ∨ a ∈ items := by
  induction items generalizing d with
  | nil => exact .inl h
  | cons b items ih =>
    rcases ih h with hd | hitems
    · exact (mem_set hd).elim (fun hb => .inr (hb ▸ List.mem_cons_self)) .inl
    · exact .inr (List.mem_cons_of_mem _ hitems)

theorem forall_updateAll {P : κ × α → Prop} (hitems : ∀ a ∈ items, P a) (h : ∀ a ∈ d, P a) :
    ∀ a ∈ updateAll d items, P a :=
  fun a ha => (mem_updateAll ha).elim (h a) (hitems a)

theorem mem_keys_updateAll : k ∈ keys (updateAll d items) ↔ k ∈ keys d ∨ k ∈ keys items := by
  induction items generalizing d with
  | nil => simp [updateAll, keys]
  | cons b items ih =>
    have hstep : updateAll d (b :: items) = updateAll (set d b.1 b.2) items := rfl
    rw [hstep, ih, mem_keys_set]
    simp only [keys, List.map_cons, List.mem_cons]
    tauto

theorem nodup_updateAll (h : (keys d).Nodup) : (keys (updateAll d items)).Nodup := by
  induction items generalizing d with
  | nil => exact h
  | cons b items ih => exact ih (nodup_set h)

end Dict

end Mtrtk
