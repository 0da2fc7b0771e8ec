import Mathlib.Data.List.Nodup
import Mathlib.Data.Rat.Init
import Mathlib.Tactic.Common

/-!
# The sites table

`store/models.py` : `Site`, and `store/repos.py` : `SitesRepo`. Of a row the model has what
a base reads : the identity, the position, the accuracy `sigma_3d` and the active mark.
Coordinates are exact rationals.

A `SitesTable` carries what the schema and the transactions of `SitesRepo` keep : names are
unique, and at most one row is active. `activate` leaves exactly the row it names active
(`SitesTable.active_of_activate`).
-/

namespace Mtrtk

/-- `Site`. -/
structure Site where
  id : Option ℕ := none
  name : String
  x : ℚ
  y : ℚ
  z : ℚ
  sigma3d : Option ℚ := none
  active : Bool := false
  deriving DecidableEq

/-- `SiteIdent`. -/
abbrev SiteIdent := String × Option ℕ × ℚ × ℚ × ℚ

/-- `_ident`. -/
def Site.ident (s : Site) : SiteIdent := (s.name, s.id, s.x, s.y, s.z)

/-- The table `sites`. `nextId` is the AUTOINCREMENT counter. -/
structure SitesTable where
  rows : List Site := []
  nextId : ℕ := 1
  names : (rows.map Site.name).Nodup := by simp
  single : ∀ a ∈ rows, ∀ b ∈ rows, a.active → b.active → a.name = b.name := by simp

namespace SitesTable

variable (t : SitesTable) (name : String)

theorem eq_of_name_eq {a b : Site} (ha : a ∈ t.rows) (hb : b ∈ t.rows) (h : a.name = b.name) :
    a = b :=
  List.inj_on_of_nodup_map t.names ha hb h

/-- `SitesRepo.get`. -/
def get : Option Site := t.rows.find? (·.name = name)

/-- `SitesRepo.active`. -/
def active : Option Site := t.rows.find? (·.active)

theorem get_eq_some {name : String} {s : Site} :
    t.get name = some s ↔ s ∈ t.rows ∧ s.name = name := by
  constructor
  · intro h
    exact ⟨List.mem_of_find?_eq_some h, by simpa using List.find?_some h⟩
  · rintro ⟨hs, rfl⟩
    obtain ⟨a, ha⟩ : ∃ a, t.get s.name = some a :=
      Option.isSome_iff_exists.1 (List.find?_isSome.2 ⟨s, hs, by simp⟩)
    rw [ha, t.eq_of_name_eq (List.mem_of_find?_eq_some ha) hs (by simpa using List.find?_some ha)]

theorem active_eq_some {s : Site} : t.active = some s ↔ s ∈ t.rows ∧ s.active := by
  constructor
  · intro h
    exact ⟨List.mem_of_find?_eq_some h, by simpa using List.find?_some h⟩
  · rintro ⟨hs, hact⟩
    obtain ⟨a, ha⟩ : ∃ a, t.active = some a :=
      Option.isSome_iff_exists.1 (List.find?_isSome.2 ⟨s, hs, hact⟩)
    have ha' : a ∈ t.rows := List.mem_of_find?_eq_some ha
    rw [ha, t.eq_of_name_eq ha' hs (t.single a ha' s hs (List.find?_some ha) hact)]

/-- `SitesRepo.add` : `none` where the name is taken. -/
def add (site : Site) : Option SitesTable :=
  if h : t.get site.name = none then
    some
      { rows := t.rows ++ [{ site with id := some t.nextId, active := false }]
        nextId := t.nextId + 1
        names := by
          have hnew : site.name ∉ t.rows.map Site.name := by
            rintro hm
            obtain ⟨s, hs, hname⟩ := List.mem_map.1 hm
            exact absurd ((t.get_eq_some.2 ⟨hs, hname⟩).symm.trans h) (Option.some_ne_none _)
          simpa [List.nodup_append, t.names] using hnew
        single := by
          simp only [List.mem_append, List.mem_singleton]
          rintro a (ha | rfl) b (hb | rfl) hact hact'
          · exact t.single a ha b hb hact hact'
          · cases hact'
          · cases hact
          · rfl }
  else none

/-- `SitesRepo.delete` : `none` where the row is the active one. -/
def delete : Option SitesTable :=
  if (t.get name).any (·.active) then none
  else
    some
      { rows := t.rows.filter (·.name ≠ name)
        nextId := t.nextId
        names := t.names.sublist (List.filter_sublist.map _)
        single := fun a ha b hb =>
          t.single a (List.mem_of_mem_filter ha) b (List.mem_of_mem_filter hb) }

/-- The two UPDATEs of `SitesRepo.activate` on one row. -/
def setActive (s : Site) : Site :=
  if s.name = name then { s with active := true } else { s with active := false }

@[simp] theorem setActive_name (s : Site) : (setActive name s).name = s.name := by
  unfold setActive
  split <;> rfl

@[simp] theorem setActive_active (s : Site) : (setActive name s).active ↔ s.name = name := by
  unfold setActive
  split <;> simp_all

/-- The transaction of `SitesRepo.activate`. -/
def activated : SitesTable where
  rows := t.rows.map (setActive name)
  nextId := t.nextId
  names := by simpa [Function.comp_def] using t.names
  single := by
    simp only [List.mem_map]
    rintro _ ⟨a, -, rfl⟩ _ ⟨b, -, rfl⟩ ha hb
    simp_all

/-- `SitesRepo.activate` : `none` is its KeyError. -/
def activate : Option (Site × SitesTable) :=
  if (t.get name).isNone then none
  else ((t.activated name).get name).map fun site => (site, t.activated name)

variable {t name}

/-- A name that has a row can be activated, and exactly its row is active then. -/
theorem active_of_activate {s : Site} (h : t.get name = some s) :
    ∃ s', t.activate name = some (s', t.activated name) ∧ s'.name = name ∧
      (t.activated name).active = some s' := by
  obtain ⟨hs, hname⟩ := t.get_eq_some.1 h
  have hmem : setActive name s ∈ (t.activated name).rows := List.mem_map_of_mem hs
  have hget : (t.activated name).get name = some (setActive name s) :=
    (get_eq_some _).2 ⟨hmem, by simpa using hname⟩
  refine ⟨setActive name s, ?_, by simpa using hname, ?_⟩
  · simp [activate, h, hget]
  · exact (active_eq_some _).2 ⟨hmem, (setActive_active name s).2 hname⟩

/-- The row a name finds is the active one if it is active. -/
theorem active_of_get {s : Site} (h : t.get name = some s) (hact : s.active) :
    t.active = some s :=
  t.active_eq_some.2 ⟨(t.get_eq_some.1 h).1, hact⟩

theorem get_of_name {s : Site} (h : t.get name = some s) : t.get s.name = some s :=
  t.get_eq_some.2 ⟨(t.get_eq_some.1 h).1, rfl⟩

end SitesTable

end Mtrtk
