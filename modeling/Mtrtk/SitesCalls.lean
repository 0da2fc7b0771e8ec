import Mtrtk.SerialLog
import Mtrtk.Sites

/-!
# Many tasks on the sites table

`store/repos.py` : `SitesRepo.add`, `_insert`, `delete` and `activate` as the statements they are,
over the rows as the file has them (`SitesRows`). The schema keeps names unique, and nothing but the
statements keeps one row active.

By itself a call does what it does to a `SitesTable` (`run_body`), so with any number of tasks the
table stays one, and is what the committed calls leave one after the other. A row that is active
stays until another is activated, as `delete` refuses it.

A call whose row is deleted, or deleted and added again, between its transaction and the read after
it was committed all the same. It returns what it reads then, or raises an AssertionError.
-/

namespace Mtrtk

/-- The table `sites` : its rows, and the AUTOINCREMENT counter. -/
structure SitesRows where
  rows : List Site := []
  nextId : ℕ := 1
  deriving DecidableEq

namespace SitesRows

variable (t : SitesRows) (name : String)

/-- `SELECT … FROM sites WHERE name = ?`. -/
def named : Option Site := t.rows.find? (·.name = name)

/-- The INSERT of `_insert`, where the name is free. -/
def inserted (site : Site) : SitesRows where
  rows := t.rows ++ [{ site with id := some t.nextId, active := false }]
  nextId := t.nextId + 1

/-- `DELETE FROM sites WHERE name = ?`. -/
def deleted : SitesRows := { t with rows := t.rows.filter (·.name ≠ name) }

/-- `UPDATE sites SET active = 0 WHERE active = 1`. -/
def noneActive : SitesRows :=
  { t with rows := t.rows.map fun s => if s.active then { s with active := false } else s }

/-- `UPDATE sites SET active = 1 WHERE name = ?`. -/
def setActive : SitesRows :=
  { t with rows := t.rows.map fun s => if s.name = name then { s with active := true } else s }

/-- How many rows are active. -/
def activeCount : ℕ := t.rows.countP (·.active)

/-- Names are unique, and at most one row is active. -/
structure Valid : Prop where
  names : (t.rows.map Site.name).Nodup
  single : ∀ a ∈ t.rows, ∀ b ∈ t.rows, a.active → b.active → a.name = b.name

end SitesRows

/-- The rows of a table. -/
def SitesTable.toRows (t : SitesTable) : SitesRows := { rows := t.rows, nextId := t.nextId }

namespace SitesRepo

/-! ## The calls -/

inductive Call
  | add (site : Site)
  | delete (name : String)
  | activate (name : String)
  deriving DecidableEq

inductive Error
  /-- ValueError : `site … already exists`. -/
  | taken (name : String)
  /-- ValueError : `… is the active site; activate another site first`. -/
  | isActive (name : String)
  /-- KeyError. -/
  | unknown (name : String)
  deriving DecidableEq

open Serial

/-- `self.get(name)` after the transaction. -/
def reads (name : String) : After SitesRows (Option Site) := .read fun t => (t.named name).map some

/-- The transaction of each call. -/
def body : Call → Body SitesRows Error (Option Site)
  | .add site =>
    .select fun t =>
      if (t.named site.name).isSome then .throw (.taken site.name)
      else
        -- the INSERT fails on a name that another process took, and is told of alike
        .stmt (fun t => if (t.named site.name).isSome then .error (.taken site.name)
            else .ok (t.inserted site))
          fun _ => .ret (reads site.name)
  | .delete name =>
    .select fun t =>
      if (t.named name).any (·.active) then .throw (.isActive name)
      else .update (·.deleted name) (.ret (.done none))
  | .activate name =>
    .select fun t =>
      if (t.named name).isNone then .throw (.unknown name)
      else .update (·.noneActive) (.update (·.setActive name) (.ret (reads name)))

/-- What comes after the transaction of a call. -/
def after : Call → After SitesRows (Option Site)
  | .add site => reads site.name
  | .delete _ => .done none
  | .activate name => reads name

/-! ## One call by itself -/

/-- What a call does to a table. -/
def applied (t : SitesTable) : Call → Except Error SitesTable
  | .add site => (t.add site).elim (.error (.taken site.name)) .ok
  | .delete name => (t.delete name).elim (.error (.isActive name)) .ok
  | .activate name =>
    if (t.get name).isSome then .ok (t.activated name) else .error (.unknown name)

variable {t : SitesTable} {name : String} {site : Site} {rows : SitesRows}

theorem valid_toRows (t : SitesTable) : t.toRows.Valid := ⟨t.names, t.single⟩

theorem table_of_valid (h : rows.Valid) : ∃ t : SitesTable, t.toRows = rows :=
  ⟨⟨rows.rows, rows.nextId, h.names, h.single⟩, rfl⟩

theorem add_toRows (h : t.toRows.named site.name = none) :
    ∃ t', t.add site = some t' ∧ t'.toRows = t.toRows.inserted site := by
  have hget : t.get site.name = none := h
  simp only [SitesTable.add, hget, dif_pos]
  exact ⟨_, rfl, rfl⟩

theorem delete_toRows (h : (t.toRows.named name).any (·.active) = false) :
    ∃ t', t.delete name = some t' ∧ t'.toRows = t.toRows.deleted name := by
  have hget : (t.get name).any (·.active) = false := h
  simp only [SitesTable.delete, hget]
  exact ⟨_, rfl, rfl⟩

theorem activated_toRows : (t.activated name).toRows = t.toRows.noneActive.setActive name := by
  simp only [SitesTable.activated, SitesTable.toRows, SitesRows.noneActive, SitesRows.setActive,
    List.map_map]
  congr 1
  refine List.map_congr_left fun s _ => ?_
  obtain ⟨id, name', x, y, z, sigma3d, active⟩ := s
  by_cases hname : name' = name <;> cases active <;> simp [SitesTable.setActive, hname]

theorem valid_noneActive (h : rows.Valid) : rows.noneActive.Valid where
  names := by
    have hnames : rows.noneActive.rows.map Site.name = rows.rows.map Site.name := by
      simp only [SitesRows.noneActive, List.map_map]
      refine List.map_congr_left fun s _ => ?_
      simp only [Function.comp_apply]
      split <;> rfl
    rw [hnames]
    exact h.names
  single a ha _ _ hactive _ := by
    obtain ⟨s, -, rfl⟩ := List.mem_map.1 ha
    revert hactive
    split <;> simp_all

/-- A call by itself does to the rows what it does to the table. -/
theorem run_body (t : SitesTable) (c : Call) :
    (body c).run t.toRows = (applied t c).map fun t' => (after c, t'.toRows) := by
  cases c with
  | add site =>
    simp only [body, Body.run_select, applied, after]
    cases hnamed : t.toRows.named site.name with
    | none =>
      obtain ⟨t', hadd, ht'⟩ := add_toRows hnamed
      simp [hadd, ← ht', Body.run, Except.map, Except.bind, hnamed]
    | some s =>
      have hadd : t.add site = none := by
        have hget : t.get site.name = some s := hnamed
        simp [SitesTable.add, hget]
      simp [hadd, Body.run, Except.map]
  | delete name =>
    simp only [body, Body.run_select, applied, after]
    cases hactive : (t.toRows.named name).any (·.active) with
    | false =>
      obtain ⟨t', hdelete, ht'⟩ := delete_toRows hactive
      simp [hdelete, ← ht', Body.run, Except.map]
    | true =>
      have hdelete : t.delete name = none := if_pos hactive
      simp [hdelete, Body.run, Except.map]
  | activate name =>
    simp only [body, Body.run_select, applied, after]
    cases hnamed : t.toRows.named name with
    | none =>
      have hget : t.get name = none := hnamed
      simp [hget, Body.run, Except.map]
    | some s =>
      have hget : t.get name = some s := hnamed
      simp [hget, Body.run, Except.map, activated_toRows]

/-- Every statement keeps the rows those of a table. -/
theorem body_along (c : Call) (rows : SitesRows) (h : rows.Valid) :
    (body c).Along SitesRows.Valid rows := by
  obtain ⟨t, rfl⟩ := table_of_valid h
  cases c with
  | add site =>
    refine Body.along_select.2 ⟨h, ?_⟩
    split
    · exact h
    next hnamed =>
      refine ⟨h, fun rows' hrows => ?_⟩
      simp only [if_neg hnamed] at hrows
      obtain rfl := Except.ok.inj hrows
      obtain ⟨t', -, ht'⟩ := add_toRows (by simpa using hnamed)
      exact ht' ▸ valid_toRows t'
  | delete name =>
    refine Body.along_select.2 ⟨h, ?_⟩
    split
    · exact h
    next hactive =>
      obtain ⟨t', -, ht'⟩ := delete_toRows (by simpa using hactive)
      exact Body.along_update.2 ⟨h, ht' ▸ valid_toRows t'⟩
  | activate name =>
    refine Body.along_select.2 ⟨h, ?_⟩
    split
    · exact h
    · refine Body.along_update.2 ⟨h, Body.along_update.2 ⟨valid_noneActive h, ?_⟩⟩
      exact activated_toRows ▸ valid_toRows (t.activated name)

/-! ## The active row -/

theorem activeCount_le (h : rows.Valid) : rows.activeCount ≤ 1 := by
  have hsub : ((rows.rows.filter (·.active)).map Site.name).Nodup :=
    h.names.sublist (List.filter_sublist.map _)
  have hone : ∀ a ∈ rows.rows.filter (·.active), ∀ b ∈ rows.rows.filter (·.active),
      a.name = b.name := by
    intro a ha b hb
    exact h.single a (List.mem_of_mem_filter ha) b (List.mem_of_mem_filter hb)
      (List.mem_filter.1 ha).2 (List.mem_filter.1 hb).2
  rw [SitesRows.activeCount, List.countP_eq_length_filter]
  generalize rows.rows.filter (·.active) = l at hsub hone ⊢
  match l with
  | [] | [_] => simp
  | a :: b :: rest =>
    have hne : a.name ≠ b.name := by
      rw [List.map_cons, List.map_cons] at hsub
      exact fun h => (List.nodup_cons.1 hsub).1 (h ▸ List.mem_cons_self)
    exact absurd (hone a (by simp) b (by simp)) hne

theorem activeCount_eq (h : t.active.isSome) : t.toRows.activeCount = 1 := by
  obtain ⟨s, hs⟩ := Option.isSome_iff_exists.1 h
  have hpos : 0 < t.toRows.activeCount := List.countP_pos_iff.2 ⟨s, t.active_eq_some.1 hs⟩
  have hle := activeCount_le (valid_toRows t)
  omega

/-- A call that activates leaves a row active, and every other call does where one was. -/
theorem active_applied {t' : SitesTable} {c : Call} (h : applied t c = .ok t')
    (hactive : t.active.isSome ∨ ∃ name, c = .activate name) : t'.active.isSome := by
  cases c with
  | add site =>
    obtain ⟨s, hs⟩ := Option.isSome_iff_exists.1 (by simpa using hactive)
    obtain ⟨hmem, hactive⟩ := t.active_eq_some.1 hs
    simp only [applied] at h
    cases hadd : t.add site with
    | none => simp [hadd] at h
    | some t₁ =>
      obtain rfl : t₁ = t' := by simpa [hadd] using h
      obtain ⟨_, heq⟩ := Option.dite_none_right_eq_some.1 hadd
      obtain rfl := Option.some.inj heq
      exact Option.isSome_of_eq_some
        ((SitesTable.active_eq_some _).2 ⟨List.mem_append_left _ hmem, hactive⟩)
  | delete name =>
    obtain ⟨s, hs⟩ := Option.isSome_iff_exists.1 (by simpa using hactive)
    obtain ⟨hmem, hsite⟩ := t.active_eq_some.1 hs
    simp only [applied] at h
    cases hdelete : t.delete name with
    | none => simp [hdelete] at h
    | some t₁ =>
      obtain rfl : t₁ = t' := by simpa [hdelete] using h
      obtain ⟨hname, heq⟩ := Option.ite_none_left_eq_some.1 hdelete
      obtain rfl := Option.some.inj heq
      have hne : s.name ≠ name := by
        rintro rfl
        exact hname (by rw [t.get_eq_some.2 ⟨hmem, rfl⟩]; simpa using hsite)
      exact Option.isSome_of_eq_some ((SitesTable.active_eq_some _).2
        ⟨List.mem_filter.2 ⟨hmem, by simpa using hne⟩, hsite⟩)
  | activate name =>
    simp only [applied] at h
    split at h
    next hget =>
      obtain ⟨s, hs⟩ := Option.isSome_iff_exists.1 hget
      obtain rfl := Except.ok.inj h
      obtain ⟨s', -, -, hs'⟩ := SitesTable.active_of_activate hs
      simp [hs']
    next => cases h

theorem active_of_runLog {t₀ : SitesTable} {log : List (ℕ × Call)}
    (h : runLog body t₀.toRows log = some rows) :
    ∃ t : SitesTable, t.toRows = rows ∧
      ((∃ c ∈ log, ∃ name, c.2 = .activate name) → t.active.isSome) := by
  refine runLog_induction (fun log rows => ∃ t : SitesTable, t.toRows = rows ∧
    ((∃ c ∈ log, ∃ name, c.2 = .activate name) → t.active.isSome)) ⟨t₀, rfl, by simp⟩ ?_ h
  rintro log _ c after rows ⟨t, rfl, hactive⟩ hc
  rw [run_body] at hc
  cases happlied : applied t c.2 with
  | error e => simp [happlied, Except.map] at hc
  | ok t' =>
    rw [happlied] at hc
    refine ⟨t', congrArg Prod.snd (Except.ok.inj hc), ?_⟩
    rintro ⟨d, hd, name, hname⟩
    refine active_applied happlied ?_
    rcases List.mem_append.1 hd with hd | hd
    · exact Or.inl (hactive ⟨d, hd, name, hname⟩)
    · exact Or.inr ⟨name, List.mem_singleton.1 hd ▸ hname⟩

/-- Names are unique and at most one row is active, in the table and in the transaction that is
open. The table is what the calls committed so far leave one after the other, each of them once,
with exactly one row active as soon as there is an activation among them. A call that returned is
among them, one that raised is not. -/
theorem sites_serial {t₀ : SitesTable} {s : State SitesRows Error (Option Site) Call}
    (h : Reachable (State.step body) { table := t₀.toRows } s) :
    ((s.table.rows.map Site.name).Nodup ∧ s.table.activeCount ≤ 1) ∧
    (∀ rows, s.working = some rows → (rows.rows.map Site.name).Nodup ∧ rows.activeCount ≤ 1) ∧
    ((∃ c ∈ s.log, ∃ name, c.2 = .activate name) → s.table.activeCount = 1) ∧
    (runLog body t₀.toRows s.log = some s.table ∧ (s.log.map Prod.fst).Nodup) ∧
    (∀ c site, (c, .ok site) ∈ s.finished → c ∈ s.log) ∧
    ∀ c e, (c, .error (.raised e)) ∈ s.finished → ∀ d ∈ s.log, d.1 ≠ c.1 := by
  have hiso := isolated_of_reachable body_along (valid_toRows t₀) h
  have hledger := ledger_of_reachable h
  refine ⟨⟨hiso.good.names, activeCount_le hiso.good⟩, fun rows hrows => ?_, fun hactive => ?_,
    ⟨hiso.serial, hledger.once⟩, fun c site hc => ?_, fun c e hc => ?_⟩
  · exact ⟨(hiso.copy rows hrows).names, activeCount_le (hiso.copy rows hrows)⟩
  · obtain ⟨t, ht, hsome⟩ := active_of_runLog hiso.serial
    exact ht ▸ activeCount_eq (hsome hactive)
  · exact hledger.told _ hc true rfl
  · exact hledger.told _ hc false rfl

/-- A site is added and activated, while another task deletes it. -/
theorem sites_serial_race :
    ∃ s : State SitesRows Error (Option Site) Call,
      ((2, Call.delete "a"), .error (.raised (.isActive "a"))) ∈ s.finished ∧
      s.table.activeCount = 1 ∧ ∀ d ∈ s.log, d.1 ≠ 2 := by
  have hrun : ((run (State.step body) { table := ({} : SitesTable).toRows }
      [.call 0 (.add ⟨none, "a", 0, 0, 0, none, false⟩), .acquire 0, .resume 0, .resume 0,
        .resume 0, .resume 0, .acquire 0, .resume 0, .call 0 (.activate "a"),
        .call 1 (.delete "a"), .acquire 0, .resume 0, .resume 0, .resume 0, .resume 0, .resume 0,
        .acquire 1, .resume 1, .resume 1, .resume 1]).map fun s => (s.finished[1]?, s.log[1]?)) =
      some (some ((2, .delete "a"), .error (.raised (.isActive "a"))),
        some (1, .activate "a")) := rfl
  obtain ⟨s, hs, heq⟩ := Option.map_eq_some_iff.1 hrun
  obtain ⟨hfinished, hlog⟩ := Prod.mk.inj heq
  obtain ⟨-, -, hactive, -, -, hraised⟩ := sites_serial ⟨_, hs⟩
  have hmem := List.mem_of_getElem? hfinished
  exact ⟨s, hmem, hactive ⟨_, List.mem_of_getElem? hlog, "a", rfl⟩, hraised _ _ hmem⟩

end SitesRepo

end Mtrtk
