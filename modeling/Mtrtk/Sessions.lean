import Mathlib.Data.List.MinMax
import Mtrtk.SerialLog

/-!
# Field sessions

`rover/sessions.py` : `_stamp`, `_end` and `SessionsRepo.current`, `get`, `start` and `stop`, as the
statements they are. A stored time has a UTC offset, a time that is given may have none. Times are
in microseconds, and compared as instants. A call reads the clock before it waits for the lock, so
calls with older readings may come after calls with newer ones.

In any run at most one session is open, and each that has ended did so at its start or later
(`Sessions.Valid`). A call writes an end only on the row it found open, so an end stays as it is
(`sessions_apart`).
-/

namespace Mtrtk

namespace SessionsRepo

/-- A `datetime` with a UTC offset : its wall time and the offset. -/
structure Stamp where
  wall : ℤ
  offset : ℤ
  deriving DecidableEq

def Stamp.instant (s : Stamp) : ℤ := s.wall - s.offset

/-- A `datetime`, which may be naive. -/
structure Datetime where
  wall : ℤ
  offset : Option ℤ
  deriving DecidableEq

/-- A row of the table `sessions`. -/
structure Session where
  id : ℕ
  name : Option String
  startUtc : Stamp
  endUtc : Option Stamp := none
  role : String
  notes : Option String
  deriving DecidableEq

/-- The table `sessions` : its rows, and the AUTOINCREMENT counter. -/
structure Table where
  rows : List Session := []
  nextId : ℕ := 1
  deriving DecidableEq

/-- `_stamp` : a naive time is UTC, and without a time it is that of the host. -/
def stamp (now : Option Datetime) (host : ℤ) : Stamp :=
  match now with
  | none => ⟨host, 0⟩
  | some now => ⟨now.wall, now.offset.getD 0⟩

/-- `_end`. -/
def endStamp (start now : Stamp) : Stamp := if start.instant < now.instant then now else start

namespace Table

variable (t : Table)

/-- `SELECT * FROM sessions WHERE end_utc IS NULL ORDER BY id DESC LIMIT 1`. -/
def current : Option Session := (t.rows.filter (·.endUtc.isNone)).argmax Session.id

/-- `SELECT * FROM sessions WHERE id = ?`. -/
def get (id : ℕ) : Option Session := t.rows.find? (·.id = id)

/-- `UPDATE sessions SET end_utc = ? WHERE id = ?`. -/
def ended (stamp : Stamp) (id : ℕ) : Table :=
  { t with rows := t.rows.map fun r => if r.id = id then { r with endUtc := some stamp } else r }

/-- The INSERT of `start`. -/
def inserted (name : Option String) (start : Stamp) (role : String) (notes : Option String) :
    Table where
  rows := t.rows ++ [{ id := t.nextId, name, startUtc := start, role, notes }]
  nextId := t.nextId + 1

/-- How many sessions are open. -/
def openCount : ℕ := t.rows.countP (·.endUtc.isNone)

/-- At most one session is open, and no end is before its start. -/
structure Valid : Prop where
  single : t.openCount ≤ 1
  ordered : ∀ r ∈ t.rows, ∀ e, r.endUtc = some e → r.startUtc.instant ≤ e.instant
  ids : (t.rows.map Session.id).Nodup
  old : ∀ r ∈ t.rows, r.id < t.nextId

end Table

/-! ## The calls -/

inductive Call
  | start (name : Option String) (role : String) (notes : Option String) (now : Option Datetime)
    (host : ℤ)
  | stop (now : Option Datetime) (host : ℤ)
  deriving DecidableEq

open Serial

/-- `start` from its INSERT on, and the read of the row inserted. -/
def opening (name : Option String) (start : Stamp) (role : String) (notes : Option String) :
    Body Table Empty (Option Session) :=
  .stmt (fun t => .ok (t.inserted name start role notes)) fun t =>
    .ret (.read fun t' => (t'.get t.nextId).map some)

/-- The transaction of each call. -/
def body : Call → Body Table Empty (Option Session)
  | .start name role notes now host =>
    .select fun t =>
      match t.current with
      | some current =>
        .update (·.ended (endStamp current.startUtc (stamp now host)) current.id)
          (opening name (stamp now host) role notes)
      | none => opening name (stamp now host) role notes
  | .stop now host =>
    .select fun t =>
      match t.current with
      | some current =>
        .update (·.ended (endStamp current.startUtc (stamp now host)) current.id)
          (.ret (.read fun t => some (t.get current.id)))
      | none => .ret (.done none)

/-! ## What a statement keeps -/

variable {t : Table}

theorem le_endStamp (start now : Stamp) : start.instant ≤ (endStamp start now).instant := by
  unfold endStamp
  split <;> omega

theorem current_eq_none : t.current = none ↔ t.openCount = 0 := by
  rw [Table.current, List.argmax_eq_none, Table.openCount, List.countP_eq_length_filter,
    List.length_eq_zero_iff]

theorem mem_of_current {r : Session} (h : t.current = some r) : r ∈ t.rows ∧ r.endUtc = none := by
  obtain ⟨hmem, hopen⟩ := List.mem_filter.1 (List.argmax_mem h)
  exact ⟨hmem, Option.isNone_iff_eq_none.1 hopen⟩

theorem eq_of_id (h : t.Valid) {a b : Session} (ha : a ∈ t.rows) (hb : b ∈ t.rows)
    (hab : a.id = b.id) : a = b :=
  List.inj_on_of_nodup_map h.ids ha hb hab

/-- The row the UPDATE leaves of a row. -/
theorem mem_ended {stamp : Stamp} {id : ℕ} {r : Session} (h : r ∈ (t.ended stamp id).rows) :
    (r ∈ t.rows ∧ r.id ≠ id) ∨
      ∃ r₀ ∈ t.rows, r₀.id = id ∧ r = { r₀ with endUtc := some stamp } := by
  obtain ⟨r₀, hr₀, rfl⟩ := List.mem_map.1 h
  by_cases hid : r₀.id = id
  · exact Or.inr ⟨r₀, hr₀, hid, if_pos hid⟩
  · rw [if_neg hid]
    exact Or.inl ⟨hr₀, hid⟩

theorem eq_of_open (h : t.openCount ≤ 1) {a b : Session} (ha : a ∈ t.rows) (hb : b ∈ t.rows)
    (ha' : a.endUtc = none) (hb' : b.endUtc = none) : a = b := by
  rw [Table.openCount, List.countP_eq_length_filter] at h
  have hmem : a ∈ t.rows.filter (·.endUtc.isNone) := List.mem_filter.2 ⟨ha, by simp [ha']⟩
  have hmem' : b ∈ t.rows.filter (·.endUtc.isNone) := List.mem_filter.2 ⟨hb, by simp [hb']⟩
  obtain ⟨r, hr⟩ := List.length_eq_one_iff.1 (le_antisymm h (List.length_pos_of_mem hmem))
  rw [hr] at hmem hmem'
  exact (List.mem_singleton.1 hmem).trans (List.mem_singleton.1 hmem').symm

/-- The one open session is ended, and none is open. -/
theorem openCount_ended (h : t.Valid) {stamp : Stamp} {r : Session} (hr : t.current = some r) :
    (t.ended stamp r.id).openCount = 0 := by
  refine List.countP_eq_zero.2 fun r' hr' hopen => ?_
  rcases mem_ended hr' with ⟨hmem, hne⟩ | ⟨r₀, -, -, rfl⟩
  · obtain ⟨hr, hropen⟩ := mem_of_current hr
    exact hne (congrArg Session.id
      (eq_of_open h.single hmem hr (Option.isNone_iff_eq_none.1 hopen) hropen))
  · cases hopen

theorem valid_ended (h : t.Valid) {now : Stamp} {r : Session} (hr : t.current = some r) :
    (t.ended (endStamp r.startUtc now) r.id).Valid where
  single := by
    rw [openCount_ended h hr]
    exact Nat.zero_le _
  ordered r' hr' e he := by
    rcases mem_ended hr' with ⟨hmem, -⟩ | ⟨r₀, hr₀, hid, rfl⟩
    · exact h.ordered r' hmem e he
    · obtain rfl := eq_of_id h hr₀ (mem_of_current hr).1 hid
      obtain rfl := Option.some.inj he
      exact le_endStamp _ _
  ids := by
    have hids : (t.ended (endStamp r.startUtc now) r.id).rows.map Session.id =
        t.rows.map Session.id := by
      simp only [Table.ended, List.map_map]
      refine List.map_congr_left fun s _ => ?_
      simp only [Function.comp_apply]
      split <;> rfl
    rw [hids]
    exact h.ids
  old r' hr' := by
    rcases mem_ended hr' with ⟨hmem, -⟩ | ⟨r₀, hr₀, -, rfl⟩
    · exact h.old r' hmem
    · exact h.old r₀ hr₀

theorem valid_inserted (h : t.Valid) (hopen : t.openCount = 0) (name : Option String)
    (start : Stamp) (role : String) (notes : Option String) :
    (t.inserted name start role notes).Valid where
  single := by
    have : t.rows.countP (·.endUtc.isNone) = 0 := hopen
    simp [Table.openCount, Table.inserted, List.countP_append, this]
  ordered r hr e he := by
    rcases List.mem_append.1 hr with hr | hr
    · exact h.ordered r hr e he
    · obtain rfl := List.mem_singleton.1 hr
      cases he
  ids := by
    simp only [Table.inserted, List.map_append, List.map_cons, List.map_nil]
    refine List.Nodup.append h.ids (List.nodup_singleton _) ?_
    intro n hn hn'
    obtain ⟨r, hr, rfl⟩ := List.mem_map.1 hn
    exact Nat.ne_of_lt (h.old r hr) (List.mem_singleton.1 hn')
  old r hr := by
    rcases List.mem_append.1 hr with hr | hr
    · exact Nat.lt_succ_of_lt (h.old r hr)
    · obtain rfl := List.mem_singleton.1 hr
      exact Nat.lt_succ_self _

theorem opening_along (h : t.Valid) (hopen : t.openCount = 0) (name : Option String)
    (start : Stamp) (role : String) (notes : Option String) :
    (opening name start role notes).Along Table.Valid t := by
  refine ⟨h, fun t' ht' => ?_⟩
  obtain rfl := Except.ok.inj ht'
  exact valid_inserted h hopen name start role notes

theorem body_along (c : Call) (t : Table) (h : t.Valid) : (body c).Along Table.Valid t := by
  cases c with
  | start name role notes now host =>
    refine Body.along_select.2 ⟨h, ?_⟩
    cases hcurrent : t.current with
    | none => exact opening_along h (current_eq_none.1 hcurrent) _ _ _ _
    | some r =>
      exact Body.along_update.2 ⟨h, opening_along (valid_ended h hcurrent)
        (openCount_ended h hcurrent) _ _ _ _⟩
  | stop now host =>
    refine Body.along_select.2 ⟨h, ?_⟩
    cases hcurrent : t.current with
    | none => exact h
    | some r => exact Body.along_update.2 ⟨h, valid_ended h hcurrent⟩

/-! ## Ends -/

/-- A row that has ended stays as it is. -/
theorem mem_ended_of_isSome (h : t.Valid) {stamp : Stamp} {r r' : Session} (hr : t.current = some r)
    (hr' : r' ∈ t.rows) (hend : r'.endUtc.isSome) : r' ∈ (t.ended stamp r.id).rows := by
  have hne : r'.id ≠ r.id := by
    intro hid
    obtain rfl := eq_of_id h hr' (mem_of_current hr).1 hid
    simp [(mem_of_current hr).2] at hend
  exact List.mem_map.2 ⟨r', hr', if_neg hne⟩

theorem mem_opening {name : Option String} {start : Stamp} {role : String} {notes : Option String}
    {after : After Table (Option Session)} {t' : Table}
    (hrun : (opening name start role notes).run t = .ok (after, t')) {r : Session}
    (hr : r ∈ t.rows) : r ∈ t'.rows := by
  obtain ⟨-, rfl⟩ := Prod.mk.inj (Except.ok.inj hrun)
  exact List.mem_append_left _ hr

/-- No call touches a session that has ended. -/
theorem mem_run (h : t.Valid) {c : Call} {after : After Table (Option Session)} {t' : Table}
    (hrun : (body c).run t = .ok (after, t')) {r : Session} (hr : r ∈ t.rows)
    (hend : r.endUtc.isSome) : r ∈ t'.rows := by
  cases c with
  | start name role notes now host =>
    rw [body, Body.run_select] at hrun
    cases hcurrent : t.current with
    | none =>
      rw [hcurrent] at hrun
      exact mem_opening hrun hr
    | some current =>
      rw [hcurrent] at hrun
      exact mem_opening hrun (mem_ended_of_isSome h hcurrent hr hend)
  | stop now host =>
    rw [body, Body.run_select] at hrun
    cases hcurrent : t.current with
    | none =>
      rw [hcurrent] at hrun
      obtain ⟨-, rfl⟩ := Prod.mk.inj (Except.ok.inj hrun)
      exact hr
    | some current =>
      rw [hcurrent] at hrun
      obtain ⟨-, rfl⟩ := Prod.mk.inj (Except.ok.inj hrun)
      exact mem_ended_of_isSome h hcurrent hr hend

/-- At most one session is open and no end is before its start, in the table and in the transaction
that is open, and the row of a session that has ended is the same in every later state. -/
theorem sessions_apart {t₀ : Table} (h₀ : t₀.Valid) {s : State Table Empty (Option Session) Call}
    (h : Reachable (State.step body) { table := t₀ } s) :
    (s.table.openCount ≤ 1 ∧
      ∀ r ∈ s.table.rows, ∀ e, r.endUtc = some e → r.startUtc.instant ≤ e.instant) ∧
    (∀ t, s.working = some t → t.openCount ≤ 1 ∧
      ∀ r ∈ t.rows, ∀ e, r.endUtc = some e → r.startUtc.instant ≤ e.instant) ∧
    ∀ es s', run (State.step body) s es = some s' → ∀ r ∈ s.table.rows, r.endUtc.isSome →
      r ∈ s'.table.rows ∧ ∀ r' ∈ s'.table.rows, r'.id = r.id → r' = r := by
  have hiso := isolated_of_reachable body_along h₀ h
  refine ⟨⟨hiso.good.single, hiso.good.ordered⟩, fun t ht => ?_, fun es s' hr r hmem hend => ?_⟩
  · exact ⟨(hiso.copy t ht).single, (hiso.copy t ht).ordered⟩
  · have hmem' : r ∈ s'.table.rows := by
      refine run_table (P := Table.Valid) (Q := fun t => r ∈ t.rows) body_along h₀ ?_ h hr hmem
      exact fun c t after t' ht hmem hrun => mem_run ht hrun hmem hend
    have hgood := (isolated_of_reachable body_along h₀ (h.later hr)).good
    exact ⟨hmem', fun r' hr' hid => eq_of_id hgood hr' hmem' hid⟩

/-- Two sessions are started, the second at a time before the first, and the last is stopped. -/
theorem sessions_apart_back :
    ∃ (s : State Table Empty (Option Session) Call) (r : Session), r ∈ s.table.rows ∧
      r.endUtc = some ⟨10, 0⟩ ∧ s.table.openCount ≤ 1 ∧
      ∀ es s', run (State.step body) s es = some s' → r ∈ s'.table.rows := by
  have hrun : ((run (State.step body) { table := {} }
      [.call 0 (.start none "rover" none none 10),
        .call 1 (.start none "rover" none (some ⟨5, none⟩) 0), .acquire 0, .resume 0, .resume 0,
        .resume 0, .resume 0, .acquire 1, .resume 1, .resume 1, .resume 1, .resume 1,
        .resume 1]).map fun s => s.table.rows[0]?) =
      some (some ⟨1, none, ⟨10, 0⟩, some ⟨10, 0⟩, "rover", none⟩) := by decide +kernel
  obtain ⟨s, hs, hrow⟩ := Option.map_eq_some_iff.1 hrun
  have hvalid : ({} : Table).Valid := ⟨by decide, by simp, by simp, by simp⟩
  obtain ⟨⟨hopen, -⟩, -, hkept⟩ := sessions_apart hvalid ⟨_, hs⟩
  have hmem := List.mem_of_getElem? hrow
  exact ⟨s, _, hmem, rfl, hopen, fun es s' hr => (hkept es s' hr _ hmem rfl).1⟩

end SessionsRepo

end Mtrtk
