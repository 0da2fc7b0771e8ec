import Mathlib.Data.List.Nodup
import Mathlib.Data.Option.Basic
import Mathlib.Logic.Function.Basic
import Mtrtk.Run

/-!
# Transactions one at a time

Tasks share a table behind a lock. A call is a transaction, whose `Body` is statements that read and
write the table and may raise, and after it perhaps a read. It gets the lock, opens the transaction,
does one statement after the other on a copy of the table (`working`), and keeps the copy or drops
it. Between two awaits of one task any other may go on. Whatever is awaited may fail; where COMMIT
or ROLLBACK does, the copy stays and no transaction can be opened any more. What is not here is
a task that is cancelled.

`Isolated` says that the table is what the committed calls leave when each is run by itself in their
order. A property that every statement keeps (`Body.Along`) holds of the table, and of the copy
(`isolated_of_reachable`).
-/

namespace Mtrtk

namespace Serial

/-! ## Calls -/

/-- What ends a call by an exception. -/
inductive Failure (ε : Type)
  /-- Its body raised. -/
  | raised (e : ε)
  | database
  /-- It does not find what it reads after the transaction. -/
  | assertion
  deriving DecidableEq

/-- What comes after a transaction. -/
inductive After (τ ρ : Type)
  | done (r : ρ)
  | read (get : τ → Option ρ)

/-- The body of a transaction over a table `τ`. What comes after a statement may depend on the table
before it. -/
inductive Body (τ ε ρ : Type)
  | ret (after : After τ ρ)
  | throw (e : ε)
  | stmt (write : τ → Except ε τ) (next : τ → Body τ ε ρ)

namespace Body

variable {τ ε ρ : Type}

/-- A SELECT. -/
def select (next : τ → Body τ ε ρ) : Body τ ε ρ := .stmt .ok next

/-- A statement that writes, and does not raise. -/
def update (write : τ → τ) (next : Body τ ε ρ) : Body τ ε ρ :=
  .stmt (fun table => .ok (write table)) fun _ => next

/-- The body by itself. -/
def run : Body τ ε ρ → τ → Except ε (After τ ρ × τ)
  | .ret after, table => .ok (after, table)
  | .throw e, _ => .error e
  | .stmt write next, table => (write table).bind fun table' => (next table).run table'

/-- `P` holds of the table before and after each statement. -/
def Along (P : τ → Prop) : Body τ ε ρ → τ → Prop
  | .ret _, table | .throw _, table => P table
  | .stmt write next, table =>
    P table ∧ ∀ table', write table = .ok table' → (next table).Along P table'

section

variable {P : τ → Prop} {table : τ}

@[simp] theorem run_select (next : τ → Body τ ε ρ) :
    (select next).run table = (next table).run table := rfl

@[simp] theorem run_update (write : τ → τ) (next : Body τ ε ρ) :
    (update write next).run table = next.run (write table) := rfl

@[simp] theorem along_select {next : τ → Body τ ε ρ} :
    (select next).Along P table ↔ P table ∧ (next table).Along P table := by
  simp [select, Along]

@[simp] theorem along_update {write : τ → τ} {next : Body τ ε ρ} :
    (update write next).Along P table ↔ P table ∧ next.Along P (write table) := by
  simp [update, Along]

end

theorem Along.here {P : τ → Prop} {b : Body τ ε ρ} {table : τ} (h : b.Along P table) : P table := by
  cases b with
  | ret after => exact h
  | throw e => exact h
  | stmt write next => exact h.1

theorem Along.run {P : τ → Prop} {b : Body τ ε ρ} {table table' : τ} {after : After τ ρ}
    (h : b.Along P table) (hrun : b.run table = .ok (after, table')) : P table' := by
  induction b generalizing table with
  | ret a =>
    obtain ⟨-, rfl⟩ := Prod.mk.inj (Except.ok.inj hrun)
    exact h
  | throw e => cases hrun
  | stmt write next ih =>
    rw [Body.run] at hrun
    cases hwrite : write table with
    | error e =>
      rw [hwrite] at hrun
      cases hrun
    | ok table₁ =>
      rw [hwrite] at hrun
      exact ih table (h.2 table₁ hwrite) hrun

end Body

/-! ## The machine -/

variable {τ ε ρ κ : Type}

/-- Where a task is in its call. One that rolls back has what its body raised, and nothing where the
database failed. -/
inductive Pc (τ ε ρ κ : Type)
  | idle
  | locking (call : ℕ × κ)
  | beginning (call : ℕ × κ)
  | within (call : ℕ × κ) (rest : Body τ ε ρ)
  | committing (call : ℕ × κ) (after : After τ ρ)
  | rollingBack (call : ℕ × κ) (raised : Option ε)
  | relocking (call : ℕ × κ) (get : τ → Option ρ)
  | reading (call : ℕ × κ) (get : τ → Option ρ)

/-- The table, the copy of the transaction that is open, and the tasks. A call has a number.
`log` is the calls that were committed, `finished` those that are over and how. -/
structure State (τ ε ρ κ : Type) where
  table : τ
  working : Option τ := none
  lock : Option ℕ := none
  pc : ℕ → Pc τ ε ρ κ := fun _ => .idle
  next : ℕ := 0
  log : List (ℕ × κ) := []
  finished : List ((ℕ × κ) × Except (Failure ε) ρ) := []

inductive Event (κ : Type)
  | call (t : ℕ) (k : κ)
  | acquire (t : ℕ)
  | resume (t : ℕ)
  | fail (t : ℕ)

namespace Pc

/-- Where a task goes on in its body. -/
def settle (call : ℕ × κ) : Body τ ε ρ → Pc τ ε ρ κ
  | .ret after => .committing call after
  | .throw e => .rollingBack call (some e)
  | .stmt write next => .within call (.stmt write next)

def call : Pc τ ε ρ κ → Option (ℕ × κ)
  | .idle => none
  | .locking c | .beginning c | .within c _ | .committing c _ | .rollingBack c _
  | .relocking c _ | .reading c _ => some c

/-- Whether its transaction was committed. -/
def committed : Pc τ ε ρ κ → Bool
  | .relocking _ _ | .reading _ _ => true
  | _ => false

/-- Whether it has the lock. -/
def holds : Pc τ ε ρ κ → Bool
  | .idle | .locking _ | .relocking _ _ => false
  | _ => true

end Pc

namespace State

variable (s : State τ ε ρ κ) (t : ℕ)

def goto (pc : Pc τ ε ρ κ) : State τ ε ρ κ := { s with pc := Function.update s.pc t pc }

/-- The lock is released. -/
def release (pc : Pc τ ε ρ κ) : State τ ε ρ κ :=
  { s with lock := none, pc := Function.update s.pc t pc }

/-- The call is over. -/
def finish (call : ℕ × κ) (result : Except (Failure ε) ρ) : State τ ε ρ κ :=
  { s.release t .idle with finished := s.finished ++ [(call, result)] }

/-- The transaction is committed. -/
def commit (call : ℕ × κ) (table : τ) : After τ ρ → State τ ε ρ κ
  | .done r =>
    { s with table, working := none, log := s.log ++ [call] }.finish t call (.ok r)
  | .read get =>
    { s with table, working := none, log := s.log ++ [call] }.release t (.relocking call get)

/-- What a read finds. -/
def found (get : τ → Option ρ) : Except (Failure ε) ρ :=
  match get (s.working.getD s.table) with
  | some r => .ok r
  | none => .error .assertion

variable (body : κ → Body τ ε ρ)

/-- What was awaited is done. -/
def onResume : Option (State τ ε ρ κ) :=
  match s.pc t with
  | .beginning c =>
    if s.working.isNone then
      some ({ s with working := some s.table }.goto t (.settle c (body c.2)))
    else none
  | .within c (.stmt write next) =>
    s.working.map fun w =>
      match write w with
      | .ok w' => { s with working := some w' }.goto t (.settle c (next w))
      | .error e => s.goto t (.rollingBack c (some e))
  | .committing c after => s.working.map fun w => s.commit t c w after
  | .rollingBack c raised =>
    some ({ s with working := none }.finish t c (.error (raised.elim .database .raised)))
  | .reading c get => some (s.finish t c (s.found get))
  | _ => none

/-- What was awaited fails. -/
def onFail : Option (State τ ε ρ κ) :=
  match s.pc t with
  | .beginning c | .reading c _ => some (s.finish t c (.error .database))
  | .within c _ => some (s.goto t (.rollingBack c none))
  | .committing c _ | .rollingBack c _ => some (s.finish t c (.error .database))
  | _ => none

def onAcquire : Option (State τ ε ρ κ) :=
  match s.pc t, s.lock with
  | .locking c, none => some ({ s with lock := some t }.goto t (.beginning c))
  | .relocking c get, none => some ({ s with lock := some t }.goto t (.reading c get))
  | _, _ => none

def onCall (k : κ) : Option (State τ ε ρ κ) :=
  match s.pc t with
  | .idle => some ({ s with next := s.next + 1 }.goto t (.locking (s.next, k)))
  | _ => none

def step (body : κ → Body τ ε ρ) (s : State τ ε ρ κ) : Event κ → Option (State τ ε ρ κ)
  | .call t k => s.onCall t k
  | .acquire t => s.onAcquire t
  | .resume t => s.onResume t body
  | .fail t => s.onFail t

end State

/-! ## Serial runs -/

/-- The calls run one after the other, each to its end. -/
def runLog (body : κ → Body τ ε ρ) (table : τ) (log : List (ℕ × κ)) : Option τ :=
  log.foldlM (fun table c => ((body c.2).run table).toOption.map Prod.snd) table

theorem runLog_append {body : κ → Body τ ε ρ} {table₀ table : τ} {log : List (ℕ × κ)}
    (h : runLog body table₀ log = some table) (rest : List (ℕ × κ)) :
    runLog body table₀ (log ++ rest) = runLog body table rest := by
  unfold runLog at h ⊢
  rw [List.foldlM_append, h]
  rfl

theorem runLog_singleton {body : κ → Body τ ε ρ} {table table' : τ} {c : ℕ × κ} {after : After τ ρ}
    (hc : (body c.2).run table = .ok (after, table')) : runLog body table [c] = some table' := by
  simp [runLog, hc, Except.toOption]

/-- What every call keeps holds after the calls. -/
theorem runLog_induction {body : κ → Body τ ε ρ} {table₀ : τ} (P : List (ℕ × κ) → τ → Prop)
    (h₀ : P [] table₀) (hstep : ∀ log table c after table', P log table →
      (body c.2).run table = .ok (after, table') → P (log ++ [c]) table') :
    ∀ {log table}, runLog body table₀ log = some table → P log table := by
  intro log
  induction log using List.reverseRecOn with
  | nil =>
    intro table h
    obtain rfl := Option.some.inj h
    exact h₀
  | append_singleton log c ih =>
    intro table h
    unfold runLog at h ih
    rw [List.foldlM_append] at h
    obtain ⟨table', hlog, hc⟩ := Option.bind_eq_some_iff.1 h
    cases hrun : (body c.2).run table' with
    | error e => simp [hrun, Except.toOption] at hc
    | ok r =>
      obtain rfl : r.2 = table := by simpa [hrun, Except.toOption] using hc
      exact hstep log table' c r.1 r.2 (ih hlog) hrun

/-! ## What holds -/

section Invariant

variable {body : κ → Body τ ε ρ} {P : τ → Prop} {table₀ : τ} {s s' : State τ ε ρ κ} {t : ℕ}

/-- Where the task that has the lock is, and what there is of its transaction. -/
def Held (body : κ → Body τ ε ρ) (P : τ → Prop) (s : State τ ε ρ κ) : Pc τ ε ρ κ → Prop
  | .beginning _ | .reading _ _ => True
  | .within c rest =>
    ∃ w, s.working = some w ∧ rest.run w = (body c.2).run s.table ∧ rest.Along P w
  | .committing c after =>
    ∃ w, s.working = some w ∧ (body c.2).run s.table = .ok (after, w)
  | .rollingBack c raised => ∀ e, raised = some e → (body c.2).run s.table = .error e
  | .idle | .locking _ | .relocking _ _ => False

/-- What holds of the table, the copy and the lock. -/
structure Isolated (body : κ → Body τ ε ρ) (P : τ → Prop) (table₀ : τ) (s : State τ ε ρ κ) :
    Prop where
  serial : runLog body table₀ s.log = some s.table
  good : P s.table
  copy : ∀ w, s.working = some w → P w
  away : ∀ t, s.lock ≠ some t → (s.pc t).holds = false
  held : ∀ t, s.lock = some t → Held body P s (s.pc t)

theorem not_held {pc : Pc τ ε ρ κ} (h : pc.holds = false) : ¬Held body P s pc := by
  cases pc <;> simp_all [Pc.holds, Held]

theorem Isolated.lock_of_holds (h : Isolated body P table₀ s) (hpc : (s.pc t).holds = true) :
    s.lock = some t :=
  by_contra fun hne => by simp [h.away t hne] at hpc

theorem Isolated.lock_ne (h : Isolated body P table₀ s) (hpc : (s.pc t).holds = false) :
    s.lock ≠ some t :=
  fun hlock => not_held hpc (h.held t hlock)

/-- A task without the lock goes on. -/
theorem Isolated.goto_away (h : Isolated body P table₀ s) {pc : Pc τ ε ρ κ} {next : ℕ}
    (hold : (s.pc t).holds = false) (hnew : pc.holds = false) :
    Isolated body P table₀ ({ s with next := next }.goto t pc) where
  serial := h.serial
  good := h.good
  copy := h.copy
  away u hu := by
    by_cases hut : u = t
    · subst hut
      simpa [State.goto] using hnew
    · simpa [State.goto, hut] using h.away u hu
  held u hu := by
    have hut : u ≠ t := fun hut => h.lock_ne hold (hut ▸ hu)
    have hheld := h.held u hu
    simp only [State.goto, Function.update_of_ne hut]
    exact hheld

/-- A task gets the lock. -/
theorem Isolated.goto_locked (h : Isolated body P table₀ s) {pc : Pc τ ε ρ κ}
    (hlock : s.lock = none) (hnew : Held body P s pc) :
    Isolated body P table₀ ({ s with lock := some t }.goto t pc) where
  serial := h.serial
  good := h.good
  copy := h.copy
  away u hu := by
    have hut : u ≠ t := fun hut => hu (by simp [State.goto, hut])
    simp only [State.goto, Function.update_of_ne hut]
    exact h.away u (by simp [hlock])
  held u hu := by
    obtain rfl : t = u := by simpa [State.goto] using hu
    simp only [State.goto, Function.update_self]
    cases pc <;> exact hnew

/-- The task that has the lock goes on. -/
theorem Isolated.goto_held (h : Isolated body P table₀ s) {pc : Pc τ ε ρ κ} {working : Option τ}
    (hlock : s.lock = some t) (hnew : Held body P { s with working := working } pc)
    (hcopy : ∀ w, working = some w → P w) :
    Isolated body P table₀ ({ s with working := working }.goto t pc) where
  serial := h.serial
  good := h.good
  copy := hcopy
  away u hu := by
    have hut : u ≠ t := fun hut => hu (hut ▸ hlock)
    simp only [State.goto, Function.update_of_ne hut]
    exact h.away u hu
  held u hu := by
    obtain rfl : t = u := Option.some.inj (hlock.symm.trans hu)
    simp only [State.goto, Function.update_self]
    cases pc <;> exact hnew

/-- The task that has the lock gives it back. -/
theorem Isolated.release (h : Isolated body P table₀ s) {pc : Pc τ ε ρ κ} (hlock : s.lock = some t)
    (hpc : s'.pc = Function.update s.pc t pc) (hnew : pc.holds = false) (hfree : s'.lock = none)
    (hserial : runLog body table₀ s'.log = some s'.table) (hgood : P s'.table)
    (hcopy : ∀ w, s'.working = some w → P w) : Isolated body P table₀ s' where
  serial := hserial
  good := hgood
  copy := hcopy
  away u _ := by
    rw [hpc]
    by_cases hut : u = t
    · subst hut
      simpa using hnew
    · rw [Function.update_of_ne hut]
      exact h.away u fun hu => hut (Option.some.inj (hu.symm.trans hlock))
  held u hu := absurd (hfree.symm.trans hu) (by simp)

/-- A call is over, and the table and the copy are left as they are. -/
theorem Isolated.finish (h : Isolated body P table₀ s) {c : ℕ × κ} {result : Except (Failure ε) ρ}
    (hpc : (s.pc t).holds = true) : Isolated body P table₀ (s.finish t c result) :=
  h.release (h.lock_of_holds hpc) rfl rfl rfl h.serial h.good h.copy

theorem held_settle {working : Option τ} {c : ℕ × κ} {rest : Body τ ε ρ} {w : τ}
    (hw : working = some w) (hrun : rest.run w = (body c.2).run s.table)
    (halong : rest.Along P w) :
    Held body P { s with working := working } (.settle c rest) := by
  cases rest with
  | ret after => exact ⟨w, hw, hrun.symm⟩
  | throw e =>
    intro e' he
    obtain rfl := Option.some.inj he
    exact hrun.symm
  | stmt write next => exact ⟨w, hw, hrun, halong⟩

/-- Each step keeps the table what the committed calls leave. -/
theorem Isolated.step (hbody : ∀ k table, P table → (body k).Along P table)
    (h : Isolated body P table₀ s) {e : Event κ} (hs : s.step body e = some s') :
    Isolated body P table₀ s' := by
  cases e with
  | call t k =>
    simp only [State.step, State.onCall] at hs
    split at hs
    next hpc =>
      obtain rfl := Option.some.inj hs
      exact h.goto_away (by simp [hpc, Pc.holds]) rfl
    next => cases hs
  | acquire t =>
    simp only [State.step, State.onAcquire] at hs
    split at hs
    next hlock =>
      obtain rfl := Option.some.inj hs
      exact h.goto_locked hlock trivial
    next hlock =>
      obtain rfl := Option.some.inj hs
      exact h.goto_locked hlock trivial
    next => cases hs
  | fail t =>
    simp only [State.step, State.onFail] at hs
    split at hs
    next hpc =>
      obtain rfl := Option.some.inj hs
      exact h.finish (by simp [hpc, Pc.holds])
    next hpc =>
      obtain rfl := Option.some.inj hs
      exact h.finish (by simp [hpc, Pc.holds])
    next hpc =>
      obtain rfl := Option.some.inj hs
      have hlock := h.lock_of_holds (t := t) (by simp [hpc, Pc.holds])
      exact h.goto_held hlock (by simp [Held]) h.copy
    next hpc =>
      obtain rfl := Option.some.inj hs
      exact h.finish (by simp [hpc, Pc.holds])
    next hpc =>
      obtain rfl := Option.some.inj hs
      exact h.finish (by simp [hpc, Pc.holds])
    next => cases hs
  | resume t =>
    simp only [State.step, State.onResume] at hs
    split at hs
    next c hpc =>
      obtain ⟨hnone, heq⟩ := Option.ite_none_right_eq_some.1 hs
      obtain rfl := Option.some.inj heq
      have hlock := h.lock_of_holds (t := t) (by simp [hpc, Pc.holds])
      refine h.goto_held hlock (held_settle rfl rfl (hbody _ _ h.good)) fun w hw => ?_
      obtain rfl := Option.some.inj hw
      exact h.good
    next c write next hpc =>
      obtain ⟨w, hw, rfl⟩ := Option.map_eq_some_iff.1 hs
      have hlock := h.lock_of_holds (t := t) (by simp [hpc, Pc.holds])
      obtain ⟨w', hw', hrun, halong⟩ := hpc ▸ h.held t hlock
      obtain rfl := Option.some.inj (hw.symm.trans hw')
      rw [Body.run] at hrun
      cases hwrite : write w with
      | ok w' =>
        rw [hwrite] at hrun
        have halong' := halong.2 w' hwrite
        refine h.goto_held hlock (held_settle rfl hrun halong') fun w hw => ?_
        obtain rfl := Option.some.inj hw
        exact halong'.here
      | error e =>
        rw [hwrite] at hrun
        refine h.goto_held hlock (fun e' he => ?_) h.copy
        obtain rfl := Option.some.inj he
        exact hrun.symm
    next c after hpc =>
      obtain ⟨w, hw, rfl⟩ := Option.map_eq_some_iff.1 hs
      have hlock := h.lock_of_holds (t := t) (by simp [hpc, Pc.holds])
      obtain ⟨w', hw', hrun⟩ := hpc ▸ h.held t hlock
      obtain rfl := Option.some.inj (hw.symm.trans hw')
      have hserial := (runLog_append h.serial [c]).trans (runLog_singleton hrun)
      cases after with
      | done r => exact h.release hlock rfl rfl rfl hserial (h.copy w hw) (by rintro _ ⟨⟩)
      | read get => exact h.release hlock rfl rfl rfl hserial (h.copy w hw) (by rintro _ ⟨⟩)
    next c failure hpc =>
      obtain rfl := Option.some.inj hs
      have hlock := h.lock_of_holds (t := t) (by simp [hpc, Pc.holds])
      exact h.release hlock rfl rfl rfl h.serial h.good (by rintro _ ⟨⟩)
    next c get hpc =>
      obtain rfl := Option.some.inj hs
      exact h.finish (by simp [hpc, Pc.holds])
    next => cases hs

theorem isolated_of_reachable (hbody : ∀ k table, P table → (body k).Along P table)
    (h₀ : P table₀) (h : Reachable (State.step body) { table := table₀ } s) :
    Isolated body P table₀ s := by
  refine h.invariant (Isolated body P table₀) ?_ fun s e s' _ hs he => hs.step hbody he
  exact ⟨rfl, h₀, by rintro _ ⟨⟩, fun _ _ => rfl, by rintro _ ⟨⟩⟩

end Invariant

end Serial

end Mtrtk
