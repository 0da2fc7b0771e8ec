import Mathlib.Data.List.Basic
import Mathlib.Logic.Function.Basic
import Mathlib.Order.Lattice
import Mtrtk.Run

/-!
# Migrations of the database

`store/db.py` : `Database.open` of any number of processes on one file, each with a connection of
its own, and `_migrate`. A step is what one of them does to the file : it reads `user_version`,
begins a migration, runs the next statement of its script, commits, raises, or is gone at any point.

A statement is a partial function of the schema. SQLite is its transactions : one of them is open
for writing at a time, and what it did is in the file once it is committed, with the
`user_version` set in it, or not at all.

`migrated` is what the file holds where a migration begins at the version that was read (`current`),
as it does where opens do not overlap : each migration up to its version, once and in order.
`stale_open` is what becomes of two that do.
-/

namespace Mtrtk

namespace Migrations

/-- A script, one statement after the other. -/
abbrev Script (σ : Type*) := List (σ → Option σ)

/-- The migrations, as `_migrations` sorts them. -/
structure Schema (σ : Type*) where
  list : List (ℕ × Script σ)
  sorted : list.Pairwise fun a b => a.1 < b.1

/-- The database file. -/
structure File (σ : Type*) where
  schema : σ
  version : ℕ
  deriving DecidableEq

/-- Where a process is. `rest` is what is left of the loop of `_migrate`. -/
inductive Proc (σ : Type*)
  | shut
  | connected (readonly : Bool)
  | migrating (version : ℕ) (script : Script σ) (rest : List (ℕ × Script σ)) (current : ℕ)
  /-- In a transaction : the statements still to run, and the schema they run on. -/
  | applying (version : ℕ) (todo : Script σ) (work : σ) (rest : List (ℕ × Script σ))
  | opened (version : ℕ)

/-- The file, and all that open it. -/
structure Store (σ : Type*) where
  file : File σ
  /-- The process whose transaction is open. -/
  writer : Option ℕ := none
  proc : ℕ → Proc σ := fun _ => .shut

/-- What a process does next. -/
inductive Event
  | connect (readonly : Bool)
  | read
  | begin
  /-- BEGIN IMMEDIATE gives up waiting for another transaction. -/
  | busy
  | statement
  | commit
  /-- It raises, is cancelled, crashes, or closes its connection. -/
  | gone
  deriving DecidableEq

variable {σ : Type*}

/-- The script, all of it. -/
def Script.run (script : Script σ) (schema : σ) : Option σ :=
  script.foldlM (fun s stmt => stmt s) schema

/-- The loop of `_migrate`, up to the next migration. -/
def proceed (current : ℕ) : List (ℕ × Script σ) → Proc σ
  | [] => .opened current
  | (version, script) :: rest =>
    if version ≤ current then proceed current rest else .migrating version script rest current

/-- `latest_schema_version`. -/
def Schema.latest (m : Schema σ) : ℕ := (m.list.map Prod.fst).foldl max 0

namespace Store

/-- The process is there now. -/
def goto (s : Store σ) (p : ℕ) (at' : Proc σ) : Store σ :=
  { s with proc := Function.update s.proc p at' }

/-- One step of a process, `none` where it cannot happen. -/
def step (m : Schema σ) (s : Store σ) (e : ℕ × Event) : Option (Store σ) :=
  match e.2, s.proc e.1 with
  | .connect readonly, .shut => some (s.goto e.1 (.connected readonly))
  | .read, .connected true =>
    if s.file.version < m.latest then some (s.goto e.1 .shut)
    else some (s.goto e.1 (.opened s.file.version))
  | .read, .connected false => some (s.goto e.1 (proceed s.file.version m.list))
  | .begin, .migrating version script rest _ =>
    match s.writer with
    | none => some { s.goto e.1 (.applying version script s.file.schema rest) with writer := some e.1 }
    | some _ => none
  | .busy, .migrating _ _ _ _ =>
    match s.writer with
    | none => none
    | some _ => some (s.goto e.1 .shut)
  | .statement, .applying version (stmt :: todo) work rest =>
    match stmt work with
    | some work' => some (s.goto e.1 (.applying version todo work' rest))
    | none => some { s.goto e.1 .shut with writer := none }
  | .commit, .applying version [] work rest =>
    some { s.goto e.1 (proceed version rest) with file := ⟨work, version⟩, writer := none }
  | .gone, .applying _ _ _ _ => some { s.goto e.1 .shut with writer := none }
  | .gone, _ => some (s.goto e.1 .shut)
  | _, _ => none

/-- A migration begins at the version that was read or reached. -/
def current (s : Store σ) (e : ℕ × Event) : Bool :=
  match e.2, s.proc e.1 with
  | .begin, .migrating _ _ _ current => current = s.file.version
  | _, _ => true

end Store

/-- The migrations above one version, up to another. -/
def Schema.between (m : Schema σ) (v w : ℕ) : Script σ :=
  (m.list.filter fun x => v < x.1 ∧ x.1 ≤ w).flatMap Prod.snd

/-! ## The loop -/

section Loop

variable {m : Schema σ} {pre rest : List (ℕ × Script σ)} {x : ℕ × Script σ} {v w : ℕ}

/-- What `_migrate` is at, or comes to. -/
def Behind (m : Schema σ) (pre : List (ℕ × Script σ)) (x : ℕ × Script σ)
    (rest : List (ℕ × Script σ)) (v : ℕ) : Prop :=
  m.list = pre ++ x :: rest ∧ ∀ y ∈ pre, y.1 ≤ v

theorem Behind.mono (h : Behind m pre x rest v) (hle : v ≤ w) : Behind m pre x rest w :=
  ⟨h.1, fun y hy => (h.2 y hy).trans hle⟩

theorem Behind.mem (h : Behind m pre x rest v) : x ∈ m.list := by
  rw [h.1]
  exact List.mem_append_right _ List.mem_cons_self

/-- The migrations up to the one that is next. -/
theorem Behind.between (h : Behind m pre x rest w) (hvw : v ≤ w) (hx : w < x.1) :
    m.between v x.1 = m.between v w ++ x.2 := by
  obtain ⟨hlist, hpre⟩ := h
  have hsorted := m.sorted
  rw [hlist] at hsorted
  obtain ⟨-, hrest, -⟩ := List.pairwise_append.1 hsorted
  have hrest := (List.pairwise_cons.1 hrest).1
  have hbehind : ∀ y ∈ rest, ¬y.1 ≤ x.1 := fun y hy => not_le.2 (hrest y hy)
  have hsame : pre.filter (fun y => v < y.1 ∧ y.1 ≤ x.1) =
      pre.filter fun y => v < y.1 ∧ y.1 ≤ w := List.filter_congr fun y hy => by
    have hy := hpre y hy
    have hx := hy.trans hx.le
    simp [hy, hx]
  have hnone : ∀ u ≤ x.1, rest.filter (fun y => v < y.1 ∧ y.1 ≤ u) = [] := fun u hu => by
    refine List.filter_eq_nil_iff.2 fun y hy => ?_
    have hnot := hbehind y hy
    simp only [decide_eq_true_eq]
    omega
  have hvx : v < x.1 := hvw.trans_lt hx
  simp only [Schema.between, hlist, List.filter_append, List.filter_cons, hsame, hnone x.1 le_rfl,
    hnone w hx.le, List.flatMap_append]
  simp [hvx, not_le.2 hx]

/-- Where the loop goes on. -/
theorem proceed_cases (hlist : m.list = pre ++ rest) (hpre : ∀ y ∈ pre, y.1 ≤ v) :
    (proceed v rest = .opened v ∧ ∀ y ∈ m.list, y.1 ≤ v) ∨
      ∃ pre' x rest', proceed v rest = .migrating x.1 x.2 rest' v ∧ Behind m pre' x rest' v ∧
        v < x.1 := by
  induction rest generalizing pre with
  | nil =>
    rw [List.append_nil] at hlist
    exact Or.inl ⟨rfl, hlist ▸ hpre⟩
  | cons x rest ih =>
    rw [proceed]
    split
    · next hle =>
      have hlist : m.list = (pre ++ [x]) ++ rest := by simp [hlist]
      refine ih hlist fun y hy => ?_
      rcases List.mem_append.1 hy with hy | hy
      · exact hpre y hy
      · rwa [List.mem_singleton.1 hy]
    · next hlt => exact Or.inr ⟨pre, x, rest, rfl, ⟨hlist, hpre⟩, not_le.1 hlt⟩

theorem le_latest {x : ℕ × Script σ} (h : x ∈ m.list) : x.1 ≤ m.latest := by
  have hfold : ∀ (l : List ℕ) (a b : ℕ), (a ≤ b ∨ a ∈ l) → a ≤ l.foldl max b := by
    intro l
    induction l with
    | nil => exact fun a b hab => hab.elim id fun hmem => absurd hmem List.not_mem_nil
    | cons c l ih =>
      intro a b hab
      refine ih a (max b c) ?_
      rcases hab with hle | hmem
      · exact Or.inl (hle.trans (le_max_left b c))
      · rcases List.mem_cons.1 hmem with rfl | hmem
        · exact Or.inl (le_max_right b a)
        · exact Or.inr hmem
  exact hfold _ _ _ (Or.inr (List.mem_map_of_mem h))

end Loop

/-! ## The invariant -/

namespace Store

variable {m : Schema σ} {file₀ : File σ} {s s' : Store σ} {p q : ℕ} {e : ℕ × Event}

/-- A process that is at the file as it is. -/
def At (m : Schema σ) (s : Store σ) (p : ℕ) : Proc σ → Prop
  | .shut | .connected _ => True
  | .migrating version script rest current =>
    current < version ∧ ∃ pre, Behind m pre (version, script) rest s.file.version
  | .applying version todo work rest =>
    s.writer = some p ∧ s.file.version < version ∧ ∃ pre ran,
      Behind m pre (version, ran ++ todo) rest s.file.version ∧
        Script.run ran s.file.schema = some work
  | .opened version => version = s.file.version ∧ ∀ x ∈ m.list, x.1 ≤ version

/-- What holds of every store that processes bring about. -/
structure Inv (m : Schema σ) (file₀ : File σ) (s : Store σ) : Prop where
  le : file₀.version ≤ s.file.version
  schema : (m.between file₀.version s.file.version).run file₀.schema = some s.file.schema
  proc : ∀ p, s.At m p (s.proc p)

/-- The file stays, and so does who writes, but for the process that moves. -/
theorem Inv.goto {at' : Proc σ} {writer : Option ℕ} (h : s.Inv m file₀)
    (hwriter : ∀ q, q ≠ p → s.writer = some q → writer = some q)
    (hat : ({ s.goto p at' with writer := writer } : Store σ).At m p at') :
    ({ s.goto p at' with writer := writer } : Store σ).Inv m file₀ where
  le := h.le
  schema := h.schema
  proc q := by
    rcases eq_or_ne q p with rfl | hne
    · simpa [Store.goto] using hat
    · have hq := h.proc q
      have hproc : (Function.update s.proc p at') q = s.proc q := Function.update_of_ne hne ..
      simp only [Store.goto, hproc]
      cases hs : s.proc q with
      | shut | connected => trivial
      | migrating | opened =>
        rw [hs] at hq
        exact hq
      | applying =>
        rw [hs] at hq
        exact ⟨hwriter q hne hq.1, hq.2⟩

/-- A process that comes to the next migration, or to the end. -/
theorem at_proceed {pre rest : List (ℕ × Script σ)} {v : ℕ} (hlist : m.list = pre ++ rest)
    (hpre : ∀ y ∈ pre, y.1 ≤ v) (hv : v = s.file.version) : s.At m p (proceed v rest) := by
  rcases proceed_cases hlist hpre with ⟨heq, hall⟩ | ⟨pre', x, rest', heq, hbehind, hlt⟩
  · rw [heq]
    exact ⟨hv, hall⟩
  · rw [heq]
    exact ⟨hlt, pre', hv ▸ hbehind⟩

/-- A migration is committed. -/
theorem Inv.commit {version : ℕ} {work : σ} {rest : List (ℕ × Script σ)} (h : s.Inv m file₀)
    (hproc : s.proc p = .applying version [] work rest) :
    ({ s.goto p (proceed version rest) with file := ⟨work, version⟩, writer := none } :
      Store σ).Inv m file₀ := by
  have hp := h.proc p
  rw [hproc] at hp
  obtain ⟨hwriter, hlt, pre, ran, hbehind, hrun⟩ := hp
  rw [List.append_nil] at hbehind
  refine ⟨h.le.trans hlt.le, ?_, fun q => ?_⟩
  · change (m.between file₀.version version).run file₀.schema = some work
    rw [hbehind.between h.le hlt, Script.run, List.foldlM_append]
    exact Option.bind_eq_some_iff.2 ⟨_, h.schema, hrun⟩
  · rcases eq_or_ne q p with rfl | hne
    · have hlist : m.list = (pre ++ [(version, ran)]) ++ rest := by simp [hbehind.1]
      have hself : (Function.update s.proc q (proceed version rest)) q = proceed version rest :=
        Function.update_self ..
      simp only [Store.goto, hself]
      refine at_proceed hlist (fun y hy => ?_) rfl
      rcases List.mem_append.1 hy with hy | hy
      · exact (hbehind.2 y hy).trans hlt.le
      · rw [List.mem_singleton.1 hy]
    · have hq := h.proc q
      have hsame : (Function.update s.proc p (proceed version rest)) q = s.proc q :=
        Function.update_of_ne hne ..
      simp only [Store.goto, hsame]
      cases hs : s.proc q with
      | shut | connected => trivial
      | migrating =>
        rw [hs] at hq
        obtain ⟨hcurrent, pre', hbehind'⟩ := hq
        exact ⟨hcurrent, pre', hbehind'.mono hlt.le⟩
      | applying =>
        rw [hs] at hq
        exact absurd (Option.some.inj (hq.1.symm.trans hwriter)) hne
      | opened =>
        rw [hs] at hq
        exact absurd (hq.2 _ hbehind.mem) (not_le.2 (hq.1 ▸ hlt))

theorem inv_step (h : s.Inv m file₀) (hstep : guarded (step m) current s e = some s') :
    s'.Inv m file₀ := by
  obtain ⟨hcurrent, hstep⟩ := guarded_eq_some.1 hstep
  obtain ⟨p, e⟩ := e
  have hp := h.proc p
  cases e with
  | connect readonly =>
    cases hproc : s.proc p <;> simp only [step, hproc, reduceCtorEq] at hstep
    obtain rfl := Option.some.inj hstep
    exact h.goto (fun _ _ => id) trivial
  | read =>
    cases hproc : s.proc p with
    | connected readonly =>
      cases readonly with
      | true =>
        simp only [step, hproc] at hstep
        split_ifs at hstep with hold
        · obtain rfl := Option.some.inj hstep
          exact h.goto (fun _ _ => id) trivial
        · obtain rfl := Option.some.inj hstep
          exact h.goto (fun _ _ => id)
            ⟨rfl, fun x hx => (le_latest hx).trans (not_lt.1 hold)⟩
      | false =>
        simp only [step, hproc] at hstep
        obtain rfl := Option.some.inj hstep
        exact h.goto (fun _ _ => id) (at_proceed (List.nil_append _).symm
          (fun y hy => absurd hy List.not_mem_nil) rfl)
    | _ => simp [step, hproc] at hstep
  | begin =>
    cases hproc : s.proc p with
    | migrating version script rest cur =>
      cases hwriter : s.writer with
      | some q => simp [step, hproc, hwriter] at hstep
      | none =>
        simp only [step, hproc, hwriter] at hstep
        obtain rfl := Option.some.inj hstep
        rw [hproc] at hp
        obtain ⟨hlt, pre, hbehind⟩ := hp
        have hcur : cur = s.file.version := by simpa [current, hproc] using hcurrent
        exact h.goto (fun q _ hq => absurd hq (by simp [hwriter]))
          ⟨rfl, hcur ▸ hlt, pre, [], hbehind, rfl⟩
    | _ => simp [step, hproc] at hstep
  | busy =>
    cases hproc : s.proc p with
    | migrating version script rest cur =>
      cases hwriter : s.writer with
      | none => simp [step, hproc, hwriter] at hstep
      | some q =>
        simp only [step, hproc, hwriter] at hstep
        obtain rfl := Option.some.inj hstep
        exact h.goto (fun _ _ => id) trivial
    | _ => simp [step, hproc] at hstep
  | statement =>
    cases hproc : s.proc p with
    | applying version todo work rest =>
      rw [hproc] at hp
      obtain ⟨hwriter, hlt, pre, ran, hbehind, hrun⟩ := hp
      cases todo with
      | nil => simp [step, hproc] at hstep
      | cons stmt todo =>
        cases hstmt : stmt work with
        | some work' =>
          simp only [step, hproc, hstmt] at hstep
          obtain rfl := Option.some.inj hstep
          refine h.goto (fun _ _ => id) ⟨hwriter, hlt, pre, ran ++ [stmt], ?_, ?_⟩
          · rwa [List.append_assoc]
          · rw [Script.run, List.foldlM_append]
            exact Option.bind_eq_some_iff.2 ⟨work, hrun, by simpa using hstmt⟩
        | none =>
          simp only [step, hproc, hstmt] at hstep
          obtain rfl := Option.some.inj hstep
          exact h.goto (fun q hne hq => absurd (Option.some.inj (hq.symm.trans hwriter)) hne) trivial
    | _ => simp [step, hproc] at hstep
  | commit =>
    cases hproc : s.proc p with
    | applying version todo work rest =>
      cases todo with
      | cons => simp [step, hproc] at hstep
      | nil =>
        simp only [step, hproc] at hstep
        obtain rfl := Option.some.inj hstep
        exact h.commit hproc
    | _ => simp [step, hproc] at hstep
  | gone =>
    cases hproc : s.proc p with
    | applying version todo work rest =>
      rw [hproc] at hp
      simp only [step, hproc] at hstep
      obtain rfl := Option.some.inj hstep
      exact h.goto (fun q hne hq => absurd (Option.some.inj (hq.symm.trans hp.1)) hne) trivial
    | _ =>
      simp only [step, hproc] at hstep
      obtain rfl := Option.some.inj hstep
      exact h.goto (fun _ _ => id) trivial

/-- From where the processes are, the file is its own first version. -/
theorem inv_self (hproc : ∀ p, s.At m p (s.proc p)) : s.Inv m s.file := by
  have hnone : m.between s.file.version s.file.version = [] := by
    simp only [Schema.between, List.flatMap_eq_nil_iff, List.mem_filter, decide_eq_true_eq]
    omega
  exact ⟨le_rfl, by rw [hnone]; rfl, hproc⟩

/-- Whoever opens the file, and whatever happens to it, its version never goes back, and from any
moment to a later one the file becomes what the migrations up to its version make of it, each run
once and in order. What is opened has all of them. -/
theorem migrated (h : Reachable (guarded (step m) current) { file := file₀ } s)
    (hlater : Reachable (guarded (step m) current) s s') :
    s.file.version ≤ s'.file.version ∧
      (m.between s.file.version s'.file.version).run s.file.schema = some s'.file.schema ∧
      ∀ p v, s'.proc p = .opened v → v = s'.file.version ∧ ∀ x ∈ m.list, x.1 ≤ v := by
  have hstart := @inv_self σ m { file := file₀ } fun _ => trivial
  have hinv : s.Inv m file₀ := h.invariant (Inv m file₀) hstart
    fun _ _ _ _ ht hstep => inv_step ht hstep
  have hinv' : s'.Inv m s.file := hlater.invariant (Inv m s.file) (inv_self hinv.proc)
    fun _ _ _ _ ht hstep => inv_step ht hstep
  refine ⟨hinv'.le, hinv'.schema, fun p v hp => ?_⟩
  have hat := hinv'.proc p
  rwa [hp] at hat

/-- Tables that are made where they are missing, and then a column that is added once. -/
def twoMigrations : Schema ℕ where
  list := [(1, [fun n => some (max n 1)]), (2, [fun n => if n < 2 then some 2 else none])]
  sorted := by decide

/-- A process makes the first migration. -/
def begun : List (ℕ × Event) :=
  [.connect false, .read, .begin, .statement, .commit].map fun e => (0, e)

/-- It is gone in the midst of the second one, and comes back. -/
def resumed : List (ℕ × Event) :=
  [.begin, .statement, .gone, .connect false, .read, .begin, .statement, .commit].map ((0, ·))

theorem migrated_resumed : ∃ s s',
    run (guarded (step twoMigrations) current) { file := ⟨0, 0⟩ } begun = some s ∧
    run (guarded (step twoMigrations) current) s resumed = some s' ∧
    s.file = ⟨1, 1⟩ ∧ s'.file = ⟨2, 2⟩ ∧ s.file.version ≤ s'.file.version ∧
    (twoMigrations.between s.file.version s'.file.version).run s.file.schema =
      some s'.file.schema ∧
    ∀ p v, s'.proc p = .opened v → v = s'.file.version ∧ ∀ x ∈ twoMigrations.list, x.1 ≤ v := by
  obtain ⟨s, hs, hfile⟩ := Option.map_eq_some_iff.1
    (rfl : (run (guarded (step twoMigrations) current) { file := ⟨0, 0⟩ } begun).map file =
      some ⟨1, 1⟩)
  obtain ⟨s', hs', hfile'⟩ := Option.map_eq_some_iff.1
    (rfl : (run (guarded (step twoMigrations) current) { file := ⟨0, 0⟩ } (begun ++ resumed)).map
      file = some ⟨2, 2⟩)
  rw [run_append, hs] at hs'
  exact ⟨s, s', hs, hs', hfile, hfile', migrated ⟨begun, hs⟩ ⟨resumed, hs'⟩⟩

/-! ### Opens that overlap -/

/-- Two processes open a new file. One of them migrates it before the other begins. -/
def overlapping : List (ℕ × Event) :=
  [(0, .connect false), (0, .read), (1, .connect false), (1, .read), (0, .begin), (0, .statement),
    (0, .commit), (0, .begin), (0, .statement), (0, .commit), (0, .gone), (1, .begin),
    (1, .statement), (1, .commit), (1, .begin), (1, .statement)]

/-- A file with the column, but without the version that says so. -/
def Stuck (s : Store ℕ) : Prop :=
  s.file = ⟨2, 1⟩ ∧ ∀ p, s.proc p = .shut ∨ (∃ readonly, s.proc p = .connected readonly) ∨
    s.proc p = .migrating 2 [fun n => if n < 2 then some 2 else none] [] 1 ∨
      s.proc p = .applying 2 [fun n => if n < 2 then some 2 else none] 2 []

theorem Stuck.goto {s : Store ℕ} {p : ℕ} {at' : Proc ℕ} {writer : Option ℕ} (h : Stuck s)
    (hat : at' = .shut ∨ (∃ readonly, at' = .connected readonly) ∨
      at' = .migrating 2 [fun n => if n < 2 then some 2 else none] [] 1 ∨
        at' = .applying 2 [fun n => if n < 2 then some 2 else none] 2 []) :
    Stuck { s.goto p at' with writer := writer } := by
  refine ⟨h.1, fun q => ?_⟩
  rcases eq_or_ne q p with rfl | hne
  · simpa [Store.goto] using hat
  · have hsame : (Function.update s.proc p at') q = s.proc q := Function.update_of_ne hne ..
    simpa only [Store.goto, hsame] using h.2 q

theorem stuck_step {s s' : Store ℕ} {e : ℕ × Event} (h : Stuck s)
    (hstep : step twoMigrations s e = some s') : Stuck s' := by
  obtain ⟨p, e⟩ := e
  rcases h.2 p with hproc | ⟨readonly, hproc⟩ | hproc | hproc
  · cases e <;> simp only [step, hproc, reduceCtorEq] at hstep
    all_goals
      obtain rfl := Option.some.inj hstep
      exact h.goto (by simp)
  · cases e <;> cases readonly <;> simp only [step, hproc, reduceCtorEq] at hstep
    case read.false =>
      obtain rfl := Option.some.inj hstep
      rw [h.1]
      exact h.goto (Or.inr (Or.inr (Or.inl rfl)))
    case read.true =>
      rw [h.1, if_pos (by decide)] at hstep
      obtain rfl := Option.some.inj hstep
      exact h.goto (by simp)
    all_goals
      obtain rfl := Option.some.inj hstep
      exact h.goto (by simp)
  · cases e <;> cases hwriter : s.writer <;>
      simp only [step, hproc, hwriter, reduceCtorEq] at hstep
    case begin.none =>
      obtain rfl := Option.some.inj hstep
      rw [h.1]
      exact h.goto (Or.inr (Or.inr (Or.inr rfl)))
    all_goals
      obtain rfl := Option.some.inj hstep
      exact h.goto (by simp)
  · cases e <;> simp only [step, hproc, reduceCtorEq] at hstep
    all_goals
      obtain rfl := Option.some.inj hstep
      exact h.goto (by simp)

theorem not_opened_of_stuck {s s' : Store ℕ} {es : List (ℕ × Event)} (h : Stuck s)
    (hrun : run (step twoMigrations) s es = some s') (p v : ℕ) : s'.proc p ≠ .opened v := by
  have hreach : Reachable (step twoMigrations) s s' := ⟨es, hrun⟩
  have hstuck : Stuck s' := hreach.invariant Stuck h fun _ _ _ _ ht hstep => stuck_step ht hstep
  intro hopened
  rcases hstuck.2 p with hproc | ⟨readonly, hproc⟩ | hproc | hproc <;> simp [hproc] at hopened

/-- The second process takes the version back, and no process opens the file again. -/
theorem stale_open : ∃ s, run (step twoMigrations) { file := ⟨0, 0⟩ } overlapping = some s ∧
    s.file = ⟨2, 1⟩ ∧ ∀ es s', run (step twoMigrations) s es = some s' →
      ∀ p v, s'.proc p ≠ .opened v := by
  refine ⟨_, rfl, rfl, fun es s' hrun => not_opened_of_stuck ⟨rfl, fun q => Or.inl ?_⟩ hrun⟩
  rcases q with _ | _ | q <;> rfl

end Store

end Migrations

end Mtrtk
