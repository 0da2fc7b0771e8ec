import Mathlib.Data.List.Basic
import Mathlib.Data.Option.Basic
import Mtrtk.Database

/-!
# Transactions by themselves

What was submitted and not run yet is a list of operations, and `pass` says of one of them which
transaction is open after it, if it may run there at all : in a transaction only what was submitted
in it. The holder of the lock is the only one to submit, so the whole list passes, and where it
leads to is known from where the holder is (`Holding`).
-/

namespace Mtrtk

namespace Database

/-! ## Operations in their places -/

/-- The transaction that is open after the operation, where it may run in `o`. -/
def pass (o : Option (ℕ × ℕ)) (x : Submitted) : Option (Option (ℕ × ℕ)) :=
  match x.op with
  | .begin _ => none
  | .stmt body => if o.map Prod.snd = body ∧ ∀ u ∈ o, u.1 = x.task then some o else none
  | .commit body => if o.map Prod.snd = body ∧ ∀ u ∈ o, u.1 = x.task then some none else none
  | .rollback body =>
    if o.map Prod.snd = some body ∧ ∀ u ∈ o, u.1 = x.task then some none else none

variable {s : Database} {t : ℕ} {o o' : Option (ℕ × ℕ)} {x : Submitted}

/-- Nothing but a BEGIN opens a transaction. -/
theorem pass_none (h : pass none x = some o) : o = none := by
  obtain ⟨id, task, op⟩ := x
  cases op <;> simp_all [pass]

theorem task_of_pass {u : ℕ × ℕ} (h : pass (some u) x = some o) : u.1 = x.task := by
  obtain ⟨id, task, op⟩ := x
  cases op <;> simp_all [pass]

/-- What was submitted leads to `o`. -/
def Settles (s : Database) (o : Option (ℕ × ℕ)) : Prop :=
  s.queue.foldlM pass s.conn.opener = some o

/-- BEGIN is awaited : it comes after what leads to no transaction, or has opened one, or
failed. -/
def Beginning (s : Database) (t id : ℕ) : Prop :=
  (∃ front, s.queue = front ++ [⟨id, t, .begin id⟩] ∧
    front.foldlM pass s.conn.opener = some none ∧ s.result id = none) ∨
  s.queue = [] ∧ (s.result id = some true ∧ s.conn.opener = some (t, id) ∨
    s.result id = some false ∧ s.conn.opener = none)

/-- Where the holder of the lock is, and what was submitted leads to. -/
def Holding (s : Database) (t : ℕ) : Prop :=
  match s.pc t with
  | .beginning _ id => s.txTask = none ∧ s.Beginning t id
  | .code (some body) | .batch body _ | .inner (some body) _ _ =>
    s.txTask = some t ∧ s.Settles (some (t, body))
  | .committing _ | .rollingBack _ => s.txTask = some t ∧ s.Settles none
  | .outer _ _ => s.txTask = none ∧ s.Settles none
  | .code none | .locking _ | .inner none _ _ => False

/-- Where every other task is. -/
def Pc.Away : Pc → Prop
  | .code none | .locking _ => True
  | _ => False

/-- The transaction a task is in. -/
def Pc.live : Pc → Option ℕ
  | .code body | .inner body _ _ => body
  | .beginning _ id => some id
  | .batch body _ => some body
  | _ => none

theorem Pc.Away.live_eq {pc : Pc} (h : pc.Away) : pc.live = none := by
  cases pc with
  | code body => cases body with
    | none => rfl
    | some body => exact h.elim
  | _ => first | rfl | exact h.elim

/-- The transaction's body raised, or its statements are kept or will be. -/
def Spent (s : Database) (body : ℕ) : Prop :=
  body ∈ s.raised ∨ (∃ x ∈ s.queue, x.op = .commit (some body)) ∨
    ∃ st ∈ s.conn.committed, st.2 = some body

structure Inv (s : Database) : Prop where
  away : ∀ t, s.lock ≠ some t → (s.pc t).Away
  free : s.lock = none → s.txTask = none ∧ s.Settles none
  held : ∀ t, s.lock = some t → s.Holding t
  /-- The operations are numbered. -/
  numbered : (s.queue.map Submitted.id).Pairwise (· < ·)
  unrun : ∀ x ∈ s.queue, x.id < s.next ∧ s.result x.id = none
  unknown : ∀ id, s.next ≤ id → s.result id = none
  /-- What is done in the open transaction was submitted in it. -/
  within : ∀ st ∈ s.conn.uncommitted, ∃ u ∈ s.conn.opener, st.2 = some u.2
  live : ∀ t body, (s.pc t).live = some body → body < s.next ∧ ¬s.Spent body
  spent : ∀ body, s.Spent body → body < s.next
  raised : ∀ body ∈ s.raised, (∀ x ∈ s.queue, x.op ≠ .commit (some body)) ∧
    ∀ st ∈ s.conn.committed, st.2 ≠ some body

theorem inv_fresh : Inv {} where
  away _ _ := trivial
  free _ := ⟨rfl, rfl⟩
  held _ h := absurd h.symm (Option.some_ne_none _)
  numbered := .nil
  unrun _ h := absurd h List.not_mem_nil
  unknown _ _ := rfl
  within _ h := absurd h List.not_mem_nil
  live _ _ h := absurd h.symm (Option.some_ne_none _)
  spent _ h := by simp [Spent] at h
  raised _ h := absurd h List.not_mem_nil

/-! ## What the tasks do -/

/-- The holder of the lock stays where it was, while what was submitted leads to the same. -/
theorem Holding.mono {s' : Database} (h : s.Holding t) (hpc : s'.pc t = s.pc t)
    (htx : s'.txTask = s.txTask) (hsettles : ∀ o, s.Settles o → s'.Settles o)
    (hbegin : ∀ call id, s.pc t = .beginning call id → s.Beginning t id → s'.Beginning t id) :
    s'.Holding t := by
  unfold Holding at h ⊢
  rw [hpc, htx]
  split at h
  · next call id heq => exact ⟨h.1, hbegin call id heq h.2⟩
  all_goals first | exact h.elim | exact ⟨h.1, hsettles _ h.2⟩

theorem settles_append (h : s.Settles o) (hx : pass o x = some o') :
    (s.queue ++ [x]).foldlM pass s.conn.opener = some o' := by
  rw [List.foldlM_append, h]
  simpa using hx

/-- An operation submitted spends no transaction but as its COMMIT. -/
theorem spent_submit {lock tx : Option ℕ} {op : Op} {pc : ℕ → Pc} {body : ℕ} :
    ({ s with lock := lock, txTask := tx }.submit t op pc).Spent body ↔
      s.Spent body ∨ op = .commit (some body) := by
  simp only [Spent, submit, List.mem_append, List.mem_singleton, or_and_right, exists_or,
    exists_eq_left, or_assoc, or_comm (a := op = .commit (some body))]

variable (h : Inv s)

include h

/-- A task that does not hold the lock moves. -/
theorem Inv.goto_away (ht : s.lock ≠ some t) {pc : Pc} (hpc : pc.Away) :
    Inv (s.goto t pc) where
  away u hu := by
    rcases eq_or_ne u t with rfl | hne
    · simpa [goto] using hpc
    · simpa [goto, hne] using h.away u hu
  free := h.free
  held u hu := by
    have hne : u ≠ t := fun heq => ht (heq ▸ hu)
    have hsame : (s.goto t pc).pc u = s.pc u := by simp [goto, hne]
    exact (h.held u hu).mono hsame rfl (fun _ => id) fun _ _ _ => id
  numbered := h.numbered
  unrun := h.unrun
  unknown := h.unknown
  within := h.within
  live u body hu := by
    rcases eq_or_ne u t with rfl | hne
    · simp [goto, hpc.live_eq] at hu
    · exact h.live u body (by simpa [goto, hne] using hu)
  spent := h.spent
  raised := h.raised

/-- The holder of the lock moves, in the transaction it was in. -/
theorem Inv.goto_held (ht : s.lock = some t) (tx : Option ℕ) {pc : Pc}
    (hheld : ({ s with txTask := tx }.goto t pc).Holding t)
    (hlive : ∀ body, pc.live = some body → (s.pc t).live = some body) :
    Inv ({ s with txTask := tx }.goto t pc) where
  away u hu := by
    have hne : u ≠ t := fun heq => hu (heq ▸ ht)
    simpa [goto, hne] using h.away u hu
  free hu := absurd (ht.symm.trans hu) (Option.some_ne_none _)
  held u hu := by
    obtain rfl : t = u := Option.some.inj (ht.symm.trans hu)
    exact hheld
  numbered := h.numbered
  unrun := h.unrun
  unknown := h.unknown
  within := h.within
  live u body hu := by
    rcases eq_or_ne u t with rfl | hne
    · exact h.live u body (hlive body (by simpa [goto] using hu))
    · exact h.live u body (by simpa [goto, hne] using hu)
  spent := h.spent
  raised := h.raised

/-- The lock is released where nothing submitted leads to an open transaction. -/
theorem Inv.exit (ht : s.lock = some t) (hset : s.Settles none) : Inv (s.exit t) where
  away u _ := by
    rcases eq_or_ne u t with rfl | hne
    · simp [Database.exit, release, Pc.Away]
    · have hu : s.lock ≠ some u := fun heq => hne (Option.some.inj (heq.symm.trans ht))
      simpa [Database.exit, release, hne] using h.away u hu
  free _ := ⟨rfl, hset⟩
  held u hu := absurd hu.symm (Option.some_ne_none _)
  numbered := h.numbered
  unrun := h.unrun
  unknown := h.unknown
  within := h.within
  live u body hu := by
    rcases eq_or_ne u t with rfl | hne
    · simp [Database.exit, release, Pc.live] at hu
    · exact h.live u body (by simpa [Database.exit, release, hne] using hu)
  spent := h.spent
  raised := h.raised

theorem Inv.release (ht : s.lock = some t) (htx : s.txTask = none) (hset : s.Settles none) :
    Inv (s.release t) := by
  have heq : s.release t = s.exit t := by simp [Database.exit, Database.release, htx]
  exact heq ▸ h.exit ht hset

/-- The task that holds the lock, or takes it, submits an operation : its BEGIN, or one of the
transaction it is in, whose COMMIT is the last. -/
theorem Inv.submit (ht : ∀ u, s.lock = some u → u = t) {tx : Option ℕ} {op : Op} {pc : ℕ → Pc}
    (hheld : ({ s with lock := some t, txTask := tx }.submit t op pc).Holding t)
    (hlive : ∀ body, (pc s.next).live = some body → body = s.next ∨ (s.pc t).live = some body)
    (hcommit : ∀ body, op = .commit (some body) →
      (s.pc t).live = some body ∧ (pc s.next).live = none) :
    Inv ({ s with lock := some t, txTask := tx }.submit t op pc) where
  away u hu := by
    have hne : u ≠ t := fun heq => hu (heq ▸ rfl)
    have hlock : s.lock ≠ some u := fun heq => hne (ht u heq)
    simpa [Database.submit, hne] using h.away u hlock
  free hu := absurd hu (Option.some_ne_none _)
  held u hu := by
    obtain rfl : t = u := Option.some.inj hu
    exact hheld
  numbered := by
    simp only [Database.submit, List.map_append, List.map_cons, List.map_nil]
    refine List.pairwise_append.2 ⟨h.numbered, List.pairwise_singleton _ _, ?_⟩
    simp only [List.mem_map, List.mem_singleton]
    rintro _ ⟨x, hx, rfl⟩ _ rfl
    exact (h.unrun x hx).1
  unrun x hx := by
    rcases List.mem_append.1 hx with hx | hx
    · exact ⟨Nat.lt_succ_of_lt (h.unrun x hx).1, (h.unrun x hx).2⟩
    · obtain rfl := List.mem_singleton.1 hx
      exact ⟨Nat.lt_succ_self _, h.unknown _ (Nat.le_refl _)⟩
  unknown id hid := h.unknown id (Nat.le_of_succ_le hid)
  within := h.within
  live u body hu := by
    rw [spent_submit, not_or]
    rcases eq_or_ne u t with rfl | hne
    · have hpc : (pc s.next).live = some body := by simpa [Database.submit] using hu
      have hop : op ≠ .commit (some body) := fun heq =>
        Option.some_ne_none body (hpc.symm.trans (hcommit body heq).2)
      rcases hlive body hpc with rfl | hold
      · exact ⟨Nat.lt_succ_self _, fun hs => Nat.lt_irrefl _ (h.spent _ hs), hop⟩
      · exact ⟨Nat.lt_succ_of_lt (h.live u body hold).1, (h.live u body hold).2, hop⟩
    · have hold : (s.pc u).live = some body := by simpa [Database.submit, hne] using hu
      refine ⟨Nat.lt_succ_of_lt (h.live u body hold).1, (h.live u body hold).2, fun heq => ?_⟩
      have hlock : s.lock ≠ some u := fun hu => hne (ht u hu)
      rw [(h.away u hlock).live_eq] at hold
      exact Option.some_ne_none body hold.symm
  spent body hs := by
    rcases spent_submit.1 hs with hs | heq
    · exact Nat.lt_succ_of_lt (h.spent body hs)
    · exact Nat.lt_succ_of_lt (h.live t body (hcommit body heq).1).1
  raised body hb := by
    refine ⟨fun x hx => ?_, (h.raised body hb).2⟩
    rcases List.mem_append.1 hx with hx | hx
    · exact (h.raised body hb).1 x hx
    · obtain rfl := List.mem_singleton.1 hx
      exact fun heq => (h.live t body (hcommit body heq).1).2 (.inl hb)

/-- The body raised : the transaction is spent, and its ROLLBACK submitted. -/
theorem Inv.bodyRaised (ht : s.lock = some t) {body : ℕ} (hlive : (s.pc t).live = some body)
    (htx : s.txTask = some t) (hset : s.Settles (some (t, body))) :
    Inv (s.bodyRaised t body) := by
  have hcommit : ∀ body', Op.rollback body = .commit (some body') →
      (s.pc t).live = some body' ∧ (Pc.rollingBack s.next).live = none :=
    fun _ heq => absurd heq Op.noConfusion
  have hsub : Inv ({ s with lock := some t, txTask := s.txTask }.submit t (.rollback body)
      .rollingBack) := by
    refine h.submit (fun u hu => Option.some.inj (hu.symm.trans ht)) ?_
      (fun _ hl => absurd hl.symm (Option.some_ne_none _)) hcommit
    simp only [Holding, Database.submit, Function.update_self]
    exact ⟨htx, settles_append hset (by simp [pass])⟩
  have heq : s.bodyRaised t body = { { s with lock := some t, txTask := s.txTask }.submit t
      (.rollback body) .rollingBack with raised := body :: s.raised } := by
    simp [Database.bodyRaised, Database.submit, ht]
  have hfresh := (h.live t body hlive).2
  rw [heq]
  refine { hsub with held := ?_, live := ?_, spent := ?_, raised := ?_ }
  · exact fun u hu => (hsub.held u hu).mono rfl rfl (fun _ => id) fun _ _ _ => id
  · intro u body' hu
    rcases eq_or_ne u t with rfl | hne
    · simp [Database.submit, Pc.live] at hu
    · have haway : (s.pc u).Away := h.away u fun hl => hne (Option.some.inj (hl.symm.trans ht))
      simp [Database.submit, hne, haway.live_eq] at hu
  · rintro body' (hb | hs)
    · rcases List.mem_cons.1 hb with rfl | hb
      · exact Nat.lt_succ_of_lt (h.live t body' hlive).1
      · exact hsub.spent body' (.inl hb)
    · exact hsub.spent body' (.inr hs)
  · intro body' hb
    rcases List.mem_cons.1 hb with rfl | hb
    · refine ⟨fun x hx => ?_, fun st hst hop => hfresh (.inr (.inr ⟨st, hst, hop⟩))⟩
      rcases List.mem_append.1 hx with hx | hx
      · exact fun hop => hfresh (.inr (.inl ⟨x, hx, hop⟩))
      · obtain rfl := List.mem_singleton.1 hx
        exact Op.noConfusion
    · exact hsub.raised body' hb

/-- The task enters its transaction, whose BEGIN has succeeded. -/
theorem Inv.enter (ht : s.lock = some t) {call : Call} {id : ℕ}
    (hlive : (s.pc t).live = some id) (hset : s.Settles (some (t, id))) :
    Inv (s.enter t call id) := by
  unfold Database.enter
  split
  · have heq : ({ s with txTask := some t } : Database) =
        { s with lock := some t, txTask := some t } := by rw [← ht]
    rw [heq]
    refine h.submit (fun u hu => Option.some.inj (hu.symm.trans ht)) ?_ ?_ ?_
    · simp only [Holding, Database.submit, Function.update_self]
      exact ⟨trivial, settles_append hset (by simp [pass])⟩
    · exact fun body hb => .inr (hb ▸ hlive)
    · exact fun _ heq => absurd heq Op.noConfusion
  · refine h.goto_held ht (some t) ?_ fun body hb => hb ▸ hlive
    simp only [Holding, Database.goto, Function.update_self]
    exact ⟨trivial, hset⟩

/-! ## What the connection does -/

omit h in
/-- An operation in its place is one the connection can run, and leads to where `pass` says. -/
theorem run_of_pass {c : Connection} (hx : pass c.opener x = some o) :
    ∃ c', c.run x = some c' ∧ c'.opener = o := by
  obtain ⟨id, task, op⟩ := x
  cases op with
  | begin body => exact absurd hx.symm (Option.some_ne_none _)
  | stmt body =>
    simp only [pass, Option.ite_none_right_eq_some, Option.some.injEq] at hx
    obtain ⟨-, rfl⟩ := hx
    cases hopener : c.opener <;> simp [Connection.run, hopener]
  | commit body =>
    simp only [pass, Option.ite_none_right_eq_some, Option.some.injEq] at hx
    exact ⟨_, rfl, hx.2⟩
  | rollback body =>
    simp only [pass, Option.ite_none_right_eq_some, Option.some.injEq] at hx
    exact ⟨_, rfl, hx.2⟩

/-- The next operation is in its place, or is the BEGIN that the holder of the lock awaits. -/
theorem Inv.head {queue : List Submitted} (hqueue : s.queue = x :: queue) :
    (∃ o, pass s.conn.opener x = some o) ∨
      s.conn.opener = none ∧ x.op = .begin x.id ∧ queue = [] ∧ s.lock = some x.task ∧
        ∃ call, s.pc x.task = .beginning call x.id := by
  have hsettles : ∀ o, s.Settles o → ∃ o, pass s.conn.opener x = some o := by
    intro o ho
    rw [Settles, hqueue, List.foldlM_cons] at ho
    obtain ⟨o', ho', -⟩ := Option.bind_eq_some_iff.1 ho
    exact ⟨o', ho'⟩
  cases hlock : s.lock with
  | none => exact .inl (hsettles _ (h.free hlock).2)
  | some u =>
    have hheld := h.held u hlock
    unfold Holding at hheld
    split at hheld
    · next call id hpc =>
      obtain ⟨-, ⟨front, hfront, hpass, -⟩ | ⟨hnil, -⟩⟩ := hheld
      · rw [hqueue] at hfront
        cases front with
        | nil =>
          obtain ⟨rfl, rfl⟩ := List.cons.inj hfront
          refine .inr ⟨?_, rfl, rfl, rfl, call, hpc⟩
          simpa using hpass
        | cons y front =>
          obtain ⟨rfl, -⟩ := List.cons.inj hfront
          rw [List.foldlM_cons] at hpass
          obtain ⟨o', ho', -⟩ := Option.bind_eq_some_iff.1 hpass
          exact .inl ⟨o', ho'⟩
      · rw [hqueue] at hnil
        exact absurd hnil (List.cons_ne_nil _ _)
    all_goals first | exact .inl (hsettles _ hheld.2) | exact hheld.elim

/-- The state after the next operation was run. -/
def ran (s : Database) (x : Submitted) (queue : List Submitted) (ok : Bool) (conn : Connection) :
    Database :=
  { s with conn, queue, result := Function.update s.result x.id (some ok) }

variable {queue : List Submitted} {ok : Bool} {conn : Connection}

/-- Running an operation keeps the invariant where the holder's place is kept, and what is kept
of the statements is what the operation said. -/
theorem Inv.ran (hqueue : s.queue = x :: queue)
    (hfree : s.lock = none → (s.ran x queue ok conn).Settles none)
    (hheld : ∀ u, s.lock = some u → (s.ran x queue ok conn).Holding u)
    (hwithin : ∀ st ∈ conn.uncommitted, ∃ u ∈ conn.opener, st.2 = some u.2)
    (hkept : ∀ st ∈ conn.committed, st ∈ s.conn.committed ∨
      ∀ body, st.2 = some body → x.op = .commit (some body)) :
    Inv (s.ran x queue ok conn) := by
  have hx : x ∈ s.queue := hqueue ▸ List.mem_cons_self
  have hrest : ∀ y ∈ queue, y ∈ s.queue := fun y hy => hqueue ▸ List.mem_cons_of_mem x hy
  have hnumbered := h.numbered
  rw [hqueue, List.map_cons, List.pairwise_cons] at hnumbered
  have hspent : ∀ body, (s.ran x queue ok conn).Spent body → s.Spent body := by
    rintro body (hb | ⟨y, hy, hop⟩ | ⟨st, hst, hbody⟩)
    · exact .inl hb
    · exact .inr (.inl ⟨y, hrest y hy, hop⟩)
    · rcases hkept st hst with hold | hnew
      · exact .inr (.inr ⟨st, hold, hbody⟩)
      · exact .inr (.inl ⟨x, hx, hnew body hbody⟩)
  refine ⟨h.away, fun hl => ⟨(h.free hl).1, hfree hl⟩, hheld, hnumbered.2, ?_, ?_, hwithin, ?_,
    fun body hs => h.spent body (hspent body hs), ?_⟩
  · intro y hy
    have hne : y.id ≠ x.id := (Nat.ne_of_lt (hnumbered.1 _ (List.mem_map_of_mem hy))).symm
    have hold := h.unrun y (hrest y hy)
    exact ⟨hold.1, by simpa [Database.ran, hne] using hold.2⟩
  · intro id hid
    have hne : id ≠ x.id := fun heq => Nat.not_le_of_lt (h.unrun x hx).1 (heq ▸ hid)
    simpa [Database.ran, hne] using h.unknown id hid
  · exact fun u body hu => ⟨(h.live u body hu).1, fun hs => (h.live u body hu).2 (hspent body hs)⟩
  · intro body hb
    refine ⟨fun y hy => (h.raised body hb).1 y (hrest y hy), fun st hst hbody => ?_⟩
    rcases hkept st hst with hold | hnew
    · exact (h.raised body hb).2 st hold hbody
    · exact (h.raised body hb).1 x hx (hnew body hbody)

/-- An operation in its place leads on to where it led before. -/
theorem Inv.ran_of_pass (hqueue : s.queue = x :: queue)
    (hx : pass s.conn.opener x = some conn.opener)
    (hwithin : ∀ st ∈ conn.uncommitted, ∃ u ∈ conn.opener, st.2 = some u.2)
    (hkept : ∀ st ∈ conn.committed, st ∈ s.conn.committed ∨
      ∀ body, st.2 = some body → x.op = .commit (some body)) :
    Inv (s.ran x queue ok conn) := by
  have hfront : ∀ {front : List Submitted} {o : Option (ℕ × ℕ)},
      (x :: front).foldlM pass s.conn.opener = some o → front.foldlM pass conn.opener = some o := by
    intro front o ho
    rw [List.foldlM_cons, hx] at ho
    exact ho
  have hsettles : ∀ o, s.Settles o → (s.ran x queue ok conn).Settles o := fun o ho =>
    hfront (by rwa [Settles, hqueue] at ho)
  refine h.ran hqueue (fun hl => hsettles _ (h.free hl).2) (fun u hu => ?_) hwithin hkept
  refine (h.held u hu).mono rfl rfl hsettles fun _ id _ hbegin => ?_
  rcases hbegin with ⟨front, hfront', hpass, hresult⟩ | ⟨hnil, -⟩
  · rw [hqueue] at hfront'
    cases front with
    | nil =>
      obtain ⟨rfl, -⟩ := List.cons.inj hfront'
      exact absurd hx.symm (Option.some_ne_none _)
    | cons y front =>
      obtain ⟨rfl, hrest⟩ := List.cons.inj hfront'
      have hne : id ≠ x.id := by
        have hlt := h.numbered
        rw [hqueue, hrest, List.map_cons, List.pairwise_cons] at hlt
        exact (Nat.ne_of_lt (hlt.1 id (by simp))).symm
      exact .inl ⟨front, hrest, hfront hpass, by simpa [Database.ran, hne] using hresult⟩
  · rw [hqueue] at hnil
    exact absurd hnil (List.cons_ne_nil _ _)

/-- What the holder of the lock awaits is its BEGIN, and it was run. -/
theorem Inv.ran_of_begin (hqueue : s.queue = [x]) (hopener : s.conn.opener = none)
    (hlock : s.lock = some x.task) {call : Call} (hpc : s.pc x.task = .beginning call x.id)
    (hconn : conn = if ok then { s.conn with opener := some (x.task, x.id) } else s.conn) :
    Inv (s.ran x [] ok conn) := by
  refine h.ran hqueue (fun hl => absurd (hlock.symm.trans hl) (Option.some_ne_none _)) ?_ ?_ ?_
  · intro u hu
    obtain rfl : x.task = u := Option.some.inj (hlock.symm.trans hu)
    have hheld := h.held x.task hlock
    simp only [Holding, hpc, Database.ran] at hheld ⊢
    refine ⟨hheld.1, .inr ⟨rfl, ?_⟩⟩
    cases ok <;> simp [hconn, hopener]
  · intro st hst
    obtain ⟨u, hu, -⟩ := h.within st (by cases ok <;> simpa [hconn] using hst)
    exact absurd (hopener.symm.trans hu).symm (Option.some_ne_none _)
  · exact fun st hst => .inl (by cases ok <;> simpa [hconn] using hst)

/-- In the open transaction is done what was submitted in it, and what is kept is done there, or in
no transaction. -/
theorem Inv.kept (hx : pass s.conn.opener x = some o) (hrun : s.conn.run x = some conn) :
    (∀ st ∈ conn.uncommitted, ∃ u ∈ conn.opener, st.2 = some u.2) ∧
      ∀ st ∈ conn.committed, st ∈ s.conn.committed ∨
        ∀ body, st.2 = some body → x.op = .commit (some body) := by
  obtain ⟨id, task, op⟩ := x
  cases op with
  | begin body => exact absurd hx.symm (Option.some_ne_none _)
  | stmt body =>
    simp only [pass, Option.ite_none_right_eq_some, Option.some.injEq] at hx
    cases hopener : s.conn.opener with
    | none =>
      rw [hopener] at hx
      obtain rfl : _ = conn := by simpa [Connection.run, hopener] using hrun
      refine ⟨fun st hst => by simpa [hopener] using h.within st hst, fun st hst => ?_⟩
      rcases List.mem_append.1 hst with hst | hst
      · exact .inl hst
      · obtain rfl := List.mem_singleton.1 hst
        exact .inr fun body' hbody =>
          absurd (hbody.symm.trans hx.1.1.symm) (Option.some_ne_none _)
    | some u =>
      rw [hopener] at hx
      obtain rfl : _ = conn := by simpa [Connection.run, hopener] using hrun
      refine ⟨fun st hst => ?_, fun st hst => .inl hst⟩
      rcases List.mem_append.1 hst with hst | hst
      · simpa [hopener] using h.within st hst
      · obtain rfl := List.mem_singleton.1 hst
        exact ⟨u, rfl, hx.1.1.symm⟩
  | commit body =>
    simp only [pass, Option.ite_none_right_eq_some, Option.some.injEq] at hx
    obtain rfl : _ = conn := Option.some.inj hrun
    refine ⟨fun st hst => absurd hst List.not_mem_nil, fun st hst => ?_⟩
    rcases List.mem_append.1 hst with hst | hst
    · exact .inl hst
    · obtain ⟨u, hu, hst⟩ := h.within st hst
      refine .inr fun body' hbody => ?_
      rw [← hx.1.1, hu, Option.map_some, ← hst, hbody]
  | rollback body =>
    obtain rfl : _ = conn := Option.some.inj hrun
    exact ⟨fun st hst => absurd hst List.not_mem_nil, fun st hst => .inl hst⟩

omit h in
/-- What ends a transaction does not fail, and other failures change nothing. -/
theorem pass_of_spared (hqueue : s.queue = x :: queue) (hspared : s.spared (.run false) = true)
    (hx : pass s.conn.opener x = some o) : o = s.conn.opener := by
  obtain ⟨id, task, op⟩ := x
  cases op with
  | begin body => exact absurd hx.symm (Option.some_ne_none _)
  | stmt body =>
    simp only [pass, Option.ite_none_right_eq_some, Option.some.injEq] at hx
    exact hx.2.symm
  | commit body =>
    have hopener : s.conn.opener = none := by simpa [spared, hqueue] using hspared
    rw [hopener] at hx ⊢
    exact pass_none hx
  | rollback body =>
    have hopener : s.conn.opener = none := by simpa [spared, hqueue] using hspared
    rw [hopener] at hx ⊢
    exact pass_none hx

/-- The next operation is run. -/
theorem Inv.onRun {s' : Database} (hspared : s.spared (.run ok) = true)
    (hrun : s.onRun ok = some s') : Inv s' := by
  cases hqueue : s.queue with
  | nil => simp [Database.onRun, hqueue] at hrun
  | cons x queue =>
    rcases h.head hqueue with ⟨o, ho⟩ | ⟨hopener, hop, rfl, hlock, call, hpc⟩
    · cases ok with
      | true =>
        obtain ⟨conn, hconn, rfl⟩ := run_of_pass ho
        obtain rfl : s.ran x queue true conn = s' := by
          simpa [Database.onRun, hqueue, hconn, Database.ran] using hrun
        obtain ⟨hwithin, hkept⟩ := h.kept ho hconn
        exact h.ran_of_pass hqueue ho hwithin hkept
      | false =>
        obtain rfl : s.ran x queue false s.conn = s' := by
          simpa [Database.onRun, hqueue, Database.ran] using hrun
        rw [pass_of_spared hqueue hspared ho] at ho
        exact h.ran_of_pass hqueue ho h.within fun st hst => .inl hst
    · have hs' : s.ran x [] ok (if ok then { s.conn with opener := some (x.task, x.id) }
          else s.conn) = s' := by
        cases ok <;>
          simpa [Database.onRun, hqueue, Database.ran, Connection.run, hop, hopener] using hrun
      exact hs' ▸ h.ran_of_begin hqueue hopener hlock hpc rfl

/-! ## Every step -/

/-- A task that is neither outside nor waiting for the lock holds it. -/
theorem Inv.holder {pc : Pc} (hpc : s.pc t = pc) (haway : ¬pc.Away) : s.lock = some t :=
  not_not.1 fun hne => haway (hpc ▸ h.away t hne)

/-- The task that the mark names holds the lock. -/
theorem Inv.owner (htx : s.txTask = some t) : s.lock = some t := by
  cases hlock : s.lock with
  | none => exact absurd (htx.symm.trans (h.free hlock).1).symm (Option.some_ne_none _).symm
  | some u =>
    have hheld := h.held u hlock
    unfold Holding at hheld
    split at hheld
    all_goals first | exact hheld.elim | simp_all

theorem Inv.submit_held (ht : s.lock = some t) {op : Op} {pc : ℕ → Pc}
    (hheld : (s.submit t op pc).Holding t)
    (hlive : ∀ body, (pc s.next).live = some body → (s.pc t).live = some body)
    (hcommit : ∀ body, op = .commit (some body) →
      (s.pc t).live = some body ∧ (pc s.next).live = none) : Inv (s.submit t op pc) := by
  have heq : s = { s with lock := some t, txTask := s.txTask } := by rw [← ht]
  rw [heq] at hheld ⊢
  exact h.submit (fun u hu => Option.some.inj (hu.symm.trans ht)) hheld
    (fun body hb => .inr (hlive body hb)) hcommit

/-- A statement in the task's own transaction. -/
theorem Inv.inside {body : ℕ} (hlive : (s.pc t).live = some body) (htx : s.txTask = some t)
    (hset : s.Settles (some (t, body))) (fetch : Bool) :
    Inv (s.submit t (.stmt (some body)) (.inner (some body) · fetch)) := by
  refine h.submit_held (h.owner htx) ?_ (fun _ hb => hb ▸ hlive) fun _ heq =>
    absurd heq Op.noConfusion
  simp only [Holding, Database.submit, Function.update_self]
  exact ⟨htx, settles_append hset (by simp [pass])⟩

/-- A statement, or a COMMIT, under the lock. -/
theorem Inv.outside (ht : ∀ u, s.lock = some u → u = t) (hset : s.Settles none) {op : Op}
    (hop : op = .stmt none ∨ op = .commit none) (fetch : Bool) :
    Inv ({ s with lock := some t, txTask := none }.submit t op (.outer · fetch)) := by
  refine h.submit ht ?_ (fun _ hb => absurd hb.symm (Option.some_ne_none _)) fun body heq => ?_
  · simp only [Holding, Database.submit, Function.update_self]
    rcases hop with rfl | rfl
    · exact ⟨trivial, settles_append hset (by simp [pass])⟩
    · exact ⟨trivial, settles_append hset (by simp [pass])⟩
  · rcases hop with rfl | rfl
    · exact absurd heq Op.noConfusion
    · exact absurd (Op.commit.inj heq).symm (Option.some_ne_none _)

theorem Inv.bodyDone {body : ℕ} (hlive : (s.pc t).live = some body) (htx : s.txTask = some t)
    (hset : s.Settles (some (t, body))) : Inv (s.bodyDone t body) := by
  refine h.submit_held (h.owner htx) ?_ (fun _ hb => absurd hb.symm (Option.some_ne_none _))
    fun body' heq => ?_
  · simp only [Holding, Database.submit, Function.update_self]
    exact ⟨htx, settles_append hset (by simp [pass])⟩
  · obtain rfl : body = body' := Option.some.inj (Op.commit.inj heq)
    exact ⟨hlive, rfl⟩

theorem Inv.onCall {s' : Database} {call : Call} (hs : s.onCall t call = some s') : Inv s' := by
  unfold Database.onCall at hs
  split at hs
  · next body hpc =>
    split at hs
    · next howns =>
      have htx : s.txTask = some t := of_decide_eq_true howns
      have hheld := h.held t (h.owner htx)
      simp only [Holding, hpc] at hheld
      cases body with
      | none => exact hheld.elim
      | some body =>
        have hlive : (s.pc t).live = some body := by rw [hpc]; rfl
        obtain rfl := Option.some.inj hs
        cases call with
        | transaction => exact h
        | commit => exact h
        | execute => exact h.inside hlive htx hheld.2 false
        | executemany => exact h.inside hlive htx hheld.2 false
        | fetchall => exact h.inside hlive htx hheld.2 true
        | fetchone => exact h.inside hlive htx hheld.2 true
    · next howns =>
      obtain rfl := Option.some.inj hs
      refine h.goto_away (fun hl => howns ?_) trivial
      have hheld := h.held t hl
      simp only [Holding, hpc] at hheld
      cases body with
      | none => exact hheld.elim
      | some body => exact decide_eq_true hheld.1
  · exact absurd hs.symm (Option.some_ne_none _)

theorem Inv.onAcquire {s' : Database} (hs : s.onAcquire t = some s') : Inv s' := by
  unfold Database.onAcquire at hs
  split at hs
  · next call hpc hlock =>
    obtain ⟨htx, hset⟩ := h.free hlock
    have ht : ∀ u, s.lock = some u → u = t := fun u hu =>
      absurd (hu.symm.trans hlock) (Option.some_ne_none _)
    have heq : ({ s with lock := some t } : Database) =
        { s with lock := some t, txTask := none } := by rw [← htx]
    have hbegin : ∀ call, Inv ({ s with lock := some t, txTask := none }.submit t
        (.begin s.next) (.beginning call)) := by
      intro call
      refine h.submit ht ?_ (fun _ hb => .inl (Option.some.inj hb).symm) fun _ heq =>
        absurd heq Op.noConfusion
      simp only [Holding, Database.submit, Function.update_self]
      exact ⟨trivial, .inl ⟨s.queue, rfl, hset, h.unknown _ (Nat.le_refl _)⟩⟩
    rw [heq] at hs
    obtain rfl := Option.some.inj hs
    cases call with
    | transaction => exact hbegin _
    | executemany => exact hbegin _
    | execute => exact h.outside ht hset (.inl rfl) false
    | fetchall => exact h.outside ht hset (.inl rfl) true
    | fetchone => exact h.outside ht hset (.inl rfl) true
    | commit => exact h.outside ht hset (.inr rfl) false
  · exact absurd hs.symm (Option.some_ne_none _)

/-- A call in the body of a transaction is over, or was cancelled. -/
theorem Inv.goto_code {body : ℕ} {pc : Pc} (hpc : s.pc t = pc) (hlive : pc.live = some body)
    (htx : s.txTask = some t) (hset : s.Settles (some (t, body))) :
    Inv (s.goto t (.code (some body))) := by
  refine h.goto_held (h.owner htx) s.txTask ?_ fun body' hb => ?_
  · simp only [Holding, Database.goto, Function.update_self]
    exact ⟨htx, hset⟩
  · rw [hpc, hlive]
    exact hb

theorem Inv.onResume {s' : Database} (hs : s.onResume t = some s') : Inv s' := by
  unfold Database.onResume at hs
  cases hpc : s.pc t with
  | beginning call id =>
    have ht := h.holder hpc not_false
    have hheld := h.held t ht
    simp only [hpc, Holding] at hs hheld
    obtain ⟨ok, hok, rfl⟩ := Option.map_eq_some_iff.1 hs
    obtain ⟨htx, ⟨front, -, -, hnone⟩ | ⟨hqueue, hran⟩⟩ := hheld
    · exact absurd (hok.symm.trans hnone) (Option.some_ne_none _)
    · rcases hran with ⟨htrue, hopener⟩ | ⟨hfalse, hopener⟩
      · obtain rfl := Option.some.inj (hok.symm.trans htrue)
        exact h.enter ht (by rw [hpc]; rfl) (by simp [Settles, hqueue, hopener])
      · obtain rfl := Option.some.inj (hok.symm.trans hfalse)
        exact h.release ht htx (by simp [Settles, hqueue, hopener])
  | batch body id =>
    have ht := h.holder hpc not_false
    have hheld := h.held t ht
    simp only [hpc, Holding] at hs hheld
    have hlive : (s.pc t).live = some body := by rw [hpc]; rfl
    obtain ⟨ok, -, rfl⟩ := Option.map_eq_some_iff.1 hs
    split
    · exact h.bodyDone hlive hheld.1 hheld.2
    · exact h.bodyRaised ht hlive hheld.1 hheld.2
  | inner body id fetch =>
    have ht := h.holder hpc (by cases body <;> exact not_false)
    have hheld := h.held t ht
    simp only [hpc, Holding] at hs hheld
    obtain ⟨ok, -, rfl⟩ := Option.map_eq_some_iff.1 hs
    cases body with
    | none => exact hheld.elim
    | some body =>
      split
      · exact h.inside (by rw [hpc]; rfl) hheld.1 hheld.2 false
      · exact h.goto_code hpc rfl hheld.1 hheld.2
  | outer id fetch =>
    have ht := h.holder hpc not_false
    have hheld := h.held t ht
    simp only [hpc, Holding] at hs hheld
    obtain ⟨ok, -, rfl⟩ := Option.map_eq_some_iff.1 hs
    split
    · have heq : s = { s with lock := some t, txTask := none } := by rw [← ht, ← hheld.1]
      rw [heq]
      exact h.outside (fun u hu => Option.some.inj (hu.symm.trans ht)) hheld.2 (.inl rfl) false
    · exact h.release ht hheld.1 hheld.2
  | committing id =>
    have ht := h.holder hpc not_false
    have hheld := h.held t ht
    simp only [hpc, Holding] at hs hheld
    obtain ⟨-, -, rfl⟩ := Option.map_eq_some_iff.1 hs
    exact h.exit ht hheld.2
  | rollingBack id =>
    have ht := h.holder hpc not_false
    have hheld := h.held t ht
    simp only [hpc, Holding] at hs hheld
    obtain ⟨-, -, rfl⟩ := Option.map_eq_some_iff.1 hs
    exact h.exit ht hheld.2
  | code body => simp [hpc] at hs
  | locking call => simp [hpc] at hs

theorem Inv.onCancel {s' : Database} (hspared : s.spared (.cancel t) = true)
    (hs : s.onCancel t = some s') : Inv s' := by
  unfold Database.onCancel at hs
  cases hpc : s.pc t with
  | beginning call id =>
    have ht := h.holder hpc not_false
    have hheld := h.held t ht
    have hfalse : s.result id = some false := by simpa [spared, hpc] using hspared
    simp only [hpc, Holding, Option.some.injEq] at hs hheld
    obtain ⟨htx, ⟨front, -, -, hnone⟩ | ⟨hqueue, hran⟩⟩ := hheld
    · exact absurd (hfalse.symm.trans hnone) (Option.some_ne_none _)
    · rcases hran with ⟨htrue, -⟩ | ⟨-, hopener⟩
      · exact absurd (Option.some.inj (hfalse.symm.trans htrue)) Bool.false_ne_true
      · exact hs ▸ h.release ht htx (by simp [Settles, hqueue, hopener])
  | batch body id =>
    have ht := h.holder hpc not_false
    have hheld := h.held t ht
    simp only [hpc, Holding, Option.some.injEq] at hs hheld
    exact hs ▸ h.bodyRaised ht (by rw [hpc]; rfl) hheld.1 hheld.2
  | inner body id fetch =>
    have ht := h.holder hpc (by cases body <;> exact not_false)
    have hheld := h.held t ht
    simp only [hpc, Holding, Option.some.injEq] at hs hheld
    cases body with
    | none => exact hheld.elim
    | some body => exact hs ▸ h.goto_code hpc rfl hheld.1 hheld.2
  | outer id fetch =>
    have ht := h.holder hpc not_false
    have hheld := h.held t ht
    simp only [hpc, Holding, Option.some.injEq] at hs hheld
    exact hs ▸ h.release ht hheld.1 hheld.2
  | committing id =>
    have ht := h.holder hpc not_false
    have hheld := h.held t ht
    simp only [hpc, Holding, Option.some.injEq] at hs hheld
    exact hs ▸ h.exit ht hheld.2
  | rollingBack id =>
    have ht := h.holder hpc not_false
    have hheld := h.held t ht
    simp only [hpc, Holding, Option.some.injEq] at hs hheld
    exact hs ▸ h.exit ht hheld.2
  | locking call =>
    simp only [hpc, Option.some.injEq] at hs
    refine hs ▸ h.goto_away (fun ht => ?_) trivial
    simpa [Holding, hpc] using h.held t ht
  | code body => simp [hpc] at hs

theorem Inv.onEnd {s' : Database} {raised : Bool} (hs : s.onEnd t raised = some s') : Inv s' := by
  unfold Database.onEnd at hs
  split at hs
  · next body hpc =>
    have ht := h.holder hpc not_false
    have hheld := h.held t ht
    have hlive : (s.pc t).live = some body := by rw [hpc]; rfl
    simp only [hpc, Holding] at hheld
    obtain rfl := Option.some.inj hs
    split
    · exact h.bodyRaised ht hlive hheld.1 hheld.2
    · exact h.bodyDone hlive hheld.1 hheld.2
  · exact absurd hs.symm (Option.some_ne_none _)

theorem Inv.step {s' : Database} {e : Event} (hspared : s.spared e = true)
    (hs : s.step e = some s') : Inv s' := by
  cases e with
  | call t call => exact h.onCall hs
  | acquire t => exact h.onAcquire hs
  | run ok => exact h.onRun hspared hs
  | resume t => exact h.onResume hs
  | cancel t => exact h.onCancel hspared hs
  | leave t => exact h.onEnd hs
  | raise t => exact h.onEnd hs

end Database

end Mtrtk
