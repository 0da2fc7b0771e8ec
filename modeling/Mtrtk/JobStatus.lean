import Mathlib.Data.List.Infix
import Mathlib.Data.Option.Basic
import Mtrtk.Jobs

/-!
# The status of a job moves forward

What was submitted will be run in order, so a job's row is looked at as it will be then (`ahead`) :
running an operation changes nothing there, and submitting one does at once what it will do. Where
the job's task is says which status that row can have (`Allowed`), and every `_update` of the task
goes forward from it.

A cancellation in the `_update` that writes `done`, once that is submitted, does not : the task goes
on to `_mark_cancelled`, which writes `failed` over it (`cancelled_when_done`). In every run without
one the status moves forward and the last one stays (`forward_of_spared`), unless `delete` has said
that nothing is to be written.
-/

namespace Mtrtk

namespace JobRunner

/-! ## Forward -/

/-- `queued`, `running`, then one of `done` and `failed`, or `queued` and `failed`. -/
def Forward (hist : List Status) : Prop :=
  hist <+: [.queued, .running, .done] ∨ hist <+: [.queued, .running, .failed] ∨
    hist <+: [.queued, .failed]

instance (hist : List Status) : Decidable (Forward hist) :=
  inferInstanceAs (Decidable (_ ∨ _ ∨ _))

/-- The status a row may have after one. -/
inductive Status.Next : Status → Status → Prop
  | same (a : Status) : Next a a
  | started : Next .queued .running
  | dropped : Next .queued .failed
  | done : Next .running .done
  | failed : Next .running .failed

/-- The last of the status values says what they are. -/
theorem forward_cases {hist : List Status} (h : Forward hist) :
    hist = [] ∨ hist = [.queued] ∨ hist = [.queued, .running] ∨ hist = [.queued, .failed] ∨
      hist = [.queued, .running, .done] ∨ hist = [.queued, .running, .failed] := by
  have hpre : ∀ {xs : List Status}, hist <+: xs → hist ∈ xs.inits := fun hp =>
    (List.mem_inits _ _).2 hp
  rcases h with h | h | h
  all_goals
    have hm := hpre h
    simp only [List.inits, List.map_cons, List.map_nil, List.mem_cons, List.not_mem_nil,
      or_false] at hm
    tauto

theorem forward_note {hist : List Status} {a b : Status} (h : Forward hist)
    (ha : hist.getLast? = some a) (hab : a.Next b) : Forward (note hist b) := by
  rcases forward_cases h with rfl | rfl | rfl | rfl | rfl | rfl
  · exact absurd ha.symm (Option.some_ne_none a)
  all_goals
    obtain rfl : _ = a := Option.some.inj ha
    cases hab <;> decide

theorem getLast?_note (hist : List Status) (b : Status) : (note hist b).getLast? = some b := by
  unfold note
  split
  · assumption
  · exact List.getLast?_concat

/-! ## Rows and the status values they had -/

/-- The last status value of a row is the one it has. -/
def Table.Noted (t : Table) : Prop :=
  ∀ i, ∀ row ∈ t.rows i, (t.hist i).getLast? = some row.status

theorem Table.Noted.put {t : Table} (h : t.Noted) (id : ℕ) (row : Row) : (t.put id row).Noted := by
  intro i row' hrow
  rcases eq_or_ne i id with rfl | hne
  · obtain rfl : row = row' := by simpa [Table.put] using hrow
    simpa [Table.put] using getLast?_note _ _
  · simp only [Table.put, ne_eq, hne, not_false_eq_true, Function.update_of_ne] at hrow ⊢
    exact h i row' hrow

theorem Table.Noted.apply {t : Table} (h : t.Noted) (op : Op) : (t.apply op).Noted := by
  cases op with
  | insert id => exact h.put id _
  | update id fields =>
    simp only [Table.apply]
    split
    · exact h.put id _
    · exact h
  | delete id =>
    intro i row hrow
    rcases eq_or_ne i id with rfl | hne
    · simp [Table.apply] at hrow
    · exact h i row (by simpa [Table.apply, hne] using hrow)
  | select | commit => exact h

theorem prefix_note (hist : List Status) (b : Status) : hist <+: note hist b := by
  unfold note
  split
  · exact List.prefix_rfl
  · exact List.prefix_append _ _

theorem Table.hist_prefix_put (t : Table) (id : ℕ) (row : Row) (i : ℕ) :
    t.hist i <+: (t.put id row).hist i := by
  rcases eq_or_ne i id with rfl | hne
  · simpa [Table.put] using prefix_note _ _
  · simp [Table.put, hne]

theorem Table.hist_prefix_apply (t : Table) (op : Op) (i : ℕ) :
    t.hist i <+: (t.apply op).hist i := by
  cases op with
  | insert id => exact t.hist_prefix_put id _ i
  | update id fields =>
    simp only [Table.apply]
    split
    · exact t.hist_prefix_put id _ i
    · exact List.prefix_rfl
  | select | delete | commit => exact List.prefix_rfl

/-! ## The table when everything submitted has been run -/

def ahead (s : JobRunner) : Table := s.queue.foldl (fun t x => t.apply x.2.2) s.table

/-- The status before an `_update`. -/
def Write.before : Write → Status → Prop
  | .running, status => status = .queued
  | .cancelled _, status => status ≠ .done
  | .progress _ _, status | .failed _, status | .done _, status => status = .running

/-- The status after it. -/
def Write.after : Write → Status
  | .running | .progress _ _ => .running
  | .failed _ | .cancelled _ => .failed
  | .done _ => .done

/-- The status of a row whose job's task is there. -/
def Allowed (pc : JobPc) (call : CallState) (status : Status) : Prop :=
  match pc with
  | .absent | .created | .queued | .making => status = .queued
  | .updating write .exec =>
    if call = .waiting then write.before status else status = write.after
  | .updating write _ => status = write.after
  | .working => status = .running
  | .ended => True

/-- Only of an `UPDATE` it matters whether it is submitted. -/
theorem allowed_of_not_exec {pc : JobPc} {call call' : CallState} {status : Status}
    (hpc : ∀ write, pc ≠ .updating write .exec) (h : Allowed pc call status) :
    Allowed pc call' status := by
  cases pc with
  | updating write step =>
    cases step with
    | exec => exact absurd rfl (hpc write)
    | _ => exact h
  | _ => exact h

/-- `submit` has not inserted its row. -/
def Unborn (s : JobRunner) (i : ℕ) : Prop :=
  s.submitPc i = .fresh ∨ s.submitPc i = .inserting ∧ s.calls (.submit i) = .waiting

structure StatusInv (s : JobRunner) : Prop where
  forward : ∀ i, Forward (s.ahead.hist i)
  noted : s.ahead.Noted
  unborn : ∀ i, s.Unborn i → s.ahead.hist i = [] ∧ s.ahead.rows i = none
  absent : ∀ i, s.submitPc i ≠ .returned → s.jobPc i = .absent
  allowed : ∀ i, ∀ row ∈ s.ahead.rows i, Allowed (s.jobPc i) (s.calls (.job i)) row.status

theorem statusInv_fresh (slots : ℕ) : StatusInv { slots } where
  forward _ := .inl (List.nil_prefix)
  noted _ _ h := absurd h.symm (Option.some_ne_none _)
  unborn _ _ := ⟨rfl, rfl⟩
  absent _ _ := rfl
  allowed _ _ h := absurd h.symm (Option.some_ne_none _)

/-! ## What a step leaves alone -/

/-- Of jobs and their rows, nothing changes but where the job's task is. -/
structure Beside (i : ℕ) (s s' : JobRunner) : Prop where
  table : s'.table = s.table
  queue : s'.queue = s.queue
  submitPc : s'.submitPc = s.submitPc
  jobPc : ∀ j, j ≠ i → s'.jobPc j = s.jobPc j
  calls : ∀ p, p ≠ .job i → (∀ d, p ≠ .delete d) → s'.calls p = s.calls p

variable {s s' s'' : JobRunner} {i : ℕ}

theorem Beside.trans (h : Beside i s s') (h' : Beside i s' s'') : Beside i s s'' where
  table := h'.table.trans h.table
  queue := h'.queue.trans h.queue
  submitPc := h'.submitPc.trans h.submitPc
  jobPc j hj := (h'.jobPc j hj).trans (h.jobPc j hj)
  calls p hp hd := (h'.calls p hp hd).trans (h.calls p hp hd)

theorem Beside.ahead (h : Beside i s s') : s'.ahead = s.ahead := by
  rw [JobRunner.ahead, JobRunner.ahead, h.table, h.queue]

theorem beside_setJob (pc : JobPc) : Beside i s (s.setJob i pc) :=
  ⟨rfl, rfl, rfl, fun j hj => by simp [setJob, hj], fun _ _ _ => rfl⟩

theorem beside_call : Beside i s (s.call (.job i)) :=
  ⟨rfl, rfl, rfl, fun _ _ => rfl, fun p hp _ => by simp [call, hp]⟩

theorem beside_hangUp : Beside i s (s.hangUp (.job i)) :=
  ⟨rfl, rfl, rfl, fun _ _ => rfl, fun p hp _ => by simp [hangUp, hp]⟩

theorem beside_leave : Beside i s s.leave :=
  ⟨rfl, rfl, rfl, fun _ _ => rfl, fun _ _ _ => rfl⟩

theorem beside_endRun : Beside i s (s.endRun i) :=
  ⟨rfl, rfl, rfl, fun j hj => by simp [endRun, setTask, hj], fun _ _ _ => rfl⟩

theorem beside_update (write : Write) : Beside i s (s.update i write) :=
  (beside_setJob _).trans beside_call

theorem beside_markCancelled : Beside i s (s.markCancelled i) := by
  unfold markCancelled
  split
  · exact beside_endRun
  · exact beside_update _

/-- The invariant is kept where no row is written, and the rest moves to where the rows may be as
they are. -/
theorem StatusInv.stay (h : StatusInv s) (hhist : s'.ahead.hist = s.ahead.hist)
    (hrows : ∀ j, ∀ row ∈ s'.ahead.rows j, row ∈ s.ahead.rows j)
    (hunborn : ∀ j, s'.Unborn j → s.Unborn j)
    (habsent : ∀ j, s'.submitPc j ≠ .returned → s'.jobPc j = .absent)
    (hallowed : ∀ j, ∀ row ∈ s.ahead.rows j, Allowed (s.jobPc j) (s.calls (.job j)) row.status →
      Allowed (s'.jobPc j) (s'.calls (.job j)) row.status) : StatusInv s' where
  forward := hhist ▸ h.forward
  noted j row hrow := hhist ▸ h.noted j row (hrows j row hrow)
  unborn j hj := by
    obtain ⟨hempty, hnone⟩ := h.unborn j (hunborn j hj)
    refine ⟨hhist ▸ hempty, Option.eq_none_iff_forall_not_mem.2 fun row hrow => ?_⟩
    exact absurd ((hrows j row hrow).symm.trans hnone) (Option.some_ne_none row)
  absent := habsent
  allowed j row hrow := hallowed j row (hrows j row hrow) (h.allowed j row (hrows j row hrow))

/-- The invariant is kept where one row is written that goes forward. -/
theorem StatusInv.put (h : StatusInv s) {row : Row} (hahead : s'.ahead = s.ahead.put i row)
    (hforward : Forward (note (s.ahead.hist i) row.status))
    (hallowed : Allowed (s'.jobPc i) (s'.calls (.job i)) row.status) (hborn : ¬ s'.Unborn i)
    (hsubmit : s'.submitPc = s.submitPc) (hjob : s'.jobPc = s.jobPc)
    (hcalls : ∀ j, j ≠ i →
      s'.calls (.submit j) = s.calls (.submit j) ∧ s'.calls (.job j) = s.calls (.job j)) :
    StatusInv s' where
  forward j := by
    rw [hahead]
    rcases eq_or_ne j i with rfl | hne
    · simpa [Table.put] using hforward
    · simpa [Table.put, hne] using h.forward j
  noted := hahead ▸ h.noted.put i row
  unborn j hj := by
    have hne : j ≠ i := fun heq => hborn (heq ▸ hj)
    rw [Unborn, hsubmit, (hcalls j hne).1] at hj
    simpa [hahead, Table.put, hne] using h.unborn j hj
  absent j hj := by
    rw [hsubmit] at hj
    rw [hjob]
    exact h.absent j hj
  allowed j row' hrow := by
    rw [hahead] at hrow
    rcases eq_or_ne j i with rfl | hne
    · obtain rfl : row = row' := by simpa [Table.put] using hrow
      exact hallowed
    · simp only [Table.put, ne_eq, hne, not_false_eq_true, Function.update_of_ne] at hrow
      rw [hjob, (hcalls j hne).2]
      exact h.allowed j row' hrow

/-- A step of a job's task. -/
theorem StatusInv.beside (h : StatusInv s) (hb : Beside i s s')
    (hallowed : ∀ status, Allowed (s.jobPc i) (s.calls (.job i)) status →
      Allowed (s'.jobPc i) (s'.calls (.job i)) status)
    (habsent : s.submitPc i ≠ .returned → s'.jobPc i = .absent) : StatusInv s' := by
  refine h.stay (by rw [hb.ahead]) (fun j row hrow => hb.ahead ▸ hrow) (fun j hj => ?_)
    (fun j hj => ?_) (fun j row _ hrow => ?_)
  · rw [Unborn, hb.submitPc, hb.calls _ (by simp) (by simp)] at hj
    exact hj
  · rw [hb.submitPc] at hj
    rcases eq_or_ne j i with rfl | hne
    · exact habsent hj
    · exact (hb.jobPc j hne).trans (h.absent j hj)
  · rcases eq_or_ne j i with rfl | hne
    · exact hallowed _ hrow
    · rw [hb.jobPc j hne, hb.calls _ (by simpa using hne) (by simp)]
      exact hrow

/-- A step that no job's task takes part in. -/
theorem StatusInv.aside (h : StatusInv s) (hb : Beside i s s') (hpc : s'.jobPc i = s.jobPc i)
    (hcall : s'.calls (.job i) = s.calls (.job i)) : StatusInv s' :=
  h.beside hb (fun status hstatus => by rwa [hpc, hcall]) fun hne => hpc.trans (h.absent i hne)

/-! ## The database -/

theorem StatusInv.onRun (h : StatusInv s) (hs : s.onRun = some s') : StatusInv s' := by
  unfold JobRunner.onRun at hs
  split at hs
  · exact absurd hs.symm (Option.some_ne_none _)
  · rename_i n p op queue hqueue
    obtain rfl := Option.some.inj hs
    have hahead : ∀ calls, ({ s with table := s.table.apply op, queue, calls } : JobRunner).ahead
        = s.ahead := fun calls => by rw [ahead, ahead, hqueue]; rfl
    have hwaiting : ∀ q, (if s.calls p = .sent n then
        Function.update s.calls p (.ran (s.table.answer op)) else s.calls) q = .waiting ↔
        s.calls q = .waiting := by
      intro q
      split
      · rename_i hsent
        rcases eq_or_ne q p with rfl | hne
        · simp [hsent]
        · simp [hne]
      · rfl
    refine h.stay (by rw [hahead]) (fun j row hrow => hahead _ ▸ hrow) (fun j hj => ?_) h.absent
      (fun j row _ hrow => ?_)
    · simpa only [Unborn, hwaiting] using hj
    · revert hrow
      unfold Allowed
      simp only [hwaiting, imp_self]

/-- What a party does that gets the lock : submitting its operation does ahead what it will do. -/
structure Granted (p : Party) (s s' : JobRunner) : Prop where
  waiting : s.calls p = .waiting
  sent : s'.calls p ≠ .waiting
  ahead : s'.ahead = s.ahead.apply (s.asks p)
  calls : ∀ q, q ≠ p → s'.calls q = s.calls q
  submitPc : s'.submitPc = s.submitPc
  jobPc : s'.jobPc = s.jobPc

theorem granted {p : Party} (hs : s.onGrant p = some s') : Granted p s s' := by
  unfold onGrant at hs
  split at hs
  · rename_i hcond
    obtain rfl := Option.some.inj hs
    exact
      { waiting := hcond.1
        sent := by simp
        ahead := by simp [JobRunner.ahead, List.foldl_append]
        calls := fun q hq => by simp [hq]
        submitPc := rfl
        jobPc := rfl }
  · exact absurd hs.symm (Option.some_ne_none _)

/-- What the status of a row is after an `_update`. -/
theorem Write.set_status (write : Write) {row : Row} (h : write.before row.status) :
    (row.set write.fields).status = write.after := by
  cases write with
  | progress => exact h
  | _ => rfl

theorem Write.next (write : Write) {status : Status} (h : write.before status) :
    status.Next write.after := by
  cases write with
  | running => exact h ▸ .started
  | progress => exact h ▸ .same _
  | failed => exact h ▸ .failed
  | done => exact h ▸ .done
  | cancelled =>
    cases status with
    | queued => exact .dropped
    | running => exact .failed
    | failed => exact .same _
    | done => exact absurd rfl h

/-- The invariant is kept where the operation submitted writes no row. -/
theorem StatusInv.granted {p : Party} (h : StatusInv s) (hg : Granted p s s')
    (hhist : s'.ahead.hist = s.ahead.hist)
    (hrows : ∀ j, ∀ row ∈ s'.ahead.rows j, row ∈ s.ahead.rows j)
    (hallowed : ∀ j, p = .job j → ∀ row ∈ s.ahead.rows j,
      Allowed (s.jobPc j) (s.calls (.job j)) row.status →
      Allowed (s.jobPc j) (s'.calls (.job j)) row.status) : StatusInv s' := by
  refine h.stay hhist hrows (fun j hj => ?_) (by rw [hg.submitPc, hg.jobPc]; exact h.absent)
    fun j row hrow hstatus => ?_
  · rw [Unborn, hg.submitPc] at hj
    refine hj.imp_right fun hj => ⟨hj.1, ?_⟩
    rw [← hg.calls _ fun heq => hg.sent (heq ▸ hj.2)]
    exact hj.2
  · rw [hg.jobPc]
    rcases eq_or_ne p (.job j) with heq | hne
    · exact hallowed j heq row hrow hstatus
    · rwa [hg.calls _ hne.symm]

theorem StatusInv.grant_submit (h : StatusInv s) (hg : Granted (.submit i) s s') :
    StatusInv s' := by
  have hahead := hg.ahead
  by_cases hpc : s.submitPc i = .inserting
  · rw [show s.asks (.submit i) = .insert i by simp [asks, hpc]] at hahead
    have habsent : s.jobPc i = .absent := h.absent i (by simp [hpc])
    refine h.put hahead ?_ ?_ ?_ hg.submitPc hg.jobPc fun j hj => ?_
    · rw [(h.unborn i (.inr ⟨hpc, hg.waiting⟩)).1]
      exact .inl (by decide)
    · rw [hg.jobPc, habsent]
      rfl
    · rintro (hfresh | hinserting)
      · rw [hg.submitPc, hpc] at hfresh
        exact SubmitPc.noConfusion hfresh
      · exact hg.sent hinserting.2
    · exact ⟨hg.calls _ (by simpa using hj), hg.calls _ (by simp)⟩
  · have hask : s.ahead.apply (s.asks (.submit i)) = s.ahead := by
      simp only [asks]
      split <;> first | contradiction | rfl
    rw [hask] at hahead
    exact h.granted hg (by rw [hahead]) (fun j row hrow => hahead ▸ hrow) nofun

theorem StatusInv.grant_delete {d : ℕ} (h : StatusInv s) (hg : Granted (.delete d) s s') :
    StatusInv s' := by
  have hahead := hg.ahead
  have hhist : s'.ahead.hist = s.ahead.hist := by
    simp only [hahead, asks]
    split <;> rfl
  refine h.granted hg hhist (fun j row hrow => ?_) nofun
  simp only [hahead, asks] at hrow
  split at hrow
  · exact hrow
  · exact hrow
  · rcases eq_or_ne j (s.target d) with rfl | hne
    · simp [Table.apply] at hrow
    · simpa [Table.apply, hne] using hrow
  · exact hrow

theorem StatusInv.grant_job (h : StatusInv s) (hg : Granted (.job i) s s') : StatusInv s' := by
  have hahead := hg.ahead
  by_cases hpc : ∃ write, s.jobPc i = .updating write .exec
  · obtain ⟨write, hpc⟩ := hpc
    have hreturned : s.submitPc i = .returned := by
      by_contra hne
      exact JobPc.noConfusion ((h.absent i hne).symm.trans hpc)
    rw [show s.asks (.job i) = .update i write.fields by simp [asks, hpc]] at hahead
    cases hrow : s.ahead.rows i with
    | none =>
      have hsame : s.ahead.apply (.update i write.fields) = s.ahead := by
        simp [Table.apply, hrow]
      rw [hsame] at hahead
      refine h.granted hg (by rw [hahead]) (fun j row hj => hahead ▸ hj) fun j hj row hrow' => ?_
      obtain rfl : i = j := by simpa using hj
      exact absurd (hrow.symm.trans hrow').symm (Option.some_ne_none row)
    | some row =>
      have hbefore : write.before row.status := by
        simpa [Allowed, hpc, hg.waiting] using h.allowed i row hrow
      have hafter := write.set_status hbefore
      have hput : s'.ahead = s.ahead.put i (row.set write.fields) := by
        simpa [Table.apply, hrow] using hahead
      refine h.put hput ?_ ?_ ?_ hg.submitPc hg.jobPc fun j hj => ?_
      · rw [hafter]
        exact forward_note (h.forward i) (h.noted i row hrow) (write.next hbefore)
      · rw [hg.jobPc, hpc, Allowed, if_neg hg.sent, hafter]
      · rintro (hfresh | hinserting)
        · rw [hg.submitPc, hreturned] at hfresh
          exact SubmitPc.noConfusion hfresh
        · rw [hg.submitPc, hreturned] at hinserting
          exact SubmitPc.noConfusion hinserting.1
      · exact ⟨hg.calls _ (by simp), hg.calls _ (by simpa using hj)⟩
  · have hask : s.ahead.apply (s.asks (.job i)) = s.ahead := by
      simp only [asks]
      split
      · rename_i write heq
        exact absurd ⟨write, heq⟩ hpc
      · rfl
      · rfl
    rw [hask] at hahead
    refine h.granted hg (by rw [hahead]) (fun j row hj => hahead ▸ hj) fun j hj row _ hstatus => ?_
    obtain rfl : i = j := by simpa using hj
    exact allowed_of_not_exec (fun write heq => hpc ⟨write, heq⟩) hstatus

theorem StatusInv.grant (h : StatusInv s) {p : Party} (hs : s.onGrant p = some s') :
    StatusInv s' := by
  cases p with
  | submit i => exact h.grant_submit (JobRunner.granted hs)
  | job i => exact h.grant_job (JobRunner.granted hs)
  | delete d => exact h.grant_delete (JobRunner.granted hs)

/-! ## The steps of `submit` and `delete` -/

/-- A step of a `submit` that is past its insert. -/
theorem StatusInv.submitting (h : StatusInv s) (hahead : s'.ahead = s.ahead)
    (hborn : ¬ s'.Unborn i) (hsubmit : ∀ j, j ≠ i → s'.submitPc j = s.submitPc j)
    (hcalls : ∀ p, p ≠ .submit i → s'.calls p = s.calls p)
    (habsent : s'.submitPc i ≠ .returned → s'.jobPc i = .absent)
    (hjob : ∀ j, s'.jobPc j = s.jobPc j ∨ j = i ∧ s.jobPc i = .absent ∧ s'.jobPc i = .created) :
    StatusInv s' := by
  refine h.stay (by rw [hahead]) (fun j row hrow => hahead ▸ hrow) (fun j hj => ?_)
    (fun j hj => ?_) fun j row _ hrow => ?_
  · have hne : j ≠ i := fun heq => hborn (heq ▸ hj)
    rwa [Unborn, hsubmit j hne, hcalls _ (by simpa using hne)] at hj
  · rcases eq_or_ne j i with rfl | hne
    · exact habsent hj
    · rw [hsubmit j hne] at hj
      rcases hjob j with hsame | ⟨heq, -⟩
      · exact hsame.trans (h.absent j hj)
      · exact absurd heq hne
  · rw [hcalls _ (by simp)]
    rcases hjob j with hsame | ⟨rfl, hpc, hpc'⟩
    · rwa [hsame]
    · rw [hpc] at hrow
      rwa [hpc']

theorem StatusInv.resume_submit (h : StatusInv s) (answer : Answer) :
    StatusInv ((s.hangUp (.submit i)).submitNext i answer) := by
  have hcalls : ∀ p, p ≠ .submit i → (s.hangUp (.submit i)).calls p = s.calls p := fun p hp => by
    simp [hangUp, hp]
  have habsent : s.submitPc i ≠ .returned → s.jobPc i = .absent := h.absent i
  unfold submitNext
  split
  · rename_i hpc
    replace hpc : s.submitPc i = .inserting := hpc
    refine h.submitting rfl ?_ (fun j hj => ?_) (fun p hp => ?_) (fun _ => ?_) (fun j => .inl rfl)
      (i := i)
    · simp [Unborn, call, setSubmit]
    · simp [call, setSubmit, hangUp, hj]
    · simpa [call, setSubmit, hp] using hcalls p hp
    · exact habsent (by simp [hpc])
  · rename_i hpc
    replace hpc : s.submitPc i = .committing := hpc
    refine h.submitting rfl ?_ (fun j hj => ?_) (fun p hp => ?_) (fun _ => ?_) (fun j => .inl rfl)
      (i := i)
    · simp [Unborn, call, setSubmit]
    · simp [call, setSubmit, hangUp, hj]
    · simpa [call, setSubmit, hp] using hcalls p hp
    · exact habsent (by simp [hpc])
  · rename_i hpc
    replace hpc : s.submitPc i = .getting := hpc
    have hjob : s.jobPc i = .absent := habsent (by simp [hpc])
    split
    · refine h.submitting rfl ?_ (fun j hj => ?_) hcalls (fun _ => hjob) (fun j => .inl rfl)
        (i := i)
      · simp [Unborn, setSubmit]
      · simp [setSubmit, hangUp, hj]
    · refine h.submitting rfl ?_ (fun j hj => ?_) hcalls (fun hne => ?_) (fun j => ?_) (i := i)
      · simp [Unborn, setTask, setJob, setSubmit]
      · simp [setTask, setJob, setSubmit, hangUp, hj]
      · simp [setTask, setJob, setSubmit] at hne
      · rcases eq_or_ne j i with rfl | hne
        · exact .inr ⟨rfl, hjob, by simp [setTask, setJob]⟩
        · exact .inl (by simp [setTask, setJob, setSubmit, hangUp, hne])
  · rename_i hinserting _ _
    refine h.stay rfl (fun j row hrow => hrow) (fun j hj => ?_) h.absent fun j row _ hrow => ?_
    · rcases eq_or_ne j i with rfl | hne
      · exact hj.imp_right fun hj => absurd hj.1 hinserting
      · simpa [Unborn, hangUp, hne] using hj
    · rwa [hcalls _ (by simp)]

theorem StatusInv.cancel_submit (h : StatusInv s) (hawaits : s.awaits (.submit i) = true) :
    StatusInv ((s.hangUp (.submit i)).setSubmit i .failed) := by
  refine h.submitting rfl ?_ ?_ ?_ ?_ ?_ (i := i)
  · simp [Unborn, setSubmit]
  · intro j hj
    simp [setSubmit, hangUp, hj]
  · intro p hp
    simp [setSubmit, hangUp, hp]
  · intro _
    refine h.absent i fun hreturned => ?_
    simp [awaits, hreturned] at hawaits
  · exact fun j => .inl rfl

theorem StatusInv.submit (h : StatusInv s) (hfresh : s.submitPc i = .fresh) :
    StatusInv ((s.setSubmit i .inserting).call (.submit i)) := by
  refine h.stay rfl (fun j row hrow => hrow) (fun j hj => ?_) (fun j hj => ?_)
    fun j row _ hrow => ?_
  · rcases eq_or_ne j i with rfl | hne
    · exact .inl hfresh
    · simpa [Unborn, call, setSubmit, hne] using hj
  · refine h.absent j fun hreturned => hj ?_
    have hne : j ≠ i := by
      rintro rfl
      exact SubmitPc.noConfusion (hfresh.symm.trans hreturned)
    simpa [call, setSubmit, hne] using hreturned
  · simpa [call, setSubmit] using hrow

/-! ## The steps of a job's task -/

theorem StatusInv.job (h : StatusInv s) (hb : Beside i s s') (hpc : s.jobPc i ≠ .absent)
    (hallowed : ∀ status, Allowed (s.jobPc i) (s.calls (.job i)) status →
      Allowed (s'.jobPc i) (s'.calls (.job i)) status) : StatusInv s' :=
  h.beside hb hallowed fun hne => absurd (h.absent i hne) hpc

theorem allowed_update {write : Write} {status : Status} (h : write.before status) :
    Allowed ((s.update i write).jobPc i) ((s.update i write).calls (.job i)) status := by
  simpa [update, call, setJob, Allowed] using h

theorem allowed_endRun (status : Status) :
    Allowed ((s.endRun i).jobPc i) ((s.endRun i).calls (.job i)) status := by
  simp [endRun, Allowed]

/-- `_mark_cancelled` goes forward, unless the row says `done` and may be written. -/
theorem allowed_markCancelled {status : Status} (h : status ≠ .done ∨ s.reason i = some none) :
    Allowed ((s.markCancelled i).jobPc i) ((s.markCancelled i).calls (.job i)) status := by
  unfold markCancelled
  split
  · exact allowed_endRun status
  · rename_i hreason
    refine allowed_update (h.resolve_right fun hnone => ?_)
    rw [hnone] at hreason
    exact absurd hreason.symm (Option.some_ne_none _)

theorem StatusInv.made (h : StatusInv s) (hpc : s.jobPc i = .making) (ok : Bool) :
    StatusInv (if ok then s.update i .running else s.leave.endRun i) := by
  cases ok with
  | true =>
    refine h.job (beside_update _) (by simp [hpc]) fun status hstatus => ?_
    rw [hpc] at hstatus
    exact allowed_update hstatus
  | false =>
    exact h.job (beside_leave.trans beside_endRun) (by simp [hpc]) fun status _ =>
      allowed_endRun status

theorem StatusInv.finish (h : StatusInv s) (hpc : s.jobPc i = .working) (outcome : Outcome) :
    StatusInv (s.onFinish i outcome) := by
  have hne : s.jobPc i ≠ .absent := by simp [hpc]
  have hrunning : ∀ status, Allowed (s.jobPc i) (s.calls (.job i)) status → status = .running :=
    fun status hstatus => by rwa [hpc] at hstatus
  cases outcome with
  | returned result =>
    exact h.job (beside_update _) hne fun status hstatus => allowed_update (hrunning _ hstatus)
  | raised error =>
    exact h.job (beside_update _) hne fun status hstatus => allowed_update (hrunning _ hstatus)
  | cancelled =>
    refine h.job (beside_leave.trans beside_markCancelled) hne fun status hstatus => ?_
    exact allowed_markCancelled (.inl (by simp [hrunning _ hstatus]))

theorem beside_updated (write : Write) : Beside i s (s.updated i write) := by
  cases write with
  | running | progress => exact beside_setJob _
  | failed | done => exact beside_leave.trans beside_endRun
  | cancelled => exact beside_endRun

theorem StatusInv.resume_job (h : StatusInv s) {answer : Answer}
    (hran : s.calls (.job i) = .ran answer) : StatusInv ((s.hangUp (.job i)).jobNext i) := by
  unfold jobNext
  split
  · rename_i write hpc
    replace hpc : s.jobPc i = .updating write .exec := hpc
    refine h.job (beside_hangUp.trans ((beside_setJob _).trans beside_call)) (by simp [hpc])
      fun status hstatus => ?_
    simpa [hpc, hran, Allowed, setJob, call] using hstatus
  · rename_i write hpc
    replace hpc : s.jobPc i = .updating write .commit := hpc
    refine h.job (beside_hangUp.trans ((beside_setJob _).trans beside_call)) (by simp [hpc])
      fun status hstatus => ?_
    simpa [hpc, Allowed, setJob, call] using hstatus
  · rename_i write hpc
    replace hpc : s.jobPc i = .updating write .get := hpc
    refine h.job (beside_hangUp.trans (beside_updated write)) (by simp [hpc])
      fun status hstatus => ?_
    rw [hpc] at hstatus
    cases write with
    | running | progress => simpa [updated, setJob, Allowed, Write.after] using hstatus
    | failed | done | cancelled => exact allowed_endRun status
  · rename_i hexec _ _
    refine h.beside beside_hangUp (fun status hstatus => ?_) (h.absent i)
    exact allowed_of_not_exec (fun write => hexec write) hstatus

/-- Whether a cancellation of the job's task is one the status survives. -/
def spared (s : JobRunner) : Event → Bool
  | .cancel (.job i) =>
    match s.jobPc i with
    | .updating (.done _) step =>
      (step = .exec ∧ s.calls (.job i) = .waiting) ∨ s.reason i = some none
    | _ => true
  | _ => true

theorem StatusInv.jobCancelled {t : JobRunner} (h : StatusInv s) (hb : Beside i s t)
    (hsame : t.jobPc i = s.jobPc i) (hreason : t.reason = s.reason)
    (hspared : s.spared (.cancel (.job i)) = true) : StatusInv (t.jobCancelled i) := by
  have hmark : s.jobPc i ≠ .absent → (∀ status, Allowed (s.jobPc i) (s.calls (.job i)) status →
      status ≠ .done ∨ s.reason i = some none) →
      StatusInv (t.markCancelled i) ∧ StatusInv (t.leave.markCancelled i) := by
    intro hne hnot
    refine ⟨h.job (hb.trans beside_markCancelled) hne fun status hstatus => ?_,
      h.job (hb.trans (beside_leave.trans beside_markCancelled)) hne fun status hstatus => ?_⟩
    all_goals
      refine allowed_markCancelled ((hnot status hstatus).imp_right fun hnone => ?_)
      exact (congrFun hreason i).trans hnone
  have hidle : (∀ write, s.jobPc i ≠ .updating write .exec) → StatusInv t := fun hexec =>
    h.beside hb (fun status hstatus => by
      rw [hsame]
      exact allowed_of_not_exec hexec hstatus) fun hne => hsame.trans (h.absent i hne)
  unfold JobRunner.jobCancelled
  rw [hsame]
  cases hpc : s.jobPc i with
  | absent | ended | working => exact hidle (by simp [hpc])
  | created =>
    refine h.job (hb.trans (beside_setJob .ended)) (by simp [hpc]) fun status _ => ?_
    simp [setJob, Allowed]
  | queued =>
    refine (hmark (by simp [hpc]) fun status hstatus => .inl ?_).1
    rw [hpc] at hstatus
    simp [show status = .queued from hstatus]
  | making =>
    refine (hmark (by simp [hpc]) fun status hstatus => .inl ?_).2
    rw [hpc] at hstatus
    simp [show status = .queued from hstatus]
  | updating write step =>
    have hne : s.jobPc i ≠ .absent := by simp [hpc]
    cases write with
    | running | failed =>
      refine (hmark hne fun status hstatus => .inl ?_).2
      rw [hpc] at hstatus
      rintro rfl
      cases step <;> simp [Allowed, Write.before, Write.after] at hstatus
    | done =>
      refine (hmark hne fun status hstatus => ?_).2
      simp only [spared, hpc, Bool.decide_or, Bool.or_eq_true, decide_eq_true_eq] at hspared
      refine hspared.imp_left fun ⟨hstep, hwaiting⟩ => ?_
      subst hstep
      rw [hpc, Allowed, if_pos hwaiting] at hstatus
      simp [show status = .running from hstatus]
    | progress =>
      refine h.job (hb.trans (beside_setJob .working)) hne fun status hstatus => ?_
      rw [hpc] at hstatus
      cases step <;> simpa [Allowed, Write.before, Write.after, setJob] using hstatus
    | cancelled =>
      exact h.job (hb.trans beside_endRun) hne fun status _ => allowed_endRun status

theorem StatusInv.cancel_job (h : StatusInv s) (hspared : s.spared (.cancel (.job i)) = true) :
    StatusInv (({ s.hangUp (.job i) with
      requested := Function.update s.requested i false } : JobRunner).jobCancelled i) :=
  h.jobCancelled (beside_hangUp.trans ⟨rfl, rfl, rfl, fun _ _ => rfl, fun _ _ _ => rfl⟩) rfl rfl
    hspared

/-! ## The steps of `delete` -/

variable {d : ℕ}

/-- Of jobs and their rows nothing changes. -/
structure Apart (s s' : JobRunner) : Prop where
  table : s'.table = s.table
  queue : s'.queue = s.queue
  submitPc : s'.submitPc = s.submitPc
  jobPc : s'.jobPc = s.jobPc
  calls : ∀ p, (∀ d, p ≠ .delete d) → s'.calls p = s.calls p

theorem apart_deleteNext (answer : Answer) :
    Apart s ((s.hangUp (.delete d)).deleteNext d answer) := by
  have hcalls : ∀ p, (∀ d, p ≠ .delete d) → (s.hangUp (.delete d)).calls p = s.calls p :=
    fun p hp => by simp [hangUp, hp d]
  have hcall : ∀ p, (∀ d, p ≠ .delete d) →
      ((s.hangUp (.delete d)).call (.delete d)).calls p = s.calls p :=
    fun p hp => by simp [call, hangUp, hp d]
  simp only [deleteNext]
  split
  · split
    · exact ⟨rfl, rfl, rfl, rfl, hcalls⟩
    · split
      · exact ⟨rfl, rfl, rfl, rfl, hcall⟩
      · exact ⟨rfl, rfl, rfl, rfl, hcalls⟩
  · split <;> exact ⟨rfl, rfl, rfl, rfl, hcalls⟩
  · exact ⟨rfl, rfl, rfl, rfl, hcall⟩
  · exact ⟨rfl, rfl, rfl, rfl, hcalls⟩
  · exact ⟨rfl, rfl, rfl, rfl, hcalls⟩

theorem apart_deleteCancelled : Apart s ((s.hangUp (.delete d)).deleteCancelled d) := by
  unfold deleteCancelled
  split <;> exact ⟨rfl, rfl, rfl, rfl, fun p hp => by simp [hangUp, setDelete, cancelTask, hp d]⟩

theorem StatusInv.apart (h : StatusInv s) (ha : Apart s s') : StatusInv s' :=
  h.aside (i := 0) ⟨ha.table, ha.queue, ha.submitPc, fun _ _ => congrFun ha.jobPc _,
    fun p _ hd => ha.calls p hd⟩ (congrFun ha.jobPc _) (ha.calls _ (by simp))

/-! ## A whole run -/

/-- A step of a job's own task. -/
theorem ifAt_eq_some {pc : JobPc} (hs : s.ifAt i pc s' = some s'') :
    s.jobPc i = pc ∧ s.requested i = false ∧ s' = s'' := by
  unfold ifAt at hs
  split at hs
  · rename_i hcond
    exact ⟨hcond.1, hcond.2, Option.some.inj hs⟩
  · exact absurd hs.symm (Option.some_ne_none _)

theorem StatusInv.step {e : Event} (h : StatusInv s) (hspared : s.spared e = true)
    (hs : s.step e = some s') : StatusInv s' := by
  cases e with
  | submit i =>
    simp only [JobRunner.step, Option.ite_none_right_eq_some, Option.some.injEq] at hs
    obtain ⟨⟨hfresh, -⟩, rfl⟩ := hs
    exact h.submit hfresh
  | delete d i =>
    simp only [JobRunner.step, Option.ite_none_right_eq_some, Option.some.injEq] at hs
    obtain ⟨-, rfl⟩ := hs
    exact h.apart ⟨rfl, rfl, rfl, rfl, fun p hp => by simp [call, setDelete, hp d]⟩
  | shutdown =>
    obtain rfl := Option.some.inj hs
    exact h.apart ⟨rfl, rfl, rfl, rfl, fun _ _ => rfl⟩
  | grant p => exact h.grant hs
  | run => exact h.onRun hs
  | resume p =>
    simp only [JobRunner.step, onResume] at hs
    split at hs
    · rename_i answer hran
      simp only [Option.ite_none_left_eq_some, Option.some.injEq] at hs
      obtain ⟨-, rfl⟩ := hs
      cases p with
      | submit i => exact h.resume_submit answer
      | job i => exact h.resume_job hran
      | delete d => exact h.apart (apart_deleteNext answer)
    · exact absurd hs.symm (Option.some_ne_none _)
  | cancel p =>
    simp only [JobRunner.step, onCancel, Option.ite_none_right_eq_some, Option.some.injEq] at hs
    obtain ⟨hawaits, rfl⟩ := hs
    cases p with
    | submit i => exact h.cancel_submit hawaits
    | job i => exact h.cancel_job hspared
    | delete d => exact h.apart apart_deleteCancelled
  | start i =>
    obtain ⟨hpc, -, rfl⟩ := ifAt_eq_some hs
    refine h.job (beside_setJob _) (by simp [hpc]) fun status hstatus => ?_
    rw [hpc] at hstatus
    simpa [setJob, Allowed] using hstatus
  | acquire i =>
    simp only [JobRunner.step, Option.ite_none_right_eq_some] at hs
    obtain ⟨hpc, -, rfl⟩ := ifAt_eq_some hs.2
    have hb : Beside i s { s with slots := s.slots - 1 } :=
      ⟨rfl, rfl, rfl, fun _ _ => rfl, fun _ _ _ => rfl⟩
    refine h.job (hb.trans (beside_setJob _)) (by simp [hpc]) fun status hstatus => ?_
    rw [hpc] at hstatus
    simpa [setJob, Allowed] using hstatus
  | made i ok =>
    obtain ⟨hpc, -, rfl⟩ := ifAt_eq_some hs
    exact h.made hpc ok
  | report i fraction message =>
    obtain ⟨hpc, -, rfl⟩ := ifAt_eq_some hs
    refine h.job (beside_update _) (by simp [hpc]) fun status hstatus => ?_
    rw [hpc] at hstatus
    exact allowed_update hstatus
  | finish i outcome =>
    obtain ⟨hpc, -, rfl⟩ := ifAt_eq_some hs
    exact h.finish hpc outcome
  | gathered d =>
    simp only [JobRunner.step, Option.ite_none_right_eq_some, Option.some.injEq] at hs
    obtain ⟨-, rfl⟩ := hs
    exact h.apart ⟨rfl, rfl, rfl, rfl, fun _ _ => rfl⟩
  | cleared d =>
    simp only [JobRunner.step, Option.ite_none_right_eq_some, Option.some.injEq] at hs
    obtain ⟨-, rfl⟩ := hs
    exact h.apart ⟨rfl, rfl, rfl, rfl, fun p hp => by simp [call, setDelete, hp d]⟩

theorem StatusInv.run (h : StatusInv s) (hs : Reachable (guarded JobRunner.step spared) s s') :
    StatusInv s' := by
  refine hs.invariant StatusInv h fun t e t' _ ht hs => ?_
  obtain ⟨hspared, hs⟩ := guarded_eq_some.1 hs
  exact ht.step hspared hs

/-! ## The table along a run -/

@[simp] theorem table_update (write : Write) : (s.update i write).table = s.table := rfl

@[simp] theorem table_markCancelled : (s.markCancelled i).table = s.table :=
  beside_markCancelled.table

@[simp] theorem table_updated (write : Write) : (s.updated i write).table = s.table :=
  (beside_updated write).table

@[simp] theorem table_jobNext : (s.jobNext i).table = s.table := by
  unfold jobNext
  split
  · rfl
  · rfl
  · exact table_updated _
  · rfl

@[simp] theorem table_jobCancelled : (s.jobCancelled i).table = s.table := by
  unfold JobRunner.jobCancelled
  split <;> first | rfl | exact table_markCancelled

@[simp] theorem table_submitNext (answer : Answer) :
    (s.submitNext i answer).table = s.table := by
  unfold submitNext
  split
  · rfl
  · rfl
  · split <;> rfl
  · rfl

theorem table_onFinish (outcome : Outcome) : (s.onFinish i outcome).table = s.table := by
  cases outcome with
  | cancelled => exact table_markCancelled
  | _ => rfl

/-- Only `run` changes the table. -/
theorem step_table {e : Event} (hs : s.step e = some s') :
    s'.table = s.table ∨ ∃ op, s'.table = s.table.apply op := by
  cases e with
  | run =>
    simp only [JobRunner.step, JobRunner.onRun] at hs
    split at hs
    · exact absurd hs.symm (Option.some_ne_none _)
    · rename_i n p op queue hqueue
      obtain rfl := Option.some.inj hs
      exact .inr ⟨op, rfl⟩
  | resume p =>
    simp only [JobRunner.step, onResume] at hs
    split at hs
    · simp only [Option.ite_none_left_eq_some, Option.some.injEq] at hs
      obtain ⟨-, rfl⟩ := hs
      cases p with
      | submit i => exact .inl (table_submitNext _)
      | job i => exact .inl table_jobNext
      | delete d => exact .inl (apart_deleteNext _).table
    · exact absurd hs.symm (Option.some_ne_none _)
  | cancel p =>
    simp only [JobRunner.step, onCancel, Option.ite_none_right_eq_some, Option.some.injEq] at hs
    obtain ⟨-, rfl⟩ := hs
    cases p with
    | submit i => exact .inl rfl
    | job i => exact .inl table_jobCancelled
    | delete d => exact .inl apart_deleteCancelled.table
  | shutdown =>
    obtain rfl := Option.some.inj hs
    exact .inl rfl
  | made i ok =>
    obtain ⟨-, -, rfl⟩ := ifAt_eq_some hs
    left
    split <;> rfl
  | finish i outcome =>
    obtain ⟨-, -, rfl⟩ := ifAt_eq_some hs
    exact .inl (table_onFinish outcome)
  | start i | report i =>
    obtain ⟨-, -, rfl⟩ := ifAt_eq_some hs
    exact .inl rfl
  | acquire i =>
    simp only [JobRunner.step, Option.ite_none_right_eq_some] at hs
    obtain ⟨-, -, rfl⟩ := ifAt_eq_some hs.2
    exact .inl rfl
  | submit | delete | gathered | cleared =>
    simp only [JobRunner.step, Option.ite_none_right_eq_some, Option.some.injEq] at hs
    obtain ⟨-, rfl⟩ := hs
    exact .inl rfl
  | grant p =>
    simp only [JobRunner.step, onGrant, Option.ite_none_right_eq_some, Option.some.injEq] at hs
    obtain ⟨-, rfl⟩ := hs
    exact .inl rfl

theorem hist_prefix_ahead (s : JobRunner) (i : ℕ) : s.table.hist i <+: s.ahead.hist i := by
  unfold JobRunner.ahead
  generalize s.table = t
  induction s.queue generalizing t with
  | nil => exact List.prefix_rfl
  | cons x queue ih => exact (t.hist_prefix_apply x.2.2 i).trans (ih _)

theorem hist_prefix_step {e : Event} (hs : s.step e = some s') (i : ℕ) :
    s.table.hist i <+: s'.table.hist i := by
  rcases step_table hs with h | ⟨op, h⟩
  · rw [h]
  · exact h ▸ s.table.hist_prefix_apply op i

theorem noted_step {e : Event} (h : s.table.Noted) (hs : s.step e = some s') :
    s'.table.Noted := by
  rcases step_table hs with h' | ⟨op, h'⟩
  · exact h' ▸ h
  · exact h' ▸ h.apply op

/-- What a run has done to the table is kept by what follows. -/
theorem hist_prefix_of_reachable {cond : JobRunner → Event → Bool}
    (h : Reachable (guarded step cond) s s') (hnoted : s.table.Noted) :
    s'.table.Noted ∧ ∀ i, s.table.hist i <+: s'.table.hist i := by
  refine h.invariant (fun t => t.table.Noted ∧ ∀ i, s.table.hist i <+: t.table.hist i)
    ⟨hnoted, fun _ => List.prefix_rfl⟩ fun t e t' _ ⟨hn, hp⟩ hs => ?_
  obtain ⟨-, hs⟩ := guarded_eq_some.1 hs
  exact ⟨noted_step hn hs, fun i => (hp i).trans (hist_prefix_step hs i)⟩

theorem Forward.earlier {hist hist' : List Status} (h : Forward hist') (hp : hist <+: hist') :
    Forward hist :=
  h.imp hp.trans (Or.imp hp.trans hp.trans)

/-- After `done` and after `failed` nothing follows. -/
theorem Forward.finished {hist hist' : List Status} {status : Status} (h : Forward hist')
    (hp : hist <+: hist') (hlast : hist.getLast? = some status)
    (hfinished : status = .done ∨ status = .failed) : hist' = hist := by
  have hmem := (List.mem_inits _ _).2 hp
  rcases forward_cases h with rfl | rfl | rfl | rfl | rfl | rfl
  all_goals
    simp only [List.inits, List.map_cons, List.map_nil, List.mem_cons, List.not_mem_nil,
      or_false] at hmem
    rcases hmem with rfl | rfl | rfl | rfl
  all_goals cases hlast
  all_goals first | rfl | exact absurd hfinished (by decide)

/-- **The status of every job moves forward, and a finished one stays what it is**, in every run in
which no cancellation reaches a job's task while it writes `done`. -/
theorem forward_of_spared (slots : ℕ) {s : JobRunner}
    (h : Reachable (guarded step spared) { slots } s) :
    (∀ i, Forward (s.table.hist i)) ∧
      (∀ i, ∀ row ∈ s.table.rows i, (s.table.hist i).getLast? = some row.status) ∧
      ∀ s', Reachable (guarded step spared) s s' → ∀ i, ∀ row ∈ s.table.rows i,
        row.status = .done ∨ row.status = .failed →
          ∀ row' ∈ s'.table.rows i, row'.status = row.status := by
  have hinv := (statusInv_fresh slots).run h
  have hnoted : ({ slots } : JobRunner).table.Noted := fun _ _ h =>
    absurd h.symm (Option.some_ne_none _)
  have hs := (hist_prefix_of_reachable h hnoted).1
  refine ⟨fun i => (hinv.forward i).earlier (hist_prefix_ahead s i), hs, ?_⟩
  intro s' h' i row hrow hfinished row' hrow'
  obtain ⟨hs', hpre⟩ := hist_prefix_of_reachable h' hs
  have hforward := ((hinv.run h').forward i).earlier (hist_prefix_ahead s' i)
  have hsame := hforward.finished (hpre i) (hs i row hrow) hfinished
  have hlast := hs' i row' hrow'
  rw [hsame, hs i row hrow] at hlast
  exact (Option.some.inj hlast).symm

/-- A job that is submitted, and runs until its `UPDATE` to `done` is submitted. -/
def succeeds : List Event :=
  let call (p : Party) : List Event := [.grant p, .run, .resume p]
  [.submit 0] ++ call (.submit 0) ++ call (.submit 0) ++ call (.submit 0) ++
    [.start 0, .acquire 0, .made 0 true] ++ call (.job 0) ++ call (.job 0) ++ call (.job 0) ++
    [.finish 0 (.returned "result"), .grant (.job 0)]

/-- The job ends, and what its row says is `done` ever after. -/
theorem forward_of_spared_succeeds : ∃ s : JobRunner, s.table.hist 0 = [.queued, .running, .done] ∧
    ∀ s', Reachable (guarded step spared) s s' →
      ∀ row ∈ s'.table.rows 0, row.status = .done := by
  have hrun : (run (guarded step spared) {} (succeeds ++ [.run])).isSome := by decide
  obtain ⟨s, hs⟩ := Option.isSome_iff_exists.1 hrun
  have hhist : s.table.hist 0 = [.queued, .running, .done] ∧
      ∃ row, s.table.rows 0 = some row ∧ row.status = .done := by
    obtain rfl := Option.some.inj hs
    exact ⟨rfl, _, rfl, rfl⟩
  obtain ⟨hhist, row, hrow, hdone⟩ := hhist
  refine ⟨s, hhist, fun s' h' row' hrow' => ?_⟩
  rw [← hdone]
  exact (forward_of_spared 1 ⟨_, hs⟩).2.2 s' h' 0 row hrow (.inl hdone) row' hrow'

/-- `shutdown` cancels the job while it awaits its last `UPDATE`, which says `done` : the handler of
the cancellation writes `failed` over it. -/
theorem cancelled_when_done : ∃ s : JobRunner, Reachable step {} s ∧
    s.table.hist 0 = [.queued, .running, .done, .failed] ∧ ¬ Forward (s.table.hist 0) := by
  have hrun : (run step {} (succeeds ++ [.shutdown, .cancel (.job 0), .run, .grant (.job 0),
      .run])).isSome := by decide
  obtain ⟨s, hs⟩ := Option.isSome_iff_exists.1 hrun
  have hhist : s.table.hist 0 = [.queued, .running, .done, .failed] := by
    obtain rfl := Option.some.inj hs
    rfl
  refine ⟨s, ⟨_, hs⟩, hhist, fun hforward => ?_⟩
  rw [hhist] at hforward
  exact absurd hforward (by decide)

end JobRunner

end Mtrtk
