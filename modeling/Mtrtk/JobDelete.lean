import Mtrtk.JobStatus

/-!
# Deleting jobs

`delete` reads the status of a job, takes its task, reads the status again and only then cancels
the task. Nobody else can take the task in between, so one `delete` never cancels a job that runs.

The argument is about the one that has the task : a second `delete` of the id finds none, and goes
on to the directory and the row while the job may start, and so does one of a job that is just being
submitted (`second_delete`). In every run in which a `delete` that finds no task finds the job ended
or never submitted (`taken`), a job that runs is left alone, what is deleted stays deleted, and each
row removed is told of once (`untouched_of_taken`). There a job is `Dead` from the first moment
a `delete` may touch it : it has ended, will never be, or was cancelled before it began.
-/

namespace Mtrtk

namespace JobRunner

/-! ## What a `delete` relies on -/

/-- Only `delete` cancels : a job's task learns of what was requested, and nobody shuts down. -/
def alone (s : JobRunner) : Event → Bool
  | .shutdown => false
  | .cancel (.job id) => s.requested id
  | .cancel _ => false
  | _ => true

/-- A `delete` that finds no task finds the job ended, or not submitted. -/
def taken (s : JobRunner) : Event → Bool
  | .resume (.delete d) =>
    match s.deletePc d, s.calls (.delete d) with
    | .reading, .ran answer => answer.isRunning || s.tasks (s.target d) ||
        decide (s.jobPc (s.target d) = .ended) || decide (s.submitPc (s.target d) = .fresh)
    | _, _ => true
  | _ => true

/-- The job's function has started, and has not finished. -/
def Runs (s : JobRunner) (i : ℕ) : Prop :=
  s.jobPc i = .working ∨ ∃ fraction message step,
    s.jobPc i = .updating (.progress fraction message) step

/-- A `delete` is past its reads : it cancels, or removes. -/
def DeletePc.Past : DeletePc → Prop
  | .gathering | .clearing | .deleting | .committing _ | .returned => True
  | _ => False

/-- A `delete` has removed the row of a job, and has not said so. -/
def Announces (s : JobRunner) (d i : ℕ) : Prop :=
  s.target d = i ∧ (s.deletePc d = .committing true ∨
    s.deletePc d = .deleting ∧ s.calls (.delete d) = .ran (.deleted true))

/-! ## The invariant -/

/-- The row of a job says `running`, or the job is about to find that it does. -/
def Active : JobPc → CallState → Prop
  | .updating .running .exec, call => ∃ answer, call = .ran answer
  | .updating .running _, _ | .updating (.progress _ _) _, _ | .working, _ => True
  | _, _ => False

/-- Where a job can be when its task is cancelled : before its row says `running`, or after its
end. -/
def Doomed : JobPc → Prop
  | .created | .queued | .making | .updating .running .exec | .updating (.failed _) _
  | .updating (.done _) _ | .updating (.cancelled _) _ => True
  | _ => False

/-- The job will not run any more : it has ended, will never be submitted, or was cancelled. -/
def Dead (s : JobRunner) (i : ℕ) : Prop :=
  s.jobPc i = .ended ∨ (s.submitPc i = .fresh ∧ s.named i = true) ∨ s.requested i = true

/-- The row of the job was inserted. -/
def Born (s : JobRunner) (i : ℕ) : Prop :=
  (s.submitPc i = .inserting ∧ ∃ answer, s.calls (.submit i) = .ran answer) ∨
    s.submitPc i = .committing ∨ s.submitPc i = .getting ∨ s.submitPc i = .returned

/-- Whether the party is in a call of the database. -/
def InCall (s : JobRunner) : Party → Prop
  | .submit i => s.submitPc i = .inserting ∨ s.submitPc i = .committing ∨ s.submitPc i = .getting
  | .job i => ∃ write step, s.jobPc i = .updating write step
  | .delete d => s.deletePc d = .reading ∨ s.deletePc d = .rereading ∨ s.deletePc d = .deleting ∨
      ∃ removed, s.deletePc d = .committing removed

/-- One call at a time : nobody gives up an operation that was submitted. -/
structure Serial (s : JobRunner) : Prop where
  sent : ∀ p n, s.calls p = .sent n → s.lock = some p ∧ s.queue = [(n, p, s.asks p)]
  ran : ∀ p answer, s.calls p = .ran answer → s.lock = some p ∧ s.queue = []
  queue : s.queue ≠ [] → ∃ p n, s.calls p = .sent n
  lock : ∀ p, s.lock = some p → s.calls p ≠ .idle ∧ s.calls p ≠ .waiting
  inCall : ∀ p, s.calls p ≠ .idle → s.InCall p

structure DeleteInv (s : JobRunner) : Prop where
  serial : Serial s
  absent : ∀ i, s.submitPc i ≠ .returned → s.jobPc i = .absent
  tasks : ∀ i, s.tasks i = true → s.jobPc i ≠ .absent
  active : ∀ i, Active (s.jobPc i) (s.calls (.job i)) →
    ∃ row, s.table.rows i = some row ∧ row.status = .running
  requested : ∀ i, s.requested i = true → s.reason i = some none ∧ Doomed (s.jobPc i) ∧
    (s.calls (.job i) = .idle ∨ s.calls (.job i) = .waiting)
  born : ∀ i, s.Born i → s.table.removed i = 0 → s.table.rows i ≠ none
  removed : ∀ i, s.table.removed i ≠ 0 →
    s.table.removed i = 1 ∧ s.table.rows i = none ∧ s.Dead i
  named : ∀ d, s.deletePc d ≠ .idle → s.named (s.target d) = true
  rereading : ∀ d, s.deletePc d = .rereading → s.jobPc (s.target d) ≠ .absent ∧
    ∀ answer, s.calls (.delete d) = .ran answer → answer = .row (s.table.rows (s.target d))
  past : ∀ d, (s.deletePc d).Past → s.Dead (s.target d)
  gone : ∀ d, (s.deletePc d = .deleting ∧ ∃ answer, s.calls (.delete d) = .ran answer) ∨
    (∃ removed, s.deletePc d = .committing removed) ∨ s.deletePc d = .returned →
      s.table.rows (s.target d) = none
  told : ∀ i, ((∀ d, ¬ s.Announces d i) ∧ s.published i = s.table.removed i) ∨
    ((∃ d, s.Announces d i ∧ ∀ d', s.Announces d' i → d' = d) ∧
      s.published i + 1 = s.table.removed i)

variable {s s' s'' : JobRunner} {i d : ℕ}

theorem not_active_of_doomed {pc : JobPc} {call : CallState} (h : Doomed pc)
    (hcall : call = .idle ∨ call = .waiting) : ¬ Active pc call := by
  intro hactive
  cases pc with
  | updating write step =>
    cases write with
    | running =>
      cases step with
      | exec =>
        obtain ⟨answer, rfl⟩ := hactive
        simp at hcall
      | commit | get => exact h
    | progress => exact h
    | failed | done | cancelled => exact hactive
  | working => exact h
  | _ => exact hactive

theorem DeleteInv.not_active (h : DeleteInv s) (hdead : s.Dead i) :
    ¬ Active (s.jobPc i) (s.calls (.job i)) := by
  rcases hdead with hended | ⟨hfresh, -⟩ | hrequested
  · simp [hended, Active]
  · simp [h.absent i (by simp [hfresh]), Active]
  · obtain ⟨-, hdoomed, hcall⟩ := h.requested i hrequested
    exact not_active_of_doomed hdoomed hcall

theorem active_of_runs (h : s.Runs i) : Active (s.jobPc i) (s.calls (.job i)) := by
  rcases h with h | ⟨fraction, message, step, h⟩
  · simp [h, Active]
  · cases step <;> simp [h, Active]

/-- What a step keeps of a job that will not run any more. -/
structure Later (s s' : JobRunner) : Prop where
  dead : ∀ i, s.Dead i → s'.Dead i
  gone : ∀ i, s.Dead i → s.table.rows i = none → s'.table.rows i = none

theorem Later.trans (h : Later s s') (h' : Later s' s'') : Later s s'' where
  dead i hdead := h'.dead i (h.dead i hdead)
  gone i hdead hnone := h'.gone i (h.dead i hdead) (h.gone i hdead hnone)

/-! ## One call at a time -/

/-- Where the lock is held, by a party that waits for it no more, nothing else is in the queue. -/
theorem Serial.queue_eq_nil (h : Serial s) (hlock : ∀ p n, s.calls p ≠ .sent n) : s.queue = [] := by
  by_contra hne
  obtain ⟨p, n, hsent⟩ := h.queue hne
  exact hlock p n hsent

/-- A party that has no operation under way does something of its own, and calls the database after
it, or not. -/
theorem Serial.moved {p : Party} (h : Serial s) (hqueue : s'.queue = s.queue)
    (hlock : s'.lock = if s.lock = some p then none else s.lock)
    (hcalls : ∀ q, q ≠ p → s'.calls q = s.calls q) (hasks : ∀ q, q ≠ p → s'.asks q = s.asks q)
    (hinCall : ∀ q, q ≠ p → s.InCall q → s'.InCall q) (haway : ∀ n, s.calls p ≠ .sent n)
    (hback : s'.calls p = .idle ∨ s'.calls p = .waiting ∧ s'.InCall p) : Serial s' := by
  have hcall : ∀ q, s'.calls q ≠ .idle → s'.calls q ≠ .waiting → q ≠ p := by
    rintro q hidle hwaiting rfl
    exact hback.elim hidle fun hback => hwaiting hback.1
  have hkept : ∀ q, q ≠ p → s.lock = some q → s'.lock = some q := by
    intro q hne hq
    rw [hlock, hq, if_neg (by simpa using hne)]
  refine ⟨fun q n hsent => ?_, fun q answer hran => ?_, fun hne => ?_, fun q hq => ?_,
    fun q hidle => ?_⟩
  · have hne := hcall q (by simp [hsent]) (by simp [hsent])
    rw [hcalls q hne] at hsent
    rw [hqueue, hasks q hne]
    exact ⟨hkept q hne (h.sent q n hsent).1, (h.sent q n hsent).2⟩
  · have hne := hcall q (by simp [hran]) (by simp [hran])
    rw [hcalls q hne] at hran
    rw [hqueue]
    exact ⟨hkept q hne (h.ran q answer hran).1, (h.ran q answer hran).2⟩
  · rw [hqueue] at hne
    obtain ⟨q, n, hsent⟩ := h.queue hne
    have hqp : q ≠ p := fun heq => haway n (heq ▸ hsent)
    exact ⟨q, n, (hcalls q hqp).trans hsent⟩
  · rw [hlock] at hq
    split at hq
    · exact absurd hq.symm (Option.some_ne_none q)
    · rename_i hnot
      have hne : q ≠ p := fun heq => hnot (heq ▸ hq)
      rw [hcalls q hne]
      exact h.lock q hq
  · rcases eq_or_ne q p with rfl | hne
    · exact hback.elim (fun hback => absurd hback hidle) And.right
    · rw [hcalls q hne] at hidle
      exact hinCall q hne (h.inCall q hidle)

/-- A party that is in no call holds no lock. -/
theorem Serial.not_holds {p : Party} (h : Serial s) (hidle : s.calls p = .idle) :
    s.lock = if s.lock = some p then none else s.lock := by
  rw [if_neg fun hlock => (h.lock p hlock).1 hidle]

theorem Serial.idle {p : Party} (h : Serial s) (hp : ¬ s.InCall p) : s.calls p = .idle := by
  by_contra hne
  exact hp (h.inCall p hne)

/-! ## The steps of a job's task -/

/-- What a job's task does, between its calls of the database. -/
structure JobMoved (i : ℕ) (s s' : JobRunner) : Prop where
  table : s'.table = s.table
  queue : s'.queue = s.queue
  submitPc : s'.submitPc = s.submitPc
  deletePc : s'.deletePc = s.deletePc
  target : s'.target = s.target
  named : s'.named = s.named
  published : s'.published = s.published
  calls : ∀ p, p ≠ .job i → s'.calls p = s.calls p
  jobPc : ∀ j, j ≠ i → s'.jobPc j = s.jobPc j
  requested : ∀ j, j ≠ i → s'.requested j = s.requested j
  reason : ∀ j, j ≠ i → s'.reason j = s.reason j
  tasks : ∀ j, s'.tasks j = true → s.tasks j = true

theorem JobMoved.refl (i : ℕ) (s : JobRunner) : JobMoved i s s :=
  ⟨rfl, rfl, rfl, rfl, rfl, rfl, rfl, fun _ _ => rfl, fun _ _ => rfl, fun _ _ => rfl,
    fun _ _ => rfl, fun _ h => h⟩

theorem JobMoved.trans (h : JobMoved i s s') (h' : JobMoved i s' s'') : JobMoved i s s'' where
  table := h'.table.trans h.table
  queue := h'.queue.trans h.queue
  submitPc := h'.submitPc.trans h.submitPc
  deletePc := h'.deletePc.trans h.deletePc
  target := h'.target.trans h.target
  named := h'.named.trans h.named
  published := h'.published.trans h.published
  calls p hp := (h'.calls p hp).trans (h.calls p hp)
  jobPc j hj := (h'.jobPc j hj).trans (h.jobPc j hj)
  requested j hj := (h'.requested j hj).trans (h.requested j hj)
  reason j hj := (h'.reason j hj).trans (h.reason j hj)
  tasks j hj := h.tasks j (h'.tasks j hj)

theorem jobMoved_setJob (pc : JobPc) : JobMoved i s (s.setJob i pc) :=
  { JobMoved.refl i s with jobPc := fun j hj => by simp [setJob, hj] }

theorem jobMoved_call : JobMoved i s (s.call (.job i)) :=
  { JobMoved.refl i s with calls := fun p hp => by simp [call, hp] }

theorem jobMoved_hangUp : JobMoved i s (s.hangUp (.job i)) :=
  { JobMoved.refl i s with calls := fun p hp => by simp [hangUp, hp] }

theorem jobMoved_leave : JobMoved i s s.leave := { JobMoved.refl i s with }

theorem jobMoved_endRun : JobMoved i s (s.endRun i) :=
  { JobMoved.refl i s with
    jobPc := fun j hj => by simp [endRun, setTask, hj]
    reason := fun j hj => by simp [endRun, setTask, hj]
    tasks := fun j hj => by
      rcases eq_or_ne j i with rfl | hne
      · simp [endRun, setTask] at hj
      · simpa [endRun, setTask, hne] using hj }

theorem jobMoved_update (write : Write) : JobMoved i s (s.update i write) :=
  (jobMoved_setJob _).trans jobMoved_call

/-- A step of a job's task keeps the invariant : it takes the job to no place in which its row must
say `running`, and learns of a cancellation by ending. -/
theorem DeleteInv.jobMoved (h : DeleteInv s) (hm : JobMoved i s s')
    (hlock : s'.lock = if s.lock = some (.job i) then none else s.lock)
    (haway : ∀ n, s.calls (.job i) ≠ .sent n)
    (hback : s'.calls (.job i) = .idle ∨ s'.calls (.job i) = .waiting ∧ s'.InCall (.job i))
    (hpc : s.jobPc i ≠ .absent ∧ s.jobPc i ≠ .ended) (hpc' : s'.jobPc i ≠ .absent)
    (hactive : Active (s'.jobPc i) (s'.calls (.job i)) → Active (s.jobPc i) (s.calls (.job i)))
    (hrequested : s'.requested i = false) (hended : s.requested i = true → s'.jobPc i = .ended) :
    DeleteInv s' ∧ Later s s' := by
  have habsent : s.submitPc i = .returned := by
    by_contra hne
    exact hpc.1 (h.absent i hne)
  have hdead : ∀ j, s.Dead j → s'.Dead j := by
    intro j hj
    rcases eq_or_ne j i with rfl | hne
    · rcases hj with hj | ⟨hj, -⟩ | hj
      · exact absurd hj hpc.2
      · exact SubmitPc.noConfusion (hj.symm.trans habsent)
      · exact .inl (hended hj)
    · rwa [Dead, hm.jobPc j hne, hm.submitPc, hm.named, hm.requested j hne]
  have hsubmit : ∀ j, s'.calls (.submit j) = s.calls (.submit j) := fun j => hm.calls _ (by simp)
  have hdelete : ∀ d, s'.calls (.delete d) = s.calls (.delete d) := fun d => hm.calls _ (by simp)
  have hjob : ∀ j, j ≠ i → s'.calls (.job j) = s.calls (.job j) := fun j hj =>
    hm.calls _ (by simpa using hj)
  have hann : ∀ d j, s'.Announces d j ↔ s.Announces d j := fun d j => by
    rw [Announces, Announces, hm.target, hm.deletePc, hdelete]
  refine ⟨?_, hdead, fun j _ hnone => by rw [hm.table]; exact hnone⟩
  exact
    { serial := by
        refine h.serial.moved hm.queue hlock hm.calls (fun q hq => ?_) (fun q hq hin => ?_) haway
          hback
        · cases q with
          | job j => simp only [asks, hm.jobPc j (by simpa using hq)]
          | submit j => simp only [asks, hm.submitPc]
          | delete d => simp only [asks, hm.deletePc, hm.target]
        · cases q with
          | job j => rwa [InCall, hm.jobPc j (by simpa using hq)]
          | submit j => rwa [InCall, hm.submitPc]
          | delete d => rwa [InCall, hm.deletePc]
      absent := fun j hj => by
        rw [hm.submitPc] at hj
        have hne : j ≠ i := fun heq => hj (heq ▸ habsent)
        exact (hm.jobPc j hne).trans (h.absent j hj)
      tasks := fun j hj => by
        rcases eq_or_ne j i with rfl | hne
        · exact hpc'
        · rw [hm.jobPc j hne]
          exact h.tasks j (hm.tasks j hj)
      active := fun j hj => by
        rw [hm.table]
        rcases eq_or_ne j i with rfl | hne
        · exact h.active j (hactive hj)
        · rw [hm.jobPc j hne, hjob j hne] at hj
          exact h.active j hj
      requested := fun j hj => by
        have hne : j ≠ i := fun heq => by simp [heq, hrequested] at hj
        rw [hm.requested j hne] at hj
        rw [hm.reason j hne, hm.jobPc j hne, hjob j hne]
        exact h.requested j hj
      born := fun j hj => by
        rw [Born, hm.submitPc, hsubmit] at hj
        rw [hm.table]
        exact h.born j hj
      removed := fun j hj => by
        rw [hm.table] at hj ⊢
        exact (h.removed j hj).imp_right (And.imp_right (hdead j))
      named := fun d hd => by
        rw [hm.deletePc] at hd
        rw [hm.named, hm.target]
        exact h.named d hd
      rereading := fun d hd => by
        rw [hm.deletePc] at hd
        rw [hm.target, hm.table, hdelete]
        refine (h.rereading d hd).imp_left fun hne => ?_
        rcases eq_or_ne (s.target d) i with heq | hne'
        · rwa [heq]
        · rwa [hm.jobPc _ hne']
      past := fun d hd => by
        rw [hm.deletePc] at hd
        rw [hm.target]
        exact hdead _ (h.past d hd)
      gone := fun d hd => by
        rw [hm.deletePc, hdelete] at hd
        rw [hm.table, hm.target]
        exact h.gone d hd
      told := fun j => by
        simp only [hann, hm.published, hm.table]
        exact h.told j }

/-- A step of a job's task outside of its calls of the database. -/
theorem DeleteInv.own (h : DeleteInv s) (hm : JobMoved i s s') (hlock : s'.lock = s.lock)
    (hupdating : ∀ write step, s.jobPc i ≠ .updating write step)
    (hpc : s.jobPc i ≠ .absent ∧ s.jobPc i ≠ .ended) (hpc' : s'.jobPc i ≠ .absent)
    (hback : s'.calls (.job i) = s.calls (.job i) ∨
      s'.calls (.job i) = .waiting ∧ ∃ write step, s'.jobPc i = .updating write step)
    (hactive : Active (s'.jobPc i) (s'.calls (.job i)) → Active (s.jobPc i) (s.calls (.job i)))
    (hfree : s.requested i = false) (hrequested : s'.requested = s.requested) :
    DeleteInv s' ∧ Later s s' := by
  have hidle : s.calls (.job i) = .idle := h.serial.idle fun hin => by
    obtain ⟨write, step, heq⟩ := hin
    exact hupdating write step heq
  refine h.jobMoved hm (hlock.trans (h.serial.not_holds hidle)) (by simp [hidle])
    (hback.imp_left fun heq => heq.trans hidle) hpc hpc' hactive (by rw [hrequested, hfree]) ?_
  simp [hfree]

theorem markCancelled_cases (s : JobRunner) (i : ℕ) :
    s.markCancelled i = s.endRun i ∨
      ∃ reason, s.markCancelled i = s.update i (.cancelled reason) := by
  unfold markCancelled
  split
  · exact .inl rfl
  · exact .inr ⟨_, rfl⟩

theorem DeleteInv.update (h : DeleteInv s) {write : Write} (hfree : s.requested i = false)
    (hupdating : ∀ write step, s.jobPc i ≠ .updating write step)
    (hpc : s.jobPc i ≠ .absent ∧ s.jobPc i ≠ .ended)
    (hactive : (∃ fraction message, write = .progress fraction message) → s.jobPc i = .working) :
    DeleteInv (s.update i write) ∧ Later s (s.update i write) := by
  refine h.own (jobMoved_update write) rfl hupdating hpc ?_ (.inr ⟨?_, write, .exec, ?_⟩) ?_ hfree
    rfl
  · simp [JobRunner.update, setJob, call]
  · simp [JobRunner.update, call]
  · simp [JobRunner.update, setJob, call]
  · intro hact
    cases write with
    | progress fraction message => simp [hactive ⟨_, _, rfl⟩, Active]
    | _ => simp [JobRunner.update, setJob, call, Active] at hact

theorem DeleteInv.leave (h : DeleteInv s) : DeleteInv s.leave :=
  ⟨⟨h.serial.sent, h.serial.ran, h.serial.queue, h.serial.lock, h.serial.inCall⟩, h.absent,
    h.tasks, h.active, h.requested, h.born, h.removed, h.named, h.rereading, h.past, h.gone, h.told⟩

theorem DeleteInv.endRun (h : DeleteInv s) (hfree : s.requested i = false)
    (hupdating : ∀ write step, s.jobPc i ≠ .updating write step)
    (hpc : s.jobPc i ≠ .absent ∧ s.jobPc i ≠ .ended) :
    DeleteInv (s.endRun i) ∧ Later s (s.endRun i) := by
  refine h.own jobMoved_endRun rfl hupdating hpc ?_ (.inl rfl) ?_ hfree rfl
  · simp [JobRunner.endRun]
  · simp [JobRunner.endRun, Active]

theorem DeleteInv.onFinish (h : DeleteInv s) (hpc : s.jobPc i = .working)
    (hfree : s.requested i = false) (outcome : Outcome) :
    DeleteInv (s.onFinish i outcome) ∧ Later s (s.onFinish i outcome) := by
  have hupdating : ∀ write step, s.jobPc i ≠ .updating write step := by simp [hpc]
  have hthere : s.jobPc i ≠ .absent ∧ s.jobPc i ≠ .ended := by simp [hpc]
  cases outcome with
  | returned result => exact h.update hfree hupdating hthere fun _ => hpc
  | raised error => exact h.update hfree hupdating hthere fun _ => hpc
  | cancelled =>
    have hleft : Later s s.leave := ⟨fun _ hdead => hdead, fun _ _ hnone => hnone⟩
    rw [JobRunner.onFinish]
    rcases markCancelled_cases s.leave i with heq | ⟨reason, heq⟩
    · rw [heq]
      exact (h.leave.endRun hfree hupdating hthere).imp_right hleft.trans
    · rw [heq]
      exact (h.leave.update hfree hupdating hthere fun _ => hpc).imp_right hleft.trans

theorem DeleteInv.resume_job (h : DeleteInv s) {answer : Answer}
    (hran : s.calls (.job i) = .ran answer) (hfree : s.requested i = false) :
    DeleteInv ((s.hangUp (.job i)).jobNext i) ∧ Later s ((s.hangUp (.job i)).jobNext i) := by
  obtain ⟨write, step, hpc⟩ := h.serial.inCall (.job i) (by simp [hran])
  have hthere : s.jobPc i ≠ .absent ∧ s.jobPc i ≠ .ended := by simp [hpc]
  have haway : ∀ n, s.calls (.job i) ≠ .sent n := by simp [hran]
  have hnot : s.requested i = true → ∀ pc : JobPc, pc = .ended := fun htrue => by
    simp [hfree] at htrue
  have hnext : (s.hangUp (.job i)).jobPc i = .updating write step := hpc
  unfold jobNext
  rw [hnext]
  cases step with
  | exec =>
    refine h.jobMoved (jobMoved_hangUp.trans ((jobMoved_setJob _).trans jobMoved_call)) rfl haway
      (.inr ⟨?_, write, .commit, ?_⟩) hthere ?_ ?_ hfree fun htrue => hnot htrue _
    · simp [call]
    · simp [call, setJob]
    · simp [call, setJob]
    · rw [hpc, hran]
      cases write <;> simp [call, setJob, Active]
  | commit =>
    refine h.jobMoved (jobMoved_hangUp.trans ((jobMoved_setJob _).trans jobMoved_call)) rfl haway
      (.inr ⟨?_, write, .get, ?_⟩) hthere ?_ ?_ hfree fun htrue => hnot htrue _
    · simp [call]
    · simp [call, setJob]
    · simp [call, setJob]
    · rw [hpc]
      cases write <;> simp [call, setJob, Active]
  | get =>
    have hidle : (s.hangUp (.job i)).calls (.job i) = .idle := by simp [hangUp]
    cases write with
    | running | progress =>
      refine h.jobMoved (jobMoved_hangUp.trans (jobMoved_setJob _)) rfl haway (.inl hidle) hthere
        ?_ ?_ hfree fun htrue => hnot htrue _
      · simp [updated, setJob]
      · rw [hpc]
        simp [Active]
    | failed | done =>
      refine h.jobMoved (jobMoved_hangUp.trans (jobMoved_leave.trans jobMoved_endRun)) rfl haway
        (.inl hidle) hthere ?_ ?_ hfree fun htrue => hnot htrue _
      · simp [updated, JobRunner.endRun]
      · simp [updated, JobRunner.endRun, Active]
    | cancelled =>
      refine h.jobMoved (jobMoved_hangUp.trans jobMoved_endRun) rfl haway
        (.inl hidle) hthere ?_ ?_ hfree fun htrue => hnot htrue _
      · simp [updated, JobRunner.endRun]
      · simp [updated, JobRunner.endRun, Active]

/-- A job whose task was cancelled by `delete` ends without a word. -/
theorem jobCancelled_doomed (hreason : s.reason i = some none) (hdoomed : Doomed (s.jobPc i)) :
    s.jobCancelled i = s.setJob i .ended ∨ s.jobCancelled i = s.endRun i ∨
      s.jobCancelled i = s.leave.endRun i := by
  have hmark : s.markCancelled i = s.endRun i := by simp [markCancelled, hreason]
  have hleft : s.leave.markCancelled i = s.leave.endRun i := by
    simp [markCancelled, JobRunner.leave, hreason]
  unfold JobRunner.jobCancelled
  cases hpc : s.jobPc i with
  | absent | working | ended => simp [hpc, Doomed] at hdoomed
  | created => exact .inl rfl
  | queued => exact .inr (.inl hmark)
  | making => exact .inr (.inr hleft)
  | updating write step =>
    cases write with
    | running | failed | done => exact .inr (.inr hleft)
    | cancelled => exact .inr (.inl rfl)
    | progress => simp [hpc, Doomed] at hdoomed

theorem DeleteInv.cancel_job (h : DeleteInv s) (htrue : s.requested i = true) :
    DeleteInv (({ s.hangUp (.job i) with
      requested := Function.update s.requested i false } : JobRunner).jobCancelled i) ∧
    Later s (({ s.hangUp (.job i) with
      requested := Function.update s.requested i false } : JobRunner).jobCancelled i) := by
  obtain ⟨hreason, hdoomed, hcall⟩ := h.requested i htrue
  set t : JobRunner := { s.hangUp (.job i) with requested := Function.update s.requested i false }
    with ht
  have hm : JobMoved i s t := jobMoved_hangUp.trans
    { JobMoved.refl i _ with requested := fun j hj => by simp [ht, hj, hangUp] }
  have hthere : s.jobPc i ≠ .absent ∧ s.jobPc i ≠ .ended := by
    refine ⟨fun heq => ?_, fun heq => ?_⟩
    · simp [heq, Doomed] at hdoomed
    · simp [heq, Doomed] at hdoomed
  have hend : ∀ t' : JobRunner, JobMoved i t t' → t'.lock = t.lock → t'.jobPc i = .ended →
      t'.calls (.job i) = t.calls (.job i) → t'.requested = t.requested →
      DeleteInv t' ∧ Later s t' := by
    intro t' hm' hlock hpc hcalls hrequested
    refine h.jobMoved (hm.trans hm') hlock ?_ (.inl (hcalls.trans ?_)) hthere (by simp [hpc]) ?_ ?_
      fun _ => hpc
    · rcases hcall with hcall | hcall <;> simp [hcall]
    · simp [ht, hangUp]
    · simp [hpc, Active]
    · simp [hrequested, ht]
  rcases jobCancelled_doomed (s := t) hreason hdoomed with heq | heq | heq
  all_goals rw [heq]
  · exact hend _ (jobMoved_setJob _) rfl (by simp [setJob]) rfl rfl
  · exact hend _ jobMoved_endRun rfl (by simp [JobRunner.endRun]) rfl rfl
  · exact hend _ (jobMoved_leave.trans jobMoved_endRun) rfl (by simp [JobRunner.endRun]) rfl rfl

/-! ## The steps of `submit` -/

/-- What `submit` does, between its calls of the database. -/
structure SubmitMoved (i : ℕ) (s s' : JobRunner) : Prop where
  table : s'.table = s.table
  queue : s'.queue = s.queue
  deletePc : s'.deletePc = s.deletePc
  target : s'.target = s.target
  named : s'.named = s.named
  published : s'.published = s.published
  requested : s'.requested = s.requested
  reason : s'.reason = s.reason
  calls : ∀ p, p ≠ .submit i → s'.calls p = s.calls p
  submitPc : ∀ j, j ≠ i → s'.submitPc j = s.submitPc j
  jobPc : ∀ j, j ≠ i → s'.jobPc j = s.jobPc j
  tasks : ∀ j, j ≠ i → s'.tasks j = s.tasks j

/-- `submit` keeps the invariant : until it returns there is no job, and it submits no id that is
spent. -/
theorem DeleteInv.submitMoved (h : DeleteInv s) (hm : SubmitMoved i s s')
    (hlock : s'.lock = if s.lock = some (.submit i) then none else s.lock)
    (haway : ∀ n, s.calls (.submit i) ≠ .sent n)
    (hback : s'.calls (.submit i) = .idle ∨
      s'.calls (.submit i) = .waiting ∧ s'.InCall (.submit i))
    (hpc : s.submitPc i ≠ .returned) (hfresh : s.submitPc i = .fresh → s.named i = false)
    (hpc' : s'.jobPc i = s.jobPc i ∧ s'.tasks i = s.tasks i ∧ s'.submitPc i ≠ .returned ∨
      s'.jobPc i = .created ∧ s'.submitPc i = .returned)
    (hborn : s'.Born i → s.Born i) : DeleteInv s' ∧ Later s s' := by
  have habsent : s.jobPc i = .absent := h.absent i hpc
  have hfree : s.requested i ≠ true := fun htrue => by
    have := (h.requested i htrue).2.1
    simp [habsent, Doomed] at this
  have halive : ¬ s.Dead i := by
    rintro (hended | ⟨hnew, hnamed⟩ | htrue)
    · exact JobPc.noConfusion (habsent.symm.trans hended)
    · exact Bool.false_ne_true ((hfresh hnew).symm.trans hnamed)
    · exact hfree htrue
  have hdead : ∀ j, s.Dead j → s'.Dead j := by
    intro j hj
    have hne : j ≠ i := fun heq => halive (heq ▸ hj)
    rwa [Dead, hm.jobPc j hne, hm.submitPc j hne, hm.named, hm.requested]
  have hjob : ∀ j, s'.calls (.job j) = s.calls (.job j) := fun j => hm.calls _ (by simp)
  have hdelete : ∀ d, s'.calls (.delete d) = s.calls (.delete d) := fun d => hm.calls _ (by simp)
  have hann : ∀ d j, s'.Announces d j ↔ s.Announces d j := fun d j => by
    rw [Announces, Announces, hm.target, hm.deletePc, hdelete]
  have hjobPc : ∀ j, s'.jobPc j = s.jobPc j ∨ s'.jobPc j = .created ∧ s.jobPc j = .absent := by
    intro j
    rcases eq_or_ne j i with rfl | hne
    · exact hpc'.imp And.left fun hnew => ⟨hnew.1, habsent⟩
    · exact .inl (hm.jobPc j hne)
  refine ⟨?_, hdead, fun j _ hnone => by rw [hm.table]; exact hnone⟩
  exact
    { serial := by
        refine h.serial.moved hm.queue hlock hm.calls (fun q hq => ?_) (fun q hq hin => ?_) haway
          hback
        · cases q with
          | job j =>
            rcases hjobPc j with heq | ⟨heq, heq'⟩
            · simp only [asks, heq]
            · simp only [asks, heq, heq']
          | submit j => simp only [asks, hm.submitPc j (by simpa using hq)]
          | delete d => simp only [asks, hm.deletePc, hm.target]
        · cases q with
          | job j =>
            rcases hjobPc j with heq | ⟨-, heq⟩
            · rwa [InCall, heq]
            · simp [InCall, heq] at hin
          | submit j => rwa [InCall, hm.submitPc j (by simpa using hq)]
          | delete d => rwa [InCall, hm.deletePc]
      absent := fun j hj => by
        rcases eq_or_ne j i with rfl | hne
        · rcases hpc' with ⟨heq, -⟩ | ⟨-, hreturned⟩
          · exact heq.trans habsent
          · exact absurd hreturned hj
        · rw [hm.submitPc j hne] at hj
          exact (hm.jobPc j hne).trans (h.absent j hj)
      tasks := fun j hj => by
        rcases eq_or_ne j i with rfl | hne
        · rcases hpc' with ⟨-, heq, -⟩ | ⟨heq, -⟩
          · rw [heq] at hj
            exact absurd habsent (h.tasks j hj)
          · simp [heq]
        · rw [hm.tasks j hne] at hj
          rw [hm.jobPc j hne]
          exact h.tasks j hj
      active := fun j hj => by
        rw [hm.table]
        rw [hjob] at hj
        rcases hjobPc j with heq | ⟨heq, -⟩
        · exact h.active j (heq ▸ hj)
        · simp [heq, Active] at hj
      requested := fun j hj => by
        rw [hm.requested] at hj
        have hne : j ≠ i := fun heq => hfree (heq ▸ hj)
        rw [hm.reason, hm.jobPc j hne, hjob]
        exact h.requested j hj
      born := fun j hj => by
        rw [hm.table]
        rcases eq_or_ne j i with rfl | hne
        · exact h.born j (hborn hj)
        · rw [Born, hm.submitPc j hne, hm.calls _ (by simpa using hne)] at hj
          exact h.born j hj
      removed := fun j hj => by
        rw [hm.table] at hj ⊢
        exact (h.removed j hj).imp_right (And.imp_right (hdead j))
      named := fun d hd => by
        rw [hm.deletePc] at hd
        rw [hm.named, hm.target]
        exact h.named d hd
      rereading := fun d hd => by
        rw [hm.deletePc] at hd
        rw [hm.target, hm.table, hdelete]
        refine (h.rereading d hd).imp_left fun hne => ?_
        rcases hjobPc (s.target d) with heq | ⟨heq, -⟩ <;> simp [heq, hne]
      past := fun d hd => by
        rw [hm.deletePc] at hd
        rw [hm.target]
        exact hdead _ (h.past d hd)
      gone := fun d hd => by
        rw [hm.deletePc, hdelete] at hd
        rw [hm.table, hm.target]
        exact h.gone d hd
      told := fun j => by
        simp only [hann, hm.published, hm.table]
        exact h.told j }

theorem DeleteInv.submit (h : DeleteInv s) (hpc : s.submitPc i = .fresh)
    (hnamed : s.named i = false) :
    DeleteInv ((s.setSubmit i .inserting).call (.submit i)) ∧
      Later s ((s.setSubmit i .inserting).call (.submit i)) := by
  have hidle : s.calls (.submit i) = .idle := h.serial.idle (by simp [InCall, hpc])
  refine h.submitMoved
    ⟨rfl, rfl, rfl, rfl, rfl, rfl, rfl, rfl, fun p hp => by simp [call, setSubmit, hp],
      fun j hj => by simp [call, setSubmit, hj], fun _ _ => rfl, fun _ _ => rfl⟩
    (h.serial.not_holds hidle) (by simp [hidle]) (.inr ⟨?_, ?_⟩) (by simp [hpc]) (fun _ => hnamed)
    (.inl ⟨rfl, rfl, ?_⟩) ?_
  · simp [call]
  · simp [InCall, call, setSubmit]
  · simp [call, setSubmit]
  · simp [Born, call, setSubmit]

theorem DeleteInv.resume_submit (h : DeleteInv s) {answer : Answer}
    (hran : s.calls (.submit i) = .ran answer) :
    DeleteInv ((s.hangUp (.submit i)).submitNext i answer) ∧
      Later s ((s.hangUp (.submit i)).submitNext i answer) := by
  have hin := h.serial.inCall (.submit i) (by simp [hran])
  have hpc : s.submitPc i ≠ .returned ∧ s.submitPc i ≠ .fresh := by
    rcases hin with heq | heq | heq <;> simp [heq]
  have haway : ∀ n, s.calls (.submit i) ≠ .sent n := by simp [hran]
  have hcalls : ∀ p, p ≠ .submit i → (s.hangUp (.submit i)).calls p = s.calls p := fun p hp => by
    simp [hangUp, hp]
  have hborn : s.Born i := by
    rcases hin with heq | heq | heq
    · exact .inl ⟨heq, answer, hran⟩
    · exact .inr (.inl heq)
    · exact .inr (.inr (.inl heq))
  have hnext : ∀ pc, pc = .committing ∨ pc = .getting →
      DeleteInv (((s.hangUp (.submit i)).setSubmit i pc).call (.submit i)) ∧
        Later s (((s.hangUp (.submit i)).setSubmit i pc).call (.submit i)) := by
    intro pc hnew
    refine h.submitMoved
      ⟨rfl, rfl, rfl, rfl, rfl, rfl, rfl, rfl, fun p hp => ?_, fun j hj => ?_, fun _ _ => rfl,
        fun _ _ => rfl⟩ rfl haway (.inr ⟨?_, ?_⟩) hpc.1 (fun heq => absurd heq hpc.2)
      (.inl ⟨rfl, rfl, ?_⟩) fun _ => hborn
    · simpa [call, setSubmit, hp] using hcalls p hp
    · simp [call, setSubmit, hangUp, hj]
    · simp [call]
    · rcases hnew with rfl | rfl <;> simp [InCall, call, setSubmit]
    · rcases hnew with rfl | rfl <;> simp [call, setSubmit]
  have hidle : (s.hangUp (.submit i)).calls (.submit i) = .idle := by simp [hangUp]
  unfold submitNext
  split
  · exact hnext _ (.inl rfl)
  · exact hnext _ (.inr rfl)
  · split
    · refine h.submitMoved
        ⟨rfl, rfl, rfl, rfl, rfl, rfl, rfl, rfl, hcalls, fun j hj => ?_, fun _ _ => rfl,
          fun _ _ => rfl⟩ rfl haway (.inl hidle) hpc.1 (fun heq => absurd heq hpc.2)
        (.inl ⟨rfl, rfl, ?_⟩) fun _ => hborn
      · simp [setSubmit, hangUp, hj]
      · simp [setSubmit]
    · refine h.submitMoved
        ⟨rfl, rfl, rfl, rfl, rfl, rfl, rfl, rfl, hcalls, fun j hj => ?_, fun j hj => ?_,
          fun j hj => ?_⟩ rfl haway (.inl hidle) hpc.1 (fun heq => absurd heq hpc.2)
        (.inr ⟨?_, ?_⟩) fun _ => hborn
      · simp [setTask, setJob, setSubmit, hangUp, hj]
      · simp [setTask, setJob, setSubmit, hangUp, hj]
      · simp [setTask, setJob, setSubmit, hangUp, hj]
      · simp [setTask, setJob]
      · simp [setTask, setJob, setSubmit]
  · rename_i hinserting hcommitting hgetting
    rcases hin with heq | heq | heq
    · exact absurd heq hinserting
    · exact absurd heq hcommitting
    · exact absurd heq hgetting

/-! ## The steps of `delete` -/

/-- What a `delete` does, between its calls of the database. -/
structure DeleteMoved (d : ℕ) (s s' : JobRunner) : Prop where
  table : s'.table = s.table
  queue : s'.queue = s.queue
  submitPc : s'.submitPc = s.submitPc
  jobPc : s'.jobPc = s.jobPc
  calls : ∀ p, p ≠ .delete d → s'.calls p = s.calls p
  deletePc : ∀ e, e ≠ d → s'.deletePc e = s.deletePc e
  target : ∀ e, e ≠ d → s'.target e = s.target e
  named : ∀ i, s.named i = true → s'.named i = true

/-- A `delete` keeps the invariant : it goes past its reads where the job is dead, and tells of a
row that was removed when it returns. -/
theorem DeleteInv.deleteMoved (h : DeleteInv s) (hm : DeleteMoved d s s')
    (hlock : s'.lock = if s.lock = some (.delete d) then none else s.lock)
    (haway : ∀ n, s.calls (.delete d) ≠ .sent n)
    (hback : s'.calls (.delete d) = .idle ∨
      s'.calls (.delete d) = .waiting ∧ s'.InCall (.delete d))
    (htasks : ∀ i, s'.tasks i = true → s.jobPc i ≠ .absent)
    (hrequested : ∀ i, s'.requested i = true → s'.reason i = some none ∧ Doomed (s.jobPc i) ∧
      (s.calls (.job i) = .idle ∨ s.calls (.job i) = .waiting))
    (hkept : ∀ i, s.requested i = true → s'.requested i = true)
    (hnamed : s'.named (s'.target d) = true)
    (hrereading : s'.deletePc d = .rereading → s.jobPc (s'.target d) ≠ .absent)
    (hpast : (s'.deletePc d).Past → s'.Dead (s'.target d))
    (hgone : (∃ removed, s'.deletePc d = .committing removed) ∨ s'.deletePc d = .returned →
      s.table.rows (s'.target d) = none)
    (htold : ∀ i, (s'.Announces d i ↔ s.Announces d i) ∧ s'.published i = s.published i ∨
      s.Announces d i ∧ ¬ s'.Announces d i ∧ s'.published i = s.published i + 1) :
    DeleteInv s' ∧ Later s s' := by
  have hdead : ∀ i, s.Dead i → s'.Dead i := by
    intro i hi
    rw [Dead, hm.jobPc, hm.submitPc]
    exact hi.imp_right (Or.imp (And.imp_right (hm.named i)) (hkept i))
  have hsubmit : ∀ j, s'.calls (.submit j) = s.calls (.submit j) := fun j => hm.calls _ (by simp)
  have hjob : ∀ j, s'.calls (.job j) = s.calls (.job j) := fun j => hm.calls _ (by simp)
  have hdelete : ∀ e, e ≠ d → s'.calls (.delete e) = s.calls (.delete e) := fun e he =>
    hm.calls _ (by simpa using he)
  have hnot : ∀ answer, s'.calls (.delete d) ≠ .ran answer := fun answer => by
    rcases hback with hidle | ⟨hwaiting, -⟩
    · simp [hidle]
    · simp [hwaiting]
  have hann : ∀ e i, e ≠ d → (s'.Announces e i ↔ s.Announces e i) := fun e i he => by
    rw [Announces, Announces, hm.target e he, hm.deletePc e he, hdelete e he]
  refine ⟨?_, hdead, fun j _ hnone => by rw [hm.table]; exact hnone⟩
  exact
    { serial := by
        refine h.serial.moved hm.queue hlock hm.calls (fun q hq => ?_) (fun q hq hin => ?_) haway
          hback
        · cases q with
          | job j => simp only [asks, hm.jobPc]
          | submit j => simp only [asks, hm.submitPc]
          | delete e =>
            have he : e ≠ d := by simpa using hq
            simp only [asks, hm.deletePc e he, hm.target e he]
        · cases q with
          | job j => rwa [InCall, hm.jobPc]
          | submit j => rwa [InCall, hm.submitPc]
          | delete e => rwa [InCall, hm.deletePc e (by simpa using hq)]
      absent := fun j hj => by
        rw [hm.submitPc] at hj
        rw [hm.jobPc]
        exact h.absent j hj
      tasks := fun j hj => by
        rw [hm.jobPc]
        exact htasks j hj
      active := fun j hj => by
        rw [hm.jobPc, hjob] at hj
        rw [hm.table]
        exact h.active j hj
      requested := fun j hj => by
        rw [hm.jobPc, hjob]
        exact hrequested j hj
      born := fun j hj => by
        rw [Born, hm.submitPc, hsubmit] at hj
        rw [hm.table]
        exact h.born j hj
      removed := fun j hj => by
        rw [hm.table] at hj ⊢
        exact (h.removed j hj).imp_right (And.imp_right (hdead j))
      named := fun e he => by
        rcases eq_or_ne e d with rfl | hne
        · exact hnamed
        · rw [hm.deletePc e hne] at he
          rw [hm.target e hne]
          exact hm.named _ (h.named e he)
      rereading := fun e he => by
        rw [hm.jobPc, hm.table]
        rcases eq_or_ne e d with rfl | hne
        · exact ⟨hrereading he, fun answer hran => absurd hran (hnot answer)⟩
        · rw [hm.deletePc e hne] at he
          rw [hm.target e hne, hdelete e hne]
          exact h.rereading e he
      past := fun e he => by
        rcases eq_or_ne e d with rfl | hne
        · exact hpast he
        · rw [hm.deletePc e hne] at he
          rw [hm.target e hne]
          exact hdead _ (h.past e he)
      gone := fun e he => by
        rw [hm.table]
        rcases eq_or_ne e d with rfl | hne
        · refine hgone (he.resolve_left ?_)
          rintro ⟨-, answer, hran⟩
          exact hnot answer hran
        · rw [hm.deletePc e hne, hdelete e hne] at he
          rw [hm.target e hne]
          exact h.gone e he
      told := fun i => by
        rw [hm.table]
        rcases htold i with ⟨hsame, hpublished⟩ | ⟨hwas, hnow, hpublished⟩
        · have hall : ∀ e, s'.Announces e i ↔ s.Announces e i := fun e => by
            rcases eq_or_ne e d with rfl | hne
            · exact hsame
            · exact hann e i hne
          simp only [hall, hpublished]
          exact h.told i
        · rcases h.told i with ⟨hnone, -⟩ | ⟨⟨e, -, honly⟩, hremoved⟩
          · exact absurd hwas (hnone d)
          · refine .inl ⟨fun e' he' => ?_, by omega⟩
            rcases eq_or_ne e' d with rfl | hne
            · exact hnow he'
            · have hother := (hann e' i hne).1 he'
              exact hne ((honly e' hother).trans (honly d hwas).symm) }

theorem DeleteInv.delete (h : DeleteInv s) (hpc : s.deletePc d = .idle) (i : ℕ) :
    DeleteInv (({ s with
      target := Function.update s.target d i
      named := Function.update s.named i true }.setDelete d .reading).call (.delete d)) ∧
    Later s (({ s with
      target := Function.update s.target d i
      named := Function.update s.named i true }.setDelete d .reading).call (.delete d)) := by
  have hidle : s.calls (.delete d) = .idle := h.serial.idle (by simp [InCall, hpc])
  refine h.deleteMoved
    ⟨rfl, rfl, rfl, rfl, fun p hp => by simp [call, setDelete, hp],
      fun e he => by simp [call, setDelete, he], fun e he => by simp [call, setDelete, he],
      fun j hj => ?_⟩
    (h.serial.not_holds hidle) (by simp [hidle]) (.inr ⟨?_, ?_⟩) h.tasks h.requested
    (fun _ hj => hj) ?_ ?_ ?_ ?_ fun j => .inl ⟨?_, rfl⟩
  · rcases eq_or_ne j i with rfl | hne <;> simp [call, setDelete, *]
  · simp [call]
  · simp [InCall, call, setDelete]
  · simp [call, setDelete]
  · simp [call, setDelete]
  · simp [call, setDelete, DeletePc.Past]
  · simp [call, setDelete]
  · simp [Announces, call, setDelete, hpc]

theorem DeleteInv.gathered (h : DeleteInv s) (hpc : s.deletePc d = .gathering) :
    DeleteInv (s.setDelete d .clearing) ∧ Later s (s.setDelete d .clearing) := by
  have hidle : s.calls (.delete d) = .idle := h.serial.idle (by simp [InCall, hpc])
  have hdead : s.Dead (s.target d) := h.past d (by simp [hpc, DeletePc.Past])
  refine h.deleteMoved
    ⟨rfl, rfl, rfl, rfl, fun _ _ => rfl, fun e he => by simp [setDelete, he], fun _ _ => rfl,
      fun _ hj => hj⟩
    (h.serial.not_holds hidle) (by simp [hidle]) (.inl hidle) h.tasks h.requested
    (fun _ hj => hj) (h.named d (by simp [hpc])) ?_ (fun _ => hdead) ?_ fun j => .inl ⟨?_, rfl⟩
  · simp [setDelete]
  · simp [setDelete]
  · simp [Announces, setDelete, hpc]

theorem DeleteInv.cleared (h : DeleteInv s) (hpc : s.deletePc d = .clearing) :
    DeleteInv ((s.setDelete d .deleting).call (.delete d)) ∧
      Later s ((s.setDelete d .deleting).call (.delete d)) := by
  have hidle : s.calls (.delete d) = .idle := h.serial.idle (by simp [InCall, hpc])
  have hdead : s.Dead (s.target d) := h.past d (by simp [hpc, DeletePc.Past])
  refine h.deleteMoved
    ⟨rfl, rfl, rfl, rfl, fun p hp => by simp [call, setDelete, hp],
      fun e he => by simp [call, setDelete, he], fun _ _ => rfl, fun _ hj => hj⟩
    (h.serial.not_holds hidle) (by simp [hidle]) (.inr ⟨?_, ?_⟩) h.tasks h.requested
    (fun _ hj => hj) (h.named d (by simp [hpc])) ?_ (fun _ => hdead) ?_ fun j => .inl ⟨?_, rfl⟩
  · simp [call]
  · simp [InCall, call, setDelete]
  · simp [call, setDelete]
  · simp [call, setDelete]
  · simp [Announces, call, setDelete, hpc]

/-- A job whose row does not say `running` can be cancelled. -/
theorem DeleteInv.doomed (h : DeleteInv s) (hpc : s.jobPc i ≠ .absent ∧ s.jobPc i ≠ .ended)
    (hrow : ∀ row, s.table.rows i = some row → row.status ≠ .running) : Doomed (s.jobPc i) := by
  have hactive : ¬ Active (s.jobPc i) (s.calls (.job i)) := fun hactive => by
    obtain ⟨row, hrow', hrunning⟩ := h.active i hactive
    exact hrow row hrow' hrunning
  cases hpc' : s.jobPc i with
  | absent => exact absurd hpc' hpc.1
  | ended => exact absurd hpc' hpc.2
  | working => simp [hpc', Active] at hactive
  | updating write step =>
    cases write with
    | running =>
      cases step with
      | exec => trivial
      | commit | get => simp [hpc', Active] at hactive
    | progress => cases step <;> simp [hpc', Active] at hactive
    | failed | done | cancelled => trivial
  | created | queued | making => trivial

theorem DeleteInv.resume_reading (h : DeleteInv s) {answer : Answer}
    (hran : s.calls (.delete d) = .ran answer) (hpc : s.deletePc d = .reading)
    (htaken : s.taken (.resume (.delete d)) = true) :
    DeleteInv ((s.hangUp (.delete d)).deleteNext d answer) ∧
      Later s ((s.hangUp (.delete d)).deleteNext d answer) := by
  have hnamed : s.named (s.target d) = true := h.named d (by simp [hpc])
  have hcalls : ∀ p, p ≠ .delete d → (s.hangUp (.delete d)).calls p = s.calls p := fun p hp => by
    simp [hangUp, hp]
  have haway : ∀ n, s.calls (.delete d) ≠ .sent n := by simp [hran]
  have hidle : (s.hangUp (.delete d)).calls (.delete d) = .idle := by simp [hangUp]
  have hnext : (s.hangUp (.delete d)).deletePc d = .reading := hpc
  simp only [deleteNext, hnext]
  split
  · refine h.deleteMoved
      ⟨rfl, rfl, rfl, rfl, hcalls, fun e he => by simp [setDelete, hangUp, he], fun _ _ => rfl,
        fun _ hj => hj⟩
      rfl haway (.inl hidle) h.tasks h.requested (fun _ hj => hj) hnamed ?_ ?_ ?_
      fun j => .inl ⟨?_, rfl⟩
    · simp [setDelete]
    · simp [setDelete, DeletePc.Past]
    · simp [setDelete]
    · simp [Announces, setDelete, hpc]
  · rename_i hrunning
    split
    · rename_i htask
      refine h.deleteMoved
        ⟨rfl, rfl, rfl, rfl, fun p hp => ?_, fun e he => ?_, fun _ _ => rfl, fun _ hj => hj⟩
        rfl haway (.inr ⟨?_, ?_⟩) ?_ h.requested (fun _ hj => hj) hnamed
        (fun _ => h.tasks _ htask) ?_ ?_ fun j => .inl ⟨?_, rfl⟩
      · simpa [call, setDelete, setTask, hp] using hcalls p hp
      · simp [call, setDelete, setTask, hangUp, he]
      · simp [call]
      · simp [InCall, call, setDelete]
      · intro j hj
        rcases eq_or_ne j (s.target d) with rfl | hne
        · exact h.tasks _ htask
        · exact h.tasks j (by simpa [call, setDelete, setTask, hangUp, hne] using hj)
      · simp [call, setDelete, DeletePc.Past]
      · simp [call, setDelete]
      · simp [Announces, call, setDelete, hpc]
    · rename_i htask
      have hdead : s.Dead (s.target d) := by
        have htask' : s.tasks (s.target d) = false := by simpa [hangUp] using htask
        simp only [Bool.not_eq_true] at hrunning
        simp only [taken, hpc, hran, hrunning, htask', Bool.false_or, Bool.or_eq_true,
          decide_eq_true_eq] at htaken
        exact htaken.imp_right fun hfresh => .inl ⟨hfresh, hnamed⟩
      refine h.deleteMoved
        ⟨rfl, rfl, rfl, rfl, hcalls, fun e he => by simp [setDelete, hangUp, he], fun _ _ => rfl,
          fun _ hj => hj⟩
        rfl haway (.inl hidle) h.tasks h.requested (fun _ hj => hj) hnamed ?_ (fun _ => hdead) ?_
        fun j => .inl ⟨?_, rfl⟩
      · simp [setDelete]
      · simp [setDelete]
      · simp [Announces, setDelete, hpc]

theorem requested_gather (s : JobRunner) (d : ℕ) :
    ((s.hangUp (.delete d)).gather d).requested =
      Function.update s.requested (s.target d) (decide (s.jobPc (s.target d) ≠ .ended)) :=
  rfl

theorem DeleteInv.resume_rereading (h : DeleteInv s) {answer : Answer}
    (hran : s.calls (.delete d) = .ran answer) (hpc : s.deletePc d = .rereading) :
    DeleteInv ((s.hangUp (.delete d)).deleteNext d answer) ∧
      Later s ((s.hangUp (.delete d)).deleteNext d answer) := by
  have hnamed : s.named (s.target d) = true := h.named d (by simp [hpc])
  have hcalls : ∀ p, p ≠ .delete d → (s.hangUp (.delete d)).calls p = s.calls p := fun p hp => by
    simp [hangUp, hp]
  have haway : ∀ n, s.calls (.delete d) ≠ .sent n := by simp [hran]
  have hidle : (s.hangUp (.delete d)).calls (.delete d) = .idle := by simp [hangUp]
  have hnext : (s.hangUp (.delete d)).deletePc d = .rereading := hpc
  obtain ⟨hjob, hanswer⟩ := h.rereading d hpc
  have hread := hanswer answer hran
  simp only [deleteNext, hnext]
  split
  · refine h.deleteMoved
      ⟨rfl, rfl, rfl, rfl, hcalls, fun e he => by simp [setDelete, setTask, hangUp, he],
        fun _ _ => rfl, fun _ hj => hj⟩
      rfl haway (.inl hidle) ?_ h.requested (fun _ hj => hj) hnamed ?_ ?_ ?_
      fun j => .inl ⟨?_, rfl⟩
    · intro j hj
      rcases eq_or_ne j (s.target d) with rfl | hne
      · exact hjob
      · exact h.tasks j (by simpa [setDelete, setTask, hangUp, hne] using hj)
    · simp [setDelete]
    · simp [setDelete, DeletePc.Past]
    · simp [setDelete]
    · simp [Announces, setDelete, hpc]
  · rename_i hrunning
    -- The lock is the `delete`'s, so the job is in no operation.
    have hcall : s.calls (.job (s.target d)) = .idle ∨ s.calls (.job (s.target d)) = .waiting := by
      have hlock := (h.serial.ran _ _ hran).1
      cases hjobCall : s.calls (.job (s.target d)) with
      | idle => exact .inl rfl
      | waiting => exact .inr rfl
      | sent n => simpa [hlock] using (h.serial.sent _ _ hjobCall).1
      | ran answer => simpa [hlock] using (h.serial.ran _ _ hjobCall).1
    have hrow : ∀ row, s.table.rows (s.target d) = some row → row.status ≠ .running := by
      intro row hrow hstatus
      rw [hread, hrow] at hrunning
      simp [Answer.isRunning, hstatus] at hrunning
    have hrequested : ∀ j, Function.update s.requested (s.target d)
        (decide (s.jobPc (s.target d) ≠ .ended)) j = true →
        Function.update s.reason (s.target d) (some none) j = some none ∧ Doomed (s.jobPc j) ∧
          (s.calls (.job j) = .idle ∨ s.calls (.job j) = .waiting) := by
      intro j hj
      rcases eq_or_ne j (s.target d) with rfl | hne
      · rw [Function.update_self] at hj ⊢
        exact ⟨rfl, h.doomed ⟨hjob, of_decide_eq_true hj⟩ hrow, hcall⟩
      · rw [Function.update_of_ne hne] at hj ⊢
        exact h.requested j hj
    refine h.deleteMoved
      ⟨rfl, rfl, rfl, rfl, hcalls, fun e he => by simp [gather, cancelTask, setDelete, hangUp, he],
        fun _ _ => rfl, fun _ hj => hj⟩
      rfl haway (.inl hidle) h.tasks hrequested ?_ hnamed ?_ ?_ ?_ fun j => .inl ⟨?_, rfl⟩
    · intro j hj
      rw [requested_gather]
      rcases eq_or_ne j (s.target d) with rfl | hne
      · have hdoomed := (h.requested _ hj).2.1
        rw [Function.update_self]
        refine decide_eq_true fun hended => ?_
        simp [hended, Doomed] at hdoomed
      · rwa [Function.update_of_ne hne]
    · simp [gather, cancelTask, setDelete]
    · intro _
      by_cases hended : s.jobPc (s.target d) = .ended
      · exact .inl hended
      · refine .inr (.inr ?_)
        change ((s.hangUp (.delete d)).gather d).requested (s.target d) = true
        rw [requested_gather, Function.update_self]
        exact decide_eq_true hended
    · simp [gather, cancelTask, setDelete]
    · simp [Announces, gather, cancelTask, setDelete, hpc]

theorem DeleteInv.resume_deleting (h : DeleteInv s) {answer : Answer}
    (hran : s.calls (.delete d) = .ran answer) (hpc : s.deletePc d = .deleting) :
    DeleteInv ((s.hangUp (.delete d)).deleteNext d answer) ∧
      Later s ((s.hangUp (.delete d)).deleteNext d answer) := by
  have hnext : (s.hangUp (.delete d)).deletePc d = .deleting := hpc
  have hdead : s.Dead (s.target d) := h.past d (by simp [hpc, DeletePc.Past])
  have hnone := h.gone d (.inl ⟨hpc, answer, hran⟩)
  simp only [deleteNext, hnext]
  refine h.deleteMoved
    ⟨rfl, rfl, rfl, rfl, fun p hp => ?_, fun e he => ?_, fun _ _ => rfl, fun _ hj => hj⟩
    rfl (by simp [hran]) (.inr ⟨?_, ?_⟩) h.tasks h.requested (fun _ hj => hj)
    (h.named d (by simp [hpc])) ?_ (fun _ => hdead) (fun _ => hnone) fun j => .inl ⟨?_, rfl⟩
  · simp [call, setDelete, hangUp, hp]
  · simp [call, setDelete, hangUp, he]
  · simp [call]
  · simp [InCall, call, setDelete]
  · simp [call, setDelete]
  · simp [Announces, call, setDelete, hangUp, hpc, hran]

theorem DeleteInv.resume_committing (h : DeleteInv s) {answer : Answer} {removed : Bool}
    (hran : s.calls (.delete d) = .ran answer) (hpc : s.deletePc d = .committing removed) :
    DeleteInv ((s.hangUp (.delete d)).deleteNext d answer) ∧
      Later s ((s.hangUp (.delete d)).deleteNext d answer) := by
  have hnext : (s.hangUp (.delete d)).deletePc d = .committing removed := hpc
  have hidle : (s.hangUp (.delete d)).calls (.delete d) = .idle := by simp [hangUp]
  have hdead : s.Dead (s.target d) := h.past d (by simp [hpc, DeletePc.Past])
  have hnone := h.gone d (.inr (.inl ⟨removed, hpc⟩))
  simp only [deleteNext, hnext]
  refine h.deleteMoved
    ⟨rfl, rfl, rfl, rfl, fun p hp => ?_, fun e he => ?_, fun _ _ => rfl, fun _ hj => hj⟩
    rfl (by simp [hran]) (.inl hidle) h.tasks h.requested (fun _ hj => hj)
    (h.named d (by simp [hpc])) ?_ (fun _ => hdead) (fun _ => hnone) fun j => ?_
  · simp [setDelete, hangUp, hp]
  · simp [setDelete, hangUp, he]
  · simp [setDelete]
  · rcases eq_or_ne j (s.target d) with rfl | hne
    · cases removed with
      | true => exact .inr ⟨⟨rfl, .inl hpc⟩, by simp [Announces, setDelete], by simp [hangUp]⟩
      | false => exact .inl ⟨by simp [Announces, setDelete, hpc], by simp [hangUp]⟩
    · refine .inl ⟨?_, by simp [hangUp, hne]⟩
      simp only [Announces, setDelete, hangUp]
      simp [hne.symm]

theorem DeleteInv.resume_delete (h : DeleteInv s) {answer : Answer}
    (hran : s.calls (.delete d) = .ran answer) (htaken : s.taken (.resume (.delete d)) = true) :
    DeleteInv ((s.hangUp (.delete d)).deleteNext d answer) ∧
      Later s ((s.hangUp (.delete d)).deleteNext d answer) := by
  rcases h.serial.inCall (.delete d) (by simp [hran]) with hpc | hpc | hpc | ⟨removed, hpc⟩
  · exact h.resume_reading hran hpc htaken
  · exact h.resume_rereading hran hpc
  · exact h.resume_deleting hran hpc
  · exact h.resume_committing hran hpc

/-! ## The database -/

/-- Only of an `UPDATE` to `running` it matters whether it has been run. -/
theorem active_of_call {pc : JobPc} {call call' : CallState} (h : Active pc call')
    (hran : ∀ answer, call' ≠ .ran answer) : Active pc call := by
  cases pc with
  | updating write step =>
    cases write with
    | running =>
      cases step with
      | exec =>
        obtain ⟨answer, heq⟩ := h
        exact absurd heq (hran answer)
      | commit | get => trivial
    | _ => exact h
  | _ => exact h

/-- Where only the lock, the queue and calls are other than before, and no answer has come, the
invariant is kept. -/
theorem DeleteInv.onGrant (h : DeleteInv s) {p : Party} (hs : s.onGrant p = some s') :
    DeleteInv s' ∧ Later s s' := by
  have hg := JobRunner.granted hs
  unfold JobRunner.onGrant at hs
  split at hs
  swap
  · exact absurd hs.symm (Option.some_ne_none _)
  rename_i hcond
  obtain ⟨hwaiting, hlock, hpending⟩ := hcond
  obtain rfl := Option.some.inj hs
  have hnone : ∀ q, s.lock ≠ some q := fun q => by simp [hlock]
  have hqueue : s.queue = [] := h.serial.queue_eq_nil fun q n hsent =>
    hnone q (h.serial.sent q n hsent).1
  have hran : ∀ q answer, Function.update s.calls p (.sent s.next) q ≠ .ran answer := by
    intro q answer
    rcases eq_or_ne q p with rfl | hne
    · simp
    · rw [Function.update_of_ne hne]
      exact fun heq => hnone q (h.serial.ran q answer heq).1
  have hran' : ∀ q answer, s.calls q ≠ .ran answer := fun q answer heq =>
    hnone q (h.serial.ran q answer heq).1
  refine ⟨?_, fun _ hdead => hdead, fun _ _ hnone => hnone⟩
  exact
    { serial :=
        { sent := fun q n hsent => by
            rcases eq_or_ne q p with rfl | hne
            · have hn : s.next = n := by simpa using hsent
              subst hn
              refine ⟨rfl, ?_⟩
              change s.queue ++ _ = _
              rw [hqueue]
              cases q <;> rfl
            · rw [hg.calls q hne] at hsent
              exact absurd (h.serial.sent q n hsent).1 (hnone q)
          ran := fun q answer heq => absurd heq (hran q answer)
          queue := fun _ => ⟨p, s.next, by simp⟩
          lock := fun q hq => by
            obtain rfl : p = q := by simpa using hq
            simp
          inCall := fun q hq => by
            have hin : s.InCall q := h.serial.inCall q (by
              rcases eq_or_ne q p with rfl | hne
              · simp [hwaiting]
              · rwa [hg.calls q hne] at hq)
            cases q <;> exact hin }
      absent := h.absent
      tasks := h.tasks
      active := fun j hj => h.active j (active_of_call hj (hran _))
      requested := fun j hj => by
        have hne : Party.job j ≠ p := by
          rintro rfl
          exact Bool.false_ne_true (hpending.symm.trans hj)
        rw [hg.calls _ hne]
        exact h.requested j hj
      born := fun j hj => by
        refine h.born j (.inr ?_)
        exact hj.resolve_left fun hj => hran _ _ hj.2.choose_spec
      removed := h.removed
      named := h.named
      rereading := fun d hd => ⟨(h.rereading d hd).1, fun answer heq => absurd heq (hran _ _)⟩
      past := h.past
      gone := fun d hd => h.gone d (.inr (hd.resolve_left fun hd => hran _ _ hd.2.choose_spec))
      told := fun j => by
        have hann : ∀ d, JobRunner.Announces { s with
            lock := some p
            queue := s.queue ++ [(s.next, p, s.asks p)]
            next := s.next + 1
            calls := Function.update s.calls p (.sent s.next) } d j ↔ s.Announces d j := by
          simp only [Announces, hran, hran', implies_true]
        simp only [hann]
        exact h.told j }

/-- The party's operation has been run, and it can go on. -/
def ranState (s : JobRunner) (p : Party) : JobRunner :=
  { s with
    table := s.table.apply (s.asks p)
    queue := []
    calls := Function.update s.calls p (.ran (s.table.answer (s.asks p))) }

theorem onRun_cases (h : Serial s) (hs : s.onRun = some s') :
    ∃ p n, s.calls p = .sent n ∧ s' = s.ranState p := by
  unfold onRun at hs
  split at hs
  · exact absurd hs.symm (Option.some_ne_none _)
  · rename_i n p op queue hqueue
    obtain ⟨q, m, hsent⟩ := h.queue (by simp [hqueue])
    have heq := (h.sent q m hsent).2
    rw [hqueue] at heq
    simp only [List.cons.injEq, Prod.mk.injEq] at heq
    obtain ⟨⟨rfl, rfl, rfl⟩, rfl⟩ := heq
    rw [if_pos hsent] at hs
    exact ⟨p, n, hsent, (Option.some.inj hs).symm⟩

/-- While an operation is run no other party has an answer. -/
theorem Serial.ran_iff {p q : Party} {n : ℕ} (h : Serial s) (hsent : s.calls p = .sent n)
    {answer : Answer} : (s.ranState p).calls q = .ran answer ↔
      q = p ∧ answer = s.table.answer (s.asks p) := by
  rcases eq_or_ne q p with rfl | hne
  · simp [ranState, eq_comm]
  · simp only [ranState, ne_eq, hne, not_false_eq_true, Function.update_of_ne, false_and,
      iff_false]
    intro hran
    have hlock := (h.sent p n hsent).1
    rw [(h.ran q answer hran).1] at hlock
    exact hne (Option.some.inj hlock)

/-- Running an operation keeps the invariant, where it does to the table what the places of the
parties allow. -/
theorem DeleteInv.ran (h : DeleteInv s) {p : Party} {n : ℕ} (hsent : s.calls p = .sent n)
    (hgone : ∀ i, s.Dead i → s.table.rows i = none → (s.ranState p).table.rows i = none)
    (hactive : ∀ i, Active (s.jobPc i) ((s.ranState p).calls (.job i)) →
      ∃ row, (s.ranState p).table.rows i = some row ∧ row.status = .running)
    (hborn : ∀ i, (s.ranState p).Born i → (s.ranState p).table.removed i = 0 →
      (s.ranState p).table.rows i ≠ none)
    (hremoved : ∀ i, (s.ranState p).table.removed i ≠ 0 →
      (s.ranState p).table.removed i = 1 ∧ (s.ranState p).table.rows i = none ∧ s.Dead i)
    (hread : ∀ d, p = .delete d → s.deletePc d = .rereading →
      s.table.answer (s.asks p) = .row ((s.ranState p).table.rows (s.target d)))
    (hdeleted : ∀ d, p = .delete d → s.deletePc d = .deleting →
      (s.ranState p).table.rows (s.target d) = none)
    (htold : ∀ i, ((∀ d, ¬ (s.ranState p).Announces d i) ∧
        s.published i = (s.ranState p).table.removed i) ∨
      ((∃ d, (s.ranState p).Announces d i ∧ ∀ d', (s.ranState p).Announces d' i → d' = d) ∧
        s.published i + 1 = (s.ranState p).table.removed i)) :
    DeleteInv (s.ranState p) ∧ Later s (s.ranState p) := by
  have hran : ∀ q answer, (s.ranState p).calls q = .ran answer →
      q = p ∧ answer = s.table.answer (s.asks p) := fun _ _ => (h.serial.ran_iff hsent).1
  have hother : ∀ q, q ≠ p → (s.ranState p).calls q = s.calls q := fun q hq => by
    simp [ranState, hq]
  have hlock := (h.serial.sent p n hsent).1
  have hnot : ∀ q m, (s.ranState p).calls q ≠ .sent m := by
    intro q m heq
    rcases eq_or_ne q p with rfl | hne
    · simp [ranState] at heq
    · rw [hother q hne] at heq
      rw [(h.serial.sent q m heq).1] at hlock
      exact hne (Option.some.inj hlock)
  refine ⟨?_, fun _ hdead => hdead, hgone⟩
  exact
    { serial :=
        { sent := fun q m heq => absurd heq (hnot q m)
          ran := fun q answer heq => by
            obtain ⟨rfl, -⟩ := hran q answer heq
            exact ⟨hlock, rfl⟩
          queue := fun hne => absurd rfl hne
          lock := fun q hq => by
            obtain rfl : p = q := Option.some.inj (hlock.symm.trans hq)
            simp [ranState]
          inCall := fun q hq => by
            have hin : s.InCall q := h.serial.inCall q (by
              rcases eq_or_ne q p with rfl | hne
              · simp [hsent]
              · rwa [hother q hne] at hq)
            cases q <;> exact hin }
      absent := h.absent
      tasks := h.tasks
      active := hactive
      requested := fun j hj => by
        obtain ⟨hreason, hdoomed, hcall⟩ := h.requested j hj
        have hne : Party.job j ≠ p := by
          rintro rfl
          simp [hsent] at hcall
        rw [hother _ hne]
        exact ⟨hreason, hdoomed, hcall⟩
      born := hborn
      removed := hremoved
      named := h.named
      rereading := fun d hd => by
        refine ⟨(h.rereading d hd).1, fun answer heq => ?_⟩
        obtain ⟨hp, rfl⟩ := hran _ _ heq
        exact hread d hp.symm hd
      past := h.past
      gone := fun d hd => by
        rcases hd with ⟨hpc, answer, heq⟩ | hd
        · exact hdeleted d (hran _ _ heq).1.symm hpc
        · refine hgone _ (h.past d ?_) (h.gone d (.inr hd))
          rcases hd with ⟨removed, hpc⟩ | hpc
          · change s.deletePc d = _ at hpc
            simp [hpc, DeletePc.Past]
          · change s.deletePc d = _ at hpc
            simp [hpc, DeletePc.Past]
      told := htold }

/-- Whether a `delete` has something to tell, where it was not a `DELETE` that has been run. -/
theorem announces_ranState {p : Party} {n : ℕ} (hsent : s.calls p = .sent n)
    (hp : ∀ d, p = .delete d → s.deletePc d ≠ .deleting) (d i : ℕ) :
    (s.ranState p).Announces d i ↔ s.Announces d i := by
  rcases eq_or_ne (Party.delete d) p with rfl | hne
  · have hpc := hp d rfl
    simp only [Announces]
    change _ ∧ (s.deletePc d = _ ∨ s.deletePc d = _ ∧ _) ↔ _
    simp only [hpc, false_and, or_false]
    rfl
  · have hcall : (s.ranState p).calls (.delete d) = s.calls (.delete d) := by simp [ranState, hne]
    simp only [Announces, hcall]
    rfl

theorem DeleteInv.ran_read (h : DeleteInv s) {p : Party} {n : ℕ} (hsent : s.calls p = .sent n)
    (hasks : s.asks p = .commit ∨ ∃ i, s.asks p = .select i) :
    DeleteInv (s.ranState p) ∧ Later s (s.ranState p) := by
  have htable : (s.ranState p).table = s.table := by
    rcases hasks with heq | ⟨i, heq⟩ <;> simp [ranState, heq, Table.apply]
  have hinsert : ∀ i, p = .submit i → s.submitPc i ≠ .inserting := by
    rintro i rfl hpc
    simp [asks, hpc] at hasks
  have hexec : ∀ i, p = .job i → ∀ write, s.jobPc i ≠ .updating write .exec := by
    rintro i rfl write hpc
    simp [asks, hpc] at hasks
  have hdeleting : ∀ d, p = .delete d → s.deletePc d ≠ .deleting := by
    rintro d rfl hpc
    simp [asks, hpc] at hasks
  have hother : ∀ q, q ≠ p → (s.ranState p).calls q = s.calls q := fun q hq => by
    simp [ranState, hq]
  refine h.ran hsent (fun i _ hnone => htable ▸ hnone) (fun i hi => ?_) (fun i hi => ?_)
    (fun i hi => ?_) (fun d hd hpc => ?_) (fun d hd hpc => absurd hpc (hdeleting d hd)) fun i => ?_
  · rw [htable]
    refine h.active i ?_
    rcases eq_or_ne (Party.job i) p with heq | hne
    · have hpc := hexec i heq.symm
      cases hjob : s.jobPc i with
      | updating write step =>
        rw [hjob] at hi
        cases step with
        | exec => exact absurd hjob (hpc write)
        | commit | get => cases write <;> exact hi
      | _ =>
        rw [hjob] at hi
        exact hi
    · rwa [← hother _ hne]
  · rw [htable]
    refine h.born i ?_
    rcases hi with ⟨hpc, answer, hran⟩ | hi
    · change s.submitPc i = _ at hpc
      rcases eq_or_ne (Party.submit i) p with heq | hne
      · exact absurd hpc (hinsert i heq.symm)
      · rw [hother _ hne] at hran
        exact .inl ⟨hpc, answer, hran⟩
    · exact .inr hi
  · rw [htable] at hi ⊢
    exact h.removed i hi
  · subst hd
    simp [htable, asks, hpc, Table.answer]
  · simp only [announces_ranState hsent hdeleting, htable]
    exact h.told i

/-- A job in the queue or in the table is not dead. -/
theorem DeleteInv.not_dead_of_submit (h : DeleteInv s) (hpc : s.submitPc i = .inserting) :
    ¬ s.Dead i := by
  have habsent : s.jobPc i = .absent := h.absent i (by simp [hpc])
  rintro (hended | ⟨hfresh, -⟩ | hrequested)
  · exact JobPc.noConfusion (habsent.symm.trans hended)
  · exact SubmitPc.noConfusion (hpc.symm.trans hfresh)
  · have hdoomed := (h.requested i hrequested).2.1
    simp [habsent, Doomed] at hdoomed

theorem DeleteInv.ran_insert (h : DeleteInv s) {n : ℕ} (hsent : s.calls (.submit i) = .sent n)
    (hpc : s.submitPc i = .inserting) :
    DeleteInv (s.ranState (.submit i)) ∧ Later s (s.ranState (.submit i)) := by
  have halive := h.not_dead_of_submit hpc
  have habsent : s.jobPc i = .absent := h.absent i (by simp [hpc])
  have htable : (s.ranState (.submit i)).table = s.table.put i {} := by
    simp [ranState, asks, hpc, Table.apply]
  have hrows : ∀ j, j ≠ i → (s.ranState (.submit i)).table.rows j = s.table.rows j := fun j hj => by
    simp [htable, Table.put, hj]
  have hremoved : (s.ranState (.submit i)).table.removed = s.table.removed := by
    simp [htable, Table.put]
  have hother : ∀ q, q ≠ .submit i → (s.ranState (.submit i)).calls q = s.calls q := fun q hq => by
    simp [ranState, hq]
  refine h.ran hsent (fun j hj hnone => ?_) (fun j hj => ?_) (fun j hj hzero => ?_) (fun j hj => ?_)
    (fun d hd => absurd hd (by simp)) (fun d hd => absurd hd (by simp)) fun j => ?_
  · rw [hrows j fun heq => halive (heq ▸ hj)]
    exact hnone
  · rw [hother _ (by simp)] at hj
    rw [hrows j fun heq => by simp [heq, habsent, Active] at hj]
    exact h.active j hj
  · rcases eq_or_ne j i with rfl | hne
    · simp [htable, Table.put]
    · rw [hrows j hne]
      rw [Born, hother _ (by simpa using hne)] at hj
      exact h.born j hj (hremoved ▸ hzero)
  · rw [hremoved] at hj ⊢
    obtain ⟨hone, hnone, hdead⟩ := h.removed j hj
    rw [hrows j fun heq => halive (heq ▸ hdead)]
    exact ⟨hone, hnone, hdead⟩
  · simp only [announces_ranState hsent (fun d hd => absurd hd (by simp)), hremoved]
    exact h.told j

theorem DeleteInv.ran_update (h : DeleteInv s) {n : ℕ} (hsent : s.calls (.job i) = .sent n)
    {write : Write} (hpc : s.jobPc i = .updating write .exec) :
    DeleteInv (s.ranState (.job i)) ∧ Later s (s.ranState (.job i)) := by
  have hreturned : s.submitPc i = .returned := by
    by_contra hne
    exact JobPc.noConfusion ((h.absent i hne).symm.trans hpc)
  have halive : ¬ s.Dead i := by
    rintro (hended | ⟨hfresh, -⟩ | hrequested)
    · exact JobPc.noConfusion (hpc.symm.trans hended)
    · exact SubmitPc.noConfusion (hreturned.symm.trans hfresh)
    · have hcall := (h.requested i hrequested).2.2
      simp [hsent] at hcall
  have hzero : s.table.removed i = 0 := by
    by_contra hne
    exact halive (h.removed i hne).2.2
  obtain ⟨row, hrow⟩ := Option.ne_none_iff_exists'.1
    (h.born i (.inr (.inr (.inr hreturned))) hzero)
  have htable : (s.ranState (.job i)).table = s.table.put i (row.set write.fields) := by
    simp [ranState, asks, hpc, Table.apply, hrow]
  have hrows : ∀ j, j ≠ i → (s.ranState (.job i)).table.rows j = s.table.rows j := fun j hj => by
    simp [htable, Table.put, hj]
  have hremoved : (s.ranState (.job i)).table.removed = s.table.removed := by
    simp [htable, Table.put]
  have hother : ∀ q, q ≠ .job i → (s.ranState (.job i)).calls q = s.calls q := fun q hq => by
    simp [ranState, hq]
  refine h.ran hsent (fun j hj hnone => ?_) (fun j hj => ?_) (fun j hj hzero => ?_) (fun j hj => ?_)
    (fun d hd => absurd hd (by simp)) (fun d hd => absurd hd (by simp)) fun j => ?_
  · rw [hrows j fun heq => halive (heq ▸ hj)]
    exact hnone
  · rcases eq_or_ne j i with rfl | hne
    · refine ⟨row.set write.fields, by simp [htable, Table.put], ?_⟩
      rw [hpc] at hj
      cases write with
      | running => rfl
      | progress fraction message =>
        obtain ⟨row', hrow', hrunning⟩ := h.active j (by simp [hpc, Active])
        obtain rfl := Option.some.inj (hrow.symm.trans hrow')
        exact hrunning
      | failed | done | cancelled => exact absurd hj (by simp [Active])
    · rw [hother _ (by simpa using hne)] at hj
      rw [hrows j hne]
      exact h.active j hj
  · rw [hremoved] at hzero
    rw [Born, hother _ (by simp)] at hj
    rcases eq_or_ne j i with rfl | hne
    · simp [htable, Table.put]
    · rw [hrows j hne]
      exact h.born j hj hzero
  · rw [hremoved] at hj ⊢
    obtain ⟨hone, hnone, hdead⟩ := h.removed j hj
    rw [hrows j fun heq => halive (heq ▸ hdead)]
    exact ⟨hone, hnone, hdead⟩
  · simp only [announces_ranState hsent (fun d hd => absurd hd (by simp)), hremoved]
    exact h.told j

theorem DeleteInv.ran_delete (h : DeleteInv s) {n : ℕ} (hsent : s.calls (.delete d) = .sent n)
    (hpc : s.deletePc d = .deleting) :
    DeleteInv (s.ranState (.delete d)) ∧ Later s (s.ranState (.delete d)) := by
  have hdead : s.Dead (s.target d) := h.past d (by simp [hpc, DeletePc.Past])
  have hasks : s.asks (.delete d) = .delete (s.target d) := by simp [asks, hpc]
  have hnone : (s.ranState (.delete d)).table.rows (s.target d) = none := by
    simp [ranState, hasks, Table.apply]
  have hrows : ∀ j, j ≠ s.target d →
      (s.ranState (.delete d)).table.rows j = s.table.rows j := fun j hj => by
    simp [ranState, hasks, Table.apply, hj]
  have hremoved : ∀ j, j ≠ s.target d →
      (s.ranState (.delete d)).table.removed j = s.table.removed j := fun j hj => by
    simp [ranState, hasks, Table.apply, hj]
  have hother : ∀ q, q ≠ .delete d → (s.ranState (.delete d)).calls q = s.calls q := fun q hq => by
    simp [ranState, hq]
  have hhere : (s.ranState (.delete d)).calls (.delete d) =
      .ran (.deleted (s.table.rows (s.target d)).isSome) := by
    simp [ranState, hasks, Table.answer]
  have hgone : ∀ j, s.table.rows j = none → (s.ranState (.delete d)).table.rows j = none := by
    intro j hj
    rcases eq_or_ne j (s.target d) with rfl | hne
    · exact hnone
    · rw [hrows j hne, hj]
  -- What the other `delete`s have to tell is as before.
  have hann : ∀ e j, e ≠ d → ((s.ranState (.delete d)).Announces e j ↔ s.Announces e j) := by
    intro e j he
    rw [Announces, hother _ (by simpa using he)]
    rfl
  have hnot : ∀ j, ¬ s.Announces d j := fun j => by simp [Announces, hpc, hsent]
  refine h.ran hsent (fun j _ => hgone j) (fun j hj => ?_) (fun j hj hzero => ?_) (fun j hj => ?_)
    (fun e he hread => ?_) (fun e he _ => ?_) fun j => ?_
  · rw [hother _ (by simp)] at hj
    rw [hrows j fun heq => h.not_active (heq ▸ hdead) hj]
    exact h.active j hj
  · rw [Born, hother _ (by simp)] at hj
    rcases eq_or_ne j (s.target d) with rfl | hne
    · have hbefore : s.table.removed (s.target d) = 0 ∧
          (s.table.rows (s.target d)).isSome = false := by
        simpa [ranState, hasks, Table.apply] using hzero
      have hrow := h.born _ hj hbefore.1
      simp [Option.isSome_eq_false_iff, hrow] at hbefore
    · rw [hrows j hne]
      exact h.born j hj (hremoved j hne ▸ hzero)
  · rcases eq_or_ne j (s.target d) with rfl | hne
    · refine ⟨?_, hnone, hdead⟩
      cases hrow : s.table.rows (s.target d) with
      | none =>
        have hsame : (s.ranState (.delete d)).table.removed (s.target d) =
            s.table.removed (s.target d) := by simp [ranState, hasks, Table.apply, hrow]
        rw [hsame] at hj ⊢
        exact (h.removed _ hj).1
      | some row =>
        have hzero : s.table.removed (s.target d) = 0 := by
          by_contra hne
          exact Option.some_ne_none row (hrow.symm.trans (h.removed _ hne).2.1)
        simp [ranState, hasks, Table.apply, hrow, hzero]
    · rw [hremoved j hne] at hj ⊢
      rw [hrows j hne]
      exact h.removed j hj
  · obtain rfl : d = e := by simpa using he
    exact DeletePc.noConfusion (hpc.symm.trans hread)
  · obtain rfl : d = e := by simpa using he
    exact hnone
  · by_cases htells : j = s.target d ∧ (s.table.rows (s.target d)).isSome = true
    · obtain ⟨rfl, hsome⟩ := htells
      obtain ⟨row, hrow⟩ := Option.isSome_iff_exists.1 hsome
      have hzero : s.table.removed (s.target d) = 0 := by
        by_contra hne
        exact Option.some_ne_none row (hrow.symm.trans (h.removed _ hne).2.1)
      obtain ⟨hnobody, hpublished⟩ := (h.told (s.target d)).resolve_right fun htold => by
        omega
      refine .inr ⟨⟨d, ⟨rfl, .inr ⟨hpc, ?_⟩⟩, fun e he => ?_⟩, ?_⟩
      · rw [hhere, hsome]
      · by_contra hne
        exact hnobody e ((hann e _ hne).1 he)
      · simp [ranState, hasks, Table.apply, hrow, hpublished]
    · have hall : ∀ e, (s.ranState (.delete d)).Announces e j ↔ s.Announces e j := by
        intro e
        rcases eq_or_ne e d with rfl | hne
        · refine iff_of_false ?_ (hnot j)
          rintro ⟨htarget, hwhere⟩
          change s.target e = j at htarget
          change s.deletePc e = _ ∨ s.deletePc e = _ ∧ _ at hwhere
          simp only [hpc, reduceCtorEq, true_and, false_or] at hwhere
          rw [hhere] at hwhere
          simp only [CallState.ran.injEq, Answer.deleted.injEq] at hwhere
          exact htells ⟨htarget.symm, hwhere⟩
        · exact hann e j hne
      have hsame : (s.ranState (.delete d)).table.removed j = s.table.removed j := by
        rcases eq_or_ne j (s.target d) with rfl | hne
        · have hrow : s.table.rows (s.target d) = none := by simpa using htells
          simp [ranState, hasks, Table.apply, hrow]
        · exact hremoved j hne
      simp only [hall, hsame]
      exact h.told j

theorem DeleteInv.onRun (h : DeleteInv s) (hs : s.onRun = some s') : DeleteInv s' ∧ Later s s' := by
  obtain ⟨p, n, hsent, rfl⟩ := onRun_cases h.serial hs
  rcases p with i | i | d
  · by_cases hpc : s.submitPc i = .inserting
    · exact h.ran_insert hsent hpc
    · refine h.ran_read hsent ?_
      simp only [asks]
      split
      · contradiction
      · exact .inr ⟨_, rfl⟩
      · exact .inl rfl
  · by_cases hpc : ∃ write, s.jobPc i = .updating write .exec
    · exact h.ran_update hsent hpc.choose_spec
    · refine h.ran_read hsent ?_
      simp only [asks]
      split
      · rename_i write heq
        exact absurd ⟨write, heq⟩ hpc
      · exact .inr ⟨_, rfl⟩
      · exact .inl rfl
  · by_cases hpc : s.deletePc d = .deleting
    · exact h.ran_delete hsent hpc
    · refine h.ran_read hsent ?_
      simp only [asks]
      split
      · exact .inr ⟨_, rfl⟩
      · exact .inr ⟨_, rfl⟩
      · contradiction
      · exact .inl rfl

/-! ## A whole run -/

theorem DeleteInv.step {e : Event} (h : DeleteInv s) (halone : s.alone e = true)
    (htaken : s.taken e = true) (hs : s.step e = some s') : DeleteInv s' ∧ Later s s' := by
  cases e with
  | submit i =>
    simp only [JobRunner.step, Option.ite_none_right_eq_some, Option.some.injEq] at hs
    obtain ⟨⟨hfresh, hnamed, -⟩, rfl⟩ := hs
    exact h.submit hfresh hnamed
  | delete d i =>
    simp only [JobRunner.step, Option.ite_none_right_eq_some, Option.some.injEq] at hs
    obtain ⟨hidle, rfl⟩ := hs
    exact h.delete hidle i
  | shutdown => exact absurd halone Bool.false_ne_true
  | grant p => exact h.onGrant hs
  | run => exact h.onRun hs
  | resume p =>
    simp only [JobRunner.step, onResume] at hs
    split at hs
    · rename_i answer hran
      simp only [Option.ite_none_left_eq_some, Option.some.injEq] at hs
      obtain ⟨hpending, rfl⟩ := hs
      cases p with
      | submit i => exact h.resume_submit hran
      | job i => exact h.resume_job hran (by simpa [pending] using hpending)
      | delete d => exact h.resume_delete hran htaken
    · exact absurd hs.symm (Option.some_ne_none _)
  | cancel p =>
    simp only [JobRunner.step, onCancel, Option.ite_none_right_eq_some, Option.some.injEq] at hs
    obtain ⟨-, rfl⟩ := hs
    cases p with
    | job i => exact h.cancel_job halone
    | submit i => exact absurd halone Bool.false_ne_true
    | delete d => exact absurd halone Bool.false_ne_true
  | start i =>
    obtain ⟨hpc, hfree, rfl⟩ := ifAt_eq_some hs
    refine h.own (jobMoved_setJob _) rfl (by simp [hpc]) (by simp [hpc]) ?_ (.inl rfl) ?_ hfree rfl
    · simp [setJob]
    · simp [setJob, Active]
  | acquire i =>
    simp only [JobRunner.step, Option.ite_none_right_eq_some] at hs
    obtain ⟨hpc, hfree, rfl⟩ := ifAt_eq_some hs.2
    have hm : JobMoved i s { s with slots := s.slots - 1 } := { JobMoved.refl i s with }
    refine h.own (hm.trans (jobMoved_setJob _)) rfl (by simp [hpc]) (by simp [hpc]) ?_ (.inl rfl)
      ?_ hfree rfl
    · simp [setJob]
    · simp [setJob, Active]
  | made i ok =>
    obtain ⟨hpc, hfree, rfl⟩ := ifAt_eq_some hs
    have hupdating : ∀ write step, s.jobPc i ≠ .updating write step := by simp [hpc]
    have hthere : s.jobPc i ≠ .absent ∧ s.jobPc i ≠ .ended := by simp [hpc]
    cases ok with
    | true => exact h.update hfree hupdating hthere (by simp)
    | false =>
      have hleft : Later s s.leave := ⟨fun _ hdead => hdead, fun _ _ hnone => hnone⟩
      exact (h.leave.endRun hfree hupdating hthere).imp_right hleft.trans
  | report i fraction message =>
    obtain ⟨hpc, hfree, rfl⟩ := ifAt_eq_some hs
    exact h.update hfree (by simp [hpc]) (by simp [hpc]) fun _ => hpc
  | finish i outcome =>
    obtain ⟨hpc, hfree, rfl⟩ := ifAt_eq_some hs
    exact h.onFinish hpc hfree outcome
  | gathered d =>
    simp only [JobRunner.step, Option.ite_none_right_eq_some, Option.some.injEq] at hs
    obtain ⟨⟨hpc, -⟩, rfl⟩ := hs
    exact h.gathered hpc
  | cleared d =>
    simp only [JobRunner.step, Option.ite_none_right_eq_some, Option.some.injEq] at hs
    obtain ⟨hpc, rfl⟩ := hs
    exact h.cleared hpc

theorem deleteInv_fresh (slots : ℕ) : DeleteInv { slots } where
  serial :=
    { sent := fun _ _ h => CallState.noConfusion h
      ran := fun _ _ h => CallState.noConfusion h
      queue := fun h => absurd rfl h
      lock := fun _ h => absurd h.symm (Option.some_ne_none _)
      inCall := fun _ h => absurd rfl h }
  absent _ _ := rfl
  tasks _ h := absurd h Bool.false_ne_true
  active _ h := absurd h not_false
  requested _ h := absurd h Bool.false_ne_true
  born i h := by simp [Born] at h
  removed _ h := absurd rfl h
  named _ h := absurd rfl h
  rereading _ h := DeletePc.noConfusion h
  past _ h := absurd h not_false
  gone d h := by simp at h
  told i := .inl ⟨fun d h => by simp [Announces] at h, rfl⟩

theorem DeleteInv.run (h : DeleteInv s)
    (hs : Reachable (guarded JobRunner.step fun t e => t.alone e && t.taken e) s s') :
    DeleteInv s' ∧ Later s s' := by
  refine hs.invariant (fun t => DeleteInv t ∧ Later s t)
    ⟨h, fun _ hdead => hdead, fun _ _ hnone => hnone⟩ fun t e t' _ ⟨ht, hlater⟩ hs => ?_
  obtain ⟨hcond, hs⟩ := guarded_eq_some.1 hs
  obtain ⟨halone, htaken⟩ := Bool.and_eq_true_iff.1 hcond
  exact (ht.step halone htaken hs).imp_right hlater.trans

/-- **A job that runs is left alone, a job deleted stays deleted, and each row removed is told of
once**, in every run in which nobody but `delete` cancels and a `delete` that finds no task finds
the job ended or never submitted. -/
theorem untouched_of_taken (slots : ℕ) {s : JobRunner}
    (h : Reachable (guarded step fun t e => t.alone e && t.taken e) { slots } s) :
    (∀ i, s.Runs i → s.requested i = false ∧
      (∃ row, s.table.rows i = some row ∧ row.status = .running) ∧
      ∀ d, s.target d = i → ¬ (s.deletePc d).Past ∧ (s.deletePc d = .rereading →
        ∀ answer, s.calls (.delete d) = .ran answer → answer.isRunning = true)) ∧
    (∀ d, s.deletePc d = .returned → ∀ s',
      Reachable (guarded step fun t e => t.alone e && t.taken e) s s' →
        s'.table.rows (s.target d) = none) ∧
    ∀ i, s.table.removed i ≤ 1 ∧
      (((∀ d, ¬ s.Announces d i) ∧ s.published i = s.table.removed i) ∨
        ((∃ d, s.Announces d i ∧ ∀ d', s.Announces d' i → d' = d) ∧
          s.published i + 1 = s.table.removed i)) := by
  have hinv := ((deleteInv_fresh slots).run h).1
  refine ⟨fun i hruns => ?_, fun d hpc s' h' => ?_, fun i => ⟨?_, hinv.told i⟩⟩
  · have hactive := active_of_runs hruns
    have halive : ¬ s.Dead i := fun hdead => hinv.not_active hdead hactive
    obtain ⟨row, hrow, hrunning⟩ := hinv.active i hactive
    refine ⟨?_, ⟨row, hrow, hrunning⟩, fun d hd => ⟨fun hpast => ?_, fun hpc answer hran => ?_⟩⟩
    · exact Bool.eq_false_iff.2 fun htrue => halive (.inr (.inr htrue))
    · exact halive (hd ▸ hinv.past d hpast)
    · rw [(hinv.rereading d hpc).2 answer hran, hd, hrow]
      simp [Answer.isRunning, hrunning]
  · have hdead := hinv.past d (by simp [hpc, DeletePc.Past])
    exact (hinv.run h').2.gone _ hdead (hinv.gone d (.inr (.inr hpc)))
  · rcases Nat.eq_zero_or_pos (s.table.removed i) with hzero | hpos
    · omega
    · exact (hinv.removed i (by omega)).1.le

/-- A party calls the database, and is answered. -/
def called (p : Party) : List Event := [.grant p, .run, .resume p]

/-- A job is submitted. -/
def submitted (i : ℕ) : List Event :=
  .submit i :: (called (.submit i) ++ called (.submit i) ++ called (.submit i))

/-- A job begins, and its row says `running`. -/
def begun (i : ℕ) : List Event :=
  [.start i, .acquire i, .made i true] ++ called (.job i) ++ called (.job i) ++ called (.job i)

/-- Job 0 runs and refuses to be deleted, job 1 is deleted before it begins. -/
theorem untouched_of_taken_queued : ∃ s : JobRunner, s.deletePc 0 = .busy ∧
    s.requested 0 = false ∧ s.published 1 = 1 ∧ s.table.removed 1 ≤ 1 ∧
    ∀ s', Reachable (guarded step fun t e => t.alone e && t.taken e) s s' →
      s'.table.rows 1 = none := by
  have hrun : (run (guarded step fun t e => t.alone e && t.taken e) {}
      (submitted 0 ++ submitted 1 ++ begun 0 ++ [.delete 0 0] ++ called (.delete 0) ++
        [.delete 1 1] ++ called (.delete 1) ++ called (.delete 1) ++
        [.cancel (.job 1), .gathered 1, .cleared 1] ++ called (.delete 1) ++
        called (.delete 1))).isSome := by decide
  obtain ⟨s, hs⟩ := Option.isSome_iff_exists.1 hrun
  have hend : s.jobPc 0 = .working ∧ s.deletePc 0 = .busy ∧ s.deletePc 1 = .returned ∧
      s.target 1 = 1 ∧ s.published 1 = 1 := by
    obtain rfl := Option.some.inj hs
    exact ⟨rfl, rfl, rfl, rfl, rfl⟩
  obtain ⟨hworking, hbusy, hreturned, htarget, hpublished⟩ := hend
  obtain ⟨halone, hgone, htold⟩ := untouched_of_taken 1 ⟨_, hs⟩
  refine ⟨s, hbusy, (halone 0 (.inl hworking)).1, hpublished, (htold 1).1, fun s' h' => ?_⟩
  have hnone := hgone 1 hreturned s' h'
  rwa [htarget] at hnone

/-- Two `delete`s of a job in the queue : the first takes its task and reads once more, the second
finds none and goes on. The job begins, and the second removes the row of a job that runs. -/
theorem second_delete : ∃ s : JobRunner, Reachable (guarded step alone) {} s ∧
    s.Runs 0 ∧ s.table.rows 0 = none ∧ s.deletePc 1 = .returned ∧ s.published 0 = 1 := by
  have hrun : (run (guarded step alone) {}
      (submitted 0 ++ [.delete 0 0, .delete 1 0] ++ called (.delete 0) ++ called (.delete 1) ++
        begun 0 ++ [.cleared 1] ++ called (.delete 1) ++ called (.delete 1))).isSome := by decide
  obtain ⟨s, hs⟩ := Option.isSome_iff_exists.1 hrun
  refine ⟨s, ⟨_, hs⟩, ?_⟩
  obtain rfl := Option.some.inj hs
  exact ⟨.inl rfl, rfl, rfl, rfl⟩

end JobRunner

end Mtrtk
