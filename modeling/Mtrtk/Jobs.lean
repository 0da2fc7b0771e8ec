import Mathlib.Algebra.Order.Ring.Unbundled.Rat
import Mathlib.Logic.Function.Basic
import Mtrtk.Run

/-!
# Background jobs

`jobs.py` : `JobRunner.submit`, `_run`, `_execute`, `_update`, `_mark_cancelled`, `delete` and
`shutdown`, with a party for each call of `submit` (named by the id of its job), for each job's own
task and for each call of `delete`.

A party calls the database and waits (`CallState`) : it gets the lock and its operation is
submitted (`onGrant`), the operations are run in the order they were submitted, awaited or not
(`onRun`), and the party goes on with the answer when the lock is released (`onResume`). A
cancellation reaches any await (`onCancel`); of a job whose task was cancelled by `delete` or
`shutdown` the next thing is that (`requested`). Between its calls a job's function runs code of its
own (`JobPc.working`), which may report and end at any time, and may outlive a cancellation.

Ids are never drawn twice, nor are those drawn that a `delete` was called with. The table keeps the
status values each row has had and how often it was removed, which the source does not. Left out are
`kind`, `params` and the times of a row, what is published on `jobs.update`, and operations that
fail.
-/

namespace Mtrtk

namespace JobRunner

/-! ## The table -/

inductive Status
  | queued | running | done | failed
  deriving DecidableEq, Repr

/-- A row of `jobs`. -/
structure Row where
  status : Status := .queued
  progress : ℚ := 0
  message : Option String := none
  result : Option String := none
  error : Option String := none
  deriving DecidableEq

/-- The columns an `_update` sets. -/
structure Fields where
  status : Option Status := none
  progress : Option ℚ := none
  message : Option (Option String) := none
  result : Option String := none
  error : Option String := none
  deriving DecidableEq

/-- The row with the columns set. -/
def Row.set (row : Row) (fields : Fields) : Row where
  status := fields.status.getD row.status
  progress := fields.progress.getD row.progress
  message := fields.message.getD row.message
  result := fields.result <|> row.result
  error := fields.error <|> row.error

inductive Op
  | insert (id : ℕ)
  | update (id : ℕ) (fields : Fields)
  | select (id : ℕ)
  | delete (id : ℕ)
  | commit
  deriving DecidableEq

/-- What an operation is answered : the row selected, or whether a row was deleted. -/
inductive Answer
  | ok
  | row (row : Option Row)
  | deleted (removed : Bool)
  deriving DecidableEq

/-- The rows, the status values each has had, and how often it was removed. -/
structure Table where
  rows : ℕ → Option Row := fun _ => none
  hist : ℕ → List Status := fun _ => []
  removed : ℕ → ℕ := fun _ => 0

/-- The status values with one more, if it is not the last one. -/
def note (hist : List Status) (status : Status) : List Status :=
  if hist.getLast? = some status then hist else hist ++ [status]

namespace Table

/-- The row is what it is now. -/
def put (t : Table) (id : ℕ) (row : Row) : Table :=
  { t with
    rows := Function.update t.rows id (some row)
    hist := Function.update t.hist id (note (t.hist id) row.status) }

def apply (t : Table) : Op → Table
  | .insert id => t.put id {}
  | .update id fields =>
    match t.rows id with
    | some row => t.put id (row.set fields)
    | none => t
  | .delete id =>
    { t with
      rows := Function.update t.rows id none
      removed := Function.update t.removed id
        (t.removed id + if (t.rows id).isSome then 1 else 0) }
  | .select _ | .commit => t

def answer (t : Table) : Op → Answer
  | .select id => .row (t.rows id)
  | .delete id => .deleted (t.rows id).isSome
  | .insert _ | .update _ _ | .commit => .ok

end Table

/-! ## The parties -/

inductive Party
  | submit (id : ℕ)
  | job (id : ℕ)
  | delete (d : ℕ)
  deriving DecidableEq, Repr

/-- A call of the database : the party waits for the lock, its operation is submitted, or has been
run. -/
inductive CallState
  | idle
  | waiting
  | sent (op : ℕ)
  | ran (answer : Answer)
  deriving DecidableEq

inductive SubmitPc
  | fresh | inserting | committing | getting | returned | failed
  deriving DecidableEq, Repr

/-- What an `_update` of a job's task writes. -/
inductive Write
  | running
  | progress (fraction : ℚ) (message : Option String)
  | failed (error : String)
  | done (result : String)
  | cancelled (reason : String)
  deriving DecidableEq

def Write.fields : Write → Fields
  | .running => { status := some .running, message := some (some "started") }
  | .progress fraction message => { progress := some fraction, message := some message }
  | .failed error => { status := some .failed, error := some error }
  | .done result =>
    { status := some .done
      progress := some 1
      message := some (some "finished")
      result := some result }
  | .cancelled reason => { status := some .failed, error := some reason }

/-- Where an `_update` is. -/
inductive UpdateStep
  | exec | commit | get
  deriving DecidableEq, Repr

/-- Where a job's task is. -/
inductive JobPc
  | absent
  /-- Created, and not run yet. -/
  | created
  /-- It awaits the semaphore. -/
  | queued
  /-- It makes the directory. -/
  | making
  | updating (write : Write) (step : UpdateStep)
  /-- Its function runs. -/
  | working
  | ended
  deriving DecidableEq

inductive DeletePc
  | idle
  | reading
  | rereading
  | gathering
  /-- It removes the directory. -/
  | clearing
  | deleting
  | committing (removed : Bool)
  | returned
  | busy
  | failed
  deriving DecidableEq, Repr

/-- How a job's function ends. -/
inductive Outcome
  | returned (result : String)
  | raised (error : String)
  | cancelled
  deriving DecidableEq, Repr

def cancelledReason : String := "cancelled"
def shutdownReason : String := "shutdown"

end JobRunner

structure JobRunner where
  table : JobRunner.Table := {}
  /-- The operations submitted and not run, with their numbers and parties. -/
  queue : List (ℕ × JobRunner.Party × JobRunner.Op) := []
  next : ℕ := 0
  lock : Option JobRunner.Party := none
  calls : JobRunner.Party → JobRunner.CallState := fun _ => .idle
  submitPc : ℕ → JobRunner.SubmitPc := fun _ => .fresh
  jobPc : ℕ → JobRunner.JobPc := fun _ => .absent
  deletePc : ℕ → JobRunner.DeletePc := fun _ => .idle
  /-- The id a `delete` was called with. -/
  target : ℕ → ℕ := fun _ => 0
  /-- The ids some `delete` was called with. -/
  named : ℕ → Bool := fun _ => false
  /-- The free slots of the semaphore. -/
  slots : ℕ := 1
  /-- `_tasks`. -/
  tasks : ℕ → Bool := fun _ => false
  /-- `_cancel_reason`. -/
  reason : ℕ → Option (Option String) := fun _ => none
  closing : Bool := false
  /-- The jobs whose task was cancelled and has not learned of it yet. -/
  requested : ℕ → Bool := fun _ => false
  /-- How often an id was published on `jobs.deleted`. -/
  published : ℕ → ℕ := fun _ => 0

namespace JobRunner

variable (s : JobRunner)

/-- The party calls the database. -/
def call (p : Party) : JobRunner := { s with calls := Function.update s.calls p .waiting }

def setSubmit (id : ℕ) (pc : SubmitPc) : JobRunner :=
  { s with submitPc := Function.update s.submitPc id pc }

def setJob (id : ℕ) (pc : JobPc) : JobRunner :=
  { s with jobPc := Function.update s.jobPc id pc }

def setDelete (d : ℕ) (pc : DeletePc) : JobRunner :=
  { s with deletePc := Function.update s.deletePc d pc }

def setTask (id : ℕ) (present : Bool) : JobRunner :=
  { s with tasks := Function.update s.tasks id present }

/-- The operation a party calls the database with. -/
def asks : Party → Op
  | .submit id =>
    match s.submitPc id with
    | .inserting => .insert id
    | .getting => .select id
    | _ => .commit
  | .job id =>
    match s.jobPc id with
    | .updating write .exec => .update id write.fields
    | .updating _ .get => .select id
    | _ => .commit
  | .delete d =>
    match s.deletePc d with
    | .reading | .rereading => .select (s.target d)
    | .deleting => .delete (s.target d)
    | _ => .commit

/-- Whether the party's task has a cancellation to learn of. -/
def pending : Party → Bool
  | .job id => s.requested id
  | _ => false

/-! ## A job's task -/

/-- `_update` begins. -/
def update (id : ℕ) (write : Write) : JobRunner :=
  (s.setJob id (.updating write .exec)).call (.job id)

/-- The `finally` of `_run`. -/
def endRun (id : ℕ) : JobRunner :=
  { s.setTask id false with
    jobPc := Function.update s.jobPc id .ended
    reason := Function.update s.reason id none }

/-- The slot of the semaphore is free again. -/
def leave : JobRunner := { s with slots := s.slots + 1 }

/-- `_mark_cancelled`, and what follows it in `_run`. -/
def markCancelled (id : ℕ) : JobRunner :=
  match (s.reason id).getD (some cancelledReason) with
  | none => s.endRun id
  | some reason => s.update id (.cancelled reason)

/-- An `_update` is over. -/
def updated (id : ℕ) : Write → JobRunner
  | .running | .progress _ _ => s.setJob id .working
  | .failed _ | .done _ => s.leave.endRun id
  | .cancelled _ => s.endRun id

/-- A job's task goes on after a call of the database. -/
def jobNext (id : ℕ) : JobRunner :=
  match s.jobPc id with
  | .updating write .exec => (s.setJob id (.updating write .commit)).call (.job id)
  | .updating write .commit => (s.setJob id (.updating write .get)).call (.job id)
  | .updating write .get => s.updated id write
  | _ => s

/-- `CancelledError` reaches a job's task. One that was not run yet ends without its `finally`. -/
def jobCancelled (id : ℕ) : JobRunner :=
  match s.jobPc id with
  | .created => s.setJob id .ended
  | .queued => s.markCancelled id
  | .making | .updating .running _ | .updating (.failed _) _ | .updating (.done _) _ =>
    s.leave.markCancelled id
  | .updating (.progress _ _) _ => s.setJob id .working
  | .updating (.cancelled _) _ => s.endRun id
  | .working | .absent | .ended => s

/-! ## `submit` and `delete` -/

/-- `submit` goes on after a call of the database. It asserts that its row is still there. -/
def submitNext (id : ℕ) (answer : Answer) : JobRunner :=
  match s.submitPc id with
  | .inserting => (s.setSubmit id .committing).call (.submit id)
  | .committing => (s.setSubmit id .getting).call (.submit id)
  | .getting =>
    if answer = .row none then s.setSubmit id .failed
    else ((s.setSubmit id .returned).setJob id .created).setTask id true
  | _ => s

/-- Whether the row selected says that the job is running. -/
def Answer.isRunning : Answer → Bool
  | .row selected => selected.any (·.status = .running)
  | _ => false

/-- `task.cancel()`. -/
def cancelTask (id : ℕ) : JobRunner :=
  { s with requested := Function.update s.requested id (s.jobPc id ≠ .ended) }

/-- `delete` cancels the task it has in hand, and gathers it. -/
def gather (d : ℕ) : JobRunner :=
  { s.setDelete d .gathering with
    reason := Function.update s.reason (s.target d) (some none) }.cancelTask (s.target d)

/-- `delete` goes on after a call of the database. -/
def deleteNext (d : ℕ) (answer : Answer) : JobRunner :=
  let id := s.target d
  match s.deletePc d with
  | .reading =>
    if answer.isRunning then s.setDelete d .busy
    else if s.tasks id then ((s.setTask id false).setDelete d .rereading).call (.delete d)
    else s.setDelete d .clearing
  | .rereading =>
    if answer.isRunning then (s.setTask id true).setDelete d .busy else s.gather d
  | .deleting => (s.setDelete d (.committing (answer = .deleted true))).call (.delete d)
  | .committing removed =>
    { s.setDelete d .returned with
      published := Function.update s.published id (s.published id + if removed then 1 else 0) }
  | _ => s

/-- `CancelledError` reaches a `delete` : one that gathers cancels the task once more. -/
def deleteCancelled (d : ℕ) : JobRunner :=
  match s.deletePc d with
  | .gathering => (s.cancelTask (s.target d)).setDelete d .failed
  | _ => s.setDelete d .failed

/-! ## What happens -/

inductive Event
  /-- `submit` is called, and draws the id. -/
  | submit (id : ℕ)
  | delete (d id : ℕ)
  | shutdown
  /-- A party gets the lock of the database. -/
  | grant (p : Party)
  /-- The database runs the next operation. -/
  | run
  | resume (p : Party)
  | cancel (p : Party)
  /-- A job's task begins. -/
  | start (id : ℕ)
  | acquire (id : ℕ)
  | made (id : ℕ) (ok : Bool)
  | report (id : ℕ) (fraction : ℚ) (message : Option String)
  | finish (id : ℕ) (outcome : Outcome)
  | gathered (d : ℕ)
  | cleared (d : ℕ)
  deriving DecidableEq

def onGrant (p : Party) : Option JobRunner :=
  if s.calls p = .waiting ∧ s.lock = none ∧ s.pending p = false then
    some { s with
      lock := some p
      queue := s.queue ++ [(s.next, p, s.asks p)]
      next := s.next + 1
      calls := Function.update s.calls p (.sent s.next) }
  else none

def onRun : Option JobRunner :=
  match s.queue with
  | [] => none
  | (n, p, op) :: queue =>
    let calls := if s.calls p = .sent n then Function.update s.calls p (.ran (s.table.answer op))
      else s.calls
    some { s with table := s.table.apply op, queue, calls }

/-- The party's call is over, or given up : it holds the lock no more. -/
def hangUp (p : Party) : JobRunner :=
  { s with
    lock := if s.lock = some p then none else s.lock
    calls := Function.update s.calls p .idle }

def onResume (p : Party) : Option JobRunner :=
  match s.calls p with
  | .ran answer =>
    if s.pending p then none
    else some <| match p with
      | .submit id => (s.hangUp p).submitNext id answer
      | .job id => (s.hangUp p).jobNext id
      | .delete d => (s.hangUp p).deleteNext d answer
  | _ => none

/-- Whether the party is at an await. -/
def awaits : Party → Bool
  | .submit id => s.submitPc id ∈ [.inserting, .committing, .getting]
  | .job id => s.jobPc id ≠ .absent ∧ s.jobPc id ≠ .ended
  | .delete d => s.deletePc d ∉ [.idle, .returned, .busy, .failed]

def onCancel (p : Party) : Option JobRunner :=
  if s.awaits p then
    some <| match p with
      | .submit id => (s.hangUp p).setSubmit id .failed
      | .job id =>
        { s.hangUp p with requested := Function.update s.requested id false }.jobCancelled id
      | .delete d => (s.hangUp p).deleteCancelled d
  else none

def onFinish (id : ℕ) : Outcome → JobRunner
  | .returned result => s.update id (.done result)
  | .raised error => s.update id (.failed error)
  | .cancelled => s.leave.markCancelled id

/-- A job's task does a step of its own. -/
def ifAt (id : ℕ) (pc : JobPc) (s' : JobRunner) : Option JobRunner :=
  if s.jobPc id = pc ∧ s.requested id = false then some s' else none

def step (s : JobRunner) : Event → Option JobRunner
  | .submit id =>
    if s.submitPc id = .fresh ∧ s.named id = false ∧ s.closing = false then
      some ((s.setSubmit id .inserting).call (.submit id))
    else none
  | .delete d id =>
    if s.deletePc d = .idle then
      some (({ s with
        target := Function.update s.target d id
        named := Function.update s.named id true }.setDelete d .reading).call (.delete d))
    else none
  | .shutdown =>
    some { s with
      closing := true
      reason := fun id =>
        if s.tasks id then some ((s.reason id).getD (some shutdownReason)) else s.reason id
      requested := fun id => s.requested id || s.tasks id && s.jobPc id ≠ .ended }
  | .grant p => s.onGrant p
  | .run => s.onRun
  | .resume p => s.onResume p
  | .cancel p => s.onCancel p
  | .start id => s.ifAt id .created (s.setJob id .queued)
  | .acquire id =>
    if 0 < s.slots then s.ifAt id .queued ({ s with slots := s.slots - 1 }.setJob id .making)
    else none
  | .made id ok => s.ifAt id .making (if ok then s.update id .running else s.leave.endRun id)
  | .report id fraction message =>
    s.ifAt id .working (s.update id (.progress (max 0 (min 1 fraction)) message))
  | .finish id outcome => s.ifAt id .working (s.onFinish id outcome)
  | .gathered d =>
    if s.deletePc d = .gathering ∧ s.jobPc (s.target d) = .ended then
      some (s.setDelete d .clearing)
    else none
  | .cleared d =>
    if s.deletePc d = .clearing then some ((s.setDelete d .deleting).call (.delete d)) else none

end JobRunner

end Mtrtk
