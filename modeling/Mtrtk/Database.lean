import Mathlib.Logic.Function.Basic
import Mtrtk.Run

/-!
# One connection for every task

`store/db.py` : `Database.transaction`, `_owns_transaction`, `_serialised`, `execute`,
`executemany`, `fetchall`, `fetchone` and `commit`, with any number of tasks that call them.

An operation is submitted to the thread of the connection, which runs what was submitted in order,
awaited or not (`run`). A task goes on when the result is delivered to it (`resume`), or is
cancelled at an await (`cancel`). Between the calls it runs code of its own (`Pc.code`), in the body
of a transaction or outside : there it may call what it likes, and a body ends by itself (`leave`)
or by an exception, a cancellation among them (`raise`). The lock goes to any task that waits for
it.

SQLite is its transactions and nothing else : BEGIN opens one, and fails while one is open; COMMIT
keeps what was done since, ROLLBACK drops it, and without one open they do nothing. Any operation
may fail, and does nothing then. A transaction has the number of its BEGIN (`body`), which the
source does not keep.
-/

namespace Mtrtk

namespace Database

inductive Call
  | transaction | execute | executemany | fetchall | fetchone | commit
  deriving DecidableEq, Repr

/-- What is submitted to the connection, with the transaction it was submitted in. -/
inductive Op
  | begin (body : ℕ)
  | stmt (body : Option ℕ)
  | commit (body : Option ℕ)
  | rollback (body : ℕ)
  deriving DecidableEq, Repr

structure Submitted where
  id : ℕ
  task : ℕ
  op : Op
  deriving DecidableEq, Repr

/-- Where a task is. An await has the number of the operation awaited. -/
inductive Pc
  /-- It runs code of its own, in the body of a transaction or outside. -/
  | code (body : Option ℕ)
  | locking (call : Call)
  /-- `transaction()`, or that of `executemany`, awaits its BEGIN. -/
  | beginning (call : Call) (id : ℕ)
  /-- The transaction of `executemany` awaits its statement. -/
  | batch (body id : ℕ)
  /-- A call in the body of the task's own transaction awaits its statement, and has the rows to
  fetch after it or not. -/
  | inner (body : Option ℕ) (id : ℕ) (fetch : Bool)
  /-- A call under the lock does. -/
  | outer (id : ℕ) (fetch : Bool)
  | committing (id : ℕ)
  | rollingBack (id : ℕ)
  deriving DecidableEq, Repr

end Database

/-- The connection : the task and the number of the transaction that is open, and the statements
done in it and kept, each with its task and transaction. -/
structure Connection where
  opener : Option (ℕ × ℕ) := none
  uncommitted : List (ℕ × Option ℕ) := []
  committed : List (ℕ × Option ℕ) := []
  deriving Repr

namespace Connection

/-- The operation succeeds. -/
def run (c : Connection) (x : Database.Submitted) : Option Connection :=
  match x.op with
  | .begin body => if c.opener.isNone then some { c with opener := some (x.task, body) } else none
  | .stmt body =>
    if c.opener.isSome then some { c with uncommitted := c.uncommitted ++ [(x.task, body)] }
    else some { c with committed := c.committed ++ [(x.task, body)] }
  | .commit _ =>
    some { opener := none, uncommitted := [], committed := c.committed ++ c.uncommitted }
  | .rollback _ => some { opener := none, uncommitted := [], committed := c.committed }

end Connection

structure Database where
  conn : Connection := {}
  /-- What was submitted and not run. -/
  queue : List Database.Submitted := []
  /-- The number of the next operation. -/
  next : ℕ := 0
  /-- Whether an operation that was run succeeded. -/
  result : ℕ → Option Bool := fun _ => none
  lock : Option ℕ := none
  txTask : Option ℕ := none
  pc : ℕ → Database.Pc := fun _ => .code none
  /-- The transactions whose body raised or was cancelled. -/
  raised : List ℕ := []

namespace Database

variable (s : Database) (t : ℕ)

def goto (pc : Pc) : Database := { s with pc := Function.update s.pc t pc }

/-- `await self.conn.<op>` : the operation is submitted, and its result awaited at `pc`. -/
def submit (op : Op) (pc : ℕ → Pc) : Database :=
  { s with
    queue := s.queue ++ [⟨s.next, t, op⟩]
    next := s.next + 1
    pc := Function.update s.pc t (pc s.next) }

/-- The lock is released, and the call is over. -/
def release : Database := { s with lock := none, pc := Function.update s.pc t (.code none) }

/-! ## The methods -/

/-- `_owns_transaction`. -/
def ownsTransaction : Bool := s.txTask = some t

/-- `transaction` : BEGIN has succeeded, and the body begins. That of `executemany` is its
statement. -/
def enter (call : Call) (body : ℕ) : Database :=
  let s := { s with txTask := some t }
  if call = .executemany then s.submit t (.stmt (some body)) (.batch body)
  else s.goto t (.code (some body))

/-- `transaction` : the body is over. -/
def bodyDone (body : ℕ) : Database := s.submit t (.commit (some body)) .committing

/-- `transaction` : the body raised. -/
def bodyRaised (body : ℕ) : Database :=
  { s with raised := body :: s.raised }.submit t (.rollback body) .rollingBack

/-- `transaction` : its `finally`, and the lock after it. -/
def exit : Database := { s with txTask := none }.release t

/-- A call in the body of the task's own transaction : `_serialised` passes straight through,
`commit` leaves the end to `transaction`, and `transaction` raises. -/
def callInside (body : Option ℕ) : Call → Database
  | .transaction | .commit => s
  | .execute | .executemany => s.submit t (.stmt body) (.inner body · false)
  | .fetchall | .fetchone => s.submit t (.stmt body) (.inner body · true)

/-- A call that got the lock. -/
def callLocked : Call → Database
  | .transaction => s.submit t (.begin s.next) (.beginning .transaction)
  | .executemany => s.submit t (.begin s.next) (.beginning .executemany)
  | .execute => s.submit t (.stmt none) (.outer · false)
  | .fetchall | .fetchone => s.submit t (.stmt none) (.outer · true)
  | .commit => s.submit t (.commit none) (.outer · false)

/-! ## What happens -/

inductive Event
  | call (t : ℕ) (call : Call)
  | acquire (t : ℕ)
  /-- The connection runs the next operation. -/
  | run (ok : Bool)
  | resume (t : ℕ)
  | cancel (t : ℕ)
  | leave (t : ℕ)
  | raise (t : ℕ)
  deriving DecidableEq, Repr

def onCall (call : Call) : Option Database :=
  match s.pc t with
  | .code body =>
    if s.ownsTransaction t then some (s.callInside t body call) else some (s.goto t (.locking call))
  | _ => none

def onAcquire : Option Database :=
  match s.pc t, s.lock with
  | .locking call, none => some ({ s with lock := some t }.callLocked t call)
  | _, _ => none

def onRun (ok : Bool) : Option Database :=
  match s.queue with
  | [] => none
  | x :: queue =>
    let s := { s with queue, result := Function.update s.result x.id (some ok) }
    if ok then (s.conn.run x).map fun conn => { s with conn } else some s

def onResume : Option Database :=
  match s.pc t with
  | .beginning call id =>
    (s.result id).map fun ok => if ok then s.enter t call id else s.release t
  | .batch body id =>
    (s.result id).map fun ok => if ok then s.bodyDone t body else s.bodyRaised t body
  | .inner body id fetch =>
    (s.result id).map fun ok =>
      if ok && fetch then s.submit t (.stmt body) (.inner body · false) else s.goto t (.code body)
  | .outer id fetch =>
    (s.result id).map fun ok =>
      if ok && fetch then s.submit t (.stmt none) (.outer · false) else s.release t
  | .committing id | .rollingBack id => (s.result id).map fun _ => s.exit t
  | .code _ | .locking _ => none

/-- `CancelledError` at an await on the lock or on an operation. A body may go on after it. -/
def onCancel : Option Database :=
  match s.pc t with
  | .locking _ => some (s.goto t (.code none))
  | .beginning _ _ | .outer _ _ => some (s.release t)
  | .batch body _ => some (s.bodyRaised t body)
  | .inner body _ _ => some (s.goto t (.code body))
  | .committing _ | .rollingBack _ => some (s.exit t)
  | .code _ => none

/-- The body of a transaction ends, by itself or by an exception. -/
def onEnd (raised : Bool) : Option Database :=
  match s.pc t with
  | .code (some body) => some (if raised then s.bodyRaised t body else s.bodyDone t body)
  | _ => none

def step (s : Database) : Event → Option Database
  | .call t call => s.onCall t call
  | .acquire t => s.onAcquire t
  | .run ok => s.onRun ok
  | .resume t => s.onResume t
  | .cancel t => s.onCancel t
  | .leave t => s.onEnd t false
  | .raise t => s.onEnd t true

/-! ## What a run may do to it -/

/-- No task is cancelled while it awaits its BEGIN, unless that failed, and what ends a
transaction does not fail. -/
def spared (s : Database) : Event → Bool
  | .cancel t =>
    match s.pc t with
    | .beginning _ id => s.result id = some false
    | _ => true
  | .run false =>
    match s.queue with
    | ⟨_, _, .commit _⟩ :: _ | ⟨_, _, .rollback _⟩ :: _ => s.conn.opener.isNone
    | _ => true
  | _ => true

/-- No task is cancelled before the COMMIT or ROLLBACK it awaits has been run. -/
def prompt (s : Database) : Event → Bool
  | .cancel t =>
    match s.pc t with
    | .committing id | .rollingBack id => (s.result id).isSome
    | _ => true
  | _ => true

end Database

end Mtrtk
