import Mathlib.Algebra.Order.Ring.Rat
import Mathlib.Logic.Function.Basic
import Mathlib.Tactic.Common

/-!
# The link's ledger

`core/link.py` : `UbxLink` correlates requests with answers by key. A request registers one
waiter for each acceptable answer, in the queue of its key; `_deliver` hands a frame to the
head of its key's queue; `_retire` takes the waiters back. `_stale` holds, for an ACK key,
the deadlines of answers still owed to requests that gave up.

Waiters are objects the queues and the request share, so they live on a heap (`cell`) and
queues hold their addresses. Times are rationals. Of a frame the link reads its identity
and payload, `valget` also what `parsed()` found; `origin` is the number of the request the
receiver answers with it, which is not on the wire and nothing here reads.
-/

namespace Mtrtk

/-! ## Frames and keys -/

/-- `Frame.identity`, as far as the link tells identities apart. -/
inductive Ident
  | ackAck | ackNak | cfgValget | other (name : String)
  deriving DecidableEq, Repr

/-- `CfgValue`. -/
inductive CfgValue
  | bytes (value : List UInt8)
  | int (value : ℤ)
  deriving DecidableEq, Repr

/-- A value of a parsed message : bytes, or a number `int()` truncates. -/
inductive ParsedValue
  | bytes (value : List UInt8)
  | number (value : ℚ)
  deriving DecidableEq, Repr

/-- A frame on `RESPONSE_TOPICS`. -/
structure LinkFrame where
  identity : Ident
  payload : List UInt8
  parsed : List (String × ParsedValue)
  origin : ℕ
  deriving DecidableEq, Repr

/-- The keys of `_waiters` : `_ack_key`, or an identity. -/
inductive LinkKey
  | ack (cls mid : UInt8)
  | ident (name : Ident)
  deriving DecidableEq, Repr

/-- `key.startswith(ACK_KEY_PREFIX)`. -/
def LinkKey.isAck : LinkKey → Bool
  | .ack _ _ => true
  | .ident _ => false

/-- `_keys_for`. -/
def keysFor (frame : LinkFrame) : List LinkKey :=
  match frame.identity, frame.payload with
  | .ackAck, cls :: mid :: _ => [.ack cls mid]
  | .ackNak, cls :: mid :: _ => [.ack cls mid]
  | ident, _ => [.ident ident]

/-! ## The ledger -/

/-- `asyncio.Future`; `failed` is the exception `stop` sets. -/
inductive Future
  | pending
  | result (frame : LinkFrame)
  | failed
  | cancelled
  deriving DecidableEq, Repr

/-- `future.done()`. -/
def Future.done : Future → Bool
  | .pending => false
  | _ => true

/-- `done() and not cancelled() and exception() is None`. -/
def Future.answered : Future → Bool
  | .result _ => true
  | _ => false

/-- `_Waiter`. -/
structure Waiter where
  future : Future := .pending
  robbed : Bool := false
  deriving DecidableEq, Repr

/-- `UbxLink` : the queues, the credits, and the heap of waiters. An absent entry of a
dict is an empty queue. -/
structure Link where
  waiters : LinkKey → List ℕ := fun _ => []
  stale : LinkKey → List ℚ := fun _ => []
  cell : ℕ → Waiter := fun _ => {}
  fresh : ℕ := 0

namespace Link

/-- `_purge` : the credits for `key` that have not lapsed. -/
def purge (l : Link) (key : LinkKey) (now : ℚ) : Link :=
  { l with stale := Function.update l.stale key ((l.stale key).dropWhile (· ≤ now)) }

/-- `_spend_stale`. -/
def spendStale (l : Link) (key : LinkKey) (now : ℚ) : Bool × Link :=
  let l := l.purge key now
  match l.stale key with
  | [] => (false, l)
  | _ :: deadlines => (true, { l with stale := Function.update l.stale key deadlines })

/-- `queue[0].robbed = True`, if there is a queue. -/
def rob (l : Link) (key : LinkKey) : Link :=
  match l.waiters key with
  | [] => l
  | w :: _ => { l with cell := Function.update l.cell w { l.cell w with robbed := true } }

/-- `set_result`, unless the future is done. -/
def setResult (l : Link) (w : ℕ) (frame : LinkFrame) : Link :=
  if (l.cell w).future.done then l
  else { l with cell := Function.update l.cell w { l.cell w with future := .result frame } }

/-- The loop of `_deliver`. -/
def deliverTo (l : Link) (now : ℚ) (frame : LinkFrame) : List LinkKey → Link
  | [] => l
  | key :: keys =>
    let (spent, l) := l.spendStale key now
    if spent then l.rob key
    else
      match l.waiters key with
      | [] => l.deliverTo now frame keys
      | w :: queue => { l with waiters := Function.update l.waiters key queue }.setResult w frame

/-- `_deliver`. -/
def deliver (l : Link) (now : ℚ) (frame : LinkFrame) : Link :=
  l.deliverTo now frame (keysFor frame)

/-- The start of `_request` : a waiter for each key, in order. -/
def register (l : Link) : List LinkKey → List ℕ × Link
  | [] => ([], l)
  | key :: keys =>
    let l' : Link :=
      { l with waiters := Function.update l.waiters key (l.waiters key ++ [l.fresh]),
               cell := Function.update l.cell l.fresh {},
               fresh := l.fresh + 1 }
    (l.fresh :: (l'.register keys).1, (l'.register keys).2)

/-- The futures of a request's waiters, in the order of its keys. -/
def futures (l : Link) (ws : List ℕ) : List Future := ws.map fun w => (l.cell w).future

/-- The loop of `_retire`. -/
def retireEach (l : Link) (now timeout : ℚ) (unanswered : Bool) : List (LinkKey × ℕ) → Link
  | [] => l
  | (key, w) :: rest =>
    if (l.cell w).future.done then l.retireEach now timeout unanswered rest
    else
      let l' : Link :=
        { l with cell := Function.update l.cell w { l.cell w with future := .cancelled },
                 waiters := Function.update l.waiters key ((l.waiters key).erase w) }
      if unanswered && !(l.cell w).robbed && key.isAck then
        let l' := l'.purge key now
        { l' with
          stale := Function.update l'.stale key (l'.stale key ++ [now + timeout]) }.retireEach
            now timeout unanswered rest
      else l'.retireEach now timeout unanswered rest

/-- `_retire`. -/
def retire (l : Link) (now timeout : ℚ) (keys : List LinkKey) (ws : List ℕ) : Link :=
  l.retireEach now timeout (!(l.futures ws).any Future.answered) (keys.zip ws)

end Link

/-! ## One waiter of a key -/

/-- `w` is the one waiter in the queue of `key`, and is pending. -/
structure Link.Awaits (l : Link) (key : LinkKey) (w : ℕ) : Prop where
  queue : l.waiters key = [w]
  future : (l.cell w).future = .pending

/-- The waiter `w` has got `frame`, and the queue of `key` is empty. -/
structure Link.Got (l : Link) (key : LinkKey) (w : ℕ) (frame : LinkFrame) : Prop where
  queue : l.waiters key = []
  future : (l.cell w).future = .result frame

namespace Link

variable {l : Link} {now : ℚ} {frame : LinkFrame} {key key' : LinkKey} {w w' : ℕ}

/-- Where nothing is owed, a frame goes to the head of its queue. -/
theorem deliver_unowed (hk : keysFor frame = [key]) (hs : l.stale key = []) :
    l.deliver now frame =
      match l.waiters key with
      | [] => l
      | w :: queue =>
        { l with waiters := Function.update l.waiters key queue }.setResult w frame := by
  have hpurge : l.purge key now = l := by
    have : Function.update l.stale key [] = l.stale := by rw [← hs, Function.update_eq_self]
    simp [purge, hs, this]
  simp only [deliver, hk, deliverTo, spendStale, hpurge, hs, Bool.false_eq_true, if_false]

/-- An answer nobody waits for and nobody owes changes nothing. -/
theorem deliver_idle (hk : keysFor frame = [key]) (hs : l.stale key = [])
    (hq : l.waiters key = []) : l.deliver now frame = l := by
  rw [deliver_unowed hk hs, hq]

theorem deliver_stale_unowed (hk : keysFor frame = [key]) (hs : l.stale key = []) :
    (l.deliver now frame).stale = l.stale ∧ (l.deliver now frame).fresh = l.fresh := by
  rw [deliver_unowed hk hs]
  cases l.waiters key with
  | nil => exact ⟨rfl, rfl⟩
  | cons w queue =>
    simp only [setResult]
    split_ifs <;> exact ⟨rfl, rfl⟩

theorem Awaits.deliver (h : l.Awaits key w) (hk : keysFor frame = [key]) (hs : l.stale key = []) :
    (l.deliver now frame).Got key w frame := by
  have hd : (l.cell w).future.done = false := by rw [h.future]; rfl
  rw [deliver_unowed hk hs, h.queue]
  simp only [setResult, hd, Bool.false_eq_true, if_false]
  exact ⟨Function.update_self .., by simp⟩

/-- Delivering to another key leaves a key's waiter as it is. -/
theorem deliver_frame (hk : keysFor frame = [key]) (hs : l.stale key = []) (hne : key' ≠ key)
    (hw : ∀ v ∈ l.waiters key, v ≠ w') :
    (l.deliver now frame).waiters key' = l.waiters key' ∧
      (l.deliver now frame).cell w' = l.cell w' := by
  rw [deliver_unowed hk hs]
  cases hq : l.waiters key with
  | nil => exact ⟨rfl, rfl⟩
  | cons v queue =>
    have hv : w' ≠ v := fun h => hw v (by simp [hq]) h.symm
    simp only [setResult]
    split_ifs
    · exact ⟨Function.update_of_ne hne .., rfl⟩
    · exact ⟨Function.update_of_ne hne .., Function.update_of_ne hv ..⟩

/-- Where one answer is owed, the next frame within its window is discarded, and robs the
head of the queue. -/
theorem deliver_owed {c : ℚ} (hk : keysFor frame = [key]) (hs : l.stale key = [c]) (hlt : now < c) :
    l.deliver now frame = { l with stale := Function.update l.stale key [] }.rob key := by
  have hlive : ¬c ≤ now := not_le.2 hlt
  simp [deliver, hk, deliverTo, spendStale, purge, hs, hlive]

/-- After its window a credit is dropped, and the frame is delivered. -/
theorem deliver_lapsed {c : ℚ} (hk : keysFor frame = [key]) (hs : l.stale key = [c])
    (hle : c ≤ now) :
    l.deliver now frame =
      { l with stale := Function.update l.stale key [] }.deliver now frame := by
  simp [deliver, hk, deliverTo, spendStale, purge, hs, hle]

theorem Awaits.rob (h : l.Awaits key w) :
    (l.rob key).Awaits key w ∧ ((l.rob key).cell w).robbed = true := by
  rw [Link.rob, h.queue]
  exact ⟨⟨h.queue, by simp [h.future]⟩, by simp⟩

/-- A robbed waiter has not been answered. -/
theorem rob_future (l : Link) (key : LinkKey) : (l.rob key).waiters = l.waiters ∧
    (l.rob key).stale = l.stale ∧ ∀ w, ((l.rob key).cell w).future = (l.cell w).future := by
  rw [rob]
  cases l.waiters key with
  | nil => exact ⟨rfl, rfl, fun _ => rfl⟩
  | cons v queue =>
    refine ⟨rfl, rfl, fun w => ?_⟩
    rcases eq_or_ne w v with rfl | hne
    · simp
    · simp [Function.update_of_ne hne]

theorem rob_idle (hq : l.waiters key = []) : l.rob key = l := by
  rw [Link.rob, hq]

theorem Awaits.deliver_other (h : l.Awaits key' w') (hk : keysFor frame = [key])
    (hs : l.stale key = []) (hne : key' ≠ key) (hw : ∀ v ∈ l.waiters key, v ≠ w') :
    (l.deliver now frame).Awaits key' w' := by
  obtain ⟨hq, hc⟩ := deliver_frame hk hs hne hw
  exact ⟨hq.trans h.queue, hc ▸ h.future⟩

theorem Got.deliver_other {got : LinkFrame} (h : l.Got key' w' got) (hk : keysFor frame = [key])
    (hs : l.stale key = []) (hne : key' ≠ key) (hw : ∀ v ∈ l.waiters key, v ≠ w') :
    (l.deliver now frame).Got key' w' got := by
  obtain ⟨hq, hc⟩ := deliver_frame hk hs hne hw
  exact ⟨hq.trans h.queue, hc ▸ h.future⟩

end Link

/-! ## Requests -/

/-- How a request ends other than with a frame. -/
inductive LinkError
  | timeout | stopped | cancelled | nak | noData
  deriving DecidableEq, Repr

/-- What `_request` returns or raises once its wait is over. -/
def requestResult (futures : List Future) : Except LinkError LinkFrame :=
  match futures.find? Future.done with
  | some (.result frame) => .ok frame
  | some .failed => .error .stopped
  | some .cancelled => .error .cancelled
  | some .pending => .error .timeout
  | none => .error .timeout

/-- `value if isinstance(value, bytes) else int(value)`. -/
def ParsedValue.toCfg : ParsedValue → CfgValue
  | .bytes value => .bytes value
  | .number value => .int (value.num.tdiv value.den)

/-- The dict `valget` makes of a data frame. -/
def cfgValues (frame : LinkFrame) : List (String × CfgValue) :=
  (frame.parsed.filter fun item => item.1.startsWith "CFG_").map fun item => (item.1, item.2.toCfg)

/-- The key of a CFG-VALGET data frame. -/
def dataKey : LinkKey := .ident .cfgValget

/-- `_ack_key(*CFG_VALGET)`. -/
def valgetAckKey : LinkKey := .ack 0x06 0x8B

/-- The keys `valget` accepts, the data frame first. -/
def valgetKeys : List LinkKey := [dataKey, valgetAckKey]

/-- What `valget` makes of the outcome of its request. -/
def valgetResult : Except LinkError LinkFrame → Except LinkError (List (String × CfgValue))
  | .error e => .error e
  | .ok frame =>
    if frame.identity = .ackAck then .error .noData
    else if frame.identity ≠ .cfgValget then .error .nak
    else .ok (cfgValues frame)

/-- `_ack_key(*CFG_VALSET)`. -/
def valsetKey : LinkKey := .ack 0x06 0x8A

/-! ## A task that makes one request at a time -/

/-- A request under way. Its deadline is set once its bytes are written and the wait
begins. -/
structure Call where
  keys : List LinkKey
  waiters : List ℕ
  timeout : ℚ
  deadline : Option ℚ := none
  deriving DecidableEq, Repr

/-- The link, the task's request, and how its requests ended, in order. -/
structure Client where
  link : Link := {}
  now : ℚ := 0
  call : Option Call := none
  outcomes : List (Except LinkError LinkFrame) := []

namespace Client

/-- `_request` up to its write. -/
def issue (c : Client) (keys : List LinkKey) (timeout : ℚ) : Client :=
  { c with link := (c.link.register keys).2,
           call := some { keys := keys, waiters := (c.link.register keys).1, timeout := timeout } }

/-- The write is done, `asyncio.wait` begins. -/
def wrote (c : Client) (t : ℚ) : Option Client :=
  match c.call with
  | some ⟨keys, ws, timeout, none⟩ =>
    some { c with now := t, call := some ⟨keys, ws, timeout, some (t + timeout)⟩ }
  | _ => none

/-- The dispatcher takes a frame off its queue. -/
def hear (c : Client) (t : ℚ) (frame : LinkFrame) : Client :=
  { c with now := t, link := c.link.deliver t frame }

/-- The wait is over, by an answer or by its deadline : the request returns or raises. -/
def wake (c : Client) (t : ℚ) : Option Client :=
  match c.call with
  | some ⟨keys, ws, timeout, some deadline⟩ =>
    if (c.link.futures ws).any Future.done ∨ deadline ≤ t then
      some { link := c.link.retire t timeout keys ws, now := t, call := none,
             outcomes := c.outcomes ++ [requestResult (c.link.futures ws)] }
    else none
  | _ => none

end Client

end Mtrtk
