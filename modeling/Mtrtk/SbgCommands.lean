import Mtrtk.Device
import Mtrtk.Run
import Mtrtk.SbgFraming

/-!
# Commands to the SBG unit

`rover/drivers/sbg/commands.py` over `InsController.request`. A call of `get` or `set` waits for the
command lock, then tries up to `retries` times : it registers a waiter, writes its frame under the
write lock and waits for a frame that matches. Locks are taken in the order of asking.

The machine has every timing. A frame that is written is in the transport and leaves it at any time
behind those before it, be `source.write` over or the call. The unit handles what reaches it in
order and answers each frame. An answer takes any time, may be lost, and may come after the try that
it is for, or after the call. The protocol has no sequence numbers, so such an answer may be taken
for that to a later call. Calls are polite where a late answer to the one cannot be taken for that
to the next : nothing is under way, or the last call was answered and is `Apart` from the next one.

`commands_atomic` : then the calls that are over are served as if each was handled by the unit at
once, and what a call returns is the unit's answer to it. A call that was resent is handled once.
-/

namespace Mtrtk

namespace Sbg

/-! ## Frames -/

/-- `CMD_CLASS`. -/
def cmdClass : UInt8 := 0x10

/-- `CMD["ACK"]`. -/
def ack : UInt8 := 0

/-- `CMD["SETTINGS_ACTION"]`. -/
def settingsAction : UInt8 := 1

/-- `Frame.payload` of an sbgECom frame. -/
def payloadOf (raw : List UInt8) : List UInt8 :=
  if isExtended raw then slice raw 11 (raw.length - 3) else slice raw 6 (raw.length - 3)

/-- `_is_cmd_frame`. -/
def isCmdFrame (f : Frame) (msgId : UInt8) : Bool :=
  f.proto = .sbg && byteAt f.raw 3 = cmdClass && byteAt f.raw 2 = msgId

/-- The error code of `_ack_fields`. -/
def ackCode (f : Frame) : ℕ :=
  (byteAt (payloadOf f.raw) 2).toNat + 256 * (byteAt (payloadOf f.raw) 3).toNat

/-- `_is_ack_for`. -/
def isAckFor (f : Frame) (cmd : UInt8) : Bool :=
  isCmdFrame f ack && 4 ≤ (payloadOf f.raw).length && byteAt (payloadOf f.raw) 0 = cmd &&
    byteAt (payloadOf f.raw) 1 = cmdClass

/-! ## Calls -/

/-- A command other than `ACK`. -/
structure Command where
  id : UInt8
  ne_ack : id ≠ ack
  deriving DecidableEq

/-- What `get` or `set` is called with. -/
inductive Request
  | get (cmd : Command) (selector : List UInt8)
  | set (cmd : Command) (payload : List UInt8)
  deriving DecidableEq

namespace Request

def command : Request → Command
  | get cmd _ => cmd
  | set cmd _ => cmd

/-- `encode(CMD_CLASS, cmd, …)`. -/
def frame : Request → Except String (List UInt8)
  | get cmd selector => encode cmdClass.toNat cmd.id.toNat selector
  | set cmd payload => encode cmdClass.toNat cmd.id.toNat payload

/-- `match`. -/
def accepts (f : Frame) : Request → Bool
  | get cmd selector =>
    if isCmdFrame f cmd.id then selector.isPrefixOf (payloadOf f.raw)
    else isAckFor f cmd.id && ackCode f ≠ 0
  | set cmd _ => isAckFor f cmd.id

/-- `retries` : a save or a reboot is sent once, all else up to `DEFAULT_RETRIES` times. -/
def retries (r : Request) : ℕ := if r.command.id = settingsAction then 1 else 3

end Request

/-- How a call ends. -/
inductive Outcome
  | reply (payload : List UInt8)
  | acked
  /-- `SbgCommandError` with a code. -/
  | refused (code : ℕ)
  /-- `SbgCommandError` without a code. -/
  | noAnswer
  /-- `ConnectionError`. -/
  | linkLost
  /-- The `ValueError` of `encode`. -/
  | invalid (message : String)
  | cancelled
  deriving DecidableEq, Repr

/-- The unit has answered. -/
def Outcome.answer : Outcome → Option Outcome
  | reply payload => some (reply payload)
  | acked => some acked
  | refused code => some (refused code)
  | _ => none

/-- What a call makes of the frame that it gets. -/
def Request.outcome (f : Frame) : Request → Outcome
  | .get _ _ => if byteAt f.raw 2 = ack then .refused (ackCode f) else .reply (payloadOf f.raw)
  | .set _ _ => if ackCode f ≠ 0 then .refused (ackCode f) else .acked

/-! ## The unit -/

/-- A unit, by what it reports of its state and how it takes a setting. A code of 0 is no
refusal. -/
structure SbgUnit (υ : Type*) where
  report : υ → Command → List UInt8 → Except UInt16 (List UInt8)
  code_ne : ∀ u cmd selector code, report u cmd selector = .error code → code ≠ 0
  apply : υ → Command → List UInt8 → υ × UInt16

variable {υ : Type*}

/-- The unit that is called at once. -/
def SbgUnit.called (sbg : SbgUnit υ) : Device υ Request Outcome where
  handle u
    | .get cmd selector =>
      match sbg.report u cmd selector with
      | .ok data => (u, .reply (selector ++ data))
      | .error code => (u, .refused code.toNat)
    | .set cmd payload =>
      let taken := sbg.apply u cmd payload
      (taken.1, if taken.2 = 0 then .acked else .refused taken.2.toNat)

/-- A frame with data. -/
def dataFrame (cmd : Command) (payload : List UInt8) : Frame :=
  ⟨.sbg, frameBytes cmdClass cmd.id payload⟩

/-- An `ACK`. -/
def ackFrame (cmd : Command) (code : UInt16) : Frame :=
  ⟨.sbg, frameBytes cmdClass ack (cmd.id :: cmdClass :: packU16 code.toNat)⟩

/-- The unit at the other end of the line : a reply echoes the selector. -/
def SbgUnit.wired (sbg : SbgUnit υ) : Device υ Request Frame where
  handle u
    | .get cmd selector =>
      match sbg.report u cmd selector with
      | .ok data => (u, dataFrame cmd (selector ++ data))
      | .error code => (u, ackFrame cmd code)
    | .set cmd payload =>
      let taken := sbg.apply u cmd payload
      (taken.1, ackFrame cmd taken.2)

/-! ## The channel -/

/-- Where a try stands. -/
inductive Phase
  /-- Its waiter is registered, and it waits for the write lock. -/
  | locking
  /-- In `source.write`, which has handed the frame to the transport. -/
  | writing
  /-- In `asyncio.wait_for`. -/
  | waiting
  deriving DecidableEq, Repr

/-- The call that holds the command lock. `left` tries are left after this one, `sent` frames were
written, and `got` is the future of its waiter, with an error once the link is lost. -/
structure Exchange where
  request : Request
  left : ℕ
  sent : ℕ := 0
  phase : Phase := .locking
  got : Option (Except Unit Frame) := none

/-- A call that is over. -/
structure Call where
  request : Request
  sent : ℕ
  outcome : Outcome

/-- The controller and the calls, with the frames in the transport, by what they ask, the unit and
its answers that are under way. -/
structure Channel (υ : Type*) where
  connected : Bool := false
  queue : List Request := []
  current : Option Exchange := none
  calls : List Call := []
  outbox : List Request := []
  unit : υ
  line : List Frame := []

inductive ChannelEvent
  | connect
  /-- The session ends : `_fail_waiters`. -/
  | drop
  | call (r : Request)
  /-- A call is cancelled that waits for the lock. -/
  | leave (i : ℕ)
  | acquire
  | takeWriteLock
  /-- The next frame leaves the transport. It reaches the unit, or not. -/
  | transmit (arrives : Bool)
  /-- `source.write` returns, whatever is still in the transport. -/
  | wrote
  /-- `source.write` raises, or does not drain. -/
  | stall
  /-- The next answer is routed. -/
  | deliver
  /-- The next answer is lost. -/
  | lose
  /-- A frame that is no answer is routed. -/
  | other (f : Frame)
  | timeout
  /-- The call goes on with what its waiter got. -/
  | wake
  | cancel

namespace Channel

/-- A call is over. -/
def finish (s : Channel υ) (ex : Exchange) (outcome : Outcome) : Channel υ :=
  { s with current := none, calls := s.calls ++ [⟨ex.request, ex.sent, outcome⟩] }

/-- `request`, up to the write lock. -/
def attempt (s : Channel υ) (ex : Exchange) : Channel υ :=
  match ex.request.frame with
  | .error message => s.finish ex (.invalid message)
  | .ok _ =>
    if s.connected then { s with current := some { ex with phase := .locking, got := none } }
    else s.finish ex .linkLost

/-- The head of the loop of `get` and `set`. -/
def tries (s : Channel υ) (ex : Exchange) : Channel υ :=
  match ex.left with
  | 0 => s.finish ex .noAnswer
  | left + 1 => s.attempt { ex with left := left }

/-- `_resolve_waiters`. -/
def resolve (s : Channel υ) (f : Frame) : Channel υ :=
  { s with current := s.current.map fun ex =>
    { ex with got := if ex.got.isNone && ex.request.accepts f then some (.ok f) else ex.got } }

variable (sbg : SbgUnit υ)

/-- The frame of `ex` is handed to the transport. -/
def write (s : Channel υ) (ex : Exchange) : Channel υ :=
  { s with
    current := some { ex with phase := .writing, sent := ex.sent + 1 }
    outbox := s.outbox ++ [ex.request] }

/-- The unit handles a frame. -/
def handled (s : Channel υ) (r : Request) : Channel υ :=
  { s with
    unit := (sbg.wired.handle s.unit r).1
    line := s.line ++ [(sbg.wired.handle s.unit r).2] }

/-- What an event makes of the call that holds the lock. -/
def stepCurrent (s : Channel υ) (ex : Exchange) : ChannelEvent → Option (Channel υ)
  | .takeWriteLock =>
    if ex.phase = .locking then
      some (if s.connected then s.write ex else s.finish ex .linkLost)
    else none
  | .wrote =>
    if ex.phase = .writing then some { s with current := some { ex with phase := .waiting } }
    else none
  | .stall => if ex.phase = .writing then some (s.finish ex .linkLost) else none
  | .timeout => if ex.phase = .waiting then some (s.tries ex) else none
  | .wake =>
    if ex.phase = .waiting then
      ex.got.map fun
        | .ok f => s.finish ex (ex.request.outcome f)
        | .error _ => s.finish ex .linkLost
    else none
  | .cancel => some (s.finish ex .cancelled)
  | _ => none

/-- The channel after an event. -/
def step (s : Channel υ) : ChannelEvent → Option (Channel υ)
  | .connect => if s.connected then none else some { s with connected := true }
  | .drop =>
    if s.connected then
      some { s with
        connected := false
        current := s.current.map fun ex => { ex with got := ex.got.or (some (.error ())) } }
    else none
  | .call r => some { s with queue := s.queue ++ [r] }
  | .leave i => if i < s.queue.length then some { s with queue := s.queue.eraseIdx i } else none
  | .acquire =>
    match s.current, s.queue with
    | none, r :: queue => some ({ s with queue := queue }.tries { request := r, left := r.retries })
    | _, _ => none
  | .transmit arrives =>
    match s.outbox with
    | r :: outbox =>
      let s := { s with outbox := outbox }
      some (if arrives then s.handled sbg r else s)
    | [] => none
  | .deliver =>
    match s.line with
    | f :: line => if s.connected then some ({ s with line := line }.resolve f) else none
    | [] => none
  | .lose => if s.line = [] then none else some { s with line := s.line.tail }
  | .other f =>
    if s.connected ∧ ¬(f.proto = .sbg ∧ byteAt f.raw 3 = cmdClass) then some (s.resolve f) else none
  | e => s.current.bind fun ex => s.stepCurrent ex e

end Channel

/-! ## Calls that are apart -/

/-- No answer to `r`, which has ended with `outcome`, is taken for that to `r'` : they are other
commands, or a late data frame has another selector or follows the call of a `set`, or a late `ACK`
is no error and no `set` waits for it. -/
def Apart (r : Request) (outcome : Outcome) (r' : Request) : Prop :=
  r.command ≠ r'.command ∨
    match r, outcome, r' with
    | .get _ selector, .reply _, .get _ selector' => selector.length = selector'.length
    | .get _ _, .reply _, .set _ _ => True
    | .set _ _, .acked, .get _ _ => True
    | _, _, _ => False

instance (r : Request) (outcome : Outcome) (r' : Request) : Decidable (Apart r outcome r') := by
  unfold Apart
  rcases r with _ | _ <;> rcases outcome with _ | _ | _ | _ | _ | _ | _ <;>
    rcases r' with _ | _ <;> infer_instance

/-- A call may begin. -/
def politeTo (s : Channel υ) (r : Request) : Bool :=
  (s.outbox = [] ∧ s.line = []) || s.calls.getLast?.any fun last =>
    last.outcome.answer.isSome && decide (Apart last.request last.outcome r)

/-- Calls begin only where they are polite. -/
def polite (s : Channel υ) : ChannelEvent → Bool
  | .acquire => s.queue.head?.all (politeTo s)
  | _ => true

end Sbg

end Mtrtk
