import Mathlib.Data.Rat.Defs
import Mathlib.Data.List.Sort
import Mathlib.Algebra.Order.Ring.Unbundled.Rat
import Mtrtk.Run

/-!
# The WebSocket hub

`web/ws.py` : one bus subscription for all sockets (`BusQueue`), one reader that turns each message
taken from it into messages for the clients that asked (`WsHub.dispatch`, in one piece), and for
each socket an outbox of its own with a task that sends (`WsClient`).

A step of the hub is what one of its tasks does between two awaits. The bus publishes, the reader
takes the next message, a socket connects and is served, its sender sends, its `serve` tears it
down, the hub shuts down, in any order.

`WsClient.offered` and `WsHub.dispatched` are what was put before a client and what was read from
the bus, from the start. `heard` is what a client that asked for some topics is to hear of a list of
bus messages.
-/

namespace Mtrtk

namespace Ws

/-! ## Topics -/

inductive Topic
  | pvt | sats | rtcm | svin | rf | span | ntrip | events | system | receiver | base | jobs
  | rawlog | daemon | rtk | survey | ins
  deriving DecidableEq, Repr

/-- `TOPICS`. -/
def topics : List Topic :=
  [.pvt, .sats, .rtcm, .svin, .rf, .span, .ntrip, .events, .system, .receiver, .base, .jobs,
    .rawlog, .daemon, .rtk, .survey, .ins]

def Topic.name : Topic → String
  | .pvt => "pvt"
  | .sats => "sats"
  | .rtcm => "rtcm"
  | .svin => "svin"
  | .rf => "rf"
  | .span => "span"
  | .ntrip => "ntrip"
  | .events => "events"
  | .system => "system"
  | .receiver => "receiver"
  | .base => "base"
  | .jobs => "jobs"
  | .rawlog => "rawlog"
  | .daemon => "daemon"
  | .rtk => "rtk"
  | .survey => "survey"
  | .ins => "ins"

/-- `EPOCH_TOPICS`, in the order of their sections in the bundle. -/
def epochTopics : List Topic := [.pvt, .sats, .rtcm, .svin, .rtk, .ins]

/-- `BUS_TO_TOPIC`. -/
def busToTopic : List (String × Topic) :=
  [("state.hardware", .rf), ("state.rf", .rf), ("state.spectrum", .span), ("ntrip.clients", .ntrip),
    ("events.new", .events), ("system.stats", .system), ("jobs.update", .jobs),
    ("jobs.deleted", .jobs), ("ntrip_client.status", .rtk), ("state.time_mark", .rtk),
    ("points.progress", .survey), ("points.saved", .survey), ("ins.config", .ins)]

/-- `PREFIX_TO_TOPIC`. -/
def prefixToTopic : List (String × Topic) :=
  [("receiver.", .receiver), ("base.", .base), ("rawlog.", .rawlog), ("daemon.", .daemon)]

/-- `topic_for`. -/
def topicFor (busTopic : String) : Option Topic :=
  (busToTopic.lookup busTopic).or
    ((prefixToTopic.find? fun p => p.1.toList.isPrefixOf busTopic.toList).map Prod.snd)

/-- `Subscription.matches`, of `BUS_PATTERNS`. -/
def matchesPatterns (busTopic : String) : Bool :=
  busTopic = "state.epoch" || (topicFor busTopic).isSome

/-- `set(topics) & set(TOPICS) or set(TOPICS)`. -/
def wantedTopics (asked : List String) : List Topic :=
  let known := topics.filter fun t => t.name ∈ asked
  if known = [] then topics else known

/-! ## Messages -/

variable {Item Json : Type}

/-- What goes to a socket. -/
inductive WsMessage (Json : Type)
  | snapshot (role : String) (topics : List String) (state : Json)
  | epoch (t : Json) (sections : List (Topic × Json))
  | update (topic : Topic) (source : String) (data : Json)

/-- How what the bus carries is turned into JSON : `_json`, which may raise, what the status of the
NTRIP client and an INS report have in its place, and the parts of a bundle. -/
structure Dump (Item Json : Type) where
  json : Item → Option Json
  withNtripAges : Json → ℚ → Option Json
  reportDict : Item → Option Json
  time : Item → Json
  bundled : Topic → Item → Json

/-- `sorted(topics)`. -/
def sortedNames (wanted : List Topic) : List String :=
  (wanted.map Topic.name).insertionSort (· ≤ ·)

/-- `snapshot_message`. -/
def snapshotMessage (role : String) (state : Json) (wanted : List Topic) : WsMessage Json :=
  .snapshot role (sortedNames wanted) state

/-- `epoch_message`. -/
def epochMessage (dump : Dump Item Json) (state : Item) (wanted : List Topic) : WsMessage Json :=
  .epoch (dump.time state)
    ((epochTopics.filter (· ∈ wanted)).map fun topic => (topic, dump.bundled topic state))

/-- The data of an update. -/
def updateData (dump : Dump Item Json) (busTopic : String) (item : Item) (now : ℚ) : Option Json :=
  (dump.json item).bind fun data =>
    if busTopic = "ntrip_client.status" then dump.withNtripAges data now
    else if busTopic = "ins.config" then dump.reportDict item
    else some data

/-! ## A client -/

/-- `SEND_QUEUE_LIMIT`. -/
def sendQueueLimit : ℕ := 50

/-- `SPAN_MIN_INTERVAL_S`. -/
def spanMinInterval : ℚ := 1

/-- `MAX_WS_CLIENTS`. -/
def maxWsClients : ℕ := 32

/-- `SLOW_CLIENT_CODE`, `GOING_AWAY_CODE`. -/
def slowClientCode : ℕ := 1008

def goingAwayCode : ℕ := 1001

/-- Where `serve` is : at the wait for its tasks, at the one for them to be cancelled, at the close
of a slow socket, at its end. -/
inductive ServePc
  | streaming | cancelling | closing | gone
  deriving DecidableEq, Repr

/-- `_Client`, and the tasks of its `serve`. `sending` is what its sender has taken from the outbox,
`since` how much had been read from the bus when it was added, `hangingUp` that the hub is to close
it. -/
structure WsClient (Json : Type) where
  topics : List Topic
  snapshot : WsMessage Json
  since : ℕ
  outbox : List (WsMessage Json) := []
  overflowed : Bool := false
  finished : Bool := false
  lastSpanMono : Option ℚ := none
  pc : ServePc := .streaming
  dropped : Bool := false
  sending : Option (WsMessage Json) := none
  sent : List (WsMessage Json) := []
  offered : List (WsMessage Json) := []
  hangingUp : Bool := false
  closes : List ℕ := []

/-- Whether a span is due, at the reading of the last one. -/
def spanDueAt (last : Option ℚ) (now : ℚ) : Bool :=
  last.all fun last => ¬now - last < spanMinInterval

namespace WsClient

variable (c : WsClient Json)

/-- `enqueue`. -/
def enqueue (msg : WsMessage Json) : WsClient Json :=
  if c.finished ∨ c.overflowed then c
  else if c.outbox.length < sendQueueLimit then
    { c with offered := c.offered ++ [msg], outbox := c.outbox ++ [msg] }
  else { c with offered := c.offered ++ [msg], overflowed := true }

/-- `span_due`, of a client that is asked. -/
def spanDue (now : ℚ) : Bool × WsClient Json :=
  if spanDueAt c.lastSpanMono now then (true, { c with lastSpanMono := some now }) else (false, c)

/-- What the outbox has taken. -/
def enqueued : List (WsMessage Json) := c.sent ++ (c.sending.toList ++ c.outbox)

/-- Whether it is in the set of the hub. -/
def served : Bool := c.pc ≠ .gone

end WsClient

/-- What happens in the tasks of one `serve`. -/
inductive ClientEvent
  /-- The sender gets a message, and sends it. -/
  | take
  | sent
  /-- The sender or the reader of the socket ends, or `serve` is cancelled. -/
  | ended
  /-- The wait for an overflow ends. -/
  | overflow
  /-- The tasks are cancelled. -/
  | gathered
  /-- The slow socket is closed. -/
  | closed
  /-- The close of a shutdown. -/
  | hungUp
  deriving DecidableEq, Repr

namespace WsClient

/-- `_hang_up`, of a client that is served. -/
def hangUp (c : WsClient Json) : WsClient Json :=
  if c.served then { c with finished := true, hangingUp := true } else c

/-- `serve`, from the wait to the next await. -/
def tearDown (c : WsClient Json) : WsClient Json :=
  { c with finished := true, dropped := c.overflowed, pc := .cancelling }

def step (c : WsClient Json) : ClientEvent → Option (WsClient Json)
  | .take =>
    match c.outbox, c.sending with
    | msg :: outbox, none =>
      if c.pc = .streaming then some { c with outbox, sending := some msg } else none
    | _, _ => none
  | .sent =>
    match c.sending with
    | some msg =>
      if c.pc = .streaming then some { c with sending := none, sent := c.sent ++ [msg] } else none
    | none => none
  | .ended => if c.pc = .streaming then some c.tearDown else none
  | .overflow => if c.pc = .streaming ∧ c.overflowed then some c.tearDown else none
  | .gathered =>
    if c.pc = .cancelling then some { c with pc := if c.dropped then .closing else .gone } else none
  | .closed =>
    if c.pc = .closing then
      some { c with closes := c.closes ++ [slowClientCode], pc := .gone }
    else none
  | .hungUp =>
    if c.hangingUp then
      some { c with hangingUp := false, closes := c.closes ++ [goingAwayCode] }
    else none

end WsClient

/-! ## The hub -/

/-- The subscription of the hub : what is queued, `none` for the sentinel of its end. -/
structure BusQueue (Item : Type) where
  queue : List (Option (String × Item)) := []
  closed : Bool := false

/-- `BUS_QUEUE_SIZE`. -/
def busQueueSize : ℕ := 256

namespace BusQueue

variable (q : BusQueue Item)

/-- `put_nowait`, after the oldest is dropped where there is no room. -/
def put (x : Option (String × Item)) : BusQueue Item :=
  if q.queue.length < busQueueSize then { q with queue := q.queue ++ [x] }
  else { q with queue := q.queue.tail ++ [x] }

/-- `offer`. -/
def offer (busTopic : String) (item : Item) : BusQueue Item :=
  if q.closed ∨ ¬matchesPatterns busTopic then q else q.put (some (busTopic, item))

/-- `close`. -/
def close : BusQueue Item := if q.closed then q else { q with closed := true }.put none

end BusQueue

/-- A message read from the bus, with the readings of the clock while it is dispatched. -/
structure Dispatched (Item : Type) where
  busTopic : String
  item : Item
  now : ℚ
  later : ℚ

inductive ReaderPc
  | notStarted | running | ended
  deriving DecidableEq, Repr

/-- `WsHub`. A client that is `gone` is no longer in its set. -/
structure WsHub (Item Json : Type) where
  sub : BusQueue Item := {}
  clients : List (WsClient Json) := []
  reader : ReaderPc := .notStarted
  closed : Bool := false
  dispatched : List (Dispatched Item) := []

inductive HubEvent (Item Json : Type)
  | publish (busTopic : String) (item : Item)
  | start
  /-- The reader takes the next message, and dispatches it. -/
  | read (now later : ℚ)
  /-- A socket is served, with the role and the state of the snapshot. -/
  | serve (asked : List String) (role : String) (state : Json)
  | client (i : ℕ) (e : ClientEvent)
  | close
  /-- `aclose`, up to its first await. -/
  | hangUp

namespace WsHub

variable (h : WsHub Item Json) (dump : Dump Item Json)

/-- `client_count`. -/
def clientCount : ℕ := h.clients.countP WsClient.served

/-- `start`. -/
def start : WsHub Item Json :=
  if h.reader = .notStarted ∧ ¬h.closed then { h with reader := .running } else h

/-- `_dispatch_epoch`. -/
def dispatchEpoch (state : Item) : List (WsClient Json) :=
  h.clients.map fun c =>
    let wanted := c.topics.filter (· ∈ epochTopics)
    if ¬c.served ∨ wanted = [] ∨ c.finished then c
    else c.enqueue (epochMessage dump state wanted)

/-- A client, and whether it is interested. -/
def interest (topic : Topic) (now : ℚ) (c : WsClient Json) : Bool × WsClient Json :=
  if c.served ∧ topic ∈ c.topics ∧ ¬c.finished then
    if topic = .span then c.spanDue now else (true, c)
  else (false, c)

/-- `_dispatch`, of an update. -/
def dispatchUpdate (d : Dispatched Item) (topic : Topic) : List (WsClient Json) :=
  let asked := h.clients.map (interest topic d.now)
  match updateData dump d.busTopic d.item d.later with
  | none => asked.map Prod.snd
  | some data =>
    asked.map fun c => if c.1 then c.2.enqueue (.update topic d.busTopic data) else c.2

/-- `_dispatch`. -/
def dispatch (d : Dispatched Item) : List (WsClient Json) :=
  if h.clientCount = 0 then h.clients
  else if d.busTopic = "state.epoch" then h.dispatchEpoch dump d.item
  else
    match topicFor d.busTopic with
    | none => h.clients
    | some topic => h.dispatchUpdate dump d topic

/-- `serve`, up to its first await. A socket that is refused is closed, and the hub stays as it
is. -/
def serve (asked : List String) (role : String) (state : Json) : WsHub Item Json :=
  if h.closed ∨ maxWsClients ≤ h.clientCount then h
  else
    let wanted := wantedTopics asked
    let snapshot := snapshotMessage role state wanted
    let client := { topics := wanted, snapshot, since := h.dispatched.length : WsClient Json }
    { h.start with clients := h.clients ++ [client.enqueue snapshot] }

def step (h : WsHub Item Json) : HubEvent Item Json → Option (WsHub Item Json)
  | .publish busTopic item => some { h with sub := h.sub.offer busTopic item }
  | .start => some h.start
  | .read now later =>
    match h.reader, h.sub.queue with
    | .running, some (busTopic, item) :: queue =>
      let d := { busTopic, item, now, later }
      some { h with
        sub := { h.sub with queue }
        clients := h.dispatch dump d
        dispatched := h.dispatched ++ [d] }
    | .running, none :: queue => some { h with sub := { h.sub with queue }, reader := .ended }
    | _, _ => none
  | .serve asked role state => some (h.serve asked role state)
  | .client i e =>
    (h.clients[i]?).bind fun c =>
      (c.step e).map fun c => { h with clients := h.clients.set i c }
  | .close => some { h with closed := true, sub := h.sub.close }
  | .hangUp =>
    some { h with
      closed := true
      sub := h.sub.close
      clients := h.clients.map WsClient.hangUp }

end WsHub

/-! ## What a client is to hear -/

/-- What one more bus message adds for a client of these topics, with the reading of the last span
it was due. -/
def hear (dump : Dump Item Json) (wanted : List Topic) (acc : Option ℚ × List (WsMessage Json))
    (d : Dispatched Item) : Option ℚ × List (WsMessage Json) :=
  if d.busTopic = "state.epoch" then
    let sections := wanted.filter (· ∈ epochTopics)
    if sections = [] then acc else (acc.1, acc.2 ++ [epochMessage dump d.item sections])
  else
    match topicFor d.busTopic with
    | none => acc
    | some topic =>
      let msgs := ((updateData dump d.busTopic d.item d.later).map
        (WsMessage.update topic d.busTopic)).toList
      if topic ∉ wanted then acc
      else if topic = .span then
        if spanDueAt acc.1 d.now then (some d.now, acc.2 ++ msgs) else acc
      else (acc.1, acc.2 ++ msgs)

/-- What a client of these topics is to hear of bus messages, from the beginning. -/
def heard (dump : Dump Item Json) (wanted : List Topic) (ds : List (Dispatched Item)) :
    Option ℚ × List (WsMessage Json) :=
  ds.foldl (hear dump wanted) (none, [])

end Ws

end Mtrtk
