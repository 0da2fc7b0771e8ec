import Mathlib.Data.Rat.Defs
import Mathlib.Algebra.Order.Ring.Rat
import Mtrtk.NtripWire
import Mtrtk.Run

/-!
# The caster's streams

`base/ntrip_caster.py` : the feed (`_on_frame`), a handler for each rover (`_serve_stream`,
`_write_loop`, `_finish_stream`, `_teardown`), the reader of its GGA sentences and `stop`. A
handler runs from one `await` to the next as a step, and `CasterClient.Pc` is the `await` it
stands at.
The bounded queue is all that the tasks share of a stream, and its empty frame is the request to
end it.

`Caster.stream_of_client` says what one rover is written, over all the ways the tasks interleave.
It rests on what each step does to one client : `CasterClient.Inv` is kept, and once a stream has a
stop reason it only moves on (`CasterClient.Later`).
-/

namespace Mtrtk

/-! ## One rover -/

def clientQueueFrames : ℕ := 64
def slowClientBytes : ℕ := 256 * 1024
def slowClientGraceS : ℚ := 10

/-- What the handler of a rover awaits : its log row, a frame, the drain of a frame, the drain of
the end, the GGA reader, and nothing any more. -/
inductive CasterClient.Pc
  | logging
  | getting
  | draining
  | finishing
  | leaving
  | closed
  deriving DecidableEq, Repr

/-- `_Client`, with its place in `_conns`, its handler and its GGA reader. `sent` are the writes
after the response head, and `offered` the frames it was offered. -/
structure CasterClient where
  v2 : Bool
  queue : List (List UInt8) := []
  dropped : ℕ := 0
  slowSince : Option ℚ := none
  stopReason : Option String := none
  bytesSent : ℕ := 0
  droppedFrames : ℕ := 0
  registered : Bool := false
  gga : Bool := false
  pc : CasterClient.Pc := .logging
  reason : String := "client closed"
  sent : List (List UInt8) := []
  offered : List (List UInt8) := []
  deriving DecidableEq, Repr

namespace CasterClient

/-- `wire`. -/
def wire (c : CasterClient) (raw : List UInt8) : List UInt8 := clientWire c.v2 raw

/-- `writer.write`, and the count of it. -/
def write (c : CasterClient) (payload : List UInt8) : CasterClient :=
  { c with sent := c.sent ++ [payload], bytesSent := c.bytesSent + payload.length }

/-- `_offer`. -/
def offer (c : CasterClient) (raw : List UInt8) : CasterClient :=
  if c.queue.length < clientQueueFrames then { c with queue := c.queue ++ [raw] }
  else { c with queue := c.queue.tail ++ [raw], dropped := c.dropped + 1 }

/-- A frame of the feed or of the cache is offered. -/
def offerFrame (c : CasterClient) (raw : List UInt8) : CasterClient :=
  { c.offer raw with offered := c.offered ++ [raw] }

/-- `_end`. -/
def endStream (c : CasterClient) (reason : String) : CasterClient :=
  { c with stopReason := c.stopReason.or (some reason) }.offer []

/-- `_finish_stream`, up to its drain. -/
def finishStream (c : CasterClient) : CasterClient :=
  { c.write (c.wire []) with
    queue := [], pc := .finishing, reason := c.stopReason.getD "caster stopped" }

/-- `_write_loop`, from the frame it got to its drain. -/
def writeFrame (c : CasterClient) (raw : List UInt8) (closing : Bool) : CasterClient :=
  let c := { c.write (c.wire raw) with droppedFrames := c.dropped }
  if closing then { c with pc := .leaving, reason := "client closed" }
  else { c with pc := .draining }

/-- `conn.slow_since or now`. -/
def slowFrom (c : CasterClient) (now : ℚ) : ℚ := (c.slowSince.filter (· ≠ 0)).getD now

/-- `_write_loop`, behind its drain, with the unsent bytes and the time it finds. -/
def poll (c : CasterClient) (size : ℕ) (now : ℚ) : CasterClient :=
  if size > slowClientBytes then
    let since := c.slowFrom now
    if now - since > slowClientGraceS then
      { c with
        slowSince := some since
        stopReason := c.stopReason.or (some "slow client") }.finishStream
    else { c with slowSince := some since, pc := .getting }
  else { c with slowSince := none, pc := .getting }

/-- What happens to one rover alone : an `await` of its handler returns or raises, or its GGA
reader ends. -/
inductive Event
  | logged
  | got (closing : Bool)
  | drained (size : ℕ) (now : ℚ)
  | failed (error : String)
  | finished
  | cancelled
  | ggaEnded
  | ggaCancelled
  | popped
  deriving DecidableEq, Repr

/-- The handler can be cancelled : its teardown is shielded. -/
def Pc.cancellable : Pc → Bool
  | .leaving => false
  | .closed => false
  | _ => true

/-- One step of one rover's tasks. -/
def step (c : CasterClient) : Event → Option CasterClient
  | .logged => if c.pc = .logging then some { c with pc := .getting, gga := true } else none
  | .got closing =>
    match c.pc, c.queue with
    | .getting, raw :: queue =>
      let c := { c with queue }
      some (if c.stopReason.isSome then c.finishStream else c.writeFrame raw closing)
    | _, _ => none
  | .drained size now => if c.pc = .draining then some (c.poll size now) else none
  | .failed error =>
    if c.pc = .draining then some { c with pc := .leaving, reason := error } else none
  | .finished => if c.pc = .finishing then some { c with pc := .leaving } else none
  | .cancelled =>
    if c.pc.cancellable then some { c with pc := .leaving, reason := "cancelled" } else none
  | .ggaEnded => if c.gga then some { c.endStream "client closed" with gga := false } else none
  | .ggaCancelled => if c.pc = .leaving ∧ c.gga then some { c with gga := false } else none
  | .popped =>
    if c.pc = .leaving ∧ c.gga = false then some { c with registered := false, pc := .closed }
    else none

end CasterClient

/-! ## The caster -/

/-- `Frame.rtcm_type`, `none` where it raises. -/
def Frame.rtcmType? (f : Frame) : Option ℕ :=
  if f.proto = .rtcm3 ∧ 5 ≤ f.raw.length then
    some (((byteAt f.raw 3).toNat <<< 4) ||| ((byteAt f.raw 4).toNat >>> 4))
  else none

/-- `NtripCaster`, as far as its streams go. `clients` are the rovers by `id`, those that have
left included ; `_conns` are the registered ones. -/
structure Caster where
  last1005 : Option (List UInt8) := none
  last1230 : Option (List UInt8) := none
  nextId : ℕ := 1
  stopping : Bool := false
  clients : ℕ → Option CasterClient := fun _ => none

namespace Caster

/-- The frames a rover is offered before it is registered. -/
def cached (w : Caster) : List (List UInt8) :=
  (w.last1005.toList ++ w.last1230.toList).filter (· ≠ [])

/-- The clients, with the registered ones changed. -/
def forConns (w : Caster) (g : CasterClient → CasterClient) : ℕ → Option CasterClient := fun id =>
  (w.clients id).map fun c => if c.registered then g c else c

/-- `_on_frame`. A frame whose type cannot be read is dropped by `_feed`. -/
def onFrame (w : Caster) (f : Frame) : Caster :=
  match f.rtcmType? with
  | none => w
  | some msgType =>
    { w with
      last1005 := if msgType = 1005 then some f.raw else w.last1005
      last1230 := if msgType = 1230 then some f.raw else w.last1230
      clients := w.forConns (·.offerFrame f.raw) }

/-- `_serve_stream`, from the drain of the response to the log row. -/
def accept (w : Caster) (v2 : Bool) : CasterClient :=
  let c := { w.cached.foldl CasterClient.offerFrame { v2 } with registered := true }
  if w.stopping then c.endStream "caster stopped" else c

/-- What happens to the caster. `stop` cancels the feed and closes the server, and then ends the
streams. -/
inductive Action
  | frame (f : Frame)
  | connect (v2 : Bool)
  | stop
  | stopClients
  | client (id : ℕ) (e : CasterClient.Event)
  deriving DecidableEq, Repr

/-- One step of any of the tasks. -/
def step (w : Caster) : Action → Option Caster
  | .frame f => if w.stopping then none else some (w.onFrame f)
  | .connect v2 =>
    some { w with
      nextId := w.nextId + 1
      clients := Function.update w.clients w.nextId (some (w.accept v2)) }
  | .stop => some { w with stopping := true }
  | .stopClients =>
    if w.stopping then some { w with clients := w.forConns (·.endStream "caster stopped") }
    else none
  | .client id e =>
    ((w.clients id).bind fun c => c.step e).map fun c =>
      { w with clients := Function.update w.clients id (some c) }

end Caster

/-! ## What a step does to one rover -/

namespace CasterClient

/-- The handler is past its last write. -/
def Over (c : CasterClient) : Prop := c.pc = .finishing ∨ c.pc = .leaving ∨ c.pc = .closed

/-- What has become of the frames that left the queue, in order : `true` are those written, the
others dropped. -/
structure Kept (c : CasterClient) (fates : List (List UInt8 × Bool)) : Prop where
  offered : c.offered = fates.map Prod.fst ++ c.queue
  sent : c.sent = (fates.filter Prod.snd).map fun x => c.wire x.1
  dropped : c.dropped = (fates.filter fun x => !x.2).length

/-- The writes are those of frames that were offered, in order, and then perhaps the end. -/
def Wrote (c : CasterClient) (written ending : List (List UInt8)) : Prop :=
  written.Sublist c.offered ∧ c.sent = written.map c.wire ++ ending ∧
    (ending = [] ∨ ending = [c.wire []] ∧ c.stopReason ≠ none ∧ c.Over)

/-- What holds of a rover at every `await`. -/
structure Inv (c : CasterClient) : Prop where
  room : c.queue.length ≤ clientQueueFrames
  kept : c.stopReason = none → ∃ fates, c.Kept fates
  wrote : ∃ written ending, c.Wrote written ending

/-- How a stream that has a stop reason goes on : it is written its end at most once. -/
structure Later (c c' : CasterClient) : Prop where
  v2 : c'.v2 = c.v2
  stopped : c.stopReason ≠ none → c'.stopReason ≠ none
  isOver : c.Over → c'.Over
  sent : c.stopReason ≠ none →
    c'.sent = c.sent ∨ ¬c.Over ∧ c'.Over ∧ c'.sent = c.sent ++ [c.wire []]

/-- A step takes the oldest frame off the queue to write it, adds a frame, or does both with
the oldest frame dropped. -/
def Moves (c c' : CasterClient) : Prop :=
  (c'.queue = c.queue ∧ c'.dropped = c.dropped) ∨
  (∃ raw, c.queue = raw :: c'.queue ∧ c'.sent = c.sent ++ [c.wire raw] ∧ c'.dropped = c.dropped) ∨
  (∃ raw, c'.queue = c.queue ++ [raw] ∧ c'.dropped = c.dropped) ∨
  ∃ oldest rest raw, c.queue = oldest :: rest ∧ c.queue.length = clientQueueFrames ∧
    c'.queue = rest ++ [raw] ∧ c'.dropped = c.dropped + 1

variable {c c' c'' : CasterClient}

theorem Later.refl (c : CasterClient) : c.Later c := ⟨rfl, id, id, fun _ => .inl rfl⟩

theorem Later.trans (h : c.Later c') (h' : c'.Later c'') : c.Later c'' where
  v2 := h'.v2.trans h.v2
  stopped hstop := h'.stopped (h.stopped hstop)
  isOver hover := h'.isOver (h.isOver hover)
  sent hstop := by
    have hwire : c'.wire [] = c.wire [] := by rw [wire, wire, h.v2]
    obtain h₁ | ⟨hopen, hover, h₁⟩ := h.sent hstop
    · obtain h₂ | ⟨hopen', hover', h₂⟩ := h'.sent (h.stopped hstop)
      · exact .inl (h₂.trans h₁)
      · exact .inr ⟨fun hov => hopen' (h.isOver hov), hover', by rw [h₂, h₁, hwire]⟩
    · obtain h₂ | ⟨hopen', -, -⟩ := h'.sent (h.stopped hstop)
      · exact .inr ⟨hopen, h'.isOver hover, h₂.trans h₁⟩
      · exact absurd hover hopen'

/-! ### Steps that write nothing -/

theorem wire_congr (h : c'.v2 = c.v2) (raw : List UInt8) : c'.wire raw = c.wire raw := by
  rw [wire, wire, h]

theorem map_wire_congr (h : c'.v2 = c.v2) (raws : List (List UInt8)) :
    raws.map c'.wire = raws.map c.wire :=
  List.map_congr_left fun raw _ => wire_congr h raw

theorem Wrote.of_same {written ending : List (List UInt8)} (h : c.Wrote written ending)
    (hv2 : c'.v2 = c.v2) (hsent : c'.sent = c.sent) (hoff : c.offered.Sublist c'.offered)
    (hstop : c.stopReason ≠ none → c'.stopReason ≠ none) (hover : c.Over → c'.Over) :
    c'.Wrote written ending := by
  obtain ⟨hsub, hs, hend⟩ := h
  refine ⟨hsub.trans hoff, ?_, ?_⟩
  · rw [hsent, hs, map_wire_congr hv2]
  · rw [wire_congr hv2]
    obtain he | ⟨he, hne, hov⟩ := hend
    · exact .inl he
    · exact .inr ⟨he, hstop hne, hover hov⟩

theorem Kept.of_same {fates : List (List UInt8 × Bool)} (h : c.Kept fates) (hv2 : c'.v2 = c.v2)
    (hqueue : c'.queue = c.queue) (hsent : c'.sent = c.sent) (hoff : c'.offered = c.offered)
    (hdrop : c'.dropped = c.dropped) : c'.Kept fates where
  offered := by rw [hoff, h.offered, hqueue]
  sent := by
    rw [hsent, h.sent]
    exact List.map_congr_left fun x _ => (wire_congr hv2 x.1).symm
  dropped := hdrop.trans h.dropped

/-- The handler goes on, or the GGA reader ends, and nothing else. -/
structure Same (c c' : CasterClient) : Prop where
  v2 : c'.v2 = c.v2
  queue : c'.queue = c.queue
  dropped : c'.dropped = c.dropped
  sent : c'.sent = c.sent
  offered : c'.offered = c.offered
  stopReason : c'.stopReason = c.stopReason
  isOver : c.Over → c'.Over

theorem Same.inv (h : c.Same c') (hc : c.Inv) : c'.Inv where
  room := h.queue ▸ hc.room
  kept hnone := by
    obtain ⟨fates, hkept⟩ := hc.kept (h.stopReason ▸ hnone)
    exact ⟨fates, hkept.of_same h.v2 h.queue h.sent h.offered h.dropped⟩
  wrote := by
    obtain ⟨written, ending, hwrote⟩ := hc.wrote
    exact ⟨written, ending, hwrote.of_same h.v2 h.sent (h.offered ▸ .refl _)
      (fun hne => h.stopReason ▸ hne) h.isOver⟩

theorem Same.later (h : c.Same c') : c.Later c' :=
  ⟨h.v2, fun hne => h.stopReason ▸ hne, h.isOver, fun _ => .inl h.sent⟩

theorem Same.moves (h : c.Same c') : c.Moves c' := .inl ⟨h.queue, h.dropped⟩

/-! ### Offering -/

theorem offer_cases (c : CasterClient) (raw : List UInt8) :
    (c.queue.length < clientQueueFrames ∧ c.offer raw = { c with queue := c.queue ++ [raw] }) ∨
      ∃ oldest rest, c.queue = oldest :: rest ∧ clientQueueFrames ≤ c.queue.length ∧
        c.offer raw = { c with queue := rest ++ [raw], dropped := c.dropped + 1 } := by
  rw [offer]
  split
  · next h => exact .inl ⟨h, rfl⟩
  · next h =>
    obtain ⟨oldest, rest, hq⟩ : ∃ oldest rest, c.queue = oldest :: rest := by
      refine List.exists_cons_of_ne_nil ?_
      rintro hnil
      rw [hnil] at h
      exact h (by decide)
    exact .inr ⟨oldest, rest, hq, not_lt.1 h, by rw [hq, List.tail_cons]⟩

@[simp] theorem v2_offer (c : CasterClient) (raw : List UInt8) : (c.offer raw).v2 = c.v2 := by
  rw [offer]; split <;> rfl

@[simp] theorem stopReason_offer (c : CasterClient) (raw : List UInt8) :
    (c.offer raw).stopReason = c.stopReason := by
  rw [offer]; split <;> rfl

@[simp] theorem pc_offer (c : CasterClient) (raw : List UInt8) : (c.offer raw).pc = c.pc := by
  rw [offer]; split <;> rfl

@[simp] theorem sent_offer (c : CasterClient) (raw : List UInt8) : (c.offer raw).sent = c.sent := by
  rw [offer]; split <;> rfl

@[simp] theorem offered_offer (c : CasterClient) (raw : List UInt8) :
    (c.offer raw).offered = c.offered := by
  rw [offer]; split <;> rfl

@[simp] theorem registered_offer (c : CasterClient) (raw : List UInt8) :
    (c.offer raw).registered = c.registered := by
  rw [offer]; split <;> rfl

theorem length_offer (h : c.queue.length ≤ clientQueueFrames) (raw : List UInt8) :
    (c.offer raw).queue.length ≤ clientQueueFrames := by
  obtain ⟨hlt, heq⟩ | ⟨oldest, rest, hq, -, heq⟩ := c.offer_cases raw
  · rw [heq]
    simpa using hlt
  · rw [heq]
    rw [hq] at h
    simpa using h

theorem moves_offer (h : c.queue.length ≤ clientQueueFrames) (raw : List UInt8) :
    c.Moves (c.offer raw) := by
  obtain ⟨-, heq⟩ | ⟨oldest, rest, hq, hfull, heq⟩ := c.offer_cases raw
  · exact .inr (.inr (.inl ⟨raw, by rw [heq], by rw [heq]⟩))
  · exact .inr (.inr (.inr ⟨oldest, rest, raw, hq, h.antisymm hfull, by rw [heq], by rw [heq]⟩))

theorem over_of_pc (h : c'.pc = c.pc) : c.Over → c'.Over := by
  rw [Over, Over, h]
  exact id

theorem Inv.offerFrame (h : c.Inv) (raw : List UInt8) : (c.offerFrame raw).Inv where
  room := length_offer h.room raw
  kept hnone := by
    obtain ⟨fates, hkept⟩ := h.kept ((c.stopReason_offer raw) ▸ hnone)
    obtain ⟨-, heq⟩ | ⟨oldest, rest, hq, -, heq⟩ := c.offer_cases raw
    · refine ⟨fates, ⟨?_, ?_, ?_⟩⟩
      · simp [CasterClient.offerFrame, heq, hkept.offered]
      · rw [CasterClient.offerFrame, heq, hkept.sent]
        rfl
      · rw [CasterClient.offerFrame, heq, hkept.dropped]
    · -- the oldest frame is the next to leave the queue
      refine ⟨fates ++ [(oldest, false)], ⟨?_, ?_, ?_⟩⟩
      · simp [CasterClient.offerFrame, heq, hkept.offered, hq]
      · rw [CasterClient.offerFrame, heq, List.filter_append]
        simp only [List.filter_cons_of_neg (p := Prod.snd) (a := (oldest, false)) (by simp),
          List.filter_nil, List.append_nil]
        exact hkept.sent
      · simp [CasterClient.offerFrame, heq, hkept.dropped]
  wrote := by
    obtain ⟨written, ending, hwrote⟩ := h.wrote
    exact ⟨written, ending, hwrote.of_same (c.v2_offer raw) (c.sent_offer raw)
      (List.sublist_append_left _ _) (fun hne => (c.stopReason_offer raw).symm ▸ hne)
      (over_of_pc (c.pc_offer raw))⟩

theorem Later.offerFrame (c : CasterClient) (raw : List UInt8) : c.Later (c.offerFrame raw) :=
  ⟨c.v2_offer raw, fun hne => (c.stopReason_offer raw).symm ▸ hne, over_of_pc (c.pc_offer raw),
    fun _ => .inl (c.sent_offer raw)⟩

theorem stopReason_endStream (c : CasterClient) (reason : String) :
    (c.endStream reason).stopReason ≠ none := by
  rw [endStream, stopReason_offer]
  cases c.stopReason <;> simp

theorem registered_endStream (c : CasterClient) (reason : String) :
    (c.endStream reason).registered = c.registered := registered_offer _ _

theorem Inv.endStream (h : c.Inv) (reason : String) : (c.endStream reason).Inv where
  room := length_offer (c := { c with stopReason := c.stopReason.or (some reason) }) h.room []
  kept hnone := absurd hnone (c.stopReason_endStream reason)
  wrote := by
    obtain ⟨written, ending, hwrote⟩ := h.wrote
    exact ⟨written, ending, hwrote.of_same (v2_offer _ _) (sent_offer _ _)
      (by rw [CasterClient.endStream, offered_offer]) (fun _ => c.stopReason_endStream reason)
      (over_of_pc (pc_offer _ _))⟩

theorem Later.endStream (c : CasterClient) (reason : String) : c.Later (c.endStream reason) :=
  ⟨v2_offer _ _, fun _ => c.stopReason_endStream reason, over_of_pc (pc_offer _ _),
    fun _ => .inl (sent_offer _ _)⟩

/-! ### Writing -/

/-- A frame is taken off the queue and written. -/
theorem Inv.writeFrame (h : c.Inv) {raw : List UInt8} {queue : List (List UInt8)}
    (hq : c.queue = raw :: queue) (hnone : c.stopReason = none) (closing : Bool) :
    (CasterClient.writeFrame { c with queue } raw closing).Inv := by
  obtain ⟨fates, hkept⟩ := h.kept hnone
  have hroom := h.room
  have hoff := hkept.offered
  rw [hq] at hroom hoff
  have hnew :
      (CasterClient.writeFrame { c with queue } raw closing).Kept (fates ++ [(raw, true)]) := by
    refine ⟨?_, ?_, ?_⟩
    · rw [CasterClient.writeFrame]
      split <;> simpa [write] using hoff
    · rw [CasterClient.writeFrame, List.filter_append, List.map_append]
      split <;> exact congrArg (· ++ [c.wire raw]) hkept.sent
    · rw [CasterClient.writeFrame]
      split <;> simp [write, hkept.dropped]
  refine ⟨?_, fun _ => ⟨_, hnew⟩,
    ((fates ++ [(raw, true)]).filter Prod.snd).map Prod.fst, [], ?_, ?_, .inl rfl⟩
  · rw [CasterClient.writeFrame]
    split <;> exact Nat.le_of_succ_le hroom
  · rw [hnew.offered]
    exact (List.filter_sublist.map Prod.fst).trans (List.sublist_append_left _ _)
  · rw [List.append_nil, hnew.sent, List.map_map]
    rfl

theorem writeFrame_same (c : CasterClient) (raw : List UInt8) (queue : List (List UInt8))
    (closing : Bool) :
    (writeFrame { c with queue } raw closing).queue = queue ∧
      (writeFrame { c with queue } raw closing).v2 = c.v2 ∧
      (writeFrame { c with queue } raw closing).dropped = c.dropped ∧
      (writeFrame { c with queue } raw closing).stopReason = c.stopReason ∧
      (writeFrame { c with queue } raw closing).sent = c.sent ++ [c.wire raw] := by
  rw [writeFrame]
  split <;> exact ⟨rfl, rfl, rfl, rfl, rfl⟩

/-- The stream of `c` is ended, with a queue, a time and a reason of its own. -/
structure Ends (c d : CasterClient) : Prop where
  v2 : d.v2 = c.v2
  sent : d.sent = c.sent
  offered : d.offered = c.offered
  isOver : ¬c.Over
  stopReason : d.stopReason ≠ none

theorem Ends.inv {d : CasterClient} (h : c.Ends d) (hc : c.Inv) : d.finishStream.Inv where
  room := Nat.zero_le _
  kept hnone := absurd hnone h.stopReason
  wrote := by
    obtain ⟨written, ending, hsub, hsent, hend⟩ := hc.wrote
    obtain rfl : ending = [] := hend.resolve_right fun hov => h.isOver hov.2.2
    rw [List.append_nil] at hsent
    refine ⟨written, [d.wire []], ?_, ?_, .inr ⟨rfl, h.stopReason, .inl rfl⟩⟩
    · exact h.offered ▸ hsub
    · change d.sent ++ [d.wire []] = written.map d.wire ++ [d.wire []]
      rw [h.sent, hsent, map_wire_congr h.v2]

theorem Ends.later {d : CasterClient} (h : c.Ends d) : c.Later d.finishStream where
  v2 := h.v2
  stopped _ := h.stopReason
  isOver hov := absurd hov h.isOver
  sent _ := .inr ⟨h.isOver, .inl rfl, by rw [← wire_congr h.v2, ← h.sent]; rfl⟩

/-! ### All of it -/

theorem not_over_of_pc {pc : Pc} (h : c.pc = pc) (hpc : pc = .getting ∨ pc = .draining) :
    ¬c.Over := by
  rw [Over, h]
  rcases hpc with rfl | rfl <;> simp

theorem poll_cases (h : c.pc = .draining) (size : ℕ) (now : ℚ) :
    c.Same (c.poll size now) ∨ ∃ d, c.Ends d ∧ c.poll size now = d.finishStream := by
  have hopen := not_over_of_pc h (.inr rfl)
  simp only [poll]
  split_ifs
  · refine .inr ⟨_, ?_, rfl⟩
    refine ⟨rfl, rfl, rfl, hopen, ?_⟩
    dsimp only
    cases c.stopReason <;> simp
  · exact .inl ⟨rfl, rfl, rfl, rfl, rfl, rfl, fun hov => absurd hov hopen⟩
  · exact .inl ⟨rfl, rfl, rfl, rfl, rfl, rfl, fun hov => absurd hov hopen⟩

/-- What a step of a rover's own tasks can do. -/
theorem step_cases {e : Event} (h : c.step e = some c') :
    c.Same c' ∨
      (∃ raw queue closing, c.queue = raw :: queue ∧ c.stopReason = none ∧ ¬c.Over ∧
        c' = writeFrame { c with queue } raw closing) ∨
      (∃ d, c.Ends d ∧ c' = d.finishStream) ∨
      (c.endStream "client closed").Same c' := by
  cases e with
  | logged =>
    obtain ⟨hpc, heq⟩ := Option.ite_none_right_eq_some.1 h
    obtain rfl := Option.some.inj heq
    exact .inl ⟨rfl, rfl, rfl, rfl, rfl, rfl, fun hov => by simp [Over, hpc] at hov⟩
  | got closing =>
    rw [step] at h
    split at h
    · next raw queue hpc hq =>
      have hopen := not_over_of_pc hpc (.inl rfl)
      cases hstop : c.stopReason with
      | none =>
        refine .inr (.inl ⟨raw, queue, closing, hq, rfl, hopen, ?_⟩)
        simpa [hstop, eq_comm] using h
      | some reason =>
        refine .inr (.inr (.inl ⟨{ c with queue }, ⟨rfl, rfl, rfl, hopen, by simp [hstop]⟩, ?_⟩))
        simpa [hstop, eq_comm] using h
    · cases h
  | drained size now =>
    obtain ⟨hpc, heq⟩ := Option.ite_none_right_eq_some.1 h
    obtain rfl := Option.some.inj heq
    exact (poll_cases hpc size now).imp_right fun hd => .inr (.inl hd)
  | failed error =>
    obtain ⟨hpc, heq⟩ := Option.ite_none_right_eq_some.1 h
    obtain rfl := Option.some.inj heq
    exact .inl ⟨rfl, rfl, rfl, rfl, rfl, rfl, fun _ => .inr (.inl rfl)⟩
  | finished =>
    obtain ⟨hpc, heq⟩ := Option.ite_none_right_eq_some.1 h
    obtain rfl := Option.some.inj heq
    exact .inl ⟨rfl, rfl, rfl, rfl, rfl, rfl, fun _ => .inr (.inl rfl)⟩
  | cancelled =>
    obtain ⟨hpc, heq⟩ := Option.ite_none_right_eq_some.1 h
    obtain rfl := Option.some.inj heq
    exact .inl ⟨rfl, rfl, rfl, rfl, rfl, rfl, fun _ => .inr (.inl rfl)⟩
  | ggaEnded =>
    obtain ⟨-, heq⟩ := Option.ite_none_right_eq_some.1 h
    obtain rfl := Option.some.inj heq
    exact .inr (.inr (.inr ⟨rfl, rfl, rfl, rfl, rfl, rfl, id⟩))
  | ggaCancelled =>
    obtain ⟨-, heq⟩ := Option.ite_none_right_eq_some.1 h
    obtain rfl := Option.some.inj heq
    exact .inl ⟨rfl, rfl, rfl, rfl, rfl, rfl, id⟩
  | popped =>
    obtain ⟨-, heq⟩ := Option.ite_none_right_eq_some.1 h
    obtain rfl := Option.some.inj heq
    exact .inl ⟨rfl, rfl, rfl, rfl, rfl, rfl, fun _ => .inr (.inr rfl)⟩

theorem Inv.step {e : Event} (hc : c.Inv) (h : c.step e = some c') : c'.Inv := by
  obtain hsame | ⟨raw, queue, closing, hq, hnone, -, rfl⟩ | ⟨d, hends, rfl⟩ | hsame := step_cases h
  · exact hsame.inv hc
  · exact hc.writeFrame hq hnone closing
  · exact hends.inv hc
  · exact hsame.inv (hc.endStream _)

theorem Later.step {e : Event} (h : c.step e = some c') : c.Later c' := by
  obtain hsame | ⟨raw, queue, closing, hq, hnone, hopen, rfl⟩ | ⟨d, hends, rfl⟩ | hsame :=
    step_cases h
  · exact hsame.later
  · obtain ⟨-, hv2, -, -, -⟩ := c.writeFrame_same raw queue closing
    exact ⟨hv2, fun hne => absurd hnone hne, fun hov => absurd hov hopen,
      fun hne => absurd hnone hne⟩
  · exact hends.later
  · exact (Later.endStream c _).trans hsame.later

/-- As long as the stream has no stop reason. -/
theorem moves_step {e : Event} (h : c.step e = some c') (hnone : c'.stopReason = none) :
    c.Moves c' := by
  obtain hsame | ⟨raw, queue, closing, hq, -, -, rfl⟩ | ⟨d, hends, rfl⟩ | hsame := step_cases h
  · exact hsame.moves
  · obtain ⟨hqueue, -, hdrop, -, hsent⟩ := c.writeFrame_same raw queue closing
    exact .inr (.inl ⟨raw, by rw [hqueue, hq], hsent, hdrop⟩)
  · exact absurd hnone hends.stopReason
  · exact absurd (hsame.stopReason ▸ hnone) (c.stopReason_endStream _)

theorem registered_poll (c : CasterClient) (size : ℕ) (now : ℚ) :
    (c.poll size now).registered = c.registered := by
  simp only [poll]
  split_ifs <;> rfl

/-- A rover's own tasks never put it back into `_conns`. -/
theorem registered_step {e : Event} (h : c.step e = some c') :
    c'.registered = true → c.registered = true := by
  have keep : ∀ {p : Prop} [Decidable p] {d : CasterClient},
      (if p then some d else none) = some c' → d.registered = c.registered →
        c'.registered = true → c.registered = true := fun hd hreg hr => by
    obtain rfl := Option.some.inj (Option.ite_none_right_eq_some.1 hd).2
    exact hreg ▸ hr
  cases e with
  | logged => exact keep h rfl
  | got closing =>
    rw [step] at h
    split at h
    · obtain rfl := Option.some.inj h
      split
      · exact id
      · rw [writeFrame]
        split <;> exact id
    · cases h
  | drained size now => exact keep h (registered_poll c size now)
  | failed error => exact keep h rfl
  | finished => exact keep h rfl
  | cancelled => exact keep h rfl
  | ggaEnded => exact keep h (registered_offer _ _)
  | ggaCancelled => exact keep h rfl
  | popped =>
    obtain rfl := Option.some.inj (Option.ite_none_right_eq_some.1 h).2
    exact fun hr => absurd hr Bool.false_ne_true

/-- A rover's own tasks offer it nothing. -/
theorem offered_step {e : Event} (h : c.step e = some c') : c'.offered = c.offered := by
  obtain hsame | ⟨raw, queue, closing, -, -, -, rfl⟩ | ⟨d, hends, rfl⟩ | hsame := step_cases h
  · exact hsame.offered
  · rw [writeFrame]
    split <;> rfl
  · exact hends.offered
  · exact hsame.offered.trans (offered_offer _ _)

end CasterClient

namespace Caster

/-- The frame an action of the feed fans out. -/
def Action.raw? : Action → Option (List UInt8)
  | .frame f => f.rtcmType?.map fun _ => f.raw
  | _ => none

/-- No rover has an `id` that is still to be given. -/
def Fresh (w : Caster) : Prop := ∀ id, w.clients id ≠ none → id < w.nextId

variable {w w' : Caster} {i : Action} {id : ℕ} {c c' : CasterClient}

theorem forConns_eq_some {g : CasterClient → CasterClient} (h : w.forConns g id = some c') :
    ∃ c, w.clients id = some c ∧ c' = if c.registered then g c else c := by
  obtain ⟨c, hc, rfl⟩ := Option.map_eq_some_iff.1 h
  exact ⟨c, hc, rfl⟩

theorem update_eq_some {clients : ℕ → Option CasterClient} {j : ℕ} {d : CasterClient}
    (h : Function.update clients j (some d) id = some c') :
    id = j ∧ c' = d ∨ id ≠ j ∧ clients id = some c' := by
  by_cases hid : id = j
  · subst hid
    rw [Function.update_self] at h
    exact .inl ⟨rfl, (Option.some.inj h).symm⟩
  · rw [Function.update_of_ne hid] at h
    exact .inr ⟨hid, h⟩

/-- What a step does to the client `id`. -/
theorem step_client (h : w.step i = some w') (hc : w'.clients id = some c') :
    (∃ v2, i = .connect v2 ∧ id = w.nextId ∧ c' = w.accept v2) ∨
      ∃ c, w.clients id = some c ∧
        ((c' = c ∧ (c.registered = true → i.raw? = none)) ∨
          (∃ raw, i.raw? = some raw ∧ c.registered = true ∧ c' = c.offerFrame raw) ∨
          (i.raw? = none ∧ ∃ reason, c' = c.endStream reason) ∨
          (i.raw? = none ∧ ∃ e, c.step e = some c')) := by
  cases i with
  | frame f =>
    rw [step] at h
    split at h
    · cases h
    · obtain rfl := Option.some.inj h
      rw [onFrame] at hc
      split at hc
      · next hnone => exact .inr ⟨c', hc, .inl ⟨rfl, fun _ => by simp [Action.raw?, hnone]⟩⟩
      · next msgType hsome =>
        obtain ⟨c, hold, rfl⟩ := forConns_eq_some hc
        refine .inr ⟨c, hold, ?_⟩
        cases hreg : c.registered with
        | true => exact .inr (.inl ⟨f.raw, by simp [Action.raw?, hsome], rfl, by simp⟩)
        | false => exact .inl ⟨by simp, fun hr => absurd hr Bool.false_ne_true⟩
  | connect v2 =>
    obtain rfl := Option.some.inj h
    obtain ⟨hid, rfl⟩ | ⟨-, hold⟩ := update_eq_some hc
    · exact .inl ⟨v2, rfl, hid, rfl⟩
    · exact .inr ⟨c', hold, .inl ⟨rfl, fun _ => rfl⟩⟩
  | stop =>
    obtain rfl := Option.some.inj h
    exact .inr ⟨c', hc, .inl ⟨rfl, fun _ => rfl⟩⟩
  | stopClients =>
    obtain ⟨-, heq⟩ := Option.ite_none_right_eq_some.1 h
    obtain rfl := Option.some.inj heq
    obtain ⟨c, hold, rfl⟩ := forConns_eq_some hc
    refine .inr ⟨c, hold, ?_⟩
    split
    · exact .inr (.inr (.inl ⟨rfl, _, rfl⟩))
    · exact .inl ⟨rfl, fun _ => rfl⟩
  | client j e =>
    obtain ⟨d, hd, rfl⟩ := Option.map_eq_some_iff.1 h
    obtain ⟨c, hold, hstep⟩ := Option.bind_eq_some_iff.1 hd
    obtain ⟨rfl, rfl⟩ | ⟨-, hother⟩ := update_eq_some hc
    · exact .inr ⟨c, hold, .inr (.inr (.inr ⟨rfl, e, hstep⟩))⟩
    · exact .inr ⟨c', hother, .inl ⟨rfl, fun _ => rfl⟩⟩

/-! ## A rover that comes -/

theorem accept_offers (raws : List (List UInt8)) : ∀ c : CasterClient, c.Inv →
    (raws.foldl CasterClient.offerFrame c).Inv ∧
      (raws.foldl CasterClient.offerFrame c).offered = c.offered ++ raws := by
  induction raws with
  | nil => exact fun c hc => ⟨hc, (List.append_nil _).symm⟩
  | cons raw raws ih =>
    intro c hc
    obtain ⟨hinv, hoff⟩ := ih _ (hc.offerFrame raw)
    exact ⟨hinv, hoff.trans (List.append_assoc _ _ _)⟩

theorem inv_accept (w : Caster) (v2 : Bool) :
    (w.accept v2).Inv ∧ (w.accept v2).offered = w.cached := by
  have hnew : ({ v2 } : CasterClient).Inv :=
    ⟨Nat.zero_le _, fun _ => ⟨[], rfl, rfl, rfl⟩, [], [], .refl _, rfl, .inl rfl⟩
  obtain ⟨hinv, hoff⟩ := accept_offers w.cached _ hnew
  have hsame : (w.cached.foldl CasterClient.offerFrame { v2 }).Same
      { w.cached.foldl CasterClient.offerFrame { v2 } with registered := true } :=
    ⟨rfl, rfl, rfl, rfl, rfl, rfl, id⟩
  have hreg := hsame.inv hinv
  rw [accept]
  dsimp only
  split
  · exact ⟨hreg.endStream _, (CasterClient.offered_offer _ _).trans hoff⟩
  · exact ⟨hreg, hoff⟩

/-! ## Every run -/

theorem inv_of_reachable (h : Reachable step {} w) : ∀ id c, w.clients id = some c → c.Inv := by
  refine h.invariant (fun w => ∀ id c, w.clients id = some c → c.Inv) (fun _ _ hc => by cases hc) ?_
  intro w i w' _ hinv hstep id c' hc'
  obtain ⟨v2, -, -, rfl⟩ | ⟨c, hc, ⟨rfl, -⟩ | ⟨raw, -, -, rfl⟩ | ⟨-, reason, rfl⟩ | ⟨-, e, he⟩⟩ :=
    step_client hstep hc'
  · exact (w.inv_accept v2).1
  · exact hinv id _ hc
  · exact (hinv id c hc).offerFrame raw
  · exact (hinv id c hc).endStream reason
  · exact (hinv id c hc).step he

theorem nextId_step (h : w.step i = some w') : w.nextId ≤ w'.nextId := by
  cases i with
  | frame f =>
    rw [step] at h
    split at h
    · cases h
    · obtain rfl := Option.some.inj h
      rw [onFrame]
      split <;> exact le_rfl
  | connect v2 =>
    obtain rfl := Option.some.inj h
    exact Nat.le_succ _
  | stop =>
    obtain rfl := Option.some.inj h
    exact le_rfl
  | stopClients =>
    obtain rfl := Option.some.inj (Option.ite_none_right_eq_some.1 h).2
    exact le_rfl
  | client j e =>
    obtain ⟨d, -, rfl⟩ := Option.map_eq_some_iff.1 h
    exact le_rfl

theorem fresh_of_reachable (h : Reachable step {} w) : w.Fresh := by
  refine h.invariant Fresh (fun _ hne => absurd rfl hne) ?_
  intro w i w' _ hfresh hstep id hne
  obtain ⟨c', hc'⟩ := Option.ne_none_iff_exists'.1 hne
  obtain ⟨v2, rfl, rfl, -⟩ | ⟨c, hc, -⟩ := step_client hstep hc'
  · obtain rfl := Option.some.inj hstep
    exact Nat.lt_succ_self _
  · exact (hfresh id (by simp [hc])).trans_le (nextId_step hstep)

/-- A client only moves on. -/
theorem later_of_reachable (hw : w.Fresh) (hc : w.clients id = some c) (h : Reachable step w w')
    (hc' : w'.clients id = some c') : c.Later c' := by
  have hid : id < w.nextId := hw id (by simp [hc])
  refine (h.invariant
    (fun t => w.nextId ≤ t.nextId ∧ ∀ d, t.clients id = some d → c.Later d) ?_ ?_).2 c' hc'
  · refine ⟨le_rfl, fun d hd => ?_⟩
    obtain rfl := Option.some.inj (hc.symm.trans hd)
    exact .refl c
  · rintro t i t' - ⟨hle, hlater⟩ hstep
    refine ⟨hle.trans (nextId_step hstep), fun d' hd' => ?_⟩
    obtain ⟨v2, -, rfl, -⟩ |
      ⟨d, hd, ⟨rfl, -⟩ | ⟨raw, -, -, rfl⟩ | ⟨-, reason, rfl⟩ | ⟨-, e, he⟩⟩ := step_client hstep hd'
    · omega
    · exact hlater _ hd
    · exact (hlater d hd).trans (CasterClient.Later.offerFrame d raw)
    · exact (hlater d hd).trans (CasterClient.Later.endStream d reason)
    · exact (hlater d hd).trans (CasterClient.Later.step he)

/-- What a rover was offered : the cache as it was when the rover came, and then the frames fed
from there on, until it left. -/
def Offered (w : Caster) (id : ℕ) (c : CasterClient) : Prop :=
  ∃ w₀ v2 is live, Reachable step {} w₀ ∧ id = w₀.nextId ∧
    run step w₀ (.connect v2 :: is) = some w ∧ c.offered = w₀.cached ++ live ∧
    live <+: is.filterMap Action.raw? ∧ (c.registered = true → live = is.filterMap Action.raw?)

theorem Offered.tail (h : w.Offered id c) (hstep : w.step i = some w')
    (hnone : c'.registered = true → c.registered = true ∧ i.raw? = none)
    (hoff : c'.offered = c.offered) : w'.Offered id c' := by
  obtain ⟨w₀, v2, is, live, hw₀, hid, hrun, heq, hpre, hreg⟩ := h
  refine ⟨w₀, v2, is ++ [i], live, hw₀, hid, ?_, hoff.trans heq, ?_, fun hr => ?_⟩
  · rw [← List.cons_append, run_append, hrun]
    simp [run, hstep]
  · rw [List.filterMap_append]
    exact hpre.trans (List.prefix_append _ _)
  · rw [List.filterMap_append, hreg (hnone hr).1]
    simp [(hnone hr).2]

theorem offered_of_reachable (h : Reachable step {} w) :
    ∀ id c, w.clients id = some c → w.Offered id c := by
  refine h.invariant (fun w => ∀ id c, w.clients id = some c → w.Offered id c)
    (fun _ _ hc => by cases hc) ?_
  intro w i w' hreach hoff hstep id c' hc'
  obtain ⟨v2, rfl, rfl, rfl⟩ |
    ⟨c, hc, ⟨rfl, hnone⟩ | ⟨raw, hraw, hr, rfl⟩ | ⟨hnone, reason, rfl⟩ | ⟨hnone, e, he⟩⟩ :=
    step_client hstep hc'
  · refine ⟨w, v2, [], [], hreach, rfl, by simp [run, hstep], ?_, List.nil_prefix, fun _ => rfl⟩
    rw [(w.inv_accept v2).2, List.append_nil]
  · exact (hoff id _ hc).tail hstep (fun hr => ⟨hr, hnone hr⟩) rfl
  · obtain ⟨w₀, v2, is, live, hw₀, hid, hrun, heq, -, hreg⟩ := hoff id c hc
    have hlive : live ++ [raw] = (is ++ [i]).filterMap Action.raw? := by
      rw [List.filterMap_append, hreg hr]
      simp [hraw]
    refine ⟨w₀, v2, is ++ [i], live ++ [raw], hw₀, hid, ?_, ?_, hlive ▸ List.prefix_rfl,
      fun _ => hlive⟩
    · rw [← List.cons_append, run_append, hrun]
      simp [run, hstep]
    · rw [← List.append_assoc, ← heq]
      rfl
  · exact (hoff id c hc).tail hstep
      (fun hr => ⟨(CasterClient.registered_endStream c reason).symm.trans hr, hnone⟩)
      (CasterClient.offered_offer _ _)
  · exact (hoff id c hc).tail hstep (fun hr => ⟨CasterClient.registered_step he hr, hnone⟩)
      (CasterClient.offered_step he)

/-! ## The bytes of one rover -/

/-- The chunk that ends a version 2 body. -/
def terminatingChunk : List UInt8 := clientWire true []

/-- What the end of a stream looks like on the wire. -/
def Terminator (c : CasterClient) (bytes : List UInt8) : Prop :=
  bytes = [] ∨ c.v2 = true ∧ bytes = terminatingChunk

theorem terminator_of_ending {ending : List (List UInt8)} (h : ending = [] ∨ ending = [c.wire []]) :
    Terminator c ending.flatten := by
  obtain rfl | rfl := h
  · exact .inl rfl
  · rw [List.flatten_singleton, CasterClient.wire]
    cases hv2 : c.v2 with
    | true => exact .inr ⟨hv2, rfl⟩
    | false => exact .inl rfl

/-- However the feed, the handlers, the GGA readers and `stop` interleave : the bytes written to
a rover are those of whole frames that it was offered, in order, and then perhaps the end ;
nothing but one end is written once the stream has a stop reason, and until then every frame
offered is written, queued or counted as dropped. Only the oldest frame of a full queue is
dropped, and the cache is offered before any live frame. -/
theorem stream_of_client (h : Reachable step {} w) (hc : w.clients id = some c) :
    (∃ (written : List (List UInt8)) (ending : List UInt8), written.Sublist c.offered ∧
      c.sent.flatten = (written.map c.wire).flatten ++ ending ∧ Terminator c ending ∧
      (c.stopReason = none → ending = []) ∧
      (c.stopReason ≠ none → ∀ w' c', Reachable step w w' → w'.clients id = some c' →
        ∃ ending', c'.sent.flatten = (written.map c.wire).flatten ++ ending' ∧
          ending <+: ending' ∧ Terminator c ending')) ∧
    (c.stopReason = none → ∃ fates, c.Kept fates) ∧
    (∀ i w' c', w.step i = some w' → w'.clients id = some c' → c'.stopReason = none →
      c.Moves c') ∧
    w.Offered id c := by
  have hinv := inv_of_reachable h id c hc
  have hfresh := fresh_of_reachable h
  refine ⟨?_, hinv.kept, ?_, offered_of_reachable h id c hc⟩
  · obtain ⟨written, ending, hsub, hsent, hend⟩ := hinv.wrote
    refine ⟨written, ending.flatten, hsub, ?_,
      terminator_of_ending (hend.imp_right And.left), ?_, ?_⟩
    · rw [hsent, List.flatten_append]
    · intro hnone
      rw [hend.resolve_right fun hov => hov.2.1 hnone, List.flatten_nil]
    · intro hne w' c' hreach hc'
      obtain hsame | ⟨hopen, -, hlast⟩ := (later_of_reachable hfresh hc hreach hc').sent hne
      · refine ⟨ending.flatten, ?_, List.prefix_rfl, terminator_of_ending (hend.imp_right And.left)⟩
        rw [hsame, hsent, List.flatten_append]
      · obtain rfl : ending = [] := hend.resolve_right fun hov => hopen hov.2.2
        refine ⟨[c.wire []].flatten, ?_, List.nil_prefix, terminator_of_ending (.inr rfl)⟩
        rw [hlast, hsent, List.append_nil, List.flatten_append]
  · intro i w' c' hstep hc' hnone
    obtain ⟨v2, -, rfl, -⟩ | ⟨d, hd, hcases⟩ := step_client hstep hc'
    · exact absurd (hfresh w.nextId (by simp [hc])) (lt_irrefl _)
    obtain rfl := Option.some.inj (hc.symm.trans hd)
    obtain ⟨rfl, -⟩ | ⟨raw, -, -, rfl⟩ | ⟨-, reason, rfl⟩ | ⟨-, e, he⟩ := hcases
    · exact .inl ⟨rfl, rfl⟩
    · exact CasterClient.moves_offer hinv.room raw
    · exact absurd hnone (CasterClient.stopReason_endStream _ _)
    · exact CasterClient.moves_step he hnone

/-- A reference station message, and observations. -/
def stationFrame : List UInt8 := [0xD3, 0x00, 0x02, 0x3E, 0xD0, 0x00, 0x00, 0x00]

def observation (n : ℕ) : List UInt8 := [0xD3, 0x00, 0x02, 0x43, 0x50, UInt8.ofNat n, 0x00, 0x00]

/-- A rover of version 2 does not drain while 66 observations come, and is ended for it. One of
version 1 comes behind it. -/
def slowRun : List Action :=
  [.frame ⟨.rtcm3, stationFrame⟩, .connect true, .client 1 .logged, .client 1 (.got false)] ++
    (List.range 66).map (fun n => .frame ⟨.rtcm3, observation n⟩) ++
    [.client 1 (.drained 300000 1), .client 1 (.got false), .client 1 (.drained 300000 12),
      .connect false, .client 2 .logged, .client 2 (.got false), .client 2 (.drained 0 13),
      .frame ⟨.rtcm3, observation 66⟩, .client 2 (.got false)]

theorem stream_of_client_slow : ∃ w slow quick, run step {} slowRun = some w ∧
    w.clients 1 = some slow ∧ w.clients 2 = some quick ∧
    slow.sent.length = 3 ∧ slow.dropped = 2 ∧ slow.stopReason = some "slow client" ∧
    (∃ (written : List (List UInt8)) (ending : List UInt8), written.Sublist slow.offered ∧
      slow.sent.flatten = (written.map slow.wire).flatten ++ ending ∧ Terminator slow ending) ∧
    quick.sent = [stationFrame, observation 66] ∧ ∃ fates, quick.Kept fates := by
  have hrun : (run step {} slowRun).any (fun w =>
      (w.clients 1).any (fun c => c.sent.length = 3 ∧ c.dropped = 2 ∧
        c.stopReason = some "slow client") ∧
      (w.clients 2).any fun c => c.sent = [stationFrame, observation 66] ∧
        c.stopReason = none) = true := by
    decide +kernel
  obtain ⟨w, hw, hclients⟩ := (Option.any_eq_true _ _).1 hrun
  obtain ⟨hfirst, hsecond⟩ := of_decide_eq_true hclients
  obtain ⟨slow, hslow, hfirst⟩ := (Option.any_eq_true _ _).1 hfirst
  obtain ⟨quick, hquick, hsecond⟩ := (Option.any_eq_true _ _).1 hsecond
  obtain ⟨hlength, hdropped, hreason⟩ := of_decide_eq_true hfirst
  obtain ⟨hsent, hnone⟩ := of_decide_eq_true hsecond
  obtain ⟨⟨written, ending, hsub, hflat, hend, -⟩, -⟩ := stream_of_client ⟨slowRun, hw⟩ hslow
  exact ⟨w, slow, quick, hw, hslow, hquick, hlength, hdropped, hreason,
    ⟨written, ending, hsub, hflat, hend⟩, hsent, (stream_of_client ⟨slowRun, hw⟩ hquick).2.1 hnone⟩

end Caster

end Mtrtk
