import Mtrtk.BaseMode

/-!
# The SBG unit's clock

`rover/drivers/sbg/adapter.py` : the part of `SbgStateAdapter` that dates epochs and events. The
unit stamps its logs with the low 32 bits of a microsecond clock, UTC_TIME logs anchor the stamps
to UTC, and EKF_NAV and EVENT logs are dated from the anchors.

A `Stamp` is the device clock itself, and the code sees `Stamp.us` of it. Beside the adapter
`apply` returns what it dated from which anchor (`Dating`), which the source does not keep. UTC is
in microseconds from the GPS epoch, and floats are exact. What a log brings besides its time is
left out, and so are the raw writers.
-/

namespace Mtrtk

def u32 : ℤ := 4294967296
def anchorMaxUs : ℤ := 60000000
def heldMaxUs : ℤ := 300000000
def timelineJumpUs : ℤ := 5000000
def maxHeldMarks : ℕ := 100
def maxTimeMarks : ℕ := 100
/-- `HELD_DRIFT`. -/
def heldDrift : ℚ := 20 / 1000000
def weekUs : ℤ := 7 * 86400 * 1000000
def defaultLeapS : ℤ := 18

/-! ## Stamps -/

/-- The device clock of a log or an edge, in microseconds. -/
structure Stamp where
  clock : ℤ
  deriving DecidableEq, Repr

/-- The time stamp the unit sends. -/
def Stamp.us (s : Stamp) : ℤ := s.clock % u32

/-- An edge behind the log's stamp : `(m.timestamp_us + offset) % U32`. -/
def Stamp.plus (s : Stamp) (offset : ℕ) : Stamp := ⟨s.clock + offset⟩

/-- `_signed_us`. -/
def signedUs (delta : ℤ) : ℤ := (delta + u32 / 2) % u32 - u32 / 2

/-- The distance of two stamps, as the code computes it. -/
def Stamp.since (s t : Stamp) : ℤ := signedUs (s.us - t.us)

/-! ## UTC_TIME -/

/-- `SbgUtcTime`. -/
structure SbgUtcTime where
  status : ℕ
  gpsTowMs : ℤ
  utc : Option ℤ
  leapSecondEvent : Bool
  deriving DecidableEq, Repr

namespace SbgUtcTime

def clockState (m : SbgUtcTime) : ℕ := (m.status >>> 1) &&& 0x0F
def utcSync (m : SbgUtcTime) : Bool := m.status.testBit 5
def utcStatus (m : SbgUtcTime) : ℕ := (m.status >>> 6) &&& 0x0F

/-- The UTC of a log that is `utc_valid`. -/
def validUtc (m : SbgUtcTime) : Option ℤ :=
  if m.utcStatus = 2 ∧ m.clockState = 3 then m.utc else none

/-- The UTC of a clock that free-runs or steers. -/
def runningUtc (m : SbgUtcTime) : Option ℤ :=
  if m.utcStatus = 2 ∧ (m.clockState = 1 ∨ m.clockState = 2) then m.utc else none

end SbgUtcTime

/-- `gps_from_utc`. -/
def gpsFromUtc (utc : ℤ) (leapS : Option ℤ) : ℤ × ℚ :=
  let since := utc + 1000000 * leapS.getD defaultLeapS
  (since / weekUs, ((since % weekUs : ℤ) : ℚ) / 1000000)

/-- `_leap_seconds`. -/
def leapSeconds (utc gpsTowMs : ℤ) : Option ℤ :=
  let week : ℚ := 7 * 86400
  let gap := (gpsTowMs : ℚ) / 1000 - (gpsFromUtc utc (some 0)).2
  let rest := gap - week * (gap / week).floor
  let diff := if rest > week / 2 then rest - week else rest
  let leap := pyRound diff
  if 0 ≤ leap ∧ leap ≤ 60 ∧ |diff - leap| < 1 / 100 then some leap else none

/-- `TimeInfo`, the fields the adapter sets. -/
structure TimeInfo where
  utc : Option ℤ := none
  itowMs : Option ℤ := none
  gpsWeek : Option ℤ := none
  gpsTowS : Option ℚ := none
  leapS : Option ℤ := none
  validDate : Bool := false
  validTime : Bool := false
  fullyResolved : Bool := false
  validUtc : Bool := false
  deriving DecidableEq, Repr

/-! ## The adapter -/

/-- A stamp and its UTC. -/
structure Anchor where
  stamp : Stamp
  utc : ℤ
  deriving DecidableEq, Repr

/-- An edge that waits for an anchor. -/
structure HeldMark where
  timeline : ℕ
  channel : ℕ
  count : ℕ
  stamp : Stamp
  deriving DecidableEq, Repr

/-- `TimeMark`, the fields `_mark` sets. -/
structure TimeMark where
  channel : ℕ
  count : ℕ
  risingWeek : ℤ
  risingTowS : ℚ
  newRising : Bool
  timeBase : ℕ
  utcBased : Bool
  accEstNs : ℤ
  risingUtc : ℤ
  deriving DecidableEq, Repr

/-- What is dated from an anchor. -/
inductive Dating
  | epoch (stamp anchor : Stamp)
  | mark (stamp anchor : Stamp)
  | heldMark (stamp anchor : Stamp)
  deriving DecidableEq, Repr

/-- A parsed log. `other` is one with a stamp that dates nothing. -/
inductive SbgLog
  | ekfNav (stamp : Stamp)
  | utcTime (stamp : Stamp) (m : SbgUtcTime)
  | event (stamp : Stamp) (channel : ℕ) (offsets : List ℕ)
  | other (stamp : Stamp)
  deriving DecidableEq, Repr

def SbgLog.stamp : SbgLog → Stamp
  | .ekfNav stamp => stamp
  | .utcTime stamp _ => stamp
  | .event stamp _ _ => stamp
  | .other stamp => stamp

/-- `SbgStateAdapter`. -/
structure SbgStateAdapter where
  utcAnchor : Option Anchor := none
  clockAnchor : Option Anchor := none
  lastStamp : Option Stamp := none
  timeline : ℕ := 0
  heldMarks : List HeldMark := []
  heldMarksLost : ℕ := 0
  eventCounts : ℕ → ℕ := fun _ => 0
  time : TimeInfo := {}
  timeMarks : List TimeMark := []

namespace SbgStateAdapter

/-- The stamp is on another timeline than the last one. -/
def jumps (a : SbgStateAdapter) (stamp : Stamp) : Bool :=
  a.lastStamp.any fun last => timelineJumpUs < |stamp.since last|

/-- `_note_stamp`. -/
def noteStamp (a : SbgStateAdapter) (stamp : Stamp) : SbgStateAdapter :=
  if a.jumps stamp then
    { a with
      timeline := a.timeline + 1, utcAnchor := none, clockAnchor := none, lastStamp := some stamp }
  else if a.lastStamp.all fun last => 0 < stamp.since last then { a with lastStamp := some stamp }
  else a

/-- `_carry_time`. -/
def carryTime (a : SbgStateAdapter) (stamp : Stamp) : SbgStateAdapter × List Dating :=
  match a.clockAnchor.filter fun anchor => |stamp.since anchor.stamp| ≤ anchorMaxUs with
  | some anchor =>
    let utc := anchor.utc + stamp.since anchor.stamp
    let (week, tow) := gpsFromUtc utc a.time.leapS
    ({ a with
       time := { a.time with
         utc := some utc, gpsWeek := some week, gpsTowS := some tow
         itowMs := some (pyRound (tow * 1000)) } },
      [.epoch stamp anchor.stamp])
  | none =>
    if a.time.utc = none ∧ a.time.itowMs = none then (a, [])
    else
      ({ a with
         time := { a.time with
           utc := none, itowMs := none, gpsTowS := none
           validTime := false, validDate := false, fullyResolved := false } }, [])

/-- `_near_anchor`, the anchor it finds. -/
def nearAnchor (a : SbgStateAdapter) (stamp : Stamp) (bound : ℤ) : Option Anchor :=
  a.utcAnchor.filter fun anchor => |stamp.since anchor.stamp| ≤ bound

/-- `_mark`, from the anchor. -/
def mark (a : SbgStateAdapter) (anchor : Anchor) (channel count : ℕ) (stamp : Stamp) (held : Bool) :
    TimeMark :=
  let rising := anchor.utc + stamp.since anchor.stamp
  let (week, tow) := gpsFromUtc rising a.time.leapS
  let gapS : ℚ := (|stamp.since anchor.stamp| : ℤ) / 1000000
  { channel, count
    risingWeek := week
    risingTowS := tow
    newRising := true
    timeBase := 1
    utcBased := !held
    accEstNs := if held then pyRound (gapS * heldDrift * 1000000000) else 0
    risingUtc := rising }

/-- `push_time_mark`. -/
def pushTimeMark (a : SbgStateAdapter) (m : TimeMark) : SbgStateAdapter :=
  let marks := a.timeMarks ++ [m]
  { a with timeMarks := marks.drop (marks.length - maxTimeMarks) }

/-- The loop of `_utc` over the held marks. -/
def release (a : SbgStateAdapter) : List HeldMark → SbgStateAdapter × List Dating
  | [] => (a, [])
  | h :: held =>
    match (a.nearAnchor h.stamp heldMaxUs).filter fun _ => h.timeline = a.timeline with
    | some anchor =>
      let rest := (a.pushTimeMark (a.mark anchor h.channel h.count h.stamp true)).release held
      (rest.1, .heldMark h.stamp anchor.stamp :: rest.2)
    | none => a.release held

/-- `_utc`. -/
def utc (a : SbgStateAdapter) (stamp : Stamp) (m : SbgUtcTime) : SbgStateAdapter × List Dating :=
  let valid := m.validUtc.isSome
  let a := { a with
    time := { a.time with
      validTime := valid, validDate := valid, fullyResolved := valid, validUtc := m.utcSync } }
  match m.validUtc with
  | none =>
    let running := (m.runningUtc.map fun utc => (⟨stamp, utc⟩ : Anchor)).or a.clockAnchor
    { a with utcAnchor := none, clockAnchor := running }.carryTime stamp
  | some utc =>
    let leapS := (if m.leapSecondEvent then none else leapSeconds utc m.gpsTowMs).or a.time.leapS
    { a with
      time := { a.time with
        utc := some utc, itowMs := some m.gpsTowMs, gpsTowS := some ((m.gpsTowMs : ℚ) / 1000)
        leapS, gpsWeek := some (gpsFromUtc utc leapS).1 }
      utcAnchor := some ⟨stamp, utc⟩
      clockAnchor := some ⟨stamp, utc⟩
      heldMarks := [] }.release a.heldMarks

/-- One edge of `_event`. -/
def edge (a : SbgStateAdapter) (channel : ℕ) (stamp : Stamp) : SbgStateAdapter × List Dating :=
  let count := a.eventCounts channel + 1
  let a := { a with eventCounts := Function.update a.eventCounts channel count }
  match a.nearAnchor stamp anchorMaxUs with
  | some anchor =>
    (a.pushTimeMark (a.mark anchor channel count stamp false), [.mark stamp anchor.stamp])
  | none =>
    let full := a.heldMarks.length = maxHeldMarks
    ({ a with
       heldMarksLost := if full then a.heldMarksLost + 1 else a.heldMarksLost
       heldMarks := (if full then a.heldMarks.tail else a.heldMarks) ++
         [⟨a.timeline, channel, count, stamp⟩] }, [])

/-- The loop of `_event`. -/
def edges (a : SbgStateAdapter) (channel : ℕ) : List Stamp → SbgStateAdapter × List Dating
  | [] => (a, [])
  | stamp :: stamps =>
    let first := a.edge channel stamp
    let rest := first.1.edges channel stamps
    (rest.1, first.2 ++ rest.2)

/-- `apply`. -/
def apply (a : SbgStateAdapter) (log : SbgLog) : SbgStateAdapter × List Dating :=
  let a := a.noteStamp log.stamp
  match log with
  | .ekfNav stamp => a.carryTime stamp
  | .utcTime stamp m => a.utc stamp m
  | .event stamp channel offsets => a.edges channel ((0 :: offsets).map stamp.plus)
  | .other _ => (a, [])

end SbgStateAdapter

end Mtrtk
