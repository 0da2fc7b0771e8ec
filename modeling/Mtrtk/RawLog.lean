import Mathlib.Algebra.Order.Ring.Rat
import Mathlib.Data.Multiset.AddSub
import Mathlib.Data.Rat.Floor
import Mathlib.Logic.Function.Basic
import Mathlib.Tactic.Common
import Mtrtk.Frames
import Mtrtk.Sha256

/-!
# The raw logger

`rawlog/writer.py` : `RawLogWriter` appends the UBX frames of its filter to one file per UTC
hour, and keeps a sidecar next to each. The open hour's sidecar is in memory (`OpenLog`); it
is dumped when the hour is opened, about once a minute, and when it is closed.

`Root` is the directory the hours are in, under their hour. Readings of the receiver's clock
and of the monotonic clock are rationals, in seconds; an hour is the number of hours since
the epoch, and stands for the path `log_path` makes of it. `msg_counts` is the multiset of
the identities counted. Reads and writes of files do not fail, a dump is one step, and what
`flush` and `fsync` do is not seen. The bus, the log and the back-pressure are left out.

`filed`, `held` and `ended` are not in the source : the frames written, each with its hour,
the frames that are in `_pending`, and the clock each hour was last closed under.
-/

namespace Mtrtk

/-! ## Frames -/

/-- What `parsed()` finds in a NAV-PVT : the validity flags, the date and the time to the
minute, in minutes, and the second. -/
structure NavPvt where
  validDate : Bool
  validTime : Bool
  minute : ℤ
  second : ℤ
  deriving DecidableEq, Repr

/-- A frame, as far as the logger reads it. `parsed` is `none` where `parsed()` or the
`datetime` made of it raises. -/
structure LogFrame where
  proto : Proto
  identity : String
  raw : List UInt8
  raw_ne : raw ≠ []
  parsed : Option NavPvt := none
  deriving DecidableEq, Repr

/-- The bytes of the frames, one after the other. -/
def rawOf (frames : List LogFrame) : List UInt8 := frames.flatMap LogFrame.raw

/-- How often each identity comes among the frames. -/
def countsOf (frames : List LogFrame) : Multiset String := (frames.map LogFrame.identity : List _)

@[simp] theorem rawOf_nil : rawOf [] = [] := rfl

@[simp] theorem rawOf_append (fs gs : List LogFrame) : rawOf (fs ++ gs) = rawOf fs ++ rawOf gs :=
  List.flatMap_append

@[simp] theorem rawOf_singleton (f : LogFrame) : rawOf [f] = f.raw := by simp [rawOf]

@[simp] theorem countsOf_nil : countsOf [] = 0 := rfl

@[simp] theorem countsOf_append (fs gs : List LogFrame) :
    countsOf (fs ++ gs) = countsOf fs + countsOf gs := by simp [countsOf]

@[simp] theorem countsOf_singleton (f : LogFrame) : countsOf [f] = {f.identity} := rfl

@[simp] theorem rawOf_eq_nil {frames : List LogFrame} : rawOf frames = [] ↔ frames = [] := by
  refine ⟨fun h => ?_, fun h => h ▸ rfl⟩
  rcases frames with _ | ⟨f, fs⟩
  · rfl
  · exact absurd (List.append_eq_nil_iff.1 h).1 f.raw_ne

/-! ## Sidecars -/

/-- `Sidecar`. -/
structure Sidecar where
  stationId : String
  role : String
  startUtc : Option ℚ
  endUtc : Option ℚ := none
  hourUtc : Option ℤ := none
  bytes : ℕ := 0
  msgCounts : Multiset String := 0
  sha256 : Option String := none
  firmware : String := ""
  site : Option String := none
  keep : Bool := false
  timeSource : String := "receiver"
  complete : Bool := false
  recovered : Bool := false
  endUtcSource : Option String := none
  deriving DecidableEq

/-- The log directory : the file of an hour, and its sidecar. `sidecar` is `none` where
`Sidecar.load` raises. -/
structure Root where
  file : ℤ → Option (List UInt8) := fun _ => none
  sidecar : ℤ → Option Sidecar := fun _ => none

namespace Root

/-- What a read of the file gives, nothing if there is no file. -/
def content (root : Root) (hour : ℤ) : List UInt8 := (root.file hour).getD []

/-- Opened with `"ab"` and written to. -/
def append (root : Root) (hour : ℤ) (raw : List UInt8) : Root :=
  { root with file := Function.update root.file hour (some (root.content hour ++ raw)) }

/-- `Sidecar.dump`. -/
def dump (root : Root) (hour : ℤ) (sidecar : Sidecar) : Root :=
  { root with sidecar := Function.update root.sidecar hour (some sidecar) }

end Root

/-! ## The open hour -/

/-- `_OpenLog`. `hasher` is the bytes it was fed. -/
structure OpenLog where
  hour : ℤ
  sidecar : Sidecar
  hasher : List UInt8 := []
  deriving DecidableEq

namespace OpenLog

/-- `_carry_over`. -/
def carryOver (sidecar : Sidecar) : Option Sidecar → Sidecar
  | none => { sidecar with recovered := true }
  | some previous =>
    { sidecar with
      recovered := true
      msgCounts := previous.msgCounts
      startUtc := previous.startUtc.or sidecar.startUtc
      keep := previous.keep || sidecar.keep
      firmware := if sidecar.firmware = "" then previous.firmware else sidecar.firmware
      site := (sidecar.site.filter (· ≠ "")).or previous.site
      timeSource := if previous.timeSource = "" then sidecar.timeSource else previous.timeSource }

/-- `__init__`. -/
def new (root : Root) (hour : ℤ) (sidecar : Sidecar) : OpenLog :=
  let content := root.content hour
  if content = [] then { hour, sidecar }
  else
    { hour
      sidecar := carryOver { sidecar with bytes := content.length } (root.sidecar hour)
      hasher := content }

/-- `write_bulk`, without the write to the file. -/
def writeBulk (log : OpenLog) (raw : List UInt8) (counts : Multiset String) : OpenLog :=
  { log with
    hasher := log.hasher ++ raw
    sidecar := { log.sidecar with
      bytes := log.sidecar.bytes + raw.length
      msgCounts := log.sidecar.msgCounts + counts } }

/-- `write`, without the write to the file. -/
def write (log : OpenLog) (raw : List UInt8) (identity : String) : OpenLog :=
  log.writeBulk raw {identity}

/-- The sidecar `close` dumps. -/
def finished (log : OpenLog) (endUtc : Option ℚ) : Sidecar :=
  { log.sidecar with endUtc, sha256 := some (Sha256.sha256Hex log.hasher), complete := true }

end OpenLog

/-! ## The writer -/

def pendingCapBytes : ℕ := 8 * 1024 * 1024
def sidecarUpdate : ℚ := 60

/-- The hour a reading is in. -/
def hourOf (utc : ℚ) : ℤ := ⌊utc / 3600⌋

/-- `RawLogWriter`. -/
structure RawLogWriter where
  stationId : String
  filter : List String
  role : String := "base"
  firmware : String := ""
  site : Option String := none
  root : Root := {}
  current : Option OpenLog := none
  pending : List UInt8 := []
  pendingCounts : Multiset String := 0
  utc : Option ℚ := none
  utcMono : Option ℚ := none
  closedHour : Option ℤ := none
  frozenUtc : Option ℚ := none
  timeSource : String := "receiver"
  lastSidecar : ℚ := 0
  filed : List (ℤ × LogFrame) := []
  held : List LogFrame := []
  ended : ℤ → Option ℚ := fun _ => none

namespace RawLogWriter

/-- `_current.dump_sidecar`. -/
def dumpSidecar (w : RawLogWriter) : RawLogWriter :=
  match w.current with
  | none => w
  | some log => { w with root := w.root.dump log.hour log.sidecar }

/-- `_current.write(frame.raw, identity)`. -/
def write (w : RawLogWriter) (frame : LogFrame) : RawLogWriter :=
  match w.current with
  | none => w
  | some log =>
    { w with
      current := some (log.write frame.raw frame.identity)
      root := w.root.append log.hour frame.raw
      filed := w.filed ++ [(log.hour, frame)] }

/-- `_current.write_bulk` of what is pending. -/
def writePending (w : RawLogWriter) : RawLogWriter :=
  match w.current with
  | none => w
  | some log =>
    if w.pending = [] then w
    else
      { w with
        current := some (log.writeBulk w.pending w.pendingCounts)
        root := w.root.append log.hour w.pending
        pending := []
        pendingCounts := 0
        filed := w.filed ++ w.held.map (log.hour, ·)
        held := [] }

/-- `_close_current`, if an hour is open. -/
def closeCurrent (w : RawLogWriter) : RawLogWriter :=
  match w.current with
  | none => w
  | some log =>
    { w with
      current := none
      root := w.root.dump log.hour (log.finished w.utc)
      ended := Function.update w.ended log.hour w.utc }

/-- The new `_OpenLog` of `_rotate`. -/
def openHour (w : RawLogWriter) (hour : ℤ) : RawLogWriter :=
  { w with
    current := some (.new w.root hour {
      stationId := w.stationId, role := w.role, startUtc := w.utc, hourUtc := some hour
      firmware := w.firmware, site := w.site, timeSource := w.timeSource })
    root := w.root.append hour [] }

/-- `_rotate`. -/
def rotate (w : RawLogWriter) (hour : ℤ) : RawLogWriter :=
  ((w.closeCurrent.openHour hour).writePending).dumpSidecar

/-- `set_keep`. -/
def setKeep (w : RawLogWriter) (keep : Bool) : RawLogWriter :=
  match w.current with
  | none => w
  | some log =>
    { w with current := some { log with sidecar := { log.sidecar with keep } } }.dumpSidecar

/-- The `firmware` setter. -/
def setFirmware (w : RawLogWriter) (firmware : String) : RawLogWriter :=
  { w with
    firmware
    current := w.current.map fun log => { log with sidecar := { log.sidecar with firmware } } }

/-- The `site` setter. -/
def setSite (w : RawLogWriter) (site : Option String) : RawLogWriter :=
  { w with
    site
    current := w.current.map fun log => { log with sidecar := { log.sidecar with site } } }

/-- `note_utc`, at `now` on the monotonic clock. -/
def noteUtc (w : RawLogWriter) (now utc : ℚ) : RawLogWriter :=
  let thawed := w.frozenUtc.any (· ≠ utc)
  { w with
    frozenUtc := if thawed then none else w.frozenUtc
    closedHour := if thawed then none else w.closedHour
    utc := some utc
    utcMono := some now
    timeSource := "receiver" }

/-- `_clamp_second`. -/
def clampSecond (second : ℤ) : ℤ := min (max second 0) 59

/-- `_update_time`, of what `parsed()` found. -/
def updateTime (w : RawLogWriter) (now : ℚ) (m : NavPvt) : RawLogWriter :=
  if m.validDate && m.validTime then w.noteUtc now (60 * m.minute + clampSecond m.second) else w

/-- The hour the host's clock names, once too much is pending. -/
def nameByHost (w : RawLogWriter) (now host : ℚ) : RawLogWriter :=
  { w with utc := some host, utcMono := some now, timeSource := "host" }.rotate (hourOf host)

/-- One more frame is pending. -/
def hold (w : RawLogWriter) (frame : LogFrame) : RawLogWriter :=
  { w with
    pending := w.pending ++ frame.raw
    pendingCounts := w.pendingCounts + {frame.identity}
    held := w.held ++ [frame] }

/-- `_buffer_pending`. -/
def bufferPending (w : RawLogWriter) (now host : ℚ) (frame : LogFrame) : RawLogWriter :=
  if (w.hold frame).pending.length > pendingCapBytes then (w.hold frame).nameByHost now host
  else w.hold frame

/-- The hour a frame is filed under : the clock's, or the one after the hour the ticker
closed. -/
def nameHour (w : RawLogWriter) (utc : ℚ) : ℤ :=
  match w.closedHour with
  | none => hourOf utc
  | some closed => if hourOf utc ≤ closed then closed + 1 else hourOf utc

/-- Rotate, unless the hour is open. -/
def rotateTo (w : RawLogWriter) (hour : ℤ) : RawLogWriter :=
  if w.current.map OpenLog.hour = some hour then w else w.rotate hour

/-- `handle`, of a frame whose identity passes the filter. -/
def fileFrame (w : RawLogWriter) (now host : ℚ) (frame : LogFrame) : RawLogWriter :=
  match w.utc with
  | none => w.bufferPending now host frame
  | some utc => (w.rotateTo (w.nameHour utc)).write frame

/-- `handle`. A NAV-PVT that does not parse raises. -/
def handle (w : RawLogWriter) (now host : ℚ) (frame : LogFrame) : RawLogWriter :=
  if frame.proto ≠ .ubx then w
  else
    let read := if frame.identity = "NAV-PVT" then frame.parsed.map (w.updateTime now) else some w
    match read with
    | none => w
    | some w => if frame.identity ∈ w.filter then w.fileFrame now host frame else w

/-- `_close_elapsed_hour`. -/
def closeElapsedHour (w : RawLogWriter) (now : ℚ) : RawLogWriter :=
  match w.current, w.utc, w.utcMono with
  | some log, some utc, some mono =>
    let elapsed := now - mono
    if elapsed ≤ 0 then w
    else if utc + elapsed < 3600 * (log.hour + 1) then w
    else
      { w.closeCurrent with
        frozenUtc := w.frozenUtc.or (some utc)
        utc := some (utc + elapsed)
        utcMono := some now
        closedHour := some log.hour }
  | _, _, _ => w

/-- The periodic dump of `tick`. -/
def refreshSidecar (w : RawLogWriter) (now : ℚ) : RawLogWriter :=
  if now - w.lastSidecar ≥ sidecarUpdate then { w.dumpSidecar with lastSidecar := now } else w

/-- `tick`. -/
def tick (w : RawLogWriter) (now : ℚ) : RawLogWriter :=
  if w.current.isNone then w
  else if (w.closeElapsedHour now).current.isNone then w.closeElapsedHour now
  else (w.closeElapsedHour now).refreshSidecar now

/-- `close`. -/
def close (w : RawLogWriter) : RawLogWriter := w.closeCurrent

/-! ## Its operations -/

/-- What is called of a writer. `now` is the monotonic clock, `host` the host's. -/
inductive Op
  | handle (now host : ℚ) (frame : LogFrame)
  | noteUtc (now utc : ℚ)
  | tick (now : ℚ)
  | firmware (value : String)
  | site (value : Option String)
  | close
  deriving DecidableEq, Repr

/-- The writer after the call. -/
def apply (w : RawLogWriter) : Op → RawLogWriter
  | .handle now host frame => w.handle now host frame
  | .noteUtc now utc => w.noteUtc now utc
  | .tick now => w.tick now
  | .firmware value => w.setFirmware value
  | .site value => w.setSite value
  | .close => w.close

/-- `current_path`, as the hour it names. -/
def currentHour (w : RawLogWriter) : Option ℤ := w.current.map OpenLog.hour

end RawLogWriter

end Mtrtk
