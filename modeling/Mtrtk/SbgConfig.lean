import Mathlib.Data.Rat.Defs
import Mathlib.Algebra.Order.Ring.Rat
import Mtrtk.Coroutine
import Mtrtk.Dict
import Mtrtk.SbgCommands

/-!
# The configuration of the SBG unit

`rover/drivers/sbg/config.py` : `_configure` reads every item of the profile, and with `apply` sets
those that differ, reads them back, and saves the settings to flash. Floats are exact here; what the
unit reads back of one may differ from it, as the `f32` of the wire does. An `SbgCommandError` is
its code and its text, and a `ConnectionError` says how far the frame went out. The date of today
and what `parse_imu_axis` makes of `INS_IMU_AXIS` are given. Of the message to `receiver.error` only
the parts that are in the report are told.
-/

namespace Mtrtk

namespace Sbg

/-! ## Values -/

abbrev Vec3 := ℚ × ℚ × ℚ

structure GnssInstallation where
  leverArmPrimary : Vec3
  primaryPrecise : Bool
  leverArmSecondary : Vec3
  secondaryMode : ℕ
  deriving DecidableEq

structure ImuAlignment where
  axisX : ℕ
  axisY : ℕ
  misRoll : ℚ
  misPitch : ℚ
  misYaw : ℚ
  leverArm : Vec3
  deriving DecidableEq

structure AidingAssignment where
  gps1Port : ℕ
  gps1Sync : ℕ
  dvlPort : ℕ
  dvlSync : ℕ
  rtcmPort : ℕ
  airDataPort : ℕ
  odometerPins : ℕ
  deriving DecidableEq

structure InitParameters where
  latitude : ℚ
  longitude : ℚ
  altitude : ℚ
  date : Option ℕ
  deriving DecidableEq

structure UartConf where
  interface : ℕ
  baud : ℕ
  mode : ℕ
  deriving DecidableEq

/-- What the unit reports of an item. -/
inductive Value
  | mode (n : ℕ)
  | enabled (b : Bool)
  | gnss (v : GnssInstallation)
  | imu (v : ImuAlignment)
  | aiding (v : AidingAssignment)
  | init (v : InitParameters)
  | uart (v : UartConf)
  deriving DecidableEq

/-- `FLOAT_TOL`. -/
def floatTol : ℚ := 1 / 1000000

/-- `math.isclose` with `FLOAT_TOL`. -/
def isClose (a b : ℚ) : Bool := |a - b| ≤ max (floatTol * max |a| |b|) floatTol

def vecClose (a b : Vec3) : Bool :=
  isClose a.1 b.1 && isClose a.2.1 b.2.1 && isClose a.2.2 b.2.2

/-- `same` : the date of an initial position is not compared. -/
def same : Value → Value → Bool
  | .gnss a, .gnss b =>
    vecClose a.leverArmPrimary b.leverArmPrimary && a.primaryPrecise == b.primaryPrecise &&
      vecClose a.leverArmSecondary b.leverArmSecondary && a.secondaryMode == b.secondaryMode
  | .imu a, .imu b =>
    a.axisX == b.axisX && a.axisY == b.axisY && isClose a.misRoll b.misRoll &&
      isClose a.misPitch b.misPitch && isClose a.misYaw b.misYaw && vecClose a.leverArm b.leverArm
  | .init a, .init b =>
    isClose a.latitude b.latitude && isClose a.longitude b.longitude &&
      isClose a.altitude b.altitude
  | a, b => a == b

/-- `not after`. -/
def Value.isFalse : Value → Bool
  | .mode n => n = 0
  | .enabled b => !b
  | _ => false

/-! ## The profile -/

/-- What the configuration reads of `Settings`. -/
structure Settings where
  outputHz : ℕ := 10
  rawGnss : Bool := true
  leverArmGnss1 : Option Vec3 := none
  leverArmGnss2 : Option Vec3 := none
  /-- What `parse_imu_axis` makes of `INS_IMU_AXIS`. -/
  imuAxes : Except String (Option (ℕ × ℕ)) := .ok none
  imuLeverArm : Option Vec3 := none
  /-- `INS_MOTION_PROFILE`, if it is set. -/
  motionProfile : Option String := none
  ntripUrl : Bool := false
  rtcmPort : Bool := false
  initPosition : Option Vec3 := none
  baud : ℕ := 115200
  rtcmBaud : Option ℕ := none
  applyConfig : Bool := false

/-- `HZ_TO_MODE`. -/
def hzToMode : Dict ℕ ℕ :=
  [(200, 1), (100, 2), (50, 4), (40, 5), (25, 8), (20, 10), (10, 20), (5, 40), (2, 100), (1, 200)]

/-- `MOTION_PROFILE_IDS`. -/
def motionProfileIds : Dict String ℕ :=
  [("general", 1), ("automotive", 2), ("marine", 3), ("airplane", 4), ("helicopter", 5),
    ("pedestrian", 6), ("uav", 7)]

/-- `GNSS_INSTALL_MODE["DUAL_PRECISE"]`. -/
def dualPrecise : ℕ := 4

/-- `OUTPUT_MODE["NEW_DATA"]`. -/
def newData : ℕ := 10001

/-- `LOG` and the mode of each output in `_default_outputs`. -/
def defaultOutputs (nav : ℕ) (rawGnss : Bool) : List (String × UInt8 × ℕ) :=
  [("STATUS", 1, 200), ("UTC_TIME", 2, 200), ("IMU_SHORT", 44, nav), ("EKF_EULER", 6, nav),
    ("EKF_NAV", 8, nav), ("EKF_QUAT", 7, 0), ("IMU_DATA", 3, 0), ("SHIP_MOTION", 9, 0),
    ("GPS1_POS", 14, newData), ("GPS1_VEL", 13, newData), ("GPS1_HDT", 15, newData),
    ("GPS1_SAT", 50, newData), ("GPS1_RAW", 31, if rawGnss then newData else 0),
    ("RTCM_RAW", 49, newData), ("EVENT_A", 24, newData), ("EVENT_B", 25, newData),
    ("EVENT_C", 26, newData), ("EVENT_D", 27, newData), ("EVENT_E", 28, newData), ("MAG", 4, 0)]

/-- `NMEA_CLASSES`, as in `CLASS`. -/
def nmeaClasses : List (String × UInt8) :=
  [("LOG_NMEA_0", 2), ("LOG_NMEA_1", 3), ("LOG_NMEA_GNSS", 5)]

/-- `FAST_OUTPUT_HZ`. -/
def fastOutputHz : ℕ := 50

/-- `FAST_OUTPUT_MIN_BAUD`. -/
def fastOutputMinBaud : ℕ := 460800

/-- `_is_fast` : the main loop has 200 Hz. -/
def isFast (mode : ℕ) : Bool := 1 ≤ mode && mode ≤ 200 && fastOutputHz * mode < 200

/-- `gnss_installation_target`. -/
def gnssTarget (s : Settings) : Value → Option Value
  | .gnss current =>
    if s.leverArmGnss1.isNone && s.leverArmGnss2.isNone then none
    else
      let want := match s.leverArmGnss1 with
        | some arm => { current with leverArmPrimary := arm, primaryPrecise := true }
        | none => current
      let want := match s.leverArmGnss2 with
        | some arm => { want with leverArmSecondary := arm, secondaryMode := dualPrecise }
        | none => want
      some (.gnss want)
  | _ => none

/-- `imu_alignment_target`. -/
def imuTarget (axes : Option (ℕ × ℕ)) (s : Settings) : Value → Option Value
  | .imu current =>
    if axes.isNone && s.imuLeverArm.isNone then none
    else
      let want := match axes with
        | some (x, y) => { current with axisX := x, axisY := y }
        | none => current
      let want := match s.imuLeverArm with
        | some arm => { want with leverArm := arm }
        | none => want
      some (.imu want)
  | _ => none

/-- `aiding_target` : `PORT_B` with `INS_RTCM_PORT`, else `PORT_A`, where corrections are fed. -/
def aidingTarget (s : Settings) : Value → Option Value
  | .aiding current =>
    if s.ntripUrl || s.rtcmPort then
      some (.aiding { current with rtcmPort := if s.rtcmPort then 1 else 0 })
    else none
  | _ => none

/-- `init_target`. -/
def initTarget (today : ℕ) (s : Settings) : Value → Option Value
  | .init _ => s.initPosition.map fun (lat, lon, alt) => .init ⟨lat, lon, alt, some today⟩
  | _ => none

/-! ## The items -/

/-- `_Item`. The unit is asked with `command` and `selector`. -/
structure Item where
  name : String
  command : Command
  selector : List UInt8
  writable : Bool := true
  target : Value → Option Value
  optional : Bool := false
  fast : Bool := false

/-- `CMD["UART_CONF"]`. -/
def uartConf : Command := ⟨23, by decide⟩

/-- `CMD["OUTPUT_CONF"]`. -/
def outputConf : Command := ⟨30, by decide⟩

/-- `CMD["OUTPUT_CLASS_ENABLE"]`. -/
def outputClassEnable : Command := ⟨35, by decide⟩

/-- `PORT_A`. -/
def portA : UInt8 := 0

/-- The name of the item for Port A's baud. -/
def uartA : String := "uart:COM_A"

/-- The name of the item for Port B's baud. -/
def uartB : String := "uart:COM_B"

/-- The item of an output. -/
def outputItem (o : String × UInt8 × ℕ) : Item where
  name := "output:" ++ o.1
  command := outputConf
  selector := [portA, o.2.1, 0]
  target _ := some (.mode o.2.2)
  optional := true
  fast := isFast o.2.2

/-- The item of an output class. -/
def classItem (c : String × UInt8) : Item where
  name := "class:" ++ c.1
  command := outputClassEnable
  selector := [portA, c.2]
  target _ := some (.enabled false)
  optional := true

/-- The items that are read first, and never set. -/
def uartItems (s : Settings) : List Item :=
  ⟨uartA, uartConf, [0], false, fun _ => none, false, false⟩ ::
    if s.rtcmPort then [⟨uartB, uartConf, [1], false, fun _ => none, true, false⟩] else []

/-- The items behind the outputs. -/
def unitItems (today : ℕ) (axes : Option (ℕ × ℕ)) (s : Settings) : List Item :=
  [{ name := "motion_profile", command := ⟨7, by decide⟩, selector := []
     target _ := (s.motionProfile.bind motionProfileIds.get).map Value.mode },
   { name := "gnss_installation", command := ⟨46, by decide⟩, selector := []
     target := gnssTarget s },
   { name := "imu_alignment", command := ⟨8, by decide⟩, selector := []
     target := imuTarget axes s },
   { name := "aiding_assignment", command := ⟨9, by decide⟩, selector := []
     target := aidingTarget s },
   { name := "init_position", command := ⟨5, by decide⟩, selector := []
     target := initTarget today s }]

/-- `_items` of `sbg_profile`. -/
def items (today : ℕ) (s : Settings) : Except String (List Item) := do
  let nav ← match hzToMode.get s.outputHz with
    | some mode => pure mode
    | none => .error ("INS_OUTPUT_HZ: " ++ toString s.outputHz ++ " Hz is not an sbgECom output " ++
        "rate; choose from [1, 2, 5, 10, 20, 25, 40, 50, 100, 200]")
  let axes ← s.imuAxes
  return uartItems s ++ (defaultOutputs nav s.rawGnss).map outputItem ++ nmeaClasses.map classItem ++
    unitItems today axes s

/-! ## The report -/

/-- `SbgCommandError`. -/
structure CommandError where
  code : Option ℕ
  text : String

/-- How far the write of a frame has come when the link is lost. -/
inductive Written
  | no
  /-- `InsController.write` failed : the transport may have some of the frame, or all. -/
  | stalled
  /-- `stats["writes"]` counts it. -/
  | done

/-- Why a command fails. -/
inductive Fault
  | command (e : CommandError)
  /-- `ConnectionError`. -/
  | linkLost (written : Written)

/-- `SbgConfigReport`. -/
structure Report where
  serial : Option ℕ := none
  applied : List String := []
  unchanged : List String := []
  pending : List String := []
  mismatched : List String := []
  unsupported : List String := []
  errors : List String := []
  notes : List String := []
  current : Dict String Value := []
  wanted : Dict String Value := []
  saved : Bool := false

/-- `_link_too_slow`. -/
def linkTooSlow (report : Report) (s : Settings) : Option String :=
  if s.outputHz ≤ fastOutputHz then none
  else
    let (baud, source) := match report.current.get uartA with
      | some (.uart uart) => (uart.baud, "Port A runs at " ++ toString uart.baud ++ " baud")
      | _ => (s.baud, "INS_BAUD is " ++ toString s.baud ++ " (Port A unread)")
    if fastOutputMinBaud ≤ baud then none
    else some (source ++ ", INS_OUTPUT_HZ=" ++ toString s.outputHz ++ " needs " ++
      toString fastOutputMinBaud ++ " or more (set it in sbgCenter)")

/-- `_port_b_mismatch`. -/
def portBMismatch (report : Report) (s : Settings) : Option String :=
  let want := match s.rtcmBaud with
    | some (n + 1) => n + 1
    | _ => s.baud
  match report.current.get uartB with
  | some (.uart uart) =>
    if uart.baud = want then none
    else
      let which := if s.rtcmBaud.any (· ≠ 0) then "INS_RTCM_BAUD"
        else "INS_RTCM_BAUD unset, so INS_BAUD"
      some ("uart:COM_B: Port B runs at " ++ toString uart.baud ++
        " baud, but INS_RTCM_PORT is opened at " ++ toString want ++ " (" ++ which ++
        "): the RTCM written there will not decode; set INS_RTCM_BAUD=" ++ toString uart.baud)
  | _ => none

/-! ## `_configure` -/

/-- What `_configure` asks of the unit. -/
inductive Query
  | info
  | get (item : Item)
  | set (item : Item) (want : Value)
  | save

/-- What it is answered. Of `INFO` the serial number is told. -/
abbrev Answer : Query → Type
  | .info => Except Fault ℕ
  | .get _ => Except Fault Value
  | .set _ _ => Except Fault Unit
  | .save => Except Fault Unit

/-- The driver, and the markers under `DATA_DIR` by serial number. -/
structure DriverState where
  savedThisRun : Bool := false
  ramOnly : List ℕ := []
  dataDirWritable : Bool := true
  configReport : Option Report := none

abbrev Configuring := Co DriverState Query Answer

def getInfo : Configuring (Except Fault ℕ) := Co.ask Query.info
def Item.get (item : Item) : Configuring (Except Fault Value) := Co.ask (Query.get item)
def Item.set (item : Item) (want : Value) : Configuring (Except Fault Unit) :=
  Co.ask (Query.set item want)
def saveSettings : Configuring (Except Fault Unit) := Co.ask Query.save

/-- The report with what is set aside of it. -/
structure Progress where
  report : Report
  /-- The fast outputs that are not written, and why. -/
  held : List String := []
  slowLink : Option String := none

/-- `UNSUPPORTED_OUTPUT_CODES`. -/
def unsupportedOutputCodes : List ℕ := [9, 19]

/-- `report.errors.append`. -/
def Report.fail (r : Report) (text : String) : Report := { r with errors := r.errors ++ [text] }

/-- `report.errors.append`, where there is one. -/
def Report.failIf (r : Report) : Option String → Report
  | some text => r.fail text
  | none => r

/-- The name of an output that is an event. -/
def isEvent (name : String) : Bool := "output:EVENT_".toList.isPrefixOf name.toList

/-- Where the item is set : it is read back. -/
def readBack (p : Progress) (item : Item) (current want : Value) : Configuring (Option Progress) := do
  match ← item.get with
  | .error (.linkLost _) => return none
  | .error (.command e) =>
    return some { p with report := p.report.fail (item.name ++ ": " ++ e.text) }
  | .ok after =>
    let report := { p.report with current := p.report.current.set item.name after }
    if same want after then
      return some { p with report := { report with applied := report.applied ++ [item.name] } }
    -- a Sync In that the unit does not have
    else if isEvent item.name && after.isFalse && same current after then
      return some { p with report := { report with unsupported := report.unsupported ++ [item.name] } }
    else
      return some { p with report := { report with mismatched := report.mismatched ++ [item.name] } }

/-- The item is going to be set, as `report` says. -/
def Progress.checked (p : Progress) (s : Settings) (item : Item) (report : Report) : Progress :=
  { p with report, slowLink := if item.fast then linkTooSlow report s else p.slowLink }

/-- The loop of `_configure` for one item, `none` where the link is lost. -/
def configureItem (s : Settings) (apply : Bool) (p : Progress) (item : Item) :
    Configuring (Option Progress) := do
  match ← item.get with
  | .error (.linkLost _) => return none
  | .error (.command e) =>
    if item.optional && e.code.any (· ∈ unsupportedOutputCodes) then
      return some { p with
        report := { p.report with unsupported := p.report.unsupported ++ [item.name] } }
    else return some { p with report := p.report.fail (item.name ++ ": " ++ e.text) }
  | .ok current =>
    let report := { p.report with current := p.report.current.set item.name current }
    let unchanged := { p with report := { report with unchanged := report.unchanged ++ [item.name] } }
    match item.target current with
    | none => return some unchanged
    | some want =>
      if !item.writable || same want current then return some unchanged
      else
        let report := { report with wanted := report.wanted.set item.name want }
        let pending := { report with pending := report.pending ++ [item.name] }
        if !apply then return some { p with report := pending }
        else if item.fast && (linkTooSlow report s).isSome then
          return some {
            report := pending, held := p.held ++ [item.name], slowLink := linkTooSlow report s }
        else
          let p := p.checked s item report
          match ← item.set want with
          | .error (.linkLost _) => return none
          | .error (.command e) =>
            if e.code.isSome then
              return some { p with report := p.report.fail (item.name ++ ": " ++ e.text) }
            -- no ACK : the read-back decides
            else readBack p item current want
          | .ok () => readBack p item current want

def configureItems (s : Settings) (apply : Bool) :
    Progress → List Item → Configuring (Option Progress)
  | p, [] => return some p
  | p, item :: items => do
    match ← configureItem s apply p item with
    | none => return none
    | some p => configureItems s apply p items

/-- `mark_ram_only`. -/
def markRamOnly (serial : ℕ) (d : DriverState) : DriverState :=
  if d.dataDirWritable then { d with ramOnly := serial :: d.ramOnly.erase serial } else d

/-- `clear_ram_only`. -/
def clearRamOnly (serial : ℕ) (d : DriverState) : DriverState :=
  if d.dataDirWritable then { d with ramOnly := d.ramOnly.filter (· ≠ serial) } else d

/-- The note of a RAM-only apply. -/
def ramOnlyNote : String :=
  "written to the unit's RAM only (INS_APPLY_CONFIG=0): the changes last until the unit restarts. " ++
    "With INS_APPLY_CONFIG=1 the next connect saves them to flash, even though they then read back " ++
    "as unchanged"

/-- The end of `_configure`. -/
def publish (report : Report) : Configuring (Option Report) := do
  modify fun d => { d with configReport := some report }
  return some report

/-- `SAVE_SETTINGS`. -/
def save (serial : ℕ) (ramOnly : Bool) (report : Report) : Configuring (Option Report) := do
  modify fun d => { d with savedThisRun := true }
  match ← saveSettings with
  | .ok () =>
    modify (clearRamOnly serial)
    let notes := if ramOnly then ["saved to flash what an earlier RAM-only apply wrote"] else []
    publish { report with saved := true, notes := report.notes ++ notes }
  | .error (.linkLost .done) =>
    modify (clearRamOnly serial)
    return none
  | .error (.linkLost _) =>
    modify fun d => { d with savedThisRun := false }
    return none
  | .error (.command e) =>
    if e.code.isNone then
      modify (clearRamOnly serial)
      publish (report.fail ("save: SAVE_SETTINGS sent, unconfirmed (no ACK; the unit may already " ++
        "be rebooting)"))
    else publish (report.fail ("save: " ++ e.text))

/-- The error for the outputs that are held. -/
def heldError (p : Progress) : Option String :=
  if p.held = [] then none
  else some ("outputs held: " ++ ", ".intercalate p.held ++ ": " ++ p.slowLink.getD "None")

/-- The report behind the loop. -/
def concluded (s : Settings) (apply : Bool) (p : Progress) : Report :=
  let report := p.report.failIf (heldError p)
  let report := report.failIf (portBMismatch report s)
  let notes := if apply && report.applied ≠ [] && !s.applyConfig then [ramOnlyNote] else []
  { report with notes := report.notes ++ notes }

/-- `_configure` behind the loop. -/
def conclude (s : Settings) (apply : Bool) (serial : ℕ) (p : Progress) :
    Configuring (Option Report) := do
  let report := concluded s apply p
  modify fun d => if apply && report.applied ≠ [] then markRamOnly serial d else d
  let d ← get
  -- a RAM-only apply earlier : nothing is applied now, but it is not in flash yet
  let ramOnly := decide (serial ∈ d.ramOnly) && report.pending = [] && report.mismatched = [] &&
    report.applied = []
  if apply && (report.applied ≠ [] || ramOnly) && report.mismatched = [] && s.applyConfig &&
      !d.savedThisRun then
    match linkTooSlow report s with
    | some blocker => publish (report.fail ("save: held: " ++ blocker))
    | none => save serial ramOnly report
  else publish report

/-- `_configure`, `none` where the link is lost. -/
def configure (today : ℕ) (s : Settings) (apply : Bool) : Configuring (Option Report) := do
  match ← getInfo with
  | .error (.linkLost _) => return none
  | .error (.command e) => publish (Report.fail {} ("info: " ++ e.text))
  | .ok serial =>
    let report : Report := { serial := some serial }
    match items today s with
    | .error text => conclude s apply serial { report := report.fail ("profile: " ++ text) }
    | .ok items =>
      match ← configureItems s apply { report } items with
      | none => return none
      | some p => conclude s apply serial p

end Sbg

end Mtrtk
