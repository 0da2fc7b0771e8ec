import Mathlib.Data.Rat.Floor
import Mtrtk.Alerts
import Mtrtk.Bisect
import Mtrtk.Crc
import Mtrtk.IntText
import Mtrtk.NameCodes
import Mtrtk.Satellites

/-!
# The NMEA sentences of an epoch

`rover/nmea_out.py` : the sentences that are made of a `ReceiverState`. A body is told by the fields
that its f-string puts between commas (`Fields`). Floats are exact and finite, `math.sqrt` is a given
function.
-/

namespace Mtrtk

namespace Nmea

/-! ## What is read of a state -/

/-- A `datetime` in UTC. -/
structure DateTime where
  year : ℕ
  month : ℕ
  day : ℕ
  hour : ℕ
  minute : ℕ
  second : ℕ
  microsecond : ℕ := 0
  year_le : year ≤ 9999 := by decide
  month_le : month ≤ 12 := by decide
  day_le : day ≤ 31 := by decide
  hour_lt : hour < 24 := by decide
  minute_lt : minute < 60 := by decide
  second_lt : second < 60 := by decide
  microsecond_lt : microsecond < 1000000 := by decide
  deriving DecidableEq

structure Position where
  lat : Option ℚ := none
  lon : Option ℚ := none
  heightM : Option ℚ := none
  hmslM : Option ℚ := none
  invalidLlh : Bool := false
  deriving DecidableEq

structure FixInfo where
  fixType : ℕ := 0
  gnssFixOk : Bool := false
  diffSoln : Bool := false
  carrSoln : ℕ := 0
  numSv : ℕ := 0
  deriving DecidableEq

structure Dops where
  p : Option ℚ := none
  v : Option ℚ := none
  h : Option ℚ := none
  deriving DecidableEq

structure Velocity where
  groundSpeedMps : Option ℚ := none
  headingMotionDeg : Option ℚ := none
  deriving DecidableEq

structure Accuracy where
  hAccM : Option ℚ := none
  vAccM : Option ℚ := none
  deriving DecidableEq

structure RtkStatus where
  corrAgeS : Option ℚ := none
  refStationId : Option ℕ := none
  deriving DecidableEq

structure Attitude where
  rollDeg : Option ℚ := none
  pitchDeg : Option ℚ := none
  headingDeg : Option ℚ := none
  accRollDeg : Option ℚ := none
  accPitchDeg : Option ℚ := none
  accHeadingDeg : Option ℚ := none
  deriving DecidableEq

/-- What the sentences read of `ReceiverState`. -/
structure ReceiverState where
  position : Position := {}
  accuracy : Accuracy := {}
  dops : Dops := {}
  fix : FixInfo := {}
  velocity : Velocity := {}
  utc : Option DateTime := none
  sats : List Satellite := []
  rtk : RtkStatus := {}
  attitude : Option Attitude := none
  deriving DecidableEq

/-! ## Fields -/

/-- What stands between the commas of a body. -/
abbrev Fields := List Str

/-- The body as one text. -/
def body (fields : Fields) : Str := [','].intercalate fields

/-- `f"{n:02X}"`. -/
def twoHex (n : ℕ) : Str :=
  let digits := decodeLatin1 (formatHex n)
  List.replicate (2 - digits.length) '0' ++ digits

/-- `_sentence`. -/
def sentence (fields : Fields) : List UInt8 :=
  encode ('$' :: body fields ++ '*' :: twoHex (nmeaChecksum (encode (body fields))) ++ ['\r', '\n'])

/-- `str.zfill` of a text without a sign. -/
def zfill (width : ℕ) (text : Str) : Str := List.replicate (width - text.length) '0' ++ text

/-- `f"{n}"`. -/
def decimal (n : ℕ) : Str := Nat.toDigits 10 n

/-- `_dec`. -/
def dec (dp : ℕ) : Option ℚ → Str
  | none => []
  | some value =>
    let text := (fixedText dp value).toList
    let text :=
      if '.' ∈ text then
        let trimmed := text.rdropWhile (· = '0')
        if trimmed.getLast? = some '.' then trimmed ++ ['0'] else trimmed
      else text
    if text = "-0.0".toList ∨ text = "-0".toList then "0.0".toList else text

/-- `_fixed`. -/
def fixed (dp : ℕ) : Option ℚ → Str
  | none => []
  | some value => (fixedText dp value).toList

/-- `_hms`. -/
def hms (t : DateTime) : Str :=
  twoDigits t.hour ++ twoDigits t.minute ++ twoDigits t.second ++
    '.' :: twoDigits (t.microsecond / 10000)

/-- `round(x, digits)`. -/
def roundTo (digits : ℕ) (x : ℚ) : ℚ := pyRound (x * 10 ^ digits) / 10 ^ digits

/-- The degrees and the minutes that `_angle` writes. -/
def angleParts (value : ℚ) : ℕ × ℚ :=
  let deg := ⌊|value|⌋.toNat
  let minutes := roundTo 7 ((|value| - deg) * 60)
  -- 59.99999999 minutes are rounded to 60
  if 60 ≤ minutes then (deg + 1, 0) else (deg, minutes)

/-- `_angle`. -/
def angle (degWidth : ℕ) (value : ℚ) : Str :=
  zfill degWidth (decimal (angleParts value).1) ++
    zfill 10 (fixedText 7 (angleParts value).2).toList

/-- `_lat_lon`. -/
def latLon (lat lon : ℚ) (quality : ℕ) : Fields :=
  if quality = 0 then [[], [], [], []]
  else [angle 2 lat, if 0 ≤ lat then ['N'] else ['S'], angle 3 lon, if 0 ≤ lon then ['E'] else ['W']]

/-- `_heading`. -/
def heading (deg : ℚ) : Str :=
  let rounded := roundTo 2 deg
  fixed 2 (some (rounded - 360 * ⌊rounded / 360⌋))

/-! ## The fix -/

/-- `gga_quality`. -/
def ggaQuality (fix : FixInfo) : ℕ :=
  if fix.fixType = 0 then 0
  else if fix.fixType = 1 then 6
  else if fix.fixType = 5 then 7
  else if fix.carrSoln = 2 then 4
  else if fix.carrSoln = 1 then 5
  else if fix.diffSoln then 2 else 1

/-- `_quality`. -/
def quality (state : ReceiverState) : ℕ :=
  if !state.fix.gnssFixOk || state.position.invalidLlh then 0 else ggaQuality state.fix

/-- `POS_MODE`. -/
def posMode : List (ℕ × Str) :=
  [(0, ['N']), (1, ['A']), (2, ['D']), (4, ['R']), (5, ['F']), (6, ['E']), (7, ['M'])]

/-- `POS_MODE[quality]`. -/
def modeOf (quality : ℕ) : Str := (posMode.lookup quality).getD []

/-- `MPS_TO_KNOTS`. -/
def mpsToKnots : ℚ := 1943844 / 1000000

/-- `MPS_TO_KMH`. -/
def mpsToKmh : ℚ := 36 / 10

/-! ## One sentence for an epoch -/

/-- `alt` and `sep` of `build_gga`. -/
def altitude (p : Position) (quality : ℕ) : Str × Str :=
  if quality = 0 then ([], [])
  else
    match p.hmslM with
    | some hmsl => (dec 3 (some hmsl), dec 3 (p.heightM.map (· - hmsl)))
    -- no geoid model : the ellipsoidal height
    | none => (dec 3 p.heightM, if p.heightM.isSome then "0.0".toList else [])

/-- `age` and `station` of `build_gga`. -/
def corrections (r : RtkStatus) (quality : ℕ) : Str × Str :=
  if quality = 2 ∨ quality = 4 ∨ quality = 5 then
    (dec 1 r.corrAgeS, (r.refStationId.map fun n => zfill 4 (decimal n)).getD [])
  else ([], [])

/-- The body of `build_gga`. -/
def gga (state : ReceiverState) : Option Fields := do
  let p := state.position
  let lat ← p.lat
  let lon ← p.lon
  let t ← state.utc
  let q := quality state
  let heights := altitude p q
  let corr := corrections state.rtk q
  return ["GNGGA".toList, hms t] ++ latLon lat lon q ++
    [decimal q, twoDigits (min state.fix.numSv 99), dec 2 state.dops.h, heights.1, ['M'], heights.2,
      ['M'], corr.1, corr.2]

/-- The body of `build_rmc`. -/
def rmc (state : ReceiverState) : Option Fields := do
  let lat ← state.position.lat
  let lon ← state.position.lon
  let t ← state.utc
  let q := quality state
  let v := state.velocity
  return ["GNRMC".toList, hms t, if q = 0 then ['V'] else ['A']] ++ latLon lat lon q ++
    [dec 3 (v.groundSpeedMps.map (· * mpsToKnots)), dec 2 v.headingMotionDeg,
      twoDigits t.day ++ twoDigits t.month ++ twoDigits (t.year % 100), [], [], modeOf q, ['V']]

/-- The body of `build_gst`. -/
def gst (sqrt : ℚ → ℚ) (state : ReceiverState) : Option Fields := do
  let hAcc ← state.accuracy.hAccM
  let t ← state.utc
  let stdH := some (hAcc / sqrt 2)
  let residuals := (state.sats.filter (·.used)).map (·.prResM)
  let rms :=
    if residuals = [] then none
    else some (sqrt ((residuals.map fun r => r * r).sum / residuals.length))
  return ["GNGST".toList, hms t, dec 4 rms, dec 4 stdH, dec 4 stdH, "0.0".toList, dec 4 stdH,
    dec 4 stdH, dec 4 state.accuracy.vAccM]

/-- The body of `build_vtg`. -/
def vtg (state : ReceiverState) : Option Fields := do
  let speed ← state.velocity.groundSpeedMps
  return ["GNVTG".toList, dec 2 state.velocity.headingMotionDeg, ['T'], [], ['M'],
    dec 3 (some (speed * mpsToKnots)), ['N'], dec 3 (some (speed * mpsToKmh)), ['K'],
    modeOf (quality state)]

/-- The body of `build_zda`. -/
def zda (state : ReceiverState) : Option Fields := do
  let t ← state.utc
  return ["GNZDA".toList, hms t, twoDigits t.day, twoDigits t.month, decimal t.year, ['0', '0'],
    ['0', '0']]

/-- The body of `build_hdt`. -/
def hdt (state : ReceiverState) : Option Fields := do
  let att ← state.attitude
  let deg ← att.headingDeg
  return ["GNHDT".toList, heading deg, ['T']]

/-- The body of `build_pashr`. -/
def pashr (state : ReceiverState) : Option Fields := do
  let att ← state.attitude
  let t ← state.utc
  let deg ← att.headingDeg
  let q := quality state
  let flag := if q = 4 then ['2'] else if q = 0 then ['0'] else ['1']
  return ["PASHR".toList, hms t, heading deg, ['T'], fixed 2 att.rollDeg, fixed 2 att.pitchDeg,
    "0.00".toList, fixed 3 att.accRollDeg, fixed 3 att.accPitchDeg, fixed 3 att.accHeadingDeg, flag,
    ['1']]

/-! ## The satellites -/

/-- A constellation of `SYSTEM_TALKER`, with the number of its satellites there. -/
structure Talker where
  gnss : String
  talker : Str
  systemId : ℕ
  signalId : ℕ

/-- `SYSTEM_TALKER`. -/
def systemTalker : List Talker :=
  [⟨"GPS", ['G', 'P'], 1, 1⟩, ⟨"GLONASS", ['G', 'L'], 2, 1⟩, ⟨"Galileo", ['G', 'A'], 3, 7⟩,
    ⟨"BeiDou", ['G', 'B'], 4, 1⟩, ⟨"QZSS", ['G', 'Q'], 5, 1⟩]

/-- `_nmea_sv`. -/
def nmeaSv (sat : Satellite) : Option ℕ :=
  if sat.gnss = "GLONASS" then
    if 1 ≤ sat.svId ∧ sat.svId ≤ 32 then some (sat.svId + 64) else none
  else some sat.svId

/-- The group of `_by_system` for a constellation. -/
def group (sats : List Satellite) (system : Talker) : List (ℕ × Satellite) :=
  sats.filterMap fun sat => if sat.gnss = system.gnss then (nmeaSv sat).map (·, sat) else none

/-- `_by_system`, without the constellations that have no satellite. -/
def bySystem (sats : List Satellite) : List (Talker × List (ℕ × Satellite)) :=
  (systemTalker.map fun system => (system, group sats system)).filter fun g => g.2 ≠ []

/-- The bodies of `build_gsa`. -/
def gsa (state : ReceiverState) : List Fields :=
  (bySystem state.sats).map fun (system, sats) =>
    let navMode := if 3 ≤ state.fix.fixType then ['3'] else if state.fix.fixType = 2 then ['2']
      else ['1']
    let used := ((sats.filter (·.2.used)).map fun s => twoDigits s.1).take 12
    [system.talker ++ "GSA".toList, ['A'], navMode] ++ used ++ List.replicate (12 - used.length) [] ++
      [dec 2 state.dops.p, dec 2 state.dops.h, dec 2 state.dops.v, hexText system.systemId]

/-- `_gsv_angles`. -/
def gsvAngles (sat : Satellite) : Fields :=
  match sat.elev with
  | none => [[], []]
  | some elev =>
    if elev < 0 ∨ 90 < elev then [[], []]
    else
      match sat.azim with
      | none => [twoDigits elev.toNat, []]
      | some azim =>
        if azim < 0 ∨ 360 < azim then [twoDigits elev.toNat, []]
        else [twoDigits elev.toNat, zfill 3 (decimal (azim % 360).toNat)]

/-- What `build_gsv` says of a satellite. -/
def gsvGroup (s : ℕ × Satellite) : Fields :=
  twoDigits s.1 :: gsvAngles s.2 ++ [if s.2.cno = 0 then [] else twoDigits s.2.cno]

/-- The bodies of `build_gsv` for one constellation. -/
def gsvOf (system : Talker) (sats : List (ℕ × Satellite)) : List Fields :=
  let chunks := Bisect.chunked 4 sats
  chunks.zipIdx.map fun (chunk, i) =>
    [system.talker ++ "GSV".toList, decimal chunks.length, decimal (i + 1), twoDigits sats.length] ++
      chunk.flatMap gsvGroup ++ [hexText system.signalId]

/-- The bodies of `build_gsv`. -/
def gsv (state : ReceiverState) : List Fields :=
  (bySystem state.sats).flatMap fun g => gsvOf g.1 g.2

/-! ## All of an epoch -/

/-- `ALL_SENTENCES`. -/
def allSentences : List String :=
  ["GGA", "RMC", "GST", "VTG", "HDT", "PASHR", "GSA", "GSV", "ZDA"]

/-- `SLOW_SENTENCES`. -/
def slowSentences : List String := ["GSA", "GSV", "ZDA"]

/-- `ATTITUDE_SENTENCES`. -/
def attitudeSentences : List String := ["HDT", "PASHR"]

/-- `_MULTI[name]`, or the sentence of `_SINGLE[name]` if there is one. -/
def bodiesOf (sqrt : ℚ → ℚ) (state : ReceiverState) (name : String) : List Fields :=
  match name with
  | "GGA" => (gga state).toList
  | "RMC" => (rmc state).toList
  | "GST" => (gst sqrt state).toList
  | "VTG" => (vtg state).toList
  | "HDT" => (hdt state).toList
  | "PASHR" => (pashr state).toList
  | "GSA" => gsa state
  | "GSV" => gsv state
  | "ZDA" => (zda state).toList
  | _ => []

/-- `_has_position`. -/
def hasPosition (state : ReceiverState) : Bool :=
  state.position.lat.isSome && state.position.lon.isSome && state.utc.isSome

/-- The bodies of `build_sentences`. -/
def bodies (sqrt : ℚ → ℚ) (state : ReceiverState) (wanted : List String) (includeSlow : Bool) :
    List Fields :=
  (allSentences.filter fun name => name ∈ wanted ∧ (name ∈ slowSentences → includeSlow = true) ∧
    (hasPosition state = true ∨ name ∈ attitudeSentences)).flatMap (bodiesOf sqrt state)

/-- `build_sentences`. -/
def buildSentences (sqrt : ℚ → ℚ) (state : ReceiverState) (wanted : List String)
    (includeSlow : Bool) : List (List UInt8) :=
  (bodies sqrt state wanted includeSlow).map sentence

end Nmea

end Mtrtk
