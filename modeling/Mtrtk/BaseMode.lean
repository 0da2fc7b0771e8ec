import Mathlib.Algebra.Order.Field.Rat
import Mathlib.Algebra.Order.Group.Unbundled.Abs
import Mtrtk.Coroutine
import Mtrtk.Frames
import Mtrtk.Rounding
import Mtrtk.Sites

/-!
# The base mode manager

`base/basemode.py` : `BaseModeManager` owns the TMODE of the receiver. Its operations are
coroutines that wait for the receiver to answer a write and for the database
(`BaseCall`). `on1005` and `onFix` are handlers and run between these awaits.

The bus is a list of what was published, oldest first. `accepted` and `since` are not in
the source : the last TMODE write the receiver acknowledged, and the last 1005 handled since
the applied site was applied. Positions are exact rationals. `val2sphp` of pyubx2 and the
parser of pyrtcm are parameters, the classes `Pyubx2` and `Pyrtcm`.
-/

namespace Mtrtk

/-- `BaseMode`. -/
inductive BaseMode
  | surveyIn | fixed | off
  deriving DecidableEq, Repr

def BaseMode.value : BaseMode → String
  | .surveyIn => "survey-in"
  | .fixed => "fixed"
  | .off => "off"

/-! ## TMODE items -/

abbrev CfgItems := List (String × ℤ)

/-- What pyubx2 brings. -/
class Pyubx2 where
  /-- `val2sphp` at a scale : the standard and the high precision part. -/
  val2sphp : ℚ → ℚ → ℤ × ℤ

def tmodeOff : CfgItems := [("CFG_TMODE_MODE", 0)]

def tmodeSurveyIn (minDurS : ℤ) (accLimitM : ℚ) : CfgItems :=
  [("CFG_TMODE_MODE", 1), ("CFG_TMODE_SVIN_MIN_DUR", minDurS),
    ("CFG_TMODE_SVIN_ACC_LIMIT", pyRound (accLimitM * 10000))]

/-- The two keys of an axis. -/
def ecefAxis [Pyubx2] (axis : String) (value : ℚ) : CfgItems :=
  [("CFG_TMODE_ECEF_" ++ axis, (Pyubx2.val2sphp value (1 / 100)).1),
    ("CFG_TMODE_ECEF_" ++ axis ++ "_HP", (Pyubx2.val2sphp value (1 / 100)).2)]

def tmodeFixedEcef [Pyubx2] (xM yM zM accM : ℚ) : CfgItems :=
  [("CFG_TMODE_MODE", 2), ("CFG_TMODE_POS_TYPE", 0)] ++ ecefAxis "X" xM ++ ecefAxis "Y" yM ++
    ecefAxis "Z" zM ++ [("CFG_TMODE_FIXED_POS_ACC", pyRound (accM * 10000))]

/-! ## The broadcast ARP -/

/-- `Ecef1005`. -/
structure Ecef1005 where
  stationId : ℕ
  x : ℚ
  y : ℚ
  z : ℚ
  gps : Bool := true
  glonass : Bool := true
  galileo : Bool := true
  deriving DecidableEq, Repr

/-- What pyrtcm brings. -/
class Pyrtcm where
  /-- The fields of a 1005, `none` where it cannot be read. -/
  parse : List UInt8 → Option Ecef1005

/-- `rtcm_type` of an RTCM3 frame. -/
def Frame.rtcmType (frame : Frame) : ℕ :=
  (byteAt frame.raw 3).toNat * 16 + (byteAt frame.raw 4).toNat / 16

def decode1005 [Pyrtcm] (frame : Frame) : Option Ecef1005 :=
  if frame.proto ≠ .rtcm3 ∨ frame.rtcmType ≠ 1005 then none else Pyrtcm.parse frame.raw

/-! ## The manager -/

/-- `VerifyState`. -/
inductive VerifyState
  | verified | mismatched
  deriving DecidableEq, Repr

/-- What the manager publishes on the bus. -/
inductive BaseMessage
  | baseMode (mode : BaseMode) (site : Option String) (reason : Option String)
  | siteVerified (site : String) (dx dy dz : ℚ)
  | siteMismatch (site : String) (dx dy dz : ℚ)
  | siteIneffective (site : String) (reason : String)
  deriving DecidableEq, Repr

/-- SITE_TOLERANCE_M. -/
def siteToleranceM : ℚ := 5 / 10000
def verifyDeadlineS : ℚ := 30
def defaultFixedAccM : ℚ := 1 / 100
def fixTypeTimeOnly : ℕ := 5

def noSiteReason : String := "no active site; falling back to survey-in"
def nakReason : String := "the receiver rejected the TMODE configuration"
def timeoutReason : String := "timeout: the receiver did not answer the TMODE configuration"
def restartStopReason : String :=
  "the receiver did not accept TMODE off; the survey-in was not restarted"
def restartSurveyReason : String :=
  "TMODE is off: the receiver did not accept the new survey-in, so the base is not surveying"

/-- `RestartResult`. -/
inductive RestartResult
  | ok | stopRefused | surveyRefused
  deriving DecidableEq, Repr

/-- `BaseModeManager`. -/
structure BaseModeManager where
  mode : BaseMode
  svinMinDurationS : ℤ
  svinAccLimitM : ℚ
  activeSiteName : Option String := none
  clock : ℚ := 0
  appliedSite : Option Site := none
  last1005 : Option Ecef1005 := none
  verifyState : Option VerifyState := none
  verifyDeadline : Option ℚ := none
  nakSite : Option SiteIdent := none
  pollBaseline : Option SiteIdent := none
  bus : List BaseMessage := []
  accepted : Option CfgItems := none
  since : Option Ecef1005 := none
  deriving DecidableEq

/-- What an operation of the manager waits for. -/
inductive BaseCall
  | applyItems (items : CfgItems)
  | get (name : String)
  | active
  | activate (name : String)

/-- How the receiver answers a write : `timeout` is `LinkTimeout`. -/
inductive Answer
  | ack | nak | timeout
  deriving DecidableEq, Repr

/-- What it gets for it. `none` is the KeyError of `activate`. -/
def BaseCall.Reply : BaseCall → Type
  | applyItems _ => Answer
  | get _ => Option Site
  | active => Option Site
  | activate _ => Option Site

/-- An operation of the manager. -/
abbrev BaseM := Co BaseModeManager BaseCall BaseCall.Reply

/-- An exception, `KeyError`, that no operation catches. -/
abbrev KeyError := String

/-- A name as an `if` takes it : the empty one counts as none. -/
def truthy (name : Option String) : Option String := name.filter (· ≠ "")

/-- What `_apply_fixed` writes for a site : a `sigma_3d` of zero counts as none. -/
def Site.fixedItems [Pyubx2] (site : Site) : CfgItems :=
  let sigma := site.sigma3d.getD 0
  tmodeFixedEcef site.x site.y site.z (if sigma = 0 then defaultFixedAccM else sigma)

namespace BaseModeManager

/-- `__init__`. -/
def init (baseMode : BaseMode) (svinMinDurationS : ℤ) (svinAccLimitM : ℚ)
    (activeSiteName : Option String) (clock : ℚ) : BaseModeManager where
  mode := baseMode
  svinMinDurationS := svinMinDurationS
  svinAccLimitM := svinAccLimitM
  activeSiteName := activeSiteName
  clock := clock

def verified (m : BaseModeManager) : Bool := m.verifyState = some .verified

def publish (m : BaseModeManager) (msg : BaseMessage) : BaseModeManager :=
  { m with bus := m.bus ++ [msg] }

/-- `_announce`. -/
def announce (m : BaseModeManager) (site : Option String) (reason : Option String := none) :
    BaseModeManager :=
  m.publish (.baseMode m.mode site reason)

/-- `_clear_verification`. -/
def clearVerification (m : BaseModeManager) : BaseModeManager :=
  { m with appliedSite := none, verifyState := none, verifyDeadline := none }

/-- `_svin_items`. -/
def svinItems (m : BaseModeManager) : CfgItems := tmodeSurveyIn m.svinMinDurationS m.svinAccLimitM

/-- The end of `_apply_fixed` where the position was taken. -/
def sitOn (m : BaseModeManager) (site : Site) : BaseModeManager :=
  { m.clearVerification with
    mode := .fixed
    appliedSite := some site
    verifyDeadline := some (m.clock + verifyDeadlineS)
    nakSite := none
    since := none }

/-! ## Operations -/

/-- `controller.apply_items`. -/
def applyItems (items : CfgItems) : BaseM Answer := Co.ask (BaseCall.applyItems items)

/-- `sites.get`, and the two below. -/
def sitesGet (name : String) : BaseM (Option Site) := Co.ask (BaseCall.get name)
def sitesActive : BaseM (Option Site) := Co.ask BaseCall.active
def sitesActivate (name : String) : BaseM (Option Site) := Co.ask (BaseCall.activate name)

/-- `_apply_tmode`. -/
def applyTmode (items : CfgItems) (reason : Option String := none) : BaseM Bool := do
  modify clearVerification
  match ← applyItems items with
  | .timeout =>
    modify fun m => m.announce none (some timeoutReason)
    return false
  | .nak =>
    modify fun m => m.announce none (some nakReason)
    return false
  | .ack =>
    modify fun m => m.announce none reason
    return true

/-- `_apply_fixed`. -/
def applyFixed [Pyubx2] (site : Site) : BaseM Bool := do
  match ← applyItems site.fixedItems with
  | .timeout =>
    modify fun m => m.announce (some site.name) (some timeoutReason)
    return false
  | .nak =>
    modify fun m => { m with nakSite := some site.ident }.announce (some site.name) (some nakReason)
    return false
  | .ack =>
    modify fun m => (m.sitOn site).announce (some site.name)
    return true

/-- `_resolve_site`. -/
def resolveSite : BaseM (Except KeyError (Option Site)) := do
  match truthy (← get).activeSiteName with
  | none => return .ok (← sitesActive)
  | some name =>
    match ← sitesGet name with
    | none => return .ok (← sitesActive)
    | some named =>
      if named.active then return .ok (some named)
      match ← sitesActivate named.name with
      | none => return .error named.name
      | some site => return .ok (some site)

/-- `_apply_mode`. -/
def applyMode [Pyubx2] : BaseM Unit := do
  modify fun m => { m with nakSite := none }
  match (← get).mode with
  | .fixed =>
    match ← resolveSite with
    | .error _ => return
    | .ok site =>
      modify fun m => { m with pollBaseline := site.map Site.ident }
      match site with
      | some site => discard (applyFixed site)
      | none =>
        modify fun m => { m with mode := .surveyIn }
        discard (applyTmode (← get).svinItems (some noSiteReason))
  | _ =>
    let active ← sitesActive
    modify fun m => { m with pollBaseline := active.map Site.ident }
    match (← get).mode with
    | .off => discard (applyTmode tmodeOff)
    | _ => discard (applyTmode (← get).svinItems)

/-- `restart_survey_in`. -/
def restartSurveyIn : BaseM RestartResult := do
  modify fun m => { m with mode := .off }
  if !(← applyTmode tmodeOff) then
    modify fun m => { m with mode := .surveyIn }.announce none (some restartStopReason)
    return .stopRefused
  modify fun m => { m with mode := .surveyIn }
  if !(← applyTmode (← get).svinItems) then
    modify fun m => { m with mode := .off }.announce none (some restartSurveyReason)
    return .surveyRefused
  return .ok

/-- `activate_site`. -/
def activateSite [Pyubx2] (name : String) : BaseM (Except KeyError Site) := do
  let site ← sitesActivate name
  match site with
  | none => return .error name
  | some site =>
    discard (applyFixed site)
    return .ok site

/-- Whether `_poll_active_site` leaves the active row alone. -/
def ignores (m : BaseModeManager) (active : Site) : Bool :=
  if some active.ident = m.nakSite then true
  else if m.mode = .fixed then m.appliedSite.map Site.ident = some active.ident
  else m.pollBaseline = some active.ident

/-- `_poll_active_site`. -/
def pollActiveSite [Pyubx2] : BaseM Unit := do
  let active ← sitesActive
  match active with
  | none => return
  | some active => if !(← get).ignores active then discard (applyFixed active)

/-! ## Handlers -/

/-- The comparison of `on_1005` : every axis of the difference is within the tolerance. -/
def withinTolerance (dx dy dz : ℚ) : Bool := max (max |dx| |dy|) |dz| ≤ siteToleranceM

/-- The verdict of `on_1005` on the applied site, published where it changes. -/
def compareSite (m : BaseModeManager) (site : Site) (dx dy dz : ℚ) : BaseModeManager :=
  if withinTolerance dx dy dz then
    if m.verifyState = some .verified then m
    else { m with verifyState := some .verified }.publish (.siteVerified site.name dx dy dz)
  else if m.verifyState = some .mismatched then m
  else { m with verifyState := some .mismatched }.publish (.siteMismatch site.name dx dy dz)

/-- What `on_1005` keeps of any message it can decode. -/
def hear (m : BaseModeManager) (ecef : Ecef1005) : BaseModeManager :=
  { m with last1005 := some ecef, since := some ecef }

/-- `on_1005`. -/
def on1005 [Pyrtcm] (m : BaseModeManager) (frame : Frame) : BaseModeManager :=
  match decode1005 frame, m.appliedSite with
  | none, _ => m
  | some ecef, none => m.hear ecef
  | some ecef, some site =>
    if m.mode ≠ .fixed then m.hear ecef
    else (m.hear ecef).compareSite site (ecef.x - site.x) (ecef.y - site.y) (ecef.z - site.z)

/-- The reason of `on_fix`. -/
def fixReason (fixType : ℕ) : String :=
  s!"receiver fixType={fixType} (expected 5) 30s after applying the fixed position"

/-- `on_fix`. -/
def onFix (m : BaseModeManager) (fixType : ℕ) : BaseModeManager :=
  match m.appliedSite with
  | none => m
  | some site =>
    if m.mode ≠ .fixed ∨ fixType = fixTypeTimeOnly ∨ m.verifyState.isSome then m
    else if m.verifyDeadline.all (m.clock ≤ ·) then m
    else
      { m with verifyState := some .mismatched }.publish
        (.siteIneffective site.name (fixReason fixType))

end BaseModeManager

end Mtrtk
