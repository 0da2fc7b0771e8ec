import Mathlib.Data.Finset.Erase
import Mathlib.Data.Finset.Insert
import Mathlib.Logic.Function.Basic
import Mtrtk.BaseMode
import Mtrtk.Raising

/-!
# The alert engine

`alerts.py` : the rules of `AlertEngine`, which turn the messages of the bus into rows of the
events table. A `Condition` is raised once and cleared once, and `active` names what is wrong
now; any other kind is a moment.

A rule runs in `Rule`, whose exceptions are those of `EventsRepo.add` and of a payload a rule
cannot read. `_consume` takes one message at a time and goes on after an exception (`consume`).
What happens to the adds is fixed beforehand (`EventsRepo.pattern`) : an add stores its row and
returns, or raises before the row is stored, or after. The clock reads what it did when the
message was taken. Floats are exact; `meta`, the log and the webhook, which never raises, are
left out.
-/

namespace Mtrtk

/-- `Level`. -/
inductive Level
  | info | warning | error
  deriving DecidableEq, Repr

/-- The kinds `raise_` and `clear` are called with. -/
inductive Condition
  | receiverDisconnected | receiverError | fixLost | jamming | antennaFault | diskLow
  | diskWarning | temperatureHigh | loggerBackpressure | samplerFailing | siteMismatch
  | ntripDisconnected | correctionsStale | rtkLost | insNotAligned | insGnssLost | imuError
  | insConfigMismatch
  deriving DecidableEq, Repr

namespace Condition

/-- The kind of its event. -/
def kind : Condition → String
  | receiverDisconnected => "receiver_disconnected"
  | receiverError => "receiver_error"
  | fixLost => "fix_lost"
  | jamming => "jamming"
  | antennaFault => "antenna_fault"
  | diskLow => "disk_low"
  | diskWarning => "disk_warning"
  | temperatureHigh => "temperature_high"
  | loggerBackpressure => "logger_backpressure"
  | samplerFailing => "sampler_failing"
  | siteMismatch => "site_mismatch"
  | ntripDisconnected => "ntrip_disconnected"
  | correctionsStale => "corrections_stale"
  | rtkLost => "rtk_lost"
  | insNotAligned => "ins_not_aligned"
  | insGnssLost => "ins_gnss_lost"
  | imuError => "imu_error"
  | insConfigMismatch => "ins_config_mismatch"

/-- The kind of the event that ends it. -/
def clearedKind (c : Condition) : String := c.kind ++ "_cleared"

end Condition

/-! ## The events table -/

/-- A row of `events`. -/
structure EventsRepo.Event where
  level : Level
  kind : String
  message : String
  deriving DecidableEq, Repr

/-- What happens to an `add` : the row is stored and the event returned, or an exception is
raised with nothing stored, or after the row was stored. -/
inductive EventsRepo.Outcome
  | stored | lost | late
  deriving DecidableEq, Repr

/-- The events table : what happens to each `add`, and the adds so far. -/
structure EventsRepo where
  pattern : ℕ → EventsRepo.Outcome
  adds : List (EventsRepo.Event × EventsRepo.Outcome) := []

/-- The rows stored, in order. -/
def EventsRepo.rows (repo : EventsRepo) : List EventsRepo.Event :=
  (repo.adds.filter fun a => a.2 ≠ .lost).map Prod.fst

/-! ## Texts -/

/-- `f"{value:.<digits>f}"`. -/
def fixedText (digits : ℕ) (value : ℚ) : String :=
  let n := (pyRound (|value| * 10 ^ digits)).toNat
  let frac := toString (n % 10 ^ digits)
  let sign := if value < 0 then "-" else ""
  if digits = 0 then sign ++ toString n
  else sign ++ toString (n / 10 ^ digits) ++ "." ++
    String.ofList (List.replicate (digits - frac.length) '0') ++ frac

/-- `", ".join(names)`. -/
def joined (names : List String) : String := ", ".intercalate names

/-- What Python's Unicode tables say of a code point. -/
class PyUnicode where
  isalnum : Char → Bool

/-- A code point of `[\w/.-]`. -/
def inName [PyUnicode] (c : Char) : Bool :=
  PyUnicode.isalnum c || c = '_' || c = '/' || c = '.' || c = '-'

/-- `_names_device` : whether the text names the device as a whole. -/
def namesDevice [PyUnicode] (text source : String) : Bool :=
  (List.range (text.length + 1)).any fun i =>
    source.toList.isPrefixOf (text.toList.drop i) &&
      (text.toList.take i).getLast?.all (!inName ·) &&
      (text.toList.drop (i + source.length)).head?.all (!inName ·)

/-! ## The messages of the bus -/

structure FixInfo where
  fixType : ℤ := 0
  fixTypeName : String := "No fix"

structure Hardware where
  antStatus : ℤ := 0
  antStatusName : String := "Init"
  jamInd : ℤ := 0
  jammingState : ℤ := 0
  jammingStateName : String := "Unknown"

structure SystemStats where
  diskFreeGb : ℚ
  tempC : Option ℚ := none

structure SurveyIn where
  valid : Bool := false
  meanAccM : Option ℚ := none

structure NtripClientStatus where
  connected : Bool := false
  host : String := ""
  port : ℕ := 0
  mountpoint : String := ""
  lastError : Option String := none

structure RtkStatus where
  carrSoln : ℤ := 0
  carrSolnName : String := "None"
  corrAgeS : Option ℚ := none

structure InsStatus where
  vendor : String := ""
  mode : Option ℤ := none
  modeName : String := ""
  generalOk : String → Option Bool := fun _ => none
  errors : String → Option Bool := fun _ => none
  gnssFix : Option ℤ := none
  gnssFixName : String := ""

/-- A topic with its payload. -/
inductive AlertMessage
  | receiverDisconnected (reason : String)
  | receiverConnected (source : String)
  | receiverError (message : String)
  | receiverCapabilities
  | receiverRecovered (source message : Option String)
  | stateFix (fix : FixInfo)
  | stateHardware (hw : Hardware)
  | systemStats (stats : SystemStats)
  | rawlogBackpressure (queued : ℕ)
  | rawlogDrained (queued : ℕ)
  | rawlogPruned (name : String)
  | rawlogError (message : String)
  | samplerError (message : String)
  | samplerRecovered (message : String)
  | daemonConsumerFailed (name error : String)
  | stateSurveyIn (svin : SurveyIn)
  | baseSiteMismatch (site : String)
  | baseSiteVerified (site : String)
  | ntripClientStatus (status : NtripClientStatus)
  | stateRtk (rtk : RtkStatus)
  | stateIns (ins : InsStatus)
  | insConfig (mismatched : List String)
  /-- A payload its rule cannot read. -/
  | malformed

/-! ## The engine -/

def fixLostGraceS : ℚ := 10
def jammingSustainS : ℚ := 30
def jamIndThreshold : ℤ := 200
def jammingStateWarning : ℤ := 2
def tempHighC : ℚ := 80
def tempClearC : ℚ := tempHighC - 5
def tempSustainS : ℚ := 60
def oneShotDedupS : ℚ := 300
def diskWarningFactor : ℚ := 3 / 2
def diskLowClearFactor : ℚ := 11 / 10
def corrStaleS : ℚ := 10
def corrOkS : ℚ := 5
def rtkLostGraceS : ℚ := 10
def carrFixed : ℤ := 2
def insAlignGraceS : ℚ := 60
def insGnssLostGraceS : ℚ := 10
/-- `SOURCE_ENDED`. -/
def sourceEnded : String := "source ended"

/-- `ANTENNA_FAULT_STATES`. -/
def antennaFaultStates (status : ℤ) : Option String :=
  if status = 3 then some "short" else if status = 4 then some "open" else none

/-- `INS_ALIGNED_MODE`. -/
def insAlignedMode (vendor : String) : Option ℤ :=
  if vendor = "sbg" then some 4 else if vendor = "vectornav" then some 2 else none

/-- `GNSS_NO_FIX`, with its default. -/
def gnssNoFix (vendor : String) : List ℤ := if vendor = "vectornav" then [0, 1] else [0]

/-- Whether the sample shows interference. -/
def Hardware.jammed (hw : Hardware) : Bool :=
  hw.jamInd ≥ jamIndThreshold || hw.jammingState ≥ jammingStateWarning

structure AlertEngine where
  events : EventsRepo
  minFreeGb : ℚ
  /-- What the clock reads. -/
  now : ℚ := 0
  active : Condition → Option EventsRepo.Event := fun _ => none
  /-- The conditions whose first event is still being written. -/
  raising : Finset Condition := ∅
  oneShotLast : String → Option ℚ := fun _ => none
  hadThreeD : Bool := false
  fixBadSince : Option ℚ := none
  jamSince : Option ℚ := none
  tempHighSince : Option ℚ := none
  surveyValid : Bool := false
  wasFixed : Bool := false
  rtkBadSince : Option ℚ := none
  insUnalignedSince : Option ℚ := none
  insGnssHadFix : Bool := false
  insGnssBadSince : Option ℚ := none
  /-- Receiver errors that arrived while one was active, the newest last. -/
  receiverErrorsBehind : List String := []
  /-- What was published as `events.new`. -/
  published : List EventsRepo.Event := []

/-- The code of a rule. -/
abbrev Rule := EStateM Unit AlertEngine

namespace AlertEngine

/-! ## Emitting -/

/-- `EventsRepo.add`. -/
def add (level : Level) (kind message : String) : Rule EventsRepo.Event := do
  let event : EventsRepo.Event := ⟨level, kind, message⟩
  let e ← get
  let outcome := e.events.pattern e.events.adds.length
  modify fun e => { e with events.adds := e.events.adds ++ [(event, outcome)] }
  if outcome = .stored then return event else throw ()

def emit (level : Level) (kind message : String) : Rule EventsRepo.Event := do
  let event ← add level kind message
  modify fun e => { e with published := e.published ++ [event] }
  return event

/-- `raise_` : a condition already active raises nothing. -/
def raise (c : Condition) (level : Level) (message : String) : Rule Unit := do
  let e ← get
  if (e.active c).isSome ∨ c ∈ e.raising then return
  modify fun e => { e with raising := insert c e.raising }
  try
    let event ← emit level c.kind message
    modify fun e => { e with active := Function.update e.active c (some event) }
  finally
    modify fun e => { e with raising := e.raising.erase c }

/-- `clear` : nothing active means nothing to recover from. -/
def clear (c : Condition) (message : String) : Rule Unit := do
  let e ← get
  if (e.active c).isNone then return
  modify fun e => { e with active := Function.update e.active c none }
  discard <| emit .info c.clearedKind message

/-- `one_shot` : repeats inside `ONE_SHOT_DEDUP_S` are dropped. -/
def oneShot (kind : String) (level : Level) (message : String) : Rule Unit := do
  let e ← get
  if (e.oneShotLast kind).any fun last => e.now - last < oneShotDedupS then return
  modify fun e => { e with oneShotLast := Function.update e.oneShotLast kind (some e.now) }
  discard <| emit level kind message

/-! ## The rules -/

def onReceiverDisconnected (reason : String) : Rule Unit := do
  if reason = sourceEnded then return
  raise .receiverDisconnected .error s!"receiver disconnected: {reason}"

def onReceiverConnected (source : String) : Rule Unit := do
  modify fun e => { e with insUnalignedSince := none }
  clear .receiverDisconnected s!"receiver connected ({source})"
  modify fun e => { e with receiverErrorsBehind := [] }
  clear .receiverError s!"receiver connected ({source})"

/-- The errors behind the active one, with one more : the newest ten, each once. -/
def errorsBehind (behind : List String) (message : String) : List String :=
  let others := behind.filter (· ≠ message)
  others.drop (others.length - 9) ++ [message]

def onReceiverError (message : String) : Rule Unit := do
  let e ← get
  if (e.active .receiverError).any fun event => message ≠ event.message then
    modify fun e => { e with receiverErrorsBehind := errorsBehind e.receiverErrorsBehind message }
  raise .receiverError .error message

def onReceiverCapabilities : Rule Unit := do
  modify fun e => { e with receiverErrorsBehind := [] }
  clear .receiverError "receiver configured"

/-- A device beside the main link works again : only an error that names it is cleared, and the
newest of those behind that is another's is raised. -/
def onReceiverRecovered [PyUnicode] (source message : Option String) : Rule Unit := do
  let e ← get
  match truthy source, e.active .receiverError with
  | some source, some event =>
    if !namesDevice event.message source then return
    clear .receiverError ((truthy message).getD s!"{source} recovered")
    let e ← get
    let behind := e.receiverErrorsBehind.filter (!namesDevice · source)
    modify fun e => { e with receiverErrorsBehind := [] }
    match behind.getLast? with
    | some newest => raise .receiverError .error newest
    | none => return
  | _, _ => return

def onStateFix (fix : FixInfo) : Rule Unit := do
  let e ← get
  if fix.fixType ≥ 3 then
    modify fun e => { e with hadThreeD := true, fixBadSince := none }
    clear .fixLost s!"fix restored ({fix.fixTypeName})"
  else if !e.hadThreeD then return
  else match e.fixBadSince with
    | none => modify fun e => { e with fixBadSince := some e.now }
    | some since =>
      if e.now - since ≥ fixLostGraceS then
        raise .fixLost .warning s!"position fix lost ({fix.fixTypeName})"

def onJamming (hw : Hardware) : Rule Unit := do
  let e ← get
  if hw.jammed then
    match e.jamSince with
    | none => modify fun e => { e with jamSince := some e.now }
    | some since =>
      if e.now - since ≥ jammingSustainS then
        raise .jamming .warning
          s!"RF interference: jam_ind={hw.jamInd} state={hw.jammingStateName}"
  else
    modify fun e => { e with jamSince := none }
    clear .jamming s!"RF interference cleared (jam_ind={hw.jamInd})"

def onStateHardware (hw : Hardware) : Rule Unit := do
  onJamming hw
  match antennaFaultStates hw.antStatus with
  | some fault => raise .antennaFault .error s!"antenna {fault} detected"
  | none => clear .antennaFault s!"antenna status {hw.antStatusName}"

/-- `_temperature`. -/
def temperature (tempC : ℚ) : Rule Unit := do
  let e ← get
  if tempC ≥ tempHighC then
    match e.tempHighSince with
    | none => modify fun e => { e with tempHighSince := some e.now }
    | some since =>
      if e.now - since ≥ tempSustainS then
        raise .temperatureHigh .warning s!"host temperature {fixedText 0 tempC} °C"
  else
    modify fun e => { e with tempHighSince := none }
    if tempC < tempClearC then
      clear .temperatureHigh s!"host temperature {fixedText 0 tempC} °C"

def onDiskFree (free : ℚ) : Rule Unit := do
  let e ← get
  let text := fixedText 1 free
  if free < e.minFreeGb then
    raise .diskLow .error
      s!"disk free {text} GB below {fixedText 1 e.minFreeGb} GB: pruning logs"
  else if free ≥ e.minFreeGb * diskLowClearFactor then
    clear .diskLow s!"disk free {text} GB"
  if free < e.minFreeGb * diskWarningFactor then
    raise .diskWarning .warning s!"disk free {text} GB"
  else clear .diskWarning s!"disk free {text} GB"

def onSystemStats (stats : SystemStats) : Rule Unit := do
  onDiskFree stats.diskFreeGb
  match stats.tempC with
  | some tempC => temperature tempC
  | none => return

def onRawlogBackpressure (queued : ℕ) : Rule Unit :=
  raise .loggerBackpressure .warning s!"raw logger falling behind: {queued} frames queued"

def onRawlogDrained (queued : ℕ) : Rule Unit :=
  clear .loggerBackpressure s!"raw logger caught up ({queued} frames queued)"

def onRawlogPruned (name : String) : Rule Unit :=
  oneShot "log_pruned" .info s!"pruned old raw log {name} to free disk"

def onRawlogError (message : String) : Rule Unit :=
  oneShot "logger_error" .error s!"raw log write failure: {message}"

def onSamplerError (message : String) : Rule Unit :=
  raise .samplerFailing .warning s!"history sampler failing: {message}"

def onSamplerRecovered (message : String) : Rule Unit := clear .samplerFailing message

def onDaemonConsumerFailed (name error : String) : Rule Unit :=
  oneShot ("consumer_failed_" ++ name) .error s!"{name} crashed and was restarted: {error}"

def onStateSurveyIn (svin : SurveyIn) : Rule Unit := do
  let e ← get
  if svin.valid && !e.surveyValid then
    let acc := match svin.meanAccM with
      | some acc => s!"{fixedText 2 acc} m"
      | none => "n/a"
    discard <| emit .info "survey_in_valid" s!"survey-in complete: mean 3D accuracy {acc}"
  modify fun e => { e with surveyValid := svin.valid }

def onBaseSiteMismatch (site : String) : Rule Unit :=
  raise .siteMismatch .error s!"RTCM 1005 position does not match site {site}"

def onBaseSiteVerified (site : String) : Rule Unit := do
  clear .siteMismatch s!"site {site} verified"
  discard <| emit .info "site_verified" s!"fixed site {site} verified against RTCM 1005"

def onNtripClientStatus (status : NtripClientStatus) : Rule Unit := do
  if status.connected then
    clear .ntripDisconnected
      s!"NTRIP connected to {status.host}:{status.port}/{status.mountpoint}"
  else match truthy status.lastError with
    | some error => raise .ntripDisconnected .warning s!"NTRIP client disconnected: {error}"
    | none => return

def onCorrAge (rtk : RtkStatus) : Rule Unit := do
  match rtk.corrAgeS with
  | some corrAge =>
    if corrAge > corrStaleS then
      raise .correctionsStale .warning s!"corrections are {fixedText 0 corrAge} s old"
    else if corrAge < corrOkS then
      clear .correctionsStale s!"corrections are fresh again ({fixedText 0 corrAge} s)"
  | none => return

def onCarrSoln (rtk : RtkStatus) : Rule Unit := do
  let e ← get
  if rtk.carrSoln = carrFixed then
    modify fun e => { e with wasFixed := true, rtkBadSince := none }
    clear .rtkLost "RTK fixed again"
  else if !e.wasFixed then return
  else match e.rtkBadSince with
    | none => modify fun e => { e with rtkBadSince := some e.now }
    | some since =>
      if e.now - since ≥ rtkLostGraceS then
        raise .rtkLost .warning s!"RTK fixed lost ({rtk.carrSolnName})"

def onStateRtk (rtk : RtkStatus) : Rule Unit := do
  onCorrAge rtk
  onCarrSoln rtk

/-- `name or other`. -/
def nameOr (name other : String) : String := if name = "" then other else name

def onInsMode (ins : InsStatus) : Rule Unit := do
  let e ← get
  match insAlignedMode ins.vendor, ins.mode with
  | some alignedFrom, some mode =>
    if mode ≥ alignedFrom then
      modify fun e => { e with insUnalignedSince := none }
      clear .insNotAligned s!"INS aligned ({nameOr ins.modeName (toString mode)})"
    else match e.insUnalignedSince with
      | none => modify fun e => { e with insUnalignedSince := some e.now }
      | some since =>
        if e.now - since ≥ insAlignGraceS then
          let grace := fixedText 0 insAlignGraceS
          let name := nameOr ins.modeName s!"mode {mode}"
          raise .insNotAligned .warning
            s!"INS not aligned after {grace} s ({name}): it needs motion or a heading aid"
  | _, _ => return

def onInsGnssFix (ins : InsStatus) : Rule Unit := do
  let e ← get
  match ins.gnssFix with
  | some gnssFix =>
    if gnssFix ∉ gnssNoFix ins.vendor then
      modify fun e => { e with insGnssHadFix := true, insGnssBadSince := none }
      clear .insGnssLost s!"INS GNSS fix back ({nameOr ins.gnssFixName (toString gnssFix)})"
    else if !e.insGnssHadFix then return
    else match e.insGnssBadSince with
      | none => modify fun e => { e with insGnssBadSince := some e.now }
      | some since =>
        if e.now - since ≥ insGnssLostGraceS then
          raise .insGnssLost .error "INS GNSS solution lost: the position is dead reckoning"
  | none => return

def onImu (ins : InsStatus) : Rule Unit := do
  if ins.errors "imu" = some true ∨ ins.generalOk "imu_power" = some false then
    raise .imuError .error "INS reports an IMU error"
  else if (ins.errors "imu").isSome ∨ (ins.generalOk "imu_power").isSome then
    clear .imuError "INS IMU OK"

def onStateIns (ins : InsStatus) : Rule Unit := do
  onInsMode ins
  onInsGnssFix ins
  onImu ins

def onInsConfig (mismatched : List String) : Rule Unit := do
  if mismatched ≠ [] then
    raise .insConfigMismatch .error
      s!"INS configuration read back different: {joined mismatched}"
  else clear .insConfigMismatch "INS configuration matches"

/-! ## Dispatch -/

def handle [PyUnicode] : AlertMessage → Rule Unit
  | .receiverDisconnected reason => onReceiverDisconnected reason
  | .receiverConnected source => onReceiverConnected source
  | .receiverError message => onReceiverError message
  | .receiverCapabilities => onReceiverCapabilities
  | .receiverRecovered source message => onReceiverRecovered source message
  | .stateFix fix => onStateFix fix
  | .stateHardware hw => onStateHardware hw
  | .systemStats stats => onSystemStats stats
  | .rawlogBackpressure queued => onRawlogBackpressure queued
  | .rawlogDrained queued => onRawlogDrained queued
  | .rawlogPruned name => onRawlogPruned name
  | .rawlogError message => onRawlogError message
  | .samplerError message => onSamplerError message
  | .samplerRecovered message => onSamplerRecovered message
  | .daemonConsumerFailed name error => onDaemonConsumerFailed name error
  | .stateSurveyIn svin => onStateSurveyIn svin
  | .baseSiteMismatch site => onBaseSiteMismatch site
  | .baseSiteVerified site => onBaseSiteVerified site
  | .ntripClientStatus status => onNtripClientStatus status
  | .stateRtk rtk => onStateRtk rtk
  | .stateIns ins => onStateIns ins
  | .insConfig mismatched => onInsConfig mismatched
  | .malformed => throw ()

/-- `_consume` : a message taken when the clock reads `m.1`, whether its rule raises or not. -/
def consume [PyUnicode] (e : AlertEngine) (m : ℚ × AlertMessage) : AlertEngine :=
  leftBy (handle m.2) { e with now := m.1 }

/-- The engine after the messages. -/
def consumed [PyUnicode] (e : AlertEngine) (ms : List (ℚ × AlertMessage)) : AlertEngine :=
  ms.foldl consume e

end AlertEngine

end Mtrtk
