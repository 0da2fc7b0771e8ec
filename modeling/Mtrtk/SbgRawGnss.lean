import Mtrtk.Frames
import Mtrtk.SbgClock
import Mtrtk.VnFields

/-!
# The raw GNSS stream of an SBG unit

`rover/drivers/sbg/adapter.py` : GPS1_RAW logs carry the stream of the internal receiver, cut
anywhere. It goes through a framer, and the UBX frames that come out are published. Until there is
one the bytes are kept as well (`probe`), and where there are enough of them without a frame the
stream is not UBX : then they go to the raw capture, and so does what follows (`notUbx`).

`Routed` says where the bytes of all logs so far have gone, in each of the three cases. A log keeps
it (`Routed.gpsRaw`), whatever the framer makes of the cut, and the logs in between leave it alone,
so that it holds after any run (`raw_gnss_routed`).

The framer is any, as it is for the adapter, and so are the names `pyubx2` has for messages. What
the other logs publish is left out.
-/

namespace Mtrtk

/-- `RAW_DETECT_BYTES`. -/
def rawDetectBytes : ℕ := 8192

def notUbxMessage : String :=
  "GPS1_RAW does not look like UBX; raw GNSS capture disabled (see docs/ins-drivers.md)"

/-- `raw_gnss_format`. -/
inductive RawGnssFormat
  | unknownYet | ubx | unknown
  deriving DecidableEq, Repr

/-- What is published : a frame, or the text of an error. -/
inductive RawNotice
  | frame (u : Frame)
  | text (message : String)
  deriving DecidableEq, Repr

/-- A call of the raw capture. -/
inductive CaptureCall
  | write (data : List UInt8)
  | noteUtc (utc : ℤ)
  deriving DecidableEq, Repr

/-- The adapter with its framer `φ`, what it has published, and the calls of its raw capture where
it has one. -/
structure RawGnssAdapter (φ : Type*) where
  clock : SbgStateAdapter := {}
  rawGnss : Bool
  rawGnssFormat : RawGnssFormat := .unknownYet
  ubx : φ
  probe : List UInt8 := []
  rawEpochs : ℕ := 0
  published : List (String × RawNotice) := []
  rawCapture : Option (List CaptureCall)

/-- A GPS1_RAW log, or another one. -/
inductive GnssLog
  | raw (data : List UInt8)
  | log (log : SbgLog)

/-- The UTC a log brings. -/
def SbgLog.validUtc : SbgLog → Option ℤ
  | .utcTime _ m => m.validUtc
  | _ => none

/-- The UTC of the latest stamp, where the anchor is near. -/
def SbgStateAdapter.recentUtc (clock : SbgStateAdapter) : Option ℤ := do
  let last ← clock.lastStamp
  let anchor ← clock.nearAnchor last anchorMaxUs
  return anchor.utc + last.since anchor.stamp

variable {φ : Type*} (ubxMsgIds : List UInt8 → Option String)
  (feed : φ → List UInt8 → List Frame × φ)

/-- `identity`, of a UBX frame. -/
def ubxIdentity (u : Frame) : String :=
  match (ubxMsgIds (slice u.raw 2 4)).filter (· ≠ "") with
  | some name => name
  | none =>
    let cls := Vn.hexUpper 2 (byteAt u.raw 2).toNat
    let id := Vn.hexUpper 2 (byteAt u.raw 3).toNat
    s!"UBX-{cls}-{id}"

/-- `topics_for`, of a UBX frame. -/
def topicsFor (u : Frame) : List String := ["raw.ubx", s!"ubx.{ubxIdentity ubxMsgIds u}"]

/-- A frame on each of its topics. -/
def noticesOf (u : Frame) : List (String × RawNotice) :=
  (topicsFor ubxMsgIds u).map fun topic => (topic, .frame u)

namespace RawGnssAdapter

/-- `_not_ubx`. -/
def notUbx (a : RawGnssAdapter φ) : RawGnssAdapter φ :=
  { a with
    rawGnssFormat := .unknown
    published := a.published ++ [("receiver.error", .text notUbxMessage)]
    rawCapture := a.rawCapture.map fun calls =>
      calls ++ .write a.probe :: (a.clock.recentUtc.map CaptureCall.noteUtc).toList
    probe := [] }

/-- The loop of `_gps_raw` over the UBX frames. -/
def publishUbx (a : RawGnssAdapter φ) (us : List Frame) : RawGnssAdapter φ :=
  us.foldl (fun a u =>
    { a with
      rawEpochs := if ubxIdentity ubxMsgIds u = "RXM-RAWX" then a.rawEpochs + 1 else a.rawEpochs
      published := a.published ++ noticesOf ubxMsgIds u }) a

/-- `_gps_raw`. -/
def gpsRaw (a : RawGnssAdapter φ) (data : List UInt8) : RawGnssAdapter φ :=
  if !a.rawGnss then a
  else if a.rawGnssFormat = .unknown then
    { a with rawCapture := a.rawCapture.map fun calls => calls ++ [.write data] }
  else
    let deciding := a.rawGnssFormat = .unknownYet
    let a := if deciding then { a with probe := a.probe ++ data } else a
    let fed := feed a.ubx data
    let us := fed.1.filter fun f => f.proto = .ubx
    let a := { a with ubx := fed.2 }
    if deciding then
      if us ≠ [] then
        { a with rawGnssFormat := .ubx, probe := [] }.publishUbx ubxMsgIds us
      else if rawDetectBytes ≤ a.probe.length then a.notUbx
      else a.publishUbx ubxMsgIds us
    else a.publishUbx ubxMsgIds us

/-- A log of no GNSS data. Its UTC goes to the raw capture too where the stream does. -/
def applyLog (a : RawGnssAdapter φ) (log : SbgLog) : RawGnssAdapter φ :=
  { a with
    clock := (a.clock.apply log).1
    rawCapture := a.rawCapture.map fun calls =>
      if a.rawGnssFormat = .unknown then calls ++ (log.validUtc.map CaptureCall.noteUtc).toList
      else calls }

/-- `apply`. -/
def apply (a : RawGnssAdapter φ) : GnssLog → RawGnssAdapter φ
  | .raw data => a.gpsRaw ubxMsgIds feed data
  | .log log => a.applyLog log

/-- The adapter after some logs, with `raw_gnss` on and a raw capture. -/
def after (framer : φ) (logs : List GnssLog) : RawGnssAdapter φ :=
  logs.foldl (apply ubxMsgIds feed) { rawGnss := true, ubx := framer, rawCapture := some [] }

end RawGnssAdapter

/-! ## Where the bytes go -/

def GnssLog.data : GnssLog → Option (List UInt8)
  | .raw data => some data
  | .log _ => none

/-- The data of the GPS1_RAW logs. -/
def rawData (logs : List GnssLog) : List (List UInt8) := logs.filterMap GnssLog.data

/-- What the framer makes of the data, and the framer after it. -/
def fedBy (framer : φ) (stream : List (List UInt8)) : List Frame × φ :=
  stream.foldl (fun r data => (r.1 ++ (feed r.2 data).1, (feed r.2 data).2)) ([], framer)

/-- The UBX frames among it. -/
def ubxFrames (framer : φ) (stream : List (List UInt8)) : List Frame :=
  (fedBy feed framer stream).1.filter fun f => f.proto = .ubx

/-- The bytes that were handed to the raw capture. -/
def handed (calls : List CaptureCall) : List UInt8 :=
  calls.flatMap fun
    | .write data => data
    | .noteUtc _ => []

/-- The frames that were published. -/
def publishedFrames (published : List (String × RawNotice)) : List Frame :=
  published.filterMap fun n =>
    match n.2 with
    | .frame u => some u
    | .text _ => none

/-- The stream as the framer has taken it : its frames are published. -/
structure Published (framer : φ) (stream : List (List UInt8)) (a : RawGnssAdapter φ) : Prop where
  fed : a.ubx = (fedBy feed framer stream).2
  frames : a.published = (ubxFrames feed framer stream).flatMap (noticesOf ubxMsgIds)
  epochs : a.rawEpochs =
    (ubxFrames feed framer stream).countP fun u => ubxIdentity ubxMsgIds u = "RXM-RAWX"
  capture : a.rawCapture = some []

/-- Where the stream has gone, for each of the formats. -/
structure Routed (framer : φ) (stream : List (List UInt8)) (a : RawGnssAdapter φ) : Prop where
  on : a.rawGnss = true
  deciding : a.rawGnssFormat = .unknownYet →
    a.probe = stream.flatten ∧ ubxFrames feed framer stream = []
  published : a.rawGnssFormat ≠ .unknown → Published ubxMsgIds feed framer stream a
  captured : a.rawGnssFormat = .unknown → a.rawEpochs = 0 ∧ publishedFrames a.published = [] ∧
    ∃ calls, a.rawCapture = some calls ∧ handed calls = stream.flatten

variable {ubxMsgIds feed} {framer : φ} {stream : List (List UInt8)} {a : RawGnssAdapter φ}

theorem fedBy_snoc (framer : φ) (stream : List (List UInt8)) (data : List UInt8) :
    fedBy feed framer (stream ++ [data]) =
      ((fedBy feed framer stream).1 ++ (feed (fedBy feed framer stream).2 data).1,
        (feed (fedBy feed framer stream).2 data).2) := by
  rw [fedBy, List.foldl_append]
  rfl

theorem publishUbx_eq (us : List Frame) (a : RawGnssAdapter φ) :
    a.publishUbx ubxMsgIds us =
      { a with
        rawEpochs := a.rawEpochs + us.countP fun u => ubxIdentity ubxMsgIds u = "RXM-RAWX"
        published := a.published ++ us.flatMap (noticesOf ubxMsgIds) } := by
  induction us generalizing a with
  | nil => simp [RawGnssAdapter.publishUbx]
  | cons u us ih =>
    rw [RawGnssAdapter.publishUbx, List.foldl_cons]
    refine (ih _).trans ?_
    rw [List.countP_cons, List.flatMap_cons, List.append_assoc]
    dsimp only
    by_cases hu : ubxIdentity ubxMsgIds u = "RXM-RAWX"
    · simp [hu, Nat.add_assoc, Nat.add_comm 1]
    · simp [hu]

theorem handed_append (calls calls' : List CaptureCall) :
    handed (calls ++ calls') = handed calls ++ handed calls' :=
  List.flatMap_append

/-- Times are not bytes. -/
theorem handed_noteUtc (utc : Option ℤ) : handed (utc.map CaptureCall.noteUtc).toList = [] := by
  cases utc <;> rfl

theorem handed_write (data : List UInt8) (calls : List CaptureCall) :
    handed (.write data :: calls) = data ++ handed calls := rfl

theorem ubxFrames_snoc (framer : φ) (stream : List (List UInt8)) (data : List UInt8) :
    ubxFrames feed framer (stream ++ [data]) = ubxFrames feed framer stream ++
      (feed (fedBy feed framer stream).2 data).1.filter fun f => f.proto = .ubx := by
  rw [ubxFrames, fedBy_snoc, List.filter_append]
  rfl

/-- The frames of one more piece are published. -/
theorem Published.publishUbx (h : Published ubxMsgIds feed framer stream a) (data : List UInt8)
    (format : RawGnssFormat) (probe : List UInt8) :
    Published ubxMsgIds feed framer (stream ++ [data])
      (RawGnssAdapter.publishUbx ubxMsgIds
        { a with ubx := (feed a.ubx data).2, rawGnssFormat := format, probe := probe }
        ((feed a.ubx data).1.filter fun f => f.proto = .ubx)) := by
  rw [publishUbx_eq, h.fed]
  refine ⟨?_, ?_, ?_, h.capture⟩
  · rw [fedBy_snoc]
  · rw [ubxFrames_snoc, List.flatMap_append, ← h.frames]
  · rw [ubxFrames_snoc, List.countP_append, ← h.epochs]

theorem Routed.start (framer : φ) : Routed ubxMsgIds feed framer []
    { rawGnss := true, ubx := framer, rawCapture := some [] } where
  on := rfl
  deciding _ := ⟨rfl, rfl⟩
  published _ := ⟨rfl, rfl, rfl, rfl⟩
  captured h := by cases h

/-- A log while the stream is not decided on. -/
theorem Routed.gpsRaw_deciding (h : Routed ubxMsgIds feed framer stream a)
    (hformat : a.rawGnssFormat = .unknownYet) (data : List UInt8) :
    Routed ubxMsgIds feed framer (stream ++ [data]) (a.gpsRaw ubxMsgIds feed data) := by
  have hon : ¬(!a.rawGnss) = true := by simp [h.on]
  have hopen : ¬a.rawGnssFormat = .unknown := by simp [hformat]
  obtain ⟨hprobe, hnone⟩ := h.deciding hformat
  have hpub := h.published hopen
  have hflat : (stream ++ [data]).flatten = stream.flatten ++ data := by simp
  unfold RawGnssAdapter.gpsRaw
  simp only [if_neg hon, if_neg hopen, if_pos hformat]
  set us := (feed a.ubx data).1.filter fun f => f.proto = .ubx with hus
  have hsnoc : ubxFrames feed framer (stream ++ [data]) = us := by
    rw [ubxFrames_snoc, hnone, List.nil_append, ← hpub.fed]
  by_cases hsome : us ≠ []
  · rw [if_pos hsome]
    have hnext := hpub.publishUbx data .ubx []
    rw [← hus] at hnext
    refine ⟨?_, ?_, fun _ => hnext, ?_⟩ <;> rw [publishUbx_eq]
    · exact h.on
    · exact fun hno => by cases hno
    · exact fun hno => by cases hno
  · rw [if_neg hsome]
    obtain hempty : us = [] := not_not.1 hsome
    by_cases hlong : rawDetectBytes ≤ (a.probe ++ data).length
    · rw [if_pos hlong]
      refine ⟨h.on, (fun hno => by cases hno), fun hno => absurd rfl hno, fun _ => ⟨?_, ?_, ?_⟩⟩
      · have hepochs := hpub.epochs
        rwa [hnone] at hepochs
      · have hframes := hpub.frames
        rw [hnone] at hframes
        rw [RawGnssAdapter.notUbx, hframes]
        rfl
      · rw [RawGnssAdapter.notUbx, hpub.capture]
        refine ⟨_, rfl, ?_⟩
        dsimp only
        rw [List.nil_append, handed_write, handed_noteUtc, List.append_nil, hprobe, hflat]
    · rw [if_neg hlong]
      have hnext := hpub.publishUbx data .unknownYet (a.probe ++ data)
      rw [← hus, hempty] at hnext
      rw [hempty, hformat]
      refine ⟨h.on, fun _ => ⟨?_, hsnoc.trans hempty⟩, fun _ => hnext, (fun hno => by cases hno)⟩
      rw [hflat, ← hprobe]
      rfl

/-- One more log of the stream. -/
theorem Routed.gpsRaw (h : Routed ubxMsgIds feed framer stream a) (data : List UInt8) :
    Routed ubxMsgIds feed framer (stream ++ [data]) (a.gpsRaw ubxMsgIds feed data) := by
  have hon : ¬(!a.rawGnss) = true := by simp [h.on]
  rcases hformat : a.rawGnssFormat with _ | _ | _
  · exact h.gpsRaw_deciding hformat data
  · have hopen : ¬a.rawGnssFormat = .unknown := by simp [hformat]
    have hdecided : ¬a.rawGnssFormat = .unknownYet := by simp [hformat]
    have hnext := (h.published hopen).publishUbx data .ubx a.probe
    unfold RawGnssAdapter.gpsRaw
    simp only [if_neg hon, if_neg hopen, if_neg hdecided]
    rw [hformat]
    refine ⟨?_, ?_, fun _ => hnext, ?_⟩ <;> rw [publishUbx_eq]
    · exact h.on
    · exact fun hno => by cases hno
    · exact fun hno => by cases hno
  · obtain ⟨hepochs, hframes, calls, hcalls, hbytes⟩ := h.captured hformat
    unfold RawGnssAdapter.gpsRaw
    rw [if_neg hon, if_pos hformat, hcalls]
    refine ⟨h.on, fun hno => ?_, fun hno => absurd hformat hno,
      fun _ => ⟨hepochs, hframes, _, rfl, ?_⟩⟩
    · rw [hformat] at hno
      cases hno
    · rw [handed_append, hbytes]
      simp [handed]

/-- Another log. -/
theorem Routed.log (h : Routed ubxMsgIds feed framer stream a) (log : SbgLog) :
    Routed ubxMsgIds feed framer stream (a.applyLog log) := by
  unfold RawGnssAdapter.applyLog
  refine ⟨h.on, h.deciding, fun (hopen : a.rawGnssFormat ≠ .unknown) => ?_,
    fun (hunknown : a.rawGnssFormat = .unknown) => ?_⟩
  · obtain ⟨hfed, hframes, hepochs, hcapture⟩ := h.published hopen
    refine ⟨hfed, hframes, hepochs, ?_⟩
    rw [hcapture, Option.map_some, if_neg hopen]
  · obtain ⟨hepochs, hframes, calls, hcalls, hbytes⟩ := h.captured hunknown
    rw [hcalls, Option.map_some, if_pos hunknown]
    refine ⟨hepochs, hframes, _, rfl, ?_⟩
    rw [handed_append, handed_noteUtc, List.append_nil, hbytes]

/-- After any logs. -/
theorem routed_after (framer : φ) (logs : List GnssLog) :
    Routed ubxMsgIds feed framer (rawData logs)
      (RawGnssAdapter.after ubxMsgIds feed framer logs) := by
  unfold RawGnssAdapter.after
  induction logs using List.reverseRecOn with
  | nil => exact Routed.start framer
  | append_singleton logs log ih =>
    rw [List.foldl_append, rawData, List.filterMap_append]
    cases log with
    | raw data => exact ih.gpsRaw data
    | log log =>
      have hnone : [GnssLog.log log].filterMap GnssLog.data = [] := rfl
      rw [hnone, List.append_nil]
      exact ih.log log

/-- What is decided stays so. -/
theorem format_apply (h : a.rawGnssFormat ≠ .unknownYet) (log : GnssLog) :
    (a.apply ubxMsgIds feed log).rawGnssFormat = a.rawGnssFormat := by
  cases log with
  | log log => rfl
  | raw data =>
    by_cases hon : (!a.rawGnss) = true
    · rw [RawGnssAdapter.apply, RawGnssAdapter.gpsRaw, if_pos hon]
    by_cases hunknown : a.rawGnssFormat = .unknown
    · rw [RawGnssAdapter.apply, RawGnssAdapter.gpsRaw, if_neg hon, if_pos hunknown]
    · simp only [RawGnssAdapter.apply, RawGnssAdapter.gpsRaw, if_neg hon, if_neg hunknown,
        if_neg h, publishUbx_eq]

theorem format_foldl (logs : List GnssLog) (h : a.rawGnssFormat ≠ .unknownYet) :
    (logs.foldl (RawGnssAdapter.apply ubxMsgIds feed) a).rawGnssFormat = a.rawGnssFormat := by
  induction logs generalizing a with
  | nil => rfl
  | cons log logs ih =>
    have hlog : (a.apply ubxMsgIds feed log).rawGnssFormat = a.rawGnssFormat := format_apply h log
    rw [List.foldl_cons, ih (hlog ▸ h), hlog]

namespace RawGnssAdapter

end RawGnssAdapter

end Mtrtk
