import Mtrtk.RawLog

/-!
# The raw capture of an INS

`rover/drivers/ins_common.py` : `RawCapture` appends what a unit sends to one file per UTC hour,
with a sidecar next to each. The hours are those of the unit's own clock (`noteUtc`). Between two
readings it is carried on by the monotonic clock, and where the unit has none the host clock names
the files (`write`).

An hour stands for the path `path_for` makes of it, and readings are rationals, in seconds, UTC. A
call reads each of the other clocks once. Reads and writes of files do not fail, a sidecar that is
not readable is none, and what `flush` does besides its dump is not seen. `filed` is not in the
source : what was written, piece by piece, each with its hour.

`Filed` is what holds between any two calls, whatever the clocks do : every byte is in a file or
still pending, in order, and the sidecar of the open hour has the bytes of its file
(`Filed.apply`).
-/

namespace Mtrtk

/-- `time_source`. -/
inductive TimeSource
  | receiver | host
  deriving DecidableEq, Repr

/-- The sidecar of an hour. -/
structure CaptureSide where
  vendor : String
  stationId : String
  hourUtc : ℤ
  startUtc : Option ℚ
  endUtc : Option ℚ := none
  timeSource : TimeSource
  bytes : ℕ := 0
  frames : ℕ := 0
  deriving DecidableEq

/-- The directory of the hours. -/
structure CaptureRoot where
  file : ℤ → Option (List UInt8) := fun _ => none
  side : ℤ → Option CaptureSide := fun _ => none

namespace CaptureRoot

def content (root : CaptureRoot) (hour : ℤ) : List UInt8 := (root.file hour).getD []

/-- Opened with `"ab"` and written to. -/
def append (root : CaptureRoot) (hour : ℤ) (data : List UInt8) : CaptureRoot :=
  { root with file := Function.update root.file hour (some (root.content hour ++ data)) }

/-- The sidecar is written. -/
def dump (root : CaptureRoot) (hour : ℤ) (side : CaptureSide) : CaptureRoot :=
  { root with side := Function.update root.side hour (some side) }

/-- The sidecar of an hour has the size of its file. -/
def Sized (root : CaptureRoot) (hour : ℤ) : Prop :=
  ∃ side, root.side hour = some side ∧ side.bytes = (root.content hour).length

variable (root : CaptureRoot) {hour other : ℤ} (data : List UInt8) (side : CaptureSide)

@[simp] theorem content_append_self :
    (root.append hour data).content hour = root.content hour ++ data := by
  simp [append, content]

@[simp] theorem content_append_of_ne (h : other ≠ hour) :
    (root.append hour data).content other = root.content other := by
  simp [append, content, h]

@[simp] theorem content_dump : (root.dump hour side).content other = root.content other := rfl

@[simp] theorem side_append : (root.append hour data).side other = root.side other := rfl

@[simp] theorem side_dump_self : (root.dump hour side).side hour = some side :=
  Function.update_self ..

@[simp] theorem side_dump_of_ne (h : other ≠ hour) :
    (root.dump hour side).side other = root.side other :=
  Function.update_of_ne h ..

theorem Sized.dump {old : CaptureRoot} (h : old.Sized other) (hne : other ≠ hour) :
    (old.dump hour side).Sized other := by
  obtain ⟨previous, hside, hbytes⟩ := h
  exact ⟨previous, (side_dump_of_ne old side hne).trans hside, hbytes⟩

theorem file_append_of_ne (h : other ≠ hour) :
    (root.append hour data).file other = root.file other :=
  Function.update_of_ne h ..

end CaptureRoot

/-- The open file : `_hour`, `_side`. -/
structure OpenCapture where
  hour : ℤ
  side : CaptureSide
  deriving DecidableEq

/-- `RawCapture`. `current` is `_fh`, and `rotated` what was published. -/
structure RawCapture where
  stationId : String
  vendor : String
  root : CaptureRoot := {}
  utc : Option ℚ := none
  utcMono : Option ℚ := none
  backSince : Option ℚ := none
  warnedImplausible : Bool := false
  sideDumped : ℚ := 0
  timeSource : TimeSource := .receiver
  pending : List UInt8 := []
  pendingFrames : ℕ := 0
  current : Option OpenCapture := none
  rotated : List ℤ := []
  filed : List (ℤ × List UInt8) := []

namespace RawCapture

/-- `PENDING_CAP_BYTES`. -/
def pendingCapBytes : ℕ := 8 * 1024 * 1024

/-- `BACKSTEP_HOLD_S`. -/
def backstepHoldS : ℚ := 5

/-- `SIDECAR_EVERY_S`. -/
def sidecarEveryS : ℚ := 10

/-- The first instant of `MIN_VALID_YEAR`. -/
def minValidUtc : ℚ := 1577836800

/-- `_dump_sidecar`. -/
def dumpSidecar (w : RawCapture) (now : ℚ) : RawCapture :=
  match w.current with
  | none => w
  | some f => { w with root := w.root.dump f.hour f.side, sideDumped := now }

/-- `close`. -/
def close (w : RawCapture) (now : ℚ) : RawCapture :=
  match w.current with
  | none => w
  | some f =>
    { w with
      current := none
      root := w.root.dump f.hour { f.side with endUtc := w.utc }
      sideDumped := now }

/-- `_fh.write`, and the counts of the sidecar. -/
def append (w : RawCapture) (data : List UInt8) (frames : ℕ) : RawCapture :=
  match w.current with
  | none => w
  | some f =>
    { w with
      root := w.root.append f.hour data
      current := some { f with
        side := { f.side with
          bytes := f.side.bytes + data.length, frames := f.side.frames + frames } }
      filed := w.filed ++ [(f.hour, data)] }

/-- The sidecar of an hour that is opened. -/
def newSide (w : RawCapture) (hour : ℤ) : CaptureSide :=
  let side : CaptureSide := {
    vendor := w.vendor, stationId := w.stationId, hourUtc := hour, startUtc := w.utc
    timeSource := w.timeSource, bytes := (w.root.content hour).length }
  match w.root.file hour, w.root.side hour with
  | some _, some previous =>
    { side with startUtc := previous.startUtc.or side.startUtc, frames := previous.frames }
  | _, _ => side

/-- What is pending goes to the file. -/
def writePending (w : RawCapture) : RawCapture :=
  if w.pending = [] then w
  else { w.append w.pending w.pendingFrames with pending := [], pendingFrames := 0 }

/-- The new file of `_rotate`. -/
def openHour (w : RawCapture) (hour : ℤ) : RawCapture :=
  { w with root := w.root.append hour [], current := some ⟨hour, w.newSide hour⟩ }

/-- `_rotate`. -/
def rotate (w : RawCapture) (now : ℚ) (hour : ℤ) : RawCapture :=
  let w := (((w.close now).openHour hour).dumpSidecar now).writePending
  { w with rotated := w.rotated ++ [hour] }

/-- The hour of the open file. -/
def currentHour (w : RawCapture) : Option ℤ := w.current.map OpenCapture.hour

/-- A reading in an hour before the open one is not followed yet. -/
def holds (w : RawCapture) (utc : ℚ) : Bool :=
  (w.currentHour.any fun hour => hourOf utc < hour) &&
    decide (utc - w.backSince.getD utc < backstepHoldS)

/-- `note_utc`. -/
def noteUtc (w : RawCapture) (now utc : ℚ) : RawCapture :=
  if utc < minValidUtc then { w with warnedImplausible := true }
  else if w.holds utc then { w with backSince := some (w.backSince.getD utc) }
  else
    let taken := { w with
      backSince := none, utc := some utc, utcMono := some now, timeSource := .receiver }
    if w.currentHour = some (hourOf utc) then taken else taken.rotate now (hourOf utc)

/-- The clock carried on to now. -/
def projected (w : RawCapture) (now host : ℚ) : Option ℚ :=
  match w.timeSource with
  | .host => some host
  | .receiver => do return (← w.utc) + (now - (← w.utcMono))

/-- `_advance_hour`. -/
def advanceHour (w : RawCapture) (now host : ℚ) : RawCapture :=
  match w.projected now host with
  | none => w
  | some utc =>
    if w.currentHour.any fun hour => hour < hourOf utc then
      { w with utc := some utc, utcMono := some now }.rotate now (hourOf utc)
    else w

/-- The branch of `write` with no file open. -/
def hold (w : RawCapture) (now host : ℚ) (data : List UInt8) : RawCapture :=
  let w := { w with pending := w.pending ++ data, pendingFrames := w.pendingFrames + 1 }
  if pendingCapBytes < w.pending.length then
    { w with utc := some host, utcMono := some now, timeSource := .host }.rotate now (hourOf host)
  else w

/-- `write`. -/
def write (w : RawCapture) (now host : ℚ) (data : List UInt8) : RawCapture :=
  match w.current with
  | none => w.hold now host data
  | some _ =>
    let w := (w.advanceHour now host).append data 1
    if sidecarEveryS ≤ now - w.sideDumped then w.dumpSidecar now else w

/-! ## Runs -/

/-- A reading of the unit's clock. `uptime` is not in the source : the time that has passed on the
unit, on a timer that does not step. -/
structure UnitReading where
  utc : ℚ
  uptime : ℚ
  deriving DecidableEq, Repr

inductive CaptureOp
  | note (now : ℚ) (reading : UnitReading)
  | write (now host : ℚ) (data : List UInt8)
  deriving DecidableEq, Repr

def apply (w : RawCapture) : CaptureOp → RawCapture
  | .note now reading => w.noteUtc now reading.utc
  | .write now host data => w.write now host data

/-- `RawCapture(..)`, on what earlier runs left. -/
def new (stationId vendor : String) (root : CaptureRoot) : RawCapture := { stationId, vendor, root }

/-- What was written in a run. -/
def written (ops : List CaptureOp) : List UInt8 :=
  ops.flatMap fun
    | .note _ _ => []
    | .write _ _ data => data

/-! ## Where the bytes are -/

/-- The bytes in the files, in the order they were written. -/
def filedBytes (w : RawCapture) : List UInt8 := w.filed.flatMap Prod.snd

/-- Those in the file of an hour. -/
def piecesOf (w : RawCapture) (hour : ℤ) : List UInt8 :=
  (w.filed.filter fun p => p.1 = hour).flatMap Prod.snd

/-- An hour that no file was opened for. -/
structure Untouched (start : CaptureRoot) (w : RawCapture) (hour : ℤ) : Prop where
  file : w.root.file hour = start.file hour
  side : w.root.side hour = start.side hour
  pieces : w.piecesOf hour = []

/-- Between any two calls : every byte is in a file or pending, and the files are what they were at
the start with what was written, in order. The sidecar of an hour has the size of its file, for the
open one the sidecar in memory. -/
structure Filed (start : CaptureRoot) (data : List UInt8) (w : RawCapture) : Prop where
  order : w.filedBytes ++ w.pending = data
  files : ∀ hour, w.root.content hour = start.content hour ++ w.piecesOf hour
  current : ∀ f ∈ w.current, f.side.bytes = (w.root.content f.hour).length
  sides : ∀ hour, w.currentHour ≠ some hour → w.root.Sized hour ∨ w.Untouched start hour

variable {start : CaptureRoot} {data : List UInt8} {w : RawCapture} {f : OpenCapture}

/-- What leaves the files, the sidecars and the bytes alone. -/
theorem Filed.congr {w' : RawCapture} (h : w.Filed start data) (hroot : w'.root = w.root)
    (hcurrent : w'.current = w.current) (hpending : w'.pending = w.pending)
    (hfiled : w'.filed = w.filed) : w'.Filed start data := by
  have hhour : w'.currentHour = w.currentHour := by rw [currentHour, currentHour, hcurrent]
  refine ⟨?_, fun hour => ?_, ?_, fun hour hne => ?_⟩
  · rw [filedBytes, hfiled, hpending]
    exact h.order
  · rw [hroot, piecesOf, hfiled]
    exact h.files hour
  · rw [hcurrent, hroot]
    exact h.current
  · rw [hroot]
    refine (h.sides hour (hhour ▸ hne)).imp_right fun hu => ⟨?_, ?_, ?_⟩
    · rw [hroot]
      exact hu.file
    · rw [hroot]
      exact hu.side
    · rw [piecesOf, hfiled]
      exact hu.pieces

/-- The hours other than the open one. -/
theorem Filed.other (h : w.Filed start data) (hf : w.current = some f) {hour : ℤ}
    (hne : hour ≠ f.hour) : w.root.Sized hour ∨ w.Untouched start hour :=
  h.sides hour fun hopen => by
    rw [currentHour, hf] at hopen
    exact hne (Option.some.inj hopen).symm

theorem Filed.dumpSidecar (h : w.Filed start data) (now : ℚ) :
    (w.dumpSidecar now).Filed start data := by
  unfold RawCapture.dumpSidecar
  rcases hf : w.current with _ | f
  · exact h
  · refine ⟨h.order, h.files, fun f' hf' => h.current f' (hf ▸ hf'), fun hour hne => ?_⟩
    have hother : hour ≠ f.hour := fun heq => hne (by rw [heq]; rfl)
    refine (h.other hf hother).imp (fun hs => hs.dump _ hother) fun hu => ?_
    exact ⟨hu.file, (CaptureRoot.side_dump_of_ne _ _ hother).trans hu.side, hu.pieces⟩

theorem Filed.close (h : w.Filed start data) (now : ℚ) : (w.close now).Filed start data := by
  unfold RawCapture.close
  rcases hf : w.current with _ | f
  · exact h
  · refine ⟨h.order, h.files, (fun f' hf' => by cases hf'), fun hour _ => ?_⟩
    by_cases hother : hour = f.hour
    · subst hother
      exact Or.inl ⟨_, CaptureRoot.side_dump_self _ _, h.current f hf⟩
    · refine (h.other hf hother).imp (fun hs => hs.dump _ hother) fun hu => ?_
      exact ⟨hu.file, (CaptureRoot.side_dump_of_ne _ _ hother).trans hu.side, hu.pieces⟩

theorem current_close (w : RawCapture) (now : ℚ) : (w.close now).current = none := by
  unfold RawCapture.close
  split
  case h_1 h => exact h
  case h_2 => rfl

theorem Filed.openHour (h : w.Filed start data) (hnone : w.current = none) (hour : ℤ) :
    (w.openHour hour).Filed start data := by
  have hcontent : ∀ other, (w.openHour hour).root.content other = w.root.content other := by
    intro other
    rw [RawCapture.openHour]
    by_cases hother : other = hour
    · rw [hother]
      simp
    · simp [hother]
  refine ⟨h.order, fun other => (hcontent other).trans (h.files other), ?_, fun other hne => ?_⟩
  · rintro f ⟨⟩
    rw [hcontent]
    unfold newSide
    split <;> rfl
  · have hother : other ≠ hour := fun heq => hne (by rw [heq]; rfl)
    refine (h.sides other (by rw [currentHour, hnone]; simp)).imp ?_ fun hu => ?_
    · rintro ⟨side, hside, hbytes⟩
      exact ⟨side, hside, by rw [hbytes, hcontent]⟩
    · exact ⟨(CaptureRoot.file_append_of_ne _ _ hother).trans hu.file, hu.side, hu.pieces⟩

theorem Filed.append (h : w.Filed start data) (hf : w.current = some f) (more : List UInt8)
    (frames : ℕ) (hpending : w.pending = []) :
    (w.append more frames).Filed start (data ++ more) := by
  unfold RawCapture.append
  rw [hf]
  dsimp only
  have hpieces : ∀ hour, (w.filed ++ [(f.hour, more)]).filter (fun p => p.1 = hour) =
      w.filed.filter (fun p => p.1 = hour) ++ if f.hour = hour then [(f.hour, more)] else [] := by
    intro hour
    rw [List.filter_append]
    by_cases hhour : f.hour = hour <;> simp [hhour]
  refine ⟨?_, fun hour => ?_, ?_, fun hour hne => ?_⟩
  · rw [← h.order, filedBytes, List.flatMap_append, hpending]
    simp [filedBytes]
  · rw [piecesOf, hpieces, List.flatMap_append]
    have hfiles := h.files hour
    rw [piecesOf] at hfiles
    by_cases hhour : hour = f.hour
    · rw [hhour] at hfiles ⊢
      rw [CaptureRoot.content_append_self, hfiles]
      simp
    · rw [CaptureRoot.content_append_of_ne _ _ hhour, hfiles, if_neg (Ne.symm hhour)]
      simp
  · rintro _ ⟨⟩
    dsimp only
    rw [CaptureRoot.content_append_self, List.length_append, h.current f hf]
  · have hother : hour ≠ f.hour := fun heq => hne (by rw [heq]; rfl)
    refine (h.other hf hother).imp ?_ fun hu => ⟨?_, hu.side, ?_⟩
    · rintro ⟨side, hside, hbytes⟩
      exact ⟨side, hside, by rw [hbytes, CaptureRoot.content_append_of_ne _ _ hother]⟩
    · exact (CaptureRoot.file_append_of_ne _ _ hother).trans hu.file
    · rw [piecesOf, hpieces, if_neg (Ne.symm hother), List.append_nil]
      exact hu.pieces

theorem pending_append (more : List UInt8) (frames : ℕ) :
    (w.append more frames).pending = w.pending := by
  unfold RawCapture.append
  split <;> rfl

@[simp] theorem currentHour_dumpSidecar (w : RawCapture) (now : ℚ) :
    (w.dumpSidecar now).currentHour = w.currentHour := by
  unfold RawCapture.dumpSidecar
  split <;> rfl

@[simp] theorem pending_dumpSidecar (w : RawCapture) (now : ℚ) :
    (w.dumpSidecar now).pending = w.pending := by
  unfold RawCapture.dumpSidecar
  split <;> rfl

@[simp] theorem currentHour_append (w : RawCapture) (more : List UInt8) (frames : ℕ) :
    (w.append more frames).currentHour = w.currentHour := by
  unfold RawCapture.append
  split
  · rfl
  · rename_i f hf
    rw [currentHour, currentHour, hf]
    rfl

theorem currentHour_rotate (w : RawCapture) (now : ℚ) (hour : ℤ) :
    (w.rotate now hour).currentHour = some hour := by
  have hopen : (((w.close now).openHour hour).dumpSidecar now).currentHour = some hour := by
    rw [currentHour_dumpSidecar]
    rfl
  have hpending : ∀ v : RawCapture, v.writePending.currentHour = v.currentHour := by
    intro v
    unfold RawCapture.writePending
    split
    · rfl
    · exact currentHour_append v v.pending v.pendingFrames
  exact (hpending _).trans hopen

/-- The clocks close an hour only to open another. -/
theorem exists_current_advanceHour (hf : w.current = some f) (now host : ℚ) :
    ∃ f', (w.advanceHour now host).current = some f' := by
  unfold RawCapture.advanceHour
  split
  · exact ⟨f, hf⟩
  split
  · obtain ⟨f', hf', -⟩ := Option.map_eq_some_iff.1 (currentHour_rotate _ now _)
    exact ⟨f', hf'⟩
  · exact ⟨f, hf⟩

/-- What was pending is in the file. -/
theorem Filed.writePending (h : w.Filed start data) (hf : w.current = some f) :
    w.writePending.Filed start data ∧ w.writePending.pending = [] := by
  unfold RawCapture.writePending
  by_cases hnone : w.pending = []
  · rw [if_pos hnone]
    exact ⟨h, hnone⟩
  · rw [if_neg hnone]
    refine ⟨?_, rfl⟩
    have hempty : ({ w with pending := [], pendingFrames := 0 } : RawCapture).Filed start
        w.filedBytes := by
      refine ⟨List.append_nil _, h.files, h.current, fun hour hne => ?_⟩
      exact (h.sides hour hne).imp_right fun hu => ⟨hu.file, hu.side, hu.pieces⟩
    have happend := hempty.append hf w.pending w.pendingFrames rfl
    rw [h.order] at happend
    refine happend.congr ?_ ?_ ?_ ?_ <;> simp only [RawCapture.append, hf]

/-- Between any two calls, nothing is pending while a file is open. -/
structure Settled (start : CaptureRoot) (data : List UInt8) (w : RawCapture) : Prop
    extends w.Filed start data where
  settled : w.current ≠ none → w.pending = []

theorem Settled.congr {w' : RawCapture} (h : w.Settled start data) (hroot : w'.root = w.root)
    (hcurrent : w'.current = w.current) (hpending : w'.pending = w.pending)
    (hfiled : w'.filed = w.filed) : w'.Settled start data where
  toFiled := h.toFiled.congr hroot hcurrent hpending hfiled
  settled := by
    rw [hcurrent, hpending]
    exact h.settled

/-- A rotation closes one file and opens another, whatever is pending. -/
theorem Filed.rotate (h : w.Filed start data) (now : ℚ) (hour : ℤ) :
    (w.rotate now hour).Settled start data := by
  have hopen := ((h.close now).openHour (current_close w now) hour).dumpSidecar now
  have hcurrent : ∃ f, (((w.close now).openHour hour).dumpSidecar now).current = some f :=
    ⟨_, rfl⟩
  obtain ⟨f, hf⟩ := hcurrent
  obtain ⟨hwritten, hnone⟩ := hopen.writePending hf
  exact ⟨hwritten.congr rfl rfl rfl rfl, fun _ => hnone⟩

theorem Settled.noteUtc (h : w.Settled start data) (now utc : ℚ) :
    (w.noteUtc now utc).Settled start data := by
  unfold RawCapture.noteUtc
  split
  · exact h.congr rfl rfl rfl rfl
  split
  · exact h.congr rfl rfl rfl rfl
  dsimp only
  split
  · exact h.congr rfl rfl rfl rfl
  · refine Filed.rotate ?_ now _
    exact h.toFiled.congr rfl rfl rfl rfl

theorem Settled.advanceHour (h : w.Settled start data) (now host : ℚ) :
    (w.advanceHour now host).Settled start data := by
  unfold RawCapture.advanceHour
  split
  · exact h
  split
  · refine Filed.rotate ?_ now _
    exact h.toFiled.congr rfl rfl rfl rfl
  · exact h

theorem Settled.hold (h : w.Settled start data) (hnone : w.current = none) (now host : ℚ)
    (more : List UInt8) : (w.hold now host more).Settled start (data ++ more) := by
  have hheld : ({ w with
      pending := w.pending ++ more, pendingFrames := w.pendingFrames + 1 } : RawCapture).Filed
        start (data ++ more) := by
    refine ⟨?_, h.files, h.current, fun hour hne => ?_⟩
    · rw [← h.order]
      exact (List.append_assoc ..).symm
    · exact (h.sides hour hne).imp_right fun hu => ⟨hu.file, hu.side, hu.pieces⟩
  unfold RawCapture.hold
  dsimp only
  split
  · refine Filed.rotate ?_ now _
    exact hheld.congr rfl rfl rfl rfl
  · exact ⟨hheld, fun hopen => absurd hnone hopen⟩

theorem Settled.write (h : w.Settled start data) (now host : ℚ) (more : List UInt8) :
    (w.write now host more).Settled start (data ++ more) := by
  unfold RawCapture.write
  rcases hf : w.current with _ | f
  · exact h.hold hf now host more
  · obtain ⟨f', hf'⟩ := exists_current_advanceHour hf now host
    have hadvanced := h.advanceHour now host
    have hnone := hadvanced.settled (by rw [hf']; exact Option.some_ne_none _)
    have happend : ((w.advanceHour now host).append more 1).Settled start (data ++ more) :=
      ⟨hadvanced.toFiled.append hf' more 1 hnone, fun _ => by rw [pending_append, hnone]⟩
    dsimp only
    split
    · refine ⟨happend.toFiled.dumpSidecar now, fun _ => ?_⟩
      rw [pending_dumpSidecar, pending_append, hnone]
    · exact happend

/-- What a call writes. -/
theorem Settled.apply (h : w.Settled start data) (op : CaptureOp) :
    (w.apply op).Settled start (data ++ written [op]) := by
  cases op with
  | note now reading =>
    have hnone : written [.note now reading] = [] := rfl
    rw [hnone, List.append_nil]
    exact h.noteUtc now reading.utc
  | write now host more =>
    have hone : written [.write now host more] = more := by simp [written]
    rw [hone]
    exact h.write now host more

theorem settled_foldl (stationId vendor : String) (root : CaptureRoot) (ops : List CaptureOp) :
    (ops.foldl apply (new stationId vendor root)).Settled root (written ops) := by
  induction ops using List.reverseRecOn with
  | nil =>
    refine ⟨⟨rfl, fun hour => (List.append_nil _).symm, (fun f hf => by cases hf),
      fun hour _ => ?_⟩, fun _ => rfl⟩
    exact Or.inr ⟨rfl, rfl, rfl⟩
  | append_singleton ops op ih =>
    have hwritten : written (ops ++ [op]) = written ops ++ written [op] := List.flatMap_append
    rw [List.foldl_append, hwritten]
    exact ih.apply op

end RawCapture

end Mtrtk
