import Mtrtk.RawCapture

/-!
# Steps back of a unit's clock

`RawCapture.note_utc` keeps filing into the open hour when a reading falls into an earlier one,
until that has held for `BACKSTEP_HOLD_S`. How long it has held is measured as the difference of
two readings, the one at hand and the first of the run (`_back_since`) : on the clock that steps.

`heldSince` is the first of the run, told from the readings alone, and `StepsBack` a reading that
comes to an open file in an earlier hour. `Follows` is what the docstring says of every such reading
of a run of calls, with the time that has passed on the unit. It holds of exactly the runs in which
the two measures agree on every such reading (`follows_back_iff`) : the clock has not stepped a
second time while the first step was held, by more than what was left of the hold.
-/

namespace Mtrtk

namespace RawCapture

/-! ## The readings of a run -/

/-- A reading in an hour before the one of an open file that the unit's clock has named. Readings
before `MIN_VALID_YEAR` are dropped. -/
structure StepsBack (w : RawCapture) (reading : UnitReading) : Prop where
  valid : minValidUtc ≤ reading.utc
  earlier : ∃ f ∈ w.current, hourOf reading.utc < f.hour ∧ f.side.timeSource = .receiver

/-- A reading in an hour before the open one. -/
def earlier (w : RawCapture) (reading : UnitReading) : Bool :=
  w.currentHour.any fun hour => hourOf reading.utc < hour

/-- The reading of a call, and whether it was in an earlier hour and not followed. -/
def seen (w : RawCapture) : CaptureOp → Option (UnitReading × Bool)
  | .note now reading =>
    if reading.utc < minValidUtc then none
    else some (reading,
      w.earlier reading && decide ((w.noteUtc now reading.utc).rotated = w.rotated))
  | .write _ _ _ => none

/-- The first of the readings in earlier hours that have come since one that was not, or that was
followed. The readings are given with the last first. -/
def heldSince : List (UnitReading × Bool) → Option UnitReading
  | [] => none
  | (reading, held) :: past => if held then some ((heldSince past).getD reading) else none

/-- The capture after some calls, and the readings that came. -/
def life (w : RawCapture) (ops : List CaptureOp) : RawCapture × List (UnitReading × Bool) :=
  ops.foldl (fun s op => (s.1.apply op, (s.1.seen op).toList ++ s.2)) (w, [])

/-- The time on the unit since the first reading of the run that the reading is in. -/
def heldFor (past : List (UnitReading × Bool)) (reading : UnitReading) : ℚ :=
  reading.uptime - ((heldSince past).getD reading).uptime

/-- The same, as the readings have it. -/
def readFor (past : List (UnitReading × Bool)) (reading : UnitReading) : ℚ :=
  reading.utc - ((heldSince past).getD reading).utc

/-- In a run of calls, a reading in an earlier hour does not rotate until such readings have held
for `BACKSTEP_HOLD_S`, and rotates to its own hour once they have. -/
def Follows (w : RawCapture) (ops : List CaptureOp) : Prop :=
  ∀ before now reading rest, ops = before ++ .note now reading :: rest →
    (w.life before).1.StepsBack reading →
      (heldFor (w.life before).2 reading < backstepHoldS →
        ((w.life before).1.noteUtc now reading.utc).rotated = (w.life before).1.rotated) ∧
      (backstepHoldS ≤ heldFor (w.life before).2 reading →
        ((w.life before).1.noteUtc now reading.utc).rotated =
            (w.life before).1.rotated ++ [hourOf reading.utc] ∧
          ((w.life before).1.noteUtc now reading.utc).currentHour = some (hourOf reading.utc))

/-- On every such reading the unit's clock and the time on the unit agree whether the run has lasted
for `BACKSTEP_HOLD_S`. -/
def Steady (w : RawCapture) (ops : List CaptureOp) : Prop :=
  ∀ before now reading rest, ops = before ++ .note now reading :: rest →
    (w.life before).1.StepsBack reading →
      (backstepHoldS ≤ readFor (w.life before).2 reading ↔
        backstepHoldS ≤ heldFor (w.life before).2 reading)

/-- Everything that was written is in the files, in order, and every hour that a file was opened for
has its size in the sidecar once the capture is closed. -/
structure KeepsBytes (root : CaptureRoot) (ops : List CaptureOp) (w : RawCapture) : Prop where
  order : w.filedBytes ++ w.pending = written ops
  settled : w.current ≠ none → w.pending = []
  files : ∀ hour, w.root.content hour = root.content hour ++ w.piecesOf hour
  closed : ∀ now hour, (w.close now).root.Sized hour ∨ (w.close now).Untouched root hour

variable {w : RawCapture} {past : List (UnitReading × Bool)} {reading : UnitReading}

/-! ## One reading -/

/-- Neither what was published nor the start of a run. -/
def SameMemory (w w' : RawCapture) : Prop := w'.rotated = w.rotated ∧ w'.backSince = w.backSince

theorem sameMemory_append (w : RawCapture) (more : List UInt8) (frames : ℕ) :
    SameMemory w (w.append more frames) := by
  unfold RawCapture.append
  split <;> exact ⟨rfl, rfl⟩

theorem sameMemory_dumpSidecar (w : RawCapture) (now : ℚ) : SameMemory w (w.dumpSidecar now) := by
  unfold RawCapture.dumpSidecar
  split <;> exact ⟨rfl, rfl⟩

theorem sameMemory_writePending (w : RawCapture) : SameMemory w w.writePending := by
  unfold RawCapture.writePending
  split
  · exact ⟨rfl, rfl⟩
  · exact sameMemory_append w w.pending w.pendingFrames

theorem memory_rotate (w : RawCapture) (now : ℚ) (hour : ℤ) :
    (w.rotate now hour).rotated = w.rotated ++ [hour] ∧
      (w.rotate now hour).backSince = w.backSince := by
  have hclose : SameMemory w (w.close now) := by
    unfold RawCapture.close
    split <;> exact ⟨rfl, rfl⟩
  have hopen := sameMemory_writePending (((w.close now).openHour hour).dumpSidecar now)
  exact ⟨congrArg (· ++ [hour]) (hopen.1.trans hclose.1), hopen.2.trans hclose.2⟩

/-- The capture remembers the first reading of the run. -/
def Remembers (w : RawCapture) (past : List (UnitReading × Bool)) : Prop :=
  w.backSince = (heldSince past).map UnitReading.utc

theorem Remembers.readFor_eq (h : w.Remembers past) (reading : UnitReading) :
    reading.utc - w.backSince.getD reading.utc = readFor past reading := by
  rw [readFor, h]
  cases heldSince past <;> rfl

theorem backSince_advanceHour (w : RawCapture) (now host : ℚ) :
    (w.advanceHour now host).backSince = w.backSince := by
  unfold RawCapture.advanceHour
  split
  · rfl
  split
  · exact (memory_rotate _ _ _).2
  · rfl

theorem backSince_write (w : RawCapture) (now host : ℚ) (data : List UInt8) :
    (w.write now host data).backSince = w.backSince := by
  unfold RawCapture.write
  split
  · unfold RawCapture.hold
    dsimp only
    split
    · exact (memory_rotate _ _ _).2
    · rfl
  · have happend := (sameMemory_append (w.advanceHour now host) data 1).2.trans
      (backSince_advanceHour w now host)
    dsimp only
    split
    · exact (sameMemory_dumpSidecar _ now).2.trans happend
    · exact happend

/-- A reading that is not held ends the run. -/
theorem backSince_noteUtc (hvalid : minValidUtc ≤ reading.utc)
    (hholds : ¬w.holds reading.utc = true) (now : ℚ) :
    (w.noteUtc now reading.utc).backSince = none := by
  rw [noteUtc, if_neg hvalid.not_gt, if_neg hholds]
  dsimp only
  split
  · rfl
  · exact (memory_rotate _ _ _).2

/-- A reading is held if it is in an earlier hour and the run has not lasted. -/
theorem Remembers.holds_iff (h : w.Remembers past) (reading : UnitReading) :
    w.holds reading.utc = true ↔
      w.earlier reading = true ∧ readFor past reading < backstepHoldS := by
  rw [holds, h.readFor_eq, Bool.and_eq_true, decide_eq_true_iff]
  rfl

/-- A reading is held. -/
theorem noteUtc_held (hvalid : minValidUtc ≤ reading.utc) (hholds : w.holds reading.utc = true)
    (now : ℚ) :
    w.noteUtc now reading.utc = { w with backSince := some (w.backSince.getD reading.utc) } := by
  rw [noteUtc, if_neg hvalid.not_gt, if_pos hholds]

/-- A reading in an earlier hour is followed. -/
theorem noteUtc_followed (hvalid : minValidUtc ≤ reading.utc)
    (hholds : ¬w.holds reading.utc = true) (hearlier : w.earlier reading = true) (now : ℚ) :
    (w.noteUtc now reading.utc).rotated = w.rotated ++ [hourOf reading.utc] ∧
      (w.noteUtc now reading.utc).currentHour = some (hourOf reading.utc) := by
  have hother : ¬w.currentHour = some (hourOf reading.utc) := by
    intro hopen
    rw [earlier, hopen] at hearlier
    simp at hearlier
  rw [noteUtc, if_neg hvalid.not_gt, if_neg hholds]
  dsimp only
  rw [if_neg hother]
  exact ⟨(memory_rotate _ _ _).1, currentHour_rotate _ _ _⟩

/-- The reading of a call is kept as one of the run exactly if it is held. -/
theorem seen_note (h : w.Remembers past) (hvalid : minValidUtc ≤ reading.utc) (now : ℚ) :
    w.seen (.note now reading) = some (reading, w.holds reading.utc) := by
  rw [seen, if_neg hvalid.not_gt]
  refine congrArg (fun held => some (reading, held)) ?_
  by_cases hholds : w.holds reading.utc = true
  · have hearlier := ((h.holds_iff reading).1 hholds).1
    rw [noteUtc_held hvalid hholds, hholds, hearlier]
    simp
  · rw [Bool.eq_false_iff.2 hholds]
    by_cases hearlier : w.earlier reading = true
    · rw [(noteUtc_followed hvalid hholds hearlier now).1]
      simp
    · rw [Bool.eq_false_iff.2 hearlier, Bool.false_and]

/-- One call. -/
theorem Remembers.apply (h : w.Remembers past) (op : CaptureOp) :
    (w.apply op).Remembers ((w.seen op).toList ++ past) := by
  rcases op with ⟨now, reading⟩ | ⟨now, host, data⟩
  · by_cases hvalid : minValidUtc ≤ reading.utc
    · rw [seen_note h hvalid, Remembers, RawCapture.apply]
      by_cases hholds : w.holds reading.utc = true
      · rw [noteUtc_held hvalid hholds, hholds, h]
        cases hsince : heldSince past <;> simp [heldSince, hsince]
      · rw [backSince_noteUtc hvalid hholds, Bool.eq_false_iff.2 hholds]
        rfl
    · have hlt := not_le.1 hvalid
      rw [seen, if_pos hlt, RawCapture.apply, noteUtc, if_pos hlt]
      exact h
  · rw [Remembers, RawCapture.apply, backSince_write]
    exact h

/-! ## Runs of calls -/

theorem life_snoc (w : RawCapture) (ops : List CaptureOp) (op : CaptureOp) :
    w.life (ops ++ [op]) =
      ((w.life ops).1.apply op, ((w.life ops).1.seen op).toList ++ (w.life ops).2) := by
  rw [life, List.foldl_append]
  rfl

theorem life_fst (w : RawCapture) (ops : List CaptureOp) : (w.life ops).1 = ops.foldl apply w := by
  induction ops using List.reverseRecOn with
  | nil => rfl
  | append_singleton ops op ih =>
    rw [life_snoc, List.foldl_append, ← ih]
    rfl

theorem remembers_life (h : w.backSince = none) (ops : List CaptureOp) :
    (w.life ops).1.Remembers (w.life ops).2 := by
  induction ops using List.reverseRecOn with
  | nil => exact h
  | append_singleton ops op ih =>
    rw [life_snoc]
    exact ih.apply op

/-- A reading is treated as it should be exactly if the measures agree on it. -/
theorem Remembers.treats_iff (h : w.Remembers past) (hback : w.StepsBack reading) (now : ℚ) :
    ((heldFor past reading < backstepHoldS → (w.noteUtc now reading.utc).rotated = w.rotated) ∧
      (backstepHoldS ≤ heldFor past reading →
        (w.noteUtc now reading.utc).rotated = w.rotated ++ [hourOf reading.utc] ∧
          (w.noteUtc now reading.utc).currentHour = some (hourOf reading.utc))) ↔
      (backstepHoldS ≤ readFor past reading ↔ backstepHoldS ≤ heldFor past reading) := by
  have hearlier : w.earlier reading = true := by
    obtain ⟨f, hf, hlt, -⟩ := hback.earlier
    rw [earlier, currentHour, hf]
    simpa using hlt
  by_cases hread : readFor past reading < backstepHoldS
  · have hkept := noteUtc_held hback.valid ((h.holds_iff reading).2 ⟨hearlier, hread⟩) now
    rw [hkept, iff_false_left hread.not_ge]
    constructor
    · rintro ⟨-, hrotates⟩ hheld
      have hsame := (hrotates hheld).1
      simp at hsame
    · exact fun hheld => ⟨fun _ => rfl, fun hno => absurd hno hheld⟩
  · have hholds : ¬w.holds reading.utc = true :=
      fun hholds => hread ((h.holds_iff reading).1 hholds).2
    obtain ⟨hrotated, hhour⟩ := noteUtc_followed hback.valid hholds hearlier now
    rw [iff_true_left (not_lt.1 hread)]
    constructor
    · rintro ⟨hstays, -⟩
      by_contra hheld
      have hsame := hstays (not_le.1 hheld)
      rw [hrotated] at hsame
      simp at hsame
    · exact fun hheld => ⟨fun hno => absurd hheld hno.not_ge, fun _ => ⟨hrotated, hhour⟩⟩

theorem follows_iff_steady (h : w.backSince = none) (ops : List CaptureOp) :
    w.Follows ops ↔ w.Steady ops := by
  constructor
  · intro hfollows before now reading rest heq hback
    exact ((remembers_life h before).treats_iff hback now).1
      (hfollows before now reading rest heq hback)
  · intro hsteady before now reading rest heq hback
    exact ((remembers_life h before).treats_iff hback now).2
      (hsteady before now reading rest heq hback)

/-- Closed at the end, every hour has its size. -/
theorem keepsBytes_life (stationId vendor : String) (root : CaptureRoot) (ops : List CaptureOp) :
    KeepsBytes root ops ((new stationId vendor root).life ops).1 := by
  rw [life_fst]
  have hsettled := settled_foldl stationId vendor root ops
  refine ⟨hsettled.order, hsettled.settled, hsettled.files, fun now hour => ?_⟩
  refine (hsettled.toFiled.close now).sides hour ?_
  rw [currentHour, current_close]
  exact fun hno => by cases hno

/-- A capture from its start, in any run of readings and writes : it keeps every byte, and it
follows a step back as it should exactly if on every reading in an earlier hour the clock that has
stepped agrees with the time on the unit whether the step has held. -/
theorem follows_back_iff (stationId vendor : String) (root : CaptureRoot) (ops : List CaptureOp) :
    ((new stationId vendor root).Follows ops ∧
        KeepsBytes root ops ((new stationId vendor root).life ops).1) ↔
      (new stationId vendor root).Steady ops :=
  ⟨fun h => (follows_iff_steady rfl ops).1 h.1, fun h =>
    ⟨(follows_iff_steady rfl ops).2 h, keepsBytes_life stationId vendor root ops⟩⟩

/-- The clock steps back by seven hours, and a tenth of a second later forward by six and a half. -/
def twoSteps : List CaptureOp :=
  [.note 0 ⟨1789819200, 0⟩, .note 1 ⟨1789794000, 1⟩, .note (11 / 10) ⟨1789817400, 11 / 10⟩]

/-- The second reading rotates at once. -/
theorem second_step_followed :
    ¬((new "MTRK" "vectornav" {}).Follows twoSteps ∧
      KeepsBytes {} twoSteps ((new "MTRK" "vectornav" {}).life twoSteps).1) := by
  rintro ⟨hfollows, -⟩
  have hback : ((new "MTRK" "vectornav" {}).life (twoSteps.take 2)).1.StepsBack
      ⟨1789817400, 11 / 10⟩ :=
    ⟨by decide +kernel, by decide +kernel⟩
  have hstays := (hfollows (twoSteps.take 2) (11 / 10) _ [] rfl hback).1 (by decide +kernel)
  revert hstays
  decide +kernel

end RawCapture

end Mtrtk
