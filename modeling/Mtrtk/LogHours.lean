import Mtrtk.RawLog

/-!
# The hours of the raw logger

Where the sidecar of an hour is depends on whether the hour is open : `RawLogWriter.view` is
the one that counts, the writer's own as long as the hour is open, and the one on disk once it
is closed. `RawLogWriter.Settled` is what holds of an hour between any two calls : the
sidecar that counts has the bytes and the counts of the frames in the file, the one of a
closed hour is final, and an hour once marked stays marked as it is. `Settled.apply` says
every call keeps it, whatever else is dumped on disk while the hour is open
(`Sound.dump_open`).
-/

namespace Mtrtk

/-! ## The sidecar that counts -/

/-- What a sidecar says of the bytes and the counts of a file of these frames. -/
structure Sidecar.Counts (sidecar : Sidecar) (frames : List LogFrame) : Prop where
  bytes : sidecar.bytes = (rawOf frames).length
  msgCounts : sidecar.msgCounts = countsOf frames

/-- What it says of a file that is finished, whose hour was closed under `ended`. -/
structure Sidecar.Final (sidecar : Sidecar) (frames : List LogFrame) (ended : Option ℚ) : Prop
    extends sidecar.Counts frames where
  complete : sidecar.complete = true
  sha256 : sidecar.sha256 = some (Sha256.sha256Hex (rawOf frames))
  endUtc : sidecar.endUtc = ended

/-- The log of an open hour has hashed and counted the frames of its file. -/
structure OpenLog.Describes (log : OpenLog) (frames : List LogFrame) : Prop
    extends log.sidecar.Counts frames where
  hasher : log.hasher = rawOf frames

theorem OpenLog.Describes.finished {log : OpenLog} {frames : List LogFrame}
    (h : log.Describes frames) (endUtc : Option ℚ) : (log.finished endUtc).Final frames endUtc where
  bytes := h.bytes
  msgCounts := h.msgCounts
  complete := rfl
  sha256 := by rw [← h.hasher]; rfl
  endUtc := rfl

theorem OpenLog.Describes.writeBulk {log : OpenLog} {frames : List LogFrame}
    (h : log.Describes frames) (more : List LogFrame) :
    (log.writeBulk (rawOf more) (countsOf more)).Describes (frames ++ more) where
  bytes := by simp [OpenLog.writeBulk, h.bytes]
  msgCounts := by simp [OpenLog.writeBulk, h.msgCounts]
  hasher := by simp [OpenLog.writeBulk, h.hasher]

theorem OpenLog.hour_new (root : Root) (hour : ℤ) (sidecar : Sidecar) :
    (OpenLog.new root hour sidecar).hour = hour := by
  rw [OpenLog.new]; split <;> rfl

/-- A file that is appended to again gets its counts and its mark from its sidecar. -/
theorem OpenLog.new_of_content {root : Root} {hour : ℤ} {frames : List LogFrame}
    {previous : Sidecar} (sidecar : Sidecar) (hcontent : root.content hour = rawOf frames)
    (hne : frames ≠ []) (hprevious : root.sidecar hour = some previous)
    (hcounts : previous.Counts frames) :
    (OpenLog.new root hour sidecar).Describes frames ∧
      (OpenLog.new root hour sidecar).sidecar.keep = (previous.keep || sidecar.keep) := by
  have hraw : rawOf frames ≠ [] := rawOf_eq_nil.not.2 hne
  rw [OpenLog.new, hcontent, hprevious, if_neg hraw]
  exact ⟨⟨⟨rfl, hcounts.msgCounts⟩, rfl⟩, rfl⟩

/-- A new file has no frames. -/
theorem OpenLog.new_of_empty {root : Root} {hour : ℤ} {frames : List LogFrame} {sidecar : Sidecar}
    (hcontent : root.content hour = rawOf frames) (hframes : frames = [])
    (hcounts : sidecar.Counts []) : (OpenLog.new root hour sidecar).Describes frames := by
  subst hframes
  rw [OpenLog.new, hcontent, if_pos rawOf_nil]
  exact ⟨hcounts, rfl⟩

namespace RawLogWriter

/-- The frames in the file of an hour. -/
def framesOf (w : RawLogWriter) (hour : ℤ) : List LogFrame :=
  (w.filed.filter (·.1 = hour)).map Prod.snd

/-- The log of the hour, if it is open. -/
def openLog (w : RawLogWriter) (hour : ℤ) : Option OpenLog := w.current.filter (·.hour = hour)

/-- The sidecar that counts. -/
def view (w : RawLogWriter) (hour : ℤ) : Option Sidecar :=
  match w.openLog hour with
  | some log => some log.sidecar
  | none => w.root.sidecar hour

/-- What holds of an hour whatever the writer does, if it is marked `mark` where that is
known. -/
structure Sound (w : RawLogWriter) (hour : ℤ) (mark : Option Bool) : Prop where
  content : w.root.content hour = rawOf (w.framesOf hour)
  unseen : w.view hour = none → w.framesOf hour = []
  opened : ∀ log, w.openLog hour = some log → log.Describes (w.framesOf hour)
  closed : w.openLog hour = none → ∀ sidecar, w.root.sidecar hour = some sidecar →
    sidecar.Final (w.framesOf hour) (w.ended hour)
  marked : ∀ keep, mark = some keep → (w.view hour).map Sidecar.keep = some keep

/-- An hour with a sidecar has a frame. -/
def Filled (w : RawLogWriter) (hour : ℤ) : Prop := w.view hour ≠ none → w.framesOf hour ≠ []

/-- What is pending is what the frames held are. -/
structure Holding (w : RawLogWriter) : Prop where
  pending : w.pending = rawOf w.held
  pendingCounts : w.pendingCounts = countsOf w.held

/-- `hour` looks the same in `w'` as in `w`. -/
structure SameHour (w w' : RawLogWriter) (hour : ℤ) : Prop where
  openLog : w'.openLog hour = w.openLog hour
  content : w'.root.content hour = w.root.content hour
  sidecar : w'.root.sidecar hour = w.root.sidecar hour
  framesOf : w'.framesOf hour = w.framesOf hour
  ended : w'.ended hour = w.ended hour

variable {w w' : RawLogWriter} {hour : ℤ} {mark : Option Bool}

theorem openLog_of_hour {log : OpenLog} (hcur : w.current = some log) (hhour : log.hour = hour) :
    w.openLog hour = some log := by
  simp [openLog, hcur, hhour]

theorem openLog_of_ne {log : OpenLog} (hcur : w.current = some log) (hne : log.hour ≠ hour) :
    w.openLog hour = none := by
  simp [openLog, hcur, hne]

theorem openLog_of_none (hcur : w.current = none) : w.openLog hour = none := by
  simp [openLog, hcur]

theorem view_of_open {log : OpenLog} (hlog : w.openLog hour = some log) :
    w.view hour = some log.sidecar := by
  simp only [view, hlog]

theorem view_of_closed (hlog : w.openLog hour = none) : w.view hour = w.root.sidecar hour := by
  simp only [view, hlog]

theorem SameHour.view (h : SameHour w w' hour) : w'.view hour = w.view hour := by
  simp only [RawLogWriter.view, h.openLog, h.sidecar]

theorem Sound.of_same (h : w.Sound hour mark) (hs : SameHour w w' hour) : w'.Sound hour mark where
  content := by rw [hs.content, hs.framesOf, h.content]
  unseen hv := by rw [hs.framesOf]; exact h.unseen (hs.view ▸ hv)
  opened log hlog := by rw [hs.framesOf]; exact h.opened log (hs.openLog ▸ hlog)
  closed hlog sc hsc := by
    rw [hs.framesOf, hs.ended]
    exact h.closed (hs.openLog ▸ hlog) sc (hs.sidecar ▸ hsc)
  marked := by rw [hs.view]; exact h.marked

theorem Filled.of_same (h : w.Filled hour) (hs : SameHour w w' hour) : w'.Filled hour := by
  rw [Filled, hs.view, hs.framesOf]; exact h

/-! ## What one operation does -/

theorem Sound.keep_of_open {log : OpenLog} (h : w.Sound hour mark)
    (hlog : w.openLog hour = some log) (keep : Bool) (hm : mark = some keep) :
    log.sidecar.keep = keep := by
  simpa [view_of_open hlog] using h.marked keep hm

/-- An open hour is what its log says. -/
theorem Sound.of_open {log : OpenLog} (hlog : w.openLog hour = some log)
    (hcontent : w.root.content hour = rawOf (w.framesOf hour))
    (hdescribes : log.Describes (w.framesOf hour))
    (hkeep : ∀ keep, mark = some keep → log.sidecar.keep = keep) : w.Sound hour mark where
  content := hcontent
  unseen hv := by simp [view_of_open hlog] at hv
  opened log' hlog' := by
    obtain rfl := Option.some.inj (hlog.symm.trans hlog')
    exact hdescribes
  closed hnone := by simp [hlog] at hnone
  marked keep hm := by simp [view_of_open hlog, hkeep keep hm]

/-- A closed hour with a sidecar is what that says. -/
theorem Sound.of_closed {sidecar : Sidecar} {endUtc : Option ℚ} (hlog : w.openLog hour = none)
    (hsidecar : w.root.sidecar hour = some sidecar) (hended : w.ended hour = endUtc)
    (hcontent : w.root.content hour = rawOf (w.framesOf hour))
    (hfinal : sidecar.Final (w.framesOf hour) endUtc)
    (hkeep : ∀ keep, mark = some keep → sidecar.keep = keep) : w.Sound hour mark where
  content := hcontent
  unseen hv := by simp [view_of_closed hlog, hsidecar] at hv
  opened log hlog' := by simp [hlog] at hlog'
  closed _ sidecar' hsidecar' := by
    obtain rfl := Option.some.inj (hsidecar.symm.trans hsidecar')
    exact hended ▸ hfinal
  marked keep hm := by simp [view_of_closed hlog, hsidecar, hkeep keep hm]

/-- The sidecar on disk does not count while the hour is open. -/
theorem Sound.dump_open {log : OpenLog} (h : w.Sound hour mark) (hlog : w.openLog hour = some log)
    (sidecar : Sidecar) : { w with root := w.root.dump hour sidecar }.Sound hour mark := by
  have hlog' : { w with root := w.root.dump hour sidecar }.openLog hour = some log := hlog
  exact .of_open hlog' h.content (h.opened log hlog) (h.keep_of_open hlog)

/-- A dump for another hour. -/
theorem sameHour_dump {other : ℤ} (hne : other ≠ hour) (sidecar : Sidecar) :
    SameHour w { w with root := w.root.dump other sidecar } hour :=
  ⟨rfl, rfl, Function.update_of_ne hne.symm _ _, rfl, rfl⟩

theorem Sound.dumpSidecar (h : w.Sound hour mark) : w.dumpSidecar.Sound hour mark := by
  rw [RawLogWriter.dumpSidecar]
  split
  · exact h
  · next log hcur =>
    by_cases hhour : log.hour = hour
    · subst hhour
      exact h.dump_open (openLog_of_hour hcur rfl) _
    · exact h.of_same (sameHour_dump hhour _)

theorem Sound.closeCurrent (h : w.Sound hour mark) : w.closeCurrent.Sound hour mark := by
  rw [RawLogWriter.closeCurrent]
  split
  · exact h
  · next log hcur =>
    by_cases hhour : log.hour = hour
    · subst hhour
      have hlog : w.openLog log.hour = some log := openLog_of_hour hcur rfl
      exact .of_closed (openLog_of_none rfl) (Function.update_self ..) (Function.update_self ..)
        h.content ((h.opened log hlog).finished w.utc) (h.keep_of_open hlog)
    · refine h.of_same ⟨?_, rfl, Function.update_of_ne (Ne.symm hhour) _ _, rfl,
        Function.update_of_ne (Ne.symm hhour) _ _⟩
      rw [openLog_of_none rfl, openLog_of_ne hcur hhour]

/-- The hour that is opened. -/
theorem Sound.openHour_self (h : w.Sound hour mark) (hfilled : w.Filled hour)
    (hcur : w.current = none) : (w.openHour hour).Sound hour mark := by
  have hclosed : w.openLog hour = none := openLog_of_none hcur
  have hlog : (w.openHour hour).openLog hour = (w.openHour hour).current :=
    openLog_of_hour rfl (OpenLog.hour_new ..)
  have hcontent : (w.openHour hour).root.content hour = rawOf (w.framesOf hour) := by
    simp [← h.content, RawLogWriter.openHour, Root.append, Root.content]
  rcases eq_or_ne (w.framesOf hour) [] with hframes | hframes
  · have hview : w.view hour = none := by_contra fun hv => hfilled hv hframes
    refine .of_open hlog hcontent (OpenLog.new_of_empty h.content hframes ⟨rfl, rfl⟩) ?_
    intro keep hm
    simpa [hview] using h.marked keep hm
  · obtain ⟨previous, hprevious⟩ : ∃ sc, w.root.sidecar hour = some sc := by
      rw [← Option.isSome_iff_exists, ← view_of_closed hclosed, Option.isSome_iff_ne_none]
      exact fun hv => hframes (h.unseen hv)
    obtain ⟨hdescribes, hkeep⟩ := OpenLog.new_of_content _ h.content hframes hprevious
      (h.closed hclosed previous hprevious).toCounts
    refine .of_open hlog hcontent hdescribes fun keep hm => ?_
    have hmarked := h.marked keep hm
    rw [view_of_closed hclosed, hprevious] at hmarked
    rw [hkeep, Option.some.inj hmarked, Bool.or_false]

/-- Another hour that is opened. -/
theorem sameHour_openHour {other : ℤ} (hne : other ≠ hour) (hcur : w.current = none) :
    SameHour w (w.openHour other) hour where
  openLog := by
    rw [openLog_of_none hcur, openLog_of_ne rfl ((OpenLog.hour_new ..).trans_ne hne)]
  content := by simp [RawLogWriter.openHour, Root.append, Root.content, hne.symm]
  sidecar := rfl
  framesOf := rfl
  ended := rfl

/-- Frames that are written : those of the open hour's file are more by them. -/
structure Wrote (w w' : RawLogWriter) (log : OpenLog) (frames : List LogFrame) : Prop where
  current : w'.current = some (log.writeBulk (rawOf frames) (countsOf frames))
  root : w'.root = w.root.append log.hour (rawOf frames)
  filed : w'.filed = w.filed ++ frames.map (log.hour, ·)
  ended : w'.ended = w.ended

theorem Wrote.framesOf {log : OpenLog} {frames : List LogFrame} (h : Wrote w w' log frames) :
    w'.framesOf log.hour = w.framesOf log.hour ++ frames := by
  simp [RawLogWriter.framesOf, h.filed, List.filter_map, Function.comp_def]

theorem Wrote.sameHour {log : OpenLog} {frames : List LogFrame} (h : Wrote w w' log frames)
    (hcur : w.current = some log) (hne : log.hour ≠ hour) : SameHour w w' hour where
  openLog := by
    rw [openLog_of_ne hcur hne, openLog_of_ne h.current hne]
  content := by simp [h.root, Root.append, Root.content, hne.symm]
  sidecar := by simp [h.root, Root.append]
  framesOf := by simp [RawLogWriter.framesOf, h.filed, List.filter_map, Function.comp_def, hne]
  ended := by rw [h.ended]

theorem Sound.wrote {log : OpenLog} {frames : List LogFrame} (h : w.Sound hour mark)
    (hcur : w.current = some log) (hw : Wrote w w' log frames) : w'.Sound hour mark := by
  by_cases hhour : log.hour = hour
  · subst hhour
    have hlog : w.openLog log.hour = some log := openLog_of_hour hcur rfl
    refine .of_open (openLog_of_hour hw.current rfl) ?_ ?_ fun keep hm =>
      h.keep_of_open hlog keep hm
    · simp [hw.root, Root.append, Root.content, hw.framesOf, ← h.content]
    · rw [hw.framesOf]
      exact (h.opened log hlog).writeBulk frames
  · exact h.of_same (hw.sameHour hcur hhour)

theorem Filled.wrote {log : OpenLog} {frames : List LogFrame}
    (hcur : w.current = some log) (hw : Wrote w w' log frames) (hne : frames ≠ [])
    (h : log.hour ≠ hour → w.Filled hour) : w'.Filled hour := by
  by_cases hhour : log.hour = hour
  · subst hhour
    intro _
    simp [hw.framesOf, hne]
  · exact (h hhour).of_same (hw.sameHour hcur hhour)

theorem wrote_write {log : OpenLog} (hcur : w.current = some log) (frame : LogFrame) :
    Wrote w (w.write frame) log [frame] := by
  simp only [RawLogWriter.write, hcur]
  exact ⟨by simp [OpenLog.write], by simp, rfl, rfl⟩

theorem wrote_writePending {log : OpenLog} (hcur : w.current = some log) (hw : w.Holding)
    (hne : w.pending ≠ []) : Wrote w w.writePending log w.held := by
  simp only [RawLogWriter.writePending, hcur, if_neg hne]
  exact ⟨by rw [hw.pending, hw.pendingCounts], by rw [hw.pending], rfl, rfl⟩

theorem Sound.writePending (h : w.Sound hour mark) (hw : w.Holding) :
    w.writePending.Sound hour mark := by
  rcases hcur : w.current with _ | log
  · simpa only [RawLogWriter.writePending, hcur] using h
  · by_cases hne : w.pending = []
    · simpa only [RawLogWriter.writePending, hcur, if_pos hne] using h
    · exact h.wrote hcur (wrote_writePending hcur hw hne)

/-- The writer's own dump writes what counts. -/
theorem view_dumpSidecar (w : RawLogWriter) (hour : ℤ) :
    w.dumpSidecar.view hour = w.view hour := by
  rw [dumpSidecar]
  split
  · rfl
  · next log hcur =>
    by_cases hhour : log.hour = hour
    · have hlog : w.openLog hour = some log := openLog_of_hour hcur hhour
      rw [view_of_open hlog]
      exact view_of_open hlog
    · exact (sameHour_dump hhour _).view

/-- Closing an hour leaves it a sidecar. -/
theorem view_closeCurrent_eq_none : w.closeCurrent.view hour = none ↔ w.view hour = none := by
  rw [closeCurrent]
  split
  · rfl
  · next log hcur =>
    rw [view_of_closed (openLog_of_none rfl)]
    by_cases hhour : log.hour = hour
    · subst hhour
      rw [view_of_open (openLog_of_hour hcur rfl)]
      simp [Root.dump]
    · rw [view_of_closed (openLog_of_ne hcur hhour)]
      simp [Root.dump, Ne.symm hhour]

theorem Filled.dumpSidecar (h : w.Filled hour) : w.dumpSidecar.Filled hour := by
  have hframes : w.dumpSidecar.framesOf hour = w.framesOf hour := by
    rw [RawLogWriter.dumpSidecar]; split <;> rfl
  rw [Filled, view_dumpSidecar, hframes]
  exact h

theorem Filled.closeCurrent (h : w.Filled hour) : w.closeCurrent.Filled hour := by
  have hframes : w.closeCurrent.framesOf hour = w.framesOf hour := by
    rw [RawLogWriter.closeCurrent]; split <;> rfl
  rw [Filled, Ne, view_closeCurrent_eq_none, hframes]
  exact h

theorem Holding.dumpSidecar (h : w.Holding) : w.dumpSidecar.Holding := by
  rw [RawLogWriter.dumpSidecar]; split <;> exact ⟨h.pending, h.pendingCounts⟩

theorem Holding.closeCurrent (h : w.Holding) : w.closeCurrent.Holding := by
  rw [RawLogWriter.closeCurrent]; split <;> exact ⟨h.pending, h.pendingCounts⟩

theorem Holding.writePending (h : w.Holding) : w.writePending.Holding := by
  rw [RawLogWriter.writePending]
  split
  · exact h
  · split
    · exact h
    · exact ⟨rfl, rfl⟩

theorem Holding.write (h : w.Holding) (frame : LogFrame) : (w.write frame).Holding := by
  rw [RawLogWriter.write]; split <;> exact ⟨h.pending, h.pendingCounts⟩

theorem current_closeCurrent (w : RawLogWriter) : w.closeCurrent.current = none := by
  rw [closeCurrent]; split <;> first | assumption | rfl

@[simp] theorem currentHour_openHour (w : RawLogWriter) (hour : ℤ) :
    (w.openHour hour).currentHour = some hour :=
  congrArg some (OpenLog.hour_new ..)

@[simp] theorem currentHour_writePending (w : RawLogWriter) :
    w.writePending.currentHour = w.currentHour := by
  rw [writePending]
  split
  · rfl
  · next log hcur => split <;> simp [currentHour, hcur, OpenLog.writeBulk]

@[simp] theorem currentHour_dumpSidecar (w : RawLogWriter) :
    w.dumpSidecar.currentHour = w.currentHour := by
  rw [dumpSidecar]; split <;> rfl

theorem pending_closeCurrent (w : RawLogWriter) : w.closeCurrent.pending = w.pending := by
  rw [closeCurrent]; split <;> rfl

/-! ## What a call does -/

/-- What holds of an hour between the calls. -/
structure Settled (w : RawLogWriter) (hour : ℤ) (mark : Option Bool) : Prop where
  sound : w.Sound hour mark
  filled : w.Filled hour
  holding : w.Holding

/-- A call that leaves the hour and what is pending alone. -/
theorem Settled.of_same (h : w.Settled hour mark) (hs : SameHour w w' hour) (hw : w'.Holding) :
    w'.Settled hour mark :=
  ⟨h.sound.of_same hs, h.filled.of_same hs, hw⟩

theorem Settled.dumpSidecar (h : w.Settled hour mark) : w.dumpSidecar.Settled hour mark :=
  ⟨h.sound.dumpSidecar, h.filled.dumpSidecar, h.holding.dumpSidecar⟩

theorem Settled.closeCurrent (h : w.Settled hour mark) : w.closeCurrent.Settled hour mark :=
  ⟨h.sound.closeCurrent, h.filled.closeCurrent, h.holding.closeCurrent⟩

/-- The hour being written has a frame, once one is written. -/
structure Writing (w : RawLogWriter) (hour : ℤ) (mark : Option Bool) : Prop where
  sound : w.Sound hour mark
  filled : w.currentHour ≠ some hour → w.Filled hour
  holding : w.Holding

theorem Writing.write {log : OpenLog} (h : w.Writing hour mark) (hcur : w.current = some log)
    (frame : LogFrame) : (w.write frame).Settled hour mark where
  sound := h.sound.wrote hcur (wrote_write hcur frame)
  filled := .wrote hcur (wrote_write hcur frame) (by simp) fun hne =>
    h.filled (by simp [currentHour, hcur, hne])
  holding := h.holding.write frame

theorem Writing.writePending {log : OpenLog} (h : w.Writing hour mark) (hcur : w.current = some log)
    (hne : w.pending ≠ []) : w.writePending.Settled hour mark where
  sound := h.sound.writePending h.holding
  filled := .wrote hcur (wrote_writePending hcur h.holding hne)
    (fun hheld => hne (by rw [h.holding.pending, hheld]; rfl)) fun hne =>
    h.filled (by simp [currentHour, hcur, hne])
  holding := h.holding.writePending

theorem Settled.writing_openHour (h : w.Settled hour mark) (hcur : w.current = none) (other : ℤ) :
    (w.openHour other).Writing hour mark := by
  by_cases hhour : other = hour
  · subst hhour
    exact ⟨h.sound.openHour_self h.filled hcur, by simp, h.holding.pending, h.holding.pendingCounts⟩
  · have hs := sameHour_openHour hhour hcur
    exact ⟨h.sound.of_same hs, fun _ => h.filled.of_same hs, h.holding.pending,
      h.holding.pendingCounts⟩

theorem Writing.dumpSidecar (h : w.Writing hour mark) : w.dumpSidecar.Writing hour mark :=
  ⟨h.sound.dumpSidecar, fun hne => (h.filled (by simpa using hne)).dumpSidecar,
    h.holding.dumpSidecar⟩

theorem exists_current_of_currentHour (h : w.currentHour = some hour) :
    ∃ log, w.current = some log ∧ log.hour = hour :=
  Option.map_eq_some_iff.1 h

theorem currentHour_rotate (w : RawLogWriter) (hour : ℤ) :
    (w.rotate hour).currentHour = some hour := by
  simp [rotate]

/-- `_rotate`; where something was pending, the new hour has frames already. -/
theorem Settled.rotate (h : w.Settled hour mark) (other : ℤ) :
    (w.rotate other).Writing hour mark ∧ (w.pending ≠ [] → (w.rotate other).Settled hour mark) := by
  have hopen : (w.closeCurrent.openHour other).Writing hour mark :=
    h.closeCurrent.writing_openHour (current_closeCurrent w) other
  obtain ⟨log, hcur, -⟩ := exists_current_of_currentHour
    (currentHour_openHour w.closeCurrent other)
  by_cases hne : w.pending = []
  · have hnone : (w.closeCurrent.openHour other).writePending = w.closeCurrent.openHour other := by
      have hpending : (w.closeCurrent.openHour other).pending = [] :=
        (pending_closeCurrent w).trans hne
      rw [RawLogWriter.writePending, hcur]
      exact if_pos hpending
    rw [RawLogWriter.rotate, hnone]
    exact ⟨hopen.dumpSidecar, fun hp => absurd hne hp⟩
  · have hpending : (w.closeCurrent.openHour other).pending ≠ [] := by
      rwa [show (w.closeCurrent.openHour other).pending = w.pending from pending_closeCurrent w]
    have hsettled := (hopen.writePending hcur hpending).dumpSidecar
    exact ⟨⟨hsettled.sound, fun _ => hsettled.filled, hsettled.holding⟩, fun _ => hsettled⟩

theorem Settled.rotateTo (h : w.Settled hour mark) (other : ℤ) :
    (w.rotateTo other).Writing hour mark ∧ (w.rotateTo other).currentHour = some other := by
  rw [RawLogWriter.rotateTo]
  split
  · next hcur => exact ⟨⟨h.sound, fun _ => h.filled, h.holding⟩, hcur⟩
  · exact ⟨(h.rotate other).1, currentHour_rotate w other⟩

theorem Settled.noteUtc (h : w.Settled hour mark) (now utc : ℚ) :
    (w.noteUtc now utc).Settled hour mark :=
  h.of_same ⟨rfl, rfl, rfl, rfl, rfl⟩ ⟨h.holding.pending, h.holding.pendingCounts⟩

theorem Settled.updateTime (h : w.Settled hour mark) (now : ℚ) (m : NavPvt) :
    (w.updateTime now m).Settled hour mark := by
  rw [RawLogWriter.updateTime]
  split
  · exact h.noteUtc _ _
  · exact h

theorem Settled.hold (h : w.Settled hour mark) (frame : LogFrame) :
    (w.hold frame).Settled hour mark :=
  h.of_same ⟨rfl, rfl, rfl, rfl, rfl⟩
    ⟨by simp [RawLogWriter.hold, h.holding.pending],
      by simp [RawLogWriter.hold, h.holding.pendingCounts]⟩

theorem Settled.nameByHost (h : w.Settled hour mark) (hne : w.pending ≠ []) (now host : ℚ) :
    (w.nameByHost now host).Settled hour mark := by
  rw [RawLogWriter.nameByHost]
  refine (Settled.rotate ?_ _).2 hne
  exact h.of_same ⟨rfl, rfl, rfl, rfl, rfl⟩ ⟨h.holding.pending, h.holding.pendingCounts⟩

theorem Settled.bufferPending (h : w.Settled hour mark) (now host : ℚ) (frame : LogFrame) :
    (w.bufferPending now host frame).Settled hour mark := by
  have hne : (w.hold frame).pending ≠ [] := by simp [RawLogWriter.hold, frame.raw_ne]
  rw [RawLogWriter.bufferPending]
  split
  · exact (h.hold frame).nameByHost hne now host
  · exact h.hold frame

theorem Settled.fileFrame (h : w.Settled hour mark) (now host : ℚ) (frame : LogFrame) :
    (w.fileFrame now host frame).Settled hour mark := by
  rw [RawLogWriter.fileFrame]
  split
  · exact h.bufferPending now host frame
  · next utc _ =>
    obtain ⟨hwriting, hhour⟩ := h.rotateTo (w.nameHour utc)
    obtain ⟨log, hcur, -⟩ := exists_current_of_currentHour hhour
    exact hwriting.write hcur frame

theorem Settled.handle (h : w.Settled hour mark) (now host : ℚ) (frame : LogFrame) :
    (w.handle now host frame).Settled hour mark := by
  simp only [RawLogWriter.handle]
  split
  · exact h
  · split
    · exact h
    · next w' hread =>
      have hw' : w'.Settled hour mark := by
        split at hread
        · obtain ⟨m, -, rfl⟩ := Option.map_eq_some_iff.1 hread
          exact h.updateTime now m
        · exact Option.some.inj hread ▸ h
      split
      · exact hw'.fileFrame now host frame
      · exact hw'

theorem Settled.closeElapsedHour (h : w.Settled hour mark) (now : ℚ) :
    (w.closeElapsedHour now).Settled hour mark := by
  simp only [RawLogWriter.closeElapsedHour]
  split
  · split
    · exact h
    · split
      · exact h
      · exact h.closeCurrent.of_same ⟨rfl, rfl, rfl, rfl, rfl⟩
          ⟨h.closeCurrent.holding.pending, h.closeCurrent.holding.pendingCounts⟩
  · exact h

theorem Settled.refreshSidecar (h : w.Settled hour mark) (now : ℚ) :
    (w.refreshSidecar now).Settled hour mark := by
  rw [RawLogWriter.refreshSidecar]
  split
  · exact h.dumpSidecar.of_same ⟨rfl, rfl, rfl, rfl, rfl⟩
      ⟨h.dumpSidecar.holding.pending, h.dumpSidecar.holding.pendingCounts⟩
  · exact h

theorem Settled.tick (h : w.Settled hour mark) (now : ℚ) : (w.tick now).Settled hour mark := by
  rw [RawLogWriter.tick]
  split
  · exact h
  · split
    · exact h.closeElapsedHour now
    · exact (h.closeElapsedHour now).refreshSidecar now

/-- The open log's sidecar is changed, but for its counts and, where it is known, its mark. -/
theorem Settled.touch {f : Sidecar → Sidecar} (h : w.Settled hour mark)
    (hcurrent : w'.current = w.current.map fun log => { log with sidecar := f log.sidecar })
    (hroot : w'.root = w.root) (hfiled : w'.filed = w.filed) (hended : w'.ended = w.ended)
    (hholding : w'.Holding) (hcounts : ∀ sc frames, sc.Counts frames → (f sc).Counts frames)
    (hkeep : ∀ sc keep, mark = some keep → (f sc).keep = sc.keep) : w'.Settled hour mark := by
  have hframes : w'.framesOf hour = w.framesOf hour := by rw [framesOf, hfiled, framesOf]
  rcases hcur : w.current with _ | log
  · refine h.of_same ⟨?_, by rw [hroot], by rw [hroot], hframes, by rw [hended]⟩ hholding
    rw [openLog, openLog, hcurrent, hcur, Option.map_none]
  · rw [hcur, Option.map_some] at hcurrent
    by_cases hhour : log.hour = hour
    · subst hhour
      have hlog : w.openLog log.hour = some log := openLog_of_hour hcur rfl
      have hlog' := openLog_of_hour hcurrent rfl
      have hdescribes := h.sound.opened log hlog
      refine ⟨.of_open hlog' ?_ ?_ ?_, fun _ => ?_, hholding⟩
      · rw [hroot, hframes, h.sound.content]
      · rw [hframes]
        exact ⟨hcounts _ _ hdescribes.toCounts, hdescribes.hasher⟩
      · exact fun keep hm => (hkeep _ keep hm).trans (h.sound.keep_of_open hlog keep hm)
      · rw [hframes]
        exact h.filled (by simp [view_of_open hlog])
    · refine h.of_same ⟨?_, by rw [hroot], by rw [hroot], hframes, by rw [hended]⟩ hholding
      rw [openLog_of_ne hcur hhour, openLog_of_ne hcurrent hhour]

theorem Settled.setFirmware (h : w.Settled hour mark) (firmware : String) :
    (w.setFirmware firmware).Settled hour mark :=
  h.touch (f := fun sc => { sc with firmware }) rfl rfl rfl rfl
    ⟨h.holding.pending, h.holding.pendingCounts⟩
    (fun _ _ hc => ⟨hc.bytes, hc.msgCounts⟩) fun _ _ _ => rfl

theorem Settled.setSite (h : w.Settled hour mark) (site : Option String) :
    (w.setSite site).Settled hour mark :=
  h.touch (f := fun sc => { sc with site }) rfl rfl rfl rfl
    ⟨h.holding.pending, h.holding.pendingCounts⟩
    (fun _ _ hc => ⟨hc.bytes, hc.msgCounts⟩) fun _ _ _ => rfl

/-- Whatever is called, an hour stays as it was : what is on disk once it is closed describes
its file, and it keeps its mark. -/
theorem Settled.apply (h : w.Settled hour mark) (op : Op) : (w.apply op).Settled hour mark := by
  rcases op with ⟨now, host, frame⟩ | ⟨now, utc⟩ | now | firmware | site | _
  · exact h.handle now host frame
  · exact h.noteUtc now utc
  · exact h.tick now
  · exact h.setFirmware firmware
  · exact h.setSite site
  · exact h.closeCurrent

/-- `set_keep` on whatever hour is open. -/
theorem Settled.setKeep (h : w.Settled hour none) (keep : Bool) :
    (w.setKeep keep).Settled hour none := by
  rw [RawLogWriter.setKeep]
  split
  · exact h
  · next log hcur =>
    have htouch : { w with
        current := some { log with sidecar := { log.sidecar with keep } } }.Settled hour none :=
      h.touch (f := fun sc => { sc with keep }) (by rw [hcur]; rfl) rfl rfl rfl
        ⟨h.holding.pending, h.holding.pendingCounts⟩ (fun _ _ hc => ⟨hc.bytes, hc.msgCounts⟩)
        fun _ _ hm => absurd hm (by simp)
    exact htouch.dumpSidecar

end RawLogWriter

end Mtrtk
