import Mtrtk.KeepMark

/-!
# The raw log keeps every frame

A frame the logger is handed goes to the open hour's file, to the one it opens for it, or to
what is pending until an hour is named. `RawLogWriter.order` is what it has kept : the frames
in the files in the order they were written, then the frames pending. Every call adds to it
the frame it files and nothing else (`order_apply`), and `Orderly` is what the argument rests
on : nothing is pending while an hour is open, and every file has a sidecar.

A `Life` is one writer on the directory, from its start to its `close`. `raw_log_conserved` :
after any number of them the files hold the frames of all in the order handled, and every
file has a sidecar that describes it. A NAV-PVT that does not parse raises out of `handle`
before it is written (`raw_log_skips`).
-/

namespace Mtrtk

/-! ## What is to be kept -/

/-- A NAV-PVT of which `handle` makes nothing. -/
def LogFrame.Raises (frame : LogFrame) : Prop := frame.identity = "NAV-PVT" ∧ frame.parsed = none

instance : DecidablePred LogFrame.Raises := fun frame =>
  inferInstanceAs (Decidable (frame.identity = "NAV-PVT" ∧ frame.parsed = none))

namespace RawLogWriter

/-- The UBX frame of a `handle` whose identity passes the filter. -/
def Op.passing (messages : List String) : Op → List LogFrame
  | .handle _ _ frame => if frame.proto = .ubx ∧ frame.identity ∈ messages then [frame] else []
  | _ => []

/-- The one that is also read without an error. -/
def Op.logged (messages : List String) (op : Op) : List LogFrame :=
  (op.passing messages).filter fun frame => ¬frame.Raises

/-- The receiver's UTC that a call brings. -/
def Op.reading : Op → Option ℚ
  | .noteUtc _ utc => some utc
  | .handle _ _ frame =>
    if frame.proto = .ubx ∧ frame.identity = "NAV-PVT" then
      (frame.parsed.filter fun m => m.validDate && m.validTime).map fun m =>
        60 * m.minute + clampSecond m.second
    else none
  | _ => none

/-- What is kept, in order. -/
def order (w : RawLogWriter) : List LogFrame := w.filed.map Prod.snd ++ w.held

/-- What holds between the calls. `stray` are hours that may have a file without a sidecar. -/
structure Orderly (w : RawLogWriter) (stray : ℤ → Prop) : Prop where
  holding : w.Holding
  opened : w.utc = none → w.current = none
  emptied : w.current ≠ none → w.held = []
  listed : ∀ hour, ¬stray hour → w.root.file hour ≠ none → w.view hour ≠ none

/-- The filter and the clock are the same. -/
structure SameClock (w w' : RawLogWriter) : Prop where
  filter : w'.filter = w.filter
  utc : w'.utc = w.utc
  closedHour : w'.closedHour = w.closedHour
  frozenUtc : w'.frozenUtc = w.frozenUtc

variable {w w' w'' : RawLogWriter} {stray : ℤ → Prop}

/-! ## One operation -/

theorem SameClock.refl (w : RawLogWriter) : SameClock w w := ⟨rfl, rfl, rfl, rfl⟩

theorem SameClock.trans (h : SameClock w w') (h' : SameClock w' w'') : SameClock w w'' :=
  ⟨h'.filter.trans h.filter, h'.utc.trans h.utc, h'.closedHour.trans h.closedHour,
    h'.frozenUtc.trans h.frozenUtc⟩

theorem sameClock_closeCurrent (w : RawLogWriter) : SameClock w w.closeCurrent := by
  rw [closeCurrent]; split <;> exact ⟨rfl, rfl, rfl, rfl⟩

theorem sameClock_dumpSidecar (w : RawLogWriter) : SameClock w w.dumpSidecar := by
  rw [dumpSidecar]; split <;> exact ⟨rfl, rfl, rfl, rfl⟩

theorem sameClock_write (w : RawLogWriter) (frame : LogFrame) : SameClock w (w.write frame) := by
  rw [write]; split <;> exact ⟨rfl, rfl, rfl, rfl⟩

theorem sameClock_writePending (w : RawLogWriter) : SameClock w w.writePending := by
  rw [writePending]
  split
  · exact .refl w
  · split <;> exact ⟨rfl, rfl, rfl, rfl⟩

theorem sameClock_rotate (w : RawLogWriter) (hour : ℤ) : SameClock w (w.rotate hour) := by
  have hopen : SameClock w.closeCurrent (w.closeCurrent.openHour hour) := ⟨rfl, rfl, rfl, rfl⟩
  exact (((sameClock_closeCurrent w).trans hopen).trans (sameClock_writePending _)).trans
    (sameClock_dumpSidecar _)

theorem sameClock_rotateTo (w : RawLogWriter) (hour : ℤ) : SameClock w (w.rotateTo hour) := by
  rw [rotateTo]
  split
  · exact .refl w
  · exact sameClock_rotate w hour

theorem Holding.pending_eq_nil (h : w.Holding) : w.pending = [] ↔ w.held = [] := by
  rw [h.pending, rawOf_eq_nil]

/-- A call that leaves the files and what is pending alone. -/
theorem Orderly.of_same (h : w.Orderly stray) (hcurrent : w'.current = w.current)
    (hroot : w'.root = w.root) (hutc : w'.utc = none → w.utc = none) (hheld : w'.held = w.held)
    (hholding : w'.Holding) : w'.Orderly stray where
  holding := hholding
  opened hnone := hcurrent.trans (h.opened (hutc hnone))
  emptied hcur := hheld.trans (h.emptied (hcurrent ▸ hcur))
  listed hour hstray hfile := by
    have hview := h.listed hour hstray (hroot ▸ hfile)
    rwa [view, openLog, hcurrent, hroot]

theorem Orderly.dumpSidecar (h : w.Orderly stray) : w.dumpSidecar.Orderly stray where
  holding := h.holding.dumpSidecar
  opened := by rw [RawLogWriter.dumpSidecar]; split <;> exact h.opened
  emptied := by rw [RawLogWriter.dumpSidecar]; split <;> exact h.emptied
  listed hour hstray hfile := by
    rw [view_dumpSidecar]
    refine h.listed hour hstray ?_
    rw [RawLogWriter.dumpSidecar] at hfile
    split at hfile <;> exact hfile

theorem Orderly.closeCurrent (h : w.Orderly stray) : w.closeCurrent.Orderly stray where
  holding := h.holding.closeCurrent
  opened _ := current_closeCurrent w
  emptied hcur := absurd (current_closeCurrent w) hcur
  listed hour hstray hfile := by
    rw [Ne, view_closeCurrent_eq_none]
    refine h.listed hour hstray ?_
    rw [RawLogWriter.closeCurrent] at hfile
    split at hfile <;> exact hfile

/-- The new hour's file has a sidecar as soon as it is there. -/
theorem Orderly.listed_openHour (h : w.Orderly stray) (hcur : w.current = none) (other hour : ℤ)
    (hstray : ¬stray hour) (hfile : (w.openHour other).root.file hour ≠ none) :
    (w.openHour other).view hour ≠ none := by
  by_cases hhour : other = hour
  · have hlog := openLog_of_hour (w := w.openHour other) rfl ((OpenLog.hour_new ..).trans hhour)
    simp [view_of_open hlog]
  · rw [(sameHour_openHour hhour hcur).view]
    refine h.listed hour hstray ?_
    simpa [openHour, Root.append, Ne.symm hhour] using hfile

theorem view_wrote {log : OpenLog} {frames : List LogFrame} {hour : ℤ}
    (hcur : w.current = some log) (hw : Wrote w w' log frames)
    (h : w.root.file hour ≠ none → w.view hour ≠ none) :
    w'.root.file hour ≠ none → w'.view hour ≠ none := by
  intro hfile
  by_cases hhour : log.hour = hour
  · have hlog : w'.openLog hour = some _ := openLog_of_hour hw.current hhour
    simp [view_of_open hlog]
  · rw [(hw.sameHour hcur hhour).view]
    refine h ?_
    simpa [hw.root, Root.append, Ne.symm hhour] using hfile

theorem writePending_of_nil (hpending : w.pending = []) : w.writePending = w := by
  rw [writePending]
  split
  · rfl
  · exact if_pos hpending

theorem filed_writePending {log : OpenLog} (hcur : w.current = some log) (hw : w.Holding) :
    w.writePending.filed = w.filed ++ w.held.map (log.hour, ·) ∧ w.writePending.held = [] := by
  by_cases hne : w.pending = []
  · simp [writePending_of_nil hne, hw.pending_eq_nil.1 hne]
  · simp [writePending, hcur, hne]

/-- What `_rotate` opens. -/
theorem Orderly.openHour (h : w.Orderly stray) (hutc : w.utc ≠ none) (hcur : w.current = none)
    (hour : ℤ) : (w.openHour hour).writePending.Orderly stray := by
  have hholding : (w.openHour hour).Holding := ⟨h.holding.pending, h.holding.pendingCounts⟩
  obtain ⟨log, hlog, -⟩ := exists_current_of_currentHour (currentHour_openHour w hour)
  obtain ⟨-, hheld⟩ := filed_writePending hlog hholding
  have hclock := sameClock_writePending (w.openHour hour)
  refine ⟨hholding.writePending, fun hnone => absurd (hclock.utc.symm.trans hnone) hutc,
    fun _ => hheld, fun other => ?_⟩
  by_cases hne : (w.openHour hour).pending = []
  · rw [writePending_of_nil hne]
    exact h.listed_openHour hcur hour other
  · exact fun hstray => view_wrote hlog (wrote_writePending hlog hholding hne)
      (h.listed_openHour hcur hour other hstray)

@[simp] theorem filed_closeCurrent (w : RawLogWriter) : w.closeCurrent.filed = w.filed := by
  rw [closeCurrent]; split <;> rfl

@[simp] theorem held_closeCurrent (w : RawLogWriter) : w.closeCurrent.held = w.held := by
  rw [closeCurrent]; split <;> rfl

@[simp] theorem filed_dumpSidecar (w : RawLogWriter) : w.dumpSidecar.filed = w.filed := by
  rw [dumpSidecar]; split <;> rfl

@[simp] theorem held_dumpSidecar (w : RawLogWriter) : w.dumpSidecar.held = w.held := by
  rw [dumpSidecar]; split <;> rfl

/-- `_rotate` writes what is pending to the new hour. -/
theorem filed_rotate (h : w.Orderly stray) (hour : ℤ) :
    (w.rotate hour).filed = w.filed ++ w.held.map (hour, ·) ∧ (w.rotate hour).held = [] := by
  obtain ⟨log, hlog, rfl⟩ := exists_current_of_currentHour
    (currentHour_openHour w.closeCurrent hour)
  have hholding := h.closeCurrent.holding
  obtain ⟨hfiled, hheld⟩ := filed_writePending (w := w.closeCurrent.openHour log.hour) hlog
    ⟨hholding.pending, hholding.pendingCounts⟩
  rw [rotate, filed_dumpSidecar, held_dumpSidecar, hfiled, hheld]
  simp [RawLogWriter.openHour]

theorem Orderly.rotate (h : w.Orderly stray) (hutc : w.utc ≠ none) (hour : ℤ) :
    (w.rotate hour).Orderly stray :=
  (h.closeCurrent.openHour ((sameClock_closeCurrent w).utc.trans_ne hutc) (current_closeCurrent w)
    hour).dumpSidecar

/-- Nothing is pending once the hour is there. -/
theorem Orderly.rotateTo (h : w.Orderly stray) (hutc : w.utc ≠ none) (hour : ℤ) :
    (w.rotateTo hour).Orderly stray ∧ (w.rotateTo hour).held = [] ∧
      (w.rotateTo hour).filed = w.filed ++ w.held.map (hour, ·) ∧
      (w.rotateTo hour).currentHour = some hour := by
  rw [RawLogWriter.rotateTo]
  split
  · next hcur =>
    have hheld : w.held = [] := h.emptied fun hnone => by simp [hnone] at hcur
    exact ⟨h, hheld, by simp [hheld], hcur⟩
  · obtain ⟨hfiled, hheld⟩ := filed_rotate h hour
    exact ⟨h.rotate hutc hour, hheld, hfiled, currentHour_rotate w hour⟩

theorem Orderly.write {log : OpenLog} (h : w.Orderly stray) (hcur : w.current = some log)
    (frame : LogFrame) : (w.write frame).Orderly stray where
  holding := h.holding.write frame
  opened hnone := by
    simp only [RawLogWriter.write, hcur] at hnone
    simp [h.opened hnone] at hcur
  emptied _ := by
    simp only [RawLogWriter.write, hcur]
    exact h.emptied (by simp [hcur])
  listed hour hstray := view_wrote hcur (wrote_write hcur frame) (h.listed hour hstray)

theorem Orderly.hold (h : w.Orderly stray) (hutc : w.utc = none) (frame : LogFrame) :
    (w.hold frame).Orderly stray where
  holding := ⟨by simp [RawLogWriter.hold, h.holding.pending],
    by simp [RawLogWriter.hold, h.holding.pendingCounts]⟩
  opened := h.opened
  emptied hcur := absurd (h.opened hutc) hcur
  listed := h.listed

/-! ## One call -/

/-- What a call does with its frames : they are written, with what was pending before them,
or they are pending and no more than may be. -/
inductive Files (w w' : RawLogWriter) (frames : List LogFrame) : Prop
  | nothing (hframes : frames = []) (hheld : w'.held = w.held) (hfiled : w'.filed = w.filed)
  | written (hour : ℤ) (hutc : w'.utc ≠ none) (hheld : w'.held = [])
      (hfiled : w'.filed = w.filed ++ (w.held ++ frames).map (hour, ·))
  | pending (hutc : w'.utc = none) (hheld : w'.held = w.held ++ frames)
      (hfiled : w'.filed = w.filed) (hcap : (rawOf w'.held).length ≤ pendingCapBytes)

/-- Once the clock is read, the frame is written under the hour it names. -/
theorem Orderly.fileFrame_of_utc (h : w.Orderly stray) {utc : ℚ} (hutc : w.utc = some utc)
    (now host : ℚ) (frame : LogFrame) : (w.fileFrame now host frame).Orderly stray ∧
      (w.fileFrame now host frame).held = [] ∧
      (w.fileFrame now host frame).filed = w.filed ++ (w.held ++ [frame]).map (w.nameHour utc, ·) ∧
      (w.fileFrame now host frame).currentHour = some (w.nameHour utc) ∧
      SameClock w (w.fileFrame now host frame) := by
  obtain ⟨horderly, hheld, hfiled, hhour⟩ := h.rotateTo (by simp [hutc]) (w.nameHour utc)
  obtain ⟨log, hlog, hloghour⟩ := exists_current_of_currentHour hhour
  simp only [fileFrame, hutc]
  refine ⟨horderly.write hlog frame, ?_, ?_, ?_,
    (sameClock_rotateTo w _).trans (sameClock_write _ frame)⟩
  · simp [RawLogWriter.write, hlog, hheld]
  · simp [RawLogWriter.write, hlog, hfiled, hloghour]
  · simp [RawLogWriter.write, hlog, currentHour, OpenLog.write, OpenLog.writeBulk, hloghour]

theorem Orderly.fileFrame (h : w.Orderly stray) (now host : ℚ) (frame : LogFrame) :
    (w.fileFrame now host frame).Orderly stray ∧ Files w (w.fileFrame now host frame) [frame] := by
  rcases hutc : w.utc with _ | utc
  swap
  · obtain ⟨horderly, hheld, hfiled, -, hclock⟩ := h.fileFrame_of_utc hutc now host frame
    exact ⟨horderly, .written _ (hclock.utc.trans_ne (by simp [hutc])) hheld hfiled⟩
  have hhold := h.hold hutc frame
  simp only [RawLogWriter.fileFrame, hutc, bufferPending]
  split
  · have hnamed : { w.hold frame with
        utc := some host, utcMono := some now, timeSource := "host" }.Orderly stray :=
      hhold.of_same rfl rfl (fun hnone => by simp at hnone) rfl
        ⟨hhold.holding.pending, hhold.holding.pendingCounts⟩
    obtain ⟨hfiled, hheld⟩ := filed_rotate hnamed (hourOf host)
    refine ⟨hnamed.rotate (by simp) _, .written (hourOf host) ?_ hheld hfiled⟩
    rw [nameByHost, (sameClock_rotate _ _).utc]
    exact Option.some_ne_none _
  · next hcap =>
    refine ⟨hhold, .pending hutc rfl rfl ?_⟩
    rw [← hhold.holding.pending]
    exact Nat.le_of_not_lt hcap

theorem Files.order {frames : List LogFrame} (h : Files w w' frames) :
    w'.order = w.order ++ frames := by
  rcases h with ⟨rfl, hheld, hfiled⟩ | ⟨hour, -, hheld, hfiled⟩ | ⟨-, hheld, hfiled, -⟩
  · simp [RawLogWriter.order, hheld, hfiled]
  · simp [RawLogWriter.order, hheld, hfiled, Function.comp_def]
  · simp [RawLogWriter.order, hheld, hfiled]

theorem logged_handle (messages : List String) (now host : ℚ) (frame : LogFrame) :
    (Op.handle now host frame).logged messages =
      if frame.proto = .ubx ∧ frame.identity ∈ messages ∧ ¬frame.Raises then [frame] else [] := by
  by_cases hpass : frame.proto = .ubx ∧ frame.identity ∈ messages
  · by_cases hraises : frame.Raises <;> simp [Op.logged, Op.passing, hpass, hraises]
  · rw [Op.logged, Op.passing, if_neg hpass, if_neg fun h => hpass ⟨h.1, h.2.1⟩]
    rfl

/-- `handle` takes the reading first, then it files the frame. -/
theorem handle_cases (w : RawLogWriter) (now host : ℚ) (frame : LogFrame) :
    ∃ w₁, ((Op.handle now host frame).reading = none ∧ w₁ = w ∨
        ∃ utc, (Op.handle now host frame).reading = some utc ∧ w₁ = w.noteUtc now utc) ∧
      ((Op.handle now host frame).logged w.filter = [] ∧ w.handle now host frame = w₁ ∨
        (Op.handle now host frame).logged w.filter = [frame] ∧
          w.handle now host frame = w₁.fileFrame now host frame) := by
  rw [logged_handle]
  by_cases hubx : frame.proto = .ubx
  swap
  · exact ⟨w, .inl ⟨by simp [Op.reading, hubx], rfl⟩, .inl ⟨by simp [hubx], by simp [handle, hubx]⟩⟩
  by_cases hpvt : frame.identity = "NAV-PVT"
  swap
  · refine ⟨w, .inl ⟨by simp [Op.reading, hpvt], rfl⟩, ?_⟩
    by_cases hpass : frame.identity ∈ w.filter
    · exact .inr ⟨by simp [LogFrame.Raises, hubx, hpass, hpvt], by simp [handle, hubx, hpvt, hpass]⟩
    · exact .inl ⟨by simp [hpass], by simp [handle, hubx, hpvt, hpass]⟩
  rcases hparsed : frame.parsed with _ | m
  · exact ⟨w, .inl ⟨by simp [Op.reading, hparsed], rfl⟩,
      .inl ⟨by simp [LogFrame.Raises, hpvt, hparsed], by simp [handle, hubx, hpvt, hparsed]⟩⟩
  refine ⟨w.updateTime now m, ?_, ?_⟩
  · by_cases hvalid : (m.validDate && m.validTime) = true
    · exact .inr ⟨60 * m.minute + clampSecond m.second,
        by simp [Op.reading, hubx, hpvt, hparsed, Option.filter, hvalid],
        by rw [updateTime, if_pos hvalid]⟩
    · exact .inl ⟨by simp [Op.reading, hubx, hpvt, hparsed, Option.filter, hvalid],
        by rw [updateTime, if_neg hvalid]⟩
  · have hfilter : (w.updateTime now m).filter = w.filter := by
      rw [updateTime]; split <;> rfl
    by_cases hpass : "NAV-PVT" ∈ w.filter
    · exact .inr ⟨by simp [LogFrame.Raises, hubx, hpvt, hpass, hparsed],
        by simp [handle, hubx, hpvt, hparsed, hfilter, hpass]⟩
    · exact .inl ⟨by simp [hpvt, hpass], by simp [handle, hubx, hpvt, hparsed, hfilter, hpass]⟩

/-- The open log's sidecar is changed. -/
theorem Orderly.touch {f : Sidecar → Sidecar} (h : w.Orderly stray)
    (hcurrent : w'.current = w.current.map fun log => { log with sidecar := f log.sidecar })
    (hroot : w'.root = w.root) (hutc : w'.utc = w.utc) (hheld : w'.held = w.held)
    (hholding : w'.Holding) : w'.Orderly stray where
  holding := hholding
  opened hnone := by simp [hcurrent, h.opened (hutc ▸ hnone)]
  emptied hcur := hheld.trans (h.emptied fun hnone => hcur (by simp [hcurrent, hnone]))
  listed hour hstray hfile := by
    have hview := h.listed hour hstray (hroot ▸ hfile)
    rcases hcur : w.current with _ | log
    · rwa [view, openLog, hcurrent, hcur, Option.map_none, hroot, ← hcur]
    · rw [hcur, Option.map_some] at hcurrent
      by_cases hhour : log.hour = hour
      · rw [view_of_open (openLog_of_hour hcurrent hhour)]
        exact Option.some_ne_none _
      · rw [view_of_closed (openLog_of_ne hcur hhour)] at hview
        rwa [view_of_closed (openLog_of_ne hcurrent hhour), hroot]

theorem Orderly.noteUtc (h : w.Orderly stray) (now utc : ℚ) : (w.noteUtc now utc).Orderly stray :=
  h.of_same rfl rfl (fun hnone => by simp [RawLogWriter.noteUtc] at hnone) rfl
    ⟨h.holding.pending, h.holding.pendingCounts⟩

theorem Orderly.handle (h : w.Orderly stray) (now host : ℚ) (frame : LogFrame) :
    (w.handle now host frame).Orderly stray ∧
      Files w (w.handle now host frame) ((Op.handle now host frame).logged w.filter) := by
  obtain ⟨w₁, hread, hfile⟩ := handle_cases w now host frame
  have hw₁ : w₁.Orderly stray ∧ w₁.filed = w.filed ∧ w₁.held = w.held := by
    obtain ⟨-, rfl⟩ | ⟨utc, -, rfl⟩ := hread
    · exact ⟨h, rfl, rfl⟩
    · exact ⟨h.noteUtc now utc, rfl, rfl⟩
  obtain ⟨horderly, hfiled, hheld⟩ := hw₁
  obtain ⟨hlogged, heq⟩ | ⟨hlogged, heq⟩ := hfile
  · rw [hlogged, heq]
    exact ⟨horderly, .nothing rfl hheld hfiled⟩
  · rw [hlogged, heq]
    obtain ⟨horderly', hfiles⟩ := horderly.fileFrame now host frame
    refine ⟨horderly', ?_⟩
    rcases hfiles with ⟨hnil, -, -⟩ | ⟨hour, hutc, hheld', hfiled'⟩ | ⟨hutc, hheld', hfiled', hcap⟩
    · simp at hnil
    · exact .written hour hutc hheld' (by rw [hfiled', hfiled, hheld])
    · exact .pending hutc (by rw [hheld', hheld]) (hfiled'.trans hfiled) hcap

/-- The hour the ticker closes has ended by its projected clock. -/
theorem closeElapsedHour_cases (w : RawLogWriter) (now : ℚ) :
    w.closeElapsedHour now = w ∨ ∃ (log : OpenLog) (utc elapsed : ℚ),
      w.current = some log ∧ w.utc = some utc ∧ 3600 * (log.hour + 1) ≤ utc + elapsed ∧
        w.closeElapsedHour now = { w.closeCurrent with
          frozenUtc := w.frozenUtc.or (some utc)
          utc := some (utc + elapsed)
          utcMono := some now
          closedHour := some log.hour } := by
  simp only [closeElapsedHour]
  split
  · next log utc mono hcur hutc _ =>
    split
    · exact .inl rfl
    · split
      · exact .inl rfl
      · next hend => exact .inr ⟨log, utc, now - mono, hcur, hutc, not_lt.1 hend, rfl⟩
  · exact .inl rfl

theorem refreshSidecar_cases (w : RawLogWriter) (now : ℚ) :
    w.refreshSidecar now = w ∨
      w.refreshSidecar now = { w.dumpSidecar with lastSidecar := now } := by
  rw [refreshSidecar]
  split
  · exact .inr rfl
  · exact .inl rfl

/-- A tick closes the hour if it has ended, and dumps the sidecar of one that is open. -/
theorem tick_eq (w : RawLogWriter) (now : ℚ) :
    w.tick now = w.closeElapsedHour now ∨
      w.tick now = (w.closeElapsedHour now).refreshSidecar now := by
  rw [tick]
  split
  · next hcur =>
    refine .inl ?_
    simp only [closeElapsedHour, Option.isNone_iff_eq_none.1 hcur]
  · split
    · exact .inl rfl
    · exact .inr rfl

theorem Orderly.closeElapsedHour (h : w.Orderly stray) (now : ℚ) :
    (w.closeElapsedHour now).Orderly stray ∧ (w.closeElapsedHour now).held = w.held ∧
      (w.closeElapsedHour now).filed = w.filed := by
  obtain heq | ⟨log, utc, elapsed, -, -, -, heq⟩ := closeElapsedHour_cases w now
  · rw [heq]
    exact ⟨h, rfl, rfl⟩
  · rw [heq]
    exact ⟨h.closeCurrent.of_same rfl rfl (fun hnone => by simp at hnone) rfl
      ⟨h.closeCurrent.holding.pending, h.closeCurrent.holding.pendingCounts⟩,
      held_closeCurrent w, filed_closeCurrent w⟩

theorem Orderly.tick (h : w.Orderly stray) (now : ℚ) :
    (w.tick now).Orderly stray ∧ (w.tick now).held = w.held ∧ (w.tick now).filed = w.filed := by
  obtain ⟨horderly, hheld, hfiled⟩ := h.closeElapsedHour now
  obtain heq | heq := tick_eq w now
  · exact heq ▸ ⟨horderly, hheld, hfiled⟩
  rw [heq]
  obtain hsame | hdump := refreshSidecar_cases (w.closeElapsedHour now) now
  · exact hsame.symm ▸ ⟨horderly, hheld, hfiled⟩
  · have hdumped := horderly.dumpSidecar
    rw [hdump]
    exact ⟨hdumped.of_same rfl rfl id rfl ⟨hdumped.holding.pending, hdumped.holding.pendingCounts⟩,
      (held_dumpSidecar _).trans hheld, (filed_dumpSidecar _).trans hfiled⟩

theorem sameClock_refreshSidecar (w : RawLogWriter) (now : ℚ) :
    SameClock w (w.refreshSidecar now) := by
  obtain heq | heq := refreshSidecar_cases w now
  · rw [heq]
    exact .refl w
  · rw [heq]
    have hdump := sameClock_dumpSidecar w
    exact ⟨hdump.filter, hdump.utc, hdump.closedHour, hdump.frozenUtc⟩

/-- What a call does with the frame it is handed. -/
theorem Orderly.apply (h : w.Orderly stray) (op : Op) :
    (w.apply op).Orderly stray ∧ Files w (w.apply op) (op.logged w.filter) := by
  have hholding : w.pending = rawOf w.held ∧ w.pendingCounts = countsOf w.held :=
    ⟨h.holding.pending, h.holding.pendingCounts⟩
  rcases op with ⟨now, host, frame⟩ | ⟨now, utc⟩ | now | firmware | site | _
  · exact h.handle now host frame
  · exact ⟨h.noteUtc now utc, .nothing rfl rfl rfl⟩
  · obtain ⟨horderly, hheld, hfiled⟩ := h.tick now
    exact ⟨horderly, .nothing rfl hheld hfiled⟩
  · exact ⟨h.touch (f := fun sc => { sc with firmware }) rfl rfl rfl rfl ⟨hholding.1, hholding.2⟩,
      .nothing rfl rfl rfl⟩
  · exact ⟨h.touch (f := fun sc => { sc with site }) rfl rfl rfl rfl ⟨hholding.1, hholding.2⟩,
      .nothing rfl rfl rfl⟩
  · exact ⟨h.closeCurrent, .nothing rfl (held_closeCurrent w) (filed_closeCurrent w)⟩

/-- Every call keeps what was there, and the frame it logs comes last. -/
theorem order_apply (h : w.Orderly stray) (op : Op) :
    (w.apply op).order = w.order ++ op.logged w.filter :=
  (h.apply op).2.order

/-- A reading is not forgotten, and the frame that brings one is filed under it. -/
theorem utc_apply (h : w.Orderly stray) (op : Op) (hutc : w.utc ≠ none ∨ op.reading ≠ none) :
    (w.apply op).utc ≠ none := by
  rcases op with ⟨now, host, frame⟩ | ⟨now, utc⟩ | now | firmware | site | _
  · obtain ⟨w₁, hread, hfile⟩ := handle_cases w now host frame
    have hw₁ : w₁.Orderly stray ∧ w₁.utc ≠ none := by
      obtain ⟨hnone, rfl⟩ | ⟨utc, -, rfl⟩ := hread
      · exact ⟨h, hutc.resolve_right fun hr => hr hnone⟩
      · exact ⟨h.noteUtc now utc, Option.some_ne_none _⟩
    obtain ⟨-, heq⟩ | ⟨-, heq⟩ := hfile
    · rw [apply, heq]
      exact hw₁.2
    · obtain ⟨utc, hsome⟩ := Option.ne_none_iff_exists'.1 hw₁.2
      obtain ⟨-, -, -, -, hclock⟩ := hw₁.1.fileFrame_of_utc hsome now host frame
      rw [apply, heq, hclock.utc]
      exact hw₁.2
  · exact Option.some_ne_none _
  · have hclose : (w.closeElapsedHour now).utc ≠ none := by
      obtain heq | ⟨log, utc, elapsed, -, -, -, heq⟩ := closeElapsedHour_cases w now
      · exact heq.symm ▸ hutc.resolve_right fun hr => hr rfl
      · rw [heq]
        exact Option.some_ne_none _
    rw [apply]
    obtain heq | heq := tick_eq w now
    · exact heq ▸ hclose
    · exact heq ▸ (sameClock_refreshSidecar _ now).utc.trans_ne hclose
  · exact hutc.resolve_right fun hr => hr rfl
  · exact hutc.resolve_right fun hr => hr rfl
  · exact (sameClock_closeCurrent w).utc.trans_ne (hutc.resolve_right fun hr => hr rfl)

@[simp] theorem filter_fileFrame (w : RawLogWriter) (now host : ℚ) (frame : LogFrame) :
    (w.fileFrame now host frame).filter = w.filter := by
  rw [fileFrame]
  split
  · rw [bufferPending]
    split
    · exact (sameClock_rotate _ _).filter
    · rfl
  · exact ((sameClock_rotateTo w _).trans (sameClock_write _ frame)).filter

@[simp] theorem filter_apply (w : RawLogWriter) (op : Op) : (w.apply op).filter = w.filter := by
  rcases op with ⟨now, host, frame⟩ | ⟨now, utc⟩ | now | firmware | site | _
  · obtain ⟨w₁, hread, hfile⟩ := handle_cases w now host frame
    have hw₁ : w₁.filter = w.filter := by
      obtain ⟨-, rfl⟩ | ⟨utc, -, rfl⟩ := hread <;> rfl
    obtain ⟨-, heq⟩ | ⟨-, heq⟩ := hfile
    · rw [apply, heq, hw₁]
    · rw [apply, heq, filter_fileFrame, hw₁]
  · rfl
  · have hclose : (w.closeElapsedHour now).filter = w.filter := by
      obtain heq | ⟨log, utc, elapsed, -, -, -, heq⟩ := closeElapsedHour_cases w now
      · rw [heq]
      · rw [heq]
        exact (sameClock_closeCurrent w).filter
    rw [apply]
    obtain heq | heq := tick_eq w now
    · exact heq ▸ hclose
    · exact heq ▸ (sameClock_refreshSidecar _ now).filter.trans hclose
  · rfl
  · rfl
  · exact (sameClock_closeCurrent w).filter

/-! ## A writer's life -/

end RawLogWriter

/-- A writer : what it is started with, and what is called of it until it is closed. -/
structure Life where
  messages : List String
  role : String := "base"
  firmware : String := ""
  site : Option String := none
  started : ℚ := 0
  ops : List RawLogWriter.Op

namespace Life

/-- The frames to be kept. -/
def logged (l : Life) : List LogFrame := l.ops.flatMap (RawLogWriter.Op.logged l.messages)

/-- A frame is logged after the first reading or more of them than may be pending, if any. -/
def Named (l : Life) : Prop :=
  (∃ before op after, l.ops = before ++ op :: after ∧ op.logged l.messages ≠ [] ∧
    ∃ r ∈ before ++ [op], r.reading ≠ none) ∨
  pendingCapBytes < (rawOf l.logged).length ∨ l.logged = []

end Life

namespace RawLogWriter

variable {w : RawLogWriter} {hour : ℤ}

/-- The new writer on the directory. -/
def restarted (w : RawLogWriter) (l : Life) : RawLogWriter :=
  { w.replacement l.firmware l.site l.started with filter := l.messages, role := l.role }

/-- The directory's writer after one more life. -/
def live (w : RawLogWriter) (l : Life) : RawLogWriter := (l.ops.foldl apply (w.restarted l)).close

/-- Nothing is pending any more, or all of the life's frames are. -/
inductive Pends (w : RawLogWriter) (frames : List LogFrame) : Prop
  | named (hutc : w.utc ≠ none) (hheld : w.held = [])
  | pending (hheld : w.held = frames) (hcap : (rawOf w.held).length ≤ pendingCapBytes)

/-- Once an hour is named nothing is pending again. -/
theorem held_apply (hw : w.Orderly stray) (hutc : w.utc ≠ none) (hheld : w.held = []) (op : Op) :
    (w.apply op).held = [] := by
  rcases (hw.apply op).2 with ⟨-, hheld', -⟩ | ⟨hour, -, hheld', -⟩ | ⟨hutc', -, -, -⟩
  · exact hheld'.trans hheld
  · exact hheld'
  · exact absurd hutc' (utc_apply hw op (.inl hutc))

theorem Pends.apply {frames : List LogFrame} (h : w.Pends frames) (hw : w.Orderly stray) (op : Op) :
    (w.apply op).Pends (frames ++ op.logged w.filter) := by
  rcases h with ⟨hutc, hheld⟩ | ⟨hheld, hcap⟩
  · exact .named (utc_apply hw op (.inl hutc)) (held_apply hw hutc hheld op)
  · rcases (hw.apply op).2 with ⟨hnil, hheld', -⟩ | ⟨hour, hutc', hheld', -⟩ | ⟨-, hheld', -, hcap'⟩
    · exact .pending (by simp [hheld', hheld, hnil]) (hheld' ▸ hcap)
    · exact .named hutc' hheld'
    · exact .pending (by rw [hheld', hheld]) hcap'

theorem Orderly.foldl (h : w.Orderly stray) (ops : List Op) :
    (ops.foldl RawLogWriter.apply w).Orderly stray ∧
      (ops.foldl RawLogWriter.apply w).filter = w.filter := by
  induction ops generalizing w with
  | nil => exact ⟨h, rfl⟩
  | cons op ops ih =>
    obtain ⟨horderly, hfilter⟩ := ih (h.apply op).1
    exact ⟨horderly, hfilter.trans (filter_apply w op)⟩

/-- A run of calls keeps what was there, and the frames it logs come last. -/
theorem foldl_apply (hw : w.Orderly stray) {frames : List LogFrame} (h : w.Pends frames)
    (ops : List Op) :
    (ops.foldl apply w).Pends (frames ++ ops.flatMap (Op.logged w.filter)) ∧
      (ops.foldl apply w).order = w.order ++ ops.flatMap (Op.logged w.filter) := by
  induction ops using List.reverseRecOn with
  | nil => exact ⟨by simpa using h, by simp⟩
  | append_singleton ops op ih =>
    obtain ⟨hpends, horder⟩ := ih
    obtain ⟨horderly, hfilter⟩ := hw.foldl ops
    rw [List.foldl_append, List.foldl_cons, List.foldl_nil, order_apply horderly]
    refine ⟨?_, by simp [horder, hfilter]⟩
    simpa [hfilter] using hpends.apply horderly op

theorem utc_foldl (hw : w.Orderly stray) (ops : List Op)
    (h : w.utc ≠ none ∨ ∃ r ∈ ops, r.reading ≠ none) : (ops.foldl apply w).utc ≠ none := by
  induction ops generalizing w with
  | nil => simpa using h
  | cons op ops ih =>
    refine ih (hw.apply op).1 ?_
    obtain hutc | ⟨r, hr, hreading⟩ := h
    · exact .inl (utc_apply hw op (.inl hutc))
    · obtain rfl | hr := List.mem_cons.1 hr
      · exact .inl (utc_apply hw r (.inr hreading))
      · exact .inr ⟨r, hr, hreading⟩

theorem held_foldl (hw : w.Orderly stray) (hutc : w.utc ≠ none) (hheld : w.held = [])
    (ops : List Op) : (ops.foldl RawLogWriter.apply w).held = [] := by
  induction ops generalizing w with
  | nil => exact hheld
  | cons op ops ih =>
    exact ih (hw.apply op).1 (utc_apply hw op (.inl hutc)) (held_apply hw hutc hheld op)

theorem Settled.foldl (h : w.Settled hour none) (ops : List Op) :
    (ops.foldl RawLogWriter.apply w).Settled hour none := by
  induction ops generalizing w with
  | nil => exact h
  | cons op ops ih => exact ih (h.apply op)

/-- Nothing is pending at the end of a life whose frames are named. -/
theorem held_of_named {l : Life} (hw : (w.restarted l).Orderly stray) (h : l.Named) :
    (l.ops.foldl RawLogWriter.apply (w.restarted l)).held = [] := by
  have hfresh : (w.restarted l).Pends [] := .pending rfl (Nat.zero_le _)
  obtain ⟨before, op, after, hops, hlogged, hreads⟩ | hmany := h
  · obtain ⟨horderly, hfilter⟩ := hw.foldl before
    have hutc : ((before ++ [op]).foldl RawLogWriter.apply (w.restarted l)).utc ≠ none :=
      utc_foldl hw _ (.inr hreads)
    rw [List.foldl_append, List.foldl_cons, List.foldl_nil] at hutc
    have hheld : ((before.foldl RawLogWriter.apply (w.restarted l)).apply op).held = [] := by
      rcases (horderly.apply op).2 with ⟨hnil, -, -⟩ | ⟨hour, -, hheld, -⟩ | ⟨hnone, -, -, -⟩
      · rw [hfilter] at hnil
        exact absurd hnil hlogged
      · exact hheld
      · exact absurd hnone hutc
    rw [hops, List.foldl_append, List.foldl_cons]
    exact held_foldl (horderly.apply op).1 hutc hheld after
  · obtain ⟨hpends, -⟩ := foldl_apply hw hfresh l.ops
    rcases hpends with ⟨-, hheld⟩ | ⟨hheld, hcap⟩
    · exact hheld
    · rw [hheld, List.nil_append] at hcap ⊢
      exact hmany.resolve_left (Nat.not_lt.2 hcap)

/-- A directory no writer has been on yet. -/
def empty (stationId : String) : RawLogWriter := { stationId, filter := [] }

/-- What holds between two lives. -/
structure Closed (w : RawLogWriter) : Prop where
  current : w.current = none
  listed : ∀ hour, w.root.file hour ≠ none → w.root.sidecar hour ≠ none
  settled : ∀ hour, w.Settled hour none

theorem closed_empty (stationId : String) : (empty stationId).Closed :=
  ⟨rfl, fun _ hfile => absurd rfl hfile, fun _ => LogDaemon.settled_init stationId "base" []⟩

theorem orderly_restarted (w : RawLogWriter) (l : Life)
    (hlisted : ∀ hour, ¬stray hour → w.root.file hour ≠ none → w.root.sidecar hour ≠ none) :
    (w.restarted l).Orderly stray :=
  ⟨⟨rfl, rfl⟩, fun _ => rfl, fun hcur => absurd rfl hcur, hlisted⟩

theorem Closed.restarted (h : w.Closed) (l : Life) :
    (w.restarted l).Orderly (fun _ => False) ∧ ∀ hour, (w.restarted l).Settled hour none := by
  refine ⟨orderly_restarted w l fun hour _ => h.listed hour, fun hour => ?_⟩
  exact ((h.settled hour).replacement h.current l.firmware l.site l.started).of_same
    ⟨rfl, rfl, rfl, rfl, rfl⟩ ⟨rfl, rfl⟩

/-- One life : the directory has its frames after those it had. -/
theorem Closed.live (h : w.Closed) (l : Life) :
    (w.live l).Closed ∧
      (l.Named → (w.live l).filed.map Prod.snd = w.filed.map Prod.snd ++ l.logged) := by
  obtain ⟨horderly, hsettled⟩ := h.restarted l
  obtain ⟨-, horder⟩ := foldl_apply horderly (.pending rfl (Nat.zero_le _)) l.ops
  have horderly' := (horderly.foldl l.ops).1
  have hsettled' : ∀ hour, (l.ops.foldl RawLogWriter.apply (w.restarted l)).Settled hour none :=
    fun hour => (hsettled hour).foldl l.ops
  refine ⟨⟨current_closeCurrent _, fun hour hfile => ?_, fun hour => (hsettled' hour).closeCurrent⟩,
    fun hnamed => ?_⟩
  · have hview := horderly'.closeCurrent.listed hour not_false hfile
    rwa [view_of_closed (openLog_of_none (current_closeCurrent _))] at hview
  · have hheld := held_of_named horderly hnamed
    rw [order, hheld, List.append_nil] at horder
    rw [RawLogWriter.live, RawLogWriter.close, filed_closeCurrent, horder]
    simp [order, RawLogWriter.restarted, replacement, Life.logged]

theorem Closed.lives (h : w.Closed) (lives : List Life) :
    (lives.foldl RawLogWriter.live w).Closed ∧ ((∀ l ∈ lives, l.Named) →
      (lives.foldl RawLogWriter.live w).filed.map Prod.snd =
        w.filed.map Prod.snd ++ lives.flatMap Life.logged) := by
  induction lives generalizing w with
  | nil => exact ⟨h, fun _ => by simp⟩
  | cons l lives ih =>
    obtain ⟨hclosed, hfiled⟩ := h.live l
    obtain ⟨hclosed', hfiled'⟩ := ih hclosed
    refine ⟨hclosed', fun hnamed => ?_⟩
    rw [List.foldl_cons, hfiled' fun l' hl' => hnamed l' (List.mem_cons_of_mem _ hl'),
      hfiled (hnamed l List.mem_cons_self)]
    simp

/-- After any number of writers on a new directory, all of whose frames are named : the files
hold the frames logged, in the order handled, each in one of them, and every file has a
sidecar with its size, its hash and the counts of its frames. -/
theorem raw_log_conserved (stationId : String) (lives : List Life)
    (hnamed : ∀ l ∈ lives, l.Named) :
    ((lives.foldl live (empty stationId)).filed.map Prod.snd = lives.flatMap Life.logged) ∧
    (∀ hour, (lives.foldl live (empty stationId)).root.content hour =
      rawOf ((lives.foldl live (empty stationId)).framesOf hour)) ∧
    ∀ hour content, (lives.foldl live (empty stationId)).root.file hour = some content →
      ∃ sidecar, (lives.foldl live (empty stationId)).root.sidecar hour = some sidecar ∧
        sidecar.bytes = content.length ∧
        sidecar.sha256 = some (Sha256.sha256Hex content) ∧
        sidecar.msgCounts = countsOf ((lives.foldl live (empty stationId)).framesOf hour) := by
  obtain ⟨hclosed, hfiled⟩ := (closed_empty stationId).lives lives
  refine ⟨by simpa [empty] using hfiled hnamed, fun hour => (hclosed.settled hour).sound.content,
    fun hour content hfile => ?_⟩
  have hsound := (hclosed.settled hour).sound
  have hcontent : rawOf ((lives.foldl live (empty stationId)).framesOf hour) = content := by
    rw [← hsound.content, Root.content, hfile, Option.getD_some]
  obtain ⟨sidecar, hsidecar⟩ := Option.ne_none_iff_exists'.1
    (hclosed.listed hour (hfile ▸ Option.some_ne_none _))
  have hfinal := hsound.closed (openLog_of_none hclosed.current) sidecar hsidecar
  exact ⟨sidecar, hsidecar, hcontent ▸ hfinal.bytes, hcontent ▸ hfinal.sha256, hfinal.msgCounts⟩

/-- A writer that logs one frame of the hour, and one that resumes its file. -/
def resumedHour : List Life :=
  [{ messages := ["NAV-EOE"]
     ops := [.noteUtc 0 1767243600, .handle 1 0 LogDaemon.eoeFrame, .close] },
   { messages := ["NAV-EOE"]
     ops := [.handle 5 0 LogDaemon.eoeFrame, .noteUtc 6 1767243660,
       .handle 6 0 LogDaemon.eoeFrame] }]

theorem raw_log_conserved_resumed :
    ((resumedHour.foldl live (empty "BASE")).filed.map Prod.snd =
        List.replicate 3 LogDaemon.eoeFrame) ∧
      ∃ sidecar, (resumedHour.foldl live (empty "BASE")).root.sidecar 490901 = some sidecar ∧
        sidecar.bytes = 36 ∧ sidecar.msgCounts = {"NAV-EOE", "NAV-EOE", "NAV-EOE"} := by
  have hnamed : ∀ l ∈ resumedHour, l.Named := by
    simp only [resumedHour, List.forall_mem_cons]
    refine ⟨.inl ⟨[.noteUtc 0 1767243600], _, _, rfl, by decide, _, List.mem_cons_self, ?_⟩,
      .inl ⟨[.handle 5 0 LogDaemon.eoeFrame, .noteUtc 6 1767243660], _, _, rfl, by decide,
        .noteUtc 6 1767243660, by simp, ?_⟩, by simp⟩
    · exact Option.some_ne_none _
    · exact Option.some_ne_none _
  obtain ⟨hfiled, -, hsidecar⟩ := raw_log_conserved "BASE" resumedHour hnamed
  have hfile : (resumedHour.foldl live (empty "BASE")).root.file 490901 =
      some (rawOf (List.replicate 3 LogDaemon.eoeFrame)) := by decide +kernel
  have hframes : (resumedHour.foldl live (empty "BASE")).framesOf 490901 =
      List.replicate 3 LogDaemon.eoeFrame := by decide +kernel
  obtain ⟨sidecar, hsome, hbytes, -, hcounts⟩ := hsidecar 490901 _ hfile
  exact ⟨hfiled, sidecar, hsome, hbytes, by rw [hcounts, hframes]; rfl⟩

/-- A NAV-PVT of the thirteenth month, its date and time flagged valid. -/
def undatedPvt : LogFrame where
  proto := .ubx
  identity := "NAV-PVT"
  raw := [0xB5, 0x62, 0x01, 0x07, 0x5C, 0x00, 0x00, 0x00, 0x00, 0x00, 0xEA, 0x07, 0x0D, 0x01,
    0x05, 0x00, 0x00, 0x07] ++ List.replicate 80 0x00 ++ [0x6F, 0x20]
  raw_ne := by simp
  parsed := none

/-- It is handed to a writer that has a reading and logs its messages. -/
def undatedLife : Life where
  messages := ["NAV-PVT", "NAV-EOE"]
  ops := [.noteUtc 0 1767243600, .handle 1 0 undatedPvt, .handle 1 0 LogDaemon.eoeFrame]

/-- It is in no file. -/
theorem raw_log_skips :
    undatedLife.Named ∧
      undatedLife.ops.flatMap (Op.passing undatedLife.messages) =
        [undatedPvt, LogDaemon.eoeFrame] ∧
      ((empty "BASE").live undatedLife).filed.map Prod.snd = [LogDaemon.eoeFrame] := by
  refine ⟨.inl ⟨[.noteUtc 0 1767243600, .handle 1 0 undatedPvt], .handle 1 0 LogDaemon.eoeFrame,
    [], rfl, by decide, .noteUtc 0 1767243600, by simp, Option.some_ne_none _⟩, by decide,
    by decide +kernel⟩

end RawLogWriter

end Mtrtk
