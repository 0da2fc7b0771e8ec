import Mtrtk.LogOrder

/-!
# The hours the ticker closes

Once no frame comes the ticker closes the open hour (`closeElapsedHour`), and the clock goes on
from where the hour ended. A receiver that repeats the reading the hour was closed under sets
the clock back, but not `_closed_hour`, below which no frame is filed; a reading that is
another lifts it.

`Frozen` is what holds from the first of these ticks on, while every reading is the one then in
force. `closed_hour_stays_closed` : every hour opened then is later than every hour the ticker
has closed, and the first reading that is another names the hour the frames are filed under.
-/

namespace Mtrtk

namespace RawLogWriter

/-- The hour a call opens. -/
def opens (w : RawLogWriter) (op : Op) : Option ℤ :=
  if (w.apply op).currentHour = w.currentHour then none else (w.apply op).currentHour

/-- The hour a tick closes. -/
def tickCloses (w : RawLogWriter) : Op → Option ℤ
  | .tick now => if (w.tick now).currentHour = none then w.currentHour else none
  | _ => none

/-- The hours the ticker closes in a run of calls. -/
def tickerClosed (w : RawLogWriter) : List Op → List ℤ
  | [] => []
  | op :: ops => (w.tickCloses op).toList ++ (w.apply op).tickerClosed ops

variable {w w' : RawLogWriter} {stray : ℤ → Prop} {reading : ℚ} {closed : ℤ}

theorem tickerClosed_append (w : RawLogWriter) (ops ops' : List Op) :
    w.tickerClosed (ops ++ ops') =
      w.tickerClosed ops ++ (ops.foldl apply w).tickerClosed ops' := by
  induction ops generalizing w with
  | nil => rfl
  | cons op ops ih => simp [tickerClosed, ih]

/-! ## One call -/

theorem lt_nameHour (hclosed : w.closedHour = some closed) (utc : ℚ) :
    closed < w.nameHour utc := by
  simp only [nameHour, hclosed]
  split <;> omega

theorem currentHour_closeCurrent (w : RawLogWriter) : w.closeCurrent.currentHour = none :=
  congrArg (Option.map OpenLog.hour) (current_closeCurrent w)

theorem currentHour_refreshSidecar (w : RawLogWriter) (now : ℚ) :
    (w.refreshSidecar now).currentHour = w.currentHour := by
  obtain heq | heq := refreshSidecar_cases w now
  · rw [heq]
  · rw [heq]
    exact currentHour_dumpSidecar w

/-- A tick that closes no hour leaves the clock alone. -/
theorem tick_cases (w : RawLogWriter) (now : ℚ) :
    (w.tickCloses (.tick now) = none ∧ (w.tick now).currentHour = w.currentHour ∧
        SameClock w (w.tick now)) ∨
      ∃ hour utc, w.tickCloses (.tick now) = some hour ∧ w.currentHour = some hour ∧
        w.utc = some utc ∧ (w.tick now).currentHour = none ∧
        (w.tick now).closedHour = some hour ∧
        (w.tick now).frozenUtc = w.frozenUtc.or (some utc) := by
  have htick : (w.tick now).currentHour = (w.closeElapsedHour now).currentHour ∧
      SameClock (w.closeElapsedHour now) (w.tick now) := by
    obtain heq | heq := tick_eq w now
    · rw [heq]
      exact ⟨rfl, .refl _⟩
    · rw [heq]
      exact ⟨currentHour_refreshSidecar _ now, sameClock_refreshSidecar _ now⟩
  obtain ⟨hhour, hclock⟩ := htick
  obtain heq | ⟨log, utc, elapsed, hcur, hutc, -, heq⟩ := closeElapsedHour_cases w now
  · rw [heq] at hhour hclock
    refine .inl ⟨?_, hhour, hclock⟩
    rw [tickCloses, hhour]
    split <;> simp_all
  · rw [heq] at hhour hclock
    have hnone : (w.tick now).currentHour = none := by
      rw [hhour]
      exact currentHour_closeCurrent w
    have hlog : w.currentHour = some log.hour := by rw [currentHour, hcur]; rfl
    exact .inr ⟨log.hour, utc, by rw [tickCloses, if_pos hnone, hlog], hlog, hutc, hnone,
      hclock.closedHour, hclock.frozenUtc⟩

/-- What a call that is no tick does : it takes its reading, if it has one, and what it opens
is the hour the clock then names. -/
theorem opens_handle (h : w.Orderly stray) (hutc : w.utc ≠ none) (now host : ℚ) (frame : LogFrame) :
    ∃ w₁, (w₁ = w ∧ (Op.handle now host frame).reading = none ∨
        ∃ utc, (Op.handle now host frame).reading = some utc ∧ w₁ = w.noteUtc now utc) ∧
      ∃ utc, w₁.utc = some utc ∧ w₁.Orderly stray ∧ w₁.currentHour = w.currentHour ∧
        SameClock w₁ (w.handle now host frame) ∧
        ((w.handle now host frame).currentHour = w.currentHour ∨
          (w.handle now host frame).currentHour = some (w₁.nameHour utc)) := by
  obtain ⟨w₁, hread, hfile⟩ := handle_cases w now host frame
  have hw₁ : w₁.Orderly stray ∧ w₁.utc ≠ none ∧ w₁.currentHour = w.currentHour := by
    obtain ⟨-, rfl⟩ | ⟨utc, -, rfl⟩ := hread
    · exact ⟨h, hutc, rfl⟩
    · exact ⟨h.noteUtc now utc, Option.some_ne_none _, rfl⟩
  obtain ⟨horderly, hsome, hhour⟩ := hw₁
  obtain ⟨utc, hutc₁⟩ := Option.ne_none_iff_exists'.1 hsome
  refine ⟨w₁, hread.imp And.symm id, utc, hutc₁, horderly, hhour, ?_⟩
  obtain ⟨-, heq⟩ | ⟨-, heq⟩ := hfile
  · rw [heq]
    exact ⟨.refl _, .inl hhour⟩
  · obtain ⟨-, -, -, hnamed, hclock⟩ := horderly.fileFrame_of_utc hutc₁ now host frame
    rw [heq]
    exact ⟨hclock, .inr hnamed⟩

/-! ## While the clock is frozen -/

/-- What holds once the ticker has closed `closed`, under `reading` the first time. -/
structure Frozen (w : RawLogWriter) (reading : ℚ) (closed : ℤ) : Prop where
  utc : w.utc ≠ none
  frozenUtc : w.frozenUtc = some reading
  closedHour : w.closedHour = some closed
  later : ∀ hour, w.currentHour = some hour → closed < hour

/-- The reading that is in force already, once more. -/
theorem Frozen.noteUtc (h : w.Frozen reading closed) (now : ℚ) :
    (w.noteUtc now reading).Frozen reading closed where
  utc := Option.some_ne_none _
  frozenUtc := by simp [RawLogWriter.noteUtc, h.frozenUtc]
  closedHour := by simp [RawLogWriter.noteUtc, h.frozenUtc, h.closedHour]
  later := h.later

theorem Frozen.of_sameClock (h : w.Frozen reading closed) (hclock : SameClock w w')
    (hhour : ∀ hour, w'.currentHour = some hour → closed < hour) : w'.Frozen reading closed :=
  ⟨hclock.utc.trans_ne h.utc, hclock.frozenUtc.trans h.frozenUtc,
    hclock.closedHour.trans h.closedHour, hhour⟩

theorem currentHour_of_opens {op : Op} {hour : ℤ} (h : w.opens op = some hour) :
    (w.apply op).currentHour = some hour := by
  rw [opens] at h
  split at h
  · simp at h
  · exact h

/-- What one call does : it opens no hour but a later one, and what the ticker closes is
later, too. -/
theorem Frozen.apply (h : w.Frozen reading closed) (hw : w.Orderly stray) (op : Op)
    (hreading : ∀ utc, op.reading = some utc → utc = reading) :
    ∃ closed', (w.apply op).Frozen reading closed' ∧ closed ≤ closed' ∧
      ∀ hour ∈ w.tickCloses op, hour ≤ closed' := by
  rcases op with ⟨now, host, frame⟩ | ⟨now, utc⟩ | now | firmware | site | _
  · obtain ⟨w₁, hread, utc, hutc, -, hhour, hclock, hopened⟩ :=
      opens_handle hw h.utc now host frame
    have hw₁ : w₁.Frozen reading closed := by
      obtain ⟨rfl, -⟩ | ⟨utc', hutc', rfl⟩ := hread
      · exact h
      · rw [hreading utc' hutc']
        exact h.noteUtc now
    refine ⟨closed, hw₁.of_sameClock hclock fun hour hcur => ?_, le_rfl, by simp [tickCloses]⟩
    obtain hsame | hnamed := hopened
    · exact h.later hour (hsame ▸ hcur)
    · obtain rfl : w₁.nameHour utc = hour := Option.some.inj (hnamed.symm.trans hcur)
      exact lt_nameHour hw₁.closedHour utc
  · rw [hreading utc rfl]
    exact ⟨closed, h.noteUtc now, le_rfl, by simp [tickCloses]⟩
  · obtain ⟨hcloses, hhour, hclock⟩ | ⟨hour, utc, hcloses, hcur, hutc, hnone, hclosed, hfrozen⟩ :=
      tick_cases w now
    · refine ⟨closed, h.of_sameClock hclock fun hour hcur => h.later hour (hhour ▸ hcur), le_rfl,
        ?_⟩
      simp [hcloses]
    · refine ⟨hour, ⟨?_, by simp [RawLogWriter.apply, hfrozen, h.frozenUtc], hclosed, ?_⟩,
        (h.later hour hcur).le, by simp [hcloses]⟩
      · exact utc_apply hw (.tick now) (.inl h.utc)
      · intro other hother
        exact absurd (hother.symm.trans hnone) (Option.some_ne_none _)
  · refine ⟨closed, h.of_sameClock ⟨rfl, rfl, rfl, rfl⟩ fun hour hcur => h.later hour ?_, le_rfl,
      by simp [tickCloses]⟩
    simpa [RawLogWriter.apply, setFirmware, currentHour, Function.comp_def] using hcur
  · refine ⟨closed, h.of_sameClock ⟨rfl, rfl, rfl, rfl⟩ fun hour hcur => h.later hour ?_, le_rfl,
      by simp [tickCloses]⟩
    simpa [RawLogWriter.apply, setSite, currentHour, Function.comp_def] using hcur
  · refine ⟨closed, h.of_sameClock (sameClock_closeCurrent w) fun hour hcur => ?_, le_rfl,
      by simp [tickCloses]⟩
    exact absurd (hcur.symm.trans (currentHour_closeCurrent w)) (Option.some_ne_none _)

theorem Frozen.foldl (h : w.Frozen reading closed) (hw : w.Orderly stray) (ops : List Op)
    (hreading : ∀ op ∈ ops, ∀ utc, op.reading = some utc → utc = reading) :
    ∃ closed', (ops.foldl RawLogWriter.apply w).Frozen reading closed' ∧ closed ≤ closed' ∧
      ∀ hour ∈ w.tickerClosed ops, hour ≤ closed' := by
  induction ops generalizing w closed with
  | nil => exact ⟨closed, h, le_rfl, by simp [tickerClosed]⟩
  | cons op ops ih =>
    obtain ⟨closed₁, h₁, hle₁, hcloses₁⟩ := h.apply hw op (hreading op List.mem_cons_self)
    obtain ⟨closed₂, h₂, hle₂, hcloses₂⟩ := ih h₁ (hw.apply op).1
      fun r hr => hreading r (List.mem_cons_of_mem _ hr)
    refine ⟨closed₂, h₂, hle₁.trans hle₂, fun hour hhour => ?_⟩
    obtain hfirst | hlater := List.mem_append.1 hhour
    · exact (hcloses₁ hour (Option.mem_toList.1 hfirst)).trans hle₂
    · exact hcloses₂ hour hlater

/-! ## Before the ticker closes an hour, and after another reading -/

/-- No hour is off limits. -/
structure Moving (w : RawLogWriter) : Prop where
  frozenUtc : w.frozenUtc = none
  closedHour : w.closedHour = none

theorem Moving.of_sameClock (h : w.Moving) (hclock : SameClock w w') : w'.Moving :=
  ⟨hclock.frozenUtc.trans h.frozenUtc, hclock.closedHour.trans h.closedHour⟩

theorem Moving.noteUtc (h : w.Moving) (now utc : ℚ) : (w.noteUtc now utc).Moving :=
  ⟨by simp [RawLogWriter.noteUtc, h.frozenUtc],
    by simp [RawLogWriter.noteUtc, h.frozenUtc, h.closedHour]⟩

theorem Moving.fileFrame (h : w.Moving) (now host : ℚ) (frame : LogFrame) :
    (w.fileFrame now host frame).Moving := by
  rw [RawLogWriter.fileFrame]
  split
  · rw [bufferPending]
    split
    · have hhost : { w.hold frame with
          utc := some host, utcMono := some now, timeSource := "host" }.Moving := ⟨h.1, h.2⟩
      exact hhost.of_sameClock (sameClock_rotate _ _)
    · exact ⟨h.1, h.2⟩
  · exact h.of_sameClock ((sameClock_rotateTo w _).trans (sameClock_write _ frame))

/-- Only the ticker puts an hour off limits. -/
theorem Moving.apply (h : w.Moving) (op : Op) (hcloses : w.tickCloses op = none) :
    (w.apply op).Moving := by
  rcases op with ⟨now, host, frame⟩ | ⟨now, utc⟩ | now | firmware | site | _
  · obtain ⟨w₁, hread, hfile⟩ := handle_cases w now host frame
    have hw₁ : w₁.Moving := by
      obtain ⟨-, rfl⟩ | ⟨utc, -, rfl⟩ := hread
      · exact h
      · exact h.noteUtc now utc
    rw [RawLogWriter.apply]
    obtain ⟨-, heq⟩ | ⟨-, heq⟩ := hfile
    · exact heq ▸ hw₁
    · exact heq ▸ hw₁.fileFrame now host frame
  · exact h.noteUtc now utc
  · obtain ⟨-, -, hclock⟩ | ⟨hour, utc, hsome, -⟩ := tick_cases w now
    · exact h.of_sameClock hclock
    · exact absurd (hsome.symm.trans hcloses) (Option.some_ne_none _)
  · exact ⟨h.1, h.2⟩
  · exact ⟨h.1, h.2⟩
  · exact h.of_sameClock (sameClock_closeCurrent w)

theorem Moving.foldl (h : w.Moving) (ops : List Op) (hcloses : w.tickerClosed ops = []) :
    (ops.foldl RawLogWriter.apply w).Moving := by
  induction ops generalizing w with
  | nil => exact h
  | cons op ops ih =>
    obtain ⟨hfirst, hlater⟩ := List.append_eq_nil_iff.1 hcloses
    exact ih (h.apply op (Option.toList_eq_nil_iff.1 hfirst)) hlater

/-- Frames are filed under the hour of `utc`. -/
structure Names (w : RawLogWriter) (utc : ℚ) : Prop where
  utc : w.utc = some utc
  closedHour : w.closedHour = none
  held : w.held = []

theorem Names.of_sameClock {utc : ℚ} (h : w.Names utc) (hclock : SameClock w w')
    (hheld : w'.held = []) : w'.Names utc :=
  ⟨hclock.utc.trans h.utc, hclock.closedHour.trans h.closedHour, hheld⟩

theorem Names.fileFrame {utc : ℚ} (h : w.Names utc) (hw : w.Orderly stray) (now host : ℚ)
    (frame : LogFrame) : (w.fileFrame now host frame).Names utc ∧
      (w.fileFrame now host frame).filed = w.filed ++ [(hourOf utc, frame)] := by
  obtain ⟨-, hheld, hfiled, -, hclock⟩ := hw.fileFrame_of_utc h.utc now host frame
  refine ⟨h.of_sameClock hclock hheld, ?_⟩
  simpa [h.held, nameHour, h.closedHour] using hfiled

/-- A frame that is handled after `utc`, or that brings it. -/
theorem Names.handle {utc : ℚ} (h : ∀ now, (w.noteUtc now utc).Names utc) (hw : w.Orderly stray)
    (now host : ℚ) (frame : LogFrame)
    (hreading : (Op.handle now host frame).reading = some utc ∨
      (Op.handle now host frame).reading = none ∧ w.Names utc) :
    (w.handle now host frame).Names utc ∧ (w.handle now host frame).filed =
      w.filed ++ ((Op.handle now host frame).logged w.filter).map (hourOf utc, ·) := by
  obtain ⟨w₁, hread, hfile⟩ := handle_cases w now host frame
  have hw₁ : w₁.Names utc ∧ w₁.Orderly stray ∧ w₁.filed = w.filed := by
    obtain ⟨hnone, rfl⟩ | ⟨utc', hutc', rfl⟩ := hread
    · obtain hsome | ⟨-, hnames⟩ := hreading
      · exact absurd (hsome.symm.trans hnone) (Option.some_ne_none _)
      · exact ⟨hnames, hw, rfl⟩
    · obtain hsome | ⟨hnone, -⟩ := hreading
      · obtain rfl : utc' = utc := Option.some.inj (hutc'.symm.trans hsome)
        exact ⟨h now, hw.noteUtc now utc', rfl⟩
      · exact absurd (hutc'.symm.trans hnone) (Option.some_ne_none _)
  obtain ⟨hnames, horderly, hfiled⟩ := hw₁
  obtain ⟨hlogged, heq⟩ | ⟨hlogged, heq⟩ := hfile
  · rw [heq, hlogged, hfiled]
    exact ⟨hnames, by simp⟩
  · obtain ⟨hnames', hfiled'⟩ := hnames.fileFrame horderly now host frame
    rw [heq, hlogged, hfiled', hfiled]
    exact ⟨hnames', by simp⟩

theorem Names.noteUtc {utc : ℚ} (h : w.Names utc) (now : ℚ) : (w.noteUtc now utc).Names utc :=
  ⟨rfl, by simp [RawLogWriter.noteUtc, h.closedHour], h.held⟩

/-- A reading that is another lifts the guard. -/
theorem Frozen.names (h : w.Frozen reading closed) (hheld : w.held = []) {utc : ℚ}
    (hne : utc ≠ reading) (now : ℚ) : (w.noteUtc now utc).Names utc :=
  ⟨rfl, by simp [RawLogWriter.noteUtc, h.frozenUtc, hne.symm], hheld⟩

theorem Names.apply {utc : ℚ} (h : w.Names utc) (hw : w.Orderly stray) (op : Op)
    (hreading : op.reading = none) (hcloses : w.tickCloses op = none) :
    (w.apply op).Names utc ∧
      (w.apply op).filed = w.filed ++ (op.logged w.filter).map (hourOf utc, ·) := by
  rcases op with ⟨now, host, frame⟩ | ⟨now, other⟩ | now | firmware | site | _
  · exact Names.handle h.noteUtc hw now host frame (.inr ⟨hreading, h⟩)
  · exact absurd hreading (Option.some_ne_none _)
  · obtain ⟨-, hheld, hfiled⟩ := hw.tick now
    obtain ⟨-, -, hclock⟩ | ⟨hour, _, hsome, -⟩ := tick_cases w now
    · exact ⟨h.of_sameClock hclock (hheld.trans h.held), hfiled.trans (List.append_nil _).symm⟩
    · exact absurd (hsome.symm.trans hcloses) (Option.some_ne_none _)
  · exact ⟨h.of_sameClock ⟨rfl, rfl, rfl, rfl⟩ h.held, (List.append_nil _).symm⟩
  · exact ⟨h.of_sameClock ⟨rfl, rfl, rfl, rfl⟩ h.held, (List.append_nil _).symm⟩
  · exact ⟨h.of_sameClock (sameClock_closeCurrent w) ((held_closeCurrent w).trans h.held),
      (filed_closeCurrent w).trans (List.append_nil _).symm⟩

theorem Names.foldl {utc : ℚ} (h : w.Names utc) (hw : w.Orderly stray) (ops : List Op)
    (hreading : ∀ op ∈ ops, op.reading = none) (hcloses : w.tickerClosed ops = []) :
    (ops.foldl RawLogWriter.apply w).filed =
      w.filed ++ (ops.flatMap (Op.logged w.filter)).map (hourOf utc, ·) := by
  induction ops generalizing w with
  | nil => simp
  | cons op ops ih =>
    obtain ⟨hfirst, hlater⟩ := List.append_eq_nil_iff.1 hcloses
    obtain ⟨hnames, hfiled⟩ := h.apply hw op (hreading op List.mem_cons_self)
      (Option.toList_eq_nil_iff.1 hfirst)
    have hrest := ih hnames (hw.apply op).1 (fun r hr => hreading r (List.mem_cons_of_mem _ hr))
      hlater
    rw [List.foldl_cons, hrest, hfiled, filter_apply]
    simp

/-! ## Runs -/

/-- The first tick that closes an hour, which it does under `reading`, and what comes after
while every reading is that one. -/
theorem Moving.frozen (h : w.Moving) (hw : w.Orderly stray) (now : ℚ) (middle : List Op)
    (hcloses : w.tickCloses (.tick now) ≠ none) (hutc : w.utc = some reading)
    (hreading : ∀ op ∈ middle, ∀ utc, op.reading = some utc → utc = reading) :
    ∃ closed, ((Op.tick now :: middle).foldl RawLogWriter.apply w).Frozen reading closed ∧
      ((Op.tick now :: middle).foldl RawLogWriter.apply w).held = [] ∧
      ∀ hour ∈ w.tickerClosed (.tick now :: middle), hour ≤ closed := by
  obtain ⟨hnone, -, -⟩ | ⟨hour, utc, hsome, hcur, hutc', hnone, hclosed, hfrozen⟩ :=
    tick_cases w now
  · exact absurd hnone hcloses
  obtain rfl : utc = reading := Option.some.inj (hutc'.symm.trans hutc)
  obtain ⟨log, hlog, -⟩ := exists_current_of_currentHour hcur
  have hheld : w.held = [] := hw.emptied (by simp [hlog])
  have hsomeUtc : w.utc ≠ none := by simp [hutc]
  have htick : (w.apply (.tick now)).Frozen utc hour :=
    { utc := utc_apply hw _ (.inl hsomeUtc)
      frozenUtc := by rw [RawLogWriter.apply, hfrozen, h.frozenUtc, Option.none_or]
      closedHour := hclosed
      later := fun other hother => absurd (hother.symm.trans hnone) (Option.some_ne_none _) }
  have horderly := (hw.apply (.tick now)).1
  have hheld' := held_apply hw hsomeUtc hheld (.tick now)
  obtain ⟨closed, hrun, hle, hcloses'⟩ := htick.foldl horderly middle hreading
  refine ⟨closed, hrun, held_foldl horderly htick.utc hheld' middle, ?_⟩
  simp only [tickerClosed, hsome, Option.toList_some, List.singleton_append, List.forall_mem_cons]
  exact ⟨hle, hcloses'⟩

/-- From the first tick of a writer that closes an hour on, while every reading is the one then
in force : an hour that is opened is later than every hour the ticker has closed. The first
other reading names the hour the frames are filed under, until the next reading or the next
hour that the ticker closes. -/
theorem closed_hour_stays_closed (w : RawLogWriter) (l : Life) (before middle ops : List Op)
    (now reading : ℚ) (hops : ops = before ++ .tick now :: middle)
    (hbefore : (w.restarted l).tickerClosed before = [])
    (hcloses : (before.foldl apply (w.restarted l)).tickCloses (.tick now) ≠ none)
    (hutc : (before.foldl apply (w.restarted l)).utc = some reading)
    (hreading : ∀ op ∈ middle, ∀ utc, op.reading = some utc → utc = reading) :
    (∀ op opened, (∀ utc, op.reading = some utc → utc = reading) →
      (ops.foldl apply (w.restarted l)).opens op = some opened →
      ∀ closed ∈ (w.restarted l).tickerClosed ops, closed < opened) ∧
    ∀ op utc later, op.reading = some utc → utc ≠ reading → (∀ r ∈ later, r.reading = none) →
      ((ops.foldl apply (w.restarted l)).apply op).tickerClosed later = [] →
      ((ops ++ op :: later).foldl apply (w.restarted l)).filed =
        (ops.foldl apply (w.restarted l)).filed ++
          ((op :: later).flatMap (Op.logged l.messages)).map (hourOf utc, ·) := by
  have hnew : (w.restarted l).Orderly fun _ => True := orderly_restarted w l (by simp)
  have hmoving : (before.foldl apply (w.restarted l)).Moving :=
    Moving.foldl ⟨rfl, rfl⟩ before hbefore
  obtain ⟨closed, hfrozen, hheld, hle⟩ :=
    hmoving.frozen (hnew.foldl before).1 now middle hcloses hutc hreading
  rw [← List.foldl_append, ← hops] at hfrozen hheld
  obtain ⟨horderly, hfilter⟩ := hnew.foldl ops
  refine ⟨fun op opened hop hopens => ?_, fun op utc later hop hne hlater hnone => ?_⟩
  · -- the ticks of `before` close nothing
    rw [hops, tickerClosed_append, hbefore, List.nil_append]
    intro hour hhour
    obtain ⟨closed', hfrozen', hclosed', -⟩ := hfrozen.apply horderly op hop
    exact ((hle hour hhour).trans hclosed').trans_lt
      (hfrozen'.later opened (currentHour_of_opens hopens))
  · have hthaw := hfrozen.names hheld hne
    have hfirst : ((ops.foldl apply (w.restarted l)).apply op).Names utc ∧
        ((ops.foldl apply (w.restarted l)).apply op).filed =
          (ops.foldl apply (w.restarted l)).filed ++
            (op.logged l.messages).map (hourOf utc, ·) := by
      rcases op with ⟨now', host, frame⟩ | ⟨now', utc'⟩ | now' | firmware | site | _
      · have hhandle := Names.handle hthaw horderly now' host frame (.inl hop)
        rwa [hfilter] at hhandle
      · obtain rfl : utc' = utc := Option.some.inj hop
        exact ⟨hthaw now', (List.append_nil _).symm⟩
      all_goals exact absurd hop.symm (Option.some_ne_none _)
    obtain ⟨hnames, hfiled⟩ := hfirst
    have hrest := hnames.foldl (horderly.apply op).1 later hlater hnone
    rw [filter_apply, hfilter] at hrest
    rw [List.foldl_append, List.foldl_cons, hrest, hfiled]
    simp [RawLogWriter.restarted]

/-- A writer that logs one message. -/
def eoeWriter : RawLogWriter := (empty "BASE").restarted { messages := ["NAV-EOE"], ops := [] }

/-- Half a minute before five, and one frame of the hour. -/
def halfPast : List Op := [.noteUtc 0 1767243570, .handle 0 0 LogDaemon.eoeFrame]

/-- The ticker closes the hour, and the same time comes again. -/
def quietHour : List Op := halfPast ++ .tick 31 :: [.noteUtc 32 1767243570]

/-- The next frame opens the hour after; after a correction it is filed in the hour before. -/
theorem closed_hour_stays_closed_quiet :
    (∀ closed ∈ eoeWriter.tickerClosed quietHour, closed < 490901) ∧
      ((quietHour ++ [Op.noteUtc 33 1767240000, Op.handle 33 0 LogDaemon.eoeFrame]).foldl apply
        eoeWriter).filed = [(490900, LogDaemon.eoeFrame), (490900, LogDaemon.eoeFrame)] := by
  obtain ⟨hlater, hfiled⟩ := closed_hour_stays_closed (empty "BASE")
    { messages := ["NAV-EOE"], ops := [] } halfPast [.noteUtc 32 1767243570] quietHour 31
    1767243570 rfl (by decide +kernel) (by decide +kernel) (by decide +kernel)
    (by simp [Op.reading])
  refine ⟨hlater (.handle 33 0 LogDaemon.eoeFrame) 490901 (by simp [Op.reading,
    LogDaemon.eoeFrame]) (by decide +kernel), ?_⟩
  have hcorrected := hfiled (.noteUtc 33 1767240000) 1767240000
    [.handle 33 0 LogDaemon.eoeFrame] rfl (by decide +kernel)
    (by simp [Op.reading, LogDaemon.eoeFrame]) (by decide +kernel)
  refine hcorrected.trans ?_
  decide +kernel

end RawLogWriter

end Mtrtk
