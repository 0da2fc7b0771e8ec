import Mathlib.Logic.Relation
import Mtrtk.LogOrder

/-!
# The calls of the raw logger, in parts

`RawLogWriter` of `rawlog/writer.py`, as far as the file and the sidecar of one hour go. `Step` is
a part of a call, and a call is a sequence of these that may end in the opening of an hour
(`calls_apply`). `Traced` is what holds of an hour between the parts, whatever was lost of it in
earlier processes : the sidecars of the open hour tell of its file, a closed hour's is the final
one. Every part keeps it (`Traced.step`), and so does a call (`Traced.calls`).

An hour is `torn` if a process is gone after it has opened the file and before it has dumped the
sidecar. Nothing is said of its sidecar until it is opened again.
-/

namespace Mtrtk

namespace Root

@[simp] theorem content_dump (root : Root) (hour other : ℤ) (sidecar : Sidecar) :
    (root.dump hour sidecar).content other = root.content other := rfl

theorem sidecar_dump_of_ne {root : Root} {hour other : ℤ} {sidecar : Sidecar} (hne : hour ≠ other) :
    (root.dump hour sidecar).sidecar other = root.sidecar other :=
  Function.update_of_ne hne.symm ..

theorem content_append (root : Root) (hour other : ℤ) (raw : List UInt8) :
    (root.append hour raw).content other =
      root.content other ++ if other = hour then raw else [] := by
  by_cases h : other = hour
  · simp [append, content, h]
  · simp [append, content, h]

end Root

/-! ## What a call does to an hour -/

namespace RawLogWriter

/-- A part of a call that opens no hour. -/
inductive Step (w w' : RawLogWriter) : Prop
  | aside (hcurrent : w'.current = w.current) (hroot : w'.root = w.root)
  | touched (f : Sidecar → Sidecar)
      (hf : ∀ sc, (f sc).bytes = sc.bytes ∧ (f sc).keep = sc.keep ∧ (f sc).complete = sc.complete)
      (hcurrent : w'.current = w.current.map fun log => { log with sidecar := f log.sidecar })
      (hroot : w'.root = w.root)
  | wrote (log : OpenLog) (raw : List UInt8) (counts : Multiset String)
      (hlog : w.current = some log) (hcurrent : w'.current = some (log.writeBulk raw counts))
      (hroot : w'.root = w.root.append log.hour raw)
  | dumped (log : OpenLog) (hlog : w.current = some log) (hcurrent : w'.current = w.current)
      (hroot : w'.root = w.root.dump log.hour log.sidecar)
  | closed (log : OpenLog) (endUtc : Option ℚ) (hlog : w.current = some log)
      (hcurrent : w'.current = none) (hroot : w'.root = w.root.dump log.hour (log.finished endUtc))

/-- An hour is opened with its first frames. -/
structure Opens (w w' : RawLogWriter) (hour : ℤ) (fresh : Sidecar) (raw more : List UInt8)
    (counts moreCounts : Multiset String) : Prop where
  blank : fresh.bytes = 0 ∧ fresh.keep = false ∧ fresh.complete = false
  filled : raw ++ more ≠ []
  closed : w.current = none
  current : w'.current =
    some (((OpenLog.new w.root hour fresh).writeBulk raw counts).writeBulk more moreCounts)
  root : w'.root = ((w.root.append hour raw).dump hour
    ((OpenLog.new w.root hour fresh).writeBulk raw counts).sidecar).append hour more

def Steps : RawLogWriter → RawLogWriter → Prop := Relation.ReflTransGen Step

/-- A call, in parts : if it opens an hour, it does so last. -/
def Calls (w w' : RawLogWriter) : Prop :=
  Steps w w' ∨ ∃ w₁ hour fresh raw more counts moreCounts,
    Steps w w₁ ∧ Opens w₁ w' hour fresh raw more counts moreCounts

variable {w w' : RawLogWriter} {hour : ℤ}

theorem Step.steps (h : Step w w') : Steps w w' := .single h

theorem Steps.trans {w'' : RawLogWriter} (h : Steps w w') (h' : Steps w' w'') : Steps w w'' :=
  Relation.ReflTransGen.trans h h'

theorem Steps.calls {w'' : RawLogWriter} (h : Steps w w') (h' : Calls w' w'') : Calls w w'' := by
  obtain hsteps | ⟨w₁, hour, fresh, raw, more, counts, moreCounts, hsteps, hopens⟩ := h'
  · exact .inl (h.trans hsteps)
  · exact .inr ⟨w₁, hour, fresh, raw, more, counts, moreCounts, h.trans hsteps, hopens⟩

theorem steps_closeCurrent (w : RawLogWriter) : Steps w w.closeCurrent := by
  rw [closeCurrent]
  split
  · exact .refl
  · next log hlog => exact Step.steps (.closed log w.utc hlog rfl rfl)

theorem steps_dumpSidecar (w : RawLogWriter) : Steps w w.dumpSidecar := by
  rw [dumpSidecar]
  split
  · exact .refl
  · next log hlog => exact Step.steps (.dumped log hlog rfl rfl)

/-- A log with nothing pending is the same with it. -/
theorem writeBulk_nil (log : OpenLog) : log.writeBulk [] 0 = log := by
  simp [OpenLog.writeBulk]

/-- What is pending is in the hour that is open. -/
theorem writePending_cases {log : OpenLog} (hlog : w.current = some log) :
    ∃ counts, w.writePending.current = some (log.writeBulk w.pending counts) ∧
      (w.pending = [] ∧ w.writePending.root = w.root ∨
        w.writePending.root = w.root.append log.hour w.pending) := by
  by_cases hne : w.pending = []
  · have hsame : w.writePending = w := writePending_of_nil hne
    exact ⟨0, by rw [hsame, hne, writeBulk_nil, hlog], .inl ⟨hne, by rw [hsame]⟩⟩
  · have heq : w.writePending = { w with
        current := some (log.writeBulk w.pending w.pendingCounts)
        root := w.root.append log.hour w.pending
        pending := []
        pendingCounts := 0
        filed := w.filed ++ w.held.map (log.hour, ·)
        held := [] } := by
      rw [writePending, hlog]
      exact if_neg hne
    exact ⟨w.pendingCounts, by rw [heq], .inr (by rw [heq])⟩

theorem dumpSidecar_of_open {log : OpenLog} (hlog : w.current = some log) :
    w.dumpSidecar.current = some log ∧
      w.dumpSidecar.root = w.root.dump log.hour log.sidecar := by
  simp [dumpSidecar, hlog]

/-- The hour that `_rotate` opens, with what was pending. -/
theorem rotate_cases (w : RawLogWriter) (hour : ℤ) :
    ∃ sidecar log counts, (sidecar.bytes = 0 ∧ sidecar.keep = false ∧ sidecar.complete = false) ∧
      log = (OpenLog.new w.closeCurrent.root hour sidecar).writeBulk w.pending counts ∧
      (w.rotate hour).current = some log ∧
      (w.rotate hour).root =
        (w.closeCurrent.root.append hour w.pending).dump hour log.sidecar := by
  have hpending : (w.closeCurrent.openHour hour).pending = w.pending := pending_closeCurrent w
  obtain ⟨sidecar, hfresh, hcurrent⟩ : ∃ sidecar : Sidecar,
      (sidecar.bytes = 0 ∧ sidecar.keep = false ∧ sidecar.complete = false) ∧
      (w.closeCurrent.openHour hour).current = some (.new w.closeCurrent.root hour sidecar) :=
    ⟨_, ⟨rfl, rfl, rfl⟩, rfl⟩
  have hhour : (OpenLog.new w.closeCurrent.root hour sidecar).hour = hour := OpenLog.hour_new ..
  obtain ⟨counts, hwritten, hroot⟩ := writePending_cases hcurrent
  obtain ⟨hdumped, hdisk⟩ := dumpSidecar_of_open hwritten
  rw [hpending] at hwritten hdumped hdisk hroot
  refine ⟨sidecar, _, counts, hfresh, rfl, hdumped, ?_⟩
  have hopened : (w.closeCurrent.openHour hour).writePending.root =
      w.closeCurrent.root.append hour w.pending := by
    rcases hroot with ⟨hnil, hroot⟩ | hroot
    · rw [hroot, hnil]
      rfl
    · rw [hroot, hhour]
      simp [openHour, Root.append, Root.content]
  have hsame : ((OpenLog.new w.closeCurrent.root hour sidecar).writeBulk w.pending counts).hour =
      hour := hhour
  rw [rotate, hdisk, hopened, hsame]

/-- An hour that is opened to write a frame. -/
theorem calls_rotate_write (w : RawLogWriter) (hour : ℤ) (frame : LogFrame) :
    Calls w ((w.rotate hour).write frame) := by
  obtain ⟨fresh, log, counts, hfresh, rfl, hcurrent, hroot⟩ := rotate_cases w hour
  have hhour : (OpenLog.new w.closeCurrent.root hour fresh).hour = hour := OpenLog.hour_new ..
  refine .inr ⟨w.closeCurrent, hour, fresh, w.pending, frame.raw, counts, {frame.identity},
    steps_closeCurrent w, hfresh, by simp [frame.raw_ne], current_closeCurrent w, ?_, ?_⟩
  · simp only [write, hcurrent]
    rfl
  · simp only [write, hcurrent, hroot]
    simp [OpenLog.writeBulk, hhour]

/-- An hour that is opened for what is pending. -/
theorem calls_rotate (w : RawLogWriter) (hour : ℤ) (hne : w.pending ≠ []) :
    Calls w (w.rotate hour) := by
  obtain ⟨fresh, log, counts, hfresh, rfl, hcurrent, hroot⟩ := rotate_cases w hour
  refine .inr ⟨w.closeCurrent, hour, fresh, w.pending, [], counts, 0, steps_closeCurrent w, hfresh,
    by simpa using hne, current_closeCurrent w, ?_, ?_⟩
  · rw [hcurrent, writeBulk_nil]
  · rw [hroot]
    simp [Root.append, Root.dump, Root.content]

theorem steps_write (w : RawLogWriter) (frame : LogFrame) : Steps w (w.write frame) := by
  rcases hlog : w.current with _ | log
  · simp only [write, hlog]
    exact .refl
  · refine Step.steps (.wrote log frame.raw {frame.identity} hlog ?_ ?_)
    · simp only [write, hlog]
      rfl
    · simp only [write, hlog]

theorem calls_fileFrame (w : RawLogWriter) (now host : ℚ) (frame : LogFrame) :
    Calls w (w.fileFrame now host frame) := by
  rw [fileFrame]
  split
  · rw [bufferPending]
    split
    · have hnamed : Steps w { w.hold frame with
          utc := some host, utcMono := some now, timeSource := "host" } :=
        Step.steps (.aside rfl rfl)
      exact hnamed.calls (calls_rotate _ _ (by simp [hold, frame.raw_ne]))
    · exact .inl (Step.steps (.aside rfl rfl))
  · next utc _ =>
    rw [rotateTo]
    split
    · exact .inl (steps_write w frame)
    · exact calls_rotate_write w _ frame

theorem calls_handle (w : RawLogWriter) (now host : ℚ) (frame : LogFrame) :
    Calls w (w.handle now host frame) := by
  obtain ⟨w₁, hread, hfile⟩ := handle_cases w now host frame
  have hw₁ : Steps w w₁ := by
    obtain ⟨-, rfl⟩ | ⟨utc, -, rfl⟩ := hread
    · exact .refl
    · exact Step.steps (.aside rfl rfl)
  obtain ⟨-, heq⟩ | ⟨-, heq⟩ := hfile
  · exact heq ▸ .inl hw₁
  · exact heq ▸ hw₁.calls (calls_fileFrame w₁ now host frame)

theorem steps_tick (w : RawLogWriter) (now : ℚ) : Steps w (w.tick now) := by
  have hclose : Steps w (w.closeElapsedHour now) := by
    obtain heq | ⟨log, utc, elapsed, -, -, -, heq⟩ := closeElapsedHour_cases w now
    · rw [heq]
      exact .refl
    · rw [heq]
      exact (steps_closeCurrent w).trans (Step.steps (.aside rfl rfl))
  obtain heq | heq := tick_eq w now
  · exact heq ▸ hclose
  · rw [heq]
    obtain hsame | hdump := refreshSidecar_cases (w.closeElapsedHour now) now
    · exact hsame.symm ▸ hclose
    · rw [hdump]
      exact hclose.trans ((steps_dumpSidecar _).trans (Step.steps (.aside rfl rfl)))

/-- Every call is made of these parts. -/
theorem calls_apply (w : RawLogWriter) (op : Op) : Calls w (w.apply op) := by
  rcases op with ⟨now, host, frame⟩ | ⟨now, utc⟩ | now | firmware | site | _
  · exact calls_handle w now host frame
  · exact .inl (Step.steps (.aside rfl rfl))
  · exact .inl (steps_tick w now)
  · exact .inl (Step.steps
      (.touched (fun sc => { sc with firmware }) (fun _ => ⟨rfl, rfl, rfl⟩) rfl rfl))
  · exact .inl (Step.steps
      (.touched (fun sc => { sc with site }) (fun _ => ⟨rfl, rfl, rfl⟩) rfl rfl))
  · exact .inl (steps_closeCurrent w)

end RawLogWriter

/-! ## What holds of an hour -/

/-- What a finished sidecar says of its file. -/
structure Sidecar.Seals (sc : Sidecar) (content : List UInt8) : Prop where
  complete : sc.complete = true
  bytes : sc.bytes = content.length
  sha256 : sc.sha256 = some (Sha256.sha256Hex content)

/-- What the sidecars of the open hour say of its file, the writer's and the one on disk. -/
structure OpenLog.Tracks (log : OpenLog) (content : List UInt8) (sidecar : Option Sidecar) :
    Prop where
  hasher : log.hasher = content
  bytes : log.sidecar.bytes = content.length
  complete : log.sidecar.complete = false
  dumped : ∃ sc, sidecar = some sc ∧ sc.complete = false ∧ sc.keep = log.sidecar.keep

namespace OpenLog

variable {log : OpenLog} {content : List UInt8} {sidecar : Option Sidecar}

theorem Tracks.writeBulk (h : log.Tracks content sidecar) (raw : List UInt8)
    (counts : Multiset String) : (log.writeBulk raw counts).Tracks (content ++ raw) sidecar where
  hasher := by simp [OpenLog.writeBulk, h.hasher]
  bytes := by simp [OpenLog.writeBulk, h.bytes]
  complete := h.complete
  dumped := h.dumped

theorem Tracks.keep_eq {sc : Sidecar} (h : log.Tracks content (some sc)) :
    log.sidecar.keep = sc.keep := by
  obtain ⟨sc', hsc', -, hkeep⟩ := h.dumped
  obtain rfl := Option.some.inj hsc'
  exact hkeep.symm

/-- A dump of its own sidecar. -/
theorem Tracks.dump (h : log.Tracks content sidecar) :
    log.Tracks content (some log.sidecar) :=
  ⟨h.hasher, h.bytes, h.complete, log.sidecar, rfl, h.complete, rfl⟩

theorem Tracks.touch (h : log.Tracks content sidecar) {f : Sidecar → Sidecar}
    (hf : ∀ sc, (f sc).bytes = sc.bytes ∧ (f sc).keep = sc.keep ∧ (f sc).complete = sc.complete) :
    { log with sidecar := f log.sidecar }.Tracks content sidecar where
  hasher := h.hasher
  bytes := (hf _).1.trans h.bytes
  complete := (hf _).2.2.trans h.complete
  dumped := by
    obtain ⟨sc, hsc, hcomplete, hkeep⟩ := h.dumped
    exact ⟨sc, hsc, hcomplete, hkeep.trans (hf _).2.1.symm⟩

theorem Tracks.seals (h : log.Tracks content sidecar) (endUtc : Option ℚ) :
    (log.finished endUtc).Seals content where
  complete := rfl
  bytes := h.bytes
  sha256 := congrArg (fun raw => some (Sha256.sha256Hex raw)) h.hasher

/-- A new log of an hour goes on from its file. -/
theorem tracks_new (root : Root) (hour : ℤ) {fresh : Sidecar}
    (hfresh : fresh.bytes = 0 ∧ fresh.keep = false ∧ fresh.complete = false) :
    (new root hour fresh).Tracks (root.content hour) (some (new root hour fresh).sidecar) := by
  rw [new]
  split
  · next hnil =>
    exact ⟨hnil.symm, by simp [hnil, hfresh.1], hfresh.2.2, fresh, rfl, hfresh.2.2, rfl⟩
  · cases root.sidecar hour <;>
      exact ⟨rfl, rfl, hfresh.2.2, _, rfl, hfresh.2.2, rfl⟩

/-- It has the mark of the sidecar, unless the file is empty. -/
theorem keep_new {root : Root} {hour : ℤ} {fresh sc : Sidecar}
    (hfresh : fresh.bytes = 0 ∧ fresh.keep = false ∧ fresh.complete = false)
    (hsc : root.sidecar hour = some sc) (hne : sc.keep = true → root.content hour ≠ []) :
    (new root hour fresh).sidecar.keep = sc.keep := by
  rw [new, hsc]
  split
  · next hnil =>
    have hkeep : sc.keep = false := by
      by_contra hkeep
      exact hne (by simpa using hkeep) hnil
    rw [hkeep]
    exact hfresh.2.1
  · simp [carryOver, hfresh.2.1]

end OpenLog

namespace RawLogWriter

/-- What holds of an hour that is marked `mark`, where that is known, between the parts of a
call. -/
structure Traced (w : RawLogWriter) (hour : ℤ) (mark : Option Bool) (torn : Bool) : Prop where
  filed : w.root.sidecar hour ≠ none → w.root.file hour ≠ none
  opened : ∀ log, w.openLog hour = some log →
    log.Tracks (w.root.content hour) (w.root.sidecar hour)
  closed : w.openLog hour = none → torn = false → ∀ content, w.root.file hour = some content →
    ∃ sc, w.root.sidecar hour = some sc ∧ sc.Seals content
  marked : ∀ keep, mark = some keep → ∃ sc, w.root.sidecar hour = some sc ∧ sc.keep = keep ∧
    (keep = true → w.root.content hour ≠ [])

variable {w w' : RawLogWriter} {hour : ℤ} {mark : Option Bool} {torn : Bool}

/-- The hour is as it was. -/
theorem Traced.of_same (h : w.Traced hour mark torn) (hopen : w'.openLog hour = w.openLog hour)
    (hfile : w'.root.file hour = w.root.file hour)
    (hsidecar : w'.root.sidecar hour = w.root.sidecar hour) : w'.Traced hour mark torn := by
  have hcontent : w'.root.content hour = w.root.content hour := by
    rw [Root.content, hfile, Root.content]
  obtain ⟨hfiled, hopened, hclosed, hmarked⟩ := h
  rw [← hfile, ← hsidecar] at hfiled
  rw [← hopen, ← hcontent, ← hsidecar] at hopened
  rw [← hopen, ← hfile, ← hsidecar] at hclosed
  rw [← hcontent, ← hsidecar] at hmarked
  exact ⟨hfiled, hopened, hclosed, hmarked⟩

/-- It is not said how the hour is marked. -/
theorem Traced.forget (h : w.Traced hour mark torn) : w.Traced hour none torn :=
  ⟨h.filed, h.opened, h.closed, fun _ hkeep => absurd hkeep.symm (Option.some_ne_none _)⟩

/-- The hour is open. -/
theorem Traced.of_open {log : OpenLog} (sc : Sidecar) (content : List UInt8)
    (hlog : w.openLog hour = some log)
    (hfile : w.root.file hour = some content) (hsidecar : w.root.sidecar hour = some sc)
    (htracks : log.Tracks content (some sc))
    (hmarked : ∀ keep, mark = some keep → sc.keep = keep ∧ (keep = true → content ≠ [])) :
    w.Traced hour mark torn := by
  have hcontent : w.root.content hour = content := by
    rw [Root.content, hfile, Option.getD_some]
  refine ⟨by simp [hfile], fun log' hlog' => ?_, fun hnone => ?_, fun keep hkeep => ?_⟩
  · obtain rfl := Option.some.inj (hlog.symm.trans hlog')
    rwa [hcontent, hsidecar]
  · simp [hlog] at hnone
  · rw [hcontent]
    exact ⟨sc, hsidecar, hmarked keep hkeep⟩

/-- The hour is closed, and has a sidecar. -/
theorem Traced.of_closed (sc : Sidecar) (content : List UInt8) (hlog : w.openLog hour = none)
    (hfile : w.root.file hour = some content) (hsidecar : w.root.sidecar hour = some sc)
    (hseals : sc.Seals content)
    (hmarked : ∀ keep, mark = some keep → sc.keep = keep ∧ (keep = true → content ≠ [])) :
    w.Traced hour mark torn := by
  have hcontent : w.root.content hour = content := by
    rw [Root.content, hfile, Option.getD_some]
  refine ⟨by simp [hfile], fun log' hlog' => ?_, fun _ _ content' hcontent' => ?_,
    fun keep hkeep => ?_⟩
  · simp [hlog] at hlog'
  · obtain rfl := Option.some.inj (hfile.symm.trans hcontent')
    exact ⟨sc, hsidecar, hseals⟩
  · rw [hcontent]
    exact ⟨sc, hsidecar, hmarked keep hkeep⟩

/-- The file and the sidecar of an hour that is open. -/
theorem Traced.exists_of_open {log : OpenLog} (h : w.Traced hour mark torn)
    (hlog : w.openLog hour = some log) :
    ∃ content sc, w.root.file hour = some content ∧ w.root.sidecar hour = some sc ∧
      log.Tracks content (some sc) ∧
      ∀ keep, mark = some keep → sc.keep = keep ∧ (keep = true → content ≠ []) := by
  have htracks := h.opened log hlog
  obtain ⟨sc, hsidecar, -, -⟩ := htracks.dumped
  obtain ⟨content, hfile⟩ := Option.ne_none_iff_exists'.1 (h.filed (by simp [hsidecar]))
  have hcontent : w.root.content hour = content := by
    rw [Root.content, hfile, Option.getD_some]
  refine ⟨content, sc, hfile, hsidecar, by rwa [hcontent, hsidecar] at htracks,
    fun keep hkeep => ?_⟩
  obtain ⟨sc', hsc', hmarked⟩ := h.marked keep hkeep
  obtain rfl := Option.some.inj (hsidecar.symm.trans hsc')
  rwa [hcontent] at hmarked

/-- An hour that is open is not torn any more. -/
theorem Traced.untorn {log : OpenLog} (h : w.Traced hour mark torn)
    (hlog : w.openLog hour = some log) : w.Traced hour mark false := by
  obtain ⟨content, sc, hfile, hsidecar, htracks, hmarked⟩ := h.exists_of_open hlog
  exact .of_open sc content hlog hfile hsidecar htracks hmarked

/-- A part of a call keeps what holds of the hour. -/
theorem Traced.step (h : w.Traced hour mark torn) (hstep : Step w w') :
    w'.Traced hour mark torn := by
  cases hstep with
  | aside hcurrent hroot =>
    exact h.of_same (by rw [openLog, hcurrent, openLog]) (by rw [hroot]) (by rw [hroot])
  | touched f hf hcurrent hroot =>
    rcases hlog : w.openLog hour with _ | log
    · refine h.of_same ?_ (by rw [hroot]) (by rw [hroot])
      rw [hlog, openLog, hcurrent]
      rcases hcur : w.current with _ | log
      · rfl
      · have hne : log.hour ≠ hour := fun heq => by simp [openLog_of_hour hcur heq] at hlog
        simp [hne]
    · obtain ⟨content, sc, hfile, hsidecar, htracks, hmarked⟩ := h.exists_of_open hlog
      obtain ⟨hcur, hhour⟩ := Option.filter_eq_some_iff.1 hlog
      refine .of_open sc content (openLog_of_hour ?_ ?_)
        (hroot ▸ hfile) (hroot ▸ hsidecar) (htracks.touch hf) hmarked
      · rw [hcurrent, hcur, Option.map_some]
      · simpa using hhour
  | wrote log raw counts hlog hcurrent hroot =>
    by_cases hhour : log.hour = hour
    · subst hhour
      obtain ⟨content, sc, hfile, hsidecar, htracks, hmarked⟩ :=
        h.exists_of_open (openLog_of_hour hlog rfl)
      refine .of_open sc (content ++ raw) (openLog_of_hour hcurrent rfl) ?_ ?_
        (htracks.writeBulk raw counts) fun keep hkeep => ?_
      · simp [hroot, Root.append, Root.content, hfile]
      · rw [hroot]
        exact hsidecar
      · obtain ⟨hsame, hne⟩ := hmarked keep hkeep
        exact ⟨hsame, fun htrue => List.append_ne_nil_of_left_ne_nil (hne htrue) raw⟩
    · refine h.of_same ?_ ?_ ?_
      · rw [openLog_of_ne hlog hhour, openLog_of_ne hcurrent hhour]
      · simp [hroot, Root.append, Ne.symm hhour]
      · rw [hroot]
        rfl
  | dumped log hlog hcurrent hroot =>
    by_cases hhour : log.hour = hour
    · subst hhour
      obtain ⟨content, sc, hfile, hsidecar, htracks, hmarked⟩ :=
        h.exists_of_open (openLog_of_hour hlog rfl)
      refine .of_open _ content (openLog_of_hour (hcurrent.trans hlog) rfl) (hroot ▸ hfile) ?_
        htracks.dump fun keep hm => ⟨htracks.keep_eq.trans (hmarked keep hm).1, (hmarked keep hm).2⟩
      rw [hroot]
      exact Function.update_self ..
    · refine h.of_same (by rw [openLog, hcurrent, openLog]) (by rw [hroot]; rfl) ?_
      rw [hroot]
      exact Function.update_of_ne (Ne.symm hhour) ..
  | closed log endUtc hlog hcurrent hroot =>
    by_cases hhour : log.hour = hour
    · subst hhour
      obtain ⟨content, sc, hfile, hsidecar, htracks, hmarked⟩ :=
        h.exists_of_open (openLog_of_hour hlog rfl)
      refine .of_closed _ content (openLog_of_none hcurrent) (hroot ▸ hfile) ?_
        (htracks.seals endUtc)
        fun keep hm => ⟨htracks.keep_eq.trans (hmarked keep hm).1, (hmarked keep hm).2⟩
      rw [hroot]
      exact Function.update_self ..
    · refine h.of_same ?_ (by rw [hroot]; rfl) ?_
      · rw [openLog_of_none hcurrent, openLog_of_ne hlog hhour]
      · rw [hroot]
        exact Function.update_of_ne (Ne.symm hhour) ..

/-- So does an hour that is opened. -/
theorem Traced.opens {other : ℤ} {fresh : Sidecar} {raw more : List UInt8}
    {counts moreCounts : Multiset String} (h : w.Traced hour mark torn)
    (hopens : Opens w w' other fresh raw more counts moreCounts) : w'.Traced hour mark torn := by
  obtain ⟨hfresh, hne, hclosed, hcurrent, hroot⟩ := hopens
  have hopened : (OpenLog.new w.root other fresh).hour = other := OpenLog.hour_new ..
  by_cases hhour : other = hour
  · subst hhour
    have htracks := ((OpenLog.tracks_new w.root other hfresh).writeBulk raw
      counts).dump.writeBulk more moreCounts
    refine .of_open _ (w.root.content other ++ raw ++ more) (openLog_of_hour hcurrent hopened)
      ?_ ?_ htracks fun keep hkeep => ?_
    · simp [hroot, Root.append, Root.dump, Root.content]
    · rw [hroot]
      exact Function.update_self ..
    · obtain ⟨sc, hsc, rfl, hfilled⟩ := h.marked keep hkeep
      refine ⟨OpenLog.keep_new hfresh hsc hfilled, fun _ => ?_⟩
      rw [List.append_assoc]
      exact List.append_ne_nil_of_right_ne_nil _ hne
  · refine h.of_same ?_ ?_ ?_
    · rw [openLog_of_none hclosed, openLog_of_ne hcurrent (hopened.trans_ne hhour)]
    · simp [hroot, Root.append, Root.dump, Ne.symm hhour]
    · simp [hroot, Root.append, Root.dump, Ne.symm hhour]

theorem Traced.calls (h : w.Traced hour mark torn) (hcalls : Calls w w') :
    w'.Traced hour mark torn := by
  have hsteps : ∀ {w'}, Steps w w' → w'.Traced hour mark torn := fun hsteps => by
    induction hsteps with
    | refl => exact h
    | tail _ hstep ih => exact ih.step hstep
  obtain hw' | ⟨_, _, _, _, _, _, _, hw₁, hopens⟩ := hcalls
  · exact hsteps hw'
  · exact (hsteps hw₁).opens hopens

/-- No part of a call takes anything of a file. -/
theorem Step.grows (h : Step w w') (hour : ℤ) :
    w.root.content hour <+: w'.root.content hour := by
  cases h with
  | aside _ hroot | touched _ _ _ hroot => rw [hroot]
  | wrote log raw counts hlog hcurrent hroot =>
    rw [hroot, Root.content_append]
    exact List.prefix_append ..
  | dumped log hlog hcurrent hroot | closed log endUtc hlog hcurrent hroot =>
    rw [hroot, Root.content_dump]

theorem Calls.grows (h : Calls w w') (hour : ℤ) :
    w.root.content hour <+: w'.root.content hour := by
  have hsteps : ∀ {w'}, Steps w w' → w.root.content hour <+: w'.root.content hour :=
    fun hsteps => by
      induction hsteps with
      | refl => exact List.prefix_refl _
      | tail _ hstep ih => exact ih.trans (hstep.grows hour)
  obtain hw' | ⟨w₁, other, fresh, raw, more, counts, moreCounts, hw₁, hopens⟩ := h
  · exact hsteps hw'
  · refine (hsteps hw₁).trans ?_
    rw [hopens.root, Root.content_append, Root.content_dump, Root.content_append,
      List.append_assoc]
    exact List.prefix_append ..

/-- No part of a call takes a file away. -/
theorem Step.file (h : Step w w') (hfile : w.root.file hour ≠ none) :
    w'.root.file hour ≠ none := by
  cases h with
  | aside _ hroot | touched _ _ _ hroot => rwa [hroot]
  | dumped log _ _ hroot | closed log _ _ _ hroot =>
    rw [hroot]
    exact hfile
  | wrote log raw counts hlog hcurrent hroot =>
    by_cases hhour : hour = log.hour
    · simp [hroot, Root.append, hhour]
    · simpa [hroot, Root.append, hhour] using hfile

theorem Calls.file (h : Calls w w') (hfile : w.root.file hour ≠ none) :
    w'.root.file hour ≠ none := by
  have hsteps : ∀ {w'}, Steps w w' → w'.root.file hour ≠ none := fun hsteps => by
    induction hsteps with
    | refl => exact hfile
    | tail _ hstep ih => exact hstep.file ih
  obtain hw' | ⟨w₁, other, fresh, raw, more, counts, moreCounts, hw₁, hopens⟩ := h
  · exact hsteps hw'
  · rw [hopens.root]
    by_cases hhour : hour = other
    · simp [Root.append, hhour]
    · simpa [Root.append, Root.dump, hhour] using hsteps hw₁

theorem Step.sidecar (h : Step w w') (hw : w.Traced hour mark torn)
    (hsidecar : w'.root.sidecar hour ≠ none) : w.root.sidecar hour ≠ none := by
  cases h with
  | aside _ hroot | touched _ _ _ hroot | wrote _ _ _ _ _ hroot => rwa [hroot] at hsidecar
  | dumped log hlog _ hroot | closed log _ hlog _ hroot =>
    by_cases hhour : log.hour = hour
    · subst hhour
      obtain ⟨_, sc, -, hsc, -⟩ := hw.exists_of_open (openLog_of_hour hlog rfl)
      simp [hsc]
    · rwa [hroot, Root.sidecar_dump_of_ne hhour] at hsidecar

/-- The only hour that can get a sidecar is the one that is open at the end. -/
theorem Calls.sidecar (h : Calls w w') (hw : w.Traced hour mark torn)
    (hsidecar : w'.root.sidecar hour ≠ none) :
    w.root.sidecar hour ≠ none ∨ w'.currentHour = some hour := by
  have hsteps : ∀ {w'}, Steps w w' → w'.Traced hour mark torn ∧
      (w'.root.sidecar hour ≠ none → w.root.sidecar hour ≠ none) := fun hsteps => by
    induction hsteps with
    | refl => exact ⟨hw, id⟩
    | tail _ hstep ih => exact ⟨ih.1.step hstep, fun h => ih.2 (hstep.sidecar ih.1 h)⟩
  obtain hw' | ⟨w₁, other, fresh, raw, more, counts, moreCounts, hw₁, hopens⟩ := h
  · exact .inl ((hsteps hw').2 hsidecar)
  · by_cases hhour : other = hour
    · refine .inr ?_
      subst hhour
      rw [currentHour, hopens.current]
      exact congrArg some (OpenLog.hour_new ..)
    · refine .inl ((hsteps hw₁).2 ?_)
      simpa [hopens.root, Root.append, Root.dump, Ne.symm hhour] using hsidecar

end RawLogWriter

end Mtrtk
