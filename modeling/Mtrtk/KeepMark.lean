import Mtrtk.LogHours
import Mtrtk.Run

/-!
# Keep marks

`web/api/logs.py` : `PATCH /api/logs/{name}` sets the `keep` of an hour. `set_keep` resolves
the name, on the loop marks the hour in the writer if it is the one being written, and in a
thread loads the sidecar on disk and dumps it with the mark (`_write_keep`). The writer goes
on between these steps. The row of the database is a mirror and is left out.

`LogDaemon.step` has the request, the writer and its replacements in any order.
`keep_marks_kept` : in every run whose dump of the request is in time (`LogDaemon.inTime`),
the hour has its final sidecar with the mark asked for once the writer has closed it. A dump
that is late writes back what it loaded before (`keep_mark_late`).
-/

namespace Mtrtk

/-! ## The request -/

/-- `LogFile`. -/
structure LogFile where
  stationId : String
  hourUtc : ℤ
  bytes : ℕ
  complete : Bool
  keep : Bool
  msgCounts : Multiset String := 0
  startUtc : Option ℚ := none
  endUtc : Option ℚ := none
  site : Option String := none
  deriving DecidableEq

/-- `_load_logfile`. -/
def Root.loadLogfile (root : Root) (stationId : String) (hour : ℤ) : Option LogFile :=
  (root.file hour).map fun content =>
    match root.sidecar hour with
    | none =>
      { stationId, hourUtc := hour, bytes := content.length, complete := false, keep := false }
    | some sc =>
      { stationId, hourUtc := hour, bytes := content.length, complete := sc.complete
        keep := sc.keep, msgCounts := sc.msgCounts, startUtc := sc.startUtc, endUtc := sc.endUtc
        site := sc.site }

/-- The sidecar `_write_keep` makes from the listing, where none can be loaded. -/
def LogFile.rebuild (lf : LogFile) (role : String) : Sidecar :=
  { stationId := lf.stationId, role, startUtc := lf.startUtc, endUtc := lf.endUtc
    hourUtc := some lf.hourUtc, bytes := lf.bytes, msgCounts := lf.msgCounts, keep := lf.keep
    complete := lf.complete, recovered := true
    endUtcSource := if lf.endUtc.isSome then none else some "unknown" }

/-- The load of `_write_keep`. -/
def Root.loadSidecar (root : Root) (lf : LogFile) (role : String) : Sidecar :=
  (root.sidecar lf.hourUtc).getD (lf.rebuild role)

/-- How far the request has come. -/
inductive KeepRequest
  | sent
  | resolved (lf : LogFile)
  | submitted (lf : LogFile)
  | loaded (sidecar : Sidecar)
  | returned
  deriving DecidableEq

/-- The daemon, as far as the request and the logger go. `attached` says whether
`daemon.rawlog` is the writer : it is let go of before the writer has drained its queue. -/
structure LogDaemon where
  writer : RawLogWriter
  attached : Bool := true
  request : KeepRequest := .sent

/-- What can come next. `resolve`, `mark`, `load` and `dump` are the request. -/
inductive LogEvent
  | writer (op : RawLogWriter.Op)
  | stop
  | replace (firmware : String) (site : Option String) (now : ℚ)
  | resolve
  | mark
  | load
  | dump
  deriving DecidableEq, Repr

/-- A new writer on the directory of one that has ended. -/
def RawLogWriter.replacement (w : RawLogWriter) (firmware : String) (site : Option String)
    (now : ℚ) : RawLogWriter :=
  { stationId := w.stationId, filter := w.filter, role := w.role, firmware, site
    root := w.root, lastSidecar := now, filed := w.filed, ended := w.ended }

namespace LogDaemon

/-- A new directory. -/
def init (stationId role : String) (messages : List String) : LogDaemon :=
  { writer := { stationId, role, filter := messages } }

/-- `writer.current_path == lf.path`. -/
def isCurrent (s : LogDaemon) (hour : ℤ) : Bool := s.attached && s.writer.currentHour = some hour

/-- The state after the event; `hour` and `keep` are what the request names and asks for. -/
def step (hour : ℤ) (keep : Bool) (s : LogDaemon) : LogEvent → Option LogDaemon
  | .writer op => some { s with writer := s.writer.apply op }
  | .stop => some { s with attached := false }
  | .replace firmware site now =>
    if s.writer.current.isNone then
      some { s with writer := s.writer.replacement firmware site now, attached := true }
    else none
  | .resolve =>
    match s.request with
    | .sent =>
      (s.writer.root.loadLogfile s.writer.stationId hour).map fun lf =>
        { s with request := .resolved lf }
    | _ => none
  | .mark =>
    match s.request with
    | .resolved lf =>
      some { s with
        writer := if s.isCurrent lf.hourUtc then s.writer.setKeep keep else s.writer
        request := .submitted lf }
    | _ => none
  | .load =>
    match s.request with
    | .submitted lf =>
      some { s with request := .loaded (s.writer.root.loadSidecar lf s.writer.role) }
    | _ => none
  | .dump =>
    match s.request with
    | .loaded sidecar =>
      some { s with
        writer := { s.writer with root := s.writer.root.dump hour { sidecar with keep } }
        request := .returned }
    | _ => none

/-- At the request's dump the writer has the hour open with the mark in its own sidecar, or
it does not have it open and the sidecar on disk is still the one that was loaded. -/
def inTime (hour : ℤ) (keep : Bool) (s : LogDaemon) (e : LogEvent) : Bool :=
  match e, s.request with
  | .dump, .loaded sidecar =>
    match s.writer.openLog hour with
    | some log => log.sidecar.keep = keep
    | none => s.writer.root.sidecar hour = some sidecar
  | _, _ => true

end LogDaemon

/-! ## Runs -/

namespace RawLogWriter

variable {w : RawLogWriter} {hour : ℤ} {mark : Option Bool}

/-- The sidecar on disk is that of the finished file, with this mark. -/
def Finished (w : RawLogWriter) (hour : ℤ) (keep : Bool) : Prop :=
  ∃ sidecar, w.root.sidecar hour = some sidecar ∧ sidecar.complete = true ∧
    sidecar.bytes = (w.root.content hour).length ∧
    sidecar.sha256 = some (Sha256.sha256Hex (w.root.content hour)) ∧
    w.root.content hour = rawOf (w.framesOf hour) ∧
    sidecar.msgCounts = countsOf (w.framesOf hour) ∧
    sidecar.endUtc = w.ended hour ∧ sidecar.keep = keep

theorem Settled.forget (h : w.Settled hour mark) : w.Settled hour none :=
  ⟨⟨h.sound.content, h.sound.unseen, h.sound.opened, h.sound.closed,
    fun _ hm => absurd hm.symm (Option.some_ne_none _)⟩, h.filled, h.holding⟩

theorem Settled.finished {keep : Bool} (h : w.Settled hour (some keep))
    (hclosed : w.currentHour ≠ some hour) : w.Finished hour keep := by
  have hlog : w.openLog hour = none := by
    rcases hcur : w.current with _ | log
    · exact openLog_of_none hcur
    · have hne : log.hour ≠ hour := fun hh => hclosed (by simp [currentHour, hcur, hh])
      exact openLog_of_ne hcur hne
  have hmarked := h.sound.marked keep rfl
  rw [view_of_closed hlog] at hmarked
  obtain ⟨sidecar, hsidecar, hkeep⟩ := Option.map_eq_some_iff.1 hmarked
  have hfinal := h.sound.closed hlog sidecar hsidecar
  have hcontent := h.sound.content
  exact ⟨sidecar, hsidecar, hfinal.complete, by rw [hcontent, hfinal.bytes],
    by rw [hcontent, hfinal.sha256], hcontent, hfinal.msgCounts, hfinal.endUtc, hkeep⟩

/-- The request's dump while the writer has the hour open, marked as the request asks. -/
theorem Settled.dump_open {log : OpenLog} (h : w.Settled hour none)
    (hlog : w.openLog hour = some log) (sidecar : Sidecar) :
    { w with root := w.root.dump hour sidecar }.Settled hour (some log.sidecar.keep) where
  sound := .of_open hlog h.sound.content (h.sound.opened log hlog) fun _ hm => Option.some.inj hm
  filled _ := h.filled (by simp [view_of_open hlog])
  holding := ⟨h.holding.pending, h.holding.pendingCounts⟩

/-- The request's dump of the sidecar of a closed hour. -/
theorem Settled.dump_closed {sidecar : Sidecar} (h : w.Settled hour none)
    (hlog : w.openLog hour = none) (hsidecar : w.root.sidecar hour = some sidecar) (keep : Bool) :
    { w with root := w.root.dump hour { sidecar with keep } }.Settled hour (some keep) where
  sound := by
    have hfinal := h.sound.closed hlog sidecar hsidecar
    exact .of_closed hlog (Function.update_self ..) rfl h.sound.content
      ⟨⟨hfinal.bytes, hfinal.msgCounts⟩, hfinal.complete, hfinal.sha256, hfinal.endUtc⟩
      fun _ hm => Option.some.inj hm
  filled _ := h.filled (by simp [view_of_closed hlog, hsidecar])
  holding := ⟨h.holding.pending, h.holding.pendingCounts⟩

theorem Settled.replacement (h : w.Settled hour mark) (hcur : w.current = none)
    (firmware : String) (site : Option String) (now : ℚ) :
    (w.replacement firmware site now).Settled hour mark :=
  h.of_same ⟨by rw [openLog_of_none hcur, openLog_of_none rfl], rfl, rfl, rfl, rfl⟩ ⟨rfl, rfl⟩

end RawLogWriter

namespace LogDaemon

variable {hour : ℤ} {keep : Bool}

/-- The mark of the hour, which is known once the request has returned. -/
def mark (keep : Bool) (s : LogDaemon) : Option Bool :=
  if s.request = .returned then some keep else none

theorem settled_init (stationId role : String) (messages : List String) :
    (init stationId role messages).writer.Settled hour none where
  sound :=
    { content := rfl
      unseen := fun _ => rfl
      opened := fun _ hlog => absurd hlog (by simp [RawLogWriter.openLog, init])
      closed := fun _ _ hsidecar => absurd hsidecar (by simp [init])
      marked := fun _ hm => absurd hm (by simp) }
  filled hview := absurd rfl hview
  holding := ⟨rfl, rfl⟩

/-- What a step of the request does. -/
theorem step_cases {s s' : LogDaemon} {e : LogEvent} (h : s.step hour keep e = some s') :
    (∃ op, s' = { s with writer := s.writer.apply op }) ∨
    s' = { s with attached := false } ∨
    (∃ firmware site now, s.writer.current = none ∧
      s' = { s with writer := s.writer.replacement firmware site now, attached := true }) ∨
    (∃ lf, s' = { s with request := .resolved lf }) ∨
    (∃ lf writer, (writer = s.writer ∨ writer = s.writer.setKeep keep) ∧
      s' = { s with writer, request := .submitted lf }) ∨
    (∃ sidecar, s' = { s with request := .loaded sidecar }) ∨
    ∃ sidecar, e = .dump ∧ s.request = .loaded sidecar ∧
      s' = { s with
        writer := { s.writer with root := s.writer.root.dump hour { sidecar with keep } }
        request := .returned } := by
  rcases e with op | _ | ⟨firmware, site, now⟩ | _ | _ | _ | _
  · exact .inl ⟨op, (Option.some.inj h).symm⟩
  · exact .inr (.inl (Option.some.inj h).symm)
  · obtain ⟨hcur, h⟩ := Option.ite_none_right_eq_some.1 h
    exact .inr (.inr (.inl ⟨firmware, site, now, Option.isNone_iff_eq_none.1 hcur,
      (Option.some.inj h).symm⟩))
  · simp only [step] at h
    split at h
    · obtain ⟨lf, -, rfl⟩ := Option.map_eq_some_iff.1 h
      exact .inr (.inr (.inr (.inl ⟨lf, rfl⟩)))
    · simp at h
  · simp only [step] at h
    split at h
    · next lf _ =>
      refine .inr (.inr (.inr (.inr (.inl ⟨lf, _, ?_, (Option.some.inj h).symm⟩))))
      split
      · exact .inr rfl
      · exact .inl rfl
    · simp at h
  · simp only [step] at h
    split at h
    · exact .inr (.inr (.inr (.inr (.inr (.inl ⟨_, (Option.some.inj h).symm⟩)))))
    · simp at h
  · simp only [step] at h
    split at h
    · next sidecar hreq =>
      exact .inr (.inr (.inr (.inr (.inr (.inr ⟨sidecar, rfl, hreq, (Option.some.inj h).symm⟩)))))
    · simp at h

/-- A step whose dump is in time keeps what holds of the hour, and the request's own dump
leaves it marked as asked for. -/
theorem settled_step {s s' : LogDaemon} {e : LogEvent} (h : s.writer.Settled hour (s.mark keep))
    (htime : s.inTime hour keep e = true) (hstep : s.step hour keep e = some s') :
    s'.writer.Settled hour (s'.mark keep) := by
  have hnone := h.forget
  obtain ⟨op, rfl⟩ | rfl | ⟨firmware, site, now, hcur, rfl⟩ | ⟨lf, rfl⟩ | ⟨lf, w, hw, rfl⟩ |
    ⟨sidecar, rfl⟩ | ⟨sidecar, rfl, hreq, rfl⟩ := step_cases hstep
  · exact h.apply op
  · exact h
  · exact h.replacement hcur firmware site now
  · exact hnone
  · obtain rfl | rfl := hw
    · exact hnone
    · exact hnone.setKeep keep
  · exact hnone
  · simp only [inTime, hreq] at htime
    split at htime
    · next log hlog =>
      obtain rfl : log.sidecar.keep = keep := by simpa using htime
      exact hnone.dump_open hlog _
    · next hlog => exact hnone.dump_closed hlog (by simpa using htime) keep

theorem settled_of_reachable {s₀ s : LogDaemon} (h₀ : s₀.writer.Settled hour (s₀.mark keep))
    (h : Reachable (guarded (step hour keep) (inTime hour keep)) s₀ s) :
    s.writer.Settled hour (s.mark keep) := by
  refine h.invariant (fun s => s.writer.Settled hour (s.mark keep)) h₀ fun t e t' _ ht hstep => ?_
  obtain ⟨htime, hstep⟩ := guarded_eq_some.1 hstep
  exact settled_step ht htime hstep

/-- In every run whose dump of the request is in time : once the request has returned and the
writer has closed the hour, the sidecar on disk is the finished file's, marked as asked for. -/
theorem keep_marks_kept (hour : ℤ) (keep : Bool) (stationId role : String)
    (messages : List String) (s : LogDaemon)
    (h : Reachable (guarded (step hour keep) (inTime hour keep)) (init stationId role messages) s)
    (hreturned : s.request = .returned) (hclosed : s.writer.currentHour ≠ some hour) :
    s.writer.Finished hour keep := by
  have hsettled := settled_of_reachable (settled_init stationId role messages) h
  rw [mark, if_pos hreturned] at hsettled
  exact hsettled.finished hclosed

/-- A NAV-EOE. -/
def eoeFrame : LogFrame where
  proto := .ubx
  identity := "NAV-EOE"
  raw := [0xB5, 0x62, 0x01, 0x61, 0x04, 0x00, 0x00, 0x00, 0x00, 0x00, 0x66, 0xC7]
  raw_ne := by simp

/-- Five o'clock, the first frame of the hour, and the request up to its load. -/
def markedRun : List LogEvent :=
  [.writer (.noteUtc 0 1767243600), .writer (.handle 0 0 eoeFrame), .resolve, .mark, .load]

/-- One more frame, and the hour is closed by the first of the next one. -/
def nextHour : List LogEvent :=
  [.writer (.handle 1 0 eoeFrame), .writer (.noteUtc 3600 1767247200),
    .writer (.handle 3600 0 eoeFrame)]

/-- The request dumps before the hour is closed. -/
theorem keep_marks_kept_prompt :
    ∃ s, Reachable (guarded (step 490901 true) (inTime 490901 true))
        (init "BASE" "base" ["NAV-EOE"]) s ∧
      s.writer.root.content 490901 = eoeFrame.raw ++ eoeFrame.raw ∧
      s.writer.Finished 490901 true := by
  have hrun : ((run (guarded (step 490901 true) (inTime 490901 true))
      (init "BASE" "base" ["NAV-EOE"]) (markedRun ++ .dump :: nextHour)).map fun s =>
        (s.request, s.writer.currentHour, s.writer.root.content 490901)) =
      some (.returned, some 490902, eoeFrame.raw ++ eoeFrame.raw) := by decide +kernel
  obtain ⟨s, hs, hout⟩ := Option.map_eq_some_iff.1 hrun
  simp only [Prod.mk.injEq] at hout
  obtain ⟨hreturned, hhour, hcontent⟩ := hout
  exact ⟨s, ⟨_, hs⟩, hcontent,
    keep_marks_kept 490901 true _ _ _ s ⟨_, hs⟩ hreturned (by simp [hhour])⟩

/-- It dumps after, and writes back the sidecar of an hour with one frame that is not
complete. -/
theorem keep_mark_late :
    ∃ s, Reachable (step 490901 true) (init "BASE" "base" ["NAV-EOE"]) s ∧
      s.request = .returned ∧ s.writer.currentHour ≠ some 490901 ∧
      ¬s.writer.Finished 490901 true := by
  have hrun : ((run (step 490901 true) (init "BASE" "base" ["NAV-EOE"])
      (markedRun ++ nextHour ++ [.dump])).map fun s => (s.request, s.writer.currentHour,
        (s.writer.root.sidecar 490901).map Sidecar.complete)) =
      some (.returned, some 490902, some false) := by decide +kernel
  obtain ⟨s, hs, hout⟩ := Option.map_eq_some_iff.1 hrun
  simp only [Prod.mk.injEq] at hout
  obtain ⟨hreturned, hhour, hcomplete⟩ := hout
  refine ⟨s, ⟨_, hs⟩, hreturned, by simp [hhour], ?_⟩
  rintro ⟨sidecar, hsidecar, htrue, -⟩
  simp [hsidecar, htrue] at hcomplete

end LogDaemon

end Mtrtk
