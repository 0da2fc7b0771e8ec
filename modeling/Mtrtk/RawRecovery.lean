import Mtrtk.KeepMark
import Mtrtk.RawCalls

/-!
# Crashes of the raw logger

`recover_incomplete` of `rawlog/writer.py` : at its start the daemon finalises the sidecars that a
crash has left incomplete. `LogMachine` is the logger with its directory over any number of
processes, and the requests of `web/api/logs.py` that set the `keep` of an hour, each of which
resolves its hour, marks the hour in the writer, loads the sidecar and dumps it in steps of its own.

A process may be gone at any point, and takes with it what it has appended to the file of the open
hour since that was opened, or a part of it. Gone inside of a call of its writer it leaves what it
leaves between two calls, as `_close_current` and `Sidecar.dump` are on disk or not, but for one
place : in `_rotate`, between the opening of the file and the first dump of its sidecar, it leaves a
file whose sidecar is missing or says too little, and recovery does not mend it (`LogMachine.torn`,
`torn_unlisted`). It may be gone in the midst of a recovery too.

Once a daemon is up again all but the open hour and those torn is as its sidecar says (`recovered`),
and marked as it was marked (`marks_survive`), if the requests dump in time (`LogMachine.inTime`;
`keep_mark_late` is one that does not).

Errors of the disk, deleted hours and the temporary files that `Sidecar.dump` leaves are left out.
-/

namespace Mtrtk

/-! ## Recovery -/

namespace Root

/-- One sidecar in `recover_incomplete`. -/
def recoverHour (root : Root) (hour : ℤ) : Root :=
  match root.sidecar hour with
  | none => root
  | some sc =>
    if sc.complete then root
    else
      match root.file hour with
      | none => { root with sidecar := Function.update root.sidecar hour none }
      | some data =>
        root.dump hour { sc with
          bytes := data.length
          sha256 := some (Sha256.sha256Hex data)
          endUtc := none
          endUtcSource := some "unknown"
          complete := true
          recovered := true }

/-- `recover_incomplete`, on a directory with these hours. -/
def recoverIncomplete (root : Root) (hours : List ℤ) : Root := hours.foldl recoverHour root

/-- The file of an hour, cut off. -/
def cut (root : Root) (hour : ℤ) (left : ℕ) : Root :=
  { root with file := Function.update root.file hour ((root.file hour).map (List.take left)) }

theorem content_cut (root : Root) (hour other : ℤ) (left : ℕ) :
    (root.cut hour left).content other =
      if other = hour then (root.content other).take left else root.content other := by
  by_cases h : other = hour
  · subst h
    cases hfile : root.file other <;> simp [cut, content, hfile]
  · simp [cut, content, h]

end Root

/-! ## The machine -/

/-- A `PATCH` of an hour. -/
structure Patch where
  hour : ℤ
  keep : Bool
  request : KeepRequest

/-- The directory, the process on it, and what was asked for. `attached` says whether
`daemon.rawlog` is the writer. `hours` are those with a sidecar, `durable` is how much of the open
hour's file was there when it was opened. `torn` are the hours whose file was opened by a process
that was gone before it had dumped the sidecar, and `marks` the marks last set, where none was asked
for since. -/
structure LogMachine where
  writer : RawLogWriter
  up : Bool := false
  attached : Bool := true
  requests : List Patch := []
  hours : List ℤ := []
  durable : ℕ := 0
  torn : ℤ → Bool := fun _ => false
  marks : ℤ → Option Bool := fun _ => none

/-- What can come next : a call of the writer, `daemon.rawlog` let go of, a new writer, a request
and its steps, the process gone, a recovery cut short, a start. -/
inductive MachineEvent
  | call (op : RawLogWriter.Op)
  | stop
  | replace (firmware : String) (site : Option String) (now : ℚ)
  | patch (hour : ℤ) (keep : Bool)
  | advance (i : ℕ)
  | gone (left : ℕ)
  | goneOpening (op : RawLogWriter.Op) (left : ℕ)
  | recover (n : ℕ)
  | start (life : Life)

namespace RawLogWriter

/-- What is left of a process. -/
def lost (w : RawLogWriter) (left : ℕ) : RawLogWriter :=
  { w with
    current := none
    root := match w.currentHour with
      | none => w.root
      | some hour => w.root.cut hour left
    pending := []
    pendingCounts := 0
    held := [] }

/-- What is left of a process whose call has opened the hour and not dumped its sidecar. -/
def lostOpening (w : RawLogWriter) (op : Op) (hour : ℤ) (left : ℕ) : RawLogWriter :=
  let w' := (w.apply op).lost left
  { w' with
    root := { w'.root with
      sidecar := Function.update w'.root.sidecar hour (w.root.sidecar hour) } }

end RawLogWriter

namespace LogMachine

/-- A new directory. -/
def init (stationId : String) : LogMachine := { writer := .empty stationId }

/-- The machine after a call of its writer. -/
def called (s : LogMachine) (w : RawLogWriter) : LogMachine :=
  match w.currentHour with
  | none => { s with writer := w }
  | some hour =>
    if s.writer.currentHour = some hour then { s with writer := w }
    else
      { s with
        writer := w
        hours := s.hours.insert hour
        durable := (s.writer.root.content hour).length
        torn := Function.update s.torn hour false }

/-- `writer.current_path == lf.path`. -/
def isCurrent (s : LogMachine) (hour : ℤ) : Bool :=
  s.attached && s.writer.currentHour = some hour

/-- The next step of a request : `set_keep` of the writer, the load and the dump of
`_write_keep`. -/
def advance (s : LogMachine) (i : ℕ) (p : Patch) : Option LogMachine :=
  match p.request with
  | .resolved lf =>
    some { s with
      writer := if s.isCurrent lf.hourUtc then s.writer.setKeep p.keep else s.writer
      requests := s.requests.set i { p with request := .submitted lf }
      marks := Function.update s.marks p.hour none }
  | .submitted lf =>
    some { s with
      requests := s.requests.set i
        { p with request := .loaded (s.writer.root.loadSidecar lf s.writer.role) } }
  | .loaded sidecar =>
    some { s with
      writer := { s.writer with
        root := s.writer.root.dump p.hour { sidecar with keep := p.keep } }
      requests := s.requests.set i { p with request := .returned }
      hours := s.hours.insert p.hour
      marks := Function.update s.marks p.hour (some p.keep) }
  | _ => none

/-- The state after the event. -/
def step (s : LogMachine) : MachineEvent → Option LogMachine
  | .call op => if s.up then some (s.called (s.writer.apply op)) else none
  | .stop => some { s with attached := false }
  | .replace firmware site now =>
    if s.up && s.writer.current.isNone then
      some { s with writer := s.writer.replacement firmware site now, attached := true }
    else none
  | .patch hour keep =>
    if s.up then
      (s.writer.root.loadLogfile s.writer.stationId hour).map fun lf =>
        { s with requests := s.requests ++ [{ hour, keep, request := .resolved lf }] }
    else none
  | .advance i => s.requests[i]?.bind (s.advance i)
  | .gone left =>
    if s.up && decide (s.durable ≤ left) then
      some { s with writer := s.writer.lost left, up := false, requests := [] }
    else none
  | .goneOpening op left =>
    match (s.writer.apply op).currentHour with
    | none => none
    | some hour =>
      if s.up && decide (s.writer.currentHour ≠ some hour) &&
          decide ((s.writer.root.content hour).length ≤ left) then
        some { s with
          writer := s.writer.lostOpening op hour left
          up := false
          requests := []
          torn := Function.update s.torn hour true }
      else none
  | .recover n =>
    if s.up then none
    else
      some { s with
        writer := { s.writer with root := s.writer.root.recoverIncomplete (s.hours.take n) } }
  | .start life =>
    if s.up then none
    else
      some { s with
        writer := { s.writer with root := s.writer.root.recoverIncomplete s.hours }.restarted life
        up := true
        attached := true }

/-- At its dump a request has loaded the sidecar of the open hour, which the writer has marked as
the request asks, or the sidecar on disk is still the one it has loaded. -/
def inTime (s : LogMachine) : MachineEvent → Bool
  | .advance i =>
    match s.requests[i]? with
    | some { hour, keep, request := .loaded sidecar } =>
      match s.writer.openLog hour with
      | some log => log.sidecar.keep = keep && !sidecar.complete
      | none => (s.writer.root.sidecar hour).all (· = sidecar)
    | _ => true
  | _ => true

/-- The file of an hour that is marked to be kept is not empty when it is marked, and not all lost
later. -/
def spares (s : LogMachine) : MachineEvent → Bool
  | .advance i =>
    match s.requests[i]? with
    | some { hour, keep, request := .loaded _ } => !keep || !(s.writer.root.content hour).isEmpty
    | _ => true
  | .gone left =>
    match s.writer.currentHour with
    | none => true
    | some hour => decide (0 < left) || decide (s.marks hour ≠ some true)
  | _ => true

end LogMachine

/-! ## The steps of a request -/

namespace RawLogWriter

variable {w : RawLogWriter} {hour : ℤ} {mark : Option Bool} {torn : Bool}

/-- The mark is in the open log, and on disk. -/
theorem setKeep_of_open {log : OpenLog} (hlog : w.current = some log) (keep : Bool) :
    (w.setKeep keep).current = some { log with sidecar := { log.sidecar with keep } } ∧
      (w.setKeep keep).root = w.root.dump log.hour { log.sidecar with keep } := by
  simp [setKeep, hlog, dumpSidecar]

@[simp] theorem file_setKeep (w : RawLogWriter) (keep : Bool) :
    (w.setKeep keep).root.file = w.root.file := by
  rcases hlog : w.current with _ | log
  · simp [setKeep, hlog]
  · rw [(setKeep_of_open hlog keep).2]
    rfl

@[simp] theorem currentHour_setKeep (w : RawLogWriter) (keep : Bool) :
    (w.setKeep keep).currentHour = w.currentHour := by
  rcases hlog : w.current with _ | log
  · simp [setKeep, hlog]
  · rw [currentHour, (setKeep_of_open hlog keep).1, currentHour, hlog, Option.map_some,
      Option.map_some]

/-- The open hour is marked. -/
theorem Traced.setKeep (h : w.Traced hour mark torn) (keep : Bool) :
    (w.setKeep keep).Traced hour none torn := by
  rcases hcur : w.current with _ | log
  · have hsame : w.setKeep keep = w := by simp [RawLogWriter.setKeep, hcur]
    rw [hsame]
    exact h.forget
  obtain ⟨hcurrent, hroot⟩ := setKeep_of_open hcur keep
  by_cases hhour : log.hour = hour
  · subst hhour
    obtain ⟨content, sc, hfile, -, htracks, -⟩ := h.exists_of_open (openLog_of_hour hcur rfl)
    refine .of_open { log.sidecar with keep } content (openLog_of_hour hcurrent rfl)
      (hroot ▸ hfile) ?_ ⟨htracks.hasher, htracks.bytes, htracks.complete, _, rfl,
        htracks.complete, rfl⟩ fun _ hmark => absurd hmark.symm (Option.some_ne_none _)
    rw [hroot]
    exact Function.update_self ..
  · refine h.forget.of_same ?_ (by rw [hroot]; rfl) (by rw [hroot, Root.sidecar_dump_of_ne hhour])
    rw [openLog_of_ne hcur hhour, openLog_of_ne hcurrent hhour]

/-- The others are as they were. -/
theorem Traced.setKeep_other (h : w.Traced hour mark torn) (keep : Bool)
    (hne : w.currentHour ≠ some hour) : (w.setKeep keep).Traced hour mark torn := by
  rcases hcur : w.current with _ | log
  · have hsame : w.setKeep keep = w := by simp [RawLogWriter.setKeep, hcur]
    rwa [hsame]
  obtain ⟨hcurrent, hroot⟩ := setKeep_of_open hcur keep
  have hhour : log.hour ≠ hour := by simpa [currentHour, hcur] using hne
  refine h.of_same ?_ (by rw [hroot]; rfl) (by rw [hroot, Root.sidecar_dump_of_ne hhour])
  rw [openLog_of_ne hcur hhour, openLog_of_ne hcurrent hhour]

/-- No sidecar comes up. -/
theorem Traced.sidecar_setKeep (h : w.Traced hour mark torn) {keep : Bool}
    (hsidecar : (w.setKeep keep).root.sidecar hour ≠ none) : w.root.sidecar hour ≠ none := by
  rcases hcur : w.current with _ | log
  · simpa [RawLogWriter.setKeep, hcur] using hsidecar
  · by_cases hhour : log.hour = hour
    · subst hhour
      obtain ⟨_, sc, -, hsc, -⟩ := h.exists_of_open (openLog_of_hour hcur rfl)
      simp [hsc]
    · rwa [(setKeep_of_open hcur keep).2, Root.sidecar_dump_of_ne hhour] at hsidecar

/-- A dump that is in time leaves the hour marked as asked for. -/
theorem Traced.dump {sidecar : Sidecar} {keep : Bool} {known : Option Bool}
    (h : w.Traced hour mark torn) (hfile : w.root.file hour ≠ none)
    (hopen : ∀ log, w.openLog hour = some log →
      log.sidecar.keep = keep ∧ sidecar.complete = false)
    (hclosed : w.openLog hour = none → ∀ sc, w.root.sidecar hour = some sc → sc = sidecar)
    (hknown : ∀ k, known = some k → k = keep ∧ (k = true → w.root.content hour ≠ [])) :
    { w with root := w.root.dump hour { sidecar with keep } }.Traced hour known torn := by
  obtain ⟨content, hcontent⟩ := Option.ne_none_iff_exists'.1 hfile
  have hread : (w.root.dump hour { sidecar with keep }).sidecar hour =
      some { sidecar with keep } := Function.update_self ..
  refine ⟨fun _ => hfile, fun log hlog => ?_, fun hlog htorn content' hcontent' => ?_,
    fun k hk => ?_⟩
  · obtain ⟨hkeep, hcomplete⟩ := hopen log hlog
    have htracks := h.opened log hlog
    exact ⟨htracks.hasher, htracks.bytes, htracks.complete, _, hread, hcomplete, hkeep.symm⟩
  · obtain ⟨sc, hsc, hseals⟩ := h.closed hlog htorn content' hcontent'
    obtain rfl := hclosed hlog sc hsc
    exact ⟨_, hread, hseals.complete, hseals.bytes, hseals.sha256⟩
  · exact ⟨_, hread, (hknown k hk).1.symm, (hknown k hk).2⟩

theorem Traced.dump_other {other : ℤ} (h : w.Traced hour mark torn) (hne : other ≠ hour)
    (sidecar : Sidecar) :
    { w with root := w.root.dump other sidecar }.Traced hour mark torn :=
  h.of_same rfl rfl (Root.sidecar_dump_of_ne hne)

end RawLogWriter

/-! ## What is left of an hour -/

/-- What holds of an hour while there is no process. -/
structure Root.Left (root : Root) (hour : ℤ) (mark : Option Bool) (torn : Bool) : Prop where
  filed : root.sidecar hour ≠ none → root.file hour ≠ none
  seals : torn = false → ∀ content, root.file hour = some content →
    ∃ sc, root.sidecar hour = some sc ∧ (sc.complete = true → sc.Seals content)
  marked : ∀ keep, mark = some keep → ∃ sc, root.sidecar hour = some sc ∧ sc.keep = keep ∧
    (keep = true → root.content hour ≠ [])

namespace Root

variable {root : Root} {hour other : ℤ} {mark : Option Bool} {torn : Bool}

@[simp] theorem file_recoverHour (root : Root) (hour : ℤ) :
    (root.recoverHour hour).file = root.file := by
  rw [recoverHour]
  split
  · rfl
  · split
    · rfl
    · split <;> rfl

@[simp] theorem file_recoverIncomplete (root : Root) (hours : List ℤ) :
    (root.recoverIncomplete hours).file = root.file := by
  induction hours generalizing root with
  | nil => rfl
  | cons hour hours ih => exact (ih _).trans (file_recoverHour root hour)

theorem sidecar_recoverHour_of_ne (hne : other ≠ hour) :
    (root.recoverHour other).sidecar hour = root.sidecar hour := by
  rw [recoverHour]
  split
  · rfl
  · split
    · rfl
    · split
      · exact Function.update_of_ne hne.symm ..
      · exact sidecar_dump_of_ne hne

/-- An hour that is recovered, or was complete. -/
theorem Left.recoverHour_self (h : root.Left hour mark torn) :
    (root.recoverHour hour).Left hour mark torn ∧
      ∀ sc, (root.recoverHour hour).sidecar hour = some sc → sc.complete = true := by
  rcases hsc : root.sidecar hour with _ | sc
  · have hsame : root.recoverHour hour = root := by rw [recoverHour, hsc]
    rw [hsame]
    exact ⟨h, by simp [hsc]⟩
  by_cases hcomplete : sc.complete = true
  · have hsame : root.recoverHour hour = root := by rw [recoverHour, hsc]; exact if_pos hcomplete
    rw [hsame]
    refine ⟨h, fun sc' hsc' => ?_⟩
    obtain rfl := Option.some.inj (hsc.symm.trans hsc')
    exact hcomplete
  obtain ⟨data, hfile⟩ := Option.ne_none_iff_exists'.1 (h.filed (by simp [hsc]))
  obtain ⟨fixed, hfixed, hseals, hkeep⟩ : ∃ fixed, root.recoverHour hour = root.dump hour fixed ∧
      fixed.Seals data ∧ fixed.keep = sc.keep := by
    simp only [recoverHour, hsc, hcomplete, hfile]
    exact ⟨_, rfl, ⟨rfl, rfl, rfl⟩, rfl⟩
  have hread : (root.dump hour fixed).sidecar hour = some fixed := Function.update_self ..
  rw [hfixed]
  refine ⟨⟨fun _ => by simp [dump, hfile], fun _ content' hcontent' => ?_, fun keep hmark => ?_⟩,
    fun sc' hsc' => ?_⟩
  · obtain rfl := Option.some.inj (hfile.symm.trans hcontent')
    exact ⟨fixed, hread, fun _ => hseals⟩
  · obtain ⟨sc', hsc', hsame, hne⟩ := h.marked keep hmark
    obtain rfl := Option.some.inj (hsc.symm.trans hsc')
    exact ⟨fixed, hread, hkeep.trans hsame, hne⟩
  · obtain rfl := Option.some.inj (hread.symm.trans hsc')
    exact hseals.complete

theorem Left.recoverHour (h : root.Left hour mark torn) (other : ℤ) :
    (root.recoverHour other).Left hour mark torn := by
  by_cases hhour : other = hour
  · subst hhour
    exact h.recoverHour_self.1
  · have hfile := congrFun (file_recoverHour root other) hour
    have hcontent : (root.recoverHour other).content hour = root.content hour := by
      rw [content, hfile, content]
    have hsidecar : (root.recoverHour other).sidecar hour = root.sidecar hour :=
      sidecar_recoverHour_of_ne hhour
    obtain ⟨hfiled, hseals, hmarked⟩ := h
    rw [← hfile, ← hsidecar] at hfiled hseals
    rw [← hsidecar, ← hcontent] at hmarked
    exact ⟨hfiled, hseals, hmarked⟩

/-- All hours are recovered that are in the directory, and those that are not are not there
either. -/
theorem Left.recoverIncomplete (h : root.Left hour mark torn) (hours : List ℤ) :
    (root.recoverIncomplete hours).Left hour mark torn ∧ (hour ∈ hours →
      ∀ sc, (root.recoverIncomplete hours).sidecar hour = some sc → sc.complete = true) := by
  induction hours using List.reverseRecOn with
  | nil => exact ⟨h, by simp⟩
  | append_singleton hours other ih =>
    obtain ⟨hleft, hcomplete⟩ := ih
    rw [Root.recoverIncomplete, List.foldl_append, List.foldl_cons, List.foldl_nil]
    rw [Root.recoverIncomplete] at hleft hcomplete
    refine ⟨hleft.recoverHour other, fun hmem => ?_⟩
    by_cases hhour : other = hour
    · subst hhour
      exact hleft.recoverHour_self.2
    · rw [sidecar_recoverHour_of_ne hhour]
      exact hcomplete (by simpa [Ne.symm hhour] using hmem)

theorem content_recoverIncomplete (root : Root) (hours : List ℤ) (hour : ℤ) :
    (root.recoverIncomplete hours).content hour = root.content hour := by
  rw [content, file_recoverIncomplete, content]

/-- No sidecar comes up in a recovery. -/
theorem sidecar_recoverHour (hsidecar : (root.recoverHour other).sidecar hour ≠ none) :
    root.sidecar hour ≠ none := by
  by_cases hhour : other = hour
  · subst hhour
    intro hnone
    have hsame : root.recoverHour other = root := by rw [recoverHour, hnone]
    exact hsidecar (by rw [hsame, hnone])
  · rwa [sidecar_recoverHour_of_ne hhour] at hsidecar

theorem sidecar_recoverIncomplete {hours : List ℤ}
    (hsidecar : (root.recoverIncomplete hours).sidecar hour ≠ none) :
    root.sidecar hour ≠ none := by
  induction hours generalizing root with
  | nil => exact hsidecar
  | cons other hours ih => exact sidecar_recoverHour (ih hsidecar)

end Root

namespace RawLogWriter

variable {w : RawLogWriter} {hour : ℤ} {mark : Option Bool} {torn : Bool}

/-- An hour that is not open is not touched when the process is gone. -/
theorem lost_of_ne (left : ℕ) (hne : w.currentHour ≠ some hour) :
    (w.lost left).root.file hour = w.root.file hour ∧
      (w.lost left).root.sidecar hour = w.root.sidecar hour := by
  rcases hcur : w.currentHour with _ | other
  · simp [lost, hcur]
  · have hother : hour ≠ other := fun heq => hne (heq ▸ hcur)
    simp [lost, hcur, Root.cut, hother]

theorem sidecar_lost (w : RawLogWriter) (left : ℕ) :
    (w.lost left).root.sidecar = w.root.sidecar := by
  rw [lost]
  cases w.currentHour <;> rfl

theorem openLog_of_currentHour_ne (hne : w.currentHour ≠ some hour) : w.openLog hour = none := by
  rcases hcur : w.current with _ | log
  · exact openLog_of_none hcur
  · exact openLog_of_ne hcur (by simpa [currentHour, hcur] using hne)

/-- What a process leaves of an hour that it has not open. -/
theorem Traced.lost_closed (h : w.Traced hour mark torn) (left : ℕ)
    (hne : w.currentHour ≠ some hour) : (w.lost left).root.Left hour mark torn := by
  obtain ⟨hfile, hsidecar⟩ := lost_of_ne left hne
  have hcontent : (w.lost left).root.content hour = w.root.content hour := by
    rw [Root.content, hfile, Root.content]
  refine ⟨by rw [hfile, hsidecar]; exact h.filed, fun htorn content hread => ?_, ?_⟩
  · obtain ⟨sc, hsc, hseals⟩ :=
      h.closed (openLog_of_currentHour_ne hne) htorn content (hfile ▸ hread)
    exact ⟨sc, hsidecar ▸ hsc, fun _ => hseals⟩
  · rw [hcontent, hsidecar]
    exact h.marked

/-- What a process leaves of an hour. -/
theorem Traced.lost (h : w.Traced hour mark torn) {left : ℕ}
    (hleft : w.currentHour = some hour → mark = some true → 0 < left) :
    (w.lost left).root.Left hour mark torn := by
  by_cases hcurrent : w.currentHour = some hour
  · obtain ⟨log, hcur, hhour⟩ := exists_current_of_currentHour hcurrent
    obtain ⟨content, sc, hfile, hsc, htracks, hmarked⟩ :=
      h.exists_of_open (openLog_of_hour hcur hhour)
    have hroot : (w.lost left).root = w.root.cut hour left := by
      simp [RawLogWriter.lost, hcurrent]
    have hsc' : (w.root.cut hour left).sidecar hour = some sc := hsc
    have hcontent : (w.root.cut hour left).content hour = content.take left := by
      rw [Root.content_cut, if_pos rfl, Root.content, hfile, Option.getD_some]
    rw [hroot]
    refine ⟨by simp [Root.cut, hfile], fun _ _ _ => ⟨sc, hsc', fun hcomplete => ?_⟩,
      fun keep hm => ?_⟩
    · obtain ⟨sc', heq, hfalse, -⟩ := htracks.dumped
      obtain rfl := Option.some.inj heq
      simp [hfalse] at hcomplete
    · obtain ⟨hkeep, hne⟩ := hmarked keep hm
      refine ⟨sc, hsc', hkeep, fun htrue => ?_⟩
      subst htrue
      rw [hcontent, Ne, List.take_eq_nil_iff]
      exact not_or.2 ⟨(hleft hcurrent hm).ne', hne rfl⟩
  · exact h.lost_closed left hcurrent

/-- What a process leaves that is gone when it has opened the hour. -/
theorem Traced.lostOpening {op : Op} {other : ℤ} {left : ℕ} {torn : ℤ → Bool}
    (h : w.Traced hour mark (torn hour)) (hop : (w.apply op).currentHour = some other)
    (hleft : (w.root.content other).length ≤ left) :
    (w.lostOpening op other left).root.Left hour mark (Function.update torn other true hour) := by
  have hcalls := calls_apply w op
  by_cases hhour : other = hour
  · subst hhour
    have hroot : ((w.apply op).lost left).root = (w.apply op).root.cut other left := by
      simp [RawLogWriter.lost, hop]
    have hread : (w.lostOpening op other left).root.sidecar other = w.root.sidecar other :=
      Function.update_self ..
    have hfile : (w.lostOpening op other left).root.file other =
        ((w.apply op).root.file other).map (List.take left) := by
      simp [RawLogWriter.lostOpening, hroot, Root.cut]
    have hcontent : w.root.content other <+: (w.lostOpening op other left).root.content other := by
      have hcut : (w.lostOpening op other left).root.content other =
          ((w.apply op).root.content other).take left := by
        rw [Root.content, hfile, Root.content]
        cases (w.apply op).root.file other <;> simp
      rw [hcut]
      exact List.prefix_take_iff.2 ⟨hcalls.grows other, hleft⟩
    refine ⟨fun hsc => ?_, fun htorn => by simp at htorn, fun keep hm => ?_⟩
    · rw [hread] at hsc
      rw [hfile, Ne, Option.map_eq_none_iff]
      exact hcalls.file (h.filed hsc)
    · obtain ⟨sc, hsc, hkeep, hne⟩ := h.marked keep hm
      refine ⟨sc, hread.trans hsc, hkeep, fun htrue hnil => hne htrue ?_⟩
      rw [hnil] at hcontent
      exact List.prefix_nil.1 hcontent
  · have hlost := (h.calls hcalls).lost_closed left (by rw [hop]; simpa using hhour)
    rw [Function.update_of_ne (Ne.symm hhour)]
    have hsidecar : (w.lostOpening op other left).root.sidecar hour =
        ((w.apply op).lost left).root.sidecar hour := Function.update_of_ne (Ne.symm hhour) ..
    obtain ⟨hfiled, hseals, hmarked⟩ := hlost
    rw [← hsidecar] at hfiled hmarked
    refine ⟨hfiled, fun htorn content hread => ?_, hmarked⟩
    rw [hsidecar]
    exact hseals htorn content hread

/-- A new process on a directory that is recovered. -/
theorem traced_restarted {life : Life} (h : w.root.Left hour mark torn)
    (hcomplete : ∀ sc, w.root.sidecar hour = some sc → sc.complete = true) :
    (w.restarted life).Traced hour mark torn where
  filed := h.filed
  opened _ hlog := absurd hlog (by simp [openLog, restarted, replacement])
  closed _ htorn content hfile := by
    obtain ⟨sc, hsc, hseals⟩ := h.seals htorn content hfile
    exact ⟨sc, hsc, hseals (hcomplete sc hsc)⟩
  marked := h.marked

end RawLogWriter

/-! ## Runs -/

namespace LogMachine

open RawLogWriter

variable {s s' : LogMachine} {e : MachineEvent} {spared : Bool} {hour : ℤ}

/-- The marks that are known to be kept. -/
def known (s : LogMachine) (spared : Bool) (hour : ℤ) : Option Bool :=
  if spared then s.marks hour else none

/-- A request that is under way names an hour with a file. -/
structure Names (root : Root) (p : Patch) : Prop where
  hourUtc : ∀ lf, p.request = .resolved lf → lf.hourUtc = p.hour
  file : root.file p.hour ≠ none

/-- What holds of the hours, up and down. -/
structure Inv (s : LogMachine) (spared : Bool) : Prop where
  hours : ∀ hour, s.writer.root.sidecar hour ≠ none → hour ∈ s.hours
  requests : ∀ p ∈ s.requests, Names s.writer.root p
  up : s.up = true → ∀ hour, s.writer.Traced hour (s.known spared hour) (s.torn hour)
  down : s.up = false → s.writer.current = none ∧ s.requests = [] ∧
    ∀ hour, s.writer.root.Left hour (s.known spared hour) (s.torn hour)

theorem inv_init (stationId : String) (spared : Bool) : (init stationId).Inv spared where
  hours hour h := absurd rfl h
  requests p hp := absurd hp (by simp [init])
  up h := absurd h (by simp [init])
  down _ := ⟨rfl, rfl, fun hour => ⟨by simp [init, empty], by simp [init, empty],
    fun keep hk => absurd hk (by simp [known, init])⟩⟩

/-- What an event does. -/
inductive Next (s : LogMachine) : MachineEvent → LogMachine → Prop
  | call (op : Op) (hup : s.up = true) : Next s (.call op) (s.called (s.writer.apply op))
  | stop : Next s .stop { s with attached := false }
  | replace (firmware : String) (site : Option String) (now : ℚ) (hup : s.up = true)
      (hcur : s.writer.current = none) : Next s (.replace firmware site now)
        { s with writer := s.writer.replacement firmware site now, attached := true }
  | patch (hour : ℤ) (keep : Bool) (lf : LogFile) (hup : s.up = true)
      (hlf : s.writer.root.loadLogfile s.writer.stationId hour = some lf) :
      Next s (.patch hour keep)
        { s with requests := s.requests ++ [{ hour, keep, request := .resolved lf }] }
  | advance (i : ℕ) (p : Patch) (s' : LogMachine) (hp : s.requests[i]? = some p)
      (hs' : s.advance i p = some s') : Next s (.advance i) s'
  | gone (left : ℕ) (hup : s.up = true) (hleft : s.durable ≤ left) :
      Next s (.gone left) { s with writer := s.writer.lost left, up := false, requests := [] }
  | goneOpening (op : Op) (hour : ℤ) (left : ℕ) (hup : s.up = true)
      (hop : (s.writer.apply op).currentHour = some hour)
      (hleft : (s.writer.root.content hour).length ≤ left) :
      Next s (.goneOpening op left)
        { s with
          writer := s.writer.lostOpening op hour left
          up := false
          requests := []
          torn := Function.update s.torn hour true }
  | recover (n : ℕ) (hdown : s.up = false) : Next s (.recover n)
      { s with
        writer := { s.writer with root := s.writer.root.recoverIncomplete (s.hours.take n) } }
  | start (life : Life) (hdown : s.up = false) : Next s (.start life)
      { s with
        writer := { s.writer with root := s.writer.root.recoverIncomplete s.hours }.restarted life
        up := true
        attached := true }

theorem next_of_step (h : s.step e = some s') : s.Next e s' := by
  cases e with
  | call op =>
    obtain ⟨hup, h⟩ := Option.ite_none_right_eq_some.1 h
    exact Option.some.inj h ▸ .call op hup
  | stop => exact Option.some.inj h ▸ .stop
  | replace firmware site now =>
    obtain ⟨hcond, h⟩ := Option.ite_none_right_eq_some.1 h
    obtain ⟨hup, hcur⟩ := Bool.and_eq_true_iff.1 hcond
    exact Option.some.inj h ▸ .replace firmware site now hup (Option.isNone_iff_eq_none.1 hcur)
  | patch hour keep =>
    obtain ⟨hup, h⟩ := Option.ite_none_right_eq_some.1 h
    obtain ⟨lf, hlf, rfl⟩ := Option.map_eq_some_iff.1 h
    exact .patch hour keep lf hup hlf
  | advance i =>
    obtain ⟨p, hp, hs'⟩ := Option.bind_eq_some_iff.1 h
    exact .advance i p s' hp hs'
  | gone left =>
    obtain ⟨hcond, h⟩ := Option.ite_none_right_eq_some.1 h
    obtain ⟨hup, hleft⟩ := Bool.and_eq_true_iff.1 hcond
    exact Option.some.inj h ▸ .gone left hup (of_decide_eq_true hleft)
  | goneOpening op left =>
    simp only [step] at h
    split at h
    · simp at h
    · next hour hop =>
      obtain ⟨hcond, h⟩ := Option.ite_none_right_eq_some.1 h
      obtain ⟨hup, hleft⟩ := Bool.and_eq_true_iff.1 hcond
      exact Option.some.inj h ▸ .goneOpening op hour left (Bool.and_eq_true_iff.1 hup).1 hop
        (of_decide_eq_true hleft)
  | recover n =>
    obtain ⟨hdown, h⟩ := Option.ite_none_left_eq_some.1 h
    exact Option.some.inj h ▸ .recover n (by simpa using hdown)
  | start life =>
    obtain ⟨hdown, h⟩ := Option.ite_none_left_eq_some.1 h
    exact Option.some.inj h ▸ .start life (by simpa using hdown)

/-- What a step of a request does. -/
theorem advance_cases {i : ℕ} {p : Patch} (h : s.advance i p = some s') :
    (∃ lf, p.request = .resolved lf ∧ s' = { s with
      writer := if s.isCurrent lf.hourUtc then s.writer.setKeep p.keep else s.writer
      requests := s.requests.set i { p with request := .submitted lf }
      marks := Function.update s.marks p.hour none }) ∨
    (∃ lf, p.request = .submitted lf ∧ s' = { s with
      requests := s.requests.set i
        { p with request := .loaded (s.writer.root.loadSidecar lf s.writer.role) } }) ∨
    ∃ sidecar, p.request = .loaded sidecar ∧ s' = { s with
      writer := { s.writer with
        root := s.writer.root.dump p.hour { sidecar with keep := p.keep } }
      requests := s.requests.set i { p with request := .returned }
      hours := s.hours.insert p.hour
      marks := Function.update s.marks p.hour (some p.keep) } := by
  rw [advance] at h
  split at h
  · next lf hreq => exact .inl ⟨lf, hreq, (Option.some.inj h).symm⟩
  · next lf hreq => exact .inr (.inl ⟨lf, hreq, (Option.some.inj h).symm⟩)
  · next sidecar hreq => exact .inr (.inr ⟨sidecar, hreq, (Option.some.inj h).symm⟩)
  · simp at h

/-- The machine after a call. -/
theorem called_eq (s : LogMachine) (w : RawLogWriter) :
    (s.called w).writer = w ∧ (s.called w).up = s.up ∧ (s.called w).requests = s.requests ∧
      (s.called w).marks = s.marks := by
  rw [called]
  split
  · exact ⟨rfl, rfl, rfl, rfl⟩
  · split <;> exact ⟨rfl, rfl, rfl, rfl⟩

/-- The open hour is in the directory. -/
theorem hours_called {w : RawLogWriter}
    (h : ∀ hour, s.writer.root.sidecar hour ≠ none → hour ∈ s.hours)
    (hup : ∀ hour, s.writer.Traced hour none (s.torn hour))
    (hw : ∀ hour, w.root.sidecar hour ≠ none →
      s.writer.root.sidecar hour ≠ none ∨ w.currentHour = some hour)
    (hour : ℤ) (hsidecar : w.root.sidecar hour ≠ none) : hour ∈ (s.called w).hours := by
  have hopen : s.writer.currentHour = some hour → s.writer.root.sidecar hour ≠ none := by
    intro hcur
    obtain ⟨log, hlog, hhour⟩ := exists_current_of_currentHour hcur
    obtain ⟨_, sc, -, hsc, -⟩ := (hup hour).exists_of_open (openLog_of_hour hlog hhour)
    simp [hsc]
  rw [called]
  split
  · next hcur => exact h hour ((hw hour hsidecar).resolve_right (by simp [hcur]))
  · next other hcur =>
    split
    · next hsame =>
      exact h hour ((hw hour hsidecar).elim id fun heq => hopen (hsame.trans (hcur.symm.trans heq)))
    · rcases hw hour hsidecar with hold | heq
      · exact List.mem_insert_of_mem (h hour hold)
      · obtain rfl := Option.some.inj (hcur.symm.trans heq)
        exact List.mem_insert_self

/-- The hour that a call has opened is not torn. -/
theorem traced_called {w : RawLogWriter} {mark : Option Bool}
    (h : w.Traced hour mark (s.torn hour)) : w.Traced hour mark ((s.called w).torn hour) := by
  rw [called]
  split
  · exact h
  · next other hcur =>
    split
    · exact h
    · by_cases hhour : hour = other
      · subst hhour
        obtain ⟨log, hlog, hhour⟩ := exists_current_of_currentHour hcur
        simp only [Function.update_self]
        exact h.untorn (openLog_of_hour hlog hhour)
      · simpa only [Function.update_of_ne hhour] using h

theorem inv_call (h : s.Inv spared) (hup : s.up = true) (op : Op) :
    (s.called (s.writer.apply op)).Inv spared := by
  obtain ⟨hwriter, hup', hrequests, hmarks⟩ := s.called_eq (s.writer.apply op)
  have hcalls := calls_apply s.writer op
  have hknown : (s.called (s.writer.apply op)).known spared = s.known spared := by
    funext hour
    rw [known, hmarks, known]
  refine ⟨fun hour hsidecar => ?_, fun p hp => ?_, fun _ hour => ?_, fun hdown => ?_⟩
  · rw [hwriter] at hsidecar
    exact hours_called h.hours (fun hour => (h.up hup hour).forget)
      (fun hour hne => hcalls.sidecar (h.up hup hour) hne) hour hsidecar
  · rw [hwriter]
    obtain ⟨hhour, hfile⟩ := h.requests p (hrequests ▸ hp)
    exact ⟨hhour, hcalls.file hfile⟩
  · rw [hwriter, hknown]
    exact traced_called ((h.up hup hour).calls hcalls)
  · simp [hup', hup] at hdown

theorem hourUtc_of_load {root : Root} {stationId : String} {lf : LogFile}
    (h : root.loadLogfile stationId hour = some lf) :
    root.file hour ≠ none ∧ lf.hourUtc = hour := by
  obtain ⟨content, hfile, rfl⟩ := Option.map_eq_some_iff.1 h
  refine ⟨by simp [hfile], ?_⟩
  split <;> rfl

theorem isCurrent_eq {other : ℤ} (h : s.isCurrent other = true) :
    s.writer.currentHour = some other := by
  simpa [isCurrent] using (Bool.and_eq_true_iff.1 h).2

/-- A request after its step, and the others. -/
theorem names_set {root root' : Root} {requests : List Patch} {i : ℕ} {p q : Patch}
    {request : KeepRequest} (h : ∀ p ∈ requests, Names root p) (hp : requests[i]? = some p)
    (hfile : ∀ hour, root.file hour ≠ none → root'.file hour ≠ none)
    (hrequest : ∀ lf, request ≠ .resolved lf) (hq : q ∈ requests.set i { p with request }) :
    Names root' q := by
  rcases List.mem_or_eq_of_mem_set hq with hmem | rfl
  · exact ⟨(h q hmem).hourUtc, hfile _ (h q hmem).file⟩
  · exact ⟨fun lf hlf => absurd hlf (hrequest lf),
      hfile _ (h p (List.mem_of_getElem? hp)).file⟩

/-- What is known of the marks while one of them is asked for, and once it is set. -/
theorem known_of_ne {other : ℤ} (hne : hour ≠ other) (mark : Option Bool) :
    known { s with marks := Function.update s.marks other mark } spared hour =
      s.known spared hour := by
  simp [known, Function.update_of_ne hne]

/-- The mark in the writer, which is not known until the dump. -/
theorem traced_mark {lf : LogFile} {keep : Bool} (h : s.Inv spared) (hup : s.up = true)
    (hhour : lf.hourUtc = hour) (other : ℤ) :
    (if s.isCurrent lf.hourUtc then s.writer.setKeep keep else s.writer).Traced other
      (known { s with marks := Function.update s.marks hour none } spared other)
      (s.torn other) := by
  by_cases hother : other = hour
  · subst hother
    have hnone : known { s with marks := Function.update s.marks other none } spared other =
        none := by
      simp [known]
    rw [hnone]
    split
    · exact (h.up hup other).setKeep keep
    · exact (h.up hup other).forget
  · rw [known_of_ne hother]
    split
    · next hcurrent =>
      refine (h.up hup other).setKeep_other keep ?_
      rw [isCurrent_eq hcurrent, hhour]
      simpa using Ne.symm hother
    · exact h.up hup other

/-- The dump. -/
theorem traced_dump {i : ℕ} {p : Patch} {sidecar : Sidecar} (h : s.Inv spared) (hup : s.up = true)
    (hp : s.requests[i]? = some p) (hreq : p.request = .loaded sidecar)
    (htime : s.inTime (.advance i) = true) (hspares : spared = true → s.spares (.advance i) = true)
    (other : ℤ) :
    { s.writer with root := s.writer.root.dump p.hour { sidecar with keep := p.keep } }.Traced other
      (known { s with marks := Function.update s.marks p.hour (some p.keep) } spared other)
      (s.torn other) := by
  by_cases hother : other = p.hour
  · subst hother
    have hfile := (h.requests p (List.mem_of_getElem? hp)).file
    obtain ⟨hour, keep, request⟩ := p
    simp only at hreq
    subst hreq
    simp only [inTime, hp] at htime
    refine (h.up hup hour).dump hfile (fun log hlog => ?_) (fun hlog sc hsc => ?_) fun k hk => ?_
    · simpa [hlog] using htime
    · simpa [hlog, hsc] using htime
    · cases spared with
      | false => simp [known] at hk
      | true =>
        obtain rfl : keep = k := by simpa [known] using hk
        have hne : keep = false ∨ s.writer.root.content hour ≠ [] := by
          simpa [spares, hp] using hspares rfl
        exact ⟨rfl, fun htrue => hne.resolve_left (by simp [htrue])⟩
  · rw [known_of_ne hother]
    exact (h.up hup other).dump_other (Ne.symm hother) _

theorem inv_advance {i : ℕ} {p : Patch} (h : s.Inv spared) (hp : s.requests[i]? = some p)
    (htime : s.inTime (.advance i) = true) (hspares : spared = true → s.spares (.advance i) = true)
    (hs' : s.advance i p = some s') : s'.Inv spared := by
  have hmem : p ∈ s.requests := List.mem_of_getElem? hp
  have hup : s.up = true := by
    by_contra hdown
    have hnil := (h.down (by simpa using hdown)).2.1
    simp [hnil] at hmem
  obtain ⟨lf, hreq, rfl⟩ | ⟨lf, hreq, rfl⟩ | ⟨sidecar, hreq, rfl⟩ := advance_cases hs'
  · refine ⟨fun hour hsidecar => h.hours hour ?_, fun q hq => ?_,
      fun _ => traced_mark h hup ((h.requests p hmem).hourUtc lf hreq),
      fun hdown => by simp [hup] at hdown⟩
    · dsimp only at hsidecar
      split at hsidecar
      · exact (h.up hup hour).sidecar_setKeep hsidecar
      · exact hsidecar
    · refine names_set h.requests hp (fun hour hfile => ?_) (by simp) hq
      dsimp only
      split
      · rwa [file_setKeep]
      · exact hfile
  · exact ⟨h.hours, fun q hq => names_set h.requests hp (fun _ => id) (by simp) hq, h.up,
      fun hdown => by simp [hup] at hdown⟩
  · refine ⟨fun hour hsidecar => ?_,
      fun q hq => names_set h.requests hp (fun _ => id) (by simp) hq,
      fun _ => traced_dump h hup hp hreq htime hspares, fun hdown => by simp [hup] at hdown⟩
    by_cases hhour : p.hour = hour
    · subst hhour
      exact List.mem_insert_self
    · dsimp only at hsidecar
      rw [Root.sidecar_dump_of_ne hhour] at hsidecar
      exact List.mem_insert_of_mem (h.hours hour hsidecar)

/-- What is known of the hours is kept where the requests dump in time, and with it the marks where
no marked hour is all lost. -/
theorem inv_step (h : s.Inv spared) (htime : s.inTime e = true)
    (hspares : spared = true → s.spares e = true) (hstep : s.step e = some s') :
    s'.Inv spared := by
  cases next_of_step hstep with
  | call op hup => exact inv_call h hup op
  | stop => exact ⟨h.hours, h.requests, h.up, h.down⟩
  | replace firmware site now hup hcur =>
    refine ⟨h.hours, h.requests, fun _ hour => ?_, fun hdown => by simp [hup] at hdown⟩
    exact (h.up hup hour).of_same (by rw [openLog_of_none hcur, openLog_of_none rfl]) rfl rfl
  | patch hour keep lf hup hlf =>
    obtain ⟨hfile, hhour⟩ := hourUtc_of_load hlf
    refine ⟨h.hours, fun p hp => ?_, h.up, fun hdown => by simp [hup] at hdown⟩
    rcases List.mem_append.1 hp with hp | hp
    · exact h.requests p hp
    · obtain rfl := List.mem_singleton.1 hp
      refine ⟨fun lf' hlf' => ?_, hfile⟩
      obtain rfl : lf = lf' := by simpa using hlf'
      exact hhour
  | advance i p s' hp hs' => exact inv_advance h hp htime hspares hs'
  | gone left hup hleft =>
    refine ⟨fun hour hsidecar => h.hours hour (sidecar_lost s.writer left ▸ hsidecar),
      by simp, fun hup' => by simp at hup', fun _ => ⟨rfl, rfl, fun hour => ?_⟩⟩
    refine (h.up hup hour).lost fun hcur hmark => ?_
    cases spared with
    | false => simp [known] at hmark
    | true =>
      have hmarks : s.marks hour = some true := by simpa [known] using hmark
      simpa [spares, hcur, hmarks] using hspares rfl
  | goneOpening op hour left hup hop hleft =>
    refine ⟨fun other hsidecar => ?_, by simp, fun hup' => by simp at hup',
      fun _ => ⟨rfl, rfl, fun other => (h.up hup other).lostOpening hop hleft⟩⟩
    by_cases hother : other = hour
    · subst hother
      refine h.hours other ?_
      simpa [lostOpening] using hsidecar
    · have hw : (s.writer.apply op).root.sidecar other ≠ none := by
        simpa [lostOpening, Function.update_of_ne hother, sidecar_lost] using hsidecar
      have hne : (s.writer.apply op).currentHour ≠ some other := by
        rw [hop]
        simpa using Ne.symm hother
      have hcalls := calls_apply s.writer op
      exact h.hours other ((hcalls.sidecar (h.up hup other) hw).resolve_right hne)
  | recover n hdown =>
    obtain ⟨hcur, hrequests, hleft⟩ := h.down hdown
    refine ⟨fun hour hsidecar => h.hours hour (Root.sidecar_recoverIncomplete hsidecar),
      by simp [hrequests], fun hup => by simp [hdown] at hup,
      fun _ => ⟨hcur, hrequests, fun hour => ((hleft hour).recoverIncomplete _).1⟩⟩
  | start life hdown =>
    obtain ⟨hcur, hrequests, hleft⟩ := h.down hdown
    refine ⟨fun hour hsidecar => h.hours hour (Root.sidecar_recoverIncomplete hsidecar),
      by simp [hrequests], fun _ hour => ?_, fun hdown => by simp at hdown⟩
    obtain ⟨hleft', hcomplete⟩ := (hleft hour).recoverIncomplete s.hours
    refine traced_restarted hleft' fun sc hsc => ?_
    have hsome : (s.writer.root.recoverIncomplete s.hours).sidecar hour ≠ none := fun hnone =>
      Option.some_ne_none sc (hsc.symm.trans hnone)
    exact hcomplete (h.hours hour (Root.sidecar_recoverIncomplete hsome)) sc hsc

/-! ### What stays in a file -/

/-- The bytes are in the file, and were before the hour was opened. -/
def Holds (s : LogMachine) (hour : ℤ) (bytes : List UInt8) : Prop :=
  bytes <+: s.writer.root.content hour ∧
    (s.writer.currentHour = some hour → bytes.length ≤ s.durable)

theorem holds_call {bytes : List UInt8} (h : s.Holds hour bytes) (op : Op) :
    (s.called (s.writer.apply op)).Holds hour bytes := by
  obtain ⟨hbytes, hopen⟩ := h
  obtain ⟨hwriter, -, -, -⟩ := s.called_eq (s.writer.apply op)
  refine ⟨hwriter.symm ▸ hbytes.trans ((calls_apply s.writer op).grows hour), fun hcur => ?_⟩
  rw [hwriter] at hcur
  simp only [called, hcur]
  split
  · next hsame => exact hopen hsame
  · exact hbytes.length_le

/-- What is cut off the open hour's file was not there when it was opened. -/
theorem prefix_lost {w : RawLogWriter} {bytes : List UInt8} {left : ℕ}
    (hbytes : bytes <+: w.root.content hour)
    (hleft : w.currentHour = some hour → bytes.length ≤ left) :
    bytes <+: (w.lost left).root.content hour := by
  by_cases hcur : w.currentHour = some hour
  · have hroot : (w.lost left).root = w.root.cut hour left := by simp [lost, hcur]
    rw [hroot, Root.content_cut, if_pos rfl]
    exact List.prefix_take_iff.2 ⟨hbytes, hleft hcur⟩
  · rw [Root.content, (lost_of_ne left hcur).1]
    exact hbytes

theorem holds_step {bytes : List UInt8} (h : s.Holds hour bytes) (hstep : s.step e = some s') :
    s'.Holds hour bytes := by
  cases next_of_step hstep with
  | call op hup => exact holds_call h op
  | stop => exact h
  | replace firmware site now hup hcur =>
    exact ⟨h.1, fun hcur => absurd hcur (by simp [replacement, currentHour])⟩
  | patch hour keep lf hup hlf => exact h
  | advance i p s' hp hs' =>
    obtain ⟨lf, -, rfl⟩ | ⟨lf, -, rfl⟩ | ⟨sidecar, -, rfl⟩ := advance_cases hs'
    · dsimp only [Holds]
      split
      · rw [Root.content, file_setKeep, currentHour_setKeep]
        exact h
      · exact h
    · exact h
    · exact h
  | gone left hup hleft =>
    refine ⟨prefix_lost h.1 fun hcur => (h.2 hcur).trans hleft, fun hcur => ?_⟩
    exact absurd hcur (by simp [lost, currentHour])
  | goneOpening op other left hup hop hleft =>
    refine ⟨prefix_lost (w := s.writer.apply op)
      (h.1.trans ((calls_apply s.writer op).grows hour)) fun hcur => ?_, fun hcur => ?_⟩
    · obtain rfl := Option.some.inj (hop.symm.trans hcur)
      exact h.1.length_le.trans hleft
    · exact absurd hcur (by simp [lostOpening, lost, currentHour])
  | recover n hdown => exact ⟨by rw [Root.content_recoverIncomplete]; exact h.1, h.2⟩
  | start life hdown =>
    refine ⟨?_, fun hcur => absurd hcur (by simp [restarted, replacement, currentHour])⟩
    simpa [restarted, replacement, Root.content_recoverIncomplete] using h.1

theorem holds_run {bytes : List UInt8} {es : List MachineEvent} (h : s.Holds hour bytes)
    (hrun : run step s es = some s') : s'.Holds hour bytes := by
  induction es generalizing s with
  | nil =>
    obtain rfl := Option.some.inj hrun
    exact h
  | cons e es ih =>
    obtain ⟨t, hstep, hrest⟩ := Option.bind_eq_some_iff.1 hrun
    exact ih (holds_step h hstep) hrest

/-- However and how often the process is gone, also in the midst of a recovery : once a daemon is
up, the file of every hour but the open one and those torn has a sidecar that is complete and gives
its size and hash. What is in the file of a closed hour stays there. -/
theorem recovered {stationId : String} (h : Reachable (guarded step inTime) (init stationId) s) :
    (s.up = true → ∀ hour, s.writer.currentHour ≠ some hour → s.torn hour = false →
      ∀ content, s.writer.root.file hour = some content →
        ∃ sc, s.writer.root.sidecar hour = some sc ∧ sc.Seals content) ∧
    ∀ hour, s.writer.currentHour ≠ some hour → ∀ es s', run step s es = some s' →
      s.writer.root.content hour <+: s'.writer.root.content hour := by
  have hinv : s.Inv false := h.invariant (Inv · false) (inv_init stationId false)
    fun _ _ _ _ ht hstep => by
      obtain ⟨htime, hstep⟩ := guarded_eq_some.1 hstep
      exact inv_step ht htime (fun hspared => by simp at hspared) hstep
  refine ⟨fun hup hour hclosed htorn content hfile => ?_, fun hour hclosed es s' hrun => ?_⟩
  · exact (hinv.up hup hour).closed (openLog_of_currentHour_ne hclosed) htorn content hfile
  · exact (holds_run ⟨List.prefix_refl _, fun hcur => absurd hcur hclosed⟩ hrun).1

/-- Five o'clock : an hour is marked while its frames come in, the third of them is cut off, and the
process is gone again before it has recovered anything. Six o'clock : the process is gone when it
has opened the hour, and the next one writes a frame to it. -/
def crashedRun : List MachineEvent :=
  [.start { messages := ["NAV-EOE"], ops := [] }, .call (.noteUtc 0 1767243600),
    .call (.handle 1 0 LogDaemon.eoeFrame), .patch 490901 true, .advance 0,
    .call (.handle 2 0 LogDaemon.eoeFrame), .advance 0, .advance 0,
    .call (.handle 3 0 LogDaemon.eoeFrame), .gone 29, .recover 0,
    .start { messages := ["NAV-EOE"], ops := [] }, .call (.noteUtc 0 1767247200),
    .goneOpening (.handle 1 0 LogDaemon.eoeFrame) 0,
    .start { messages := ["NAV-EOE"], ops := [] }, .call (.noteUtc 0 1767247200),
    .call (.handle 1 0 LogDaemon.eoeFrame), .call .close]

theorem recovered_crashedRun :
    ∃ s five six, run (guarded step inTime) (init "BASE") crashedRun = some s ∧
      s.writer.root.sidecar 490901 = some five ∧
      five.Seals (LogDaemon.eoeFrame.raw ++ LogDaemon.eoeFrame.raw ++
        LogDaemon.eoeFrame.raw.take 5) ∧
      s.writer.root.sidecar 490902 = some six ∧ six.Seals LogDaemon.eoeFrame.raw := by
  have hrun : (run (guarded step inTime) (init "BASE") crashedRun).map (fun s =>
      ([s.up, s.torn 490901, s.torn 490902], s.writer.currentHour,
        [490901, 490902].map s.writer.root.file)) =
      some ([true, false, false], none,
        [some (LogDaemon.eoeFrame.raw ++ LogDaemon.eoeFrame.raw ++ LogDaemon.eoeFrame.raw.take 5),
          some LogDaemon.eoeFrame.raw]) := by
    decide +kernel
  obtain ⟨s, hs, heq⟩ := Option.map_eq_some_iff.1 hrun
  simp only [List.map_cons, List.map_nil, Prod.mk.injEq, List.cons.injEq, and_true] at heq
  obtain ⟨⟨hup, htorn, htorn'⟩, hclosed, hfile, hfile'⟩ := heq
  obtain ⟨five, hfive, hseals⟩ :=
    (recovered ⟨crashedRun, hs⟩).1 hup 490901 (by simp [hclosed]) htorn _ hfile
  obtain ⟨six, hsix, hseals'⟩ :=
    (recovered ⟨crashedRun, hs⟩).1 hup 490902 (by simp [hclosed]) htorn' _ hfile'
  exact ⟨s, five, six, hs, hfive, hseals, hsix, hseals'⟩

/-- An hour that is torn is not recovered : its file has no sidecar. -/
theorem torn_unlisted : ∃ s, run step (init "BASE")
      [.start { messages := ["NAV-EOE"], ops := [] }, .call (.noteUtc 0 1767247200),
        .goneOpening (.handle 1 0 LogDaemon.eoeFrame) 0,
        .start { messages := ["NAV-EOE"], ops := [] }] = some s ∧
    s.writer.root.file 490902 = some [] ∧ s.writer.root.sidecar 490902 = none := by
  have hrun : (run step (init "BASE")
      [.start { messages := ["NAV-EOE"], ops := [] }, .call (.noteUtc 0 1767247200),
        .goneOpening (.handle 1 0 LogDaemon.eoeFrame) 0,
        .start { messages := ["NAV-EOE"], ops := [] }]).map (fun s =>
      (s.writer.root.file 490902, s.writer.root.sidecar 490902)) = some (some [], none) := by
    decide +kernel
  obtain ⟨s, hs, heq⟩ := Option.map_eq_some_iff.1 hrun
  exact ⟨s, hs, Prod.mk.inj heq⟩

/-- The mark is lost with the only frame of the hour : a file that is empty is not gone on with. -/
theorem mark_lost : ∃ s, run step (init "BASE") [.start { messages := ["NAV-EOE"], ops := [] },
      .call (.noteUtc 0 1767243600), .call (.handle 1 0 LogDaemon.eoeFrame), .patch 490901 true,
      .advance 0, .advance 0, .advance 0, .gone 0,
      .start { messages := ["NAV-EOE"], ops := [] }, .call (.noteUtc 5 1767243605),
      .call (.handle 6 0 LogDaemon.eoeFrame)] = some s ∧
    (s.writer.root.sidecar 490901).map Sidecar.keep = some false := by
  refine Option.map_eq_some_iff.1 (?_ : Option.map (fun s : LogMachine =>
    (s.writer.root.sidecar 490901).map Sidecar.keep) _ = some (some false))
  decide +kernel

end LogMachine

end Mtrtk
