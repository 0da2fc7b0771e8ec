import Mathlib.Data.List.Dedup
import Mathlib.Data.List.Forall2
import Mtrtk.FetchChunks
import Mtrtk.FrameResync
import Mtrtk.LogOrder

/-!
# Splicing raw logs

`rinex/splice.py` : `splice_window` writes the hourly logs that overlap a window, and those of the
hours that lead to it, one after the other to a `.part` file, which then takes the name of the
destination. It does so next to the logger, which appends to the logs and opens new ones, and next
to the retention, which deletes them.

`Splice.step` has its reads and writes and theirs in any order. What it makes is a snapshot of each
log, in order (`splice_window_snapshot`). Of hours that are closed it is what the logger has filed
under them, and a framer gets those frames out of it (`splice_frames`).

`dest.parent.mkdir` and the texts of the errors are left out.
-/

namespace Mtrtk

/-! ## The logs of a window -/

/-- What `splice_window` raises. `overflow` is a time that is no `datetime`, `os` an error of the
destination. -/
inductive SpliceFault
  | overflow
  | emptyWindow
  | negativeLead
  | noData
  | mixedStations
  | disappeared (path : String)
  | cannotRead (path : String)
  | os
  deriving DecidableEq

/-- One of the station's logs. -/
def ofStation (station : Option String) (lf : RawLogFile) : Bool :=
  station.all fun id => lf.stationId = id

/-- The files from the hours on that lead to the window. -/
def windowFiles (found : List FoundFile) (start stop leadHours : ℤ) :
    Except PyError (List RawLogFile) := do
  let lead ← addDelta start (-(leadHours * hourUs))
  filesForWindow found lead stop

/-- The logs that `splice_window` goes through. Every one has its `hour_end` by the time that is
asked for again. -/
def spliceFiles (found : List FoundFile) (start stop : AwareTime) (leadHours : ℤ)
    (station : Option String) : Except SpliceFault (List RawLogFile) :=
  match start.astimezone, stop.astimezone with
  | .ok start, .ok stop =>
    if start ≥ stop then .error .emptyWindow
    else if leadHours < 0 then .error .negativeLead
    else
      match windowFiles found start stop leadHours with
      | .error _ => .error .overflow
      | .ok files =>
        let files := files.filter (ofStation station)
        if ¬files.any (overlaps start stop) then .error .noData
        else if (files.map fun lf => lf.stationId).dedup.length > 1 then .error .mixedStations
        else .ok files
  | _, _ => .error .overflow

/-! ## The splice -/

/-- `CHUNK`. -/
def spliceChunk : ℕ := 2 ^ 20

/-- Where it is. `reading` has the log at a place : `data` is the file that was opened, `linked`
says whether it still has its name. -/
inductive SplicePc
  | starting (files : List RawLogFile)
  | opening (todo : List RawLogFile)
  | reading (lf : RawLogFile) (linked : Bool) (data : List UInt8) (pos : ℕ)
      (todo : List RawLogFile)
  | done
  | failed (fault : SpliceFault) (unlinked : Bool)
  | gone
  deriving DecidableEq

/-- The logs by their paths, the destination, and the `.part` file. -/
structure Splice where
  file : String → Option (List UInt8)
  dest : Option (List UInt8) := none
  part : Option (List UInt8) := none
  pc : SplicePc

/-- What can come next. The first three are not the splice's. -/
inductive SpliceEvent
  | appended (path : String) (bytes : List UInt8)
  | deleted (path : String)
  | killed
  | begin
  | opens
  | read
  | replace
  | fail (fault : SpliceFault) (unlinked : Bool)
  deriving DecidableEq

namespace Splice

/-- What a step that fails raises. -/
def raises : SplicePc → SpliceFault → Bool
  | .starting _, .os => true
  | .opening (lf :: _), .disappeared path => path = lf.path
  | .opening [], .os => true
  | .reading lf _ _ _ _, .cannotRead path => path = lf.path
  | .reading _ _ _ _ _, .os => true
  | _, _ => false

/-- An open file that still has its name grows with it. -/
def SplicePc.appended (path : String) (bytes : List UInt8) : SplicePc → SplicePc
  | .reading lf linked data pos todo =>
    .reading lf linked (if linked ∧ lf.path = path then data ++ bytes else data) pos todo
  | pc => pc

/-- An open file goes on without its name. -/
def SplicePc.deleted (path : String) : SplicePc → SplicePc
  | .reading lf linked data pos todo => .reading lf (linked && lf.path ≠ path) data pos todo
  | pc => pc

/-- The state after the event. -/
def step (s : Splice) : SpliceEvent → Option Splice
  | .appended path bytes =>
    some { s with
      file := Function.update s.file path (some ((s.file path).getD [] ++ bytes))
      pc := SplicePc.appended path bytes s.pc }
  | .deleted path =>
    some { s with file := Function.update s.file path none, pc := SplicePc.deleted path s.pc }
  | .killed =>
    match s.pc with
    | .starting _ | .opening _ | .reading .. => some { s with pc := .gone }
    | _ => none
  | .begin =>
    match s.pc with
    | .starting files => some { s with part := some [], pc := .opening files }
    | _ => none
  | .opens =>
    match s.pc with
    | .opening (lf :: todo) =>
      (s.file lf.path).map fun data => { s with pc := .reading lf true data 0 todo }
    | _ => none
  | .read =>
    match s.pc with
    | .reading lf linked data pos todo =>
      let chunk := (data.drop pos).take spliceChunk
      if chunk = [] then some { s with pc := .opening todo }
      else
        some { s with
          part := s.part.map (· ++ chunk)
          pc := .reading lf linked data (pos + chunk.length) todo }
    | _ => none
  | .replace =>
    match s.pc with
    | .opening [] => some { s with dest := s.part, part := none, pc := .done }
    | _ => none
  | .fail fault unlinked =>
    if raises s.pc fault then
      some { s with part := if unlinked then none else s.part, pc := .failed fault unlinked }
    else none

/-! ## Snapshots -/

variable {s₀ s s' : Splice} {es : List SpliceEvent} {files done todo : List RawLogFile}

/-- The log was so at a moment of the run. -/
def Was (s₀ : Splice) (es : List SpliceEvent) (lf : RawLogFile) (content : List UInt8) : Prop :=
  ∃ before t, before <+: es ∧ run step s₀ before = some t ∧ t.file lf.path = some content

theorem Was.mono {lf : RawLogFile} {content : List UInt8} (h : Was s₀ es lf content)
    (e : SpliceEvent) : Was s₀ (es ++ [e]) lf content := by
  obtain ⟨before, t, hbefore, ht⟩ := h
  exact ⟨before, t, hbefore.trans (List.prefix_append ..), ht⟩

theorem was_now {lf : RawLogFile} {content : List UInt8} (hrun : run step s₀ es = some s)
    (h : s.file lf.path = some content) : Was s₀ es lf content :=
  ⟨es, s, List.prefix_refl es, hrun, h⟩

/-- The logs that are through, each as it was at a moment. -/
def Copied (s₀ : Splice) (es : List SpliceEvent) (done : List RawLogFile) (out : List UInt8) :
    Prop :=
  ∃ pieces, List.Forall₂ (Was s₀ es) done pieces ∧ out = pieces.flatten

theorem Copied.mono {out : List UInt8} (h : Copied s₀ es done out) (e : SpliceEvent) :
    Copied s₀ (es ++ [e]) done out := by
  obtain ⟨pieces, hpieces, rfl⟩ := h
  exact ⟨pieces, hpieces.imp fun _ _ hwas => hwas.mono e, rfl⟩

theorem Copied.snoc {out content : List UInt8} {lf : RawLogFile} (h : Copied s₀ es done out)
    (hwas : Was s₀ es lf content) : Copied s₀ es (done ++ [lf]) (out ++ content) := by
  obtain ⟨pieces, hpieces, rfl⟩ := h
  exact ⟨pieces ++ [content], List.rel_append hpieces (.cons hwas .nil), by simp⟩

/-- What holds at each place. -/
def At (s₀ : Splice) (files : List RawLogFile) (es : List SpliceEvent) (s : Splice) : Prop :=
  match s.pc with
  | .starting fs => s.dest = s₀.dest ∧ fs = files
  | .opening todo => s.dest = s₀.dest ∧ ∃ done out, files = done ++ todo ∧
      s.part = some out ∧ Copied s₀ es done out
  | .reading lf linked data pos todo => s.dest = s₀.dest ∧ ∃ done out, files = done ++ lf :: todo ∧
      s.part = some (out ++ data.take pos) ∧ pos ≤ data.length ∧ Copied s₀ es done out ∧
      Was s₀ es lf data ∧ (linked = true → s.file lf.path = some data)
  | .done => ∃ out, s.dest = some out ∧ Copied s₀ es files out
  | .failed _ unlinked => s.dest = s₀.dest ∧ (unlinked = true → s.part = none)
  | .gone => s.dest = s₀.dest

/-- The other files change, and the one that is open with them. -/
theorem At.appended {path : String} {bytes : List UInt8} (hrun : run step s₀ es = some s)
    (h : At s₀ files es s) (hstep : s.step (.appended path bytes) = some s') :
    At s₀ files (es ++ [.appended path bytes]) s' := by
  have hrun' : run step s₀ (es ++ [.appended path bytes]) = some s' := by
    rw [run_append, hrun]
    simp only [Option.bind_some, run, hstep]
  obtain rfl := Option.some.inj hstep
  unfold At at h ⊢
  dsimp only
  rcases hpc : s.pc with fs | todo | ⟨lf, linked, data, pos, todo⟩ | _ | ⟨fault, unlinked⟩ | _ <;>
    rw [hpc] at h <;> dsimp only [SplicePc.appended] at h ⊢
  · exact h
  · obtain ⟨hdest, done, out, hfiles, hpart, hcopied⟩ := h
    exact ⟨hdest, done, out, hfiles, hpart, hcopied.mono _⟩
  · obtain ⟨hdest, done, out, hfiles, hpart, hpos, hcopied, hwas, hlinked⟩ := h
    split
    · next hsame =>
      obtain ⟨hlink, rfl⟩ := hsame
      have hfile : (Function.update s.file lf.path (some ((s.file lf.path).getD [] ++ bytes)))
          lf.path = some (data ++ bytes) := by
        rw [Function.update_self, hlinked hlink, Option.getD_some]
      refine ⟨hdest, done, out, hfiles, ?_, by simp; omega, hcopied.mono _,
        was_now hrun' hfile, fun _ => hfile⟩
      rw [hpart, List.take_append_of_le_length hpos]
    · next hother =>
      refine ⟨hdest, done, out, hfiles, hpart, hpos, hcopied.mono _, hwas.mono _, fun hlink => ?_⟩
      have hne : lf.path ≠ path := fun heq => hother ⟨hlink, heq⟩
      rw [Function.update_of_ne hne]
      exact hlinked hlink
  · obtain ⟨out, hdest, hcopied⟩ := h
    exact ⟨out, hdest, hcopied.mono _⟩
  · exact h
  · exact h

theorem At.deleted {path : String} (h : At s₀ files es s)
    (hstep : s.step (.deleted path) = some s') : At s₀ files (es ++ [.deleted path]) s' := by
  obtain rfl := Option.some.inj hstep
  unfold At at h ⊢
  dsimp only
  rcases hpc : s.pc with fs | todo | ⟨lf, linked, data, pos, todo⟩ | _ | ⟨fault, unlinked⟩ | _ <;>
    rw [hpc] at h <;> dsimp only [SplicePc.deleted] at h ⊢
  · exact h
  · obtain ⟨hdest, done, out, hfiles, hpart, hcopied⟩ := h
    exact ⟨hdest, done, out, hfiles, hpart, hcopied.mono _⟩
  · obtain ⟨hdest, done, out, hfiles, hpart, hpos, hcopied, hwas, hlinked⟩ := h
    refine ⟨hdest, done, out, hfiles, hpart, hpos, hcopied.mono _, hwas.mono _, fun hlink => ?_⟩
    obtain ⟨hlink, hne⟩ := Bool.and_eq_true_iff.1 hlink
    rw [Function.update_of_ne (of_decide_eq_true hne)]
    exact hlinked hlink
  · obtain ⟨out, hdest, hcopied⟩ := h
    exact ⟨out, hdest, hcopied.mono _⟩
  · exact h
  · exact h

/-- The next log is opened. -/
theorem At.opens (hrun : run step s₀ es = some s) (h : At s₀ files es s)
    (hstep : s.step .opens = some s') : At s₀ files (es ++ [.opens]) s' := by
  rcases hpc : s.pc with fs | ⟨_ | ⟨lf, todo⟩⟩ | _ | _ | _ | _ <;>
    simp only [step, hpc, reduceCtorEq] at hstep
  obtain ⟨data, hfile, rfl⟩ := Option.map_eq_some_iff.1 hstep
  unfold At at h
  rw [hpc] at h
  obtain ⟨hdest, done, out, hfiles, hpart, hcopied⟩ := h
  refine ⟨hdest, done, out, hfiles, by simp [hpart], Nat.zero_le _, hcopied.mono _,
    (was_now hrun hfile).mono _, fun _ => hfile⟩

/-- A chunk is copied, or the log is through. -/
theorem At.read (h : At s₀ files es s) (hstep : s.step .read = some s') :
    At s₀ files (es ++ [.read]) s' := by
  rcases hpc : s.pc with fs | todo | ⟨lf, linked, data, pos, todo⟩ | _ | _ | _ <;>
    simp only [step, hpc, reduceCtorEq] at hstep
  unfold At at h
  rw [hpc] at h
  obtain ⟨hdest, done, out, hfiles, hpart, hpos, hcopied, hwas, hlinked⟩ := h
  split at hstep
  · next hend =>
    obtain rfl := Option.some.inj hstep
    have hall : data.take pos = data := by
      refine List.take_of_length_le ?_
      rcases List.take_eq_nil_iff.1 hend with hzero | hnil
      · simp [spliceChunk] at hzero
      · exact List.drop_eq_nil_iff.1 hnil
    refine ⟨hdest, done ++ [lf], out ++ data, by simp [hfiles], by rw [hpart, hall],
      (hcopied.mono _).snoc (hwas.mono _)⟩
  · obtain rfl := Option.some.inj hstep
    refine ⟨hdest, done, out, hfiles, ?_, ?_, hcopied.mono _, hwas.mono _, hlinked⟩
    · have hnext : data.take (pos + ((data.drop pos).take spliceChunk).length) =
          data.take pos ++ (data.drop pos).take spliceChunk := by
        have hchunk := List.prefix_iff_eq_take.1 (List.take_prefix spliceChunk (data.drop pos))
        rw [List.take_add, ← hchunk]
      simp only [hpart, Option.map_some, hnext, List.append_assoc]
    · simp only [List.length_take, List.length_drop]
      omega

/-- Each step keeps what is at its place. -/
theorem At.step {e : SpliceEvent} (hrun : run step s₀ es = some s) (h : At s₀ files es s)
    (hstep : s.step e = some s') : At s₀ files (es ++ [e]) s' := by
  cases e with
  | appended path bytes => exact h.appended hrun hstep
  | deleted path => exact h.deleted hstep
  | opens => exact h.opens hrun hstep
  | read => exact h.read hstep
  | killed =>
    unfold At at h
    rcases hpc : s.pc <;> rw [hpc] at h <;>
      simp only [Splice.step, hpc, reduceCtorEq, Option.some.injEq] at hstep <;> subst hstep
    · exact h.1
    · exact h.1
    · exact h.1
  | begin =>
    rcases hpc : s.pc <;> simp only [Splice.step, hpc, reduceCtorEq, Option.some.injEq] at hstep
    subst hstep
    unfold At at h
    rw [hpc] at h
    obtain ⟨hdest, rfl⟩ := h
    exact ⟨hdest, [], [], rfl, rfl, [], .nil, rfl⟩
  | replace =>
    rcases hpc : s.pc with _ | ⟨_ | _⟩ | _ | _ | _ | _ <;>
      simp only [Splice.step, hpc, reduceCtorEq, Option.some.injEq] at hstep
    subst hstep
    unfold At at h
    rw [hpc] at h
    obtain ⟨-, done, out, rfl, hpart, hcopied⟩ := h
    rw [List.append_nil]
    exact ⟨out, hpart, hcopied.mono _⟩
  | fail fault unlinked =>
    simp only [Splice.step, Option.ite_none_right_eq_some, Option.some.injEq] at hstep
    obtain ⟨hraises, rfl⟩ := hstep
    refine ⟨?_, fun hunlinked => if_pos hunlinked⟩
    unfold At at h
    rcases hpc : s.pc <;> rw [hpc] at h hraises
    · exact h.1
    · exact h.1
    · exact h.1
    · simp [raises] at hraises
    · simp [raises] at hraises
    · simp [raises] at hraises

theorem at_run (hpc : s₀.pc = .starting files) (hrun : run step s₀ es = some s) :
    At s₀ files es s := by
  induction es using List.reverseRecOn generalizing s with
  | nil =>
    obtain rfl := Option.some.inj hrun
    unfold At
    rw [hpc]
    exact ⟨rfl, rfl⟩
  | append_singleton es e ih =>
    rw [run_append] at hrun
    obtain ⟨t, ht, hlast⟩ := Option.bind_eq_some_iff.1 hrun
    have hstep : t.step e = some s := by simpa [run] using hlast
    exact (ih ht).step ht hstep

end Splice

/-! ## What is spliced -/

section Window

variable {found : List FoundFile} {start stop : AwareTime} {leadHours : ℤ}
  {station : Option String} {files : List RawLogFile}

theorem eq_of_windowFiles {start stop : ℤ}
    (h : windowFiles found start stop leadHours = .ok files) :
    files = (listLogs found).filter (overlaps (start - leadHours * hourUs) stop) := by
  simp only [windowFiles, bind, Except.bind] at h
  split at h
  · cases h
  next lead hlead =>
  obtain ⟨-, rfl⟩ := addDelta_eq_ok.1 hlead
  exact eq_of_overlapping h

/-- The logs are those of one station that overlap the window or lead to it, by their hours, and
not of the hours before alone. -/
theorem spliceFiles_ok (h : spliceFiles found start stop leadHours station = .ok files) :
    start.utc < stop.utc ∧ 0 ≤ leadHours ∧
      files = ((listLogs found).filter
        (overlaps (start.utc - leadHours * hourUs) stop.utc)).filter (ofStation station) ∧
      (∃ lf ∈ files, overlaps start.utc stop.utc lf = true) ∧
      (∀ lf ∈ files, ∀ lf' ∈ files, lf.stationId = lf'.stationId) ∧
      files.Pairwise fun a b => a.hourUtc ≤ b.hourUtc := by
  rw [spliceFiles] at h
  split at h
  swap
  · cases h
  next first last hfirst hlast =>
  obtain rfl : start.utc = first := (addDelta_eq_ok.1 hfirst).2
  obtain rfl : stop.utc = last := (addDelta_eq_ok.1 hlast).2
  split at h
  · cases h
  next hwindow =>
  split at h
  · cases h
  next hlead =>
  split at h
  · cases h
  next window hfound =>
  obtain rfl := eq_of_windowFiles hfound
  dsimp only at h
  split at h
  · cases h
  next hany =>
  split at h
  · cases h
  next hstations =>
  obtain rfl := Except.ok.inj h
  refine ⟨not_le.1 hwindow, not_lt.1 hlead, rfl, ?_, fun lf hlf lf' hlf' => ?_, ?_⟩
  · simpa only [not_not, List.any_eq_true] using hany
  · have hone : ∀ {ids : List String}, ids.length ≤ 1 → ∀ a ∈ ids, ∀ b ∈ ids, a = b := by
      intro ids hlen a ha b hb
      rcases ids with _ | ⟨c, _ | ⟨d, ids⟩⟩
      · cases ha
      · rw [List.mem_singleton.1 ha, List.mem_singleton.1 hb]
      · simp at hlen
    refine hone (not_lt.1 hstations) _ ?_ _ ?_
    · exact List.mem_dedup.2 (List.mem_map_of_mem hlf)
    · exact List.mem_dedup.2 (List.mem_map_of_mem hlf')
  · exact ((Retention.pairwise_listLogs found).filter _).filter _

open Splice in
/-- However the reads and writes of the splice fall between those of the logger and the retention,
and whatever fails : the destination is as it was or, where the splice has returned, it is the logs
of the window one after the other, each as it was at one moment of the run. A splice that raises
leaves no `.part` file, unless it cannot be removed. -/
theorem splice_window_snapshot {s₀ s : Splice} {es : List SpliceEvent}
    (hfiles : spliceFiles found start stop leadHours station = .ok files)
    (hpc : s₀.pc = .starting files) (hrun : run step s₀ es = some s) :
    (s.pc ≠ .done → s.dest = s₀.dest) ∧
    (∀ fault, s.pc = .failed fault true → s.part = none) ∧
    (s.pc = .done → ∃ pieces, s.dest = some pieces.flatten ∧
      List.Forall₂ (Was s₀ es) files pieces) ∧
    (∀ lf, lf ∈ files ↔ lf ∈ listLogs found ∧ ofStation station lf = true ∧
      overlaps (start.utc - leadHours * hourUs) stop.utc lf = true) ∧
    files.Pairwise fun a b => a.hourUtc ≤ b.hourUtc := by
  have hat := at_run hpc hrun
  obtain ⟨-, -, rfl, -, -, hsorted⟩ := spliceFiles_ok hfiles
  refine ⟨fun hdone => ?_, fun fault hfailed => ?_, fun hdone => ?_, fun lf => ?_, hsorted⟩
  · unfold At at hat
    rcases hpc : s.pc <;> rw [hpc] at hat
    · exact hat.1
    · exact hat.1
    · exact hat.1
    · exact absurd hpc hdone
    · exact hat.1
    · exact hat
  · unfold At at hat
    rw [hfailed] at hat
    exact hat.2 rfl
  · unfold At at hat
    rw [hdone] at hat
    obtain ⟨out, hdest, pieces, hpieces, rfl⟩ := hat
    exact ⟨pieces, hdest, hpieces⟩
  · simp only [List.mem_filter]
    tauto

end Window

/-- Two hours of a station, and one of another. -/
def twoHours : List FoundFile :=
  [⟨"B", some ("BASE", 1), some 1, none⟩, ⟨"A", some ("BASE", 0), some 2, none⟩,
    ⟨"X", some ("ROVR", 1), some 1, none⟩]

theorem isClock_hours {n : ℕ} (h : n < 70000000) :
    0 ≤ unixEpochUs + n * hourUs ∧ unixEpochUs + n * hourUs < endOfTime := by
  have hepoch : unixEpochUs = 719162 * 86400000000 := by decide
  have hend : endOfTime = 3652059 * 86400000000 := by decide
  simp only [hourUs]
  omega

theorem isOffset_zero : -dayUs < 0 ∧ 0 < dayUs := by decide

/-- A time in UTC, that many hours after 1970 began. -/
def hoursIn (n : ℕ) (h : n < 70000000 := by decide) : AwareTime :=
  ⟨unixEpochUs + n * hourUs, 0, isClock_hours h, isOffset_zero⟩

/-- The second hour grows while it is read. -/
def grownSplice : List SpliceEvent :=
  [.begin, .opens, .read, .deleted "A", .read, .appended "B" [8], .opens, .read, .appended "B" [9],
    .read, .read, .appended "B" [10], .replace]

open Splice in
theorem splice_window_snapshot_grown : ∃ files s, ∃ pieces : List (List UInt8),
    spliceFiles twoHours (hoursIn 1) (hoursIn 2) 1 (some "BASE") = .ok files ∧
    run step
      { file := fun path =>
          if path = "A" then some [1, 2] else if path = "B" then some [7] else none
        pc := .starting files } grownSplice = some s ∧
    s.dest = some [1, 2, 7, 8, 9] ∧ s.dest = some pieces.flatten ∧
    files.map (fun lf => lf.path) = ["A", "B"] ∧ files.length = pieces.length := by
  have hfiles : spliceFiles twoHours (hoursIn 1) (hoursIn 2) 1 (some "BASE") =
      .ok ((listLogs twoHours).filter (ofStation (some "BASE"))) := by
    decide +kernel
  have hrun : (run step
      { file := fun path =>
          if path = "A" then some [1, 2] else if path = "B" then some [7] else none
        pc := .starting ((listLogs twoHours).filter (ofStation (some "BASE"))) }
      grownSplice).map (fun s => (decide (s.pc = .done), s.dest)) =
      some (true, some [1, 2, 7, 8, 9]) := by
    decide +kernel
  obtain ⟨s, hs, heq⟩ := Option.map_eq_some_iff.1 hrun
  obtain ⟨hdone, hdest⟩ := Prod.mk.inj heq
  obtain ⟨-, -, hspliced, -, -⟩ := splice_window_snapshot hfiles rfl hs
  obtain ⟨pieces, hpieces, hall⟩ := hspliced (of_decide_eq_true hdone)
  exact ⟨_, s, pieces, hfiles, hs, hdest, hpieces, by decide +kernel, hall.length_eq⟩

/-! ## What the logger has filed -/

/-- The frame as the framer handed it out. -/
def LogFrame.frame (f : LogFrame) : Frame := ⟨f.proto, f.raw⟩

theorem rawOf_eq_flatten (frames : List LogFrame) :
    rawOf frames = ((frames.map LogFrame.frame).map Frame.raw).flatten := by
  rw [rawOf, List.flatMap_def, List.map_map]
  rfl

/-- The directory of a logger, with these hours in it. -/
def RawLogWriter.directory (w : RawLogWriter) (path : ℤ → String) (hours : List ℤ) :
    List FoundFile :=
  hours.map fun hour =>
    { path := path hour, parsed := some (w.stationId, hour)
      size := (w.root.file hour).map List.length, sidecar := w.root.sidecar hour }

/-- The event is not about the log. -/
def SpliceEvent.spares (lf : RawLogFile) : SpliceEvent → Prop
  | .appended path _ | .deleted path => path ≠ lf.path
  | _ => True

namespace Splice

variable {s₀ s s' : Splice} {es : List SpliceEvent} {lf : RawLogFile}

theorem file_step {e : SpliceEvent} (h : e.spares lf) (hstep : s.step e = some s') :
    s'.file lf.path = s.file lf.path := by
  cases e with
  | appended path bytes | deleted path =>
    obtain rfl := Option.some.inj hstep
    exact Function.update_of_ne (Ne.symm h) ..
  | killed | begin | read | replace =>
    simp only [step] at hstep
    split at hstep
    all_goals first | (obtain rfl := Option.some.inj hstep; rfl) | cases hstep | skip
    all_goals
      split at hstep <;> (obtain rfl := Option.some.inj hstep; rfl)
  | opens =>
    rcases hpc : s.pc with fs | ⟨_ | ⟨lf', todo⟩⟩ | _ | _ | _ | _ <;>
      simp only [step, hpc, reduceCtorEq] at hstep
    obtain ⟨data, -, rfl⟩ := Option.map_eq_some_iff.1 hstep
    rfl
  | fail fault unlinked =>
    simp only [step, Option.ite_none_right_eq_some, Option.some.injEq] at hstep
    obtain ⟨-, rfl⟩ := hstep
    rfl

theorem file_run (hrun : run step s₀ es = some s) (hes : ∀ e ∈ es, e.spares lf) :
    s.file lf.path = s₀.file lf.path := by
  induction es generalizing s₀ with
  | nil =>
    obtain rfl := Option.some.inj hrun
    rfl
  | cons e es ih =>
    obtain ⟨t, hstep, hrest⟩ := Option.bind_eq_some_iff.1 hrun
    obtain ⟨he, hes⟩ := List.forall_mem_cons.1 hes
    exact (ih hrest hes).trans (file_step he hstep)

/-- A log that nothing is done to was what it is at first. -/
theorem Was.eq {content : List UInt8} (h : Was s₀ es lf content) (hes : ∀ e ∈ es, e.spares lf) :
    s₀.file lf.path = some content := by
  obtain ⟨before, t, hbefore, hrun, hfile⟩ := h
  rw [← file_run hrun fun e he => hes e (hbefore.subset he), hfile]

end Splice

namespace RawLogWriter

variable {w : RawLogWriter}

/-- What a run of calls has filed was filed before, or is among the frames it logs. -/
theorem filed_ops (h : w.Closed) (l : Life) {f : LogFrame}
    (hf : f ∈ (l.ops.foldl apply (w.restarted l)).filed.map Prod.snd) :
    f ∈ w.filed.map Prod.snd ∨ f ∈ l.logged := by
  obtain ⟨-, horder⟩ := foldl_apply (h.restarted l).1 (.pending rfl (Nat.zero_le _)) l.ops
  have hmem : f ∈ (l.ops.foldl apply (w.restarted l)).order := List.mem_append_left _ hf
  rw [horder] at hmem
  simpa [order, restarted, replacement, Life.logged] using hmem

theorem filed_lives {lives : List Life} (h : w.Closed) {f : LogFrame}
    (hf : f ∈ (lives.foldl live w).filed.map Prod.snd) :
    f ∈ w.filed.map Prod.snd ∨ ∃ l ∈ lives, f ∈ l.logged := by
  induction lives generalizing w with
  | nil => exact .inl hf
  | cons l lives ih =>
    rcases ih (h.live l).1 hf with hf | ⟨l', hl', hf⟩
    · rw [live, close, filed_closeCurrent] at hf
      exact (filed_ops h l hf).imp_right fun hf => ⟨l, List.mem_cons_self, hf⟩
    · exact .inr ⟨l', List.mem_cons_of_mem _ hl', hf⟩

/-- A logger that runs, after any number of others. -/
def running (stationId : String) (lives : List Life) (l : Life) : RawLogWriter :=
  l.ops.foldl apply ((lives.foldl live (empty stationId)).restarted l)

theorem filed_running {stationId : String} {lives : List Life} {l : Life} {hour : ℤ}
    {f : LogFrame} (hf : f ∈ (running stationId lives l).framesOf hour) :
    ∃ l' ∈ lives ++ [l], f ∈ l'.logged := by
  have hclosed := ((closed_empty stationId).lives lives).1
  obtain ⟨x, hx, rfl⟩ := List.mem_map.1 hf
  rcases filed_ops hclosed l (List.mem_map_of_mem (List.mem_filter.1 hx).1) with hf | hf
  · rcases filed_lives (closed_empty stationId) hf with hf | ⟨l', hl', hf⟩
    · cases hf
    · exact ⟨l', List.mem_append_left _ hl', hf⟩
  · exact ⟨l, by simp, hf⟩

theorem content_running (stationId : String) (lives : List Life) (l : Life) (hour : ℤ) :
    (running stationId lives l).root.content hour =
      rawOf ((running stationId lives l).framesOf hour) :=
  ((((closed_empty stationId).lives lives).1.restarted l).2 hour |>.foldl l.ops).sound.content

end RawLogWriter

open Splice RawLogWriter in
/-- Of hours that are closed, the splice is what loggers have filed under them, hour by hour, and a
framer gets those frames out of it, however it is cut. -/
theorem splice_frames (stationId : String) (lives : List Life) (l : Life) (path : ℤ → String)
    (hours : List ℤ) {start stop : AwareTime} {leadHours : ℤ} {station : Option String}
    {files : List RawLogFile} {s₀ s : Splice} {es : List SpliceEvent}
    (hframes : ∀ l' ∈ lives ++ [l], ∀ f ∈ l'.logged, f.frame.WellFormed)
    (hfiles : spliceFiles ((running stationId lives l).directory path hours) start stop leadHours
      station = .ok files)
    (hfile : ∀ lf ∈ files, s₀.file lf.path = (running stationId lives l).root.file lf.hourUtc)
    (hpc : s₀.pc = .starting files) (hrun : run step s₀ es = some s)
    (hes : ∀ lf ∈ files, ∀ e ∈ es, e.spares lf) (hdone : s.pc = .done) :
    s.dest = some (rawOf (files.flatMap fun lf =>
      (running stationId lives l).framesOf lf.hourUtc)) ∧
    ∀ (M : ℕ) (ps : List (List UInt8)), some ps.flatten = s.dest → (Framer.fresh M).NoOverflow ps →
      ((Framer.fresh M).feedAll ps).1 = (files.flatMap fun lf =>
        (running stationId lives l).framesOf lf.hourUtc).map LogFrame.frame := by
  set w := running stationId lives l with hw
  obtain ⟨-, -, hspliced, hmem, -⟩ := splice_window_snapshot hfiles hpc hrun
  obtain ⟨pieces, hdest, hpieces⟩ := hspliced hdone
  have hpiece : ∀ lf ∈ files, ∀ content, Was s₀ es lf content →
      content = rawOf (w.framesOf lf.hourUtc) := fun lf hlf content hwas => by
    have hcontent := hwas.eq (hes lf hlf)
    rw [hfile lf hlf] at hcontent
    rw [hw, ← content_running, ← hw, Root.content, hcontent, Option.getD_some]
  have hall : pieces.flatten = rawOf (files.flatMap fun lf => w.framesOf lf.hourUtc) := by
    clear hdest hmem hspliced hes hpc hfiles hfile
    induction hpieces with
    | nil => rfl
    | cons hwas _ ih =>
      obtain ⟨hhead, htail⟩ := List.forall_mem_cons.1 hpiece
      rw [List.flatten_cons, List.flatMap_cons, rawOf_append, ih htail, ← hhead _ hwas]
  rw [hdest, hall]
  refine ⟨rfl, fun M ps hps hfits => ?_⟩
  refine Framer.feedAll_frames (g := []) _ hfits (by simp) (fun f hf => ?_) ?_
  · obtain ⟨logged, hlogged, rfl⟩ := List.mem_map.1 hf
    obtain ⟨lf, -, hfiled⟩ := List.mem_flatMap.1 hlogged
    obtain ⟨l', hl', hl⟩ := filed_running hfiled
    exact hframes l' hl' logged hl
  · rw [Option.some.inj hps, rawOf_eq_flatten, List.nil_append]

/-- A third logger, on the next hour. -/
def nextHourLife : Life where
  messages := ["NAV-EOE"]
  ops := [.noteUtc 3600 1767247200, .handle 3600 0 LogDaemon.eoeFrame]

theorem wellFormed_eoeFrame : LogDaemon.eoeFrame.frame.WellFormed :=
  ⟨⟨0x01, 0x61, 0x04, 0x00, [0x00, 0x00, 0x00, 0x00], rfl, by decide, by decide⟩,
    fun h => by simp [LogFrame.frame, LogDaemon.eoeFrame] at h⟩

open Splice RawLogWriter in
/-- The hour that two loggers have filed frames under, while the third one is on the next. -/
theorem splice_frames_resumed : ∃ files, ∃ s₀ s : Splice,
    spliceFiles ((running "BASE" resumedHour nextHourLife).directory
      (fun hour => if hour = 490901 then "A" else "B") [490901, 490902])
      (hoursIn 490901) (hoursIn 490902) 0 none = .ok files ∧
    run step s₀ [.begin, .opens, .read, .appended "B" [0xB5], .read, .replace] = some s ∧
    s.dest = some (rawOf (List.replicate 3 LogDaemon.eoeFrame)) ∧
    ∀ (M : ℕ) (ps : List (List UInt8)), some ps.flatten = s.dest → (Framer.fresh M).NoOverflow ps →
      ((Framer.fresh M).feedAll ps).1 = List.replicate 3 LogDaemon.eoeFrame.frame := by
  set w := running "BASE" resumedHour nextHourLife with hw
  set found := w.directory (fun hour => if hour = 490901 then "A" else "B") [490901, 490902]
    with hfound
  have hfiles : spliceFiles found (hoursIn 490901) (hoursIn 490902) 0 none =
      .ok ((listLogs found).take 1) := by
    decide +kernel
  have hlog : ((listLogs found).take 1).map (fun lf => (lf.path, lf.hourUtc)) =
      [("A", 490901)] := by
    decide +kernel
  have hlf : ∀ lf ∈ (listLogs found).take 1, lf.path = "A" ∧ lf.hourUtc = 490901 :=
    fun lf hlf => by
      have hmem := List.mem_map_of_mem (f := fun lf : RawLogFile => (lf.path, lf.hourUtc)) hlf
      rw [hlog, List.mem_singleton] at hmem
      exact Prod.mk.inj hmem
  have hframes : ((listLogs found).take 1).flatMap (fun lf => w.framesOf lf.hourUtc) =
      List.replicate 3 LogDaemon.eoeFrame := by
    decide +kernel
  have hrun : (run step { file := fun _ => w.root.file 490901
                          pc := .starting ((listLogs found).take 1) }
      [.begin, .opens, .read, .appended "B" [0xB5], .read, .replace]).map
      (fun s => decide (s.pc = .done)) = some true := by
    decide +kernel
  obtain ⟨s, hs, hdone⟩ := Option.map_eq_some_iff.1 hrun
  have hlogged : ∀ l' ∈ resumedHour ++ [nextHourLife], ∀ f ∈ l'.logged, f.frame.WellFormed := by
    have hall : ∀ l' ∈ resumedHour ++ [nextHourLife], ∀ f ∈ l'.logged, f = LogDaemon.eoeFrame := by
      decide +kernel
    exact fun l' hl' f hf => hall l' hl' f hf ▸ wellFormed_eoeFrame
  obtain ⟨hdest, hfed⟩ := splice_frames "BASE" resumedHour nextHourLife _ _ hlogged hfiles
    (fun lf h => by rw [(hlf lf h).2]) rfl hs
    (fun lf h e he => by
      simp only [List.mem_cons, List.not_mem_nil, or_false] at he
      rcases he with rfl | rfl | rfl | rfl | rfl | rfl <;>
        simp [SpliceEvent.spares, (hlf lf h).1])
    (of_decide_eq_true hdone)
  rw [hframes] at hdest hfed
  exact ⟨_, _, s, hfiles, hs, hdest, hfed⟩

end Mtrtk
