import Mathlib.Data.List.Flatten
import Mathlib.Data.List.Nodup
import Mtrtk.PyNumber
import Mtrtk.Retention
import Mtrtk.Tiles

/-!
# Windows of hourly logs

`ppk/pipeline.py` and `rawlog/index.py` : a window of a remote base is asked for in pieces of at
most `REMOTE_CHUNK` (`fetch_chunks`), and each is answered with the hourly files that overlap it
(`files_for_window`).

The pieces follow one another without a gap (`Tiles`), so a listing in order falls into them as it
falls into the window. A file overlaps a piece that begins on a whole hour just when its hour begins
in it, which is why no hour is answered twice.

A `datetime` ends with the year 9999. `fetch_chunks` adds a whole `REMOTE_CHUNK` to the beginning of
every piece, so that it raises where the last piece would end later if it were a whole one
(`fetchChunks_last_day`), and nowhere else but for a beginning that has no time in UTC.
-/

namespace Mtrtk

/-! ## The requests -/

/-- An hour, in microseconds. -/
def hourUs : ℤ := 3600 * 1000000

/-- `REMOTE_CHUNK`. -/
def remoteChunk : ℤ := 48 * hourUs

/-- The first of January 10000, the first day that is no `datetime`. -/
def endOfTime : ℤ := daysBeforeYear 10000 * dayUs

/-- The first of January 1970, that the hours of the logs are counted from. -/
def unixEpochUs : ℤ := dayNumber 1970 1 1 * dayUs

/-- A `datetime` with a time zone : what its clock reads and how far that is ahead of UTC, in
microseconds. -/
structure AwareTime where
  clock : ℤ
  utcOffset : ℤ
  isClock : 0 ≤ clock ∧ clock < endOfTime := by decide
  isOffset : -dayUs < utcOffset ∧ utcOffset < dayUs := by decide
  deriving DecidableEq

/-- The instant. In UTC it may be one of the year 0 or 10000. -/
def AwareTime.utc (t : AwareTime) : ℤ := t.clock - t.utcOffset

/-- `astimezone(UTC)`. -/
def AwareTime.astimezone (t : AwareTime) : Except PyError ℤ := addDelta t.clock (-t.utcOffset)

/-- `replace(minute=0, second=0, microsecond=0)`. -/
def floorHour (t : ℤ) : ℤ := t - t % hourUs

theorem map_eq_ok {ε α β : Type*} {f : α → β} {x : Except ε α} {b : β} :
    x.map f = .ok b ↔ ∃ a, x = .ok a ∧ f a = b := by
  cases x <;> simp [Except.map]

theorem addDelta_eq_ok {t delta t' : ℤ} :
    addDelta t delta = .ok t' ↔ (0 ≤ t + delta ∧ t + delta < endOfTime) ∧ t + delta = t' := by
  unfold addDelta endOfTime
  split
  next hrange => simp [hrange]
  next hrange => simp [hrange]

theorem addDelta_eq_error {t delta : ℤ} (h : ¬(0 ≤ t + delta ∧ t + delta < endOfTime)) :
    addDelta t delta = .error .overflow :=
  if_neg h

/-- The loop of `fetch_chunks`. -/
def chunksFrom (t stop : ℤ) : Except PyError (List (ℤ × ℤ)) :=
  if _h : t < stop then
    match _hlater : addDelta t remoteChunk with
    | .ok later => (chunksFrom (min later stop) stop).map ((t, min later stop) :: ·)
    | .error e => .error e
  else .ok []
termination_by (stop - t).toNat
decreasing_by
  obtain ⟨-, rfl⟩ := addDelta_eq_ok.1 _hlater
  simp only [remoteChunk, hourUs]
  omega

/-- `fetch_chunks`. -/
def fetchChunks (start stop : AwareTime) : Except PyError (List (ℤ × ℤ)) := do
  let t ← start.astimezone
  chunksFrom (floorHour t) stop.utc

/-- When the hour of a log begins. -/
def RawLogFile.startUs (lf : RawLogFile) : ℤ := unixEpochUs + lf.hourUtc * hourUs

/-- `hour_end`, as a `datetime`. -/
def RawLogFile.endUs (lf : RawLogFile) : Except PyError ℤ := addDelta lf.startUs hourUs

/-- `lf.hour_utc < end and lf.hour_end > start` : `hour_end` is not asked for where the hour begins
too late. -/
def RawLogFile.inWindow (start stop : ℤ) (lf : RawLogFile) : Except PyError Bool :=
  if lf.startUs < stop then lf.endUs.map fun hourEnd => decide (hourEnd > start) else .ok false

/-- The files of a listing that overlap a window. -/
def overlapping (start stop : ℤ) : List RawLogFile → Except PyError (List RawLogFile)
  | [] => .ok []
  | lf :: logs => do
    let kept ← lf.inWindow start stop
    let files ← overlapping start stop logs
    return if kept then lf :: files else files

/-- `files_for_window`. -/
def filesForWindow (found : List FoundFile) (start stop : ℤ) : Except PyError (List RawLogFile) :=
  overlapping start stop (listLogs found)

/-- What `glob` finds : a path once, and no hour that is no `datetime`. -/
structure LogDirectory where
  found : List FoundFile
  once : (found.map FoundFile.path).Nodup
  hours : ∀ f ∈ found, ∀ parsed ∈ f.parsed,
    0 ≤ unixEpochUs + parsed.2 * hourUs ∧ unixEpochUs + parsed.2 * hourUs < endOfTime

variable {start stop t : ℤ}

theorem hourUs_pos : 0 < hourUs := by decide

theorem dvd_unixEpochUs : hourUs ∣ unixEpochUs := by decide

theorem dvd_endOfTime : hourUs ∣ endOfTime := by decide

theorem floorHour_le (t : ℤ) : floorHour t ≤ t :=
  sub_le_self t (Int.emod_nonneg t hourUs_pos.ne')

theorem dvd_floorHour (t : ℤ) : hourUs ∣ floorHour t := Int.dvd_self_sub_emod

theorem floorHour_nonneg (h : 0 ≤ t) : 0 ≤ floorHour t := by
  simp only [floorHour, hourUs]
  omega

/-! ## Pieces and the year 9999 -/

/-- Where the last piece from `t` on would end if it were a whole one. -/
def chunkedEnd (t stop : ℤ) : ℤ := t + (stop - t + remoteChunk - 1) / remoteChunk * remoteChunk

theorem remoteChunk_pos : 0 < remoteChunk := by decide

/-- A piece later it is the same end. -/
theorem chunkedEnd_add (t stop : ℤ) : chunkedEnd (t + remoteChunk) stop = chunkedEnd t stop := by
  have hquot : (stop - t + remoteChunk - 1) / remoteChunk =
      (stop - (t + remoteChunk) + remoteChunk - 1) / remoteChunk + 1 := by
    rw [← Int.add_ediv_of_dvd_right (dvd_refl remoteChunk) |>.trans
      (congrArg _ (Int.ediv_self remoteChunk_pos.ne'))]
    congr 1
    ring
  rw [chunkedEnd, chunkedEnd, hquot]
  ring

/-- The last piece is one. -/
theorem chunkedEnd_last (h : t < stop) (hlast : stop ≤ t + remoteChunk) :
    chunkedEnd t stop = t + remoteChunk := by
  have hone : (stop - t + remoteChunk - 1) / remoteChunk = 1 := by
    rw [Int.ediv_eq_iff_of_pos remoteChunk_pos]
    constructor <;> omega
  rw [chunkedEnd, hone, one_mul]

theorem le_chunkedEnd (h : t < stop) : t + remoteChunk ≤ chunkedEnd t stop := by
  have hone : 1 ≤ (stop - t + remoteChunk - 1) / remoteChunk :=
    (Int.le_ediv_iff_mul_le remoteChunk_pos).2 (by omega)
  have := Int.mul_le_mul_of_nonneg_right hone remoteChunk_pos.le
  rw [chunkedEnd]
  omega

theorem stop_le_chunkedEnd (t stop : ℤ) : stop ≤ chunkedEnd t stop := by
  have := Int.lt_ediv_add_one_mul_self (stop - t + remoteChunk - 1) remoteChunk_pos
  rw [add_mul, one_mul] at this
  rw [chunkedEnd]
  omega

theorem chunksFrom_eq_nil (h : ¬t < stop) : chunksFrom t stop = .ok [] := by
  rw [chunksFrom, dif_neg h]

/-- A piece, and those from its end on. -/
theorem chunksFrom_eq_cons (h : t < stop) (h0 : 0 ≤ t + remoteChunk)
    (hlast : t + remoteChunk < endOfTime) :
    chunksFrom t stop = (chunksFrom (min (t + remoteChunk) stop) stop).map
      ((t, min (t + remoteChunk) stop) :: ·) := by
  rw [chunksFrom, dif_pos h]
  split
  next later hlater => rw [(addDelta_eq_ok.1 hlater).2]
  next e he => rw [addDelta_eq_ok.2 ⟨⟨h0, hlast⟩, rfl⟩] at he; cases he

theorem chunksFrom_eq_error (h : t < stop) (hlast : endOfTime ≤ t + remoteChunk) :
    chunksFrom t stop = .error .overflow := by
  have herror : addDelta t remoteChunk = .error .overflow := addDelta_eq_error (by omega)
  rw [chunksFrom, dif_pos h]
  split
  next later hlater => rw [herror] at hlater; cases hlater
  next e he => rw [herror] at he; rw [Except.error.inj he]

/-- The pieces are there where the last of them may be a whole one. -/
theorem chunksFrom_spec (h0 : 0 ≤ t) :
    (chunkedEnd t stop < endOfTime → ∃ pieces, chunksFrom t stop = .ok pieces) ∧
      (t < stop → endOfTime ≤ chunkedEnd t stop → chunksFrom t stop = .error .overflow) := by
  induction hn : (stop - t).toNat using Nat.strong_induction_on generalizing t with
  | h n ih =>
    rcases lt_or_ge t stop with hlt | hge
    swap
    · exact ⟨fun _ => ⟨[], chunksFrom_eq_nil (not_lt.2 hge)⟩, fun h => absurd h (not_lt.2 hge)⟩
    rcases le_or_gt stop (t + remoteChunk) with hlast | hmore
    · rw [chunkedEnd_last hlt hlast]
      refine ⟨fun hend => ?_, fun _ hend => chunksFrom_eq_error hlt hend⟩
      have hpos := remoteChunk_pos
      rw [chunksFrom_eq_cons hlt (by omega) hend, min_eq_right hlast,
        chunksFrom_eq_nil (lt_irrefl stop)]
      exact ⟨_, rfl⟩
    · have hpos := remoteChunk_pos
      obtain ⟨hok, herror⟩ := @ih (stop - (t + remoteChunk)).toNat (by omega) (t + remoteChunk)
        (by omega) rfl
      rw [chunkedEnd_add] at hok herror
      refine ⟨fun hend => ?_, fun _ hend => ?_⟩
      · obtain ⟨pieces, hpieces⟩ := hok hend
        have hle := le_chunkedEnd hlt
        rw [chunksFrom_eq_cons hlt (by omega) (by omega), min_eq_left hmore.le, hpieces]
        exact ⟨_, rfl⟩
      · rcases lt_or_ge (t + remoteChunk) endOfTime with hin | hout
        · rw [chunksFrom_eq_cons hlt (by omega) hin, min_eq_left hmore.le, herror hmore hend]
          rfl
        · exact chunksFrom_eq_error hlt hout

/-- The pieces tile, each is short, and each begins on a whole hour if the first does. -/
theorem tiles_chunksFrom (h : start ≤ stop) {pieces : List (ℤ × ℤ)}
    (hpieces : chunksFrom start stop = .ok pieces) :
    Tiles stop start pieces ∧
      (hourUs ∣ start → ∀ piece ∈ pieces, piece.2 - piece.1 ≤ remoteChunk ∧ hourUs ∣ piece.1) := by
  fun_induction chunksFrom start stop generalizing pieces with
  | case1 t hlt later hlater ih =>
    obtain ⟨-, rfl⟩ := addDelta_eq_ok.1 hlater
    obtain ⟨rest, hrest, rfl⟩ := map_eq_ok.1 hpieces
    obtain ⟨htiles, hall⟩ := ih (min_le_right _ _) hrest
    refine ⟨.cons (lt_min (lt_add_of_pos_right t remoteChunk_pos) hlt) htiles, fun hdvd => ?_⟩
    refine List.forall_mem_cons.2 ⟨⟨by simp only; omega, hdvd⟩, ?_⟩
    rcases le_total (t + remoteChunk) stop with hle | hle
    · rw [min_eq_left hle] at hall
      exact hall (dvd_add hdvd (Dvd.intro_left 48 rfl))
    · -- the piece just before the end is the last one
      rw [min_eq_right hle, chunksFrom_eq_nil (lt_irrefl stop)] at hrest
      obtain rfl := Except.ok.inj hrest
      exact fun piece hpiece => absurd hpiece List.not_mem_nil
  | case2 => cases hpieces
  | case3 t hge =>
    obtain rfl := Except.ok.inj hpieces
    obtain rfl := le_antisymm h (not_lt.1 hge)
    exact ⟨.nil, fun _ piece hpiece => absurd hpiece List.not_mem_nil⟩

/-! ## The files of a window -/

/-- The hour of the log falls into the window, the beginning of which it may be in the midst of. -/
def overlaps (start stop : ℤ) (lf : RawLogFile) : Bool :=
  lf.startUs < stop ∧ lf.startUs + hourUs > start

theorem eq_of_inWindow {lf : RawLogFile} {kept : Bool} (h : lf.inWindow start stop = .ok kept) :
    kept = overlaps start stop lf := by
  unfold RawLogFile.inWindow at h
  split at h
  next hbefore =>
    obtain ⟨hourEnd, hend, rfl⟩ := map_eq_ok.1 h
    obtain ⟨-, rfl⟩ := addDelta_eq_ok.1 hend
    simp [overlaps, hbefore]
  next hbefore =>
    obtain rfl := Except.ok.inj h
    simp [overlaps, hbefore]

/-- What there is of a listing is the files that overlap. -/
theorem eq_of_overlapping {logs files : List RawLogFile}
    (h : overlapping start stop logs = .ok files) : files = logs.filter (overlaps start stop) := by
  induction logs generalizing files with
  | nil => exact (Except.ok.inj h).symm
  | cons lf logs ih =>
    simp only [overlapping, bind, Except.bind, pure, Except.pure] at h
    split at h
    next => cases h
    next kept hkept =>
    split at h
    next => cases h
    next rest hrest =>
    rw [List.filter_cons, ← ih hrest, ← eq_of_inWindow hkept]
    exact (Except.ok.inj h).symm

/-- It is there where the hours that begin before the end are over in the year 9999. -/
theorem exists_overlapping {logs : List RawLogFile}
    (h : ∀ lf ∈ logs, lf.startUs < stop → 0 ≤ lf.startUs ∧ lf.startUs + hourUs < endOfTime) :
    ∃ files, overlapping start stop logs = .ok files := by
  induction logs with
  | nil => exact ⟨[], rfl⟩
  | cons lf logs ih =>
    obtain ⟨hlf, hlogs⟩ := List.forall_mem_cons.1 h
    obtain ⟨files, hfiles⟩ := ih hlogs
    have hkept : ∃ kept, lf.inWindow start stop = .ok kept := by
      unfold RawLogFile.inWindow
      split
      next hbefore =>
        obtain ⟨h0, hend⟩ := hlf hbefore
        have hpos := hourUs_pos
        exact ⟨_, map_eq_ok.2 ⟨_, addDelta_eq_ok.2 ⟨⟨by omega, hend⟩, rfl⟩, rfl⟩⟩
      next => exact ⟨false, rfl⟩
    obtain ⟨kept, hkept⟩ := hkept
    rw [overlapping, hkept, hfiles]
    exact ⟨_, rfl⟩

/-- In a window that begins on a whole hour are the files whose hour begins in it. -/
theorem filter_overlaps (logs : List RawLogFile) (h : hourUs ∣ start) :
    logs.filter (overlaps start stop) = within RawLogFile.startUs logs (start, stop) := by
  refine List.filter_congr fun lf _ => ?_
  have hlog : hourUs ∣ lf.startUs := dvd_add dvd_unixEpochUs (Dvd.intro_left _ rfl)
  obtain ⟨m, hm⟩ := h
  obtain ⟨n, hn⟩ := hlog
  rw [overlaps, decide_eq_decide, hm, hn]
  simp only [hourUs]
  omega

/-- The files of a window are those of the window from the whole hour on. -/
theorem overlaps_floorHour (lf : RawLogFile) (start stop : ℤ) :
    overlaps (floorHour start) stop lf = overlaps start stop lf := by
  have hlog : hourUs ∣ lf.startUs := dvd_add dvd_unixEpochUs (Dvd.intro_left _ rfl)
  obtain ⟨n, hn⟩ := hlog
  rw [overlaps, overlaps, decide_eq_decide, hn]
  simp only [floorHour, hourUs]
  omega

theorem load_eq {found : FoundFile} {lf : RawLogFile} (h : found.load = some lf) :
    lf.path = found.path ∧ ∃ station, found.parsed = some (station, lf.hourUtc) := by
  simp only [FoundFile.load, Option.bind_eq_bind, Option.bind_eq_some_iff] at h
  obtain ⟨⟨station, hour⟩, hparsed, _, -, h⟩ := h
  split at h <;> cases h <;> exact ⟨rfl, station, hparsed⟩

theorem sublist_paths (found : List FoundFile) :
    ((found.filterMap FoundFile.load).map RawLogFile.path).Sublist (found.map FoundFile.path) := by
  induction found with
  | nil => exact .slnil
  | cons f found ih =>
    rw [List.map_cons]
    rcases h : f.load with _ | lf
    · rw [List.filterMap_cons_none h]
      exact ih.cons _
    · rw [List.filterMap_cons_some h, List.map_cons, (load_eq h).1]
      exact ih.cons_cons _

namespace LogDirectory

variable (dir : LogDirectory)

/-- A directory that has each path once gives each file once. -/
theorem nodup_listLogs : ((listLogs dir.found).map RawLogFile.path).Nodup :=
  ((List.perm_insertionSort _ _).map _).nodup_iff.2 (dir.once.sublist (sublist_paths dir.found))

theorem startUs_mem {lf : RawLogFile} (h : lf ∈ listLogs dir.found) :
    0 ≤ lf.startUs ∧ lf.startUs < endOfTime := by
  obtain ⟨f, hf, hload⟩ := List.mem_filterMap.1 ((List.mem_insertionSort _).1 h)
  obtain ⟨-, station, hparsed⟩ := load_eq hload
  exact dir.hours f hf _ hparsed

/-- A window that a piece may follow to the end of the year 9999 has its files : no hour that begins
before its end is the last one. -/
theorem filesForWindow_eq {stop' : ℤ} (hstop : stop ≤ stop') (hdvd : hourUs ∣ stop')
    (hend : stop' < endOfTime) : filesForWindow dir.found start stop =
      .ok ((listLogs dir.found).filter (overlaps start stop)) := by
  obtain ⟨files, hfiles⟩ : ∃ files, overlapping start stop (listLogs dir.found) = .ok files :=
    exists_overlapping fun lf hlf hbefore => by
      have hlog : hourUs ∣ lf.startUs := dvd_add dvd_unixEpochUs (Dvd.intro_left _ rfl)
      obtain ⟨n, hn⟩ := hlog
      obtain ⟨m, hm⟩ := hdvd
      obtain ⟨k, hk⟩ := dvd_endOfTime
      have h0 := (dir.startUs_mem hlf).1
      refine ⟨h0, ?_⟩
      simp only [hourUs] at *
      omega
  rw [filesForWindow, hfiles, eq_of_overlapping hfiles]

end LogDirectory

theorem mapM_eq_ok {ε α β : Type*} {f : α → Except ε β} {g : α → β} {l : List α}
    (h : ∀ a ∈ l, f a = .ok (g a)) : l.mapM f = .ok (l.map g) := by
  induction l with
  | nil => rfl
  | cons a l ih =>
    obtain ⟨ha, hl⟩ := List.forall_mem_cons.1 h
    rw [List.mapM_cons, ha, ih hl]
    rfl

/-! ## A window in pieces -/

/-- The beginning has a time in UTC, and the last piece could be a whole one. -/
def AwareTime.Reaches (start stop : AwareTime) : Prop :=
  (0 ≤ start.utc ∧ start.utc < endOfTime) ∧
    chunkedEnd (floorHour start.utc) stop.utc < endOfTime

/-- The hours of a remote base are asked for exactly once, or not at all : the pieces tile the
window from its first whole hour on, each is short and begins on a whole hour, and the files of the
pieces are the files of the window, in order. Where a whole piece does not fit it raises. -/
theorem fetchChunks_exactly_once {start stop : AwareTime} (h : start.utc < stop.utc) :
    (¬start.Reaches stop → fetchChunks start stop = .error .overflow) ∧
    (start.Reaches stop → ∃ pieces, fetchChunks start stop = .ok pieces ∧
      Tiles stop.utc (floorHour start.utc) pieces ∧
      (∀ piece ∈ pieces, piece.2 - piece.1 ≤ remoteChunk ∧ hourUs ∣ piece.1) ∧
      ∀ dir : LogDirectory, ∃ files, filesForWindow dir.found start.utc stop.utc = .ok files ∧
        (pieces.mapM fun piece => filesForWindow dir.found piece.1 piece.2).map List.flatten =
          .ok files ∧
        (files.map RawLogFile.path).Nodup) := by
  have hutc : start.clock + -start.utcOffset = start.utc := rfl
  have hbegin : floorHour start.utc < stop.utc := (floorHour_le _).trans_lt h
  constructor
  · intro hnot
    by_cases htime : 0 ≤ start.utc ∧ start.utc < endOfTime
    · have hend : endOfTime ≤ chunkedEnd (floorHour start.utc) stop.utc :=
        not_lt.1 fun hlt => hnot ⟨htime, hlt⟩
      rw [fetchChunks, AwareTime.astimezone, addDelta_eq_ok.2 ⟨htime, rfl⟩]
      exact (chunksFrom_spec (floorHour_nonneg htime.1)).2 hbegin hend
    · rw [fetchChunks, AwareTime.astimezone, addDelta_eq_error htime]
      rfl
  · rintro ⟨htime, hend⟩
    obtain ⟨pieces, hpieces⟩ := (chunksFrom_spec (floorHour_nonneg htime.1)).1 hend
    obtain ⟨htiles, hall⟩ := tiles_chunksFrom hbegin.le hpieces
    have hall := hall (dvd_floorHour _)
    refine ⟨pieces, ?_, htiles, hall, fun dir => ?_⟩
    · rw [fetchChunks, AwareTime.astimezone, addDelta_eq_ok.2 ⟨htime, rfl⟩]
      exact hpieces
    have hround : hourUs ∣ chunkedEnd (floorHour start.utc) stop.utc :=
      dvd_add (dvd_floorHour _) (Dvd.dvd.mul_left (Dvd.intro_left 48 rfl) _)
    have hsorted : (listLogs dir.found).Pairwise fun a b => a.startUs ≤ b.startUs :=
      (Retention.pairwise_listLogs dir.found).imp fun hle =>
        Int.add_le_add_left (Int.mul_le_mul_of_nonneg_right hle hourUs_pos.le) _
    refine ⟨_, dir.filesForWindow_eq (stop_le_chunkedEnd _ _) hround hend, ?_, ?_⟩
    · have hmap := mapM_eq_ok (l := pieces) fun piece hpiece =>
        @LogDirectory.filesForWindow_eq piece.1 piece.2 dir _
          ((htiles.snd_le hpiece).trans (stop_le_chunkedEnd _ _)) hround hend
      rw [hmap]
      refine congrArg Except.ok ?_
      calc (pieces.map fun piece =>
            (listLogs dir.found).filter (overlaps piece.1 piece.2)).flatten
          = pieces.flatMap (within RawLogFile.startUs (listLogs dir.found)) :=
            List.flatMap_congr fun piece hpiece => filter_overlaps _ (hall piece hpiece).2
        _ = within RawLogFile.startUs (listLogs dir.found) (floorHour start.utc, stop.utc) :=
            htiles.flatMap_filter hsorted
        _ = (listLogs dir.found).filter (overlaps (floorHour start.utc) stop.utc) :=
            (filter_overlaps _ (dvd_floorHour _)).symm
        _ = (listLogs dir.found).filter (overlaps start.utc stop.utc) :=
            List.filter_congr fun lf _ => overlaps_floorHour lf _ _
    · exact dir.nodup_listLogs.sublist (List.filter_sublist.map _)

/-- A window of three days, asked for by a clock two hours ahead of UTC. -/
theorem fetchChunks_exactly_once_three_days : ∃ pieces,
    fetchChunks ⟨unixEpochUs + 3 * hourUs + 1, 2 * hourUs, by decide, by decide⟩
      ⟨unixEpochUs + 80 * hourUs, 0, by decide, by decide⟩ = .ok pieces ∧
    pieces.map (fun piece => (piece.1 - unixEpochUs, piece.2 - unixEpochUs)) =
      [(hourUs, 49 * hourUs), (49 * hourUs, 80 * hourUs)] ∧
    Tiles (unixEpochUs + 80 * hourUs) (unixEpochUs + hourUs) pieces := by
  obtain ⟨pieces, hpieces, htiles, -⟩ := (@fetchChunks_exactly_once
    ⟨unixEpochUs + 3 * hourUs + 1, 2 * hourUs, by decide, by decide⟩
    ⟨unixEpochUs + 80 * hourUs, 0, by decide, by decide⟩ (by decide)).2
    (by unfold AwareTime.Reaches; decide +kernel)
  have hall : (fetchChunks ⟨unixEpochUs + 3 * hourUs + 1, 2 * hourUs, by decide, by decide⟩
      ⟨unixEpochUs + 80 * hourUs, 0, by decide, by decide⟩).map
        (List.map fun piece => (piece.1 - unixEpochUs, piece.2 - unixEpochUs)) =
      .ok [(hourUs, 49 * hourUs), (49 * hourUs, 80 * hourUs)] := by
    decide +kernel
  rw [hpieces] at hall
  exact ⟨pieces, hpieces, Except.ok.inj hall, htiles⟩

/-- The first twelve hours of the last day of the year 9999. -/
theorem fetchChunks_last_day : ∃ start stop : AwareTime,
    start.clock = endOfTime - dayUs ∧ start.utc < stop.utc ∧ stop.utc - start.utc = 12 * hourUs ∧
      ¬∃ pieces, fetchChunks start stop = .ok pieces := by
  refine ⟨⟨endOfTime - dayUs, 0, by decide, by decide⟩,
    ⟨endOfTime - 12 * hourUs, 0, by decide, by decide⟩, rfl, by decide, by decide, ?_⟩
  rintro ⟨pieces, hpieces⟩
  have herror : fetchChunks ⟨endOfTime - dayUs, 0, by decide, by decide⟩
      ⟨endOfTime - 12 * hourUs, 0, by decide, by decide⟩ = .error .overflow := by
    decide +kernel
  cases herror.symm.trans hpieces

end Mtrtk
